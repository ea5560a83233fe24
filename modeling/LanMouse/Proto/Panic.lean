import Mathlib.Tactic.IntervalCases
import LanMouse.Proto.RoundTrip

/-!
# Which bytes make a decoder panic

The fixed-size decoder reads within its buffer for every type that has a fixed body, and panics on
the type byte of a variable-length event. The slice decoder keeps the two apart and never panics.
-/
namespace LanMouse.Proto

open Bytes VarCodec

/-- The type bytes of the variable-length events. -/
def isVarByte (b : UInt8) : Bool := 12 ≤ b.toNat && b.toNat ≤ 18

theorem EventType.tryFrom_cases (b : UInt8) :
    (∃ t, EventType.tryFrom b = .ok t ∧ t.isFixed = !isVarByte b) ∨
      ∃ e, EventType.tryFrom b = .error e ∧ isVarByte b = false := by
  by_cases known : b.toNat < 19
  · left
    unfold EventType.tryFrom isVarByte
    generalize b.toNat = n at known
    interval_cases n <;> exact ⟨_, rfl, rfl⟩
  · right
    have unknown : EventType.all[b.toNat]? = none :=
      List.getElem?_eq_none (by simp [EventType.all]; omega)
    refine ⟨.invalidEventId b, by simp [EventType.tryFrom, unknown], ?_⟩
    simp [isVarByte]
    omega

theorem decodeU8_fills : Fills 1 decodeU8 := (Fills.word 1 _).map

theorem decodeU32_fills : Fills 4 decodeU32 := (Fills.word 4 _).map

theorem decodeI32_fills : Fills 4 decodeI32 := (Fills.word 4 _).map

theorem decodeF64_fills : Fills 8 decodeF64 := (Fills.word 8 _).map

/-- How many bytes follow the type byte of a fixed-size event. -/
def EventType.bodySize : EventType → Nat
  | .pointerMotion => 4 + (8 + 8)
  | .pointerButton => 4 + (4 + 4)
  | .pointerAxis => 4 + (1 + 8)
  | .pointerAxisValue120 => 1 + 4
  | .keyboardKey => 4 + (4 + 1)
  | .keyboardModifiers => 4 + (4 + (4 + 4))
  | .pong | .enter => 1
  | .leave | .ack => 4
  | .hello => 8 + 8
  | _ => 0

theorem EventType.bodySize_le (t : EventType) : t.bodySize ≤ 20 := by
  cases t <;> decide

/-- Only the position of an `Enter` can be wrong. -/
theorem decodeFixedBody_fills {t : EventType} (fixed : t.isFixed = true) (other : t ≠ .enter) :
    Fills t.bodySize (decodeFixedBody t) := by
  cases t with
  | pointerMotion =>
    exact decodeU32_fills.bind fun _ => decodeF64_fills.bind fun _ =>
      decodeF64_fills.bind fun _ => .pure _
  | pointerButton =>
    exact decodeU32_fills.bind fun _ => decodeU32_fills.bind fun _ =>
      decodeU32_fills.bind fun _ => .pure _
  | pointerAxis =>
    exact decodeU32_fills.bind fun _ => decodeU8_fills.bind fun _ =>
      decodeF64_fills.bind fun _ => .pure _
  | pointerAxisValue120 =>
    exact decodeU8_fills.bind fun _ => decodeI32_fills.bind fun _ => .pure _
  | keyboardKey =>
    exact decodeU32_fills.bind fun _ => decodeU32_fills.bind fun _ =>
      decodeU8_fills.bind fun _ => .pure _
  | keyboardModifiers =>
    exact decodeU32_fills.bind fun _ => decodeU32_fills.bind fun _ =>
      decodeU32_fills.bind fun _ => decodeU32_fills.bind fun _ => .pure _
  | ping => exact .pure _
  | pong => exact decodeU8_fills.bind fun _ => .pure _
  | enter => exact absurd rfl other
  | leave => exact decodeU32_fills.bind fun _ => .pure _
  | ack => exact decodeU32_fills.bind fun _ => .pure _
  | hello =>
    exact (Fills.array 8 _).bind fun _ => (Fills.array 8 _).bind fun _ => .pure _
  | _ => exact absurd fixed Bool.false_ne_true

theorem decodeFixedBody_enter (b : UInt8) (rest : List UInt8) :
    decodeFixedBody .enter (b :: rest) = match Position.tryFrom b with
      | .ok pos => .ok (.enter pos, rest)
      | .error e => .error (.err e) := by
  have byte : decodeU8 (b :: rest) = .ok (b, rest) := by
    simpa using reads_decodeU8 b rest
  have step : decodeFixedBody .enter (b :: rest) = (decodeU8 (b :: rest) >>= fun p =>
      (match Position.tryFrom p.1 with
        | .ok pos => pure (.enter pos)
        | .error e => fail (.err e) : Decode ProtoEvent) p.2) := rfl
  rw [step, byte]
  change (match Position.tryFrom b with
    | .ok pos => pure (.enter pos)
    | .error e => fail (.err e) : Decode ProtoEvent) rest = _
  cases Position.tryFrom b <;> rfl

/-- In twenty bytes a fixed-size decoder finds its event, or reports an error. -/
theorem decodeFixedBody_cases {t : EventType} (fixed : t.isFixed = true) {buf : List UInt8}
    (room : 20 ≤ buf.length) :
    (∃ p, decodeFixedBody t buf = .ok p) ∨ ∃ e, decodeFixedBody t buf = .error (.err e) := by
  by_cases enter : t = .enter
  · obtain ⟨b, rest, rfl⟩ : ∃ b rest, buf = b :: rest :=
      List.exists_cons_of_length_pos (by omega)
    rw [enter, decodeFixedBody_enter]
    cases Position.tryFrom b with
    | ok pos => exact .inl ⟨_, rfl⟩
    | error e => exact .inr ⟨e, rfl⟩
  · obtain ⟨e, ok⟩ := decodeFixedBody_fills fixed enter buf (t.bodySize_le.trans room)
    exact .inl ⟨_, ok⟩

theorem decodeFixedBody_var {t : EventType} (var : t.isFixed = false) (buf : List UInt8) :
    decodeFixedBody t buf = .error .panic := by
  cases t <;> first | rfl | exact absurd var.symm Bool.false_ne_true

theorem decodeFixed_cons (b : UInt8) (rest : List UInt8) :
    decodeFixed (b :: rest) = match EventType.tryFrom b with
      | .ok t => decodeFixedBody t rest
      | .error e => .error (.err e) := by
  have byte : decodeU8 (b :: rest) = .ok (b, rest) := by
    simpa using reads_decodeU8 b rest
  have step : decodeFixed (b :: rest) = (decodeU8 (b :: rest) >>= fun p =>
      (match EventType.tryFrom p.1 with
        | .ok t => decodeFixedBody t
        | .error e => fail (.err e) : Decode ProtoEvent) p.2) := rfl
  rw [step, byte]
  change (match EventType.tryFrom b with
    | .ok t => decodeFixedBody t
    | .error e => fail (.err e) : Decode ProtoEvent) rest = _
  cases EventType.tryFrom b <;> rfl

/-- What the fixed-size decoder does with any buffer. -/
theorem tryFromFixed_cases (buf : Vector UInt8 maxEventSize) :
    (isVarByte buf[0] = true ∧ ProtoEvent.tryFromFixed buf = .error .panic) ∨
      (isVarByte buf[0] = false ∧ ((∃ e, ProtoEvent.tryFromFixed buf = .ok e) ∨
        ∃ e, ProtoEvent.tryFromFixed buf = .error (.err e))) := by
  obtain ⟨b, rest, split⟩ : ∃ b rest, buf.toList = b :: rest :=
    List.exists_cons_of_length_pos (by rw [Vector.length_toList]; decide)
  have room : rest.length = 20 := by
    have size : buf.toList.length = 21 := Vector.length_toList
    simpa [split] using size
  have head : buf[0] = b := by
    simp [← Vector.getElem_toList, split]
  rw [head, ProtoEvent.tryFromFixed, split, decodeFixed_cons]
  obtain ⟨t, known, kind⟩ | ⟨e, unknown, kind⟩ := EventType.tryFrom_cases b
  · cases var : isVarByte b with
    | true =>
      left
      rw [var] at kind
      exact ⟨rfl, by rw [known]; simp only [decodeFixedBody_var kind]; rfl⟩
    | false =>
      right
      rw [var] at kind
      refine ⟨rfl, ?_⟩
      simp only [known]
      obtain ⟨p, ok⟩ | ⟨e, err⟩ := decodeFixedBody_cases kind (show 20 ≤ rest.length by omega)
      · exact .inl ⟨p.1, by rw [ok]; rfl⟩
      · exact .inr ⟨e, by rw [err]; rfl⟩
  · exact .inr ⟨kind, .inr ⟨e, by rw [unknown]; rfl⟩⟩

/-! ### The slice decoder -/

theorem readHash_takes : TakesAtLeast 32 readHash := .array 32 _

theorem readU64Be_takes : TakesAtLeast 8 readU64Be := (TakesAtLeast.word 8 _).map

theorem readBool_takes : TakesAtLeast 1 readBool := (TakesAtLeast.word 1 _).bind fun _ => .pure _

theorem readBytes_takes : TakesAtLeast 4 readBytes :=
  (TakesAtLeast.word 4 _).bind fun len => (TakesAtLeast.take len _).mono (Nat.zero_le len)

theorem readString_takes : TakesAtLeast 4 readString := by
  refine TakesAtLeast.bind readBytes_takes (m := 0) fun bytes => ?_
  cases fromUtf8 bytes with
  | some s => exact .pure s
  | none => exact .fail 0 _

theorem readInline_takes : TakesAtLeast 1 readInline := by
  refine TakesAtLeast.bind readBool_takes (m := 0) fun hasInline => ?_
  cases hasInline with
  | true => exact (readBytes_takes.map (f := some)).mono (Nat.zero_le 4)
  | false => exact .pure none

theorem fileEntry_takes : TakesAtLeast 48 (decodeVarBody : Decode FileEntry) :=
  readString_takes.bind fun _ => readU64Be_takes.bind fun _ => readString_takes.bind fun _ =>
    readHash_takes.bind fun _ => .pure _

theorem readVecVar_takes : TakesAtLeast 4 (readVecVar FileEntry) := by
  refine TakesAtLeast.bind (TakesAtLeast.word 4 _) (m := 0) fun len => ?_
  have block := (TakesAtLeast.take len ProtocolError.frameTooShort).mono (Nat.zero_le len)
  refine TakesAtLeast.bind block (m := 0) fun body => ?_
  have items := readItems_safe (fileEntry_takes.mono (by decide)) body.length body (Nat.le_refl _)
  obtain ⟨xs, ok⟩ | ⟨e, err⟩ := items
  · rw [ok]
    exact .pure xs
  · rw [err]
    exact .fail 0 e

theorem decodeVar_takes {t : EventType} (var : t.isFixed = false) :
    TakesAtLeast 0 (decodeVar t) := by
  cases t with
  | clipboardText =>
    exact (readHash_takes.bind fun _ => readHash_takes.bind fun _ => readU64Be_takes.bind fun _ =>
      readInline_takes.bind fun _ => .pure _).map.mono (Nat.zero_le _)
  | clipboardImage =>
    exact (readHash_takes.bind fun _ => readString_takes.bind fun _ => readHash_takes.bind fun _ =>
      readU64Be_takes.bind fun _ => .pure _).map.mono (Nat.zero_le _)
  | clipboardFiles =>
    exact (readHash_takes.bind fun _ => readVecVar_takes.bind fun _ => .pure _).map.mono
      (Nat.zero_le _)
  | fileTransferOffer =>
    exact (readHash_takes.bind fun _ => readString_takes.bind fun _ => readU64Be_takes.bind fun _ =>
      readString_takes.bind fun _ => .pure _).map.mono (Nat.zero_le _)
  | fileTransferResponse =>
    exact (readHash_takes.bind fun _ => readBool_takes.bind fun _ => .pure _).map.mono
      (Nat.zero_le _)
  | fileTransferCancel =>
    exact (readHash_takes.bind fun _ => .pure _).map.mono (Nat.zero_le _)
  | clipboardRequest =>
    exact (readHash_takes.bind fun _ => .pure _).map.mono (Nat.zero_le _)
  | _ => exact absurd var.symm Bool.false_ne_true

/-- A variable-length body is accepted if it is used up. -/
theorem tryFromSlice_var_ok_iff {b : UInt8} {t : EventType} (known : EventType.tryFrom b = .ok t)
    (var : t.isFixed = false) {body : List UInt8} {e : ProtoEvent} :
    ProtoEvent.tryFromSlice (b :: body) = .ok e ↔ decodeVar t body = .ok (e, []) := by
  simp only [ProtoEvent.tryFromSlice, known, var]
  cases decoded : decodeVar t body with
  | error f => simp [bind, Except.bind]
  | ok p =>
    obtain ⟨result, rest⟩ := p
    cases rest with
    | nil => simp [bind, Except.bind]
    | cons b rest => simp [bind, Except.bind]

/-- The slice decoder accepts or reports an error, whatever the bytes. -/
theorem tryFromSlice_cases (buf : List UInt8) :
    (∃ e, ProtoEvent.tryFromSlice buf = .ok e) ∨
      ∃ e, ProtoEvent.tryFromSlice buf = .error (.err e) := by
  cases buf with
  | nil => exact .inr ⟨.emptyInput, rfl⟩
  | cons ty body =>
    rw [ProtoEvent.tryFromSlice]
    obtain ⟨t, known, kind⟩ | ⟨e, unknown, -⟩ := EventType.tryFrom_cases ty
    · simp only [known]
      cases fixed : t.isFixed with
      | true =>
        have first : (padTo maxEventSize (ty :: body.take (maxEventSize - 1)))[0] = ty :=
          padTo_zero _
        obtain ⟨var, -⟩ | ⟨-, done⟩ :=
          tryFromFixed_cases (padTo maxEventSize (ty :: body.take (maxEventSize - 1)))
        · rw [first] at var
          simp [fixed, var] at kind
        · exact done
      | false =>
        obtain ⟨e, rest, ok, -⟩ | ⟨e, err⟩ := decodeVar_takes fixed body
        · cases rest with
          | nil => exact .inl ⟨e, by rw [ok]; rfl⟩
          | cons _ _ => exact .inr ⟨.frameTooShort, by rw [ok]; rfl⟩
        · exact .inr ⟨e, by rw [err]; rfl⟩
    · exact .inr ⟨e, by simp only [unknown]⟩

end LanMouse.Proto
