import LanMouse.Transport.Panic

/-!
# Bodies of the wrong length

The fixed-size decoder works on a zeroed buffer and is not told how much of it was filled. The frame
reader and the slice decoder hand it a body of any length: what is missing is zero, and what is too
much is left out. `acceptedType` says as what type of event a body is accepted, from its first two
bytes alone; the length of an accepted body is that of the event's encoding only if the peer sees to
it.
-/
namespace LanMouse.Transport

open Bytes Proto

/-- The fixed-size type that the first byte of a body names, a missing byte counting as zero; none
if the position of an `Enter` is not one. -/
def acceptedType (body : List UInt8) : Option EventType :=
  match EventType.tryFrom (body.headD 0) with
  | .error _ => none
  | .ok t =>
    if t = .enter then
      match Position.tryFrom (body.tail.headD 0) with
      | .ok _ => some .enter
      | .error _ => none
    else if t.isFixed then some t else none

/-- A body that is accepted is as long as events of its type are. -/
def SizeFits (body : List UInt8) : Prop := ∀ t ∈ acceptedType body, body.length = t.bodySize + 1

instance (body : List UInt8) : Decidable (SizeFits body) :=
  inferInstanceAs (Decidable (∀ t ∈ acceptedType body, body.length = t.bodySize + 1))

theorem decodeFixedBody_yields {t : EventType} (fixed : t.isFixed = true) :
    Yields (fun e => e.eventType = t) (decodeFixedBody t) := by
  cases t with
  | pointerMotion => exact .bind fun _ => .bind fun _ => .bind fun _ => .pure rfl
  | pointerButton => exact .bind fun _ => .bind fun _ => .bind fun _ => .pure rfl
  | pointerAxis => exact .bind fun _ => .bind fun _ => .bind fun _ => .pure rfl
  | pointerAxisValue120 => exact .bind fun _ => .bind fun _ => .pure rfl
  | keyboardKey => exact .bind fun _ => .bind fun _ => .bind fun _ => .pure rfl
  | keyboardModifiers =>
    exact .bind fun _ => .bind fun _ => .bind fun _ => .bind fun _ => .pure rfl
  | ping => exact .pure rfl
  | pong => exact .bind fun _ => .pure rfl
  | enter =>
    refine .bind fun b => ?_
    cases Position.tryFrom b with
    | ok pos => exact .pure rfl
    | error e => exact .fail _
  | leave => exact .bind fun _ => .pure rfl
  | ack => exact .bind fun _ => .pure rfl
  | hello => exact .bind fun _ => .bind fun _ => .pure rfl
  | _ => exact absurd fixed Bool.false_ne_true

theorem decodeVar_yields {t : EventType} (var : t.isFixed = false) :
    Yields (fun e => e.eventType = t) (decodeVar t) := by
  cases t <;> first
    | exact .map fun _ => rfl
    | exact absurd var.symm Bool.false_ne_true

theorem length_body_eq {e : ProtoEvent} (fixed : e.eventType.isFixed = true) :
    e.body.length = e.eventType.bodySize := by
  cases e with
  | input e =>
    rcases e with (_ | _ | _ | _) | (_ | _) <;>
      simp [ProtoEvent.body, InputEvent.encodeFixedBody, ProtoEvent.eventType, EventType.bodySize]
  | _ =>
    first
    | exact absurd fixed Bool.false_ne_true
    | simp [ProtoEvent.body, ProtoEvent.eventType, EventType.bodySize]

/-- The length the fixed-size encoding of an event reports. -/
theorem toFixed_length_iff {e : ProtoEvent} (fixed : e.eventType.isFixed = true) {n : Nat} :
    (∃ buf, e.toFixed = .ok (buf, n)) ↔ n = e.eventType.bodySize + 1 := by
  rw [ProtoEvent.toFixed_eq fixed, length_body_eq fixed]
  constructor
  · rintro ⟨buf, same⟩
    exact (Prod.mk.inj (Except.ok.inj same)).2.symm
  · rintro rfl
    exact ⟨_, rfl⟩

/-! ### What is accepted -/

theorem tryFromFixed_padTo_eq (body : List UInt8) :
    ProtoEvent.tryFromFixed (padTo maxEventSize body) =
      match EventType.tryFrom (body.headD 0) with
      | .ok t => Prod.fst <$> decodeFixedBody t (padTo 20 body.tail).toList
      | .error e => .error (.err e) := by
  have split : (padTo maxEventSize body).toList = body.headD 0 :: (padTo 20 body.tail).toList :=
    toList_padTo_succ body
  rw [ProtoEvent.tryFromFixed, split, decodeFixed_cons]
  cases EventType.tryFrom (body.headD 0) <;> rfl

theorem decodeFixedBody_enter_padTo (rest : List UInt8) :
    Prod.fst <$> decodeFixedBody .enter (padTo 20 rest).toList =
      match Position.tryFrom (rest.headD 0) with
      | .ok pos => .ok (.enter pos)
      | .error e => .error (.err e) := by
  rw [toList_padTo_succ, decodeFixedBody_enter]
  cases Position.tryFrom (rest.headD 0) <;> rfl

theorem acceptedType_of_ok {body : List UInt8} {e : ProtoEvent}
    (ok : ProtoEvent.tryFromFixed (padTo maxEventSize body) = .ok e) :
    acceptedType body = some e.eventType ∧ e.eventType.isFixed = true := by
  rw [tryFromFixed_padTo_eq] at ok
  cases known : EventType.tryFrom (body.headD 0) with
  | error err =>
    rw [known] at ok
    cases ok
  | ok t =>
    simp only [known] at ok
    cases fixed : t.isFixed with
    | false =>
      rw [decodeFixedBody_var fixed] at ok
      cases ok
    | true =>
      by_cases enter : t = .enter
      · subst enter
        rw [decodeFixedBody_enter_padTo] at ok
        cases pos : Position.tryFrom (body.tail.headD 0) with
        | error err =>
          rw [pos] at ok
          cases ok
        | ok p =>
          rw [pos] at ok
          obtain rfl := Except.ok.inj ok
          exact ⟨by simp only [acceptedType, known, if_true, pos]; rfl, rfl⟩
      · cases decoded : decodeFixedBody t (padTo 20 body.tail).toList with
        | error f =>
          rw [decoded] at ok
          cases ok
        | ok p =>
          rw [decoded] at ok
          obtain rfl : p.1 = e := Except.ok.inj ok
          have type := decodeFixedBody_yields fixed _ p.1 p.2 decoded
          rw [type]
          exact ⟨by simp only [acceptedType, known, if_neg enter, fixed, if_true], fixed⟩

theorem ok_of_acceptedType {body : List UInt8} {t : EventType}
    (accepted : acceptedType body = some t) :
    ∃ e, ProtoEvent.tryFromFixed (padTo maxEventSize body) = .ok e := by
  rw [tryFromFixed_padTo_eq]
  rw [acceptedType] at accepted
  cases known : EventType.tryFrom (body.headD 0) with
  | error err =>
    simp only [known] at accepted
    cases accepted
  | ok named =>
    simp only [known] at accepted ⊢
    by_cases enter : named = .enter
    · subst enter
      rw [decodeFixedBody_enter_padTo]
      cases pos : Position.tryFrom (body.tail.headD 0) with
      | error err =>
        simp only [if_true, pos] at accepted
        cases accepted
      | ok p => exact ⟨_, rfl⟩
    · cases fixed : named.isFixed with
      | false => simp [enter, fixed] at accepted
      | true =>
        have room : named.bodySize ≤ (padTo 20 body.tail).toList.length := by
          rw [Vector.length_toList]
          exact named.bodySize_le
        obtain ⟨e, ok⟩ := decodeFixedBody_fills fixed enter _ room
        exact ⟨e, by rw [ok]; rfl⟩

/-- Every event a body is accepted as has the body's length, just if the size fits. -/
theorem forall_ok_iff_sizeFits (body : List UInt8) :
    (∀ e, ProtoEvent.tryFromFixed (padTo maxEventSize body) = .ok e →
      ∃ buf, e.toFixed = .ok (buf, body.length)) ↔ SizeFits body := by
  constructor
  · intro exact_ t accepted
    obtain ⟨e, ok⟩ := ok_of_acceptedType accepted
    obtain ⟨type, fixed⟩ := acceptedType_of_ok ok
    obtain rfl : t = e.eventType := Option.some.inj (accepted.symm.trans type)
    exact (toFixed_length_iff fixed).mp (exact_ e ok)
  · intro fits e ok
    obtain ⟨type, fixed⟩ := acceptedType_of_ok ok
    exact (toFixed_length_iff fixed).mpr (fits _ type)

theorem tryFromSlice_fixed_iff {b : UInt8} {rest : List UInt8} {e : ProtoEvent} :
    (ProtoEvent.tryFromSlice (b :: rest) = .ok e ∧ e.eventType.isFixed = true) ↔
      ProtoEvent.tryFromFixed (padTo maxEventSize (b :: rest)) = .ok e := by
  have cut : padTo maxEventSize (b :: rest.take (maxEventSize - 1)) =
      padTo maxEventSize (b :: rest) := padTo_take maxEventSize (b :: rest)
  have whole := tryFromFixed_padTo_eq (b :: rest)
  rw [List.headD_cons, List.tail_cons] at whole
  cases known : EventType.tryFrom b with
  | error err => simp [ProtoEvent.tryFromSlice, whole, known]
  | ok t =>
    cases fixed : t.isFixed with
    | true =>
      simp only [ProtoEvent.tryFromSlice, known, fixed, if_true, cut]
      constructor
      · exact And.left
      · intro ok
        exact ⟨ok, (acceptedType_of_ok ok).2⟩
    | false =>
      constructor
      · rintro ⟨ok, isFixed⟩
        have type := decodeVar_yields fixed _ _ _ ((tryFromSlice_var_ok_iff known fixed).mp ok)
        rw [type, fixed] at isFixed
        cases isFixed
      · intro ok
        simp only [whole, known, decodeFixedBody_var fixed] at ok
        cases ok

/-- A fixed-size event the slice decoder accepts is as long as its body, just if the body is empty
or its size fits; one the frame reader accepts, just if the size of the frame at the front of the
stream fits. -/
theorem fixed_body_length_iff (body : List UInt8) (recv : RecvStream) :
    ((∀ e, ProtoEvent.tryFromSlice body = .ok e → e.eventType.isFixed = true →
        ∃ buf, e.toFixed = .ok (buf, body.length)) ↔ body = [] ∨ SizeFits body) ∧
      (headFrame recv.bytes = some body →
        ((∀ e rest, readFrame recv = (.ok e, rest) → ∃ buf, e.toFixed = .ok (buf, body.length)) ↔
          SizeFits body)) := by
  constructor
  · cases body with
    | nil => exact ⟨fun _ => .inl rfl, fun _ _ ok => nomatch ok⟩
    | cons b rest =>
      rw [or_iff_right (List.cons_ne_nil b rest), ← forall_ok_iff_sizeFits]
      refine forall_congr' fun e => ?_
      rw [← and_imp, tryFromSlice_fixed_iff]
  · intro frame
    obtain ⟨own, found, read⟩ | ⟨none, -⟩ := readFrame_cases recv
    · obtain rfl : own = body := Option.some.inj (found.symm.trans frame)
      rw [← forall_ok_iff_sizeFits, read]
      refine forall_congr' fun e => ⟨fun all ok => all _ (by rw [ok]; rfl), fun all rest ok => ?_⟩
      refine all ?_
      obtain ⟨-, quiet⟩ | ⟨-, ⟨event, decoded⟩ | ⟨err, failed⟩⟩ := tryFromFixed_body_cases own
      · rw [quiet] at ok
        cases ok
      · rw [decoded] at ok ⊢
        cases ok
        rfl
      · rw [failed] at ok
        cases ok
    · rw [none] at frame
      cases frame

theorem fixed_body_length_iff_ping :
    headFrame [0, 0, 0, 1, 6] = some [6] ∧
      ∀ e rest, readFrame ⟨[0, 0, 0, 1, 6], .eof⟩ = (.ok e, rest) →
        ∃ buf, e.toFixed = .ok (buf, 1) := by
  have frame : headFrame [0, 0, 0, 1, 6] = some [6] := by decide
  exact ⟨frame, ((fixed_body_length_iff [6] ⟨[0, 0, 0, 1, 6], .eof⟩).2 frame).mpr (by decide)⟩

/-- A `Leave` without its serial is a `Leave` with serial zero, and a frame without anything in it a
motion of the pointer. -/
theorem fixed_body_length_short :
    ProtoEvent.tryFromSlice [9] = .ok (.leave 0) ∧
      (ProtoEvent.leave 0).eventType.isFixed = true ∧
      (¬ ∃ buf, (ProtoEvent.leave 0).toFixed = .ok (buf, 1)) ∧
      readFrame ⟨[0, 0, 0, 0], .eof⟩ = (.ok (.input (.pointer (.motion 0 0 0))), ⟨[], .eof⟩) ∧
      ¬ ∃ buf, (ProtoEvent.input (.pointer (.motion 0 0 0))).toFixed = .ok (buf, 0) := by
  refine ⟨by decide +kernel, rfl, ?_, by decide +kernel, ?_⟩
  · rw [toFixed_length_iff rfl]
    decide
  · rw [toFixed_length_iff rfl]
    decide

end LanMouse.Transport
