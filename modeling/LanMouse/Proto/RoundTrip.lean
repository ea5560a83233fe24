import LanMouse.Proto.Codec

/-!
# Decoding what was encoded

`ProtoEvent.body` is what follows the type byte of an event on the wire, by either codec. Each
reader undoes its writer, so a decoder reads exactly the body its event encodes to, and the two
dispatches on the type byte agree.
-/
namespace LanMouse.Proto

open Bytes VarCodec

/-! ### The fields -/

@[simp] theorem length_beU32 (n : UInt32) : (beU32 n).length = 4 := length_toBE 4 _

@[simp] theorem length_beI32 (n : Int32) : (beI32 n).length = 4 := length_toBE 4 _

@[simp] theorem length_beF64 (n : F64) : (beF64 n).length = 8 := length_toBE 8 _

@[simp] theorem beU8_eq (n : UInt8) : beU8 n = [n] := by
  simp [beU8, toBE]

theorem reads_decodeU8 (n : UInt8) : Reads decodeU8 (beU8 n) n :=
  Reads.wordAs n.toNat_lt (by simp)

theorem reads_decodeU32 (n : UInt32) : Reads decodeU32 (beU32 n) n :=
  Reads.wordAs n.toNat_lt (by simp)

theorem reads_decodeI32 (n : Int32) : Reads decodeI32 (beI32 n) n :=
  Reads.wordAs n.toUInt32.toNat_lt (by simp)

theorem reads_decodeF64 (n : F64) : Reads decodeF64 (beF64 n) n :=
  Reads.wordAs n.toNat_lt (by simp)

theorem reads_readHash (h : Hash) : Reads readHash h.toList h := Reads.array h

theorem reads_readU64Be (n : UInt64) : Reads readU64Be (toBE 8 n.toNat) n :=
  Reads.wordAs n.toNat_lt (by simp)

theorem reads_readBool (b : Bool) : Reads readBool [if b then 1 else 0] b := by
  cases b <;> exact fun _ => rfl

theorem reads_readBytes {bs : List UInt8} (fits : bs.length < 2 ^ 32) :
    Reads readBytes (toBE 4 bs.length ++ bs) bs :=
  Reads.bind (Reads.word fits) (Reads.take rfl)

theorem fromUtf8_asBytes (s : String) : fromUtf8 (asBytes s) = some s := by
  unfold fromUtf8 asBytes String.fromUTF8?
  rw [Array.toArray_toList, String.toUTF8_eq_toByteArray]
  exact dif_pos s.isValidUTF8

theorem reads_readString {s : String} (fits : (asBytes s).length < 2 ^ 32) :
    Reads readString (toBE 4 (asBytes s).length ++ asBytes s) s := by
  refine (Reads.bind (reads_readBytes fits) ?_).congr (List.append_nil _)
  rw [fromUtf8_asBytes]
  exact Reads.pure s

/-! ### The bodies -/

@[simp] theorem writeHash_eq (buf : List UInt8) (h : Hash) :
    writeHash buf h = buf ++ h.toList := rfl

@[simp] theorem writeU64Be_eq (buf : List UInt8) (n : UInt64) :
    writeU64Be buf n = buf ++ toBE 8 n.toNat := rfl

@[simp] theorem writeBool_eq (buf : List UInt8) (b : Bool) :
    writeBool buf b = buf ++ [if b then 1 else 0] := rfl

@[simp] theorem writeBytes_eq (buf bs : List UInt8) :
    writeBytes buf bs = buf ++ (toBE 4 bs.length ++ bs) := List.append_assoc ..

@[simp] theorem writeString_eq (buf : List UInt8) (s : String) :
    writeString buf s = buf ++ (toBE 4 (asBytes s).length ++ asBytes s) := writeBytes_eq ..

/-- Encoding appends: what was in the buffer stays and does not matter. -/
class AppendingCodec (α : Type) [VarCodec α] : Prop where
  encodeVarBody_append (x : α) (buf : List UInt8) : encodeVarBody x buf = buf ++ encodeVarBody x []

open AppendingCodec

theorem foldl_encodeVarBody {α : Type} [VarCodec α] [AppendingCodec α] (items : List α)
    (buf : List UInt8) : items.foldl (fun buf item => encodeVarBody item buf) buf
      = buf ++ items.flatMap fun item => encodeVarBody item [] := by
  induction items generalizing buf with
  | nil => simp
  | cons item items ih =>
    rw [List.foldl_cons, ih, encodeVarBody_append, List.flatMap_cons, List.append_assoc]

@[simp] theorem writeVecVar_eq {α : Type} [VarCodec α] [AppendingCodec α] (buf : List UInt8)
    (items : List α) : writeVecVar buf items =
      buf ++ (toBE 4 (items.flatMap fun item => encodeVarBody item []).length
        ++ items.flatMap fun item => encodeVarBody item []) := by
  simp only [writeVecVar, foldl_encodeVarBody]
  generalize items.flatMap (fun item => encodeVarBody item []) = block
  have used : (buf ++ [0, 0, 0, 0] ++ block).length - (buf ++ [0, 0, 0, 0]).length
      = block.length := by simp only [List.length_append]; omega
  rw [used]
  simp [patch]

theorem reads_readVecVar {α : Type} [VarCodec α] [AppendingCodec α] (items : List α)
    (reads : ∀ x ∈ items, Reads decodeVarBody (encodeVarBody x []) x)
    (some_ : ∀ x ∈ items, encodeVarBody x [] ≠ [])
    (fits : (items.flatMap fun x => encodeVarBody x []).length < 2 ^ 32) :
    Reads (readVecVar α) (toBE 4 (items.flatMap fun x => encodeVarBody x []).length
      ++ items.flatMap fun x => encodeVarBody x []) items := by
  have block := readItems_flatMap decodeVarBody (fun x : α => encodeVarBody x []) items reads some_
    _ (length_le_flatMap some_)
  refine Reads.bind (Reads.word fits) ((Reads.bind (Reads.take rfl) ?_).congr (List.append_nil _))
  rw [block]
  exact Reads.pure items

instance : AppendingCodec ClipboardText where
  encodeVarBody_append ct buf := by
    cases h : ct.contentInline <;> simp [encodeVarBody, h]

instance : AppendingCodec ClipboardImage where
  encodeVarBody_append _ _ := by simp [encodeVarBody]

instance : AppendingCodec FileEntry where
  encodeVarBody_append _ _ := by simp [encodeVarBody]

instance : AppendingCodec ClipboardFiles where
  encodeVarBody_append _ _ := by simp [encodeVarBody]

instance : AppendingCodec FileTransferOffer where
  encodeVarBody_append _ _ := by simp [encodeVarBody]

instance : AppendingCodec FileTransferResponse where
  encodeVarBody_append _ _ := by simp [encodeVarBody]

instance : AppendingCodec FileTransferCancel where
  encodeVarBody_append _ _ := by simp [encodeVarBody]

instance : AppendingCodec ClipboardRequest where
  encodeVarBody_append _ _ := by simp [encodeVarBody]

theorem reads_clipboardText {ct : ClipboardText}
    (fits : ∀ bs ∈ ct.contentInline, bs.length < 2 ^ 32) :
    Reads decodeVarBody (encodeVarBody ct []) ct := by
  have head {bs : List UInt8} (tail : Reads readInline bs ct.contentInline) :
      Reads decodeVarBody (ct.fingerprint.toList ++ (ct.sha256.toList
        ++ (toBE 8 ct.size.toNat ++ (bs ++ [])))) ct :=
    Reads.bind (reads_readHash ct.fingerprint) (Reads.bind (reads_readHash ct.sha256)
      (Reads.bind (reads_readU64Be ct.size) (Reads.bind tail (Reads.pure ct))))
  cases inline : ct.contentInline with
  | none =>
    have tail : Reads readInline [0] none := Reads.bind (reads_readBool false) (Reads.pure none)
    exact Reads.congr (head (inline ▸ tail)) (by simp [encodeVarBody, inline])
  | some bs =>
    have tail : Reads readInline (1 :: (toBE 4 bs.length ++ bs)) (some bs) :=
      Reads.bind (reads_readBool true) (reads_readBytes (fits bs inline)).map
    exact Reads.congr (head (inline ▸ tail)) (by simp [encodeVarBody, inline])

theorem reads_clipboardImage {ci : ClipboardImage} (fits : (asBytes ci.mime).length < 2 ^ 32) :
    Reads decodeVarBody (encodeVarBody ci []) ci :=
  Reads.congr (Reads.bind (reads_readHash ci.fingerprint) (Reads.bind (reads_readString fits)
    (Reads.bind (reads_readHash ci.sha256) (Reads.bind (reads_readU64Be ci.size) (Reads.pure ci)))))
    (by simp [encodeVarBody])

theorem reads_fileEntry {e : FileEntry} (name : (asBytes e.name).length < 2 ^ 32)
    (mime : (asBytes e.mime).length < 2 ^ 32) :
    Reads decodeVarBody (encodeVarBody e []) e :=
  Reads.congr (Reads.bind (reads_readString name) (Reads.bind (reads_readU64Be e.size)
    (Reads.bind (reads_readString mime) (Reads.bind (reads_readHash e.sha256) (Reads.pure e)))))
    (by simp [encodeVarBody])

theorem encodeVarBody_fileEntry_ne_nil (e : FileEntry) : encodeVarBody e [] ≠ [] := by
  simp [encodeVarBody, toBE]

/-- The block of encoded entries in a `ClipboardFiles` body, without its length. -/
def ClipboardFiles.block (cf : ClipboardFiles) : List UInt8 :=
  cf.entries.flatMap fun e => encodeVarBody e []

theorem reads_clipboardFiles {cf : ClipboardFiles}
    (names : ∀ e ∈ cf.entries, (asBytes e.name).length < 2 ^ 32)
    (mimes : ∀ e ∈ cf.entries, (asBytes e.mime).length < 2 ^ 32)
    (fits : cf.block.length < 2 ^ 32) : Reads decodeVarBody (encodeVarBody cf []) cf := by
  have entries := reads_readVecVar cf.entries
    (fun e mem => reads_fileEntry (names e mem) (mimes e mem))
    (fun e _ => encodeVarBody_fileEntry_ne_nil e) fits
  have bytes : encodeVarBody cf [] = writeVecVar cf.fingerprint.toList cf.entries := rfl
  rw [bytes, writeVecVar_eq]
  exact Reads.bind (reads_readHash cf.fingerprint)
    (Reads.congr (Reads.bind entries (Reads.pure cf)) (List.append_nil _))

theorem reads_fileTransferOffer {o : FileTransferOffer} (name : (asBytes o.name).length < 2 ^ 32)
    (mime : (asBytes o.mime).length < 2 ^ 32) :
    Reads decodeVarBody (encodeVarBody o []) o :=
  Reads.congr (Reads.bind (reads_readHash o.sha256) (Reads.bind (reads_readString name)
    (Reads.bind (reads_readU64Be o.size) (Reads.bind (reads_readString mime) (Reads.pure o)))))
    (by simp [encodeVarBody])

theorem reads_fileTransferResponse (r : FileTransferResponse) :
    Reads decodeVarBody (encodeVarBody r []) r :=
  Reads.congr (Reads.bind (reads_readHash r.sha256) (Reads.bind (reads_readBool r.accept)
    (Reads.pure r))) (by simp [encodeVarBody])

theorem reads_fileTransferCancel (c : FileTransferCancel) :
    Reads decodeVarBody (encodeVarBody c []) c :=
  Reads.congr (Reads.bind (reads_readHash c.sha256) (Reads.pure c)) (by simp [encodeVarBody])

theorem reads_clipboardRequest (r : ClipboardRequest) :
    Reads decodeVarBody (encodeVarBody r []) r :=
  Reads.congr (Reads.bind (reads_readHash r.sha256) (Reads.pure r)) (by simp [encodeVarBody])

/-! ### The events -/

/-- What follows the type byte of an event on the wire. -/
def ProtoEvent.body : ProtoEvent → List UInt8
  | .input e => e.encodeFixedBody
  | .ping => []
  | .pong alive => beU8 (if alive then 1 else 0)
  | .enter pos => beU8 pos.toByte
  | .leave serial => beU32 serial
  | .ack serial => beU32 serial
  | .hello magic commit => magic.toList ++ commit.toList
  | .clipboardText ct => encodeVarBody ct []
  | .clipboardImage ci => encodeVarBody ci []
  | .clipboardFiles cf => encodeVarBody cf []
  | .fileTransferOffer o => encodeVarBody o []
  | .fileTransferResponse r => encodeVarBody r []
  | .fileTransferCancel c => encodeVarBody c []
  | .clipboardRequest r => encodeVarBody r []

theorem isFixed_input (e : InputEvent) : (ProtoEvent.input e).eventType.isFixed = true := by
  rcases e with (_ | _ | _ | _) | (_ | _) <;> rfl

theorem ProtoEvent.length_body_of_isFixed {e : ProtoEvent} (fixed : e.eventType.isFixed = true) :
    e.body.length ≤ 20 := by
  cases e with
  | input e =>
    rcases e with (_ | _ | _ | _) | (_ | _) <;>
      simp [ProtoEvent.body, InputEvent.encodeFixedBody]
  | _ => first | exact absurd fixed Bool.false_ne_true | simp [ProtoEvent.body]

theorem ProtoEvent.toFixed_eq {e : ProtoEvent} (fixed : e.eventType.isFixed = true) :
    e.toFixed = .ok (padTo maxEventSize (e.eventType.toByte :: e.body), e.body.length + 1) := by
  have small : (e.eventType.toByte :: e.body).length ≤ maxEventSize :=
    Nat.succ_le_succ (e.length_body_of_isFixed fixed)
  have bytes : e.toFixed = intoBuffer (e.eventType.toByte :: e.body) := by
    cases e <;> first
      | exact absurd fixed Bool.false_ne_true
      | simp [ProtoEvent.toFixed, ProtoEvent.body]
  rw [bytes, intoBuffer, if_pos small]
  rfl

theorem ProtoEvent.toVec_fixed {e : ProtoEvent} (fixed : e.eventType.isFixed = true) :
    (do
      let (arr, len) ← e.toFixed
      .ok ([e.eventType.toByte] ++ (arr.toList.take len).drop 1) : Outcome (List UInt8))
        = .ok (e.eventType.toByte :: e.body) := by
  have small : (e.eventType.toByte :: e.body).length ≤ maxEventSize :=
    Nat.succ_le_succ (e.length_body_of_isFixed fixed)
  rw [ProtoEvent.toFixed_eq fixed]
  change Except.ok ([e.eventType.toByte]
    ++ ((padTo maxEventSize (e.eventType.toByte :: e.body)).toList.take (e.body.length + 1)).drop 1)
    = _
  simp [toList_padTo small]

theorem ProtoEvent.toVec_eq (e : ProtoEvent) :
    e.toVec = .ok (e.eventType.toByte :: e.body) := by
  cases e with
  | input e => exact toVec_fixed (isFixed_input e)
  | _ => first
    | exact toVec_fixed rfl
    | exact congrArg Except.ok (encodeVarBody_append _ [_])

theorem ProtoEvent.reads_decodeFixedBody {e : ProtoEvent} (fixed : e.eventType.isFixed = true) :
    Reads (decodeFixedBody e.eventType) e.body e := by
  cases e with
  | input e =>
    rcases e with (⟨time, dx, dy⟩ | ⟨time, button, state⟩ | ⟨time, axis, value⟩ | ⟨axis, value⟩)
      | (⟨time, key, state⟩ | ⟨depressed, latched, locked, group⟩)
    · exact Reads.congr (Reads.bind (reads_decodeU32 time) (Reads.bind (reads_decodeF64 dx)
        (Reads.bind (reads_decodeF64 dy) (Reads.pure _))))
        (by simp [ProtoEvent.body, InputEvent.encodeFixedBody])
    · exact Reads.congr (Reads.bind (reads_decodeU32 time) (Reads.bind (reads_decodeU32 button)
        (Reads.bind (reads_decodeU32 state) (Reads.pure _))))
        (by simp [ProtoEvent.body, InputEvent.encodeFixedBody])
    · exact Reads.congr (Reads.bind (reads_decodeU32 time) (Reads.bind (reads_decodeU8 axis)
        (Reads.bind (reads_decodeF64 value) (Reads.pure _))))
        (by simp [ProtoEvent.body, InputEvent.encodeFixedBody])
    · exact Reads.congr (Reads.bind (reads_decodeU8 axis) (Reads.bind (reads_decodeI32 value)
        (Reads.pure _))) (by simp [ProtoEvent.body, InputEvent.encodeFixedBody])
    · exact Reads.congr (Reads.bind (reads_decodeU32 time) (Reads.bind (reads_decodeU32 key)
        (Reads.bind (reads_decodeU8 state) (Reads.pure _))))
        (by simp [ProtoEvent.body, InputEvent.encodeFixedBody])
    · exact Reads.congr (Reads.bind (reads_decodeU32 depressed)
        (Reads.bind (reads_decodeU32 latched) (Reads.bind (reads_decodeU32 locked)
          (Reads.bind (reads_decodeU32 group) (Reads.pure _)))))
        (by simp [ProtoEvent.body, InputEvent.encodeFixedBody])
  | ping => exact Reads.pure _
  | pong alive =>
    cases alive <;> exact Reads.bind (reads_decodeU8 _) (Reads.pure _)
  | enter pos => cases pos <;> exact Reads.bind (reads_decodeU8 _) (Reads.pure _)
  | leave serial =>
    exact Reads.congr (Reads.bind (reads_decodeU32 serial) (Reads.pure _)) (List.append_nil _)
  | ack serial =>
    exact Reads.congr (Reads.bind (reads_decodeU32 serial) (Reads.pure _)) (List.append_nil _)
  | hello magic commit =>
    exact Reads.congr (Reads.bind (Reads.array magic) (Reads.bind (Reads.array commit)
      (Reads.pure _))) (by simp [ProtoEvent.body])
  | _ => exact absurd fixed Bool.false_ne_true

/-- The lengths that travel as a `u32` do fit one. -/
def ProtoEvent.LengthsFit : ProtoEvent → Prop
  | .clipboardText ct => ∀ bs ∈ ct.contentInline, bs.length < 2 ^ 32
  | .clipboardImage ci => (asBytes ci.mime).length < 2 ^ 32
  | .clipboardFiles cf =>
    (∀ e ∈ cf.entries, (asBytes e.name).length < 2 ^ 32) ∧
    (∀ e ∈ cf.entries, (asBytes e.mime).length < 2 ^ 32) ∧ cf.block.length < 2 ^ 32
  | .fileTransferOffer o => (asBytes o.name).length < 2 ^ 32 ∧ (asBytes o.mime).length < 2 ^ 32
  | _ => True

theorem ProtoEvent.reads_decodeVar {e : ProtoEvent} (var : e.eventType.isFixed = false)
    (fits : e.LengthsFit) : Reads (decodeVar e.eventType) e.body e := by
  cases e with
  | clipboardText ct => exact (reads_clipboardText fits).map
  | clipboardImage ci => exact (reads_clipboardImage fits).map
  | clipboardFiles cf =>
    obtain ⟨names, mimes, block⟩ := fits
    exact (reads_clipboardFiles names mimes block).map
  | fileTransferOffer o =>
    obtain ⟨name, mime⟩ := fits
    exact (reads_fileTransferOffer name mime).map
  | fileTransferResponse r => exact (reads_fileTransferResponse r).map
  | fileTransferCancel c => exact (reads_fileTransferCancel c).map
  | clipboardRequest r => exact (reads_clipboardRequest r).map
  | input e => exact absurd (isFixed_input e) (by simp [var])
  | _ => exact absurd var.symm Bool.false_ne_true

theorem ProtoEvent.tryFromFixed_padTo {e : ProtoEvent} (fixed : e.eventType.isFixed = true) :
    ProtoEvent.tryFromFixed (padTo maxEventSize (e.eventType.toByte :: e.body)) = .ok e := by
  have small : (e.eventType.toByte :: e.body).length ≤ maxEventSize :=
    Nat.succ_le_succ (e.length_body_of_isFixed fixed)
  have whole : Reads decodeFixed (e.eventType.toByte :: e.body) e := by
    have split : beU8 e.eventType.toByte ++ e.body = e.eventType.toByte :: e.body := by simp
    refine (Reads.bind (reads_decodeU8 e.eventType.toByte) ?_).congr split
    rw [EventType.tryFrom_toByte]
    exact ProtoEvent.reads_decodeFixedBody fixed
  rw [ProtoEvent.tryFromFixed, toList_padTo small, whole]
  rfl

theorem ProtoEvent.tryFromSlice_bytes {e : ProtoEvent} (fits : e.LengthsFit) :
    ProtoEvent.tryFromSlice (e.eventType.toByte :: e.body) = .ok e := by
  rw [ProtoEvent.tryFromSlice, EventType.tryFrom_toByte]
  cases fixed : e.eventType.isFixed with
  | true =>
    have whole : e.body.take (maxEventSize - 1) = e.body :=
      List.take_of_length_le (e.length_body_of_isFixed fixed)
    simp only [fixed, whole, if_true]
    exact ProtoEvent.tryFromFixed_padTo fixed
  | false =>
    have body := ProtoEvent.reads_decodeVar fixed fits []
    rw [List.append_nil] at body
    simp only [fixed, body]
    rfl

theorem ProtoEvent.body_clipboardFiles (cf : ClipboardFiles) :
    (ProtoEvent.clipboardFiles cf).body =
      cf.fingerprint.toList ++ (toBE 4 cf.block.length ++ cf.block) := writeVecVar_eq ..

/-- A block that fits a `u32` length has no text that does not. -/
theorem ProtoEvent.lengthsFit_of_length_block {cf : ClipboardFiles}
    (short : cf.block.length < 2 ^ 32) : (ProtoEvent.clipboardFiles cf).LengthsFit := by
  have entry : ∀ e ∈ cf.entries, (encodeVarBody e []).length ≤ cf.block.length := by
    intro e mem
    rw [ClipboardFiles.block, List.flatMap_def]
    refine List.Sublist.length_le (List.sublist_flatten_of_mem ?_)
    exact List.mem_map.mpr ⟨e, mem, rfl⟩
  refine ⟨fun e mem => ?_, fun e mem => ?_, short⟩ <;>
  · have within := entry e mem
    simp [encodeVarBody] at within
    omega

/-- A body that fits a `u32` length has no field that does not. -/
theorem ProtoEvent.lengthsFit_of_length_body {e : ProtoEvent} (short : e.body.length < 2 ^ 32) :
    e.LengthsFit := by
  cases e with
  | clipboardText ct =>
    intro bs inline
    simp [ProtoEvent.body, encodeVarBody, show ct.contentInline = some bs from inline] at short
    omega
  | clipboardImage ci =>
    simp [ProtoEvent.body, encodeVarBody] at short
    simp only [ProtoEvent.LengthsFit]
    omega
  | clipboardFiles cf =>
    rw [ProtoEvent.body_clipboardFiles] at short
    simp only [List.length_append] at short
    exact ProtoEvent.lengthsFit_of_length_block (by omega)
  | fileTransferOffer o =>
    simp [ProtoEvent.body, encodeVarBody] at short
    simp only [ProtoEvent.LengthsFit]
    omega
  | _ => trivial

/-- Every event survives the wire. -/
theorem ProtoEvent.tryFromSlice_toVec (e : ProtoEvent) (fits : e.LengthsFit) :
    (e.toVec >>= ProtoEvent.tryFromSlice) = .ok e := by
  rw [ProtoEvent.toVec_eq]
  exact ProtoEvent.tryFromSlice_bytes fits

theorem ProtoEvent.tryFromSlice_toVec_selection :
    let entry : FileEntry := ⟨"a.txt", 5, "text/plain", Vector.replicate 32 7⟩
    let e : ProtoEvent := .clipboardFiles ⟨Vector.replicate 32 1, [entry, entry]⟩
    e.LengthsFit ∧ (e.toVec >>= ProtoEvent.tryFromSlice) = .ok e := by
  intro entry e
  have fits : e.LengthsFit := by
    refine ⟨?_, ?_, ?_⟩ <;> decide +kernel
  exact ⟨fits, ProtoEvent.tryFromSlice_toVec e fits⟩

end LanMouse.Proto
