import LanMouse.Transport.Writer

/-!
# What an accepted stream carries

Both sides of a connection accept streams whose first four bytes tell what they carry: the start of
a request, or the length of a first frame, which is longer on stream C than on stream B. A stream C
frame can have a length whose bytes read like the start of a request, and the dialing side takes
only the longest of the stream B frames.
-/
namespace LanMouse.Transport

open Bytes Proto

inductive Side where
  | listening
  | dialing
  deriving DecidableEq, Repr

def acceptBi : Side → RecvStream → Accepted
  | .listening => serverAcceptBi
  | .dialing => clientAcceptBi

def IsLetter (b : Nat) : Prop := 0x41 ≤ b ∧ b ≤ 0x5a ∨ 0x61 ≤ b ∧ b ≤ 0x7a

instance : DecidablePred IsLetter := fun _ => inferInstanceAs (Decidable (_ ∨ _))

/-- How a peer starts a stream. Only events of the variable-length codec are routed to stream C. -/
inductive Opening where
  | streamC (event : ProtoEvent) (var : event.eventType.isFixed = false)
  | streamB (event : ProtoEvent) (fixed : event.eventType.isFixed = true)
  | get (path : String)

namespace Opening

def write : Opening → Outcome (List UInt8)
  | streamC event _ => writeStreamCFrame event
  | streamB event _ => writeFrame event
  | get path => .ok (Http3.encodeRequest "GET" path [])

/-- Where the stream belongs once `rest` is all that is left of it. -/
def destination (rest : RecvStream) : Opening → Accepted
  | streamC event _ => .streamC event rest
  | streamB event _ => .streamB event rest
  | get _ => .http3

/-- The bytes of a length are `00`, one of `03` to `07`, and two letters. -/
def ReadsAsRequest (n : Nat) : Prop :=
  (3 ≤ n / 2 ^ 16 ∧ n / 2 ^ 16 ≤ 7) ∧ IsLetter (n / 2 ^ 8 % 2 ^ 8) ∧ IsLetter (n % 2 ^ 8)

/-- The length of the first frame tells it apart from what else can start a stream. -/
def Told (side : Side) : Opening → Prop
  | streamC event _ =>
    (encoded event).length < 2 ^ 32 ∧ ¬ ReadsAsRequest (encoded event).length
  | streamB event _ => side = .dialing → (encoded event).length = maxEventSize
  | get _ => True

instance : DecidablePred ReadsAsRequest := fun _ => inferInstanceAs (Decidable (_ ∧ _))

instance (side : Side) (o : Opening) : Decidable (o.Told side) := by
  cases o <;> unfold Told <;> infer_instance

end Opening

theorem looksLikeHttp3Request_iff {n : Nat} (short : n < 2 ^ 32) :
    looksLikeHttp3Request (toBE 4 n) = true ↔ Opening.ReadsAsRequest n := by
  have byte (k : Nat) : (UInt8.ofNat k).toNat = k % 2 ^ 8 := UInt8.toNat_ofNat'
  have top : UInt8.ofNat (n / 256 ^ 3) = 0 ↔ n / 2 ^ 24 = 0 := by
    rw [← UInt8.toNat_inj, byte]
    simp only [UInt8.toNat_zero]
    omega
  simp only [looksLikeHttp3Request, toBE, isAsciiAlphabetic, byte, Opening.ReadsAsRequest, IsLetter,
    Bool.and_eq_true, Bool.or_eq_true, beq_iff_eq, decide_eq_true_eq, top]
  omega

theorem looksLikeHttp3Request_small {n : Nat} (small : n ≤ maxEventSize) :
    looksLikeHttp3Request (toBE 4 n) = false := by
  have all : ∀ n ≤ maxEventSize, looksLikeHttp3Request (toBE 4 n) = false := by decide
  exact all n small

theorem ofBE_toBE_four {n : Nat} (short : n < 2 ^ 32) : ofBE (toBE 4 n) = n := by
  rw [ofBE_toBE]
  exact Nat.mod_eq_of_lt short

theorem length_encoded_of_var {event : ProtoEvent} (var : event.eventType.isFixed = false) :
    maxEventSize < (encoded event).length := by
  cases event with
  | input e => exact absurd (isFixed_input e) (by simp [var])
  | clipboardText ct =>
    cases inline : ct.contentInline with
    | none => simp [encoded, ProtoEvent.body, VarCodec.encodeVarBody, inline, maxEventSize]
    | some bs =>
      simp [encoded, ProtoEvent.body, VarCodec.encodeVarBody, inline, maxEventSize]
      omega
  | clipboardFiles cf =>
    rw [encoded, ProtoEvent.body_clipboardFiles]
    simp [maxEventSize]
    omega
  | fileTransferResponse _ | fileTransferCancel _ | clipboardRequest _ =>
    simp [encoded, ProtoEvent.body, VarCodec.encodeVarBody, maxEventSize]
  | clipboardImage _ | fileTransferOffer _ =>
    simp [encoded, ProtoEvent.body, VarCodec.encodeVarBody, maxEventSize]
    omega
  | _ => exact absurd var.symm Bool.false_ne_true

section Accept

variable {side : Side} {n : Nat} {event : ProtoEvent} {more rest : List UInt8} {ending : Ending}

theorem acceptBi_request (request : looksLikeHttp3Request (toBE 4 n) = true) :
    acceptBi side ⟨toBE 4 n ++ more, ending⟩ = .http3 := by
  cases side <;>
    simp only [acceptBi, serverAcceptBi, clientAcceptBi, readExact_four, request, if_true]

theorem acceptBi_long (frame : looksLikeHttp3Request (toBE 4 n) = false)
    (long : ofBE (toBE 4 n) > maxEventSize) :
    acceptBi side ⟨toBE 4 n ++ more, ending⟩ = acceptStreamC (ofBE (toBE 4 n)) ⟨more, ending⟩ := by
  cases side <;> simp only [acceptBi, serverAcceptBi, clientAcceptBi, readExact_four,
    advance_four, frame, long, if_true, Bool.false_eq_true, if_false]

theorem acceptBi_short (short : (encoded event).length ≤ maxEventSize) :
    acceptBi side ⟨toBE 4 (encoded event).length ++ (encoded event ++ rest), ending⟩ =
      if side = .dialing ∧ (encoded event).length ≠ maxEventSize then .skipped
      else acceptDecoded (.streamB · ⟨rest, ending⟩)
        (if side = .dialing then .skipped else .taskEnds)
        (ProtoEvent.tryFromFixed (padTo maxEventSize (encoded event))) := by
  have frame := looksLikeHttp3Request_small short
  have length : ofBE (toBE 4 (encoded event).length) = (encoded event).length :=
    ofBE_toBE_four (short.trans_lt (by decide))
  have notLong : ¬ (encoded event).length > maxEventSize := by omega
  cases side with
  | listening =>
    simp [acceptBi, serverAcceptBi, readExact_four, advance_four, frame, length, notLong,
      readExact_append, advance_append]
  | dialing =>
    simp [acceptBi, clientAcceptBi, readExact_four, advance_four, frame, length, notLong,
      readExact_append, advance_append]

theorem acceptDecoded_streamC {stream : ProtoEvent → Accepted} {onError : Accepted}
    {decoded : Outcome ProtoEvent} {r : RecvStream}
    (accepted : acceptDecoded stream onError decoded = .streamC event r) :
    (∃ e, stream e = .streamC event r) ∨ onError = .streamC event r := by
  unfold acceptDecoded at accepted
  split at accepted
  · exact .inl ⟨_, accepted⟩
  · exact .inr accepted
  · cases accepted
  · cases accepted

theorem acceptStreamC_streamC {recv r : RecvStream}
    (accepted : acceptStreamC n recv = .streamC event r) :
    r.bytes.length + n = recv.bytes.length := by
  unfold acceptStreamC RecvStream.readExact at accepted
  by_cases arrived : n ≤ recv.bytes.length
  · simp only [arrived, if_true] at accepted
    rcases acceptDecoded_streamC accepted with ⟨e, same⟩ | same
    · cases same
      simp [RecvStream.advance, Nat.sub_add_cancel arrived]
    · cases same
  · simp [arrived] at accepted

theorem acceptBi_not_long (frame : looksLikeHttp3Request (toBE 4 n) = false)
    (short : ¬ ofBE (toBE 4 n) > maxEventSize) (r : RecvStream) :
    acceptBi side ⟨toBE 4 n ++ more, ending⟩ ≠ .streamC event r := by
  intro accepted
  cases side with
  | listening =>
    simp only [acceptBi, serverAcceptBi, readExact_four, advance_four, frame, short, if_false,
      Bool.false_eq_true] at accepted
    split at accepted
    · cases accepted
    · rcases acceptDecoded_streamC accepted with ⟨e, same⟩ | same <;> cases same
  | dialing =>
    simp only [acceptBi, clientAcceptBi, readExact_four, advance_four, frame, short, if_false,
      Bool.false_eq_true] at accepted
    split_ifs at accepted
    split at accepted
    · cases accepted
    · rcases acceptDecoded_streamC accepted with ⟨e, same⟩ | same <;> cases same

/-- A stream that ends up on stream C was not taken for a request, and its first four bytes are the
length of what was taken off it. -/
theorem acceptBi_streamC {r : RecvStream}
    (accepted : acceptBi side ⟨toBE 4 n ++ more, ending⟩ = .streamC event r) :
    looksLikeHttp3Request (toBE 4 n) = false ∧ r.bytes.length + n % 2 ^ 32 = more.length := by
  cases request : looksLikeHttp3Request (toBE 4 n) with
  | true =>
    rw [acceptBi_request request] at accepted
    cases accepted
  | false =>
    refine ⟨rfl, ?_⟩
    by_cases long : ofBE (toBE 4 n) > maxEventSize
    · rw [acceptBi_long request long] at accepted
      have taken := acceptStreamC_streamC accepted
      rwa [ofBE_toBE] at taken
    · exact absurd accepted (acceptBi_not_long request long r)

end Accept

theorem streamC_destination_iff (side : Side) {event : ProtoEvent}
    (var : event.eventType.isFixed = false) (rest : List UInt8) (ending : Ending) :
    acceptBi side ⟨toBE 4 (encoded event).length ++ (encoded event ++ rest), ending⟩ =
        .streamC event ⟨rest, ending⟩ ↔ (Opening.streamC event var).Told side := by
  constructor
  · intro accepted
    obtain ⟨frame, taken⟩ := acceptBi_streamC accepted
    rw [List.length_append] at taken
    have short : (encoded event).length < 2 ^ 32 := by
      simp only at taken
      omega
    exact ⟨short, fun reads => by simp [(looksLikeHttp3Request_iff short).mpr reads] at frame⟩
  · rintro ⟨short, told⟩
    have frame := Bool.eq_false_iff.mpr (mt (looksLikeHttp3Request_iff short).mp told)
    have length := ofBE_toBE_four short
    have fits : event.LengthsFit :=
      ProtoEvent.lengthsFit_of_length_body (Nat.lt_of_succ_lt short)
    rw [acceptBi_long frame (length.symm ▸ length_encoded_of_var var), length, acceptStreamC,
      readExact_append, advance_append]
    simp only [encoded, ProtoEvent.tryFromSlice_bytes fits, acceptDecoded]

theorem streamB_destination_iff (side : Side) {event : ProtoEvent}
    (fixed : event.eventType.isFixed = true) (rest : List UInt8) (ending : Ending) :
    acceptBi side ⟨toBE 4 (encoded event).length ++ (encoded event ++ rest), ending⟩ =
        .streamB event ⟨rest, ending⟩ ↔ (Opening.streamB event fixed).Told side := by
  have decoded : ProtoEvent.tryFromFixed (padTo maxEventSize (encoded event)) = .ok event :=
    ProtoEvent.tryFromFixed_padTo fixed
  rw [acceptBi_short (length_encoded_of_isFixed fixed), decoded]
  simp only [acceptDecoded, Opening.Told]
  by_cases dropped : side = .dialing ∧ (encoded event).length ≠ maxEventSize
  · simp [dropped]
  · simp [dropped]
    simpa using dropped

/-- The first four bytes of a request for a path. -/
theorem encodeRequest_get (path : String) :
    ∃ more, Http3.encodeRequest "GET" path [] = toBE 4 0x00034745 ++ more := by
  have method : asBytes "GET" = [0x47, 0x45, 0x54] := by decide
  refine ⟨0x54 :: (toBE 2 (asBytes path).length ++ asBytes path ++ toBE 4 0 ++ []), ?_⟩
  simp [Http3.encodeRequest, method, toBE]

/-- A stream goes where it belongs exactly when its first frame is told apart by its length. -/
theorem accepted_streams_classified_iff (side : Side) (opening : Opening) (rest : List UInt8)
    (ending : Ending) :
    (∃ bytes, opening.write = .ok bytes ∧
      acceptBi side ⟨bytes ++ rest, ending⟩ = opening.destination ⟨rest, ending⟩) ↔
        opening.Told side := by
  cases opening with
  | streamC event var =>
    rw [← streamC_destination_iff side var rest ending]
    simp [Opening.write, writeStreamCFrame_eq, Opening.destination]
  | streamB event fixed =>
    rw [← streamB_destination_iff side fixed rest ending]
    simp [Opening.write, writeFrame_eq fixed, Opening.destination]
  | get path =>
    obtain ⟨more, bytes⟩ := encodeRequest_get path
    refine iff_of_true ⟨_, rfl, ?_⟩ trivial
    rw [bytes, List.append_assoc]
    exact acceptBi_request (by decide)

/-- A selection of 3386 small files has an announcement of `0x0003416b` bytes, which starts like a
request whose method begins with `Ak`. -/
theorem selection_taken_for_request :
    let entry : FileEntry := ⟨"a.txt", 5, "text/plain", Vector.replicate 32 7⟩
    let event : ProtoEvent := .clipboardFiles ⟨Vector.replicate 32 1, List.replicate 3386 entry⟩
    ∃ bytes, writeStreamCFrame event = .ok bytes ∧
      acceptBi .listening ⟨bytes, .eof⟩ = .http3 ∧ acceptBi .dialing ⟨bytes, .eof⟩ = .http3 := by
  intro entry event
  have each : (VarCodec.encodeVarBody entry []).length = 63 := by decide
  have block (n : Nat) :
      (ClipboardFiles.block ⟨Vector.replicate 32 1, List.replicate n entry⟩).length = n * 63 := by
    induction n with
    | zero => rfl
    | succ n ih =>
      rw [ClipboardFiles.block] at ih ⊢
      rw [List.replicate_succ, List.flatMap_cons, List.length_append, each, ih]
      omega
  have length : (encoded event).length = 0x0003416b := by
    rw [encoded, ProtoEvent.body_clipboardFiles, List.length_cons, List.length_append,
      List.length_append, length_toBE, block, Vector.length_toList]
  have request : looksLikeHttp3Request (toBE 4 (encoded event).length) = true := by
    rw [length]
    decide
  exact ⟨_, writeStreamCFrame_eq event, acceptBi_request request, acceptBi_request request⟩

end LanMouse.Transport
