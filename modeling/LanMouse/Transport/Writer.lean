import LanMouse.Proto.RoundTrip
import LanMouse.Transport.Reader

/-!
# Written frames

What a peer puts on its streams: frames of the fixed-size codec on the control stream (A) and the
input stream (B), frames of the variable-length codec on stream C, and requests on a stream of their
own. A frame that was written is read back by the reader of its stream.
-/
namespace LanMouse.Transport

open Bytes Proto

def writeFrame (event : ProtoEvent) : Outcome (List UInt8) := do
  let (buf, len) ← event.toFixed
  .ok (toBE 4 len ++ buf.toList.take len)

/-- The length is written as a `u32`, whatever the body's is. -/
def writeStreamCFrame (event : ProtoEvent) : Outcome (List UInt8) := do
  let body ← event.toVec
  .ok (toBE 4 body.length ++ body)

def Http3.encodeRequest (method path : String) (body : List UInt8) : List UInt8 :=
  let buf := toBE 2 (asBytes method).length
  let buf := buf ++ asBytes method
  let buf := buf ++ toBE 2 (asBytes path).length
  let buf := buf ++ asBytes path
  let buf := buf ++ toBE 4 body.length
  buf ++ body

/-- The type byte and the body. -/
def encoded (event : ProtoEvent) : List UInt8 := event.eventType.toByte :: event.body

theorem length_encoded_of_isFixed {event : ProtoEvent} (fixed : event.eventType.isFixed = true) :
    (encoded event).length ≤ maxEventSize :=
  Nat.succ_le_succ (event.length_body_of_isFixed fixed)

theorem writeFrame_eq {event : ProtoEvent} (fixed : event.eventType.isFixed = true) :
    writeFrame event = .ok (toBE 4 (encoded event).length ++ encoded event) := by
  unfold writeFrame
  rw [ProtoEvent.toFixed_eq fixed]
  change Except.ok (toBE 4 (encoded event).length
    ++ (padTo maxEventSize (encoded event)).toList.take (encoded event).length) = _
  rw [toList_padTo (length_encoded_of_isFixed fixed), List.take_left]

theorem writeStreamCFrame_eq (event : ProtoEvent) :
    writeStreamCFrame event = .ok (toBE 4 (encoded event).length ++ encoded event) := by
  unfold writeStreamCFrame
  rw [ProtoEvent.toVec_eq]
  rfl

section Framed

variable {body rest : List UInt8} {ending : Ending}

theorem readExact_append : RecvStream.readExact ⟨body ++ rest, ending⟩ body.length = .ok body := by
  simp [RecvStream.readExact]

theorem advance_append :
    RecvStream.advance ⟨body ++ rest, ending⟩ body.length = ⟨rest, ending⟩ := by
  simp [RecvStream.advance]

/-- The four bytes in front of a body are read first. -/
theorem readExact_four (n : Nat) :
    RecvStream.readExact ⟨toBE 4 n ++ rest, ending⟩ 4 = .ok (toBE 4 n) := by
  simp [RecvStream.readExact]

theorem advance_four (n : Nat) :
    RecvStream.advance ⟨toBE 4 n ++ rest, ending⟩ 4 = ⟨rest, ending⟩ := by
  simp [RecvStream.advance]

end Framed

/-- A frame on the wire, of a body that fits one. -/
def framed (event : ProtoEvent) : List UInt8 := toBE 4 (encoded event).length ++ encoded event

theorem length_framed (event : ProtoEvent) :
    (framed event).length = 4 + (encoded event).length := by
  simp [framed]

theorem ofBE_framed {event : ProtoEvent} (fixed : event.eventType.isFixed = true) :
    ofBE (toBE 4 (encoded event).length) = (encoded event).length := by
  have small := length_encoded_of_isFixed fixed
  rw [ofBE_toBE]
  exact Nat.mod_eq_of_lt (small.trans_lt (by decide))

theorem readFrame_framed {event : ProtoEvent} (fixed : event.eventType.isFixed = true)
    (more : List UInt8) (ending : Ending) :
    readFrame ⟨framed event ++ more, ending⟩ = (.ok event, ⟨more, ending⟩) := by
  have notLarge : ¬ (encoded event).length > maxEventSize := by
    have := length_encoded_of_isFixed fixed
    omega
  have decoded : ProtoEvent.tryFromFixed (padTo maxEventSize (encoded event)) = .ok event :=
    ProtoEvent.tryFromFixed_padTo fixed
  rw [framed, List.append_assoc]
  simp only [readFrame, readExact_four, advance_four, ofBE_framed fixed, notLarge, if_false,
    readExact_append, advance_append, decoded, mapErr]

/-- What was written frame by frame has events of the fixed-size codec only. -/
theorem writeFrame_ok {event : ProtoEvent} {bytes : List UInt8}
    (written : writeFrame event = .ok bytes) :
    event.eventType.isFixed = true ∧ bytes = framed event := by
  cases fixed : event.eventType.isFixed with
  | true =>
    rw [writeFrame_eq fixed] at written
    exact ⟨rfl, (Except.ok.inj written).symm⟩
  | false =>
    cases event with
    | input e => exact absurd (isFixed_input e) (by simp [fixed])
    | _ => first | exact absurd fixed.symm Bool.false_ne_true | cases written

theorem mapM_writeFrame_ok {sent : List ProtoEvent} {frames : List (List UInt8)}
    (written : sent.mapM writeFrame = .ok frames) :
    (∀ event ∈ sent, event.eventType.isFixed = true) ∧ frames.flatten = sent.flatMap framed := by
  induction sent generalizing frames with
  | nil =>
    rw [List.mapM_nil] at written
    cases written
    exact ⟨nofun, rfl⟩
  | cons event sent ih =>
    rw [List.mapM_cons] at written
    cases first : writeFrame event with
    | error e => simp [first, bind, Except.bind] at written
    | ok bytes =>
      cases others : sent.mapM writeFrame with
      | error e => simp [first, others, bind, Except.bind] at written
      | ok rest =>
        obtain rfl : bytes :: rest = frames := by
          simpa [first, others, bind, Except.bind, pure, Except.pure] using written
        obtain ⟨fixed, rfl⟩ := writeFrame_ok first
        obtain ⟨allFixed, flat⟩ := ih others
        exact ⟨List.forall_mem_cons.mpr ⟨fixed, allFixed⟩, by simp [flat]⟩

end LanMouse.Transport
