import LanMouse.Proto.Panic
import LanMouse.Transport.Panic
import LanMouse.Transport.Writer

/-!
# Reading back what was written

On stream C the length in front of a body says where the next frame starts, whatever the body is.
The read loop therefore stays in step with the writer past bodies it cannot decode: it delivers the
events that were written and nothing else, and stops where the stream ends.
-/
namespace LanMouse.Transport

open Bytes Proto

/-- A frame on stream C: an event some peer wrote, or a body that no event was encoded to. -/
inductive StreamCFrame where
  | written (event : ProtoEvent)
  | foreign (body : List UInt8)
  deriving DecidableEq, Repr

namespace StreamCFrame

def bytes : StreamCFrame → Outcome (List UInt8)
  | written event => writeStreamCFrame event
  | foreign body => .ok (toBE 4 body.length ++ body)

def body : StreamCFrame → List UInt8
  | written event => encoded event
  | foreign body => body

def event? : StreamCFrame → Option ProtoEvent
  | written event => some event
  | foreign _ => none

/-- The body fits the `u32` in front of it, and a foreign one is not an event's. -/
def WellDelimited (frame : StreamCFrame) : Prop :=
  frame.body.length < 2 ^ 32 ∧
    ∀ body, frame = foreign body → ∀ event, ProtoEvent.tryFromSlice body ≠ .ok event

theorem bytes_eq (frame : StreamCFrame) :
    frame.bytes = .ok (toBE 4 frame.body.length ++ frame.body) := by
  cases frame with
  | written event => exact writeStreamCFrame_eq event
  | foreign body => rfl

theorem decodes {frame : StreamCFrame} {event : ProtoEvent} (fits : frame.WellDelimited)
    (is : frame.event? = some event) : ProtoEvent.tryFromSlice frame.body = .ok event := by
  cases frame with
  | written e =>
    obtain rfl := Option.some.inj is
    exact ProtoEvent.tryFromSlice_bytes
      (ProtoEvent.lengthsFit_of_length_body (Nat.lt_of_succ_lt fits.1))
  | foreign body => cases is

theorem refused {frame : StreamCFrame} (fits : frame.WellDelimited) (is : frame.event? = none) :
    ∃ e, ProtoEvent.tryFromSlice frame.body = .error (.err e) := by
  cases frame with
  | written e => cases is
  | foreign body =>
    obtain ⟨event, ok⟩ | err := tryFromSlice_cases body
    · exact absurd ok (fits.2 body rfl event)
    · exact err

end StreamCFrame

theorem mapM_bytes (frames : List StreamCFrame) :
    frames.mapM StreamCFrame.bytes =
      .ok (frames.map fun frame => toBE 4 frame.body.length ++ frame.body) := by
  induction frames with
  | nil => rfl
  | cons frame frames ih =>
    rw [List.mapM_cons, StreamCFrame.bytes_eq, ih]
    rfl

/-- A complete frame is taken off the stream whole, and its body decides what is read. -/
theorem readStreamCFrame_framed {body : List UInt8} (fits : body.length < 2 ^ 32)
    (more : List UInt8) (ending : Ending) :
    readStreamCFrame ⟨toBE 4 body.length ++ body ++ more, ending⟩ =
      (mapErr (fun e => .helloFailed ("decode stream C frame: " ++ e.toText))
        (ProtoEvent.tryFromSlice body), ⟨more, ending⟩) := by
  have length : ofBE (toBE 4 body.length) = body.length := by
    rw [ofBE_toBE]
    exact Nat.mod_eq_of_lt fits
  rw [List.append_assoc]
  simp only [readStreamCFrame, readExact_four, advance_four, length, readExact_append,
    advance_append]

theorem readStreamCFrame_nil (ending : Ending) :
    readStreamCFrame ⟨[], ending⟩ =
      (.error (.err (.helloFailed ("read stream C length: " ++ ending.lengthText))),
        ⟨[], ending⟩) :=
  rfl

theorem isDecodeError_decode (text : String) :
    isDecodeError "decode stream C frame" (.helloFailed ("decode stream C frame: " ++ text)) =
      true :=
  startsWith_append rfl text

theorem isDecodeError_length (text : String) :
    isDecodeError "decode stream C frame" (.helloFailed ("read stream C length: " ++ text)) =
      false := by
  have read : startsWith ("read stream C length: " ++ text) "read stream C length: " = true :=
    startsWith_append rfl text
  exact startsWith_apart read (by decide)

/-- One frame after another, with fuel for each and for the end of the stream. -/
theorem readLoop_frames {frames : List StreamCFrame}
    (fits : ∀ frame ∈ frames, frame.WellDelimited) (ending : Ending) :
    ∀ fuel sink, frames.length < fuel → (∀ d ∈ sink, d = Delivery.sent) →
      readLoop readStreamCFrame (isDecodeError "decode stream C frame") fuel sink
          ⟨frames.flatMap fun frame => toBE 4 frame.body.length ++ frame.body, ending⟩ =
        (frames.filterMap StreamCFrame.event?,
          .stopped (.helloFailed ("read stream C length: " ++ ending.lengthText))) := by
  induction frames with
  | nil =>
    intro fuel sink enough _
    obtain ⟨fuel, rfl⟩ : ∃ n, fuel = n + 1 := ⟨fuel - 1, by simp at enough; omega⟩
    simp [readLoop, readStreamCFrame_nil, isDecodeError_length]
  | cons frame frames ih =>
    intro fuel sink enough isOpen
    obtain ⟨fuel, rfl⟩ : ∃ n, fuel = n + 1 := ⟨fuel - 1, by simp at enough; omega⟩
    have enough : frames.length < fuel := by simpa using enough
    have own := fits frame List.mem_cons_self
    have rest := ih fun frame mem => fits frame (List.mem_cons_of_mem _ mem)
    have read := readStreamCFrame_framed own.1
      (frames.flatMap fun frame => toBE 4 frame.body.length ++ frame.body) ending
    rw [List.flatMap_cons, readLoop, read]
    cases is : frame.event? with
    | some event =>
      have first : sink.headD .sent = .sent := by
        cases sink with
        | nil => rfl
        | cons d sink => exact isOpen d List.mem_cons_self
      have tail := rest fuel sink.tail enough fun d mem => isOpen d (List.mem_of_mem_tail mem)
      simp only [StreamCFrame.decodes own is, mapErr, first, tail, List.filterMap_cons, is]
    | none =>
      obtain ⟨e, err⟩ := StreamCFrame.refused own is
      simp only [err, mapErr, isDecodeError_decode, if_true, rest fuel sink enough isOpen,
        List.filterMap_cons, is]

theorem length_le_frames (frames : List StreamCFrame) :
    frames.length ≤
      (frames.flatMap fun frame => toBE 4 frame.body.length ++ frame.body).length :=
  length_le_flatMap fun frame _ => by
    intro empty
    simpa using congrArg List.length empty

/-- `read_frame`, called again and again. -/
def readFrames : Nat → RecvStream → Except (Fault Error) (List ProtoEvent) × RecvStream
  | 0, recv => (.ok [], recv)
  | n + 1, recv =>
    match readFrame recv with
    | (.error e, recv) => (.error e, recv)
    | (.ok event, recv) =>
      let (events, recv) := readFrames n recv
      ((event :: ·) <$> events, recv)

theorem mapM_writeFrame {sent : List ProtoEvent}
    (fixed : ∀ event ∈ sent, event.eventType.isFixed = true) :
    sent.mapM writeFrame = .ok (sent.map framed) := by
  induction sent with
  | nil => rfl
  | cons event sent ih =>
    rw [List.mapM_cons, writeFrame_eq (fixed event List.mem_cons_self),
      ih fun event mem => fixed event (List.mem_cons_of_mem _ mem)]
    rfl

theorem readFrames_framed {sent : List ProtoEvent}
    (fixed : ∀ event ∈ sent, event.eventType.isFixed = true) (more : List UInt8)
    (ending : Ending) :
    readFrames sent.length ⟨sent.flatMap framed ++ more, ending⟩ = (.ok sent, ⟨more, ending⟩) := by
  induction sent with
  | nil => rfl
  | cons event sent ih =>
    have rest := ih fun event mem => fixed event (List.mem_cons_of_mem _ mem)
    rw [List.length_cons, List.flatMap_cons, List.append_assoc, readFrames,
      readFrame_framed (fixed event List.mem_cons_self)]
    simp only [rest]
    rfl

/-- The stream C loop delivers what was written, skips what no event was encoded to, and stops at
the end of the stream; frames of the fixed-size codec are read back one by one. -/
theorem written_frames_read_back (frames : List StreamCFrame)
    (fits : ∀ frame ∈ frames, frame.WellDelimited) (sent : List ProtoEvent)
    (fixed : ∀ event ∈ sent, event.eventType.isFixed = true) (sink : List Delivery)
    (isOpen : ∀ d ∈ sink, d = Delivery.sent) (more : List UInt8) (ending : Ending) :
    (∃ wire, frames.mapM StreamCFrame.bytes = .ok wire ∧
      readStreamCLoop sink ⟨wire.flatten, ending⟩ =
        (frames.filterMap StreamCFrame.event?,
          .stopped (.helloFailed ("read stream C length: " ++ ending.lengthText)))) ∧
    ∃ wire, sent.mapM writeFrame = .ok wire ∧
      readFrames sent.length ⟨wire.flatten ++ more, ending⟩ = (.ok sent, ⟨more, ending⟩) := by
  refine ⟨⟨_, mapM_bytes frames, ?_⟩, ⟨_, mapM_writeFrame fixed, ?_⟩⟩
  · rw [← List.flatMap_def]
    exact readLoop_frames fits ending _ sink (Nat.lt_succ_of_le (length_le_frames frames)) isOpen
  · rw [← List.flatMap_def]
    exact readFrames_framed fixed more ending

theorem written_frames_read_back_past_foreign :
    let frames : List StreamCFrame := [.written (.ping), .foreign [0xff, 7], .written (.leave 3)]
    (∀ frame ∈ frames, frame.WellDelimited) ∧
      ∃ wire, frames.mapM StreamCFrame.bytes = .ok wire ∧
        readStreamCLoop [] ⟨wire.flatten, .eof⟩ =
          ([.ping, .leave 3],
            .stopped (.helloFailed "read stream C length: unexpected end of file")) := by
  intro frames
  have fits : ∀ frame ∈ frames, frame.WellDelimited := by
    simp only [frames, List.forall_mem_cons]
    refine ⟨⟨by decide, nofun⟩, ⟨by decide, ?_⟩, ⟨by decide, nofun⟩, nofun⟩
    rintro body same event ok
    cases same
    cases ok
  obtain ⟨read, -⟩ := written_frames_read_back frames fits [.ping] (by decide) [] nofun [] .eof
  exact ⟨fits, read⟩

end LanMouse.Transport
