import LanMouse.Transport.Classify
import LanMouse.Transport.Framing
import LanMouse.Transport.Http3
import Mathlib.Data.List.TakeWhile

/-!
# Accepting one stream after another

The accept task of a connection takes the streams a peer opens in turn. It reads the first frame of
a stream, or a whole request with its answer, before it takes the next stream; the frames behind the
first one are left to a reader task of that stream.

`expected` is what the frames of a stream have to deliver, wherever they stand: every frame that its
length delimits and that decodes. A stream costs later streams their frames when the task waits for
it without end or ends with it, and it costs its own frames when the task does not take its first
frame.
-/
namespace LanMouse.Transport

open Bytes Proto

/-- A stream as the peer left it. Without an ending it stays open and nothing more comes. -/
structure Opened where
  bytes : List UInt8
  ending : Option Ending
  /-- The answer to a request can be written to its end. -/
  answered : Bool := true
  /-- The address of the peer belongs to a configured client. -/
  known : Bool := true
  deriving DecidableEq, Repr

/-! ### The frames of a stream -/

/-- The bodies that `head` cuts off the front of `bytes`, each behind the four bytes of its
length. -/
def cutInto (head : List UInt8 → Option (List UInt8)) : Nat → List UInt8 → List (List UInt8)
  | 0, _ => []
  | n + 1, bytes =>
    match head bytes with
    | none => []
    | some body => body :: cutInto head n (bytes.drop (4 + body.length))

def headFrameC (bytes : List UInt8) : Option (List UInt8) :=
  let len := ofBE (bytes.take 4)
  if 4 + len ≤ bytes.length then some ((bytes.drop 4).take len) else none

/-- The bodies of the stream C frames in `bytes`, up to the first that is cut short. -/
def framesC (bytes : List UInt8) : List (List UInt8) :=
  cutInto headFrameC (bytes.length + 1) bytes

def eventC (body : List UInt8) : Option ProtoEvent := (ProtoEvent.tryFromSlice body).toOption

def eventB (body : List UInt8) : Option ProtoEvent :=
  (ProtoEvent.tryFromFixed (padTo maxEventSize body)).toOption

namespace Opened

def len (s : Opened) : Nat := ofBE (s.bytes.take 4)

def isRequest (s : Opened) : Bool := looksLikeHttp3Request (s.bytes.take 4)

/-- The events in the frames of a stream. A first frame longer than `maxEventSize` makes it a
stream C. -/
def expected (s : Opened) : List ProtoEvent :=
  if s.len > maxEventSize then (framesC s.bytes).filterMap eventC
  else (frames s.bytes).filterMap eventB

/-- A request that is cut off is waited for while the stream is open, and a whole one until it is
answered. One that is no text is dropped. -/
def requestStalls (s : Opened) : Bool :=
  match Http3.readRequest ⟨s.bytes, .eof⟩ with
  | .ok _ => !s.answered
  | .error (.err (.unexpectedEof _)) => s.ending.isNone
  | .error _ => false

/-- The task waits for this stream without end: for four bytes, for a request, for room to answer
it, or for the body of a first frame. -/
def Stalls (side : Side) (s : Opened) : Prop :=
  (s.bytes.length < 4 ∧ s.ending = none) ∨
  (4 ≤ s.bytes.length ∧ s.isRequest = true ∧ s.requestStalls = true) ∨
  (4 ≤ s.bytes.length ∧ s.isRequest = false ∧ s.bytes.length < 4 + s.len ∧ s.ending = none ∧
    (side = .dialing → maxEventSize ≤ s.len))

instance (side : Side) (s : Opened) : Decidable (s.Stalls side) := by
  unfold Stalls
  infer_instance

end Opened

/-! ### The task -/

def Accepted.goesOn : Accepted → Bool
  | .taskEnds | .panic | .hang => false
  | _ => true

/-- The events that come from a stream once it is taken. The dialing side drops those of a stream B
when it does not know the peer. -/
def Accepted.delivered (side : Side) (known : Bool) : Accepted → List ProtoEvent
  | .streamC first rest => first :: (readStreamCLoop [] rest).1
  | .streamB first rest =>
    match side with
    | .listening => first :: (serverStreamReaderTask [] rest).1
    | .dialing => if known then first :: (clientStreamBReaderTask [] rest).1 else []
  | _ => []

/-- What is delivered from each of the streams, in the order in which the peer opened them. -/
def acceptTask (side : Side) : List Opened → List (List ProtoEvent)
  | [] => []
  | s :: streams =>
    if s.Stalls side then [] :: streams.map fun _ => []
    else
      let accepted := acceptBi side ⟨s.bytes, s.ending.getD .eof⟩
      accepted.delivered side s.known ::
        if accepted.goesOn then acceptTask side streams else streams.map fun _ => []

/-! ### What a stream has to be -/

namespace Opened

def firstEvent (s : Opened) : Option ProtoEvent :=
  if s.len > maxEventSize then headFrameC s.bytes >>= eventC else headFrame s.bytes >>= eventB

/-- The task ends with this stream: on the listening side with a short first frame that is cut off
or does not decode, on the dialing side with one of the type of a variable-length event. -/
def Ends (side : Side) (s : Opened) : Prop :=
  4 ≤ s.bytes.length ∧ match side with
    | .listening => s.len ≤ maxEventSize ∧ s.firstEvent = none
    | .dialing => s.len = maxEventSize ∧ (headFrame s.bytes).any startsVar = true

/-- The stream lets the task go on to the next one. -/
def LetsPass (side : Side) (s : Opened) : Prop := ¬ s.Stalls side ∧ ¬ s.Ends side

/-- The first frame of the stream is delivered: it does not look like a request and decodes, and on
the dialing side a short one has `maxEventSize` bytes and a known sender. -/
def Starts (side : Side) (s : Opened) : Prop :=
  s.isRequest = false ∧ s.firstEvent.isSome = true ∧
    (side = .dialing → s.len ≤ maxEventSize → s.len = maxEventSize ∧ s.known = true)

/-- If there is something to deliver, the first frame is delivered, and no frame of a stream B that
decodes stands behind one of the type of a variable-length event. -/
def Taken (side : Side) (s : Opened) : Prop :=
  s.expected ≠ [] → s.Starts side ∧ (s.len ≤ maxEventSize →
    (frames s.bytes).Pairwise fun ahead body => startsVar ahead = true → eventB body = none)

end Opened

/-! ### Reader tasks -/

theorem framesUpTo_eq_cutInto (n : Nat) (bytes : List UInt8) :
    framesUpTo n bytes = cutInto headFrame n bytes := by
  induction n generalizing bytes with
  | zero => rfl
  | succ n ih =>
    rw [framesUpTo, cutInto]
    cases headFrame bytes with
    | none => rfl
    | some body => exact congrArg (body :: ·) (ih _)

/-- What one read does with the frame at the front of a stream: it panics on a body in `breaks`,
reports an error that is skipped for another body without an event, and an error that is not
skipped where there is no frame. -/
structure ReadsFrames (read : RecvStream → FrameRead) (skips : Error → Bool)
    (head : List UInt8 → Option (List UInt8)) (breaks : List UInt8 → Bool)
    (event : List UInt8 → Option ProtoEvent) : Prop where
  fits {bytes body : List UInt8} : head bytes = some body → 4 + body.length ≤ bytes.length
  ends {recv : RecvStream} : head recv.bytes = none →
    ∃ e rest, read recv = (.error (.err e), rest) ∧ skips e = false
  decodes {recv : RecvStream} {body : List UInt8} : head recv.bytes = some body →
    (breaks body = true ∧ event body = none ∧ ∃ rest, read recv = (.error .panic, rest)) ∨
    (breaks body = false ∧
      ((∃ e, event body = some e ∧ read recv = (.ok e, recv.advance (4 + body.length))) ∨
      (event body = none ∧ ∃ e, read recv = (.error (.err e), recv.advance (4 + body.length)) ∧
        skips e = true)))

/-- A reader task delivers the events of its frames up to the first one it panics on. -/
theorem ReadsFrames.readLoop_events {read : RecvStream → FrameRead} {skips : Error → Bool}
    {head : List UInt8 → Option (List UInt8)} {breaks : List UInt8 → Bool}
    {event : List UInt8 → Option ProtoEvent} (reads : ReadsFrames read skips head breaks event) :
    ∀ fuel n (recv : RecvStream), recv.bytes.length < fuel → recv.bytes.length < n →
      (readLoop read skips fuel [] recv).1 =
        ((cutInto head n recv.bytes).takeWhile fun body => !breaks body).filterMap event := by
  intro fuel
  induction fuel with
  | zero => intro n recv room; omega
  | succ fuel ih =>
    intro n recv room enough
    obtain ⟨n, rfl⟩ : ∃ m, n = m + 1 := ⟨n - 1, by omega⟩
    rw [cutInto]
    cases front : head recv.bytes with
    | none =>
      obtain ⟨e, rest, stops, fatal⟩ := reads.ends front
      simp [readLoop, stops, fatal]
    | some body =>
      have size := reads.fits front
      have next := ih n (recv.advance (4 + body.length)) (by simp [RecvStream.advance]; omega)
        (by simp [RecvStream.advance]; omega)
      obtain ⟨broken, -, rest, panics⟩ | ⟨sound, ⟨e, decoded, ok⟩ | ⟨decoded, e, err, skip⟩⟩ :=
        reads.decodes front
      · simp [readLoop, panics, broken]
      · simpa [readLoop, ok, sound, decoded, RecvStream.advance] using next
      · simpa [readLoop, err, skip, sound, decoded, RecvStream.advance] using next

theorem length_of_headFrameC {bytes body : List UInt8} (h : headFrameC bytes = some body) :
    4 + body.length ≤ bytes.length := by
  simp only [headFrameC] at h
  split_ifs at h with fits
  obtain rfl := Option.some.inj h
  simp
  omega

theorem isDecodeError_of_read {msg : String} (read : startsWith msg "read stream C" = true) :
    isDecodeError "decode stream C frame" (.helloFailed msg) = false :=
  startsWith_apart read (by decide)

theorem readStreamCFrame_of_none {recv : RecvStream} (none_ : headFrameC recv.bytes = none) :
    ∃ e rest, readStreamCFrame recv = (.error (.err e), rest) ∧
      isDecodeError "decode stream C frame" e = false := by
  unfold readStreamCFrame
  by_cases short : recv.bytes.length < 4
  · have length : recv.readExact 4 = .error recv.ending := if_neg (by omega)
    rw [length]
    exact ⟨_, _, rfl, isDecodeError_of_read (startsWith_append rfl _)⟩
  have length : recv.readExact 4 = .ok (recv.bytes.take 4) := if_pos (by omega)
  have cut : ¬ 4 + ofBE (recv.bytes.take 4) ≤ recv.bytes.length := by
    simpa [headFrameC] using none_
  have body : (recv.advance 4).readExact (ofBE (recv.bytes.take 4)) = .error recv.ending :=
    if_neg (by simp [RecvStream.advance]; omega)
  rw [length]
  simp only [body]
  cases recv.ending with
  | eof => exact ⟨_, _, rfl, rfl⟩
  | ioError text =>
    refine ⟨_, _, rfl, isDecodeError_of_read ?_⟩
    exact startsWith_append (startsWith_append (startsWith_append rfl _) _) _

theorem readStreamCFrame_of_some {recv : RecvStream} {body : List UInt8}
    (front : headFrameC recv.bytes = some body) :
    readStreamCFrame recv =
      (mapErr (fun e => .helloFailed ("decode stream C frame: " ++ e.toText))
        (ProtoEvent.tryFromSlice body), recv.advance (4 + body.length)) := by
  have size := length_of_headFrameC front
  simp only [headFrameC] at front
  split_ifs at front with fits
  obtain same := Option.some.inj front
  have len : body.length = ofBE (recv.bytes.take 4) := by
    rw [← same]
    simp
    omega
  have length : recv.readExact 4 = .ok (recv.bytes.take 4) := if_pos (by omega)
  have whole : (recv.advance 4).readExact (ofBE (recv.bytes.take 4)) = .ok body := by
    rw [← same]
    exact if_pos (by simp [RecvStream.advance]; omega)
  have rest : (recv.advance 4).advance (ofBE (recv.bytes.take 4)) =
      recv.advance (4 + body.length) := by
    simp [RecvStream.advance, len]
  simp only [readStreamCFrame, length, whole, rest]

theorem readsFrames_streamC :
    ReadsFrames readStreamCFrame (isDecodeError "decode stream C frame") headFrameC
      (fun _ => false) eventC where
  fits := length_of_headFrameC
  ends := readStreamCFrame_of_none
  decodes {recv body} front := by
    rw [readStreamCFrame_of_some front, eventC]
    obtain ⟨e, ok⟩ | ⟨e, err⟩ := tryFromSlice_cases body
    · exact .inr ⟨rfl, .inl ⟨e, by rw [ok]; rfl, by rw [ok]; rfl⟩⟩
    · exact .inr ⟨rfl, .inr ⟨by rw [err]; rfl, _, by rw [err]; rfl, isDecodeError_decode _⟩⟩

theorem readsFrames_streamB :
    ReadsFrames readFrame (isDecodeError "decode frame") headFrame startsVar eventB where
  fits := length_of_headFrame
  ends {recv} none_ := by
    obtain ⟨body, front, -⟩ | ⟨-, e, rest, read, fatal⟩ := readFrame_cases recv
    · simp [none_] at front
    · exact ⟨e, rest, read, skipsBadFrames_isDecodeError.fatal e fatal⟩
  decodes {recv body} front := by
    obtain ⟨body', front', read⟩ | ⟨none_, -⟩ := readFrame_cases recv
    · obtain rfl : body = body' := Option.some.inj (front.symm.trans front')
      rw [read, eventB]
      obtain ⟨var, panics⟩ | ⟨fixed, ⟨e, ok⟩ | ⟨e, err⟩⟩ := tryFromFixed_body_cases body
      · exact .inl ⟨var, by rw [panics]; rfl, _, by rw [panics]; rfl⟩
      · exact .inr ⟨fixed, .inl ⟨e, by rw [ok]; rfl, by rw [ok]; rfl⟩⟩
      · exact .inr ⟨fixed, .inr ⟨by rw [err]; rfl, _, by rw [err]; rfl,
          skipsBadFrames_isDecodeError.decode _⟩⟩
    · simp [none_] at front

/-- Where `f` finds nothing off `p`, nothing is lost behind the first element off `p` exactly when
nothing is to be found there. -/
theorem filterMap_takeWhile_eq_iff {α β : Type} {p : α → Bool} {f : α → Option β}
    (off : ∀ a, p a = false → f a = none) (l : List α) :
    (l.takeWhile p).filterMap f = l.filterMap f ↔
      l.Pairwise fun a b => p a = false → f b = none := by
  induction l with
  | nil => simp
  | cons a l ih =>
    cases keeps : p a with
    | true => cases found : f a <;> simp [keeps, found, ih]
    | false =>
      simp only [List.takeWhile_cons, keeps, Bool.false_eq_true, if_false, List.filterMap_nil,
        List.filterMap_cons, off a keeps, List.pairwise_cons, forall_const]
      rw [eq_comm, List.filterMap_eq_nil_iff]
      refine ⟨fun empty => ⟨empty, ?_⟩, And.left⟩
      exact List.pairwise_of_forall_mem_list fun _ _ b mem _ => empty b mem

/-! ### One stream -/

namespace Opened

variable {s : Opened} {side : Side} {ending : Ending}

theorem acceptBi_parked (short : s.bytes.length < 4) :
    acceptBi side ⟨s.bytes, ending⟩ = .parked := by
  have length : RecvStream.readExact ⟨s.bytes, ending⟩ 4 = .error ending :=
    if_neg (by simpa using short)
  cases side <;> simp [acceptBi, serverAcceptBi, clientAcceptBi, length]

theorem acceptBi_http3 (enough : 4 ≤ s.bytes.length) (request : s.isRequest = true) :
    acceptBi side ⟨s.bytes, ending⟩ = .http3 := by
  have length : RecvStream.readExact ⟨s.bytes, ending⟩ 4 = .ok (s.bytes.take 4) := if_pos enough
  rw [isRequest] at request
  cases side <;> simp [acceptBi, serverAcceptBi, clientAcceptBi, length, request]

/-- The body of the first frame is all there, or reading it fails. -/
theorem readExact_body (enough : 4 ≤ s.bytes.length) (ending : Ending) :
    (4 + s.len ≤ s.bytes.length ∧ ((s.bytes.drop 4).take s.len).length = s.len ∧
      RecvStream.readExact ⟨s.bytes.drop 4, ending⟩ s.len = .ok ((s.bytes.drop 4).take s.len)) ∨
    (¬ 4 + s.len ≤ s.bytes.length ∧
      RecvStream.readExact ⟨s.bytes.drop 4, ending⟩ s.len = .error ending) := by
  by_cases whole : 4 + s.len ≤ s.bytes.length
  · exact .inl ⟨whole, by simp; omega, if_pos (by simp; omega)⟩
  · exact .inr ⟨whole, if_neg (by simp; omega)⟩

/-- A first frame on stream C is delivered if it decodes, and skipped otherwise. -/
theorem acceptBi_firstC (side : Side) (ending : Ending) (enough : 4 ≤ s.bytes.length)
    (frame : s.isRequest = false) (long : s.len > maxEventSize) :
    (s.firstEvent = none ∧ acceptBi side ⟨s.bytes, ending⟩ = .skipped) ∨
    ∃ body first, headFrameC s.bytes = some body ∧ eventC body = some first ∧
      acceptBi side ⟨s.bytes, ending⟩ =
        .streamC first ⟨s.bytes.drop (4 + body.length), ending⟩ := by
  have length : RecvStream.readExact ⟨s.bytes, ending⟩ 4 = .ok (s.bytes.take 4) := if_pos enough
  have stream : acceptBi side ⟨s.bytes, ending⟩ = acceptStreamC s.len ⟨s.bytes.drop 4, ending⟩ := by
    rw [isRequest] at frame
    rw [len] at long
    cases side <;> simp [acceptBi, serverAcceptBi, clientAcceptBi, length, frame, long,
      RecvStream.advance, len]
  rw [stream, acceptStreamC, firstEvent, if_pos long]
  obtain ⟨whole, size, read⟩ | ⟨cut, read⟩ := readExact_body enough ending
  · have front : headFrameC s.bytes = some ((s.bytes.drop 4).take s.len) := if_pos whole
    simp only [read, front, Option.bind_eq_bind, Option.bind_some]
    obtain ⟨first, ok⟩ | ⟨e, err⟩ := tryFromSlice_cases ((s.bytes.drop 4).take s.len)
    · refine .inr ⟨_, first, rfl, by rw [eventC, ok]; rfl, ?_⟩
      simp [ok, acceptDecoded, RecvStream.advance, size]
    · exact .inl ⟨by rw [eventC, err]; rfl, by rw [err]; rfl⟩
  · have front : headFrameC s.bytes = none := if_neg cut
    exact .inl ⟨by rw [front]; rfl, by rw [read]⟩

/-- What the accept task does with a stream B whose first frame it does not deliver. -/
def refusal : Side → Accepted
  | .listening => .taskEnds
  | .dialing => .skipped

theorem isRequest_short (short : s.len ≤ maxEventSize) : s.isRequest = false := by
  by_contra request
  exact absurd short
    (Nat.not_le.mpr (ofBE_of_looksLikeHttp3Request (by simpa [isRequest] using request)))

theorem acceptBi_afterLength (enough : 4 ≤ s.bytes.length) (short : s.len ≤ maxEventSize)
    (whole : side = .dialing → s.len = maxEventSize) (ending : Ending) :
    acceptBi side ⟨s.bytes, ending⟩ =
      match RecvStream.readExact ⟨s.bytes.drop 4, ending⟩ s.len with
      | .error _ => refusal side
      | .ok body => acceptDecoded (.streamB · ⟨(s.bytes.drop 4).drop s.len, ending⟩)
          (refusal side) (ProtoEvent.tryFromFixed (padTo maxEventSize body)) := by
  have length : RecvStream.readExact ⟨s.bytes, ending⟩ 4 = .ok (s.bytes.take 4) := if_pos enough
  have frame : looksLikeHttp3Request (s.bytes.take 4) = false := isRequest_short short
  have notLong : ¬ ofBE (s.bytes.take 4) > maxEventSize := Nat.not_lt.mpr short
  cases side with
  | listening =>
    simp only [acceptBi, serverAcceptBi, length, frame, notLong, Bool.false_eq_true, if_false]
    rfl
  | dialing =>
    have exact_ : ¬ ofBE (s.bytes.take 4) ≠ maxEventSize := not_not.mpr (whole rfl)
    simp only [acceptBi, clientAcceptBi, length, frame, notLong, exact_, Bool.false_eq_true,
      if_false]
    rfl

/-- A first frame on stream B is passed over by the dialing side for its length, or refused because
it is cut short or does not decode, or the decoder panics on it, or it is delivered. -/
theorem acceptBi_firstB (side : Side) (ending : Ending) (enough : 4 ≤ s.bytes.length)
    (short : s.len ≤ maxEventSize) :
    (side = .dialing ∧ s.len ≠ maxEventSize ∧ acceptBi side ⟨s.bytes, ending⟩ = .skipped) ∨
    ((side = .dialing → s.len = maxEventSize) ∧
      ((s.firstEvent = none ∧ (headFrame s.bytes).any startsVar = false ∧
        acceptBi side ⟨s.bytes, ending⟩ = refusal side) ∨
      (s.firstEvent = none ∧ (headFrame s.bytes).any startsVar = true ∧
        acceptBi side ⟨s.bytes, ending⟩ = .panic) ∨
      ∃ body first, headFrame s.bytes = some body ∧ startsVar body = false ∧
        eventB body = some first ∧ acceptBi side ⟨s.bytes, ending⟩ =
          .streamB first ⟨s.bytes.drop (4 + body.length), ending⟩)) := by
  have length : RecvStream.readExact ⟨s.bytes, ending⟩ 4 = .ok (s.bytes.take 4) := if_pos enough
  have notLong : ¬ s.len > maxEventSize := by omega
  by_cases dropped : side = .dialing ∧ s.len ≠ maxEventSize
  · obtain ⟨rfl, other⟩ := dropped
    refine .inl ⟨rfl, other, ?_⟩
    have frame := isRequest_short short
    rw [isRequest] at frame
    rw [len] at other notLong
    simp [acceptBi, clientAcceptBi, length, frame, notLong, other]
  have exact_ : side = .dialing → s.len = maxEventSize := by simpa using dropped
  refine .inr ⟨exact_, ?_⟩
  rw [firstEvent, if_neg notLong]
  obtain ⟨whole, size, read⟩ | ⟨cut, read⟩ := readExact_body enough ending
  · have front : headFrame s.bytes = some ((s.bytes.drop 4).take s.len) := if_pos ⟨short, whole⟩
    have decoded := acceptBi_afterLength enough short exact_ ending
    simp only [read] at decoded
    rw [decoded]
    simp only [front, Option.bind_eq_bind, Option.bind_some, Option.any_some]
    obtain ⟨var, panics⟩ | ⟨fixed, ⟨first, ok⟩ | ⟨e, err⟩⟩ :=
      tryFromFixed_body_cases ((s.bytes.drop 4).take s.len)
    · exact .inr (.inl ⟨by rw [eventB, panics]; rfl, var, by rw [panics]; rfl⟩)
    · refine .inr (.inr ⟨_, first, rfl, fixed, by rw [eventB, ok]; rfl, ?_⟩)
      simp [ok, acceptDecoded, size]
    · exact .inl ⟨by rw [eventB, err]; rfl, fixed, by rw [err]; rfl⟩
  · have front : headFrame s.bytes = none := if_neg fun both => cut both.2
    have refused := acceptBi_afterLength enough short exact_ ending
    simp only [read] at refused
    exact .inl ⟨by rw [front]; rfl, by rw [front]; rfl, refused⟩

theorem framesC_cons {body : List UInt8} (front : headFrameC s.bytes = some body) :
    framesC s.bytes =
      body :: cutInto headFrameC s.bytes.length (s.bytes.drop (4 + body.length)) := by
  rw [framesC, cutInto, front]

theorem frames_cons {body : List UInt8} (front : headFrame s.bytes = some body) :
    frames s.bytes =
      body :: cutInto headFrame s.bytes.length (s.bytes.drop (4 + body.length)) := by
  rw [frames, framesUpTo_eq_cutInto, cutInto, front]

/-- Nothing of a stream is delivered unless its first frame is. -/
theorem delivered_eq_nil (stays : ¬ s.Starts side) :
    (acceptBi side ⟨s.bytes, ending⟩).delivered side s.known = [] := by
  by_cases enough : 4 ≤ s.bytes.length
  swap
  · rw [acceptBi_parked (by omega)]
    rfl
  cases request : s.isRequest with
  | true =>
    rw [acceptBi_http3 enough request]
    rfl
  | false =>
    by_cases long : s.len > maxEventSize
    · obtain ⟨-, skipped⟩ | ⟨body, first, front, decoded, -⟩ :=
        acceptBi_firstC side ending enough request long
      · rw [skipped]
        rfl
      · refine absurd ⟨request, ?_, fun _ short => by omega⟩ stays
        simp [firstEvent, long, front, decoded]
    have short : s.len ≤ maxEventSize := by omega
    obtain ⟨-, -, skipped⟩ | ⟨whole, ⟨-, -, refused⟩ | ⟨-, -, panics⟩ |
        ⟨body, first, front, -, decoded, taken⟩⟩ :=
      acceptBi_firstB side ending enough short
    · rw [skipped]
      rfl
    · rw [refused]
      cases side <;> rfl
    · rw [panics]
      rfl
    · have some_ : s.firstEvent.isSome = true := by simp [firstEvent, long, front, decoded]
      have unknown : ¬ (side = .dialing → s.known = true) := fun known =>
        stays ⟨request, some_, fun dials _ => ⟨whole dials, known dials⟩⟩
      obtain ⟨dials, unknown⟩ := Classical.not_imp.mp unknown
      rw [taken, dials]
      simp [Accepted.delivered, unknown]

/-- A stream C whose first frame is delivered is delivered whole. -/
theorem delivered_streamC (starts : s.Starts side) (enough : 4 ≤ s.bytes.length)
    (long : s.len > maxEventSize) :
    (acceptBi side ⟨s.bytes, ending⟩).delivered side s.known = s.expected := by
  obtain ⟨request, some_, -⟩ := starts
  obtain ⟨none_, -⟩ | ⟨body, first, front, decoded, taken⟩ :=
    acceptBi_firstC side ending enough request long
  · simp [none_] at some_
  have size := length_of_headFrameC front
  have rest := readsFrames_streamC.readLoop_events
    (s.bytes.length - (4 + body.length) + 1) s.bytes.length
    ⟨s.bytes.drop (4 + body.length), ending⟩ (by simp) (by simp; omega)
  have all (bodies : List (List UInt8)) : bodies.takeWhile (fun _ => !false) = bodies :=
    List.takeWhile_eq_self_iff.mpr fun _ _ => rfl
  rw [all] at rest
  rw [taken, expected, if_pos long, framesC_cons front]
  simp [Accepted.delivered, readStreamCLoop, RecvStream.fuel, rest, decoded]

/-- A stream B whose first frame is delivered is delivered up to the first frame the decoder panics
on. -/
theorem delivered_streamB (starts : s.Starts side) (enough : 4 ≤ s.bytes.length)
    (short : s.len ≤ maxEventSize) :
    (acceptBi side ⟨s.bytes, ending⟩).delivered side s.known =
      ((frames s.bytes).takeWhile fun body => !startsVar body).filterMap eventB := by
  obtain ⟨request, some_, taken⟩ := starts
  obtain ⟨dials, other, -⟩ | ⟨-, ⟨none_, -⟩ | ⟨none_, -⟩ |
      ⟨body, first, front, fixed, decoded, accepted⟩⟩ :=
    acceptBi_firstB side ending enough short
  · exact absurd (taken dials short).1 other
  · simp [none_] at some_
  · simp [none_] at some_
  have size := length_of_headFrame front
  have rest := readsFrames_streamB.readLoop_events
    (s.bytes.length - (4 + body.length) + 1) s.bytes.length
    ⟨s.bytes.drop (4 + body.length), ending⟩ (by simp) (by simp; omega)
  rw [accepted, frames_cons front]
  cases side with
  | listening =>
    simp [Accepted.delivered, serverStreamReaderTask, RecvStream.fuel, rest, decoded, fixed]
  | dialing =>
    simp [Accepted.delivered, clientStreamBReaderTask, RecvStream.fuel, rest, decoded, fixed,
      (taken rfl short).2]

theorem goesOn_iff (side : Side) (s : Opened) (ending : Ending) :
    (acceptBi side ⟨s.bytes, ending⟩).goesOn = true ↔ ¬ s.Ends side := by
  by_cases enough : 4 ≤ s.bytes.length
  swap
  · rw [acceptBi_parked (by omega)]
    simp [Accepted.goesOn, Ends, enough]
  by_cases long : s.len > maxEventSize
  · have stays : ¬ s.Ends side := by
      rintro ⟨-, ends⟩
      cases side <;> simp only at ends <;> omega
    cases request : s.isRequest with
    | true => simp [acceptBi_http3 enough request, Accepted.goesOn, stays]
    | false =>
      obtain ⟨-, skipped⟩ | ⟨body, first, -, -, taken⟩ :=
        acceptBi_firstC side ending enough request long
      · simp [skipped, Accepted.goesOn, stays]
      · simp [taken, Accepted.goesOn, stays]
  have short : s.len ≤ maxEventSize := by omega
  obtain ⟨rfl, other, skipped⟩ | ⟨whole, ⟨none_, fixed, refused⟩ | ⟨none_, var, panics⟩ |
      ⟨body, first, front, fixed, decoded, accepted⟩⟩ :=
    acceptBi_firstB side ending enough short
  · simp [skipped, Accepted.goesOn, Ends, other]
  · cases side <;> simp [refused, refusal, Accepted.goesOn, Ends, enough, short, none_, fixed]
  · cases side with
    | listening => simp [panics, Accepted.goesOn, Ends, enough, short, none_]
    | dialing => simp [panics, Accepted.goesOn, Ends, enough, whole rfl, var]
  · cases side <;> simp [accepted, Accepted.goesOn, Ends, firstEvent, long, front, decoded, fixed]

theorem length_of_firstEvent (some_ : s.firstEvent.isSome = true) :
    4 + s.len ≤ s.bytes.length := by
  by_contra cut
  have noneC : headFrameC s.bytes = none := if_neg cut
  have noneB : headFrame s.bytes = none := if_neg fun both => cut both.2
  simp [firstEvent, noneC, noneB] at some_

theorem not_starts_of_stalls (stalls : s.Stalls side) : ¬ s.Starts side := by
  rintro ⟨frame, some_, -⟩
  have whole := length_of_firstEvent some_
  obtain ⟨short, -⟩ | ⟨-, request, -⟩ | ⟨-, -, cut, -⟩ := stalls
  · omega
  · simp [request] at frame
  · omega

theorem taken_of_silent (silent : s.expected = []) : s.Taken side :=
  fun full => absurd silent full

theorem taken_iff_silent (stays : ¬ s.Starts side) : s.Taken side ↔ [] = s.expected := by
  refine ⟨fun taken => ?_, fun silent => taken_of_silent silent.symm⟩
  by_contra full
  exact stays (taken (Ne.symm full)).1

theorem eventB_of_startsVar {body : List UInt8} (var : startsVar body = true) :
    eventB body = none := by
  obtain ⟨-, panics⟩ | ⟨fixed, -⟩ := tryFromFixed_body_cases body
  · rw [eventB, panics]
    rfl
  · simp [var] at fixed

/-- What is delivered of a stream that is taken up is what its frames hold exactly when the stream
is `Taken`. -/
theorem delivered_eq_expected_iff (side : Side) (s : Opened) (ending : Ending) :
    (acceptBi side ⟨s.bytes, ending⟩).delivered side s.known = s.expected ↔ s.Taken side := by
  by_cases starts : s.Starts side
  swap
  · rw [delivered_eq_nil starts, taken_iff_silent starts]
  have enough := length_of_firstEvent starts.2.1
  by_cases long : s.len > maxEventSize
  · refine iff_of_true (delivered_streamC starts (by omega) long) fun _ => ⟨starts, ?_⟩
    intro short
    omega
  have short : s.len ≤ maxEventSize := by omega
  have off (body : List UInt8) (var : (!startsVar body) = false) : eventB body = none :=
    eventB_of_startsVar (by simpa using var)
  rw [delivered_streamB starts (by omega) short, expected, if_neg long,
    filterMap_takeWhile_eq_iff off]
  simp only [Bool.not_eq_false']
  constructor
  · exact fun ordered _ => ⟨starts, fun _ => ordered⟩
  · intro taken
    by_cases silent : s.expected = []
    · rw [expected, if_neg long, List.filterMap_eq_nil_iff] at silent
      exact List.pairwise_of_forall_mem_list fun _ _ body mem _ => silent body mem
    · exact (taken silent).2 short

end Opened

/-! ### All streams -/

section Streams

variable {s : Opened} {streams : List Opened} {side : Side}

theorem silent_iff : (streams.map fun _ => []) = streams.map Opened.expected ↔
    ∀ later ∈ streams, later.expected = [] := by
  rw [List.map_inj_left]
  exact forall₂_congr fun _ _ => eq_comm

/-- Behind a stream that does not let the task pass there must be nothing to deliver. -/
theorem blocked_iff (blocked : ¬ s.LetsPass side) :
    ((∀ t ∈ s :: streams, t.Taken side) ∧
      (s :: streams).Pairwise fun ahead later => later.expected ≠ [] → ahead.LetsPass side) ↔
    s.Taken side ∧ ∀ later ∈ streams, later.expected = [] := by
  rw [List.forall_mem_cons, List.pairwise_cons]
  constructor
  · rintro ⟨⟨taken, -⟩, passes, -⟩
    refine ⟨taken, fun later mem => ?_⟩
    by_contra full
    exact blocked (passes later mem full)
  · rintro ⟨taken, silent⟩
    refine ⟨⟨taken, fun later mem => Opened.taken_of_silent (silent later mem)⟩, ?_, ?_⟩
    · exact fun later mem full => absurd (silent later mem) full
    · exact List.pairwise_of_forall_mem_list fun _ _ later mem full =>
        absurd (silent later mem) full

end Streams

/-- Every frame that decodes is delivered, whatever else the peer opens, exactly when every stream
that holds one is taken and no stream in front of it stalls or ends the task. -/
theorem frames_delivered_iff (side : Side) (streams : List Opened) :
    acceptTask side streams = streams.map Opened.expected ↔
      (∀ s ∈ streams, s.Taken side) ∧
        streams.Pairwise fun s later => later.expected ≠ [] → s.LetsPass side := by
  induction streams with
  | nil => simp [acceptTask]
  | cons s streams ih =>
    by_cases stalls : s.Stalls side
    · have blocked : ¬ s.LetsPass side := fun passes => passes.1 stalls
      rw [blocked_iff blocked, Opened.taken_iff_silent (Opened.not_starts_of_stalls stalls),
        acceptTask, if_pos stalls, List.map_cons, List.cons_eq_cons, silent_iff]
    have own := Opened.delivered_eq_expected_iff side s (s.ending.getD .eof)
    have next := Opened.goesOn_iff side s (s.ending.getD .eof)
    rw [acceptTask, if_neg stalls, List.map_cons, List.cons_eq_cons, own]
    by_cases ends : s.Ends side
    · have blocked : ¬ s.LetsPass side := fun passes => passes.2 ends
      rw [blocked_iff blocked, if_neg fun goes => next.mp goes ends, silent_iff]
    · have passes : s.LetsPass side := ⟨stalls, ends⟩
      rw [if_pos (next.mpr ends), ih]
      simp [passes, and_assoc]

/-- A short frame of an unknown type ends the listening side's task, a stream that stays open with
three bytes holds up either side's, and a `Ping` behind a long frame of an unknown type is dropped
with its stream. -/
theorem frames_lost_behind_malformed :
    let ping : Opened := ⟨[0, 0, 0, 21, 6] ++ List.replicate 20 0, some .eof, true, true⟩
    let unknown : Opened := ⟨[0, 0, 0, 1, 99], some .eof, true, true⟩
    let unfinished : Opened := ⟨[0, 0, 0], none, true, true⟩
    let behind : Opened :=
      ⟨[0, 0, 0, 22] ++ List.replicate 22 99 ++ [0, 0, 0, 1, 6], some .eof, true, true⟩
    ping.expected = [.ping] ∧ unknown.expected = [] ∧ unfinished.expected = [] ∧
      behind.expected = [.ping] ∧
      acceptTask .listening [unknown, ping] = [[], []] ∧
      acceptTask .listening [unfinished, ping] = [[], []] ∧
      acceptTask .dialing [unfinished, ping] = [[], []] ∧
      acceptTask .listening [behind] = [[]] ∧ acceptTask .dialing [behind] = [[]] := by
  decide +kernel

end LanMouse.Transport
