import LanMouse.Lib.Transition
import LanMouse.Transport.Panic
import LanMouse.Transport.Writer

/-!
# The main loop of a session

`PeerSession::run` waits for the next frame of the control stream, for the readers of the other
streams and for the end of the connection, all in one `select!`. A round of the loop ends as soon as
one of them is ready. The unfinished read of a frame is then dropped with the bytes it has consumed,
and the next round starts a new one.

Two things are settled here: when the frames of the control stream come through, and when the loop
has pushed `Leave(0)` before it exits.
-/
namespace LanMouse.Transport

open Bytes Proto Transition

/-- How the loop was left: with `Leave(0)` pushed, because the channel of a reader task was closed,
or with an error. -/
inductive Exit where
  | released
  | readerEnded
  | frameTooLarge (len : Nat)
  | panicked
  deriving DecidableEq, Repr

/-- `wire` is what the peer has written to the control stream and the transport has not delivered;
`arrived` is delivered and not yet read, and `reading` is what the pending `read_frame` has
consumed. -/
structure Session where
  wire : List UInt8
  arrived : List UInt8 := []
  reading : List UInt8 := []
  ending : Option Ending := none
  outgoing : List ProtoEvent := []
  inbox : List ProtoEvent := []
  exit : Option Exit := none
  deriving DecidableEq, Repr

inductive Reader where
  | streamB
  | datagram
  | streamC
  deriving DecidableEq, Repr

/-- `arrive` and `ends` are what the transport does with the control stream. `poll` is a poll of the
pending read; the others are arms of the `select!` that are ready before it. A reader without an
event has ended. -/
inductive SessionEvent where
  | arrive (n : Nat)
  | ends (ending : Ending)
  | poll
  | reader (reader : Reader) (event : Option ProtoEvent)
  | closed
  deriving DecidableEq, Repr

namespace Session

/-- Push `Leave(0)` and leave the loop. -/
def release (s : Session) : Session :=
  { s with reading := [], outgoing := s.outgoing ++ [.leave 0], exit := some .released }

def pollRead (s : Session) : Session :=
  let got := s.reading ++ s.arrived
  if got.length < frameNeed got ∧ s.ending = none then { s with reading := got, arrived := [] }
  else
    match readFrame ⟨got, s.ending.getD .eof⟩ with
    | (.ok event, rest) =>
      { s with reading := [], arrived := rest.bytes, outgoing := s.outgoing ++ [event] }
    | (.error (.err (.frameTooLarge len)), rest) =>
      { s with reading := [], arrived := rest.bytes, exit := some (.frameTooLarge len) }
    | (.error (.err e), rest) =>
      if sessionSkips e then { s with reading := [], arrived := rest.bytes } else s.release
    | (.error _, _) => { s with exit := some .panicked }

/-- Another arm takes an event from the channel of a reader task, or finds the channel closed. -/
def readerReady (s : Session) (reader : Reader) : Option ProtoEvent → Session
  | some event =>
    { s with reading := [], inbox := if reader = .streamC then s.inbox ++ [event] else s.inbox }
  | none => { s with reading := [], exit := some .readerEnded }

def step (s : Session) (e : SessionEvent) : Session :=
  if s.exit ≠ none then s
  else
    match e with
    | .arrive n =>
      if s.ending = none then
        { s with arrived := s.arrived ++ s.wire.take n, wire := s.wire.drop n }
      else s
    | .ends ending => { s with ending := some (s.ending.getD ending) }
    | .poll => s.pollRead
    | .reader reader event => s.readerReady reader event
    | .closed => s.release

variable {s : Session}

theorem step_exited (exited : s.exit ≠ none) (e : SessionEvent) : s.step e = s := by
  simp [step, exited]

/-! ### `Leave(0)` before the exit -/

/-- The session has not returned, or it has pushed `Leave(0)` before. -/
def LeavePushed (s : Session) : Prop :=
  ∀ exit ∈ s.exit, exit ≠ .panicked → .leave 0 ∈ s.outgoing

/-- The head of the bytes is the length of a frame that is too large. -/
def oversized (bytes : List UInt8) : Bool :=
  4 ≤ bytes.length ∧ ofBE (bytes.take 4) > maxEventSize

/-- The steps that leave the loop without a word to the capture. -/
def leavesSilently (s : Session) : SessionEvent → Bool
  | .poll => oversized (s.reading ++ s.arrived)
  | .reader _ none => true
  | _ => false

/-- A session that is to leave silently has forwarded a `Leave(0)` of the peer before. -/
def ToldBefore (s : Session) (e : SessionEvent) : Prop :=
  s.exit = none → s.leavesSilently e → .leave 0 ∈ s.outgoing

instance (s : Session) (e : SessionEvent) : Decidable (s.ToldBefore e) :=
  inferInstanceAs (Decidable (_ → _ → _))

theorem readFrame_oversized {recv : RecvStream} (big : oversized recv.bytes = true) :
    readFrame recv =
      (.error (.err (.frameTooLarge (ofBE (recv.bytes.take 4)))), recv.advance 4) := by
  obtain ⟨four, large⟩ : 4 ≤ recv.bytes.length ∧ ofBE (recv.bytes.take 4) > maxEventSize := by
    simpa [oversized] using big
  simp only [readFrame, RecvStream.readExact, four, large, if_true]

theorem mapErr_ne_frameTooLarge (decoded : Outcome ProtoEvent) (len : Nat) :
    mapErr (fun e => Error.helloFailed ("decode frame: " ++ e.toText)) decoded ≠
      .error (.err (.frameTooLarge len)) := by
  rcases decoded with (e | _ | _) | event <;> simp [mapErr]

theorem oversized_of_readFrame {recv rest : RecvStream} {len : Nat}
    (read : readFrame recv = (.error (.err (.frameTooLarge len)), rest)) :
    oversized recv.bytes = true := by
  by_contra fits
  simp only [oversized, decide_eq_true_eq, not_and, not_lt] at fits
  simp only [readFrame, RecvStream.readExact] at read
  by_cases four : 4 ≤ recv.bytes.length
  · have small : ¬ ofBE (recv.bytes.take 4) > maxEventSize := by
      have := fits four
      omega
    simp only [four, small, if_true, if_false] at read
    split at read
    · cases read
    · cases read
    · exact mapErr_ne_frameTooLarge _ _ (congrArg Prod.fst read)
  · simp [four] at read

theorem pollRead_oversized (big : oversized (s.reading ++ s.arrived) = true) :
    s.pollRead = { s with
      reading := []
      arrived := (s.reading ++ s.arrived).drop 4
      exit := some (.frameTooLarge (ofBE ((s.reading ++ s.arrived).take 4))) } := by
  obtain ⟨four, large⟩ : 4 ≤ (s.reading ++ s.arrived).length ∧
      ofBE ((s.reading ++ s.arrived).take 4) > maxEventSize := by simpa [oversized] using big
  have complete : ¬ (s.reading ++ s.arrived).length < frameNeed (s.reading ++ s.arrived) := by
    simp only [frameNeed, large, or_true, if_true]
    omega
  have read : readFrame ⟨s.reading ++ s.arrived, s.ending.getD .eof⟩ = _ := readFrame_oversized big
  simp only [pollRead, complete, false_and, if_false, read]
  rfl

theorem leavePushed_release (s : Session) : s.release.LeavePushed :=
  fun _ _ _ => List.mem_append_right _ List.mem_cons_self

theorem LeavePushed.pollRead (running : s.exit = none) (told : s.ToldBefore .poll) :
    s.pollRead.LeavePushed := by
  have goesOn : ∀ t : Session, t.exit = none → t.LeavePushed := by
    intro t none_ exit mem
    rw [none_] at mem
    cases mem
  unfold Session.pollRead
  simp only
  split_ifs
  · exact goesOn _ running
  · split
    · exact goesOn _ running
    · next read => exact fun _ _ _ => told running (oversized_of_readFrame read)
    · split_ifs
      · exact goesOn _ running
      · exact leavePushed_release s
    · rintro exit mem neither
      exact absurd (Option.mem_some.mp mem).symm neither

theorem LeavePushed.step (pushed : s.LeavePushed) {e : SessionEvent} (told : s.ToldBefore e) :
    (s.step e).LeavePushed := by
  by_cases running : s.exit = none
  · have same : ∀ t : Session, t.exit = s.exit → t.LeavePushed := by
      intro t exit_ exit mem
      rw [exit_, running] at mem
      cases mem
    unfold Session.step
    rw [if_neg (not_not.mpr running)]
    split
    · split_ifs
      · exact same _ rfl
      · exact pushed
    · exact same _ rfl
    · exact LeavePushed.pollRead running told
    · next reader event =>
      cases event with
      | some event => exact same _ rfl
      | none => exact fun _ _ _ => told running rfl
    · exact leavePushed_release s
  · rwa [step_exited running]

theorem toldBefore_of_step {e : SessionEvent} (pushed : (s.step e).LeavePushed) :
    s.ToldBefore e := by
  intro running silent
  unfold Session.step at pushed
  rw [if_neg (not_not.mpr running)] at pushed
  cases e with
  | poll =>
    simp only [pollRead_oversized silent] at pushed
    exact pushed _ rfl (by simp)
  | reader reader event =>
    cases event with
    | none => exact pushed .readerEnded rfl (by decide)
    | some event => cases silent
  | arrive n => cases silent
  | ends ending => cases silent
  | closed => cases silent

end Session

/-- A session has pushed `Leave(0)` whenever it has returned, exactly when it never leaves the loop
on an oversized frame or on the end of a reader before it has forwarded a `Leave(0)`. -/
theorem leave_before_exit_iff (wire : List UInt8) (events : List SessionEvent) :
    Always Session.step Session.LeavePushed { wire } events ↔
      AllMeet Session.step Session.ToldBefore { wire } events :=
  always_iff_allMeet Session.LeavePushed (fun _ _ pushed told => pushed.step told)
    (fun _ pushed => pushed) (fun _ _ _ pushed => Session.toldBefore_of_step pushed)
    (fun _ mem => by cases mem) events

/-- The stream B reader ends first. -/
theorem exit_without_leave :
    let s := run Session.step { wire := [] } [.reader .streamB none]
    s.exit = some .readerEnded ∧ s.outgoing = [] ∧ ¬ s.LeavePushed := by
  intro s
  exact ⟨rfl, rfl, fun pushed => absurd (pushed .readerEnded rfl (by decide)) List.not_mem_nil⟩

namespace Session

/-! ### The frames of the control stream -/

/-- What the control stream has brought in; the `Leave(0)` of the exit is the session's own. -/
def controlEvents (s : Session) : List ProtoEvent :=
  if s.exit = some .released then s.outgoing.dropLast else s.outgoing

/-- The control events are the first of those sent. Once everything that was written has arrived,
they are all of those sent as soon as it has been read, and as many polls as frames were sent are
enough to read it. -/
structure Delivers (sent : List ProtoEvent) (s : Session) : Prop where
  front : s.controlEvents <+: sent
  complete : s.exit = none → s.wire = [] → s.arrived = [] → s.controlEvents = sent
  polled : s.exit = none → s.wire = [] → ∀ n, sent.length ≤ n →
    (run Session.step s (List.replicate n .poll)).controlEvents = sent

/-- When the event of another reader is taken first, the read that is dropped has consumed
nothing. -/
def Unread (s : Session) : SessionEvent → Prop
  | .reader _ (some _) => s.reading = []
  | _ => True

instance (s : Session) : ∀ e, Decidable (s.Unread e)
  | .reader _ (some _) => inferInstanceAs (Decidable (s.reading = []))
  | .reader _ none | .arrive _ | .ends _ | .poll | .closed => isTrue trivial

/-- The frames that are still to be read are all there. -/
structure Whole (sent : List ProtoEvent) (s : Session) : Prop where
  delivered : s.controlEvents <+: sent
  ahead : s.exit = none → ∃ rest, s.outgoing ++ rest = sent ∧
    s.reading ++ s.arrived ++ s.wire = rest.flatMap framed
  unfinished : s.exit = none → s.reading.length < frameNeed s.reading

variable {sent : List ProtoEvent} {s : Session}

theorem controlEvents_release (s : Session) : s.release.controlEvents = s.outgoing := by
  simp [controlEvents, release]

theorem controlEvents_running (running : s.exit = none) : s.controlEvents = s.outgoing := by
  simp [controlEvents, running]

theorem Whole.outgoing (whole : s.Whole sent) (running : s.exit = none) : s.outgoing <+: sent := by
  rw [← controlEvents_running running]
  exact whole.delivered

/-- A session that has left the loop keeps what it delivered. -/
theorem whole_of_exited (exited : s.exit ≠ none) (delivered : s.controlEvents <+: sent) :
    s.Whole sent :=
  ⟨delivered, fun running => absurd running exited, fun running => absurd running exited⟩

theorem four_le_frameNeed (bytes : List UInt8) : 4 ≤ frameNeed bytes := by
  unfold frameNeed
  split_ifs <;> omega

theorem frameNeed_pos (bytes : List UInt8) : 0 < frameNeed bytes :=
  (four_le_frameNeed bytes).trans_lt' (by decide)

/-- The length of the first frame is known as soon as four of its bytes are there. -/
theorem frameNeed_framed {got wire more : List UInt8} {event : ProtoEvent}
    (fixed : event.eventType.isFixed = true) (split : got ++ wire = framed event ++ more)
    (four : 4 ≤ got.length) : frameNeed got = (framed event).length := by
  have length : got.take 4 = toBE 4 (encoded event).length := by
    have heads := congrArg (List.take 4) split
    rw [List.take_append_of_le_length four, framed, List.append_assoc] at heads
    simpa using heads
  have small := length_encoded_of_isFixed fixed
  rw [frameNeed, length, ofBE_framed fixed, if_neg (by omega), length_framed]

/-- A read that has not finished has not seen the first frame whole. -/
theorem length_lt_framed {got wire more : List UInt8} {event : ProtoEvent}
    (fixed : event.eventType.isFixed = true) (split : got ++ wire = framed event ++ more)
    (unfinished : got.length < frameNeed got) : got.length < (framed event).length := by
  by_cases four : 4 ≤ got.length
  · rwa [← frameNeed_framed fixed split four]
  · have := length_framed event
    omega

/-- A poll that finds the first frame whole takes exactly that frame. -/
theorem pollRead_framed {event : ProtoEvent} {more : List UInt8}
    (fixed : event.eventType.isFixed = true)
    (whole : s.reading ++ s.arrived = framed event ++ more) :
    s.pollRead = { s with reading := [], arrived := more, outgoing := s.outgoing ++ [event] } := by
  have four : 4 ≤ (framed event ++ more).length := by
    rw [List.length_append, length_framed]
    omega
  have need : ¬ (framed event ++ more).length < frameNeed (framed event ++ more) := by
    rw [frameNeed_framed fixed (List.append_nil _) four, List.length_append]
    omega
  simp only [pollRead, whole, need, false_and, if_false, readFrame_framed fixed]

/-- A poll that meets the end of the stream inside a frame leaves the loop. -/
theorem pollRead_cut {text : Ending} (ended : s.ending = some text)
    (cut : (s.reading ++ s.arrived).length < frameNeed (s.reading ++ s.arrived)) :
    s.pollRead.exit ≠ none ∧ s.pollRead.controlEvents = s.outgoing := by
  obtain ⟨body, complete, -⟩ | ⟨-, e, rest, read, fatal⟩ :=
    readFrame_cases ⟨s.reading ++ s.arrived, text⟩
  · have whole : ofBE ((s.reading ++ s.arrived).take 4) ≤ maxEventSize ∧
        4 + ofBE ((s.reading ++ s.arrived).take 4) ≤ (s.reading ++ s.arrived).length := by
      simp only [headFrame, Option.ite_none_right_eq_some] at complete
      exact complete.1
    rw [frameNeed, if_neg (by omega)] at cut
    omega
  · have stops := skipsBadFrames_sessionSkips.fatal e fatal
    simp only [Session.pollRead, ended, reduceCtorEq, and_false, if_false, Option.getD_some, read]
    cases e with
    | frameTooLarge len => simp [controlEvents]
    | truncated => simp [stops, release, controlEvents]
    | helloFailed msg => simp [stops, release, controlEvents]

theorem run_exited (exited : s.exit ≠ none) (events : List SessionEvent) :
    run step s events = s := by
  induction events with
  | nil => rfl
  | cons e events ih => rwa [run_cons, step_exited exited]

theorem step_poll (running : s.exit = none) : s.step .poll = s.pollRead := by
  simp [step, running]

/-- Where nothing is left to read, polling brings in nothing more. -/
theorem controlEvents_idle (running : s.exit = none) (nothing : s.reading ++ s.arrived = [])
    (n : Nat) : (run step s (List.replicate n .poll)).controlEvents = s.outgoing := by
  induction n generalizing s with
  | zero => exact controlEvents_running running
  | succ n ih =>
    rw [List.replicate_succ, run_cons, step_poll running]
    by_cases ended : s.ending = none
    · have waits : s.pollRead = { s with reading := [], arrived := [] } := by
        simp only [Session.pollRead, nothing, ended, and_true]
        exact if_pos (frameNeed_pos [])
      rw [waits]
      exact ih (s := { s with reading := [], arrived := [] }) running rfl
    · obtain ⟨text, isText⟩ := Option.ne_none_iff_exists'.mp ended
      obtain ⟨exited, delivered⟩ := pollRead_cut isText (nothing ▸ frameNeed_pos [])
      rw [run_exited exited, delivered]

/-- Every poll takes a frame, as long as frames are there. -/
theorem controlEvents_polls {rest : List ProtoEvent}
    (fixed : ∀ e ∈ rest, e.eventType.isFixed = true) (running : s.exit = none)
    (bytes : s.reading ++ s.arrived = rest.flatMap framed) {n : Nat} (enough : rest.length ≤ n) :
    (run step s (List.replicate n .poll)).controlEvents = s.outgoing ++ rest := by
  induction rest generalizing s n with
  | nil => rw [controlEvents_idle running bytes, List.append_nil]
  | cons event rest ih =>
    obtain ⟨m, rfl⟩ : ∃ m, n = m + 1 := Nat.exists_eq_add_one.mpr (by simp at enough; omega)
    rw [List.forall_mem_cons] at fixed
    have first : s.pollRead = { s with
        reading := [], arrived := rest.flatMap framed, outgoing := s.outgoing ++ [event] } :=
      pollRead_framed fixed.1 bytes
    have others := ih (s := s.pollRead) fixed.2 (first ▸ running) (by simp [first])
      (Nat.le_of_succ_le_succ enough)
    rw [List.replicate_succ, run_cons, step_poll running, others, first, List.append_assoc]
    rfl

theorem Whole.delivers (fixed : ∀ e ∈ sent, e.eventType.isFixed = true) (whole : s.Whole sent) :
    s.Delivers sent := by
  refine ⟨whole.delivered, fun running wire arrived => ?_, fun running wire n enough => ?_⟩
  · obtain ⟨rest, split, bytes⟩ := whole.ahead running
    rw [wire, arrived, List.append_nil] at bytes
    cases rest with
    | nil => rw [controlEvents_running running, ← split, List.append_nil]
    | cons event rest =>
      have isFixed := fixed event (by simp [← split])
      have cut := length_lt_framed isFixed bytes (whole.unfinished running)
      have lengths := congrArg List.length bytes
      simp only [List.append_nil, List.flatMap_cons, List.length_append] at lengths
      omega
  · obtain ⟨rest, split, bytes⟩ := whole.ahead running
    rw [wire, List.append_nil] at bytes
    subst split
    exact controlEvents_polls (fun e mem => fixed e (List.mem_append_right _ mem)) running bytes
      (by simp at enough; omega)

theorem Whole.pollRead (fixed : ∀ e ∈ sent, e.eventType.isFixed = true) (whole : s.Whole sent)
    (running : s.exit = none) : s.pollRead.Whole sent := by
  obtain ⟨rest, split, bytes⟩ := whole.ahead running
  by_cases complete : frameNeed (s.reading ++ s.arrived) ≤ (s.reading ++ s.arrived).length
  · have four := (four_le_frameNeed _).trans complete
    cases rest with
    | nil =>
      have lengths := congrArg List.length bytes
      simp only [List.flatMap_nil, List.length_append, List.length_nil] at lengths four
      omega
    | cons event rest =>
      have isFixed := fixed event (by simp [← split])
      rw [frameNeed_framed isFixed bytes four] at complete
      obtain ⟨more, got⟩ := List.prefix_of_prefix_length_le
        (bytes ▸ List.prefix_append (framed event) _) (List.prefix_append _ s.wire) complete
      rw [← got, List.flatMap_cons, List.append_assoc, List.append_cancel_left_eq] at bytes
      have moved : s.outgoing ++ [event] ++ rest = sent := by simpa using split
      rw [pollRead_framed isFixed got.symm]
      refine ⟨?_, fun _ => ⟨rest, moved, bytes⟩, fun _ => frameNeed_pos []⟩
      rw [controlEvents, if_neg (by simp [running])]
      exact ⟨rest, moved⟩
  · by_cases ended : s.ending = none
    · have waits : s.pollRead = { s with reading := s.reading ++ s.arrived, arrived := [] } := by
        simp only [Session.pollRead, ended, not_le.mp complete, and_self, if_true]
      rw [waits]
      refine ⟨whole.delivered, fun _ => ⟨rest, split, ?_⟩, fun _ => not_le.mp complete⟩
      simpa using bytes
    · obtain ⟨text, isText⟩ := Option.ne_none_iff_exists'.mp ended
      obtain ⟨exited, delivered⟩ := pollRead_cut isText (not_le.mp complete)
      refine whole_of_exited exited ?_
      rw [delivered]
      exact whole.outgoing running

theorem Whole.step (fixed : ∀ e ∈ sent, e.eventType.isFixed = true) (whole : s.Whole sent)
    {e : SessionEvent} (unread : s.Unread e) : (s.step e).Whole sent := by
  by_cases running : s.exit = none
  · obtain ⟨rest, split, bytes⟩ := whole.ahead running
    have delivered := whole.outgoing running
    have unfinished := whole.unfinished running
    unfold Session.step
    rw [if_neg (not_not.mpr running)]
    cases e with
    | arrive n =>
      simp only
      split_ifs
      · exact ⟨whole.delivered, fun _ => ⟨rest, split, by simpa using bytes⟩, fun _ => unfinished⟩
      · exact whole
    | ends ending => exact ⟨whole.delivered, fun _ => ⟨rest, split, bytes⟩, fun _ => unfinished⟩
    | poll => exact whole.pollRead fixed running
    | reader reader event =>
      cases event with
      | some event =>
        have nothing : s.reading = [] := unread
        rw [nothing] at bytes unfinished
        exact ⟨whole.delivered, fun _ => ⟨rest, split, bytes⟩, fun _ => unfinished⟩
      | none =>
        refine whole_of_exited (by simp [readerReady]) ?_
        simpa [readerReady, controlEvents] using delivered
    | closed =>
      refine whole_of_exited (by simp [release]) ?_
      rwa [controlEvents_release]
  · rwa [step_exited running]

theorem whole_start (sent : List ProtoEvent) :
    Whole sent { wire := sent.flatMap framed } where
  delivered := List.nil_prefix
  ahead _ := ⟨sent, rfl, rfl⟩
  unfinished _ := frameNeed_pos []

end Session

/-- The control events of a session are the frames its peer sent, in order, in every run in which no
event of another reader is taken while the read of a frame has consumed some of its bytes. -/
theorem control_frames_delivered {sent : List ProtoEvent} {frames : List (List UInt8)}
    (written : sent.mapM writeFrame = .ok frames) (events : List SessionEvent)
    (unread : AllMeet Session.step Session.Unread { wire := frames.flatten } events) :
    Always Session.step (Session.Delivers sent) { wire := frames.flatten } events := by
  obtain ⟨fixed, bytes⟩ := mapM_writeFrame_ok written
  rw [bytes] at unread ⊢
  exact always_of_allMeet (Session.Whole sent) (fun _ _ whole unread => whole.step fixed unread)
    (fun _ whole => whole.delivers fixed) (Session.whole_start sent) unread

/-- A frame in two chunks, and another reader before and after it. -/
theorem control_frames_delivered_two_chunks :
    let sent : List ProtoEvent := [.ping, .leave 7]
    let frames : List (List UInt8) := [[0, 0, 0, 1, 6], [0, 0, 0, 5, 9, 0, 0, 0, 7]]
    let events : List SessionEvent := [.reader .datagram (some .ping), .arrive 2, .poll, .arrive 12,
      .poll, .poll, .poll, .reader .streamB (some .ping)]
    sent.mapM writeFrame = .ok frames ∧
      AllMeet Session.step Session.Unread { wire := frames.flatten } events ∧
      Always Session.step (Session.Delivers sent) { wire := frames.flatten } events ∧
      (run Session.step { wire := frames.flatten } events).outgoing = sent := by
  intro sent frames events
  have written : sent.mapM writeFrame = .ok frames := by decide +kernel
  have unread : AllMeet Session.step Session.Unread { wire := frames.flatten } events := by
    decide +kernel
  exact ⟨written, unread, control_frames_delivered written events unread, by decide +kernel⟩

/-- Two bytes of a `Ping` are read, an event of stream B is taken, and the rest of the frame is not
a frame any more. -/
theorem control_frame_lost :
    let frames : List (List UInt8) := [[0, 0, 0, 1, 6]]
    let s := run Session.step { wire := frames.flatten }
      [.arrive 2, .poll, .reader .streamB (some .ping), .arrive 3, .poll]
    [ProtoEvent.ping].mapM writeFrame = .ok frames ∧ s.exit = none ∧ s.wire = [] ∧
      s.arrived = [] ∧ s.outgoing = [] ∧ ¬ s.Delivers [.ping] := by
  intro frames s
  have lost : s.exit = none ∧ s.wire = [] ∧ s.arrived = [] ∧ s.outgoing = [] ∧
      s.controlEvents = [] := by decide +kernel
  obtain ⟨running, wire, arrived, outgoing, control⟩ := lost
  refine ⟨by decide +kernel, running, wire, arrived, outgoing, fun delivers => ?_⟩
  have complete := delivers.complete running wire arrived
  rw [control] at complete
  cases complete

end LanMouse.Transport
