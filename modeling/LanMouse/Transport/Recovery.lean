import LanMouse.Transport.Sender

/-!
# Sending through failed writes

The sender drops a stream B or C with a failed write and opens another one for the next event. On
the listening side the streams go through one accept task, which ends with an input stream that was
cut inside its first frame. As long as there is none, the events whose calls returned `Ok` are those
that are delivered.
-/
namespace LanMouse.Transport

open Bytes Proto Client Outbox

/-! ### The accept task -/

/-- A stream that broke behind the length of its first frame and before the end of it, where the
length is that of an input stream. -/
def CutInFirst (s : Outbox.Stream UInt8) : Prop :=
  4 ≤ s.bytes.length ∧ s.bytes.length < 4 + ofBE (s.bytes.take 4) ∧
    ofBE (s.bytes.take 4) ≤ maxEventSize

instance (s : Outbox.Stream UInt8) : Decidable (CutInFirst s) := by
  unfold CutInFirst
  infer_instance

section AcceptTask

variable {good : List UInt8 → Prop} {messages : List (List UInt8)} {s : Outbox.Stream UInt8}
  {ending : Ending}

theorem take_first (short : ∀ body, good body → body.length < 2 ^ 32)
    (carries : s.Carries (Framed good) messages) (enough : 4 ≤ s.bytes.length) :
    ∃ body, good body ∧ s.bytes.take 4 = toBE 4 body.length := by
  obtain ⟨body, more, fits, first⟩ | ⟨-, -, length⟩ := carries_first short carries
  · exact ⟨body, fits, by rw [first, take_message]⟩
  · exact length enough

/-- What the accept task does with a stream: it never waits for one that arrived whole, it ends with
a cut one, and nothing is delivered from that. -/
structure Passed (ending : Ending) (s : Outbox.Stream UInt8) : Prop where
  notStalls : ¬ (arrived ending s).Stalls .listening
  goesOn : (acceptBi .listening ⟨s.bytes, ending⟩).goesOn = true ↔ ¬ CutInFirst s
  silent : CutInFirst s → Sender.takenUp ending s = []

theorem not_stalls (short : ∀ body, good body → body.length < 2 ^ 32)
    (frame : ∀ body, good body → looksLikeHttp3Request (toBE 4 body.length) = false)
    (carries : s.Carries (Framed good) messages) (ending : Ending) :
    ¬ (arrived ending s).Stalls .listening := by
  rintro (⟨-, ⟨⟩⟩ | ⟨enough, request, -⟩ | ⟨-, -, -, ⟨⟩, -⟩)
  obtain ⟨body, fits, length⟩ := take_first short carries enough
  rw [Opened.isRequest, arrived_bytes, length, frame body fits] at request
  cases request

theorem passed_fixed (carries : s.Carries (Framed FixedBody) messages) (ending : Ending) :
    Passed ending s := by
  have waits := not_stalls (fun _ => FixedBody.lt)
    (fun _ fits => looksLikeHttp3Request_small fits.1) carries ending
  have goesOn := Opened.goesOn_iff .listening (arrived ending s) ending
  obtain ⟨body, more, fits, first⟩ | ⟨none_, cut, -⟩ :=
    carries_first (fun _ => FixedBody.lt) carries
  · have whole : ¬ CutInFirst s := by
      rintro ⟨-, cut, -⟩
      rw [first, ofBE_message fits.lt, List.length_append, length_message] at cut
      omega
    refine ⟨waits, goesOn.trans (not_congr (iff_of_false ?_ whole)), fun cut => absurd cut whole⟩
    rintro ⟨-, small, silent⟩
    rw [Opened.firstEvent, if_neg (Nat.not_lt.mpr small), arrived_bytes, first,
      finds_headFrame.whole body more fits] at silent
    exact Option.ne_none_iff_isSome.mpr fits.2 silent
  · refine ⟨waits, goesOn.trans (not_congr ⟨?_, ?_⟩), fun _ => ?_⟩
    · exact fun ends => ⟨ends.1, cut, ends.2.1⟩
    · rintro ⟨enough, -, (small : (arrived ending s).len ≤ maxEventSize)⟩
      refine ⟨enough, small, ?_⟩
      rw [Opened.firstEvent, if_neg (Nat.not_lt.mpr small), arrived_bytes,
        finds_headFrame.torn _ cut]
      rfl
    · rw [takenUp_fixed carries, none_]
      rfl

theorem passed_long (carries : s.Carries (Framed LongBody) messages) (ending : Ending) :
    Passed ending s := by
  have short (body : List UInt8) (fits : LongBody body) : body.length < 2 ^ 32 := fits.2.1
  have large : 4 ≤ s.bytes.length → ¬ ofBE (s.bytes.take 4) ≤ maxEventSize := by
    intro enough
    obtain ⟨body, fits, length⟩ := take_first short carries enough
    rw [length, ofBE_toBE_four fits.2.1]
    exact Nat.not_le.mpr fits.1
  have whole : ¬ CutInFirst s := fun cut => large cut.1 cut.2.2
  have waits := not_stalls short (fun _ fits => fits.2.2.1) carries ending
  refine ⟨waits, ?_, fun cut => absurd cut whole⟩
  refine (Opened.goesOn_iff .listening (arrived ending s) ending).trans (not_congr ?_)
  exact iff_of_false (fun ends => large ends.1 ends.2.1) whole

theorem acceptTask_passed {streams : List (Outbox.Stream UInt8)}
    (passed : ∀ s ∈ streams, Passed ending s) :
    acceptTask .listening (streams.map (arrived ending)) =
      (streams.takeWhile fun s => !decide (CutInFirst s)).map (Sender.takenUp ending) ++
        (streams.dropWhile fun s => !decide (CutInFirst s)).map fun _ => [] := by
  induction streams with
  | nil => rfl
  | cons s streams ih =>
    have this := passed s List.mem_cons_self
    have rest := ih fun s mem => passed s (List.mem_cons_of_mem _ mem)
    have taken : (acceptBi .listening ⟨s.bytes, ending⟩).delivered .listening true =
        Sender.takenUp ending s := rfl
    rw [List.map_cons, acceptTask, if_neg this.notStalls]
    dsimp only [arrived, Option.getD_some]
    by_cases cut : CutInFirst s
    · rw [if_neg fun goes => this.goesOn.mp goes cut, taken, this.silent cut, List.map_map]
      simp [cut, Function.comp_def]
    · rw [if_pos (this.goesOn.mpr cut), taken]
      change _ :: acceptTask .listening (streams.map (arrived ending)) = _
      rw [rest]
      simp [cut]

end AcceptTask

namespace Sender

/-- The streams of a run go through the accept task as they should, or end it. -/
theorem passed_of_mem {calls : List SendCall} (sendable : ∀ call ∈ calls, call.Sendable)
    (ending : Ending) {s : Outbox.Stream UInt8}
    (opened : s ∈ (Transition.run step afterHello calls).slotB.streams ∨
      s ∈ (Transition.run step afterHello calls).slotC.streams) : Passed ending s := by
  have carrying := run_carrying sendable
  obtain onB | onC := opened
  · obtain ⟨messages, carries, -⟩ := carrying.each .streamB
    obtain ⟨part, carries⟩ := carries.stream onB
    exact passed_fixed carries ending
  · obtain ⟨messages, carries, -⟩ := carrying.each .streamC
    obtain ⟨part, carries⟩ := carries.stream onC
    exact passed_long carries ending

/-- What has the tag, in order. -/
def onChannel {α : Type} (channel : Channel) (tagged : List (Channel × α)) : List α :=
  tagged.filterMap fun t => if t.1 = channel then some t.2 else none

/-- The streams as they come in, whichever way those of the two channels alternate. -/
structure ComesIn (sender : Sender) (streams : List (Channel × Outbox.Stream UInt8)) : Prop where
  tagged : ∀ s ∈ streams, s.1 = .streamB ∨ s.1 = .streamC
  streamB : onChannel .streamB streams = sender.slotB.streams
  streamC : onChannel .streamC streams = sender.slotC.streams

/-- The events the listening side delivers from a channel once everything has arrived. The control
stream goes to the supervisor, the other streams go through the accept task. -/
def delivered (ending : Ending) (sender : Sender) (streams : List (Channel × Outbox.Stream UInt8)) :
    Channel → List ProtoEvent
  | .datagram => sender.datagrams.filterMap datagramEvent
  | .streamA =>
    sender.cachedSendA.toList.flatMap fun s => (supervisorStreamA [] ⟨s.bytes, ending⟩).1
  | channel => (onChannel channel ((streams.map (·.1)).zip
      (acceptTask .listening (streams.map fun s => arrived ending s.2)))).flatten

theorem ComesIn.mem {sender : Sender} {streams : List (Channel × Outbox.Stream UInt8)}
    (comes : sender.ComesIn streams) {s : Channel × Outbox.Stream UInt8} (mem : s ∈ streams) :
    s.2 ∈ sender.slotB.streams ∨ s.2 ∈ sender.slotC.streams := by
  rw [← comes.streamB, ← comes.streamC]
  refine (comes.tagged s mem).imp (fun tag => ?_) fun tag => ?_
  · exact List.mem_filterMap.mpr ⟨s, mem, if_pos tag⟩
  · exact List.mem_filterMap.mpr ⟨s, mem, if_pos tag⟩

end Sender

/-- The accept task of the listening side delivers what was sent on the streams up to the first
input stream that was cut behind its length and inside its first frame. That stream ends the task:
of what was sent on the streams a failed write made the sender open behind it, nothing is
delivered. -/
theorem accept_task_ends_with_cut (calls : List SendCall)
    (sendable : ∀ call ∈ calls, call.Sendable) (ending : Ending)
    (streams : List (Outbox.Stream UInt8))
    (opened : ∀ s ∈ streams,
      s ∈ (Transition.run Sender.step Sender.afterHello calls).slotB.streams ∨
      s ∈ (Transition.run Sender.step Sender.afterHello calls).slotC.streams) :
    acceptTask .listening (streams.map (arrived ending)) =
      (streams.takeWhile fun s => !decide (CutInFirst s)).map (Sender.takenUp ending) ++
        (streams.dropWhile fun s => !decide (CutInFirst s)).map fun _ => [] :=
  acceptTask_passed fun s mem => Sender.passed_of_mem sendable ending (opened s mem)

/-- The first press breaks off behind its length. The call of the second one returns `Ok`, and its
event is lost. -/
theorem accept_task_ends_with_cut_press :
    let key (code : UInt32) : ProtoEvent := .input (.keyboard (.key 0 code 1))
    let calls : List SendCall :=
      [⟨key 30, {}, { room := some 5, writeError := "stopped" }⟩, ⟨key 31, {}, {}⟩]
    let sender := Transition.run Sender.step Sender.afterHello calls
    (∀ call ∈ calls, call.Sendable) ∧
      Sender.accepted .streamB Sender.afterHello calls = [key 31] ∧
      acceptTask .listening (sender.slotB.streams.map (arrived .eof)) = [[], []] := by
  intro key calls sender
  have sendable : ∀ call ∈ calls, call.Sendable := by
    have onB : ∀ call ∈ calls, routeInput call.cfg call.event = .streamB := by decide +kernel
    exact fun call mem route => absurd ((onB call mem).symm.trans route) nofun
  refine ⟨sendable, by decide +kernel, ?_⟩
  rw [accept_task_ends_with_cut calls sendable .eof _ fun s mem => .inl mem]
  decide +kernel

end LanMouse.Transport
