import LanMouse.Connect.Dialer
import LanMouse.Lib.Backoff

/-!
# The schedule of dials

A failed dial, a failed greeting and a session that ended with a reason to retry each put off the
next attempt for their handle; a session that is registered clears what was put off. `dial` and
`send` look at the schedule before they spawn a dial.

`outcome?` says which steps are such failures and successes, and of which handle. Along a run they
are the history from which `Backoff.streak` counts.
-/
namespace LanMouse.Connect

open Client Transition Backoff

namespace State

/-- The handle a step fails or succeeds for. -/
def outcome? (s : State) : Event → Option (ClientHandle × Bool)
  | .task k answer =>
    match s.dials[k]? with
    | none => none
    | some d =>
      match d.phase with
      | .dialing _ addrs =>
        match answer.bind (addrs[·]?) with
        | none => some (d.handle, false)
        | some _ => none
      | .greeting _ _ => some (d.handle, answer.isSome)
      | _ => none
  | .runEnds i result =>
    match s.sessions[i]? with
    | none => none
    | some p => if p.running && result.retries then some (p.handle, false) else none
  | _ => none

/-- The schedule after an outcome. -/
def reschedule (s : State) : Option (ClientHandle × Bool) →
    AList (fun _ : ClientHandle => RetryState)
  | none => s.retryState
  | some (h, false) => (s.recordRetryFailure h).retryState
  | some (h, true) => s.retryState.erase h

theorem retryState_task (s : State) (k : Nat) (answer : Option Nat) :
    (s.task k answer).retryState = s.reschedule (s.outcome? (.task k answer)) := by
  cases mine : s.dials[k]? with
  | none => simp only [task, outcome?, mine, reschedule]
  | some d =>
    cases phase : d.phase with
    | spawned =>
      simp only [task, outcome?, mine, phase, reschedule]
      split
      · rfl
      · split_ifs <;> rfl
    | dialing client addrs =>
      cases found : answer.bind (addrs[·]?) with
      | none => simp only [task, outcome?, mine, phase, found]; rfl
      | some remote => simp only [task, outcome?, mine, phase, found]; rfl
    | greeting client remote =>
      cases answer with
      | none => simp only [task, outcome?, mine, phase]; rfl
      | some n => simp only [task, outcome?, mine, phase]; rfl
    | ended => simp only [task, outcome?, mine, phase, reschedule]

theorem retryState_runEnds (s : State) (i : Nat) (result : RunResult) :
    (s.runEnds i result).retryState = s.reschedule (s.outcome? (.runEnds i result)) := by
  cases mine : s.sessions[i]? with
  | none => simp only [runEnds, outcome?, mine, reschedule]
  | some p =>
    simp only [runEnds, outcome?, mine]
    cases p.running with
    | false => rfl
    | true => cases result.retries <;> rfl

/-- Steps that leave the schedule and the time as they are. -/
def Keeps (s t : State) : Prop := t.retryState = s.retryState ∧ t.clock = s.clock

theorem keeps_dial (s : State) (h : ClientHandle) : s.Keeps (s.dial h) := by
  obtain ⟨dials, connecting, same⟩ := s.dial_eq h
  rw [same]
  exact ⟨rfl, rfl⟩

theorem keeps_send (s : State) (h : ClientHandle) : s.Keeps (s.send h) := by
  obtain ⟨addr, i, -, same⟩ | ⟨-, same⟩ := s.send_cases h
  · rw [same]
    exact ⟨rfl, rfl⟩
  · rw [same]
    exact s.keeps_dial h

theorem keeps_sent (s : State) (n : Nat) (ok : Bool) : s.Keeps (s.sent n ok) := by
  obtain same | ⟨x, found, waits⟩ := s.sent_cases n ok
  · rw [same]
    exact ⟨rfl, rfl⟩
  · cases ok with
    | true =>
      rw [sent_ok found waits]
      exact ⟨rfl, rfl⟩
    | false =>
      rw [sent_failed found waits]
      exact ⟨rfl, rfl⟩

theorem keeps_forward (s : State) (i : Nat) : s.Keeps (s.forward i) := by
  obtain same | ⟨p, event, rest, mine, queue⟩ := s.forward_cases i
  · rw [same]
    exact ⟨rfl, rfl⟩
  · rw [forward_of_queued mine queue]
    exact ⟨rfl, rfl⟩

/-- The schedule changes with the outcomes and with nothing else. -/
theorem retryState_step (s : State) (e : Event) :
    (s.step e).retryState = s.reschedule (s.outcome? e) := by
  cases e with
  | change c => cases c <;> rfl
  | time ms => rfl
  | dial h => exact (s.keeps_dial h).1
  | task k answer => exact s.retryState_task k answer
  | send h => exact (s.keeps_send h).1
  | sent n ok => exact (s.keeps_sent n ok).1
  | runEnds i result => exact s.retryState_runEnds i result
  | read i event => rfl
  | forward i => exact (s.keeps_forward i).1

theorem clock_step (s : State) (e : Event) : s.clock ≤ (s.step e).clock := by
  cases e with
  | change c => cases c <;> exact Nat.le_refl _
  | time ms => exact Nat.le_add_right _ _
  | dial h => exact (s.keeps_dial h).2.ge
  | task k answer =>
    obtain ⟨dials, connecting, retryState, same⟩ | ⟨d, client, remote, mine, phase, greeted⟩ :=
      s.task_cases k answer
    · rw [step, same]
    · rw [step, task_of_greeting mine phase greeted]
      exact Nat.le_refl _
  | send h => exact (s.keeps_send h).2.ge
  | sent n ok => exact (s.keeps_sent n ok).2.ge
  | runEnds i result =>
    obtain same | ⟨p, mine, running⟩ := s.runEnds_cases i result
    · rw [step, same]
    · obtain ⟨dials, retryState, same⟩ := runEnds_of_running mine running result
      rw [step, same]
      exact Nat.le_refl _
  | read i event => exact Nat.le_refl _
  | forward i => exact (s.keeps_forward i).2.ge

/-! ### The delay after a failure -/

/-- The backoff that the next failure of a handle waits for. -/
def backoff (s : State) (h : ClientHandle) : Nat :=
  ((s.retryState.lookup h).map (·.backoff)).getD initialRetryBackoff

theorem lookup_recordRetryFailure (s : State) (h : ClientHandle) : ∃ entry,
    (s.recordRetryFailure h).retryState.lookup h = some entry ∧
      entry.nextAttemptAt = s.clock + s.backoff h ∧
      entry.backoff = min (s.backoff h * 2) maxRetryBackoff := by
  refine ⟨_, AList.lookup_insert _, ?_, ?_⟩
  · cases found : s.retryState.lookup h <;> simp [backoff, found]
  · cases found : s.retryState.lookup h <;> simp [backoff, found]

theorem lookup_recordRetryFailure_ne (s : State) {h j : ClientHandle} (other : j ≠ h) :
    (s.recordRetryFailure h).retryState.lookup j = s.retryState.lookup j :=
  AList.lookup_insert_ne other

def outcomes : State → List Event → List (ClientHandle × Bool) := collect step outcome?

theorem backoff_step {s : State} {e : Event} {h : ClientHandle}
    {history : List (ClientHandle × Bool)}
    (before : s.backoff h = delay initialRetryBackoff maxRetryBackoff (streak h history)) :
    (s.step e).backoff h =
      delay initialRetryBackoff maxRetryBackoff (streak h (history ++ (s.outcome? e).toList)) := by
  have schedule := s.retryState_step e
  cases outcome : s.outcome? e with
  | none =>
    rw [outcome] at schedule
    simpa [backoff, schedule, reschedule] using before
  | some result =>
    obtain ⟨j, ok⟩ := result
    rw [outcome] at schedule
    rw [Option.toList_some]
    by_cases own : j = h
    · subst own
      cases ok with
      | false =>
        obtain ⟨entry, found, -, doubled⟩ := s.lookup_recordRetryFailure j
        rw [streak_append_failure, ← min_delay_mul_two, ← before, ← doubled, backoff, schedule,
          reschedule, found]
        rfl
      | true =>
        rw [streak_append_success, delay_zero (by decide), backoff, schedule, reschedule,
          AList.lookup_erase]
        rfl
    · rw [streak_append_other own, ← before, backoff, schedule]
      cases ok with
      | false => rw [reschedule, s.lookup_recordRetryFailure_ne (Ne.symm own), backoff]
      | true => rw [reschedule, AList.lookup_erase_ne (Ne.symm own), backoff]

/-- The backoff of a handle is set by the failures since its last success. -/
theorem backoff_run (events : List Event) (h : ClientHandle) :
    (run step {} events).backoff h =
      delay initialRetryBackoff maxRetryBackoff (streak h (outcomes {} events)) := by
  induction events using List.reverseRecOn with
  | nil =>
    have small : initialRetryBackoff ≤ maxRetryBackoff := by decide
    exact (delay_zero small).symm
  | append_singleton events e ih =>
    rw [run_snoc, outcomes, collect_snoc]
    exact backoff_step ih

/-! ### The gate -/

/-- Until `next` the handle is held back, and so it will be after one more failure. -/
structure HeldBack (h : ClientHandle) (since wait : Nat) (s : State) : Prop where
  later : since ≤ s.clock
  entry : ∃ entry, s.retryState.lookup h = some entry ∧
    since + wait ≤ entry.nextAttemptAt ∧ wait ≤ entry.backoff

theorem HeldBack.step {s : State} {h : ClientHandle} {since wait : Nat}
    (small : wait ≤ maxRetryBackoff) (held : HeldBack h since wait s) {e : Event}
    (fails : s.outcome? e ≠ some (h, true)) : HeldBack h since wait (s.step e) := by
  obtain ⟨later, entry, found, next, backs⟩ := held
  have schedule := s.retryState_step e
  refine ⟨later.trans (s.clock_step e), ?_⟩
  rw [schedule]
  cases outcome : s.outcome? e with
  | none => exact ⟨entry, found, next, backs⟩
  | some result =>
    obtain ⟨j, ok⟩ := result
    by_cases own : j = h
    · subst own
      cases ok with
      | true => exact absurd outcome fails
      | false =>
        obtain ⟨new, stored, nextAttempt, doubled⟩ := s.lookup_recordRetryFailure j
        have backoff : s.backoff j = entry.backoff := by simp [State.backoff, found]
        refine ⟨new, stored, ?_, ?_⟩ <;> omega
    · cases ok with
      | false => exact ⟨entry, by rwa [reschedule, s.lookup_recordRetryFailure_ne (Ne.symm own)],
          next, backs⟩
      | true => exact ⟨entry, by rwa [reschedule, AList.lookup_erase_ne (Ne.symm own)], next, backs⟩

theorem HeldBack.gated {s : State} {h : ClientHandle} {since wait : Nat}
    (held : HeldBack h since wait s) (early : s.clock < since + wait) : s.gated h = true := by
  obtain ⟨-, entry, found, next, -⟩ := held
  simp [State.gated, found]
  omega

theorem dials_of_gated {s : State} {h : ClientHandle} (gated : s.gated h = true) :
    (s.step (.dial h)).dials = s.dials ∧ (s.step (.send h)).dials = s.dials := by
  have dial : s.dial h = s := if_pos gated
  refine ⟨by rw [step, dial], ?_⟩
  obtain ⟨addr, i, -, same⟩ | ⟨-, same⟩ := s.send_cases h
  · rw [step, same]
  · rw [step, same, dial]

end State

open State

/-- The `n`-th failure of a handle in a row puts off its next attempt by 500 ms doubled `n - 1`
times, but at most by 4 s, and puts off nothing else. Until then, unless the handle succeeds in
between, neither `dial` nor `send` spawns a dial for it. -/
theorem failures_put_off_dials (events : List Event) (e : Event) (h : ClientHandle)
    (fails : (run step {} events).outcome? e = some (h, false)) :
    let s := run step {} events
    let n := streak h (outcomes {} (events ++ [e]))
    let next := s.clock + min (500 * 2 ^ (n - 1)) 4000
    ((s.step e).retryState.lookup h).map (·.nextAttemptAt) = some next ∧
    (∀ j, j ≠ h → (s.step e).retryState.lookup j = s.retryState.lookup j) ∧
    ∀ later, (h, true) ∉ outcomes (s.step e) later →
      let t := run step (s.step e) later
      t.clock < next →
        (t.step (.dial h)).dials = t.dials ∧ (t.step (.send h)).dials = t.dials := by
  intro s n next
  have schedule := s.retryState_step e
  rw [fails, reschedule] at schedule
  have count : n = streak h (outcomes {} events) + 1 := by
    simp only [n]
    rw [outcomes, collect_snoc, fails]
    exact streak_append_failure h _
  have wait : s.backoff h = min (500 * 2 ^ (n - 1)) 4000 := by
    rw [count, Nat.add_sub_cancel]
    exact backoff_run events h
  obtain ⟨entry, found, nextAttempt, doubled⟩ := s.lookup_recordRetryFailure h
  refine ⟨?_, fun j other => ?_, ?_⟩
  · rw [schedule, found, Option.map_some, nextAttempt, wait]
  · rw [schedule, s.lookup_recordRetryFailure_ne other]
  · intro later fails t early
    have small : s.backoff h ≤ maxRetryBackoff := wait ▸ min_le_right _ _
    have held : HeldBack h s.clock (s.backoff h) (s.step e) := by
      refine ⟨s.clock_step e, entry, by rw [schedule, found], nextAttempt.ge, ?_⟩
      omega
    have held : HeldBack h s.clock (s.backoff h) t :=
      inv_run _ (fun _ _ held fails => held.step small fails) held
        (allMeet_of_not_mem_collect fails)
    exact dials_of_gated (held.gated (by rwa [wait]))

/-- A client cannot be reached, and not a second later either: the attempt after that waits for
another second, and one at 1999 ms is not made. -/
theorem failures_put_off_dials_twice :
    let client : ConfigClient := { ips := [.v4 #v[192, 168, 0, 2]], active := true }
    let events : List Event := [.change (.addWithConfig client), .dial 0, .task 0 none,
      .task 0 none, .time 1000, .dial 0, .task 1 none]
    let s := run State.step {} events
    let t := run State.step (s.step (.task 1 none)) [.time 999]
    s.outcome? (.task 1 none) = some (0, false) ∧
      ((s.step (.task 1 none)).retryState.lookup 0).map (·.nextAttemptAt) = some 2000 ∧
      t.clock = 1999 ∧ (t.step (.dial 0)).dials = t.dials ∧ (t.step (.send 0)).dials = t.dials := by
  intro client events s t
  have fails : s.outcome? (.task 1 none) = some (0, false) := by decide +kernel
  have twice : streak 0 (State.outcomes {} (events ++ [.task 1 none])) = 2 := by decide +kernel
  have late : s.clock = 1000 ∧ t.clock = 1999 := by decide +kernel
  obtain ⟨next, -, held⟩ := failures_put_off_dials events (.task 1 none) 0 fails
  rw [twice, late.1] at next held
  exact ⟨fails, next, late.2, held [.time 999] (by decide +kernel) (by decide +kernel)⟩

end LanMouse.Connect
