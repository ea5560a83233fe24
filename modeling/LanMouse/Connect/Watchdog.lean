import LanMouse.Connect.Dialer

/-!
# The Pong watchdog

A session has a connection of its own and, beside `run`, a watchdog task that closes the connection
when no `Pong` was forwarded for a while. `run` then returns the reason for which the connection was
closed, and the supervisor decides by that reason whether it dials again.

Which reason a connection reports after a close is the transport's affair and a parameter here. What
the results need of it is that a connection that reports `LocallyClosed` goes on reporting it,
whatever code the close carried.
-/
namespace LanMouse.Connect

open Proto Client Transition

def pongHealthTimeout : Nat := 3500

/-- What belongs to a session besides its entry in the tables. `watching` until the watchdog has
returned or has been aborted. -/
structure Link where
  closeReason : Option ConnectionError := none
  lastPongAt : Nat
  watching : Bool := true
  deriving DecidableEq, Repr

/-- A connection is closed on this side, or lost to the peer or the network. -/
inductive Closing where
  | locally
  | lost (reason : ConnectionError)
  deriving DecidableEq, Repr

/-- The reason that the transport reports after a closing, by what it reported before. -/
abbrev CloseRule := Option ConnectionError → Closing → ConnectionError

/-- A connection that is closed on this side remains so. -/
def CloseRule.Settles (rule : CloseRule) : Prop :=
  ∀ c, rule (some .locallyClosed) c = .locallyClosed

def Link.close (rule : CloseRule) (l : Link) (c : Closing) : Link :=
  { l with closeReason := some (rule l.closeReason c) }

/-- How `run` returns: by leaving its loop, or with an error of its own before or in it. -/
inductive Leaving where
  | loop
  | error
  deriving DecidableEq, Repr

/-- What `run` returns. A loop left while the connection is open counts as closed on this side. -/
def Link.result (l : Link) : Leaving → RunResult
  | .loop => .handshake (l.closeReason.getD .locallyClosed)
  | .error => .other

/-- The dialing side with the links of its sessions; `peerLost` is what the capture was told. -/
structure Supervised where
  dialer : State := {}
  links : List Link := []
  peerLost : List ClientHandle := []

/-- `closes` is a close by the peer, by the transport or by another task of this side, and `tick` a
tick of the watchdog's interval. -/
inductive SupervisedEvent where
  | dialer (e : Event)
  | closes (i : Nat) (c : Closing)
  | tick (i : Nat)
  | returns (i : Nat) (leaving : Leaving)

namespace Supervised

/-- The forwarder of session `i` is about to pass on a `Pong`. -/
def forwardsPong (s : Supervised) (i : Nat) : Bool :=
  match s.dialer.sessions[i]? with
  | some p => match p.outgoing with
    | .pong _ :: _ => true
    | _ => false
  | none => false

/-- The links after a step of the dialer: a forwarded `Pong` is noted, and a session that was
registered gets a link with the time of its start. -/
def linksAfter (s : Supervised) (e : Event) : List Link :=
  let links := match e with
    | .forward i =>
      if s.forwardsPong i then
        s.links.modify i fun l => { l with lastPongAt := s.dialer.clock }
      else s.links
    | _ => s.links
  links ++ List.replicate ((s.dialer.step e).sessions.length - s.dialer.sessions.length)
    { lastPongAt := s.dialer.clock }

/-- The watchdog of session `i` is there, and its next tick finds the last `Pong` too old. -/
def declaresDead (s : Supervised) (i : Nat) : Bool :=
  s.links[i]?.any fun l => l.watching && pongHealthTimeout < s.dialer.clock - l.lastPongAt

/-- One tick of `pong_health_watchdog`. -/
def tick (rule : CloseRule) (s : Supervised) (i : Nat) : Supervised :=
  if s.declaresDead i then
    { s with
      links := s.links.modify i fun l => { l.close rule .locally with watching := false }
      peerLost := s.peerLost ++ (s.dialer.sessions[i]?.map (·.handle)).toList }
  else s

/-- `run` returns, and the supervisor aborts the watchdog before anything else. -/
def returns (s : Supervised) (i : Nat) (leaving : Leaving) : Supervised :=
  match s.links[i]? with
  | none => s
  | some l =>
    { s with
      dialer := s.dialer.runEnds i (l.result leaving)
      links := s.links.modify i fun l => { l with watching := false } }

/-- The dialer's own event for the end of `run` is left to `returns`. -/
def dialerStep (s : Supervised) : Event → Supervised
  | .runEnds _ _ => s
  | e => { s with dialer := s.dialer.step e, links := s.linksAfter e }

def step (rule : CloseRule) (s : Supervised) : SupervisedEvent → Supervised
  | .dialer e => s.dialerStep e
  | .closes i c => { s with links := s.links.modify i (·.close rule c) }
  | .tick i => s.tick rule i
  | .returns i leaving => s.returns i leaving

/-- A retry failure is recorded for the handle and a redial spawned. -/
def Redials (h : ClientHandle) (s t : Supervised) : Prop :=
  t.dialer.retryState = (s.dialer.recordRetryFailure h).retryState ∧
    t.dialer.dials = s.dialer.dials ++ [{ handle := h, redial := true }]

def closeReason (s : Supervised) (i : Nat) : Option ConnectionError :=
  s.links[i]?.bind (·.closeReason)

/-! ### The reason of a closed connection -/

section Reason

variable {rule : CloseRule} {s : Supervised} {i : Nat}

theorem closeReason_modify {f : Link → Link} {reason : ConnectionError} (j : Nat)
    (keeps : ∀ l, l.closeReason = some reason → (f l).closeReason = some reason)
    (closed : s.closeReason i = some reason) :
    (s.links.modify j f)[i]?.bind (·.closeReason) = some reason := by
  obtain ⟨l, found, own⟩ := Option.bind_eq_some_iff.mp closed
  simp only [List.getElem?_modify, found, Option.map_eq_map, Option.map_some, Option.bind_some]
  split_ifs
  · exact keeps l own
  · exact own

theorem closeReason_close (settles : rule.Settles) {l : Link}
    (closed : l.closeReason = some .locallyClosed) (c : Closing) :
    (l.close rule c).closeReason = some .locallyClosed := by
  rw [Link.close, closed, settles]

theorem closeReason_linksAfter {reason : ConnectionError} (closed : s.closeReason i = some reason)
    (e : Event) : (s.linksAfter e)[i]?.bind (·.closeReason) = some reason := by
  have kept (links new : List Link) (before : links[i]?.bind (·.closeReason) = some reason) :
      (links ++ new)[i]?.bind (·.closeReason) = some reason := by
    obtain ⟨l, found, own⟩ := Option.bind_eq_some_iff.mp before
    rw [List.getElem?_append_left (List.getElem?_eq_some_iff.mp found).1, found]
    exact own
  refine kept _ _ ?_
  split
  · split_ifs
    · exact closeReason_modify _ (fun _ own => own) closed
    · exact closed
  · exact closed

/-- A session whose connection was closed on this side stays one, whatever happens next. -/
theorem closeReason_step (settles : rule.Settles) (closed : s.closeReason i = some .locallyClosed)
    (e : SupervisedEvent) : (s.step rule e).closeReason i = some .locallyClosed := by
  cases e with
  | dialer e =>
    rw [step]
    unfold dialerStep
    split
    · exact closed
    · exact closeReason_linksAfter closed _
  | closes j c => exact closeReason_modify j (fun _ own => closeReason_close settles own c) closed
  | tick j =>
    rw [step, tick]
    split_ifs
    · exact closeReason_modify j (fun _ own => closeReason_close settles own .locally) closed
    · exact closed
  | returns j leaving =>
    rw [step, returns]
    split
    · exact closed
    · exact closeReason_modify j (fun _ own => own) closed

theorem closeReason_tick (dead : s.declaresDead i = true) :
    (s.step rule (.tick i)).closeReason i = some (rule (s.closeReason i) .locally) := by
  rw [step, tick, if_pos dead]
  cases found : s.links[i]? with
  | none => simp [declaresDead, found] at dead
  | some l => simp [closeReason, found, Link.close]

/-- However `run` returns over a connection closed on this side, its result is no reason to dial
again. -/
theorem result_retries {l : Link} (closed : l.closeReason = some .locallyClosed)
    (leaving : Leaving) : (l.result leaving).retries = false := by
  cases leaving <;> simp [Link.result, RunResult.retries, closed, shouldRetryAfterClose]

theorem runEnds_dials {d : State} {result : RunResult} (final : result.retries = false) :
    (d.runEnds i result).dials = d.dials := by
  unfold State.runEnds
  split
  · rfl
  · simp only [final, Bool.false_eq_true, if_false]
    split_ifs <;> rfl

end Reason

end Supervised

open Supervised

/-- When the watchdog has declared the peer of a session dead and its close has left the connection
closed on this side, the supervisor of the session never dials again, whatever happened before,
whatever happens until `run` returns and however `run` does: `LocallyClosed` is no reason to. -/
theorem dead_peer_never_redialed (rule : CloseRule) (settles : rule.Settles)
    (before between : List SupervisedEvent) (i : Nat) (leaving : Leaving) (p : Session)
    (dead : (run (step rule) {} before).declaresDead i = true)
    (reports : rule ((run (step rule) {} before).closeReason i) .locally = .locallyClosed) :
    let t := run (step rule) ((run (step rule) {} before).step rule (.tick i)) between
    t.dialer.sessions[i]? = some p → p.running = true →
      (t.step rule (.returns i leaving)).dialer.dials = t.dialer.dials ∧
        ¬ Redials p.handle t (t.step rule (.returns i leaving)) := by
  intro t mine running
  have closed : t.closeReason i = some .locallyClosed :=
    inv_run_of_step (fun s : Supervised => s.closeReason i = some .locallyClosed)
      (fun _ e closed => closeReason_step settles closed e)
      ((closeReason_tick dead).trans (congrArg some reports)) between
  obtain ⟨l, found, reason⟩ := Option.bind_eq_some_iff.mp closed
  have dials : (t.step rule (.returns i leaving)).dialer.dials = t.dialer.dials := by
    simp only [step, returns, found]
    exact runEnds_dials (result_retries reason leaving)
  refine ⟨dials, fun redials => ?_⟩
  have length := congrArg List.length (dials.symm.trans redials.2)
  simp at length

/-- A close on this side is reported anew, another one only on an open connection. -/
def reportsLocal : CloseRule
  | _, .locally => .locallyClosed
  | found, .lost reason => found.getD reason

theorem reportsLocal_locally (found : Option ConnectionError) :
    reportsLocal found .locally = .locallyClosed := rfl

theorem reportsLocal_settles : reportsLocal.Settles := by
  rintro (_ | reason) <;> rfl

/-- Before the watchdog ticks, the connection has timed out. -/
theorem dead_peer_never_redialed_timed_out :
    let client : ConfigClient := { ips := [.v4 #v[192, 168, 0, 2]], active := true }
    let dialed : List Event := [.change (.addWithConfig client), .dial 0, .task 0 none,
      .task 0 (some 0), .task 0 (some 0), .time 4000]
    let events := dialed.map .dialer ++ [.closes 0 (.lost .timedOut)]
    let t := run (step reportsLocal) ((run (step reportsLocal) {} events).step reportsLocal
      (.tick 0)) []
    (run (step reportsLocal) {} events).declaresDead 0 = true ∧
      ¬ Redials 0 t (t.step reportsLocal (.returns 0 .loop)) := by
  intro client dialed events t
  have dead : (run (step reportsLocal) {} events).declaresDead 0 = true := by decide +kernel
  let p : Session :=
    { handle := 0, remote := ⟨.v4 #v[192, 168, 0, 2], defaultPort⟩, dialedFor := some 1,
      registeredFor := some 1 }
  have never := dead_peer_never_redialed reportsLocal reportsLocal_settles events [] 0 .loop p dead
    (reportsLocal_locally _)
  exact ⟨dead, (never (by decide +kernel) rfl).2⟩

/-- A session is dialed, no `Pong` comes for four seconds, the watchdog closes the connection and
`run` returns: the capture is told, but no failure is recorded and nothing is dialed. -/
theorem dead_peer_not_redialed :
    let client : ConfigClient := { ips := [.v4 #v[192, 168, 0, 2]], active := true }
    let dialed : List Event := [.change (.addWithConfig client), .dial 0, .task 0 none,
      .task 0 (some 0), .task 0 (some 0), .time 4000]
    let s := run (step reportsLocal) {} (dialed.map .dialer)
    let t := s.step reportsLocal (.tick 0)
    let u := t.step reportsLocal (.returns 0 .loop)
    s.declaresDead 0 = true ∧ t.peerLost = [0] ∧ t.closeReason 0 = some .locallyClosed ∧
      u.dialer.sessions.map (·.running) = [false] ∧ u.dialer.retryState.lookup 0 = none ∧
      u.dialer.dials.length = 1 ∧ ¬ Redials 0 t u := by
  intro client dialed s t u
  have ended : s.declaresDead 0 = true ∧ t.peerLost = [0] ∧
      t.closeReason 0 = some .locallyClosed ∧ u.dialer.sessions.map (·.running) = [false] ∧
      u.dialer.retryState.lookup 0 = none ∧ u.dialer.dials.length = 1 ∧
      t.dialer.dials.length = 1 := by decide +kernel
  obtain ⟨dead, lost, closed, returned, schedule, dials, before⟩ := ended
  refine ⟨dead, lost, closed, returned, schedule, dials, fun redials => ?_⟩
  have length := congrArg List.length redials.2
  simp [dials, before] at length

end LanMouse.Connect
