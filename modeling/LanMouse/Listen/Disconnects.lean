import LanMouse.Listen.Authorized

/-!
# One `Disconnected` for each connection

A supervisor says that its connection is gone only when the control stream ends inside a frame; on
every other error it exits without a word. The watchdog says it for every address it finds silent,
and any message that is still queued makes it watch the address again. So a `Disconnected` can be
missing, and it can come twice.

Each connection gets exactly one `Disconnected` by the time its supervisor has exited if the ways
it can come about exclude one another: the control stream ends inside a frame and the watchdog has
not found the connection silent, or there is another error and the watchdog has.
-/
namespace LanMouse.Listen

open Bytes Proto Client Transport Transition

namespace State

variable {sha256 : List UInt8 → Hash} {s s' : State} {e : Event} {i : Nat}

def disconnectedReports (s : State) (conn : Nat) : Nat :=
  s.reports.countP (·.isDisconnected conn)

/-- The `Disconnected` events for a connection, with those still queued. -/
def disconnects (s : State) (conn : Nat) : Nat :=
  s.disconnectedReports conn + s.queue.countP (·.isDisconnected conn)

def exited (s : State) (conn : Nat) : Bool := s.conns[conn]?.any (·.phase = .exited)

/-- Once nothing is queued, every connection that was announced and whose supervisor has exited has
its one `Disconnected`. -/
def Settled (s : State) : Prop :=
  s.queue = [] → ∀ i, s.exited i = true → s.disconnectedReports i = 1

/-- A supervisor exits on a truncated frame only if the watchdog has not found its connection silent
before, and on any other error only if it has; and the watchdog finds only connections silent whose
supervisors run and that it has not found silent before. -/
def Watched (s : State) : Event → Prop
  | .control i read => (s.conns[i]?.any fun c => c.phase = .accepted) →
    (loopExit read = some .announced → i ∉ s.silenced) ∧
    (loopExit read = some .silent → i ∈ s.silenced)
  | .tick => ∀ addr ∈ s.stale, ∀ heard ∈ s.lastResponse.lookup addr,
    heard.conn ∉ s.silenced ∧ s.exited heard.conn = false
  | _ => True

instance (s : State) : ∀ e, Decidable (s.Watched e)
  | .control _ _ => inferInstanceAs (Decidable (_ → _ ∧ _))
  | .tick => inferInstanceAs (Decidable (∀ addr ∈ s.stale, ∀ heard ∈ s.lastResponse.lookup addr, _))
  | .addAuthorizedKey .. | .removeAuthorizedKey .. | .configChange .. | .emulation .. | .time ..
  | .handshake .. | .hello .. | .reader .. | .deliver => isTrue trivial

/-- A connection has one `Disconnected` when its supervisor has exited, and until then one for each
time the watchdog has found it silent, which is once at most. -/
structure Accounted (s : State) : Prop where
  disconnects : ∀ i, s.disconnects i = if s.exited i then 1 else s.silenced.count i
  once : s.silenced.Nodup

theorem Accounted.settled (accounted : s.Accounted) : s.Settled := by
  intro empty i gone
  have counted := accounted.disconnects i
  simpa [State.disconnects, empty, gone] using counted

/-! ### What a step does to the account -/

theorem Accounted.congr (accounted : s.Accounted) (same : ∀ i, s'.disconnects i = s.disconnects i)
    (exited : ∀ i, s'.exited i = s.exited i) (silenced : s'.silenced = s.silenced) :
    s'.Accounted where
  disconnects i := by rw [same, exited, silenced, accounted.disconnects]
  once := silenced ▸ accounted.once

theorem disconnects_send (s : State) (e : ListenEvent) (i : Nat) :
    (s.send e).disconnects i = s.disconnects i + if e.isDisconnected i then 1 else 0 := by
  simp only [disconnects, disconnectedReports, send, List.countP_append, List.countP_singleton,
    Nat.add_assoc]

theorem Accounted.send (accounted : s.Accounted) {e : ListenEvent}
    (other : ∀ i, e.isDisconnected i = false) : (s.send e).Accounted :=
  accounted.congr (fun i => by simp [disconnects_send, other i]) (fun _ => rfl) rfl

theorem exited_setPhase {c : Conn} (found : s.conns[i]? = some c) (phase : Phase) (j : Nat) :
    (s.setPhase i c phase).exited j = if i = j then decide (phase = .exited) else s.exited j := by
  obtain ⟨inside, -⟩ := List.getElem?_eq_some_iff.mp found
  simp only [exited, setPhase, List.getElem?_set]
  split_ifs <;> simp

/-- A supervisor that has not exited before. -/
theorem exited_eq_false {c : Conn} (found : s.conns[i]? = some c) (before : c.phase ≠ .exited) :
    s.exited i = false := by
  simp [exited, found, before]

theorem Accounted.setPhase (accounted : s.Accounted) {c : Conn} (found : s.conns[i]? = some c)
    (before : c.phase ≠ .exited) {phase : Phase} (after : phase ≠ .exited) :
    (s.setPhase i c phase).Accounted := by
  refine accounted.congr (fun _ => rfl) (fun j => ?_) rfl
  rw [exited_setPhase found]
  split_ifs with same
  · rw [← same, exited_eq_false found before]
    simp [after]
  · rfl

theorem Accounted.announce (accounted : s.Accounted) {c : Conn} (found : s.conns[i]? = some c)
    (runs : c.phase = .accepted) (unheard : i ∉ s.silenced) :
    ((s.setPhase i c .exited).send (.disconnected i c.addr)).Accounted := by
  have gone := exited_eq_false found (by simp [runs])
  refine ⟨fun j => ?_, accounted.once⟩
  have sent := disconnects_send (s.setPhase i c .exited) (.disconnected i c.addr) j
  have exited : ((s.setPhase i c .exited).send (.disconnected i c.addr)).exited j =
      (s.setPhase i c .exited).exited j := rfl
  have same : (s.setPhase i c .exited).disconnects j = s.disconnects j := rfl
  have silenced : ((s.setPhase i c .exited).send (.disconnected i c.addr)).silenced =
      s.silenced := rfl
  rw [sent, exited, exited_setPhase found, silenced, same, accounted.disconnects]
  by_cases own : i = j
  · subst own
    simp [gone, ListenEvent.isDisconnected, List.count_eq_zero_of_not_mem unheard]
  · simp [ListenEvent.isDisconnected, own]

theorem Accounted.exit (accounted : s.Accounted) {c : Conn} (found : s.conns[i]? = some c)
    (runs : c.phase = .accepted) (silenced : i ∈ s.silenced) :
    (s.setPhase i c .exited).Accounted := by
  have gone := exited_eq_false found (by simp [runs])
  refine ⟨fun j => ?_, accounted.once⟩
  have same : (s.setPhase i c .exited).disconnects j = s.disconnects j := rfl
  rw [same, exited_setPhase found, accounted.disconnects]
  by_cases own : i = j
  · subst own
    simp [gone, List.count_eq_one_of_mem accounted.once silenced]
  · rw [if_neg own]
    rfl

theorem Accounted.deliver (accounted : s.Accounted) {head : ListenEvent} {rest : List ListenEvent}
    (queue : s.queue = head :: rest) : ({ s with queue := rest }.handle head).Accounted := by
  have done := handled { s with queue := rest } head
  refine accounted.congr (fun i => ?_) (fun i => ?_) done.silenced
  · simp only [State.disconnects, disconnectedReports, done.disconnected, done.queue, queue,
      List.countP_cons]
    omega
  · simp only [exited, done.conns]

/-- The watchdog finds a connection silent whose supervisor runs. -/
theorem Accounted.expire (accounted : s.Accounted) {addr : SocketAddr}
    (watched : ∀ heard ∈ s.lastResponse.lookup addr,
      heard.conn ∉ s.silenced ∧ s.exited heard.conn = false) : (s.expire addr).Accounted := by
  cases found : s.lastResponse.lookup addr with
  | none =>
    simp only [State.expire, found]
    exact accounted
  | some heard =>
    obtain ⟨new, runs⟩ := watched heard found
    simp only [State.expire, found]
    refine ⟨fun i => ?_, List.nodup_append.mpr ⟨accounted.once, List.nodup_singleton _, ?_⟩⟩
    · have counted := accounted.disconnects i
      simp only [State.disconnects, disconnectedReports, report, exited, List.countP_append,
        List.countP_singleton, EmulationEvent.isDisconnected, List.count_append,
        List.count_singleton, decide_eq_true_eq, beq_iff_eq] at counted runs ⊢
      by_cases own : heard.conn = i
      · subst own
        simp only [runs, Bool.false_eq_true, if_false, if_true] at counted ⊢
        omega
      · simp only [own, if_false, Nat.add_zero]
        exact counted
    · rintro a mem b last rfl
      exact new (List.mem_singleton.mp last ▸ mem)

/-- The watchdog goes through the stale addresses, one after another. -/
theorem Accounted.foldl_expire (accounted : s.Accounted) (sourced : s.Sourced)
    {addrs : List SocketAddr} (nodup : addrs.Nodup)
    (watched : ∀ addr ∈ addrs, ∀ heard ∈ s.lastResponse.lookup addr,
      heard.conn ∉ s.silenced ∧ s.exited heard.conn = false) :
    (addrs.foldl State.expire s).Accounted := by
  induction addrs generalizing s with
  | nil => exact accounted
  | cons addr addrs ih =>
    rw [List.nodup_cons] at nodup
    refine ih (accounted.expire (watched addr List.mem_cons_self)) (sourced.expire addr) nodup.2 ?_
    intro other mem heard' found'
    have apart : other ≠ addr := by
      rintro rfl
      exact nodup.1 mem
    cases found : s.lastResponse.lookup addr with
    | none =>
      simp only [State.expire, found] at found' ⊢
      exact watched other (List.mem_cons_of_mem _ mem) heard' found'
    | some heard =>
      simp only [State.expire, found, report, AList.lookup_erase_ne apart] at found' ⊢
      obtain ⟨new, runs⟩ := watched other (List.mem_cons_of_mem _ mem) heard' found'
      refine ⟨?_, runs⟩
      rw [List.mem_append, List.mem_singleton, not_or]
      refine ⟨new, fun same => apart ?_⟩
      -- A connection has one address.
      obtain ⟨c, at_, here⟩ := sourced.heard addr heard found
      obtain ⟨c', at', here'⟩ := sourced.heard other heard' found'
      rw [same, at_, Option.some_inj] at at'
      rw [← here, ← here', at']

theorem Accounted.step (accounted : s.Accounted) (sourced : s.Sourced) (watched : s.Watched e)
    (step : Step sha256 s e s') : s'.Accounted := by
  cases step with
  | idle => exact accounted
  | addKey | removeKey | reload | emulation | time =>
    exact accounted.congr (fun _ => rfl) (fun _ => rfl) rfl
  | connect known =>
    refine accounted.congr (fun _ => rfl) (fun i => ?_) rfl
    simp only [exited, List.getElem?_append]
    split_ifs with inside
    · rfl
    · rw [List.getElem?_eq_none (Nat.le_of_not_lt inside), List.getElem?_singleton]
      split_ifs <;> rfl
  | reject | read => exact accounted.send fun _ => rfl
  | accept found fresh =>
    have opened := accounted.setPhase found (by simp [fresh])
      (show Phase.accepted ≠ .exited by simp)
    exact opened.send fun _ => rfl
  | refuse found fresh => exact accounted.setPhase found (by simp [fresh]) (by simp)
  | announce found runs exit =>
    exact accounted.announce found runs ((watched (by simp [found, runs])).1 exit)
  | exit found runs exit =>
    exact accounted.exit found runs ((watched (by simp [found, runs])).2 exit)
  | deliver _ _ queue => exact accounted.deliver queue
  | tick => exact accounted.foldl_expire sourced (s.lastResponse.keys_nodup.filter _) watched

end State

/-- In every run whose supervisors and ticks exclude one another, every connection has exactly one
`Disconnected` by the time its supervisor has exited and the queue is empty. -/
theorem disconnects_reported_once (sha256 : List UInt8 → Hash) (keys : AuthorizedKeys)
    (events : List Event)
    (watched : AllMeet (State.step sha256) State.Watched { authorizedKeys := keys } events) :
    Always (State.step sha256) State.Settled { authorizedKeys := keys } events := by
  refine always_of_allMeet (fun s => s.Sourced ∧ s.Accounted) ?_ (fun _ inv => inv.2.settled)
    ⟨⟨nofun, nofun⟩, fun _ => rfl, List.nodup_nil⟩ watched
  rintro s e ⟨sourced, accounted⟩ watched
  have step := step_spec sha256 s e
  exact ⟨sourced.step step, accounted.step sourced watched step⟩

/-- One connection ends inside a frame; the other falls silent, is reported by the watchdog and
closed. -/
theorem disconnects_reported_once_two :
    let sha256 : List UInt8 → Hash := fun cert => Vector.replicate 32 (cert.headD 0)
    let fp := Tls.generateFingerprint sha256 [7]
    let keys : AuthorizedKeys := (∅ : AuthorizedKeys).insert fp "a"
    let a : SocketAddr := ⟨.v4 #v[192, 168, 0, 2], 2268⟩
    let b : SocketAddr := ⟨.v4 #v[192, 168, 0, 3], 2268⟩
    let events : List Event := [.handshake a [7], .handshake b [7], .hello 0 true, .hello 1 true,
      .deliver, .deliver, .control 0 (.error (.err .truncated)), .deliver, .control 1 (.ok .ping),
      .deliver, .time 5000, .tick,
      .control 1 (.error (.err (.helloFailed "read frame length: closed")))]
    let s := run (State.step sha256) { authorizedKeys := keys } events
    Always (State.step sha256) State.Settled { authorizedKeys := keys } events ∧ s.queue = [] ∧
      s.exited 0 = true ∧ s.exited 1 = true ∧
      s.reports = [.connected a fp, .connected b fp, .disconnected 0 a, .disconnected 1 b] := by
  intro sha256 fp keys a b events s
  exact ⟨disconnects_reported_once sha256 keys events (by decide +kernel), by decide +kernel⟩

/-- The control stream ends between two frames, and no `Disconnected` is reported; the watchdog
reports a connection whose control stream then ends inside a frame, and two are. -/
theorem disconnects_missing_and_doubled :
    let sha256 : List UInt8 → Hash := fun cert => Vector.replicate 32 (cert.headD 0)
    let fp := Tls.generateFingerprint sha256 [7]
    let keys : AuthorizedKeys := (∅ : AuthorizedKeys).insert fp "a"
    let a : SocketAddr := ⟨.v4 #v[192, 168, 0, 2], 2268⟩
    let accepted : List Event := [.handshake a [7], .hello 0 true, .deliver]
    let after (events : List Event) : State :=
      run (State.step sha256) { authorizedKeys := keys } (accepted ++ events)
    let missing :=
      after [.control 0 (.error (.err (.helloFailed "read frame length: unexpected end of file")))]
    let doubled := after [.control 0 (.ok .ping), .deliver, .time 5000, .tick,
      .control 0 (.error (.err .truncated)), .deliver]
    (missing.queue = [] ∧ missing.exited 0 = true ∧ missing.reports = [.connected a fp]) ∧
    doubled.queue = [] ∧ doubled.exited 0 = true ∧
      doubled.reports = [.connected a fp, .disconnected 0 a, .disconnected 0 a] := by
  decide +kernel

end LanMouse.Listen
