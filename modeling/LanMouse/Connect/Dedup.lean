import LanMouse.Connect.Dialer

/-!
# One dial at a time

`dial` and `send` enter a handle in `connecting` before they spawn a task for it and spawn none for
a handle that is there. A supervisor that dials again enters nothing, so its task is invisible to
them, and it does not look whether a task is under way. At most one task per handle is in flight
exactly as long as neither finds a task of the other kind, and no supervisor finds any.
-/
namespace LanMouse.Connect

open Proto Client Transition

namespace State

variable {s s' : State} {h : ClientHandle} {k : Nat} {d : Dial}

/-- The number of tasks in flight for a handle. -/
def flights (s : State) (h : ClientHandle) : Nat :=
  s.dials.countP fun d => d.handle = h ∧ d.inFlight

def AtMostOneDial (s : State) : Prop := ∀ h, s.flights h ≤ 1

/-- The backoff gate and the look into `connecting` let a dial through. -/
def passes (s : State) (h : ClientHandle) : Prop := s.gated h = false ∧ h ∉ s.connecting

/-- A dial that is let through finds no task of a supervisor in flight, and a supervisor that dials
again finds no task at all. -/
def DialsAlone (s : State) : Event → Prop
  | .dial h => s.passes h → ∀ d ∈ s.dials, d.handle = h → d.redial = true → d.inFlight = false
  | .send h => s.route? h = none → s.passes h →
    ∀ d ∈ s.dials, d.handle = h → d.redial = true → d.inFlight = false
  | .runEnds i result => ∀ p ∈ s.sessions[i]?, p.running = true → result.retries = true →
    ∀ d ∈ s.dials, d.handle = p.handle → d.inFlight = false
  | _ => True

/-- Every task that `dial` or `send` has spawned is known to `connecting` while it is in flight. -/
structure Deduped (s : State) : Prop where
  atMostOne : s.AtMostOneDial
  listed : ∀ d ∈ s.dials, d.inFlight = true → d.redial = false → d.handle ∈ s.connecting

theorem flights_eq_zero : s.flights h = 0 ↔ ∀ d ∈ s.dials, d.handle = h → d.inFlight = false := by
  simp [flights, List.countP_eq_zero]

theorem flights_spawn (s : State) (h other : ClientHandle) (redial : Bool) :
    (s.spawn h redial).flights other = s.flights other + if h = other then 1 else 0 := by
  simp [flights, spawn, Dial.inFlight, List.countP_cons]

theorem flights_setPhase (mine : s.dials[k]? = some d) (phase : DialPhase) (h : ClientHandle) :
    (s.setPhase k d phase).flights h + (if d.handle = h ∧ d.inFlight = true then 1 else 0) =
      s.flights h + (if d.handle = h ∧ phase ≠ .ended then 1 else 0) := by
  obtain ⟨inside, rfl⟩ := List.getElem?_eq_some_iff.mp mine
  have counted : s.dials[k].handle = h ∧ s.dials[k].inFlight = true →
      0 < s.dials.countP fun d => d.handle = h ∧ d.inFlight :=
    fun flies => List.countP_pos_iff.mpr ⟨_, List.getElem_mem inside, decide_eq_true flies⟩
  simp only [flights, setPhase, List.countP_set inside, decide_eq_true_eq]
  have after : (({ s.dials[k] with phase } : Dial).inFlight = true) ↔ phase ≠ .ended := by
    simp [Dial.inFlight]
  simp only [after]
  by_cases flies : s.dials[k].handle = h ∧ s.dials[k].inFlight = true
  · have := counted flies
    simp only [flies, and_self, if_true]
    omega
  · simp only [flies, if_false]
    omega

theorem Deduped.of_same (deduped : s.Deduped) (dials : s'.dials = s.dials)
    (connecting : s'.connecting = s.connecting) : s'.Deduped := by
  refine ⟨fun h => ?_, ?_⟩
  · rw [flights, dials]
    exact deduped.atMostOne h
  · rw [dials, connecting]
    exact deduped.listed

theorem dial_of_passes (passes : s.passes h) :
    s.dial h = { s with connecting := h :: s.connecting }.spawn h false := by
  simp [dial, passes.1, passes.2]

theorem dial_of_not_passes (stays : ¬ s.passes h) : s.dial h = s := by
  unfold dial
  split_ifs with gated listed
  · rfl
  · rfl
  · exact absurd ⟨by simpa using gated, listed⟩ stays

theorem Deduped.flights_spawn_le (deduped : s.Deduped) (idle : s.flights h = 0) (redial : Bool)
    (other : ClientHandle) : (s.spawn h redial).flights other ≤ 1 := by
  rw [flights_spawn]
  split_ifs with same
  · subst same
    exact Nat.le_of_eq (congrArg (· + 1) idle)
  · exact deduped.atMostOne other

theorem Deduped.dial (deduped : s.Deduped) (alone : s.DialsAlone (.dial h)) :
    (s.dial h).Deduped := by
  by_cases passes : s.passes h
  · rw [dial_of_passes passes]
    have idle : s.flights h = 0 := by
      refine flights_eq_zero.mpr fun d mem own => ?_
      by_contra flies
      rw [Bool.not_eq_false] at flies
      cases redial : d.redial with
      | true => simp [alone passes d mem own redial] at flies
      | false => exact passes.2 (own ▸ deduped.listed d mem flies redial)
    refine ⟨fun other => deduped.flights_spawn_le idle false other, fun d mem flies first => ?_⟩
    obtain old | new := List.mem_append.mp mem
    · exact List.mem_cons_of_mem _ (deduped.listed d old flies first)
    · rw [List.mem_singleton.mp new]
      exact List.mem_cons_self
  · rwa [dial_of_not_passes passes]

theorem Deduped.setPhase (deduped : s.Deduped) (mine : s.dials[k]? = some d)
    (flies : d.inFlight = true) {phase : DialPhase} (goesOn : phase ≠ .ended) :
    (s.setPhase k d phase).Deduped := by
  refine ⟨fun h => ?_, fun other mem flies' first => ?_⟩
  · have counted := flights_setPhase mine phase h
    have bound := deduped.atMostOne h
    simp only [flies, goesOn, ne_eq, not_false_eq_true] at counted
    omega
  · obtain old | rfl := List.mem_or_eq_of_mem_set mem
    · exact deduped.listed other old flies' first
    · exact deduped.listed d (List.mem_of_getElem? mine) flies first

theorem Deduped.endDial (deduped : s.Deduped) (mine : s.dials[k]? = some d)
    (flies : d.inFlight = true) : (s.endDial k d).Deduped := by
  have counted : ∀ h, (s.endDial k d).flights h + (if d.handle = h then 1 else 0) =
      s.flights h := by
    intro h
    have counted := flights_setPhase mine .ended h
    have same : (s.endDial k d).flights h = (s.setPhase k d .ended).flights h := rfl
    rw [same]
    simpa [flies] using counted
  refine ⟨fun h => ?_, fun other mem flies' first => ?_⟩
  · have := counted h
    have bound := deduped.atMostOne h
    omega
  · have last : (s.endDial k d).flights d.handle = 0 := by
      have := counted d.handle
      have bound := deduped.atMostOne d.handle
      simp only [if_true] at this
      omega
    have apart : other.handle ≠ d.handle := fun same => by
      simp [flights_eq_zero.mp last other mem same] at flies'
    refine List.mem_filter.mpr ⟨?_, by simpa using apart⟩
    obtain old | rfl := List.mem_or_eq_of_mem_set mem
    · exact deduped.listed other old flies' first
    · exact absurd rfl apart

theorem Deduped.task (deduped : s.Deduped) (k : Nat) (answer : Option Nat) :
    (s.task k answer).Deduped := by
  unfold State.task
  cases mine : s.dials[k]? with
  | none => exact deduped
  | some d =>
    have failed : (s.recordRetryFailure d.handle).Deduped := deduped.of_same rfl rfl
    dsimp only
    cases phase : d.phase with
    | spawned =>
      have flies : d.inFlight = true := by simp [Dial.inFlight, phase]
      dsimp only
      split
      · exact deduped.endDial mine flies
      · split_ifs
        · exact deduped.endDial mine flies
        · exact deduped.setPhase mine flies (by simp)
    | dialing client addrs =>
      have flies : d.inFlight = true := by simp [Dial.inFlight, phase]
      dsimp only
      split
      · exact failed.endDial mine flies
      · exact deduped.setPhase mine flies (by simp)
    | greeting client remote =>
      have flies : d.inFlight = true := by simp [Dial.inFlight, phase]
      dsimp only
      split
      · exact failed.endDial mine flies
      · have registered : (s.register d.handle client remote).Deduped := deduped.of_same rfl rfl
        exact registered.endDial mine flies
    | ended => exact deduped

theorem Deduped.runEnds (deduped : s.Deduped) {i : Nat} {result : RunResult}
    (alone : s.DialsAlone (.runEnds i result)) : (s.runEnds i result).Deduped := by
  unfold State.runEnds
  cases mine : s.sessions[i]? with
  | none => exact deduped
  | some p =>
    dsimp only
    cases running : p.running with
    | false => exact deduped
    | true =>
      cases retries : result.retries with
      | false => exact deduped.of_same rfl rfl
      | true =>
        have idle : s.flights p.handle = 0 := flights_eq_zero.mpr (alone p mine running retries)
        refine ⟨fun other => deduped.flights_spawn_le idle true other, fun d mem flies first => ?_⟩
        obtain old | new := List.mem_append.mp mem
        · exact deduped.listed d old flies first
        · rw [List.mem_singleton.mp new] at first
          cases first

theorem Deduped.step (deduped : s.Deduped) {e : Event} (alone : s.DialsAlone e) :
    (s.step e).Deduped := by
  cases e with
  | time | read => exact deduped.of_same rfl rfl
  | change c =>
    obtain ⟨clients, registrations, eq⟩ := s.change_eq c
    rw [State.step, eq]
    exact deduped.of_same rfl rfl
  | dial h => exact deduped.dial alone
  | task k answer => exact deduped.task k answer
  | send h =>
    obtain ⟨addr, i, -, eq⟩ | ⟨found, eq⟩ := s.send_cases h
    · rw [State.step, eq]
      exact deduped.of_same rfl rfl
    · rw [State.step, eq]
      exact deduped.dial (alone found)
  | sent n ok =>
    obtain eq | ⟨x, found, waits⟩ := s.sent_cases n ok
    · rwa [State.step, eq]
    · cases ok with
      | true =>
        rw [State.step, sent_ok found waits]
        exact deduped.of_same rfl rfl
      | false =>
        rw [State.step, sent_failed found waits]
        exact deduped.of_same rfl rfl
  | runEnds i result => exact deduped.runEnds alone
  | forward i =>
    obtain eq | ⟨p, event, rest, mine, queue⟩ := s.forward_cases i
    · rwa [State.step, eq]
    · rw [State.step, forward_of_queued mine queue]
      exact deduped.of_same rfl rfl

theorem deduped_new : ({} : State).Deduped := ⟨fun _ => Nat.zero_le 1, by simp⟩

theorem dialsAlone_dial (one : (s.dial h).AtMostOneDial) : s.DialsAlone (.dial h) := by
  intro passes d mem own _
  have bound := one h
  rw [dial_of_passes passes, flights_spawn, if_pos rfl] at bound
  have idle : s.flights h = 0 := Nat.le_zero.mp (Nat.le_of_succ_le_succ bound)
  exact flights_eq_zero.mp idle d mem own

theorem dialsAlone_of_atMostOne {e : Event} (one : (s.step e).AtMostOneDial) : s.DialsAlone e := by
  cases e with
  | dial h => exact dialsAlone_dial one
  | send h =>
    intro found
    simp only [State.step, send, found] at one
    exact dialsAlone_dial one
  | runEnds i result =>
    intro p mine running retries
    have mine : s.sessions[i]? = some p := mine
    have bound := one p.handle
    simp only [State.step, State.runEnds, mine, running, retries, Bool.not_true, Bool.false_eq_true,
      if_false, if_true, flights_spawn] at bound
    exact flights_eq_zero.mp (Nat.le_zero.mp (Nat.le_of_succ_le_succ bound))
  | _ => trivial

end State

open State

/-- Over a whole run at most one dial is in flight for each handle, exactly when dials and
supervisors do not meet. -/
theorem one_dial_at_a_time_iff (events : List Event) :
    Always State.step AtMostOneDial {} events ↔ AllMeet State.step DialsAlone {} events :=
  always_iff_allMeet Deduped (fun _ _ deduped alone => deduped.step alone)
    (fun _ deduped => deduped.atMostOne) (fun _ _ _ one => dialsAlone_of_atMostOne one)
    deduped_new events

/-- A send over the first session fails, and `dial` spawns a task; then the supervisor of that
session sees the time-out and dials as well. -/
theorem two_dials_in_flight :
    let client : ConfigClient := { ips := [.v4 #v[192, 168, 0, 2]], active := true }
    let events : List Event := [.change (.addWithConfig client), .dial 0, .task 0 none,
      .task 0 (some 0), .task 0 (some 0), .send 0, .sent 0 false, .send 0,
      .runEnds 0 (.handshake .timedOut)]
    (run State.step {} events).flights 0 = 2 := by
  decide +kernel

end LanMouse.Connect
