import LanMouse.Connect.Dialer

/-!
# The session of a client

A session is entered under its remote address in `peers`, and the address under the handle in the
client manager. What takes it out again, the end of its supervisor or a send that failed, goes by
address and handle and does not ask whose entries these are by now. Both tables are directories, of
the sessions registered last at an address and for a client. They stay exact as long as whatever
ends an older session finds no later one live, two clients do not meet at one address, and the port
or the hostname of a client with a live session stay as they are.
-/
namespace LanMouse.Connect

open Proto Client Transition Directory

/-- What a session is known by. -/
def Session.ids (p : Session) : ClientHandle × SocketAddr × Option Nat :=
  (p.handle, p.remote, p.registeredFor)

namespace State

variable {s s' : State} {e : Event} {h : ClientHandle} {a : SocketAddr} {i j : Nat} {p : Session}

/-- The session registered last at an address. -/
def latestAt (s : State) (a : SocketAddr) : Option Nat :=
  lastIdx (fun p => p.remote = a) s.sessions

/-- The session registered last for the client that has the handle now. -/
def latestOf (s : State) (h : ClientHandle) : Option Nat :=
  lastIdx (fun p => p.handle = h ∧ p.registeredFor.isSome ∧ p.registeredFor = s.client? h)
    s.sessions

def live (s : State) (i : Nat) : Bool := s.sessions[i]?.any (·.live)

/-- The session that the active address of a client leads to. -/
def leadsTo (s : State) (h : ClientHandle) : Option Nat :=
  (s.clients.activeAddr h).bind fun a => s.peers.lookup a

/-- A client's last session can be found while it is live. -/
def Current (s : State) : Prop :=
  ∀ h i, s.latestOf h = some i → s.live i = true →
    ∃ a, s.clients.activeAddr h = some a ∧ s.peers.lookup a = some i

/-- The session that an event cleans up after. -/
def ends? (s : State) : Event → Option Nat
  | .runEnds i _ => if s.sessions[i]?.any (·.running) then some i else none
  | .sent n ok => if ok then none else (s.sends[n]?.filter (!·.done)).map (·.session)
  | _ => none

/-- The clean-up leaves the entries of the other sessions in both tables. -/
def CleansOwn (s : State) (e : Event) : Prop :=
  ∀ i, s.ends? e = some i →
    (∀ a j, s.peers.lookup a = some j → j ≠ i → (s.step e).peers.lookup a = some j) ∧
    ∀ h a, s.clients.activeAddr h = some a → s.peers.lookup a ≠ some i →
      (s.step e).clients.activeAddr h = some a

/-- Of the sessions last registered at the address and for the handle, only `i` may be live. -/
def LeavesAlone (s : State) (i : Nat) (a : SocketAddr) (h : ClientHandle) : Prop :=
  (∀ j, s.latestAt a = some j → s.live j = true → j = i) ∧
    ∀ j, s.latestOf h = some j → s.live j = true → j = i

def EndsAlone (s : State) : Event → Prop
  | .runEnds i _ => ∀ p ∈ s.sessions[i]?, p.running = true → s.LeavesAlone i p.remote p.handle
  | .sent n ok => ok = false → ∀ x ∈ s.sends[n]?, x.done = false →
    s.LeavesAlone x.session x.addr x.handle
  | .task k answer => ∀ d ∈ s.dials[k]?, ∀ client remote, d.phase = .greeting client remote →
    answer.isSome → ∀ h ≠ d.handle, ∀ i p, s.latestOf h = some i → s.sessions[i]? = some p →
      p.live = true → p.remote ≠ remote
  | .change (.setPort h port) => s.clients.changesPort h port → ∀ i p, s.latestOf h = some i →
    s.sessions[i]? = some p → p.live = true → p.remote.port = port
  | .change (.setHostname h hostname) => s.clients.changesHostname h hostname →
    ∀ i, s.latestOf h = some i → s.live i = false
  | _ => True

/-- Both tables are exact, every active address is in `peers`, and what the proofs need to know of
the clients sessions were registered for and of the calls that wait. -/
structure Routed (s : State) : Prop where
  peers : Exact (fun a => s.peers.lookup a) s.latestAt fun i => s.live i = true
  routes : Exact s.leadsTo s.latestOf fun i => s.live i = true
  entered : ∀ h a, s.clients.activeAddr h = some a → (s.peers.lookup a).isSome
  known : ∀ p ∈ s.sessions, ∀ g, p.registeredFor = some g → g ≤ s.registrations.count p.handle
  waiting : ∀ x ∈ s.sends, x.done = false →
    ∃ p, s.sessions[x.session]? = some p ∧ p.handle = x.handle ∧ p.remote = x.addr

/-! ### Sessions -/

theorem latestAt_congr (ids : s'.sessions.map Session.ids = s.sessions.map Session.ids)
    (a : SocketAddr) : s'.latestAt a = s.latestAt a := by
  refine lastIdx_congr ?_
  have same := congrArg (List.map fun k => decide (k.2.1 = a)) ids
  rwa [List.map_map, List.map_map] at same

theorem latestOf_congr (ids : s'.sessions.map Session.ids = s.sessions.map Session.ids)
    (client : s'.client? h = s.client? h) : s'.latestOf h = s.latestOf h := by
  unfold latestOf
  rw [client]
  refine lastIdx_congr ?_
  have same := congrArg
    (List.map fun k => decide (k.1 = h ∧ k.2.2.isSome ∧ k.2.2 = s.client? h)) ids
  rwa [List.map_map, List.map_map] at same

theorem latestAt_eq_some (last : s.latestAt a = some i) :
    ∃ p, s.sessions[i]? = some p ∧ p.remote = a := by
  obtain ⟨p, mine, here⟩ := getElem?_lastIdx last
  exact ⟨p, mine, of_decide_eq_true here⟩

theorem latestOf_eq_some (last : s.latestOf h = some i) :
    ∃ p g, s.sessions[i]? = some p ∧ p.handle = h ∧ p.registeredFor = some g ∧
      s.client? h = some g := by
  obtain ⟨p, mine, here⟩ := getElem?_lastIdx last
  obtain ⟨handle, registered, client⟩ := of_decide_eq_true here
  obtain ⟨g, registered⟩ := Option.isSome_iff_exists.mp registered
  exact ⟨p, g, mine, handle, registered, client ▸ registered⟩

theorem latestOf_of_client?_none (gone : s.client? h = none) : s.latestOf h = none := by
  cases last : s.latestOf h with
  | none => rfl
  | some i =>
    obtain ⟨p, g, -, -, -, client⟩ := latestOf_eq_some last
    rw [gone] at client
    cases client

theorem live_of_mine (mine : s.sessions[i]? = some p) : s.live i = p.live := by
  simp [live, mine]

theorem leadsTo_eq_some :
    s.leadsTo h = some i ↔ ∃ a, s.clients.activeAddr h = some a ∧ s.peers.lookup a = some i :=
  Option.bind_eq_some_iff

theorem Routed.current (routed : s.Routed) : s.Current :=
  fun h i last live => leadsTo_eq_some.mp ((routed.routes h i).mpr ⟨last, live⟩)

/-- An active address is the remote address of the client's last session. -/
theorem Routed.active (routed : s.Routed) (active : s.clients.activeAddr h = some a) :
    ∃ i p, s.latestOf h = some i ∧ s.live i = true ∧ s.peers.lookup a = some i ∧
      s.sessions[i]? = some p ∧ p.handle = h ∧ p.remote = a := by
  obtain ⟨i, entry⟩ := Option.isSome_iff_exists.mp (routed.entered h a active)
  obtain ⟨last, live⟩ := (routed.routes h i).mp (leadsTo_eq_some.mpr ⟨a, active, entry⟩)
  obtain ⟨p, mine, here⟩ := latestAt_eq_some ((routed.peers a i).mp entry).1
  obtain ⟨p', g, mine', handle, -, -⟩ := latestOf_eq_some last
  rw [mine, Option.some_inj] at mine'
  exact ⟨i, p, last, live, entry, mine, mine' ▸ handle, here⟩

/-! ### The end of a session -/

/-- A clean-up after session `i` by the address `a` and the handle `h`. -/
structure Leaves (s s' : State) (i : Nat) (a : SocketAddr) (h : ClientHandle) : Prop where
  lookup : ∀ b, s'.peers.lookup b = if b = a then none else s.peers.lookup b
  activeAddr : ∀ g, s'.clients.activeAddr g = if g = h then none else s.clients.activeAddr g
  client : ∀ g, s'.client? g = s.client? g
  ids : s'.sessions.map Session.ids = s.sessions.map Session.ids
  live : ∀ j, s'.live j = if j = i then false else s.live j
  registrations : s'.registrations = s.registrations
  sends : ∀ x ∈ s'.sends, x.done = false → x ∈ s.sends

theorem runEnds_leaves (mine : s.sessions[i]? = some p) (running : p.running = true)
    (result : RunResult) : Leaves s (s.runEnds i result) i p.remote p.handle := by
  obtain ⟨dials, retryState, eq⟩ := runEnds_of_running mine running result
  rw [eq]
  refine ⟨s.lookup_cleanUp p.remote p.handle, s.activeAddr_cleanUp p.remote p.handle,
    s.client?_cleanUp p.remote p.handle, map_set_of_same mine rfl, fun j => ?_, rfl,
    fun x mem _ => mem⟩
  obtain ⟨inside, -⟩ := List.getElem?_eq_some_iff.mp mine
  unfold State.live
  dsimp only
  rw [List.getElem?_set]
  by_cases same : i = j
  · subst same
    simp [inside, Session.live]
  · simp [same, Ne.symm same]

theorem sent_leaves {n : Nat} {x : Sending} (found : s.sends[n]? = some x)
    (waits : x.done = false) : Leaves s (s.sent n false) x.session x.addr x.handle := by
  rw [sent_failed found waits]
  refine ⟨s.lookup_cleanUp x.addr x.handle, s.activeAddr_cleanUp x.addr x.handle,
    s.client?_cleanUp x.addr x.handle, map_modify_of_same ?_ _ _, fun j => ?_, rfl,
    fun y mem waits' => ?_⟩
  · exact fun _ => rfl
  · unfold State.live
    dsimp only
    rw [List.getElem?_modify]
    by_cases same : x.session = j
    · subst same
      cases s.sessions[x.session]? <;> simp [Session.live]
    · simp [same, Ne.symm same]
  · obtain old | rfl := List.mem_or_eq_of_mem_set mem
    · exact old
    · cases waits'

theorem Routed.of_records (routed : s.Routed)
    (peers : Exact (fun a => s'.peers.lookup a) s'.latestAt fun i => s'.live i = true)
    (routes : Exact s'.leadsTo s'.latestOf fun i => s'.live i = true)
    (entered : ∀ h a, s'.clients.activeAddr h = some a → (s'.peers.lookup a).isSome)
    (ids : s'.sessions.map Session.ids = s.sessions.map Session.ids)
    (registrations : ∀ h, s.registrations.count h ≤ s'.registrations.count h)
    (sends : ∀ x ∈ s'.sends, x.done = false → x ∈ s.sends) : s'.Routed := by
  refine ⟨peers, routes, entered, fun p mem g registered => ?_, fun x mem waits => ?_⟩
  · obtain ⟨i, mine⟩ := List.getElem?_of_mem mem
    obtain ⟨q, mine', same⟩ := exists_getElem?_of_map_eq ids.symm mine
    simp only [Session.ids, Prod.mk.injEq] at same
    obtain ⟨handle, -, registered'⟩ := same
    rw [← handle]
    exact (routed.known q (List.mem_of_getElem? mine') g (registered'.trans registered)).trans
      (registrations q.handle)
  · obtain ⟨p, mine, handle, remote⟩ := routed.waiting x (sends x mem waits) waits
    obtain ⟨q, mine', same⟩ := exists_getElem?_of_map_eq ids mine
    simp only [Session.ids, Prod.mk.injEq] at same
    exact ⟨q, mine', same.1.trans handle, same.2.1.trans remote⟩

/-- No other client is at the address of a session that leaves alone. -/
theorem Routed.apart (routed : s.Routed) (mine : s.sessions[i]? = some p)
    (alone : s.LeavesAlone i p.remote p.handle) {g : ClientHandle} (other : g ≠ p.handle)
    {b : SocketAddr} (active : s.clients.activeAddr g = some b) : b ≠ p.remote := by
  rintro rfl
  obtain ⟨j, q, -, live, entry, at_, handle, -⟩ := routed.active active
  obtain rfl := alone.1 j ((routed.peers _ j).mp entry).1 live
  rw [mine, Option.some_inj] at at_
  exact other (at_ ▸ handle.symm)

theorem Routed.leave (routed : s.Routed) (mine : s.sessions[i]? = some p)
    (alone : s.LeavesAlone i p.remote p.handle) (leaves : Leaves s s' i p.remote p.handle) :
    s'.Routed := by
  have at_ : ∀ a, s'.latestAt a = s.latestAt a := latestAt_congr leaves.ids
  have of_ : ∀ h, s'.latestOf h = s.latestOf h :=
    fun h => latestOf_congr leaves.ids (leaves.client h)
  have kept : ∀ j, j ≠ i → (s'.live j = true ↔ s.live j = true) := fun j other => by
    rw [leaves.live, if_neg other]
  have dead : ∀ j, (s.live j = true → j = i) → ¬ s'.live j = true := fun j only live => by
    rw [leaves.live] at live
    split_ifs at live with same
    exact same (only live)
  refine routed.of_records ?_ ?_ (fun g b active => ?_) leaves.ids
    (fun h => by rw [leaves.registrations]) leaves.sends
  · refine routed.peers.leave p.remote leaves.lookup (fun a _ => at_ a) (fun j last => ?_)
      fun a j other last => kept j ?_
    · exact dead j (alone.1 j (at_ _ ▸ last))
    · rintro rfl
      obtain ⟨q, mine', here⟩ := latestAt_eq_some last
      rw [mine, Option.some_inj] at mine'
      exact other (mine' ▸ here.symm)
  · refine routed.routes.leave p.handle (fun g => ?_) (fun h _ => of_ h) (fun j last => ?_)
      fun g j other last => kept j ?_
    · unfold leadsTo
      rw [leaves.activeAddr]
      split_ifs with own
      · rfl
      · refine Option.bind_congr fun b active => ?_
        rw [leaves.lookup, if_neg (routed.apart mine alone own active)]
    · exact dead j (alone.2 j (of_ _ ▸ last))
    · rintro rfl
      obtain ⟨q, -, mine', handle, -, -⟩ := latestOf_eq_some last
      rw [mine, Option.some_inj] at mine'
      exact other (mine' ▸ handle.symm)
  · rw [leaves.activeAddr] at active
    split_ifs at active with own
    rw [leaves.lookup, if_neg (routed.apart mine alone own active)]
    exact routed.entered g b active

theorem Routed.cleansOwn (routed : s.Routed) (mine : s.sessions[i]? = some p)
    (alone : s.LeavesAlone i p.remote p.handle) (leaves : Leaves s s' i p.remote p.handle) :
    (∀ a j, s.peers.lookup a = some j → j ≠ i → s'.peers.lookup a = some j) ∧
      ∀ h a, s.clients.activeAddr h = some a → s.peers.lookup a ≠ some i →
        s'.clients.activeAddr h = some a := by
  refine ⟨fun a j entry other => ?_, fun h a active elsewhere => ?_⟩
  · obtain ⟨last, live⟩ := (routed.peers a j).mp entry
    have apart : a ≠ p.remote := by
      rintro rfl
      exact other (alone.1 j last live)
    rw [leaves.lookup, if_neg apart, entry]
  · obtain ⟨j, -, last, live, entry, -, -, -⟩ := routed.active active
    have apart : h ≠ p.handle := by
      rintro rfl
      obtain rfl := alone.2 j last live
      exact elsewhere entry
    rw [leaves.activeAddr, if_neg apart, active]

/-- Conversely, a clean-up that keeps the other entries has left alone. -/
theorem Routed.leavesAlone (routed : s.Routed) (leaves : Leaves s s' i a h)
    (entries : ∀ a j, s.peers.lookup a = some j → j ≠ i → s'.peers.lookup a = some j)
    (addrs : ∀ h a, s.clients.activeAddr h = some a → s.peers.lookup a ≠ some i →
      s'.clients.activeAddr h = some a) : s.LeavesAlone i a h := by
  refine ⟨fun j last live => ?_, fun j last live => ?_⟩
  · by_contra other
    have kept := entries a j ((routed.peers a j).mpr ⟨last, live⟩) other
    rw [leaves.lookup, if_pos rfl] at kept
    cases kept
  · by_contra other
    obtain ⟨b, active, entry⟩ := routed.current h j last live
    have kept := addrs h b active fun same => other (Option.some_inj.mp (entry.symm.trans same))
    rw [leaves.activeAddr, if_pos rfl] at kept
    cases kept

/-! ### A new session -/

theorem latestAt_register (s : State) (h : ClientHandle) (client : Option Nat)
    (remote a : SocketAddr) : (s.register h client remote).latestAt a =
      if a = remote then some s.sessions.length else s.latestAt a := by
  simp only [latestAt, register, lastIdx_concat, decide_eq_true_eq, @eq_comm _ remote a]

theorem latestOf_register (s : State) (h : ClientHandle) (client : Option Nat)
    (remote : SocketAddr) (g : ClientHandle) : (s.register h client remote).latestOf g =
      if g = h ∧ (s.client? h).isSome then some s.sessions.length else s.latestOf g := by
  unfold latestOf
  rw [client?_register]
  simp only [register, lastIdx_concat, decide_eq_true_eq]
  refine if_congr ?_ rfl rfl
  constructor
  · rintro ⟨rfl, registered, -⟩
    exact ⟨rfl, registered⟩
  · rintro ⟨rfl, registered⟩
    exact ⟨rfl, registered, rfl⟩

theorem live_register_old (client : Option Nat) (remote : SocketAddr)
    (old : i < s.sessions.length) : (s.register h client remote).live i = s.live i := by
  unfold live
  rw [register, List.getElem?_append_left old]

theorem live_register_new (s : State) (h : ClientHandle) (client : Option Nat)
    (remote : SocketAddr) : (s.register h client remote).live s.sessions.length = true := by
  simp [live, register, Session.live]

theorem activeAddr_of_client?_none (gone : s.client? h = none) :
    s.clients.activeAddr h = none := by
  rw [ClientManager.activeAddr, Option.map_eq_none_iff.mp gone]
  rfl

/-- No other client has a live session at the address. -/
theorem Routed.leadsTo_register (routed : s.Routed) (client : Option Nat) {remote : SocketAddr}
    (apart : ∀ g ≠ h, ∀ i p, s.latestOf g = some i → s.sessions[i]? = some p → p.live = true →
      p.remote ≠ remote) {g : ClientHandle} (other : g ≠ h) :
    (s.register h client remote).leadsTo g = s.leadsTo g := by
  unfold leadsTo
  rw [activeAddr_register, if_neg other]
  refine Option.bind_congr fun b active => ?_
  obtain ⟨i, p, last, live, -, mine, -, rfl⟩ := routed.active active
  rw [lookup_register, if_neg (apart g other i p last mine (live_of_mine mine ▸ live))]

theorem Routed.routes_register (routed : s.Routed) (client : Option Nat) {remote : SocketAddr}
    (apart : ∀ g ≠ h, ∀ i p, s.latestOf g = some i → s.sessions[i]? = some p → p.live = true →
      p.remote ≠ remote) :
    Exact (s.register h client remote).leadsTo (s.register h client remote).latestOf
      fun i => (s.register h client remote).live i = true := by
  have lives : ∀ g j, s.latestOf g = some j →
      ((s.register h client remote).live j = true ↔ s.live j = true) := fun g j last => by
    rw [live_register_old client remote (lastIdx_lt last)]
  cases registered : s.client? h with
  | none =>
    refine routed.routes.congr (fun g => ?_) (fun g => ?_) lives
    · by_cases own : g = h
      · rw [own, leadsTo, leadsTo, activeAddr_register, if_pos rfl, registered,
          activeAddr_of_client?_none registered]
        rfl
      · exact routed.leadsTo_register client apart own
    · simp [latestOf_register, registered]
  | some c =>
    refine routed.routes.register h s.sessions.length (fun g => ?_) (fun g => ?_)
      (s.live_register_new h client remote) fun g j _ => lives g j
    · split_ifs with own
      · rw [own, leadsTo, activeAddr_register, if_pos rfl, registered]
        exact (s.lookup_register h client remote remote).trans (if_pos rfl)
      · exact routed.leadsTo_register client apart own
    · simp [latestOf_register, registered]

theorem Routed.register (routed : s.Routed) (client : Option Nat) {remote : SocketAddr}
    (apart : ∀ g ≠ h, ∀ i p, s.latestOf g = some i → s.sessions[i]? = some p → p.live = true →
      p.remote ≠ remote) : (s.register h client remote).Routed := by
  refine ⟨?_, routed.routes_register client apart, fun g b active => ?_,
    fun p mem g registered => ?_, fun x mem waits => ?_⟩
  · refine routed.peers.register remote s.sessions.length (s.lookup_register h client remote)
      (s.latestAt_register h client remote) (s.live_register_new h client remote)
      fun a j _ last => ?_
    rw [live_register_old client remote (lastIdx_lt last)]
  · rw [lookup_register]
    split_ifs with here
    · rfl
    · rw [activeAddr_register] at active
      split_ifs at active
      · obtain ⟨_, -, rfl⟩ := Option.map_eq_some_iff.mp active
        exact absurd rfl here
      · exact routed.entered g b active
  · obtain old | new := List.mem_append.mp mem
    · exact routed.known p old g registered
    · obtain rfl := List.mem_singleton.mp new
      obtain ⟨_, -, rfl⟩ := Option.map_eq_some_iff.mp registered
      exact Nat.le_refl _
  · obtain ⟨p, mine, same⟩ := routed.waiting x mem waits
    exact ⟨p, getElem?_concat_eq_some.mpr (.inl mine), same⟩

/-! ### Other steps -/

theorem Routed.of_same (routed : s.Routed)
    (ids : s'.sessions.map Session.ids = s.sessions.map Session.ids)
    (live : ∀ i, s'.live i = s.live i) (peers : s'.peers = s.peers)
    (active : ∀ h, s'.clients.activeAddr h = s.clients.activeAddr h)
    (latest : ∀ h, s'.latestOf h = s.latestOf h)
    (registrations : ∀ h, s.registrations.count h ≤ s'.registrations.count h)
    (sends : ∀ x ∈ s'.sends, x.done = false → x ∈ s.sends) : s'.Routed := by
  refine routed.of_records ?_ ?_ (fun h a => ?_) ids registrations sends
  · refine routed.peers.congr (fun a => by rw [peers]) (latestAt_congr ids) fun _ i _ => ?_
    rw [live]
  · refine routed.routes.congr (fun h => ?_) latest fun _ i _ => ?_
    · rw [leadsTo, active, peers]
      rfl
    · rw [live]
  · rw [active, peers]
    exact routed.entered h a

theorem live_congr (same : s'.sessions.map Session.live = s.sessions.map Session.live) (i : Nat) :
    s'.live i = s.live i := by
  have any_ : ∀ l : List Session, l[i]?.any Session.live = (l.map Session.live)[i]?.any id := by
    intro l
    rw [List.getElem?_map, Option.any_map]
    rfl
  unfold State.live
  rw [any_, same, ← any_]

theorem Routed.of_sessions (routed : s.Routed)
    (ids : s'.sessions.map Session.ids = s.sessions.map Session.ids)
    (live : s'.sessions.map Session.live = s.sessions.map Session.live)
    (peers : s'.peers = s.peers) (clients : s'.clients = s.clients)
    (registrations : s'.registrations = s.registrations) (sends : s'.sends = s.sends) :
    s'.Routed := by
  have client : ∀ h, s'.client? h = s.client? h := fun h => by
    rw [client?, clients, registrations]
    rfl
  exact routed.of_same ids (live_congr live) peers (fun h => by rw [clients])
    (fun h => latestOf_congr ids (client h)) (fun h => by rw [registrations])
    fun x mem _ => sends ▸ mem

theorem Routed.remove (routed : s.Routed) (h : ClientHandle) : (s.change (.remove h)).Routed := by
  have active := s.activeAddr_change (.remove h)
  have client := s.client?_change (.remove h)
  refine routed.of_records routed.peers ?_ (fun g a own => ?_) rfl (fun _ => Nat.le_refl _)
    fun x mem _ => mem
  · refine routed.routes.leave h (fun g => ?_) (fun g other => ?_) (fun i last => ?_)
      fun _ _ _ _ => Iff.rfl
    · rw [leadsTo, active]
      dsimp only
      split_ifs <;> rfl
    · exact latestOf_congr rfl ((client g).trans (if_neg other))
    · rw [latestOf_of_client?_none ((client h).trans (if_pos rfl))] at last
      cases last
  · rw [active] at own
    dsimp only at own
    split_ifs at own
    exact routed.entered g a own

/-- A change that moves no active address and gives no client another session. -/
theorem Routed.of_kept (routed : s.Routed) {c : ClientChange}
    (active : ∀ h, (s.change c).clients.activeAddr h = s.clients.activeAddr h)
    (latest : ∀ h, (s.change c).latestOf h = s.latestOf h) : (s.change c).Routed := by
  refine routed.of_same (by rw [sessions_change]) (fun i => by rw [live, sessions_change]; rfl)
    (s.peers_change c) active latest (fun h => ?_) fun x mem _ => s.sends_change c ▸ mem
  rw [registrations_change]
  cases c with
  | add | addWithConfig => exact (List.sublist_append_left _ _).count_le h
  | _ => exact Nat.le_refl _

theorem Routed.change (routed : s.Routed) {c : ClientChange} (alone : s.EndsAlone (.change c)) :
    (s.change c).Routed := by
  have active := s.activeAddr_change c
  have client := s.client?_change c
  cases c with
  | add | addWithConfig =>
    refine routed.of_kept active fun g => ?_
    by_cases new : g = (ClientManager.addClient s.clients).1
    · have fresh : s.client? g = none := by
        rw [client?, new, (ClientManager.get?_addClient s.clients).1]
        rfl
      rw [latestOf_of_client?_none fresh]
      have next := (client g).trans (if_pos new)
      cases last : latestOf _ g with
      | none => rfl
      | some i =>
        obtain ⟨p, n, mine, rfl, registered, current⟩ := latestOf_eq_some last
        rw [next, Option.some_inj] at current
        have bound := routed.known p (List.mem_of_getElem? mine) n registered
        omega
    · exact latestOf_congr rfl ((client g).trans (if_neg new))
  | remove h => exact routed.remove h
  | setPort h port =>
    refine routed.of_kept (fun g => (active g).trans ?_) fun g => latestOf_congr rfl (client g)
    dsimp only
    split_ifs with changes
    · obtain ⟨rfl, changes⟩ := changes
      cases own : s.clients.activeAddr g with
      | none => rfl
      | some a =>
        obtain ⟨i, p, last, live, -, mine, -, rfl⟩ := routed.active own
        have same := alone changes i p last mine (live_of_mine mine ▸ live)
        rw [Option.map_some, ← same]
    · rfl
  | setHostname h hostname =>
    refine routed.of_kept (fun g => (active g).trans ?_) fun g => latestOf_congr rfl (client g)
    dsimp only
    split_ifs with changes
    · obtain ⟨rfl, changes⟩ := changes
      cases own : s.clients.activeAddr g with
      | none => rfl
      | some a =>
        obtain ⟨i, p, last, live, -⟩ := routed.active own
        rw [alone changes i last] at live
        cases live
    · rfl
  | setFixIps | setDnsIps | activate | deactivate =>
    exact routed.of_kept active fun g => latestOf_congr rfl (client g)

theorem Routed.send (routed : s.Routed) (h : ClientHandle) : (s.send h).Routed := by
  obtain ⟨addr, i, found, eq⟩ | ⟨-, eq⟩ := s.send_cases h
  · rw [eq]
    refine ⟨routed.peers, routed.routes, routed.entered, routed.known, fun x mem waits => ?_⟩
    obtain old | new := List.mem_append.mp mem
    · exact routed.waiting x old waits
    · obtain rfl := List.mem_singleton.mp new
      obtain ⟨active, entry⟩ := route?_eq_some.mp found
      obtain ⟨j, p, -, -, entry', mine, handle, remote⟩ := routed.active active
      rw [entry, Option.some_inj] at entry'
      exact ⟨p, entry' ▸ mine, handle, remote⟩
  · obtain ⟨dials, connecting, eq'⟩ := s.dial_eq h
    rw [eq, eq']
    exact routed.of_sessions rfl rfl rfl rfl rfl rfl

/-- A send that fails ends the session it went over, like the end of that session's run. -/
theorem Routed.sent_failed (routed : s.Routed) {n : Nat} {x : Sending}
    (alone : s.EndsAlone (.sent n false)) (found : s.sends[n]? = some x) (waits : x.done = false) :
    ∃ p, s.sessions[x.session]? = some p ∧ s.LeavesAlone x.session p.remote p.handle ∧
      Leaves s (s.sent n false) x.session p.remote p.handle := by
  obtain ⟨p, mine, handle, remote⟩ := routed.waiting x (List.mem_of_getElem? found) waits
  refine ⟨p, mine, ?_⟩
  rw [handle, remote]
  exact ⟨alone rfl x found waits, sent_leaves found waits⟩

theorem Routed.step (routed : s.Routed) (alone : s.EndsAlone e) : (s.step e).Routed := by
  cases e with
  | time => exact routed.of_sessions rfl rfl rfl rfl rfl rfl
  | change c => exact routed.change alone
  | dial h =>
    obtain ⟨dials, connecting, eq⟩ := s.dial_eq h
    rw [State.step, eq]
    exact routed.of_sessions rfl rfl rfl rfl rfl rfl
  | task k answer =>
    obtain ⟨_, _, _, eq⟩ | ⟨d, client, remote, mine, phase, greeted⟩ := s.task_cases k answer
    · rw [State.step, eq]
      exact routed.of_sessions rfl rfl rfl rfl rfl rfl
    · rw [State.step, task_of_greeting mine phase greeted]
      have registered := routed.register client (alone d mine client remote phase greeted)
      exact registered.of_sessions rfl rfl rfl rfl rfl rfl
  | send h => exact routed.send h
  | sent n ok =>
    obtain eq | ⟨x, found, waits⟩ := s.sent_cases n ok
    · rwa [State.step, eq]
    · cases ok with
      | true =>
        rw [State.step, sent_ok found waits]
        refine routed.of_same rfl (fun _ => rfl) rfl (fun _ => rfl) (fun _ => rfl)
          (fun _ => Nat.le_refl _) fun y mem waits' => ?_
        obtain old | rfl := List.mem_or_eq_of_mem_set mem
        · exact old
        · cases waits'
      | false =>
        obtain ⟨p, mine, alone, leaves⟩ := routed.sent_failed alone found waits
        exact routed.leave mine alone leaves
  | runEnds i result =>
    obtain eq | ⟨p, mine, running⟩ := s.runEnds_cases i result
    · rwa [State.step, eq]
    · exact routed.leave mine (alone p mine running) (runEnds_leaves mine running result)
  | read i event =>
    refine routed.of_sessions (map_modify_of_same (fun p => ?_) _ _)
      (map_modify_of_same (fun p => ?_) _ _) rfl rfl rfl rfl
    all_goals
      split_ifs <;> rfl
  | forward i =>
    obtain eq | ⟨p, event, rest, mine, queue⟩ := s.forward_cases i
    · rwa [State.step, eq]
    · rw [State.step, forward_of_queued mine queue]
      exact routed.of_sessions (map_set_of_same mine rfl) (map_set_of_same mine rfl) rfl rfl rfl rfl

theorem routed_new : ({} : State).Routed := by
  refine ⟨fun a i => ?_, fun h i => ?_, fun h a active => ?_, by simp, by simp⟩
  · simp [latestAt]
  · have nowhere : ({} : State).leadsTo h = none := rfl
    simp [latestOf, nowhere]
  · cases active

theorem Routed.cleansOwn_step (routed : s.Routed) (alone : s.EndsAlone e) : s.CleansOwn e := by
  intro i ends
  cases e with
  | runEnds j result =>
    simp only [ends?] at ends
    split_ifs at ends with runs
    obtain rfl := Option.some_inj.mp ends
    obtain ⟨p, mine, running⟩ := (Option.any_eq_true _ _).mp runs
    exact routed.cleansOwn mine (alone p mine running) (runEnds_leaves mine running result)
  | sent n ok =>
    simp only [ends?] at ends
    split_ifs at ends with failed
    obtain ⟨x, found, rfl⟩ := Option.map_eq_some_iff.mp ends
    obtain ⟨found, waits⟩ := Option.filter_eq_some_iff.mp found
    have waits : x.done = false := by simpa using waits
    obtain rfl : ok = false := by simpa using failed
    obtain ⟨p, mine, alone, leaves⟩ := routed.sent_failed alone found waits
    exact routed.cleansOwn mine alone leaves
  | _ => cases ends

theorem Routed.apart_of_current (routed : s.Routed) {client : Option Nat} {remote : SocketAddr}
    (current : (s.register h client remote).Current) {g : ClientHandle} (other : g ≠ h)
    (last : s.latestOf g = some i) (mine : s.sessions[i]? = some p) (live : p.live = true) :
    p.remote ≠ remote := by
  intro here
  have old := lastIdx_lt last
  obtain ⟨a, active, entry⟩ := current g i
    (by rw [latestOf_register, if_neg fun own => other own.1, last])
    (by rw [live_register_old client remote old, live_of_mine mine, live])
  rw [activeAddr_register, if_neg other] at active
  obtain ⟨j, q, last', -, -, mine', -, rfl⟩ := routed.active active
  rw [last, Option.some_inj] at last'
  rw [← last', mine, Option.some_inj] at mine'
  rw [← mine', here, lookup_register, if_pos rfl, Option.some_inj] at entry
  exact Nat.ne_of_gt old entry

theorem Routed.endsAlone (routed : s.Routed) (current : (s.step e).Current)
    (cleans : s.CleansOwn e) : s.EndsAlone e := by
  cases e with
  | runEnds i result =>
    intro p mine running
    have mine : s.sessions[i]? = some p := mine
    obtain ⟨entries, addrs⟩ := cleans i (by simp [ends?, mine, running])
    exact routed.leavesAlone (runEnds_leaves mine running result) entries addrs
  | sent n ok =>
    rintro rfl x found waits
    have found : s.sends[n]? = some x := found
    obtain ⟨entries, addrs⟩ := cleans x.session (by simp [ends?, found, waits])
    exact routed.leavesAlone (sent_leaves found waits) entries addrs
  | task k answer =>
    intro d mine client remote phase greeted g other i p last at_ live
    rw [State.step, task_of_greeting mine phase greeted] at current
    have current : (s.register d.handle client remote).Current := current
    exact routed.apart_of_current current other last at_ live
  | change c =>
    have active := s.activeAddr_change c
    have client := s.client?_change c
    cases c with
    | setPort h port =>
      intro changes i p last mine live
      have last' : (s.change (.setPort h port)).latestOf h = some i := by
        rw [← last]
        exact latestOf_congr rfl (client h)
      obtain ⟨a, own, entry⟩ := current h i last' ((live_of_mine mine).trans live)
      obtain ⟨q, mine', here⟩ := latestAt_eq_some ((routed.peers a i).mp entry).1
      rw [mine, Option.some_inj] at mine'
      rw [State.step, active] at own
      dsimp only at own
      rw [if_pos ⟨rfl, changes⟩] at own
      obtain ⟨b, -, rfl⟩ := Option.map_eq_some_iff.mp own
      rw [mine', here]
    | setHostname h hostname =>
      intro changes i last
      by_contra live
      have last' : (s.change (.setHostname h hostname)).latestOf h = some i := by
        rw [← last]
        exact latestOf_congr rfl (client h)
      have live : s.live i = true := by simpa using live
      obtain ⟨a, own, -⟩ := current h i last' live
      rw [State.step, active] at own
      dsimp only at own
      rw [if_pos ⟨rfl, changes⟩] at own
      cases own
    | _ => trivial
  | _ => trivial

end State

open State

/-- Over a whole run a client's last session can be found while it is live, and every clean-up
removes only what refers to its own session, exactly when sessions end and move alone. -/
theorem sessions_current_iff (events : List Event) :
    Always State.step Current {} events ∧ AllMeet State.step CleansOwn {} events ↔
      AllMeet State.step EndsAlone {} events :=
  always_and_allMeet_iff Routed (fun _ _ routed alone => routed.step alone)
    (fun _ routed => routed.current) (fun _ _ routed alone => routed.cleansOwn_step alone)
    (fun _ _ routed current cleans => routed.endsAlone current cleans) routed_new events

/-- A second session is dialed to the address of the first. Then the supervisor of the first
ends. -/
theorem newer_session_lost :
    let client : ConfigClient := { ips := [.v4 #v[192, 168, 0, 2]], active := true }
    let a : SocketAddr := ⟨.v4 #v[192, 168, 0, 2], 2268⟩
    let before : List Event := [.change (.addWithConfig client), .dial 0, .task 0 none,
      .task 0 (some 0), .task 0 (some 0), .dial 0, .task 1 none, .task 1 (some 0), .task 1 (some 0)]
    let s := run State.step {} before
    let s' := s.step (.runEnds 0 (.handshake (.applicationClosed 0)))
    s.clients.activeAddr 0 = some a ∧ s.peers.lookup a = some 1 ∧
      s'.latestOf 0 = some 1 ∧ s'.live 1 = true ∧
      s'.clients.activeAddr 0 = none ∧ s'.peers.lookup a = none := by
  decide +kernel

end LanMouse.Connect
