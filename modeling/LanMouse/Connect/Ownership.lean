import LanMouse.Connect.Dialer

/-!
# Whose session a send uses

The slab hands out the handle of a removed client again, and neither the dials in flight nor the
table of sessions notice. `send` goes from the handle to the active address and from there to the
session. It uses only sessions dialed for the client that has the handle now exactly as long as two
things hold. A dial ends while the client it was made for is still there, at an address that no
other client has as its active one. And a new port leads a client to no session of another.
-/
namespace LanMouse.Connect

open Proto Client Transition Directory

namespace State

variable {s s' : State} {h : ClientHandle} {i : Nat} {addr : SocketAddr}

/-- Session `i` was dialed for the client that has the handle `h` now. -/
def DialedFor (s : State) (i : Nat) (h : ClientHandle) : Prop :=
  s.sessions[i]?.map (fun p => (p.handle, p.dialedFor)) = some (h, s.client? h)

/-- A `send` now would use a session that was dialed for the client it is for. -/
def SendsOwn (s : State) : Prop := ∀ h addr i, s.route? h = some (addr, i) → s.DialedFor i h

def RegistersOwn (s : State) : Event → Prop
  | .task k answer => ∀ d ∈ s.dials[k]?, ∀ client remote, d.phase = .greeting client remote →
    answer.isSome → ((s.client? d.handle).isSome → client = s.client? d.handle) ∧
      ∀ h ≠ d.handle, s.clients.activeAddr h ≠ some remote
  | .change (.setPort h port) => s.clients.changesPort h port → ∀ a i,
    s.clients.activeAddr h = some a → s.peers.lookup ⟨a.ip, port⟩ = some i → s.DialedFor i h
  | _ => True

theorem DialedFor.of_same (dialed : s.DialedFor i h)
    (sessions : s'.sessions.map (fun p => (p.handle, p.dialedFor)) =
      s.sessions.map fun p => (p.handle, p.dialedFor))
    (client : s'.client? h = s.client? h) : s'.DialedFor i h := by
  unfold DialedFor at *
  rw [← List.getElem?_map, sessions, client, List.getElem?_map]
  exact dialed

theorem SendsOwn.of_same (own : s.SendsOwn)
    (sessions : s'.sessions.map (fun p => (p.handle, p.dialedFor)) =
      s.sessions.map fun p => (p.handle, p.dialedFor))
    (routes : ∀ h addr i, s'.route? h = some (addr, i) →
      s.route? h = some (addr, i) ∧ s'.client? h = s.client? h) : s'.SendsOwn := by
  intro h addr i routed
  obtain ⟨before, client⟩ := routes h addr i routed
  exact (own h addr i before).of_same sessions client

theorem SendsOwn.cleanUp (own : s.SendsOwn) (addr : SocketAddr) (h : ClientHandle) :
    (s.cleanUp addr h).SendsOwn := by
  refine own.of_same rfl fun j a i routed => ⟨?_, s.client?_cleanUp addr h j⟩
  obtain ⟨active, entry⟩ := route?_eq_some.mp routed
  rw [activeAddr_cleanUp] at active
  rw [lookup_cleanUp] at entry
  split_ifs at active entry
  exact route?_eq_some.mpr ⟨active, entry⟩

theorem SendsOwn.register (own : s.SendsOwn) {client : Option Nat} {remote : SocketAddr}
    (current : (s.client? h).isSome → client = s.client? h)
    (apart : ∀ j ≠ h, s.clients.activeAddr j ≠ some remote) :
    (s.register h client remote).SendsOwn := by
  intro j addr i routed
  obtain ⟨active, entry⟩ := route?_eq_some.mp routed
  rw [activeAddr_register] at active
  rw [lookup_register] at entry
  unfold DialedFor
  rw [client?_register]
  split_ifs at active with same
  · obtain ⟨n, registered, rfl⟩ := Option.map_eq_some_iff.mp active
    rw [if_pos rfl, Option.some_inj] at entry
    have own' : client = s.client? h := current (by simp [registered])
    simp [State.register, ← entry, same, own']
  · have elsewhere : addr ≠ remote := fun at_ => apart j same (at_ ▸ active)
    rw [if_neg elsewhere] at entry
    have dialed := own j addr i (route?_eq_some.mpr ⟨active, entry⟩)
    obtain ⟨p, mine, tag⟩ := Option.map_eq_some_iff.mp dialed
    have kept : (s.register h client remote).sessions[i]? = some p :=
      getElem?_concat_eq_some.mpr (.inl mine)
    rw [kept]
    exact congrArg some tag

theorem SendsOwn.change (own : s.SendsOwn) {c : ClientChange}
    (registers : s.RegistersOwn (.change c)) : (s.change c).SendsOwn := by
  have sessions := s.sessions_change c
  intro j addr i routed
  obtain ⟨active, entry⟩ := route?_eq_some.mp routed
  rw [peers_change] at entry
  have before : s.clients.activeAddr j = some addr → s.DialedFor i j :=
    fun active => own j addr i (route?_eq_some.mpr ⟨active, entry⟩)
  have client := s.client?_change c j
  rw [activeAddr_change] at active
  cases c with
  | add | addWithConfig cc =>
    have fresh := (ClientManager.get?_addClient s.clients).1
    have old : j ≠ (ClientManager.addClient s.clients).1 := by
      rintro rfl
      simp [ClientManager.activeAddr, fresh] at active
    exact (before active).of_same (congrArg _ sessions) (client.trans (if_neg old))
  | remove h =>
    dsimp only at active client
    split_ifs at active client
    exact (before active).of_same (congrArg _ sessions) client
  | setHostname h hostname =>
    dsimp only at active
    split_ifs at active
    exact (before active).of_same (congrArg _ sessions) client
  | setPort h port =>
    dsimp only at active
    split_ifs at active with moved
    · obtain ⟨a, from_, rfl⟩ := Option.map_eq_some_iff.mp active
      obtain ⟨rfl, changes⟩ := moved
      exact (registers changes a i from_ entry).of_same (congrArg _ sessions) client
    · exact (before active).of_same (congrArg _ sessions) client
  | setFixIps | setDnsIps | activate | deactivate =>
    exact (before active).of_same (congrArg _ sessions) client

theorem SendsOwn.step (own : s.SendsOwn) {e : Event} (registers : s.RegistersOwn e) :
    (s.step e).SendsOwn := by
  have same : ∀ {h addr i}, s.route? h = some (addr, i) →
      s.route? h = some (addr, i) ∧ s.client? h = s.client? h := fun routed => ⟨routed, rfl⟩
  cases e with
  | time => exact own.of_same rfl fun _ _ _ => same
  | change c => exact own.change registers
  | dial h =>
    obtain ⟨dials, connecting, eq⟩ := s.dial_eq h
    rw [State.step, eq]
    exact own.of_same rfl fun _ _ _ => same
  | task k answer =>
    obtain ⟨_, _, _, eq⟩ | ⟨d, client, remote, mine, phase, greeted⟩ := s.task_cases k answer
    · rw [State.step, eq]
      exact own.of_same rfl fun _ _ _ => same
    · obtain ⟨current, apart⟩ := registers d mine client remote phase greeted
      rw [State.step, task_of_greeting mine phase greeted]
      exact (own.register current apart).of_same rfl fun _ _ _ routed => ⟨routed, rfl⟩
  | send h =>
    obtain ⟨addr, i, -, eq⟩ | ⟨-, eq⟩ := s.send_cases h
    · rw [State.step, eq]
      exact own.of_same rfl fun _ _ _ => same
    · obtain ⟨dials, connecting, eq'⟩ := s.dial_eq h
      rw [State.step, eq, eq']
      exact own.of_same rfl fun _ _ _ => same
  | sent n ok =>
    obtain eq | ⟨x, found, waits⟩ := s.sent_cases n ok
    · rwa [State.step, eq]
    · cases ok with
      | true =>
        rw [State.step, sent_ok found waits]
        exact own.of_same rfl fun _ _ _ => same
      | false =>
        rw [State.step, sent_failed found waits]
        refine (own.cleanUp x.addr x.handle).of_same (map_modify_of_same ?_ _ _)
          fun _ _ _ routed => ⟨routed, rfl⟩
        exact fun _ => rfl
  | runEnds i result =>
    obtain eq | ⟨p, mine, running⟩ := s.runEnds_cases i result
    · rwa [State.step, eq]
    · obtain ⟨_, _, eq⟩ := runEnds_of_running mine running result
      rw [State.step, eq]
      exact (own.cleanUp p.remote p.handle).of_same (map_set_of_same mine rfl)
        fun _ _ _ routed => ⟨routed, rfl⟩
  | read i event =>
    refine own.of_same (map_modify_of_same (fun p => ?_) _ _) fun _ _ _ => same
    split_ifs <;> rfl
  | forward i =>
    obtain eq | ⟨p, event, rest, mine, queue⟩ := s.forward_cases i
    · rwa [State.step, eq]
    · rw [State.step, forward_of_queued mine queue]
      exact own.of_same (map_set_of_same mine rfl) fun _ _ _ => same

theorem sendsOwn_new : ({} : State).SendsOwn := by
  intro h addr i routed
  cases routed

theorem registersOwn_of_sendsOwn {e : Event} (own : (s.step e).SendsOwn) :
    s.RegistersOwn e := by
  cases e with
  | task k answer =>
    intro d mine client remote phase greeted
    have mine : s.dials[k]? = some d := mine
    rw [State.step, task_of_greeting mine phase greeted] at own
    have own : (s.register d.handle client remote).SendsOwn :=
      own.of_same rfl fun _ _ _ routed => ⟨routed, rfl⟩
    have entry : (s.register d.handle client remote).peers.lookup remote =
        some s.sessions.length := by rw [lookup_register, if_pos rfl]
    have dialed : ∀ j, (s.register d.handle client remote).clients.activeAddr j = some remote →
        (d.handle, client) = (j, s.client? j) := by
      intro j active
      have dialed := own j remote _ (route?_eq_some.mpr ⟨active, entry⟩)
      rw [DialedFor, client?_register] at dialed
      simpa [State.register] using dialed
    refine ⟨fun registered => ?_, fun j other active => ?_⟩
    · obtain ⟨n, registered⟩ := Option.isSome_iff_exists.mp registered
      have active : (s.register d.handle client remote).clients.activeAddr d.handle =
          some remote := by rw [activeAddr_register, if_pos rfl, registered, Option.map_some]
      exact (Prod.mk.inj (dialed _ active)).2
    · have active' : (s.register d.handle client remote).clients.activeAddr j = some remote := by
        rw [activeAddr_register, if_neg other, active]
      exact other (Prod.mk.inj (dialed j active')).1.symm
  | change c =>
    cases c with
    | setPort h port =>
      intro changes a i active entry
      have active' : (s.change (.setPort h port)).clients.activeAddr h = some ⟨a.ip, port⟩ := by
        rw [activeAddr_change]
        simp [changes, active]
      have dialed := own h ⟨a.ip, port⟩ i (route?_eq_some.mpr ⟨active', entry⟩)
      exact dialed.of_same rfl (s.client?_change (.setPort h port) h).symm
    | _ => trivial
  | _ => trivial

end State

open State

/-- Over a whole run a send uses only sessions dialed for the client it is for, exactly when every
dial ends for the client it was made for and no two clients meet at one address. -/
theorem sends_own_session_iff (events : List Event) :
    Always State.step SendsOwn {} events ↔ AllMeet State.step RegistersOwn {} events :=
  always_iff_allMeet SendsOwn (fun _ _ own registers => own.step registers) (fun _ own => own)
    (fun _ _ _ own => registersOwn_of_sendsOwn own) sendsOwn_new events

/-- The client is removed while its dial waits for the greeting. The next one gets its handle. -/
theorem sent_over_earlier_client :
    let client : ConfigClient := { ips := [.v4 #v[192, 168, 0, 2]], active := true }
    let next : ConfigClient := { ips := [.v4 #v[192, 168, 0, 3]], active := true }
    let events : List Event := [.change (.addWithConfig client), .dial 0, .task 0 none,
      .task 0 (some 0), .change (.remove 0), .change (.addWithConfig next), .task 0 (some 0),
      .send 0]
    let s := run State.step {} events
    s.client? 0 = some 2 ∧
      s.sends.map (fun x => (x.handle, x.client, x.session)) = [(0, some 2, 0)] ∧
      s.sessions.map (fun p => (p.handle, p.dialedFor)) = [(0, some 1)] := by
  decide +kernel

end LanMouse.Connect
