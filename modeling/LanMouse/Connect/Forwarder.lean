import LanMouse.Connect.Dialer

/-!
# Control events and the handles they are delivered under

The task that dialed a session knows the handle, but the forwarder it starts looks for a client by
the remote address each time it takes an event. It finds the first active client that has the IP.
The capture task gets the events of a session under the session's own handle exactly as long as that
search ends at the client under this handle.
-/
namespace LanMouse.Connect

open Proto Client Transition Directory

namespace State

variable {s s' : State} {i : Nat} {p : Session}

/-- What the capture task got from a session, in order. -/
def deliveries (s : State) (i : Nat) : List (ClientHandle × ProtoEvent) :=
  (s.delivered.filter (·.session = i)).map fun d => (d.handle, d.event)

/-- The forwarder has taken the events of a session in order, up to those that wait for it, and each
of them was delivered under the handle the session was dialed for. -/
def Tagged (s : State) : Prop :=
  ∀ i p, s.sessions[i]? = some p → s.deliveries i = p.forwarded.map (p.handle, ·) ∧
    p.received = p.forwarded ++ p.outgoing

/-- The forwarder takes an event only while the client under the session's handle is active, has the
remote IP, and is the first of the clients to do so. -/
def FindsOwn (s : State) : Event → Prop
  | .forward i => ∀ p ∈ s.sessions[i]?, p.outgoing ≠ [] →
    s.clients.serves p.handle p.remote.ip = true ∧
      ∀ g < p.handle, s.clients.serves g p.remote.ip = false
  | _ => True

/-- Deliveries come from sessions that exist. -/
structure Forwarding (s : State) : Prop where
  tagged : s.Tagged
  known : ∀ d ∈ s.delivered, d.session < s.sessions.length

theorem Forwarding.of_same (forwarding : s.Forwarding) (delivered : s'.delivered = s.delivered)
    (sessions : s'.sessions.map
        (fun p => (p.handle, p.forwarded, p.received = p.forwarded ++ p.outgoing)) =
      s.sessions.map fun p => (p.handle, p.forwarded, p.received = p.forwarded ++ p.outgoing)) :
    s'.Forwarding := by
  refine ⟨fun i p mine => ?_, fun d mem => ?_⟩
  · obtain ⟨p', mine', same⟩ := exists_getElem?_of_map_eq sessions.symm mine
    simp only [Prod.mk.injEq] at same
    obtain ⟨handle, forwarded, kept⟩ := same
    have tagged := forwarding.tagged i p' mine'
    rw [kept, handle, forwarded] at tagged
    rwa [deliveries, delivered]
  · have length := congrArg List.length sessions
    rw [List.length_map, List.length_map] at length
    rw [length]
    exact forwarding.known d (delivered ▸ mem)

theorem Forwarding.register (forwarding : s.Forwarding) (h : ClientHandle) (client : Option Nat)
    (remote : SocketAddr) : (s.register h client remote).Forwarding := by
  refine ⟨fun i p mine => ?_, fun d mem => ?_⟩
  · obtain old | ⟨rfl, rfl⟩ := getElem?_concat_eq_some.mp mine
    · exact forwarding.tagged i p old
    · have fresh : s.deliveries s.sessions.length = [] := by
        simp only [deliveries, List.map_eq_nil_iff, List.filter_eq_nil_iff, decide_eq_true_eq]
        exact fun d mem same => Nat.ne_of_lt (forwarding.known d mem) same
      exact ⟨fresh, rfl⟩
  · exact Nat.lt_of_lt_of_le (forwarding.known d mem) (by simp [State.register])

/-- The forwarder takes one event, and delivers at most that one. -/
theorem deliveries_forward {event : ProtoEvent} {rest : List ProtoEvent}
    (mine : s.sessions[i]? = some p) (queue : p.outgoing = event :: rest) (j : Nat) :
    (s.forward i).deliveries j = s.deliveries j ++
      if i = j then ((s.clients.getClient p.remote).map (·, event)).toList else [] := by
  rw [forward_of_queued mine queue]
  cases s.clients.getClient p.remote with
  | none => simp [deliveries]
  | some h => by_cases same : i = j <;> simp [deliveries, same]

theorem Forwarding.forward (forwarding : s.Forwarding) (own : s.FindsOwn (.forward i)) :
    (s.forward i).Forwarding := by
  obtain eq | ⟨p, event, rest, mine, queue⟩ := s.forward_cases i
  · rwa [eq]
  have found : s.clients.getClient p.remote = some p.handle :=
    ClientManager.getClient_eq_some_iff.mpr (own p mine (by simp [queue]))
  refine ⟨fun j q at_ => ?_, fun d mem => ?_⟩
  · rw [deliveries_forward mine queue, found]
    rw [forward_of_queued mine queue] at at_
    by_cases same : i = j
    · subst same
      obtain ⟨inside, -⟩ := List.getElem?_eq_some_iff.mp mine
      rw [List.getElem?_set_self inside, Option.some_inj] at at_
      obtain ⟨tagged, kept⟩ := forwarding.tagged i p mine
      rw [← at_, tagged, kept, queue]
      simp
    · rw [List.getElem?_set_ne same] at at_
      simpa [same] using forwarding.tagged j q at_
  · rw [forward_of_queued mine queue] at mem ⊢
    rw [List.length_set]
    obtain old | new := List.mem_append.mp mem
    · exact forwarding.known d old
    · rw [found] at new
      rw [List.mem_singleton.mp new]
      exact (List.getElem?_eq_some_iff.mp mine).1

theorem Forwarding.step (forwarding : s.Forwarding) {e : Event} (own : s.FindsOwn e) :
    (s.step e).Forwarding := by
  cases e with
  | time => exact forwarding.of_same rfl rfl
  | change c =>
    obtain ⟨clients, registrations, eq⟩ := s.change_eq c
    rw [State.step, eq]
    exact forwarding.of_same rfl rfl
  | dial h =>
    obtain ⟨dials, connecting, eq⟩ := s.dial_eq h
    rw [State.step, eq]
    exact forwarding.of_same rfl rfl
  | task k answer =>
    obtain ⟨_, _, _, eq⟩ | ⟨d, client, remote, mine, phase, greeted⟩ := s.task_cases k answer
    · rw [State.step, eq]
      exact forwarding.of_same rfl rfl
    · rw [State.step, task_of_greeting mine phase greeted]
      exact (forwarding.register d.handle client remote).of_same rfl rfl
  | send h =>
    obtain ⟨addr, i, -, eq⟩ | ⟨-, eq⟩ := s.send_cases h
    · rw [State.step, eq]
      exact forwarding.of_same rfl rfl
    · obtain ⟨dials, connecting, eq'⟩ := s.dial_eq h
      rw [State.step, eq, eq']
      exact forwarding.of_same rfl rfl
  | sent n ok =>
    obtain eq | ⟨x, found, waits⟩ := s.sent_cases n ok
    · rwa [State.step, eq]
    · cases ok with
      | true =>
        rw [State.step, sent_ok found waits]
        exact forwarding.of_same rfl rfl
      | false =>
        rw [State.step, sent_failed found waits]
        refine forwarding.of_same rfl (map_modify_of_same ?_ _ _)
        exact fun _ => rfl
  | runEnds i result =>
    obtain eq | ⟨p, mine, running⟩ := s.runEnds_cases i result
    · rwa [State.step, eq]
    · obtain ⟨_, _, eq⟩ := runEnds_of_running mine running result
      rw [State.step, eq]
      exact forwarding.of_same rfl (map_set_of_same mine rfl)
  | read i event =>
    refine forwarding.of_same rfl (map_modify_of_same (fun p => ?_) _ _)
    split_ifs
    · simp [← List.append_assoc]
    · rfl
  | forward i => exact forwarding.forward own

theorem forwarding_new : ({} : State).Forwarding :=
  ⟨fun _ _ mine => (by cases mine), fun _ mem => (by cases mem)⟩

theorem findsOwn_of_tagged {e : Event} (forwarding : s.Forwarding) (tagged : (s.step e).Tagged) :
    s.FindsOwn e := by
  cases e with
  | forward i =>
    intro p mine some_
    have mine : s.sessions[i]? = some p := mine
    obtain ⟨event, rest, queue⟩ := List.exists_cons_of_ne_nil some_
    obtain ⟨inside, -⟩ := List.getElem?_eq_some_iff.mp mine
    have after := tagged i { p with forwarded := p.forwarded ++ [event], outgoing := rest } (by
      rw [State.step, forward_of_queued mine queue, List.getElem?_set_self inside])
    rw [State.step, deliveries_forward mine queue, (forwarding.tagged i p mine).1, if_pos rfl,
      List.map_append, List.append_cancel_left_eq] at after
    refine ClientManager.getClient_eq_some_iff.mp ?_
    cases found : s.clients.getClient p.remote with
    | none => simp [found] at after
    | some h => simpa [found] using after.1
  | _ => trivial

end State

open State

/-- The capture task gets what was read from each session, in order and under the handle the session
was dialed for, exactly when every search for the remote IP ends at that client. -/
theorem deliveries_tagged_iff (events : List Event) :
    Always State.step Tagged {} events ↔ AllMeet State.step FindsOwn {} events :=
  always_iff_allMeet Forwarding (fun _ _ forwarding own => forwarding.step own)
    (fun _ forwarding => forwarding.tagged)
    (fun _ _ forwarding tagged => findsOwn_of_tagged forwarding tagged) forwarding_new events

/-- Two active clients share an IP. The session dialed for the second delivers under the first. -/
theorem delivered_under_first :
    let client : ConfigClient := { ips := [.v4 #v[192, 168, 0, 2]], active := true }
    let events : List Event := [.change (.addWithConfig client), .change (.addWithConfig client),
      .dial 1, .task 0 none, .task 0 (some 0), .task 0 (some 0), .read 0 (.ack 7), .forward 0]
    let s := run State.step {} events
    s.sessions.map (fun p => (p.handle, p.forwarded)) = [(1, [.ack 7])] ∧
      s.deliveries 0 = [(0, .ack 7)] := by
  decide +kernel

end LanMouse.Connect
