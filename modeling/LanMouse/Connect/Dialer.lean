import LanMouse.Client.Manager
import LanMouse.Lib.Directory
import LanMouse.Lib.Transition

/-!
# The dialing side

`LanMouseConnection` dials the configured clients and sends to them. A dial is a task of its own: it
reads the client's addresses, races them, greets the peer that answered and then enters the session
in two tables, the session under the remote address in `peers` and the address under the handle in
the client manager. A supervisor runs each session, takes it out of both tables when it ends, and
may dial again. A forwarder passes on what was read from the control stream.

All of this runs on one thread; a step here is what happens between two points where a task waits.
The time is in milliseconds. Two things are kept that the source does not have: which client, of
those that had a handle one after another, a session was dialed and registered for, and which calls
of `send` found a session.
-/
namespace LanMouse.Connect

open Proto Client

def initialRetryBackoff : Nat := 500

def maxRetryBackoff : Nat := 4000

def wakeCloseCode : UInt32 := 0xCAFE

structure RetryState where
  nextAttemptAt : Nat
  backoff : Nat
  failureCount : UInt32
  deriving DecidableEq, Repr

/-- `quinn::ConnectionError`; an application's close carries its code. -/
inductive ConnectionError where
  | versionMismatch
  | transportError
  | connectionClosed
  | applicationClosed (code : UInt64)
  | reset
  | timedOut
  | locallyClosed
  | cidsExhausted
  deriving DecidableEq, Repr

def shouldRetryAfterClose : ConnectionError → Bool
  | .timedOut => true
  | .applicationClosed code => code.toUInt32 = wakeCloseCode
  | _ => false

/-- What `PeerSession::run` returns. -/
inductive RunResult where
  | ok
  | handshake (reason : ConnectionError)
  | other
  deriving DecidableEq, Repr

def RunResult.retries : RunResult → Bool
  | .handshake reason => shouldRetryAfterClose reason
  | _ => false

/-- Where a `connect_to_handle` task waits. `client` is the one it read the addresses of. -/
inductive DialPhase where
  | spawned
  | dialing (client : Option Nat) (addrs : List SocketAddr)
  | greeting (client : Option Nat) (remote : SocketAddr)
  | ended
  deriving DecidableEq, Repr

/-- A `connect_to_handle` task; `redial` if a supervisor has spawned it. -/
structure Dial where
  handle : ClientHandle
  redial : Bool
  phase : DialPhase := .spawned
  deriving DecidableEq, Repr

def Dial.inFlight (d : Dial) : Bool := d.phase ≠ .ended

/-- `failed` is set once a send over the session has failed. Of what was `received` on the control
stream, the forwarder has taken `forwarded`, and `outgoing` waits for it. -/
structure Session where
  handle : ClientHandle
  remote : SocketAddr
  dialedFor : Option Nat
  registeredFor : Option Nat
  running : Bool := true
  failed : Bool := false
  received : List ProtoEvent := []
  forwarded : List ProtoEvent := []
  outgoing : List ProtoEvent := []
  deriving DecidableEq, Repr

def Session.live (p : Session) : Bool := p.running && !p.failed

/-- A call of `send` that found a session and waits for `send_input`. -/
structure Sending where
  handle : ClientHandle
  client : Option Nat
  addr : SocketAddr
  session : Nat
  done : Bool := false
  deriving DecidableEq, Repr

/-- An event handed to the capture task, with the session it was read from. -/
structure Delivery where
  session : Nat
  handle : ClientHandle
  event : ProtoEvent
  deriving DecidableEq, Repr

/-- `registrations` are the handles of the clients in the order in which they were added. -/
structure State where
  clients : ClientManager := Slab.empty
  registrations : List ClientHandle := []
  peers : AList (fun _ : SocketAddr => Nat) := ∅
  connecting : List ClientHandle := []
  retryState : AList (fun _ : ClientHandle => RetryState) := ∅
  clock : Nat := 0
  dials : List Dial := []
  sessions : List Session := []
  sends : List Sending := []
  delivered : List Delivery := []

inductive ClientChange where
  | add
  | addWithConfig (cc : ConfigClient)
  | remove (h : ClientHandle)
  | setFixIps (h : ClientHandle) (ips : List IpAddr)
  | setDnsIps (h : ClientHandle) (ips : List IpAddr)
  | setHostname (h : ClientHandle) (hostname : Option String)
  | setPort (h : ClientHandle) (port : UInt16)
  | activate (h : ClientHandle)
  | deactivate (h : ClientHandle)

/-- `task` carries what the task was waiting for: which candidate answered, or that the peer took
the greeting, and `none` for a failure. -/
inductive Event where
  | change (c : ClientChange)
  | time (ms : Nat)
  | dial (h : ClientHandle)
  | task (k : Nat) (answer : Option Nat)
  | send (h : ClientHandle)
  | sent (n : Nat) (ok : Bool)
  | runEnds (i : Nat) (result : RunResult)
  | read (i : Nat) (event : ProtoEvent)
  | forward (i : Nat)

namespace State

/-- The client under a handle: how many clients had the handle, it included. -/
def client? (s : State) (h : ClientHandle) : Option Nat :=
  (s.clients.get? h).map fun _ => s.registrations.count h

def change (s : State) : ClientChange → State
  | .add =>
    let (h, clients) := ClientManager.addClient s.clients
    { s with clients, registrations := s.registrations ++ [h] }
  | .addWithConfig cc =>
    let (h, clients) := ClientManager.addWithConfig s.clients cc
    { s with clients, registrations := s.registrations ++ [h] }
  | .remove h => { s with clients := (s.clients.remove h).2 }
  | .setFixIps h ips => { s with clients := ClientManager.setFixIps s.clients h ips }
  | .setDnsIps h ips => { s with clients := ClientManager.setDnsIps s.clients h ips }
  | .setHostname h hostname =>
    { s with clients := (ClientManager.setHostname s.clients h hostname).2 }
  | .setPort h port => { s with clients := ClientManager.setPort s.clients h port }
  | .activate h => { s with clients := (ClientManager.activateClient s.clients h).2 }
  | .deactivate h => { s with clients := (ClientManager.deactivateClient s.clients h).2 }

/-- The backoff window of the last failure is still open. -/
def gated (s : State) (h : ClientHandle) : Bool :=
  (s.retryState.lookup h).any fun entry => s.clock < entry.nextAttemptAt

def recordRetryFailure (s : State) (h : ClientHandle) : State :=
  let entry := (s.retryState.lookup h).getD ⟨s.clock, initialRetryBackoff, 0⟩
  { s with
    retryState := s.retryState.insert h
      { nextAttemptAt := s.clock + entry.backoff
        backoff := min (entry.backoff * 2) maxRetryBackoff
        failureCount := if entry.failureCount = 0xFFFFFFFF then entry.failureCount
          else entry.failureCount + 1 } }

def spawn (s : State) (h : ClientHandle) (redial : Bool) : State :=
  { s with dials := s.dials ++ [{ handle := h, redial }] }

def dial (s : State) (h : ClientHandle) : State :=
  if s.gated h then s
  else if h ∈ s.connecting then s
  else { s with connecting := h :: s.connecting }.spawn h false

/-- The session that `send` finds for a handle. -/
def route? (s : State) (h : ClientHandle) : Option (SocketAddr × Nat) :=
  (s.clients.activeAddr h).bind fun addr => (s.peers.lookup addr).map (addr, ·)

/-- `send` up to where it waits. -/
def send (s : State) (h : ClientHandle) : State :=
  match s.route? h with
  | some (addr, i) =>
    { s with sends := s.sends ++ [{ handle := h, client := s.client? h, addr, session := i }] }
  | none => s.dial h

/-- Take a session out of both tables, by its address and its handle. -/
def cleanUp (s : State) (addr : SocketAddr) (h : ClientHandle) : State :=
  { s with
    peers := s.peers.erase addr
    clients := s.clients.setActiveAddr h none }

/-- `send` from where it waited. -/
def sent (s : State) (n : Nat) (ok : Bool) : State :=
  match s.sends[n]? with
  | none => s
  | some x =>
    if x.done then s
    else
      let s := { s with sends := s.sends.set n { x with done := true } }
      if ok then s
      else
        { s with
          sessions := s.sessions.modify x.session fun p => { p with failed := true } }.cleanUp
            x.addr x.handle

def setPhase (s : State) (k : Nat) (d : Dial) (phase : DialPhase) : State :=
  { s with dials := s.dials.set k { d with phase } }

/-- The task returns, and forgets its handle in `connecting`. -/
def endDial (s : State) (k : Nat) (d : Dial) : State :=
  { s.setPhase k d .ended with connecting := s.connecting.filter (· ≠ d.handle) }

def register (s : State) (h : ClientHandle) (client : Option Nat) (remote : SocketAddr) : State :=
  { s with
    clients := s.clients.setActiveAddr h (some remote)
    peers := s.peers.insert remote s.sessions.length
    retryState := s.retryState.erase h
    sessions := s.sessions ++
      [{ handle := h, remote, dialedFor := client, registeredFor := s.client? h }] }

/-- One turn of a `connect_to_handle` task. -/
def task (s : State) (k : Nat) (answer : Option Nat) : State :=
  match s.dials[k]? with
  | none => s
  | some d =>
    match d.phase with
    | .spawned =>
      match s.clients.getIps d.handle with
      | none => s.endDial k d
      | some ips =>
        let port := (s.clients.getPort d.handle).getD defaultPort
        if ips = [] then s.endDial k d
        else s.setPhase k d (.dialing (s.client? d.handle) (ips.map (⟨·, port⟩)))
    | .dialing client addrs =>
      match answer.bind (addrs[·]?) with
      | none => (s.recordRetryFailure d.handle).endDial k d
      | some remote => s.setPhase k d (.greeting client remote)
    | .greeting client remote =>
      match answer with
      | none => (s.recordRetryFailure d.handle).endDial k d
      | some _ => (s.register d.handle client remote).endDial k d
    | .ended => s

/-- The end of `spawn_peer_supervisor`, after `run` has returned. -/
def runEnds (s : State) (i : Nat) (result : RunResult) : State :=
  match s.sessions[i]? with
  | none => s
  | some p =>
    if !p.running then s
    else
      let s := { s with sessions := s.sessions.set i { p with running := false } }.cleanUp
        p.remote p.handle
      if result.retries then (s.recordRetryFailure p.handle).spawn p.handle true else s

/-- `run` pushes what it reads from the control stream. -/
def read (s : State) (i : Nat) (event : ProtoEvent) : State :=
  { s with sessions := s.sessions.modify i fun p =>
      if p.running then
        { p with received := p.received ++ [event], outgoing := p.outgoing ++ [event] }
      else p }

/-- One turn of the forwarder, which looks the handle up by the remote address. -/
def forward (s : State) (i : Nat) : State :=
  match s.sessions[i]? with
  | none => s
  | some p =>
    match p.outgoing with
    | [] => s
    | event :: rest =>
      let p := { p with forwarded := p.forwarded ++ [event], outgoing := rest }
      let s := { s with sessions := s.sessions.set i p }
      match s.clients.getClient p.remote with
      | some handle => { s with delivered := s.delivered ++ [{ session := i, handle, event }] }
      | none => s

def step (s : State) : Event → State
  | .change c => s.change c
  | .time ms => { s with clock := s.clock + ms }
  | .dial h => s.dial h
  | .task k answer => s.task k answer
  | .send h => s.send h
  | .sent n ok => s.sent n ok
  | .runEnds i result => s.runEnds i result
  | .read i event => s.read i event
  | .forward i => s.forward i

/-! ### What a step does -/

variable (s : State)

theorem change_eq (c : ClientChange) :
    ∃ clients registrations, s.change c = { s with clients, registrations } := by
  cases c <;> exact ⟨_, _, rfl⟩

@[simp] theorem sessions_change (c : ClientChange) : (s.change c).sessions = s.sessions := by
  cases c <;> rfl

@[simp] theorem peers_change (c : ClientChange) : (s.change c).peers = s.peers := by
  cases c <;> rfl

@[simp] theorem sends_change (c : ClientChange) : (s.change c).sends = s.sends := by
  cases c <;> rfl

theorem registrations_change (c : ClientChange) :
    (s.change c).registrations =
      match c with
      | .add | .addWithConfig _ => s.registrations ++ [(ClientManager.addClient s.clients).1]
      | _ => s.registrations := by
  cases c <;> rfl

theorem activeAddr_change (c : ClientChange) (j : ClientHandle) :
    (s.change c).clients.activeAddr j =
      match c with
      | .remove h => if j = h then none else s.clients.activeAddr j
      | .setHostname h hostname =>
        if j = h ∧ s.clients.changesHostname h hostname then none else s.clients.activeAddr j
      | .setPort h port =>
        if j = h ∧ s.clients.changesPort h port then
          (s.clients.activeAddr j).map fun a => ⟨a.ip, port⟩
        else s.clients.activeAddr j
      | _ => s.clients.activeAddr j := by
  cases c with
  | add =>
    obtain ⟨fresh, get⟩ := ClientManager.get?_addClient s.clients
    exact congrFun (ClientManager.activeAddr_of_get? fresh get rfl) j
  | addWithConfig cc =>
    obtain ⟨fresh, get⟩ := ClientManager.get?_addWithConfig s.clients cc
    exact congrFun (ClientManager.activeAddr_of_get? fresh get rfl) j
  | remove h => exact ClientManager.activeAddr_remove s.clients h j
  | setFixIps h ips => exact congrFun (ClientManager.activeAddr_setFixIps s.clients h ips) j
  | setDnsIps h ips => exact congrFun (ClientManager.activeAddr_setDnsIps s.clients h ips) j
  | setHostname h hostname => exact ClientManager.activeAddr_setHostname s.clients h hostname j
  | setPort h port => exact ClientManager.activeAddr_setPort s.clients h port j
  | activate h =>
    simp only [change, ClientManager.activateClient_eq]
    split_ifs
    · exact congrFun (ClientManager.activeAddr_setActive s.clients h true) j
    · rfl
  | deactivate h =>
    simp only [change, ClientManager.deactivateClient_eq]
    split_ifs
    · exact congrFun (ClientManager.activeAddr_setActive s.clients h false) j
    · rfl

theorem client?_congr {s s' : State} {j : ClientHandle}
    (registered : (s'.clients.get? j).isSome = (s.clients.get? j).isSome)
    (count : s'.registrations.count j = s.registrations.count j) : s'.client? j = s.client? j := by
  unfold client?
  rw [count]
  cases before : s.clients.get? j with
  | none =>
    rw [before, Option.isSome_none, Option.isSome_eq_false_iff, Option.isNone_iff_eq_none]
      at registered
    rw [registered]
  | some c =>
    rw [before] at registered
    obtain ⟨c', after⟩ := Option.isSome_iff_exists.mp registered
    rw [after]
    rfl

theorem client?_of_get? {s s' : State} {h : ClientHandle} {c : ClientConfig × ClientState}
    (get : ∀ j, s'.clients.get? j = if j = h then some c else s.clients.get? j)
    (registrations : s'.registrations = s.registrations ++ [h]) (j : ClientHandle) :
    s'.client? j = if j = h then some (s.registrations.count j + 1) else s.client? j := by
  unfold client?
  rw [get, registrations, List.count_append]
  by_cases own : j = h
  · simp [own]
  · simp [own, Ne.symm own]

theorem client?_change (c : ClientChange) (j : ClientHandle) :
    (s.change c).client? j =
      match c with
      | .add | .addWithConfig _ =>
        if j = (ClientManager.addClient s.clients).1 then some (s.registrations.count j + 1)
        else s.client? j
      | .remove h => if j = h then none else s.client? j
      | _ => s.client? j := by
  cases c with
  | add => exact client?_of_get? (ClientManager.get?_addClient s.clients).2 rfl j
  | addWithConfig cc =>
    exact client?_of_get? (ClientManager.get?_addWithConfig s.clients cc).2 rfl j
  | remove h =>
    simp only [change, client?, Slab.get?_remove]
    split_ifs <;> rfl
  | setFixIps h ips | setDnsIps h ips =>
    refine client?_congr ?_ rfl
    exact (Slab.isSome_get?_modify _ h _ j).trans (Slab.isSome_get?_modify _ h _ j)
  | setHostname h hostname =>
    refine client?_congr ?_ rfl
    simp only [change, ClientManager.setHostname]
    split
    · rfl
    · split_ifs
      · exact (Slab.isSome_get?_modify _ h _ j).trans (Slab.isSome_get?_modify _ h _ j)
      · rfl
  | setPort h port =>
    refine client?_congr ?_ rfl
    simp only [change, ClientManager.setPort]
    split
    · split_ifs
      · exact Slab.isSome_get?_modify _ h _ j
      · rfl
    · rfl
  | activate h =>
    refine client?_congr ?_ rfl
    simp only [change, ClientManager.activateClient_eq]
    split_ifs
    · exact Slab.isSome_get?_modify _ h _ j
    · rfl
  | deactivate h =>
    refine client?_congr ?_ rfl
    simp only [change, ClientManager.deactivateClient_eq]
    split_ifs
    · exact Slab.isSome_get?_modify _ h _ j
    · rfl

theorem dial_eq (h : ClientHandle) :
    ∃ dials connecting, s.dial h = { s with dials, connecting } := by
  unfold dial
  split_ifs <;> exact ⟨_, _, rfl⟩

theorem route?_eq_some {s : State} {h : ClientHandle} {addr : SocketAddr} {i : Nat} :
    s.route? h = some (addr, i) ↔
    s.clients.activeAddr h = some addr ∧ s.peers.lookup addr = some i := by
  simp only [route?, Option.bind_eq_some_iff, Option.map_eq_some_iff, Prod.mk.injEq]
  constructor
  · rintro ⟨a, active, j, entry, rfl, rfl⟩
    exact ⟨active, entry⟩
  · rintro ⟨active, entry⟩
    exact ⟨addr, active, i, entry, rfl, rfl⟩

theorem send_cases (h : ClientHandle) :
    (∃ addr i, s.route? h = some (addr, i) ∧
      s.send h = { s with sends := s.sends ++ [⟨h, s.client? h, addr, i, false⟩] }) ∨
    s.route? h = none ∧ s.send h = s.dial h := by
  unfold send
  cases found : s.route? h with
  | some route => exact .inl ⟨route.1, route.2, rfl, rfl⟩
  | none => exact .inr ⟨rfl, rfl⟩

theorem sent_ok {s : State} {n : Nat} {x : Sending} (found : s.sends[n]? = some x)
    (waits : x.done = false) :
    s.sent n true = { s with sends := s.sends.set n { x with done := true } } := by
  simp [sent, found, waits]

theorem sent_failed {s : State} {n : Nat} {x : Sending} (found : s.sends[n]? = some x)
    (waits : x.done = false) :
    s.sent n false =
      { s.cleanUp x.addr x.handle with
        sends := s.sends.set n { x with done := true }
        sessions := s.sessions.modify x.session fun p => { p with failed := true } } := by
  simp [sent, found, waits, cleanUp]

theorem sent_cases (n : Nat) (ok : Bool) :
    s.sent n ok = s ∨ ∃ x, s.sends[n]? = some x ∧ x.done = false := by
  unfold sent
  cases found : s.sends[n]? with
  | none => exact .inl rfl
  | some x =>
    cases waits : x.done with
    | true => exact .inl (by simp [waits])
    | false => exact .inr ⟨x, rfl, waits⟩

theorem task_of_greeting {s : State} {k : Nat} {d : Dial} {client : Option Nat}
    {remote : SocketAddr} {answer : Option Nat} (mine : s.dials[k]? = some d)
    (phase : d.phase = .greeting client remote) (greeted : answer.isSome = true) :
    s.task k answer = (s.register d.handle client remote).endDial k d := by
  obtain ⟨n, rfl⟩ := Option.isSome_iff_exists.mp greeted
  simp only [task, mine, phase]

/-- A task that does not register a session touches neither of the two tables. -/
theorem task_cases (k : Nat) (answer : Option Nat) :
    (∃ dials connecting retryState,
      s.task k answer = { s with dials, connecting, retryState }) ∨
    ∃ d client remote, s.dials[k]? = some d ∧ d.phase = .greeting client remote ∧
      answer.isSome = true := by
  unfold task
  cases mine : s.dials[k]? with
  | none => exact .inl ⟨_, _, _, rfl⟩
  | some d =>
    dsimp only
    cases phase : d.phase with
    | spawned =>
      dsimp only
      split
      · exact .inl ⟨_, _, _, rfl⟩
      · split_ifs <;> exact .inl ⟨_, _, _, rfl⟩
    | dialing client addrs =>
      dsimp only
      split <;> exact .inl ⟨_, _, _, rfl⟩
    | greeting client remote =>
      cases answer with
      | none => exact .inl ⟨_, _, _, rfl⟩
      | some n => exact .inr ⟨d, client, remote, rfl, phase, rfl⟩
    | ended => exact .inl ⟨_, _, _, rfl⟩

theorem runEnds_of_running {s : State} {i : Nat} {p : Session} (mine : s.sessions[i]? = some p)
    (running : p.running = true) (result : RunResult) : ∃ dials retryState,
      s.runEnds i result =
        { s.cleanUp p.remote p.handle with
          sessions := s.sessions.set i { p with running := false }
          dials, retryState } := by
  simp only [runEnds, mine, running, Bool.not_true, Bool.false_eq_true, if_false]
  split_ifs <;> exact ⟨_, _, rfl⟩

theorem runEnds_cases (i : Nat) (result : RunResult) :
    s.runEnds i result = s ∨ ∃ p, s.sessions[i]? = some p ∧ p.running = true := by
  unfold runEnds
  cases found : s.sessions[i]? with
  | none => exact .inl rfl
  | some p =>
    cases running : p.running with
    | false => exact .inl (by simp [running])
    | true => exact .inr ⟨p, rfl, running⟩

theorem forward_of_queued {s : State} {i : Nat} {p : Session} {event : ProtoEvent}
    {rest : List ProtoEvent} (mine : s.sessions[i]? = some p) (queue : p.outgoing = event :: rest) :
    s.forward i =
      { s with
        sessions := s.sessions.set i
          { p with forwarded := p.forwarded ++ [event], outgoing := rest }
        delivered := s.delivered ++
          ((s.clients.getClient p.remote).map (⟨i, ·, event⟩)).toList } := by
  simp only [forward, mine, queue]
  cases s.clients.getClient p.remote with
  | none => simp
  | some handle => rfl

theorem forward_cases (i : Nat) :
    s.forward i = s ∨
      ∃ p event rest, s.sessions[i]? = some p ∧ p.outgoing = event :: rest := by
  unfold forward
  cases found : s.sessions[i]? with
  | none => exact .inl rfl
  | some p =>
    dsimp only
    cases queue : p.outgoing with
    | nil => exact .inl rfl
    | cons event rest => exact .inr ⟨p, event, rest, rfl, queue⟩

theorem client?_cleanUp (addr : SocketAddr) (h j : ClientHandle) :
    (s.cleanUp addr h).client? j = s.client? j :=
  client?_congr (Slab.isSome_get?_modify _ h _ j) rfl

theorem client?_register (h : ClientHandle) (client : Option Nat) (remote : SocketAddr)
    (j : ClientHandle) : (s.register h client remote).client? j = s.client? j :=
  client?_congr (Slab.isSome_get?_modify _ h _ j) rfl

theorem activeAddr_cleanUp (addr : SocketAddr) (h j : ClientHandle) :
    (s.cleanUp addr h).clients.activeAddr j = if j = h then none else s.clients.activeAddr j := by
  refine (ClientManager.activeAddr_setActiveAddr s.clients h none j).trans ?_
  split_ifs
  · exact Option.bind_fun_none _
  · rfl

theorem lookup_cleanUp (addr : SocketAddr) (h : ClientHandle) (a : SocketAddr) :
    (s.cleanUp addr h).peers.lookup a = if a = addr then none else s.peers.lookup a := by
  split_ifs with same
  · rw [same]
    exact AList.lookup_erase addr s.peers
  · exact AList.lookup_erase_ne same

theorem activeAddr_register (h : ClientHandle) (client : Option Nat) (remote : SocketAddr)
    (j : ClientHandle) :
    (s.register h client remote).clients.activeAddr j =
      if j = h then (s.client? h).map fun _ => remote else s.clients.activeAddr j := by
  refine (ClientManager.activeAddr_setActiveAddr s.clients h (some remote) j).trans ?_
  split_ifs with own
  · rw [own, client?, Option.map_map]
    cases s.clients.get? h <;> rfl
  · rfl

theorem lookup_register (h : ClientHandle) (client : Option Nat) (remote : SocketAddr)
    (a : SocketAddr) : (s.register h client remote).peers.lookup a =
      if a = remote then some s.sessions.length else s.peers.lookup a := by
  split_ifs with same
  · rw [same]
    exact AList.lookup_insert s.peers
  · exact AList.lookup_insert_ne same

end State

end LanMouse.Connect
