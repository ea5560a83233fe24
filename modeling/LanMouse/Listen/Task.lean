import LanMouse.Client.Manager
import LanMouse.Tls.Pins
import LanMouse.Transport.Reader

/-!
# The listening side

A connection is let in by the TLS handshake, which looks its certificate's fingerprint up in the
authorized keys. Its supervisor announces it, reads the control stream and says when it is gone; the
readers of its other streams run beside the supervisor and can outlast it. What they all send is
handled by the one listen task, which also looks for peers that have fallen silent.

A read of the control stream is an event that carries its result. What a peer is answered is left
out; so is the shutdown of the listener. `Step` says what one event can do, `Handled` what the
listen task does with what it takes from its channel.
-/
namespace LanMouse.Listen

open Bytes Proto Client Transport Tls

abbrev AuthorizedKeys := AList (fun _ : String => String)

def verifyClientCert (sha256 : List UInt8 → Hash) (allowlist : AuthorizedKeys)
    (endEntity : List UInt8) : Except String Unit :=
  let fp := generateFingerprint sha256 endEntity
  if fp ∈ allowlist then .ok () else .error ("unauthorized peer " ++ fp)

/-- `conn` tells the connection that a message was read from or that is gone; the source has only
its address. -/
inductive ListenEvent where
  | msg (conn : Nat) (addr : SocketAddr) (event : ProtoEvent)
  | accept (addr : SocketAddr) (fingerprint : String)
  | rejected (fingerprint : String)
  | disconnected (conn : Nat) (addr : SocketAddr)
  deriving DecidableEq, Repr

/-- `conn` is the connection that a `Disconnected` is for: the one whose supervisor has said so, or
the one that the watchdog heard last from the address. -/
inductive EmulationEvent where
  | connected (addr : SocketAddr) (fingerprint : String)
  | connectionAttempt (fingerprint : String)
  | disconnected (conn : Nat) (addr : SocketAddr)
  | releaseNotify
  | entered (addr : SocketAddr) (pos : Position) (fingerprint : String)
  | peerHello (addr : SocketAddr) (commit : Vector UInt8 8)
  deriving DecidableEq, Repr

/-- What becomes of a connection: the handshake is done, the supervisor has exited without having
announced it, it has announced it, or it has exited after that. -/
inductive Phase where
  | handshaken
  | refused
  | accepted
  | exited
  deriving DecidableEq, Repr

structure Conn where
  addr : SocketAddr
  fingerprint : String
  phase : Phase := .handshaken
  deriving DecidableEq, Repr

/-- When a peer was heard last, and from which of its connections; the source has only the time. -/
structure Heard where
  time : Nat
  conn : Nat
  deriving DecidableEq, Repr

/-- Times are in milliseconds. `forwarded` is what was passed on to the emulation or to the
clipboard, with the connection it came from. `silenced` is not in the source: the connections that
the watchdog has reported. -/
structure State where
  authorizedKeys : AuthorizedKeys
  emulationActive : Bool := false
  clock : Nat := 0
  conns : List Conn := []
  queue : List ListenEvent := []
  lastResponse : AList (fun _ : SocketAddr => Heard) := ∅
  addrToFingerprint : AList (fun _ : SocketAddr => String) := ∅
  rejectedConnections : AList (fun _ : String => Nat) := ∅
  reports : List EmulationEvent := []
  forwarded : List (Nat × ProtoEvent) := []
  silenced : List Nat := []

inductive Event where
  | addAuthorizedKey (desc fp : String)
  | removeAuthorizedKey (fp : String)
  | configChange (authorizedFingerprints : AuthorizedKeys)
  | emulation (active : Bool)
  | time (ms : Nat)
  | handshake (addr : SocketAddr) (cert : List UInt8)
  | hello (i : Nat) (ok : Bool)
  | control (i : Nat) (read : Except (Fault Error) ProtoEvent)
  | reader (i : Nat) (event : ProtoEvent)
  | deliver
  | tick

namespace State

def setPhase (s : State) (i : Nat) (c : Conn) (phase : Phase) : State :=
  { s with conns := s.conns.set i { c with phase } }

def send (s : State) (e : ListenEvent) : State := { s with queue := s.queue ++ [e] }

def report (s : State) (e : EmulationEvent) : State := { s with reports := s.reports ++ [e] }

def forward (s : State) (conn : Nat) (event : ProtoEvent) : State :=
  { s with forwarded := s.forwarded ++ [(conn, event)] }

/-- One round of the read loop of `handle_quic_peer_supervisor`. -/
def superviseRead (s : State) (i : Nat) (c : Conn) : Except (Fault Error) ProtoEvent → State
  | .ok event => s.send (.msg i c.addr event)
  | .error (.err .truncated) => (s.setPhase i c .exited).send (.disconnected i c.addr)
  | .error (.err e) => if isDecodeError "decode frame" e then s else s.setPhase i c .exited
  | .error _ => s.setPhase i c .exited

/-- What the listen task does with a message, apart from answering it. -/
def handleMsg (s : State) (conn : Nat) (addr : SocketAddr) (event : ProtoEvent) : State :=
  let s := { s with lastResponse := s.lastResponse.insert addr ⟨s.clock, conn⟩ }
  match event with
  | .enter pos =>
    (s.report .releaseNotify).report
      (.entered addr pos ((s.addrToFingerprint.lookup addr).getD ""))
  | .input _ => if s.emulationActive then s.forward conn event else s
  | .hello _ commit => s.report (.peerHello addr commit)
  | .clipboardText _ | .clipboardImage _ | .clipboardFiles _ | .fileTransferCancel _ =>
    s.forward conn event
  | _ => s

def handle (s : State) : ListenEvent → State
  | .msg conn addr event => s.handleMsg conn addr event
  | .accept addr fingerprint =>
    { s with addrToFingerprint := s.addrToFingerprint.insert addr fingerprint }.report
      (.connected addr fingerprint)
  | .rejected fingerprint =>
    let recent := (s.rejectedConnections.lookup fingerprint).any fun t => s.clock - t < 2000
    let s := { s with rejectedConnections := s.rejectedConnections.insert fingerprint s.clock }
    if recent then s else s.report (.connectionAttempt fingerprint)
  | .disconnected conn addr =>
    { s with
      addrToFingerprint := s.addrToFingerprint.erase addr
      lastResponse := s.lastResponse.erase addr }.report (.disconnected conn addr)

/-- The addresses that have not been heard of for more than a second. -/
def stale (s : State) : List SocketAddr :=
  s.lastResponse.keys.filter fun addr =>
    (s.lastResponse.lookup addr).any fun heard => s.clock - heard.time > 1000

/-- The watchdog reports a stale address and forgets it. -/
def expire (s : State) (addr : SocketAddr) : State :=
  match s.lastResponse.lookup addr with
  | some heard =>
    { s with
      lastResponse := s.lastResponse.erase addr
      silenced := s.silenced ++ [heard.conn] }.report (.disconnected heard.conn addr)
  | none => s

def step (sha256 : List UInt8 → Hash) (s : State) : Event → State
  | .addAuthorizedKey desc fp => { s with authorizedKeys := s.authorizedKeys.insert fp desc }
  | .removeAuthorizedKey fp => { s with authorizedKeys := s.authorizedKeys.erase fp }
  | .configChange authorizedFingerprints => { s with authorizedKeys := authorizedFingerprints }
  | .emulation active => { s with emulationActive := active }
  | .time ms => { s with clock := s.clock + ms }
  | .handshake addr cert =>
    let fingerprint := generateFingerprint sha256 cert
    match verifyClientCert sha256 s.authorizedKeys cert with
    | .ok () => { s with conns := s.conns ++ [{ addr, fingerprint }] }
    | .error _ => s.send (.rejected fingerprint)
  | .hello i ok =>
    match s.conns[i]? with
    | some c =>
      if c.phase ≠ .handshaken then s
      else if ok then (s.setPhase i c .accepted).send (.accept c.addr c.fingerprint)
      else s.setPhase i c .refused
    | none => s
  | .control i read =>
    match s.conns[i]? with
    | some c => if c.phase = .accepted then s.superviseRead i c read else s
    | none => s
  | .reader i event =>
    match s.conns[i]? with
    | some c =>
      if c.phase = .accepted ∨ c.phase = .exited then s.send (.msg i c.addr event) else s
    | none => s
  | .deliver =>
    match s.queue with
    | e :: queue => { s with queue }.handle e
    | [] => s
  | .tick => s.stale.foldl expire s

end State

/-! ### What one event can do -/

/-- How the supervisor leaves its loop after a read. -/
inductive LoopExit where
  | announced
  | silent
  deriving DecidableEq, Repr

def loopExit : Except (Fault Error) ProtoEvent → Option LoopExit
  | .ok _ => none
  | .error (.err .truncated) => some .announced
  | .error (.err e) => if isDecodeError "decode frame" e then none else some .silent
  | .error _ => some .silent

inductive Step (sha256 : List UInt8 → Hash) (s : State) : Event → State → Prop where
  | idle (e : Event) : Step sha256 s e s
  | addKey (desc fp : String) : Step sha256 s (.addAuthorizedKey desc fp)
      { s with authorizedKeys := s.authorizedKeys.insert fp desc }
  | removeKey (fp : String) : Step sha256 s (.removeAuthorizedKey fp)
      { s with authorizedKeys := s.authorizedKeys.erase fp }
  | reload (keys : AuthorizedKeys) : Step sha256 s (.configChange keys)
      { s with authorizedKeys := keys }
  | emulation (active : Bool) : Step sha256 s (.emulation active)
      { s with emulationActive := active }
  | time (ms : Nat) : Step sha256 s (.time ms) { s with clock := s.clock + ms }
  | connect {addr : SocketAddr} {cert : List UInt8}
      (known : generateFingerprint sha256 cert ∈ s.authorizedKeys) :
      Step sha256 s (.handshake addr cert)
        { s with conns := s.conns ++ [{ addr, fingerprint := generateFingerprint sha256 cert }] }
  | reject (addr : SocketAddr) (cert : List UInt8) : Step sha256 s (.handshake addr cert)
      (s.send (.rejected (generateFingerprint sha256 cert)))
  | accept {i : Nat} {c : Conn} (found : s.conns[i]? = some c) (fresh : c.phase = .handshaken) :
      Step sha256 s (.hello i true)
        ((s.setPhase i c .accepted).send (.accept c.addr c.fingerprint))
  | refuse {i : Nat} {c : Conn} (found : s.conns[i]? = some c) (fresh : c.phase = .handshaken) :
      Step sha256 s (.hello i false) (s.setPhase i c .refused)
  | read {e : Event} {i : Nat} {c : Conn} (found : s.conns[i]? = some c) (event : ProtoEvent)
      (source : (∃ read, e = .control i read ∧ loopExit read = none) ∨ e = .reader i event) :
      Step sha256 s e (s.send (.msg i c.addr event))
  | announce {i : Nat} {c : Conn} {read : Except (Fault Error) ProtoEvent}
      (found : s.conns[i]? = some c) (runs : c.phase = .accepted)
      (exit : loopExit read = some .announced) :
      Step sha256 s (.control i read) ((s.setPhase i c .exited).send (.disconnected i c.addr))
  | exit {i : Nat} {c : Conn} {read : Except (Fault Error) ProtoEvent}
      (found : s.conns[i]? = some c) (runs : c.phase = .accepted)
      (exit : loopExit read = some .silent) :
      Step sha256 s (.control i read) (s.setPhase i c .exited)
  | deliver (e : ListenEvent) (rest : List ListenEvent) (queue : s.queue = e :: rest) :
      Step sha256 s .deliver ({ s with queue := rest }.handle e)
  | tick : Step sha256 s .tick (s.stale.foldl State.expire s)

theorem step_control (sha256 : List UInt8 → Hash) {s : State} {i : Nat} {c : Conn}
    (found : s.conns[i]? = some c) (runs : c.phase = .accepted)
    (read : Except (Fault Error) ProtoEvent) :
    Step sha256 s (.control i read) (s.superviseRead i c read) := by
  rcases read with (e | _ | _) | event
  · cases e with
    | truncated => exact .announce found runs rfl
    | frameTooLarge len => exact .exit found runs rfl
    | helloFailed msg =>
      simp only [State.superviseRead]
      split_ifs with skipped
      · exact .idle _
      · exact .exit found runs (if_neg skipped)
  · exact .exit found runs rfl
  · exact .exit found runs rfl
  · exact .read found event (.inl ⟨_, rfl, rfl⟩)

/-- Every event of the model is one of these steps. -/
theorem step_spec (sha256 : List UInt8 → Hash) (s : State) (e : Event) :
    Step sha256 s e (s.step sha256 e) := by
  cases e with
  | addAuthorizedKey desc fp => exact .addKey desc fp
  | removeAuthorizedKey fp => exact .removeKey fp
  | configChange keys => exact .reload keys
  | emulation active => exact .emulation active
  | time ms => exact .time ms
  | handshake addr cert =>
    simp only [State.step, verifyClientCert]
    split_ifs with known
    · exact .connect known
    · exact .reject addr cert
  | hello i ok =>
    simp only [State.step]
    cases found : s.conns[i]? with
    | none => exact .idle _
    | some c =>
      simp only [ne_eq, ite_not]
      split_ifs with fresh accepted
      · rw [accepted]
        exact .accept found fresh
      · rw [Bool.eq_false_iff.mpr accepted]
        exact .refuse found fresh
      · exact .idle _
  | control i read =>
    simp only [State.step]
    cases found : s.conns[i]? with
    | none => exact .idle _
    | some c =>
      simp only
      split_ifs with runs
      · exact step_control sha256 found runs read
      · exact .idle _
  | reader i event =>
    simp only [State.step]
    cases found : s.conns[i]? with
    | none => exact .idle _
    | some c =>
      simp only
      split_ifs
      · exact .read found event (.inr rfl)
      · exact .idle _
  | deliver =>
    simp only [State.step]
    cases queue : s.queue with
    | nil => exact .idle _
    | cons e rest => exact .deliver e rest queue
  | tick => exact .tick

/-! ### What the listen task does -/

def EmulationEvent.isDisconnected (conn : Nat) : EmulationEvent → Bool
  | .disconnected i _ => i = conn
  | _ => false

def ListenEvent.isDisconnected (conn : Nat) : ListenEvent → Bool
  | .disconnected i _ => i = conn
  | _ => false

structure Handled (s : State) (e : ListenEvent) (s' : State) : Prop where
  conns : s'.conns = s.conns
  queue : s'.queue = s.queue
  silenced : s'.silenced = s.silenced
  keys : s'.authorizedKeys = s.authorizedKeys
  disconnected : ∀ i, s'.reports.countP (·.isDisconnected i) =
    s.reports.countP (·.isDisconnected i) + if e.isDisconnected i then 1 else 0
  heard : ∀ addr heard, s'.lastResponse.lookup addr = some heard →
    s.lastResponse.lookup addr = some heard ∨ ∃ event, e = .msg heard.conn addr event
  forwarded : ∃ new, s'.forwarded = s.forwarded ++ new ∧
    ∀ m ∈ new, ∃ addr event, e = .msg m.1 addr event

theorem handled_msg (s : State) (conn : Nat) (addr : SocketAddr) (event : ProtoEvent) :
    Handled s (.msg conn addr event) (s.handleMsg conn addr event) := by
  have heard : ∀ a heard, (s.lastResponse.insert addr ⟨s.clock, conn⟩).lookup a = some heard →
      s.lastResponse.lookup a = some heard ∨
        ∃ e, ListenEvent.msg conn addr event = .msg heard.conn a e := by
    intro a heard found
    by_cases same : a = addr
    · rw [same, AList.lookup_insert, Option.some_inj] at found
      exact .inr ⟨event, by rw [← found, same]⟩
    · rw [AList.lookup_insert_ne same] at found
      exact .inl found
  have kept : ∀ {forwarded : List (Nat × ProtoEvent)}, forwarded = s.forwarded →
      ∃ new, forwarded = s.forwarded ++ new ∧
        ∀ m ∈ new, ∃ a e, ListenEvent.msg conn addr event = .msg m.1 a e :=
    fun same => ⟨[], by simp [same], nofun⟩
  have passed : ∃ new, s.forwarded ++ [(conn, event)] = s.forwarded ++ new ∧
      ∀ m ∈ new, ∃ a e, ListenEvent.msg conn addr event = .msg m.1 a e :=
    ⟨_, rfl, fun m mem => ⟨addr, event, by rw [List.mem_singleton.mp mem]⟩⟩
  unfold State.handleMsg
  cases event with
  | enter pos =>
    exact ⟨rfl, rfl, rfl, rfl, fun i => by
      simp [State.report, EmulationEvent.isDisconnected, ListenEvent.isDisconnected], heard,
      kept rfl⟩
  | hello magic commit =>
    exact ⟨rfl, rfl, rfl, rfl, fun i => by
      simp [State.report, EmulationEvent.isDisconnected, ListenEvent.isDisconnected], heard,
      kept rfl⟩
  | input e =>
    simp only
    split_ifs
    · exact ⟨rfl, rfl, rfl, rfl, fun _ => rfl, heard, passed⟩
    · exact ⟨rfl, rfl, rfl, rfl, fun _ => rfl, heard, kept rfl⟩
  | clipboardText | clipboardImage | clipboardFiles | fileTransferCancel =>
    exact ⟨rfl, rfl, rfl, rfl, fun _ => rfl, heard, passed⟩
  | _ => exact ⟨rfl, rfl, rfl, rfl, fun _ => rfl, heard, kept rfl⟩

theorem handled (s : State) (e : ListenEvent) : Handled s e (s.handle e) := by
  have kept : ∀ e : ListenEvent, ∃ new, s.forwarded = s.forwarded ++ new ∧
      ∀ m ∈ new, ∃ addr event, e = .msg m.1 addr event := fun e => ⟨[], by simp, nofun⟩
  cases e with
  | msg conn addr event => exact handled_msg s conn addr event
  | accept addr fingerprint =>
    exact ⟨rfl, rfl, rfl, rfl, fun i => by
      simp [State.handle, State.report, EmulationEvent.isDisconnected,
        ListenEvent.isDisconnected], fun _ _ found => .inl found, kept _⟩
  | rejected fingerprint =>
    simp only [State.handle]
    split_ifs
    · exact ⟨rfl, rfl, rfl, rfl, fun _ => rfl, fun _ _ found => .inl found, kept _⟩
    · exact ⟨rfl, rfl, rfl, rfl, fun i => by
        simp [State.report, EmulationEvent.isDisconnected, ListenEvent.isDisconnected],
        fun _ _ found => .inl found, kept _⟩
  | disconnected conn addr =>
    refine ⟨rfl, rfl, rfl, rfl, fun i => ?_, fun a heard found => .inl ?_, kept _⟩
    · simp [State.handle, State.report, EmulationEvent.isDisconnected,
        ListenEvent.isDisconnected, List.countP_cons]
    · obtain rfl | other := eq_or_ne a addr
      · rw [State.handle, State.report, AList.lookup_erase] at found
        cases found
      · rwa [State.handle, State.report, AList.lookup_erase_ne other] at found

end LanMouse.Listen
