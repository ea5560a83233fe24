import LanMouse.Capture.InputCapture
import LanMouse.Lib.Slab

/-!
# The client manager

The registered clients live in a slab whose keys are the client handles. The three `Position` types
of the source are one here.
-/
namespace LanMouse.Client

open Proto Capture

abbrev ClientHandle := Nat

def defaultPort : UInt16 := 2268

inductive IpAddr where
  | v4 (octets : Vector UInt8 4)
  | v6 (segments : Vector UInt16 8)
  deriving DecidableEq, Repr

structure SocketAddr where
  ip : IpAddr
  port : UInt16
  deriving DecidableEq, Repr

inductive ChannelMode where
  | stream
  | datagram
  deriving DecidableEq, Repr

structure InputChannelConfig where
  mouseButton : ChannelMode := .datagram
  keyboard : ChannelMode := .stream
  deriving DecidableEq, Repr

structure ClientConfig where
  hostname : Option String := none
  fixIps : List IpAddr := []
  port : UInt16 := defaultPort
  pos : Position := .left
  cmd : Option String := none
  inputChannels : InputChannelConfig := {}
  monitor : Option String := none
  enableClipboardTo : Bool := true
  deriving DecidableEq, Repr

structure ClientState where
  active : Bool := false
  activeAddr : Option SocketAddr := none
  dnsIps : List IpAddr := []
  ips : List IpAddr := []
  hasPressedKeys : Bool := false
  resolving : Bool := false
  peerCommit : Option (Vector UInt8 8) := none
  deriving DecidableEq, Repr

/-- A client as the configuration file has it. -/
structure ConfigClient where
  ips : List IpAddr := []
  hostname : Option String := none
  port : UInt16 := defaultPort
  pos : Position := .left
  active : Bool := false
  enterHook : Option String := none
  inputChannels : InputChannelConfig := {}
  monitor : Option String := none
  enableClipboardTo : Bool := true
  deriving DecidableEq, Repr

def ConfigClient.config (cc : ConfigClient) : ClientConfig where
  hostname := cc.hostname
  fixIps := cc.ips
  port := cc.port
  pos := cc.pos
  cmd := cc.enterHook
  inputChannels := cc.inputChannels
  monitor := cc.monitor
  enableClipboardTo := cc.enableClipboardTo

def ConfigClient.state (cc : ConfigClient) : ClientState where
  active := cc.active
  ips := cc.config.fixIps

/-- The barrier of a client: a whole edge, of one monitor if the client is bound to it. -/
def ClientConfig.key (c : ClientConfig) : BarrierKey where
  pos := c.pos
  monitor := c.monitor
  offset := 0
  span := 10000

abbrev ClientManager := Slab (ClientConfig × ClientState)

namespace ClientManager

def addClient (m : ClientManager) : ClientHandle × ClientManager := m.insert ({}, {})

def setConfig (m : ClientManager) (h : ClientHandle) (config : ClientConfig) : ClientManager :=
  m.modify h fun c => (config, c.2)

def setState (m : ClientManager) (h : ClientHandle) (state : ClientState) : ClientManager :=
  m.modify h fun c => (c.1, state)

def addWithConfig (m : ClientManager) (cc : ConfigClient) : ClientHandle × ClientManager :=
  let (handle, m) := addClient m
  (handle, setState (setConfig m handle cc.config) handle cc.state)

def isActive (m : ClientManager) (h : ClientHandle) : Bool := (m.get? h).any (·.2.active)

def setActive (m : ClientManager) (h : ClientHandle) (active : Bool) : ClientManager :=
  m.modify h fun c => (c.1, { c.2 with active := active })

/-- The result tells whether the client was activated. -/
def activateClient (m : ClientManager) (h : ClientHandle) : Bool × ClientManager :=
  match m.get? h with
  | some (_, s) => if !s.active then (true, setActive m h true) else (false, m)
  | none => (false, m)

/-- The result tells whether the client was deactivated. -/
def deactivateClient (m : ClientManager) (h : ClientHandle) : Bool × ClientManager :=
  match m.get? h with
  | some (_, s) => if s.active then (true, setActive m h false) else (false, m)
  | none => (false, m)

def getKey (m : ClientManager) (h : ClientHandle) : Option BarrierKey :=
  (m.get? h).map (·.1.key)

/-- The first active client at an edge. -/
def clientAt (m : ClientManager) (key : BarrierKey) : Option ClientHandle :=
  m.keys.find? fun h =>
    (m.get? h).any fun c => c.2.active && c.1.pos = key.pos && c.1.monitor = key.monitor

/-- The result tells whether the barrier has to change: the client moved and is active. -/
def setPos (m : ClientManager) (h : ClientHandle) (pos : Position) : Bool × ClientManager :=
  match m.get? h with
  | some (c, s) =>
    if c.pos ≠ pos then (s.active, m.modify h fun c => ({ c.1 with pos := pos }, c.2))
    else (false, m)
  | none => (false, m)

def setMonitor (m : ClientManager) (h : ClientHandle) (monitor : Option String) :
    Bool × ClientManager :=
  match m.get? h with
  | some (c, s) =>
    if c.monitor ≠ monitor then
      (s.active, m.modify h fun c => ({ c.1 with monitor := monitor }, c.2))
    else (false, m)
  | none => (false, m)

def getClientStates (m : ClientManager) : List (ClientHandle × ClientConfig × ClientState) :=
  m.keys.filterMap fun h => (m.get? h).map fun c => (h, c.1, c.2)

def registeredClients (m : ClientManager) : List ClientHandle := m.keys

def activeClients (m : ClientManager) : List ClientHandle := m.keys.filter (isActive m)

/-! ### Addresses -/

/-- The first active client that has the address's IP. -/
def getClient (m : ClientManager) (addr : SocketAddr) : Option ClientHandle :=
  m.keys.find? fun h => (m.get? h).any fun c => c.2.active && addr.ip ∈ c.2.ips

def activeAddr (m : ClientManager) (h : ClientHandle) : Option SocketAddr :=
  (m.get? h).bind (·.2.activeAddr)

def setActiveAddr (m : ClientManager) (h : ClientHandle) (addr : Option SocketAddr) :
    ClientManager :=
  m.modify h fun c => (c.1, { c.2 with activeAddr := addr })

def getIps (m : ClientManager) (h : ClientHandle) : Option (List IpAddr) :=
  (m.get? h).map (·.2.ips)

def getPort (m : ClientManager) (h : ClientHandle) : Option UInt16 := (m.get? h).map (·.1.port)

def updateIps (m : ClientManager) (h : ClientHandle) : ClientManager :=
  m.modify h fun c => (c.1, { c.2 with ips := (c.1.fixIps ++ c.2.dnsIps).dedup })

def setFixIps (m : ClientManager) (h : ClientHandle) (ips : List IpAddr) : ClientManager :=
  updateIps (m.modify h fun c => ({ c.1 with fixIps := ips }, c.2)) h

def setDnsIps (m : ClientManager) (h : ClientHandle) (ips : List IpAddr) : ClientManager :=
  updateIps (m.modify h fun c => (c.1, { c.2 with dnsIps := ips })) h

def setResolving (m : ClientManager) (h : ClientHandle) (status : Bool) : ClientManager :=
  m.modify h fun c => (c.1, { c.2 with resolving := status })

/-- A new hostname also clears the active address. The result tells whether it is new. -/
def setHostname (m : ClientManager) (h : ClientHandle) (hostname : Option String) :
    Bool × ClientManager :=
  match m.get? h with
  | none => (false, m)
  | some (c, _) =>
    if c.hostname ≠ hostname then
      (true, updateIps (m.modify h fun c =>
        ({ c.1 with hostname := hostname }, { c.2 with activeAddr := none, dnsIps := [] })) h)
    else (false, m)

/-- A new port is written into the active address as well. -/
def setPort (m : ClientManager) (h : ClientHandle) (port : UInt16) : ClientManager :=
  match m.get? h with
  | some (c, _) =>
    if c.port ≠ port then
      m.modify h fun c =>
        ({ c.1 with port := port },
          { c.2 with activeAddr := c.2.activeAddr.map fun a => ⟨a.ip, port⟩ })
    else m
  | none => m

/-! ### The other settings -/

def setEnterHook (m : ClientManager) (h : ClientHandle) (enterHook : Option String) :
    ClientManager :=
  m.modify h fun c => ({ c.1 with cmd := enterHook }, c.2)

/-- The result tells whether the choice is new. -/
def setInputChannels (m : ClientManager) (h : ClientHandle) (cfg : InputChannelConfig) :
    Bool × ClientManager :=
  match m.get? h with
  | some (c, _) =>
    if c.inputChannels ≠ cfg then
      (true, m.modify h fun c => ({ c.1 with inputChannels := cfg }, c.2))
    else (false, m)
  | none => (false, m)

/-- The result tells whether the choice is new and the client active. -/
def setEnableClipboardTo (m : ClientManager) (h : ClientHandle) (enable : Bool) :
    Bool × ClientManager :=
  match m.get? h with
  | some (c, s) =>
    if c.enableClipboardTo ≠ enable then
      (s.active, m.modify h fun c => ({ c.1 with enableClipboardTo := enable }, c.2))
    else (false, m)
  | none => (false, m)

/-- The clients in the order of their handles. -/
def clients (m : ClientManager) : List (ClientConfig × ClientState) := m.keys.filterMap m.get?

/-- An active client that has the IP. -/
def serves (m : ClientManager) (h : ClientHandle) (ip : IpAddr) : Bool :=
  (m.get? h).any fun c => c.2.active && ip ∈ c.2.ips

theorem getClient_eq_some_iff {m : ClientManager} {addr : SocketAddr} {h : ClientHandle} :
    getClient m addr = some h ↔
      serves m h addr.ip = true ∧ ∀ g < h, serves m g addr.ip = false := by
  refine Slab.find?_keys_eq_some_iff fun g served => ?_
  cases present : m.get? g with
  | none => simp [present] at served
  | some c => rfl

/-! ### Flags and edges after an operation -/

variable {m : ClientManager} {g h : ClientHandle} {key : BarrierKey}

theorem isActive_setActive (m : ClientManager) (h : ClientHandle) (active : Bool)
    (registered : (m.get? h).isSome) :
    isActive (setActive m h active) = Function.update (isActive m) h active := by
  funext j
  unfold setActive isActive
  rw [Slab.get?_modify]
  by_cases same : j = h
  · subst same
    obtain ⟨c, present⟩ := Option.isSome_iff_exists.mp registered
    simp [present]
  · simp [same]

theorem getKey_setActive (m : ClientManager) (h : ClientHandle) (active : Bool) :
    getKey (setActive m h active) = getKey m := by
  funext j
  unfold setActive getKey
  rw [Slab.get?_modify]
  split_ifs
  · rw [Option.map_map]
    rfl
  · rfl

theorem deactivateClient_eq (m : ClientManager) (h : ClientHandle) :
    deactivateClient m h = if isActive m h then (true, setActive m h false) else (false, m) := by
  unfold deactivateClient isActive
  cases m.get? h with
  | none => rfl
  | some c => rfl

theorem activateClient_eq (m : ClientManager) (h : ClientHandle) :
    activateClient m h = if (m.get? h).isSome && !isActive m h then (true, setActive m h true)
      else (false, m) := by
  unfold activateClient isActive
  cases m.get? h with
  | none => rfl
  | some c => rfl

theorem isSome_of_isActive (active : isActive m h) : (m.get? h).isSome := by
  unfold isActive at active
  cases present : m.get? h with
  | none => simp [present] at active
  | some c => rfl

theorem isSome_of_getKey (own : getKey m h = some key) : (m.get? h).isSome := by
  unfold getKey at own
  cases present : m.get? h with
  | none => simp [present] at own
  | some c => rfl

theorem clientAt_some (own : getKey m h = some key) (found : clientAt m key = some g) :
    isActive m g ∧ getKey m g = some key := by
  have matches_ := List.find?_some found
  unfold getKey at own ⊢
  unfold isActive
  obtain ⟨c, -, rfl⟩ := Option.map_eq_some_iff.mp own
  cases present : m.get? g with
  | none => simp [present] at matches_
  | some d =>
    simp only [present, Option.any_some, Bool.and_eq_true, decide_eq_true_eq] at matches_
    obtain ⟨⟨active, pos⟩, monitor⟩ := matches_
    exact ⟨by simpa using active, by simp [ClientConfig.key, pos, monitor]⟩

theorem clientAt_none (found : clientAt m key = none) (active : isActive m g) :
    getKey m g ≠ some key := by
  intro own
  have differs := List.find?_eq_none.mp found g (Slab.mem_keys.mpr (isSome_of_isActive active))
  unfold isActive at active
  unfold getKey at own
  obtain ⟨c, present, rfl⟩ := Option.map_eq_some_iff.mp own
  rw [present] at active
  exact differs (by simpa [present, ClientConfig.key] using active)

theorem isActive_modify (m : ClientManager) (h : ClientHandle) (f : ClientConfig → ClientConfig) :
    isActive (m.modify h fun c => (f c.1, c.2)) = isActive m := by
  funext j
  unfold isActive
  rw [Slab.get?_modify]
  split_ifs
  · cases m.get? j <;> rfl
  · rfl

theorem getKey_modify {c : ClientConfig × ClientState} (present : m.get? h = some c)
    (f : ClientConfig → ClientConfig) :
    getKey (m.modify h fun c => (f c.1, c.2)) =
      Function.update (getKey m) h (some (f c.1).key) := by
  funext j
  unfold getKey
  rw [Slab.get?_modify]
  by_cases same : j = h
  · simp [same, present]
  · simp [same]

theorem isActive_remove (m : ClientManager) (h : ClientHandle) :
    isActive (m.remove h).2 = Function.update (isActive m) h false := by
  funext j
  unfold isActive
  rw [Slab.get?_remove]
  by_cases same : j = h <;> simp [same]

theorem getKey_remove (m : ClientManager) (h : ClientHandle) :
    getKey (m.remove h).2 = Function.update (getKey m) h none := by
  funext j
  unfold getKey
  rw [Slab.get?_remove]
  by_cases same : j = h <;> simp [same]

/-- A client that is added gets a handle that was not registered. -/
theorem get?_addWithConfig (m : ClientManager) (cc : ConfigClient) :
    m.get? (addWithConfig m cc).1 = none ∧
      ∀ j, (addWithConfig m cc).2.get? j =
        if j = (addWithConfig m cc).1 then some (cc.config, cc.state) else m.get? j := by
  refine ⟨m.get?_insert_key _, fun j => ?_⟩
  unfold addWithConfig addClient setState setConfig
  rw [Slab.get?_modify, Slab.get?_modify, Slab.get?_insert]
  by_cases same : j = (m.insert ({}, {})).1 <;> simp [same]

theorem get?_addClient (m : ClientManager) :
    m.get? (addClient m).1 = none ∧
      ∀ j, (addClient m).2.get? j =
        if j = (addClient m).1 then some ({}, {}) else m.get? j :=
  ⟨m.get?_insert_key _, m.get?_insert _⟩

/-- Registering an inactive client changes no flag. -/
theorem isActive_of_get? {m' : ClientManager} {c : ClientConfig × ClientState}
    (fresh : m.get? h = none) (get : ∀ j, m'.get? j = if j = h then some c else m.get? j)
    (inactive : c.2.active = false) : isActive m' = isActive m := by
  funext j
  unfold isActive
  rw [get]
  by_cases same : j = h
  · simp [same, fresh, inactive]
  · simp [same]

theorem getKey_of_get? {m' : ClientManager} {c : ClientConfig × ClientState}
    (get : ∀ j, m'.get? j = if j = h then some c else m.get? j) :
    getKey m' = Function.update (getKey m) h (some c.1.key) := by
  funext j
  unfold getKey
  rw [get]
  by_cases same : j = h <;> simp [same]

/-- A setter changes a client that is registered, and only if the value is new. -/
theorem unchanged_or {β : Type} {result same : β} {new : ClientConfig × ClientState → β}
    (differs : ClientConfig × ClientState → Prop) [DecidablePred differs]
    (is : result = (m.get? h).elim same fun c => if differs c then new c else same) :
    result = same ∨ ∃ c, m.get? h = some c ∧ result = new c := by
  subst is
  cases m.get? h with
  | none => exact .inl rfl
  | some c =>
    by_cases changed : differs c
    · exact .inr ⟨c, rfl, if_pos changed⟩
    · exact .inl (if_neg changed)

variable (m h)

theorem setPos_cases (pos : Position) :
    setPos m h pos = (false, m) ∨ ∃ c, m.get? h = some c ∧
      setPos m h pos = (c.2.active, m.modify h fun c => ({ c.1 with pos := pos }, c.2)) := by
  refine unchanged_or (fun c => c.1.pos ≠ pos) ?_
  unfold setPos
  cases m.get? h <;> rfl

theorem setMonitor_cases (monitor : Option String) :
    setMonitor m h monitor = (false, m) ∨ ∃ c, m.get? h = some c ∧
      setMonitor m h monitor =
        (c.2.active, m.modify h fun c => ({ c.1 with monitor := monitor }, c.2)) := by
  refine unchanged_or (fun c => c.1.monitor ≠ monitor) ?_
  unfold setMonitor
  cases m.get? h <;> rfl

theorem setHostname_cases (hostname : Option String) :
    setHostname m h hostname = (false, m) ∨ ∃ c, m.get? h = some c ∧
      setHostname m h hostname = (true, updateIps (m.modify h fun c =>
        ({ c.1 with hostname := hostname }, { c.2 with activeAddr := none, dnsIps := [] })) h) := by
  refine unchanged_or (fun c => c.1.hostname ≠ hostname) ?_
  unfold setHostname
  cases m.get? h <;> rfl

theorem setPort_cases (port : UInt16) :
    setPort m h port = m ∨ ∃ c, m.get? h = some c ∧
      setPort m h port = m.modify h fun c =>
        ({ c.1 with port := port },
          { c.2 with activeAddr := c.2.activeAddr.map fun a => ⟨a.ip, port⟩ }) := by
  refine unchanged_or (fun c => c.1.port ≠ port) ?_
  unfold setPort
  cases m.get? h <;> rfl

theorem setInputChannels_cases (cfg : InputChannelConfig) :
    setInputChannels m h cfg = (false, m) ∨ ∃ c, m.get? h = some c ∧
      setInputChannels m h cfg =
        (true, m.modify h fun c => ({ c.1 with inputChannels := cfg }, c.2)) := by
  refine unchanged_or (fun c => c.1.inputChannels ≠ cfg) ?_
  unfold setInputChannels
  cases m.get? h <;> rfl

theorem setEnableClipboardTo_cases (enable : Bool) :
    setEnableClipboardTo m h enable = (false, m) ∨ ∃ c, m.get? h = some c ∧
      setEnableClipboardTo m h enable =
        (c.2.active, m.modify h fun c => ({ c.1 with enableClipboardTo := enable }, c.2)) := by
  refine unchanged_or (fun c => c.1.enableClipboardTo ≠ enable) ?_
  unfold setEnableClipboardTo
  cases m.get? h <;> rfl

/-- The same clients are active, at the same edges. -/
structure SameEdges (m m' : ClientManager) : Prop where
  flags : isActive m' = isActive m
  keys : getKey m' = getKey m

theorem SameEdges.refl : SameEdges m m := ⟨rfl, rfl⟩

theorem SameEdges.trans {m₁ m₂ m₃ : ClientManager} (first : SameEdges m₁ m₂)
    (second : SameEdges m₂ m₃) : SameEdges m₁ m₃ :=
  ⟨second.flags.trans first.flags, second.keys.trans first.keys⟩

theorem sameEdges_modify {f : ClientConfig × ClientState → ClientConfig × ClientState}
    (flag : ∀ c, (f c).2.active = c.2.active) (key : ∀ c, (f c).1.key = c.1.key) :
    SameEdges m (m.modify h f) := by
  constructor
  · funext j
    unfold isActive
    rw [Slab.get?_modify]
    split_ifs
    · cases m.get? j with
      | none => rfl
      | some c => simp [flag]
    · rfl
  · funext j
    unfold getKey
    rw [Slab.get?_modify]
    split_ifs
    · cases m.get? j with
      | none => rfl
      | some c => simp [key]
    · rfl

theorem sameEdges_updateIps : SameEdges m (updateIps m h) :=
  sameEdges_modify m h (fun _ => rfl) fun _ => rfl

theorem sameEdges_setFixIps (ips : List IpAddr) : SameEdges m (setFixIps m h ips) := by
  refine SameEdges.trans ?_ (sameEdges_updateIps _ h)
  exact sameEdges_modify m h (fun _ => rfl) fun _ => rfl

theorem sameEdges_setHostname (hostname : Option String) :
    SameEdges m (setHostname m h hostname).2 := by
  obtain same | ⟨c, -, changed⟩ := setHostname_cases m h hostname
  · rw [same]
    exact .refl m
  · rw [changed]
    refine SameEdges.trans ?_ (sameEdges_updateIps _ h)
    exact sameEdges_modify m h (fun _ => rfl) fun _ => rfl

theorem sameEdges_setPort (port : UInt16) : SameEdges m (setPort m h port) := by
  obtain same | ⟨c, -, changed⟩ := setPort_cases m h port
  · rw [same]
    exact .refl m
  · rw [changed]
    exact sameEdges_modify m h (fun _ => rfl) fun _ => rfl

theorem sameEdges_setEnterHook (enterHook : Option String) :
    SameEdges m (setEnterHook m h enterHook) :=
  sameEdges_modify m h (fun _ => rfl) fun _ => rfl

theorem sameEdges_setInputChannels (cfg : InputChannelConfig) :
    SameEdges m (setInputChannels m h cfg).2 := by
  obtain same | ⟨c, -, changed⟩ := setInputChannels_cases m h cfg
  · rw [same]
    exact .refl m
  · rw [changed]
    exact sameEdges_modify m h (fun _ => rfl) fun _ => rfl

theorem sameEdges_setEnableClipboardTo (enable : Bool) :
    SameEdges m (setEnableClipboardTo m h enable).2 := by
  obtain same | ⟨c, -, changed⟩ := setEnableClipboardTo_cases m h enable
  · rw [same]
    exact .refl m
  · rw [changed]
    exact sameEdges_modify m h (fun _ => rfl) fun _ => rfl

/-! ### Active addresses after an operation -/

/-- A port that `setPort` takes over. -/
def changesPort (m : ClientManager) (h : ClientHandle) (port : UInt16) : Bool :=
  (m.get? h).any (·.1.port ≠ port)

/-- A hostname that `setHostname` takes over. -/
def changesHostname (m : ClientManager) (h : ClientHandle) (hostname : Option String) : Bool :=
  (m.get? h).any (·.1.hostname ≠ hostname)

theorem activeAddr_modify (f : ClientConfig × ClientState → ClientConfig × ClientState)
    (j : ClientHandle) :
    activeAddr (m.modify h f) j =
      if j = h then (m.get? j).bind fun c => (f c).2.activeAddr else activeAddr m j := by
  unfold activeAddr
  rw [Slab.get?_modify]
  split_ifs
  · cases m.get? j <;> rfl
  · rfl

theorem activeAddr_modify_of_same {f : ClientConfig × ClientState → ClientConfig × ClientState}
    (same : ∀ c, (f c).2.activeAddr = c.2.activeAddr) :
    activeAddr (m.modify h f) = activeAddr m := by
  funext j
  rw [activeAddr_modify]
  split_ifs
  · simp only [same]
    rfl
  · rfl

theorem activeAddr_updateIps : activeAddr (updateIps m h) = activeAddr m :=
  activeAddr_modify_of_same m h fun _ => rfl

theorem activeAddr_setFixIps (ips : List IpAddr) : activeAddr (setFixIps m h ips) = activeAddr m :=
  (activeAddr_updateIps _ h).trans (activeAddr_modify_of_same m h fun _ => rfl)

theorem activeAddr_setDnsIps (ips : List IpAddr) : activeAddr (setDnsIps m h ips) = activeAddr m :=
  (activeAddr_updateIps _ h).trans (activeAddr_modify_of_same m h fun _ => rfl)

theorem activeAddr_setActive (active : Bool) : activeAddr (setActive m h active) = activeAddr m :=
  activeAddr_modify_of_same m h fun _ => rfl

theorem activeAddr_setActiveAddr (addr : Option SocketAddr) (j : ClientHandle) :
    activeAddr (setActiveAddr m h addr) j =
      if j = h then (m.get? j).bind fun _ => addr else activeAddr m j :=
  activeAddr_modify m h _ j

theorem activeAddr_setPort (port : UInt16) (j : ClientHandle) : activeAddr (setPort m h port) j =
      if j = h ∧ changesPort m h port then (activeAddr m j).map fun a => ⟨a.ip, port⟩
      else activeAddr m j := by
  unfold setPort changesPort
  cases present : m.get? h with
  | none => simp
  | some c =>
    by_cases other : c.1.port = port
    · simp [other]
    · simp only [ne_eq, other, not_false_eq_true, if_true, Option.any_some, decide_true, and_true]
      rw [activeAddr_modify]
      split_ifs with own
      · rw [own, activeAddr, present]
        rfl
      · rfl

theorem activeAddr_setHostname (hostname : Option String) (j : ClientHandle) :
    activeAddr (setHostname m h hostname).2 j =
      if j = h ∧ changesHostname m h hostname then none else activeAddr m j := by
  unfold setHostname changesHostname
  cases present : m.get? h with
  | none => simp
  | some c =>
    by_cases other : c.1.hostname = hostname
    · simp [other]
    · simp only [ne_eq, other, not_false_eq_true, if_true, Option.any_some, decide_true, and_true]
      rw [activeAddr_updateIps, activeAddr_modify]
      split_ifs with own
      · rw [own, present]
        rfl
      · rfl

/-- A new client has no active address. -/
theorem activeAddr_of_get? {m m' : ClientManager} {h : ClientHandle}
    {c : ClientConfig × ClientState} (fresh : m.get? h = none)
    (get : ∀ j, m'.get? j = if j = h then some c else m.get? j)
    (none_ : c.2.activeAddr = none) : activeAddr m' = activeAddr m := by
  funext j
  unfold activeAddr
  rw [get]
  by_cases same : j = h
  · simp [same, fresh, none_]
  · simp [same]

theorem activeAddr_remove (h j : ClientHandle) :
    activeAddr (m.remove h).2 j = if j = h then none else activeAddr m j := by
  unfold activeAddr
  rw [Slab.get?_remove]
  split_ifs <;> rfl

end ClientManager

end LanMouse.Client
