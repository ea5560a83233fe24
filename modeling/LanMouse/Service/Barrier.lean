import LanMouse.Capture.Task
import LanMouse.Client.Manager

/-!
# Barriers of the clients

The part of the service that decides when a client has a barrier: frontend requests, configuration
reloads and monitor snapshots. What it does is ask the capture task to create and destroy barriers;
`requests` lists what it asked for, oldest first.

Frontend notifications are left out. Name resolution and the handles of incoming connections have
modules of their own.
-/
namespace LanMouse

open Proto Capture Client

structure Service where
  clientManager : ClientManager
  lastMonitors : Option (List MonitorInfo)
  requests : List CaptureRequest

namespace Service

def request (s : Service) (r : CaptureRequest) : Service :=
  { s with requests := s.requests ++ [r] }

def deactivateClient (s : Service) (h : ClientHandle) : Service :=
  let (deactivated, m) := s.clientManager.deactivateClient h
  let s := { s with clientManager := m }
  if deactivated then s.request (.destroy h) else s

def detachCapture (s : Service) (h : ClientHandle) : Service := s.request (.destroy h)

def reattachCapture (s : Service) (h : ClientHandle) : Service :=
  match s.clientManager.getKey h with
  | none => s
  | some key => s.request (.create h key .default)

/-- Deactivate another client at the edge of `h`. -/
def makeRoom (s : Service) (h : ClientHandle) (key : BarrierKey) : Service :=
  match s.clientManager.clientAt key with
  | some other => if other ≠ h then s.deactivateClient other else s
  | none => s

def activateClient (s : Service) (h : ClientHandle) : Service :=
  match s.clientManager.getKey h with
  | none => s
  | some key =>
    let s := s.makeRoom h key
    let (activated, m) := s.clientManager.activateClient h
    let s := { s with clientManager := m }
    if activated then (s.request (.create h key .default)).request (.dial h) else s

def setClientActive (s : Service) (h : ClientHandle) (active : Bool) : Service :=
  if active then s.activateClient h else s.deactivateClient h

def addClient (s : Service) : Service :=
  { s with clientManager := s.clientManager.addClient.2 }

def removeClient (s : Service) (h : ClientHandle) : Service :=
  let (removed, m) := s.clientManager.remove h
  let s := { s with clientManager := m }
  if removed.any (·.2.active) then s.request (.destroy h) else s

/-- Destroy the barrier of an active client and create it anew. -/
def recreateCapture (s : Service) (h : ClientHandle) : Service :=
  (s.deactivateClient h).activateClient h

/-- Give a client that changed a new barrier. -/
def updateClient (s : Service) (h : ClientHandle) (change : Bool × ClientManager) : Service :=
  let s := { s with clientManager := change.2 }
  if change.1 then s.recreateCapture h else s

def updatePos (s : Service) (h : ClientHandle) (pos : Position) : Service :=
  s.updateClient h (s.clientManager.setPos h pos)

def updateMonitor (s : Service) (h : ClientHandle) (monitor : Option String) : Service :=
  s.updateClient h (s.clientManager.setMonitor h monitor)

/-- Register a client of a reloaded configuration. -/
def reloadClient (s : Service) (c : ConfigClient) : Service :=
  let (h, m) := s.clientManager.addWithConfig c
  if m.isActive h then
    ({ s with clientManager := (m.deactivateClient h).2 }).activateClient h
  else { s with clientManager := m }

def handleConfigChange (s : Service) (clients : List ConfigClient) (releaseBind : List Scancode) :
    Service :=
  let s := s.clientManager.registeredClients.foldl removeClient s
  let s := clients.foldl reloadClient s
  s.request (.setReleaseBind releaseBind)

/-! ### Monitor snapshots -/

def present (monitors : List MonitorInfo) (id : String) : Bool := monitors.any fun m => m.id = id

/-- The clients whose monitor is gone. -/
def reconcileMonitors (bindings : List (ClientHandle × BarrierKey))
    (newMonitors oldMonitors : List MonitorInfo) : List ClientHandle :=
  (bindings.filter fun b => b.2.monitor.any fun id =>
    present oldMonitors id && !present newMonitors id).map (·.1)

/-- The clients whose monitor is back. -/
def recoverMonitors (bindings : List (ClientHandle × BarrierKey))
    (newMonitors oldMonitors : List MonitorInfo) : List ClientHandle :=
  (bindings.filter fun b => b.2.monitor.any fun id =>
    !present oldMonitors id && present newMonitors id).map (·.1)

def monitorGeometryChanged (a b : MonitorInfo) : Bool := a.position ≠ b.position || a.size ≠ b.size

/-- The clients whose monitor moved or was resized. -/
def recreateMonitors (bindings : List (ClientHandle × BarrierKey))
    (newMonitors oldMonitors : List MonitorInfo) : List ClientHandle :=
  (bindings.filter fun b => b.2.monitor.any fun id =>
    match oldMonitors.find? (fun m => m.id = id), newMonitors.find? (fun m => m.id = id) with
    | some old, some new => monitorGeometryChanged old new
    | _, _ => false).map (·.1)

def bindings (s : Service) (hs : List ClientHandle) : List (ClientHandle × BarrierKey) :=
  hs.filterMap fun h => (s.clientManager.getKey h).map fun key => (h, key)

def reconcileMonitorsChanged (s : Service) (newMonitors oldMonitors : List MonitorInfo) :
    Service :=
  let allBindings := s.bindings s.clientManager.registeredClients
  let activeSet := s.clientManager.activeClients
  let gone := (reconcileMonitors allBindings newMonitors oldMonitors).filter (· ∈ activeSet)
  let s := gone.foldl detachCapture s
  let back := (recoverMonitors allBindings newMonitors oldMonitors).filter (· ∈ activeSet)
  let s := back.foldl reattachCapture s
  let activeBindings := s.bindings s.clientManager.activeClients
  let moved := recreateMonitors activeBindings newMonitors oldMonitors
  moved.foldl recreateCapture s

def monitorsChanged (s : Service) (monitors : List MonitorInfo) : Service :=
  let oldMonitors := s.lastMonitors
  let s := { s with lastMonitors := some monitors }
  match oldMonitors with
  | some old => s.reconcileMonitorsChanged monitors old
  | none => s

/-! ### Events -/

inductive Event where
  | activate (h : ClientHandle) (active : Bool)
  | create
  | delete (h : ClientHandle)
  | updatePosition (h : ClientHandle) (pos : Position)
  | updateMonitor (h : ClientHandle) (monitor : Option String)
  | configChange (clients : List ConfigClient) (releaseBind : List Scancode)
  | monitorsChanged (monitors : List MonitorInfo)
  deriving DecidableEq, Repr

def step (s : Service) : Event → Service
  | .activate h active => s.setClientActive h active
  | .create => s.addClient
  | .delete h => s.removeClient h
  | .updatePosition h pos => s.updatePos h pos
  | .updateMonitor h monitor => s.updateMonitor h monitor
  | .configChange clients releaseBind => s.handleConfigChange clients releaseBind
  | .monitorsChanged monitors => s.monitorsChanged monitors

def new (clients : List ConfigClient) : Service where
  clientManager := clients.foldl (fun m c => (m.addWithConfig c).2) Slab.empty
  lastMonitors := none
  requests := []

/-- The service when its loop begins: the clients of the configuration are activated anew. -/
def start (clients : List ConfigClient) : Service :=
  let s := new clients
  let active := s.clientManager.activeClients
  let m := active.foldl (fun m h => (m.deactivateClient h).2) s.clientManager
  active.foldl activateClient { s with clientManager := m }

end Service

end LanMouse
