import LanMouse.Service.Alternation
import LanMouse.Sync.Service

/-!
# Requests of the frontend

Every request a frontend can make, and what it does to the clients. Requests that do not touch the
clients are listed too: the loop of the service takes up requests, reloads of the configuration and
monitor snapshots in any order, and what is said of its states is said between any two of them.

Wherever the loop stands, no two active clients are at one edge of one monitor. `Board.Unique` is
the invariant; it does not need the requests to the capture task to be in order.
-/
namespace LanMouse

open Proto Capture Client Sync

inductive FrontendRequest where
  | activate (h : ClientHandle) (active : Bool)
  | create
  | changePort (port : UInt16)
  | delete (h : ClientHandle)
  | enumerate
  | resolveDns (h : ClientHandle)
  | updateHostname (h : ClientHandle) (hostname : Option String)
  | updatePort (h : ClientHandle) (port : UInt16)
  | updatePosition (h : ClientHandle) (pos : Position)
  | updateMonitor (h : ClientHandle) (monitor : Option String)
  | updateFixIps (h : ClientHandle) (fixIps : List IpAddr)
  | enableCapture
  | enableEmulation
  | sync
  | authorizeKey (desc fp : String)
  | removeAuthorizedKey (fp : String)
  | updateEnterHook (h : ClientHandle) (enterHook : Option String)
  | setClientInputChannels (h : ClientHandle) (cfg : InputChannelConfig)
  | saveConfiguration
  | setQuicIdleTimeout (secs : UInt64)
  | setClipboardConfig (cfg : ClipboardConfig)
  | setEnableClipboardTo (h : ClientHandle) (enable : Bool)
  deriving DecidableEq, Repr

namespace Service

open Board

variable {s : Service} {h : ClientHandle}

/-- Replace the clients by what a setting makes of them. -/
def withClients (s : Service) (m : ClientManager) : Service := { s with clientManager := m }

/-- What a request does to the clients and their barriers. -/
def handleFrontendRequest (s : Service) : FrontendRequest → Service
  | .activate h active => s.setClientActive h active
  | .create => s.addClient
  | .delete h => s.removeClient h
  | .updateFixIps h fixIps => s.withClients (s.clientManager.setFixIps h fixIps)
  | .updateHostname h hostname => s.withClients (s.clientManager.setHostname h hostname).2
  | .updatePort h port => s.withClients (s.clientManager.setPort h port)
  | .updatePosition h pos => s.updatePos h pos
  | .updateMonitor h monitor => s.updateMonitor h monitor
  | .updateEnterHook h enterHook => s.withClients (s.clientManager.setEnterHook h enterHook)
  | .setClientInputChannels h cfg => s.withClients (s.clientManager.setInputChannels h cfg).2
  | .setEnableClipboardTo h enable =>
    s.withClients (s.clientManager.setEnableClipboardTo h enable).2
  | .changePort _ | .enumerate | .resolveDns _ | .enableCapture | .enableEmulation | .sync
  | .authorizeKey _ _ | .removeAuthorizedKey _ | .saveConfiguration | .setQuicIdleTimeout _
  | .setClipboardConfig _ => s

/-- What the loop of the service takes up. -/
inductive LoopEvent where
  | frontend (request : FrontendRequest)
  | configChange (clients : List ConfigClient) (releaseBind : List Scancode)
  | monitorsChanged (monitors : List MonitorInfo)
  deriving DecidableEq, Repr

def loopStep (s : Service) : LoopEvent → Service
  | .frontend request => s.handleFrontendRequest request
  | .configChange clients releaseBind => s.handleConfigChange clients releaseBind
  | .monitorsChanged monitors => s.monitorsChanged monitors

/-! ### One client at an edge -/

theorem unique_deactivateClient (u : s.board.Unique) (h : ClientHandle) :
    (s.deactivateClient h).board.Unique := by
  rw [board_deactivateClient]
  exact u.off h

theorem unique_activateClient (u : s.board.Unique) (h : ClientHandle) :
    (s.activateClient h).board.Unique := by
  cases own : s.board.key? h with
  | none => rwa [activateClient_unregistered own]
  | some key =>
    obtain ⟨other, occupies, room⟩ | ⟨free, room⟩ := makeRoom_spec u own
    · have own' : (s.board.off other).key? h = some key := by
        rw [off_key?]
        exact own
      rw [board_activateClient own (by rw [room]; exact own'), room]
      split_ifs
      · exact u.off other
      · exact (u.off other).on own' (free_of_off u occupies)
    · rw [board_activateClient own (by rw [room]; exact own), room]
      split_ifs
      · exact u
      · exact u.on own free

theorem unique_recreateCapture (u : s.board.Unique) (h : ClientHandle) :
    (s.recreateCapture h).board.Unique :=
  unique_activateClient (unique_deactivateClient u h) h

theorem unique_removeClient (u : s.board.Unique) (h : ClientHandle) :
    (s.removeClient h).board.Unique := by
  rw [board_removeClient]
  exact (u.off h).rekey (by simp) none

theorem unique_addClient (u : s.board.Unique) : s.addClient.board.Unique := by
  obtain ⟨h, key?, inactive, board_⟩ := addClient_spec s
  rw [board_]
  exact u.rekey inactive key?

theorem unique_reloadClient (u : s.board.Unique) (cc : ConfigClient) :
    (s.reloadClient cc).board.Unique := by
  obtain ⟨h, key?, registered, inactive, board_, eq⟩ := reloadClient_spec s cc
  have unique : registered.board.Unique := by
    rw [board_]
    exact u.rekey inactive key?
  rw [eq]
  split_ifs
  · exact unique_activateClient unique h
  · exact unique

/-- A client that moves displaces the client at its new edge, or is inactive. -/
theorem unique_updateClient (u : s.board.Unique) {change : Bool × ClientManager}
    (f : ClientConfig → ClientConfig)
    (cases_ : change = (false, s.clientManager) ∨ ∃ c, s.clientManager.get? h = some c ∧
      change = (c.2.active, s.clientManager.modify h fun c => (f c.1, c.2))) :
    (s.updateClient h change).board.Unique := by
  obtain rfl | ⟨c, present, rfl⟩ := cases_
  · exact u
  · obtain ⟨flag, whenOff, whenOn⟩ := updateClient_eq present f
    cases active : c.2.active with
    | false =>
      rw [active] at flag
      have board_ := whenOff active
      rw [active] at board_
      rw [board_]
      exact u.rekey flag _
    | true =>
      obtain ⟨off, board_, same⟩ := whenOn active
      have unique : off.board.Unique := by
        rw [board_]
        exact (u.off h).rekey (by simp) _
      rw [active] at same
      rw [same]
      exact unique_activateClient unique h

theorem unique_foldl {α : Type} {f : Service → α → Service}
    (keeps : ∀ s a, s.board.Unique → (f s a).board.Unique) (u : s.board.Unique) (as : List α) :
    (as.foldl f s).board.Unique := by
  induction as generalizing s with
  | nil => exact u
  | cons a as ih => exact ih (keeps s a u)

theorem unique_request (u : s.board.Unique) (r : CaptureRequest) :
    (s.request r).board.Unique := by
  rw [board_request]
  exact u

theorem unique_reattachCapture (u : s.board.Unique) (h : ClientHandle) :
    (s.reattachCapture h).board.Unique := by
  unfold reattachCapture
  cases s.clientManager.getKey h with
  | none => exact u
  | some key => exact unique_request u _

theorem unique_handleConfigChange (u : s.board.Unique) (clients : List ConfigClient)
    (releaseBind : List Scancode) : (s.handleConfigChange clients releaseBind).board.Unique :=
  have removed := unique_foldl (fun _ h u => unique_removeClient u h) u _
  unique_request (unique_foldl (fun _ c u => unique_reloadClient u c) removed clients) _

theorem unique_monitorsChanged (u : s.board.Unique) (monitors : List MonitorInfo) :
    (s.monitorsChanged monitors).board.Unique := by
  unfold monitorsChanged
  cases s.lastMonitors with
  | none => exact u
  | some old =>
    have start : ({ s with lastMonitors := some monitors } : Service).board.Unique := u
    refine unique_foldl (fun _ h u => unique_recreateCapture u h) ?_ _
    refine unique_foldl (fun _ h u => unique_reattachCapture u h) ?_ _
    exact unique_foldl (fun _ h u => unique_request u (.destroy h)) start _

theorem unique_withClients (u : s.board.Unique) {m : ClientManager}
    (same : ClientManager.SameEdges s.clientManager m) : (s.withClients m).board.Unique := by
  have board_ : (s.withClients m).board = s.board := by
    unfold withClients board
    rw [same.flags, same.keys]
  rwa [board_]

theorem unique_handleFrontendRequest (u : s.board.Unique) (r : FrontendRequest) :
    (s.handleFrontendRequest r).board.Unique := by
  cases r with
  | activate h active =>
    cases active with
    | true => exact unique_activateClient u h
    | false => exact unique_deactivateClient u h
  | create => exact unique_addClient u
  | delete h => exact unique_removeClient u h
  | updateFixIps h fixIps =>
    exact unique_withClients u (ClientManager.sameEdges_setFixIps _ h fixIps)
  | updateHostname h hostname =>
    exact unique_withClients u (ClientManager.sameEdges_setHostname _ h hostname)
  | updatePort h port => exact unique_withClients u (ClientManager.sameEdges_setPort _ h port)
  | updatePosition h pos =>
    exact unique_updateClient u (fun c => { c with pos := pos })
      (ClientManager.setPos_cases _ h pos)
  | updateMonitor h monitor =>
    exact unique_updateClient u (fun c => { c with monitor := monitor })
      (ClientManager.setMonitor_cases _ h monitor)
  | updateEnterHook h enterHook =>
    exact unique_withClients u (ClientManager.sameEdges_setEnterHook _ h enterHook)
  | setClientInputChannels h cfg =>
    exact unique_withClients u (ClientManager.sameEdges_setInputChannels _ h cfg)
  | setEnableClipboardTo h enable =>
    exact unique_withClients u (ClientManager.sameEdges_setEnableClipboardTo _ h enable)
  | _ => exact u

theorem unique_loopStep (u : s.board.Unique) (e : LoopEvent) : (s.loopStep e).board.Unique := by
  cases e with
  | frontend request => exact unique_handleFrontendRequest u request
  | configChange clients releaseBind => exact unique_handleConfigChange u clients releaseBind
  | monitorsChanged monitors => exact unique_monitorsChanged u monitors

/-- Two active clients differ in their position or in their monitor. -/
def ActiveApart (s : Service) : Prop :=
  ∀ g h c d, s.clientManager.get? g = some c → s.clientManager.get? h = some d →
    c.2.active = true → d.2.active = true → (c.1.pos, c.1.monitor) = (d.1.pos, d.1.monitor) → g = h

theorem activeApart_of_unique (u : s.board.Unique) : s.ActiveApart := by
  intro g h c d atG atH activeG activeH same
  obtain ⟨pos, monitor⟩ := Prod.mk.inj same
  refine u g h c.1.key ?_ ?_ ?_ ?_
  · simp [board, ClientManager.isActive, atG, activeG]
  · simp [board, ClientManager.isActive, atH, activeH]
  · simp [board, ClientManager.getKey, atG]
  · simp [board, ClientManager.getKey, atH, ClientConfig.key, pos, monitor]

/-- Once the service has begun its loop, no two active clients have the same position and monitor,
whatever the loop takes up. -/
theorem active_clients_apart (clients : List ConfigClient) (events : List LoopEvent) :
    Transition.Always loopStep ActiveApart (start clients) events :=
  Transition.always_of_inv (fun s => s.board.Unique) (fun _ e u => unique_loopStep u e)
    (fun _ u => activeApart_of_unique u) (settled_start clients).unique events

end Service

end LanMouse
