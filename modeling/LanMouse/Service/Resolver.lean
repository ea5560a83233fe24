import LanMouse.Service.Requests

/-!
# Name resolution

The service asks the resolver for the addresses of a client's hostname whenever the client is
activated, its hostname changes, or a frontend asks for it. The resolver looks one name up per
client at a time: a request aborts the lookup that is still running for the same handle. What a
lookup returns is queued and taken over by the service later, for the client that has the handle
then.

`resolutions` lists what the lookups returned, and `origin` remembers the one from which a client's
addresses were taken. Both are only written.
-/
namespace LanMouse

open Proto Capture Client Transition

structure DnsRequest where
  handle : ClientHandle
  hostname : String
  deriving DecidableEq, Repr

/-- A lookup that fails gives `none`. -/
inductive DnsEvent where
  | resolving (handle : ClientHandle)
  | resolved (handle : ClientHandle) (hostname : String) (ips : Option (List IpAddr))
  deriving DecidableEq, Repr

structure Resolution where
  hostname : String
  ips : List IpAddr
  deriving DecidableEq, Repr

namespace Service

/-! ### When the service asks -/

def resolve (s : Service) (h : ClientHandle) : Option DnsRequest :=
  (s.clientManager.get? h).bind fun c => c.1.hostname.map fun hostname => ⟨h, hostname⟩

/-- An active client of a reloaded configuration is activated anew. -/
def resolveReloaded (s : Service) (c : ConfigClient) : Option DnsRequest :=
  let (h, m) := s.clientManager.addWithConfig c
  if m.isActive h then resolve { s with clientManager := (m.deactivateClient h).2 } h else none

def resolveRecreated (s : Service) (h : ClientHandle) : Option DnsRequest :=
  (s.deactivateClient h).resolve h

def resolveUpdated (s : Service) (h : ClientHandle) (change : Bool × ClientManager) :
    Option DnsRequest :=
  if change.1 then (s.withClients change.2).resolveRecreated h else none

/-- The lookups a monitor snapshot asks for, for the clients whose barrier is made anew. -/
def resolveMoved (s : Service) (newMonitors oldMonitors : List MonitorInfo) : List DnsRequest :=
  let s := s.reconciled oldMonitors newMonitors
  let activeBindings := s.bindings s.clientManager.activeClients
  collect recreateCapture resolveRecreated s
    (recreateMonitors activeBindings newMonitors oldMonitors)

/-- The lookups the service asks for while it takes up an event, in order. -/
def resolves (s : Service) : LoopEvent → List DnsRequest
  | .frontend (.activate h true) | .frontend (.resolveDns h) => (s.resolve h).toList
  | .frontend (.updateHostname h hostname) =>
    let (changed, m) := s.clientManager.setHostname h hostname
    if changed then ((s.withClients m).resolve h).toList else []
  | .frontend (.updatePosition h pos) =>
    (s.resolveUpdated h (s.clientManager.setPos h pos)).toList
  | .frontend (.updateMonitor h monitor) =>
    (s.resolveUpdated h (s.clientManager.setMonitor h monitor)).toList
  | .frontend _ => []
  | .configChange clients _ =>
    let s := s.clientManager.registeredClients.foldl removeClient s
    collect reloadClient resolveReloaded s clients
  | .monitorsChanged monitors =>
    match s.lastMonitors with
    | some old => resolveMoved { s with lastMonitors := some monitors } monitors old
    | none => []

/-- The lookups for the clients that are active in the configuration. -/
def resolvesAtStart (clients : List ConfigClient) : List DnsRequest :=
  let s := new clients
  let active := s.clientManager.activeClients
  let m := active.foldl (fun m h => (m.deactivateClient h).2) s.clientManager
  collect activateClient resolve { s with clientManager := m } active

end Service

/-! ### The resolver -/

structure DnsResolver where
  service : Service
  requestRx : List DnsRequest := []
  activeTasks : AList fun _ : ClientHandle => String := ∅
  eventRx : List DnsEvent := []
  resolutions : List Resolution := []
  origin : ClientHandle → Option Resolution := fun _ => none

namespace DnsResolver

/-- One round of `do_dns`. A lookup that still runs for the handle is aborted. -/
def doDns (s : DnsResolver) : DnsResolver :=
  match s.requestRx with
  | [] => s
  | r :: rest =>
    { s with
      requestRx := rest
      activeTasks := s.activeTasks.insert r.handle r.hostname
      eventRx := s.eventRx ++ [.resolving r.handle] }

/-- The lookup that runs for a handle returns. -/
def complete (s : DnsResolver) (h : ClientHandle) (ips : Option (List IpAddr)) : DnsResolver :=
  match s.activeTasks.lookup h with
  | none => s
  | some hostname =>
    { s with
      activeTasks := s.activeTasks.erase h
      eventRx := s.eventRx ++ [.resolved h hostname ips]
      resolutions := s.resolutions ++ (ips.map (⟨hostname, ·⟩)).toList }

def withClients (s : DnsResolver) (m : ClientManager) : DnsResolver :=
  { s with service := s.service.withClients m }

/-- What the service does with an event of the resolver. -/
def handleResolverEvent (s : DnsResolver) : DnsEvent → DnsResolver
  | .resolving h => s.withClients (s.service.clientManager.setResolving h true)
  | .resolved h hostname ips =>
    let m := s.service.clientManager.setResolving h false
    let addrs := ips.getD []
    { s.withClients (m.setDnsIps h addrs) with
      origin := Function.update s.origin h (some ⟨hostname, addrs⟩) }

def deliver (s : DnsResolver) : DnsResolver :=
  match s.eventRx with
  | [] => s
  | e :: rest => { s with eventRx := rest }.handleResolverEvent e

inductive Event where
  | loop (e : Service.LoopEvent)
  | doDns
  | complete (h : ClientHandle) (ips : Option (List IpAddr))
  | deliver

def step (s : DnsResolver) : Event → DnsResolver
  | .loop e =>
    { s with service := s.service.loopStep e, requestRx := s.requestRx ++ s.service.resolves e }
  | .doDns => s.doDns
  | .complete h ips => s.complete h ips
  | .deliver => s.deliver

def start (clients : List ConfigClient) : DnsResolver where
  service := .start clients
  requestRx := Service.resolvesAtStart clients

end DnsResolver

/-! ### Hostnames and addresses -/

namespace Client.ClientManager

variable {m m' m'' : ClientManager}

/-- A client that has addresses from a lookup had them before, under the same hostname. -/
def Keeps (m m' : ClientManager) : Prop :=
  ∀ h c', m'.get? h = some c' → c'.2.dnsIps = [] ∨
    ∃ c, m.get? h = some c ∧ c'.1.hostname = c.1.hostname ∧ c'.2.dnsIps = c.2.dnsIps

theorem Keeps.refl (m : ClientManager) : Keeps m m := fun _ c at_ => .inr ⟨c, at_, rfl, rfl⟩

theorem Keeps.trans (first : Keeps m m') (second : Keeps m' m'') : Keeps m m'' := by
  intro h c'' at''
  obtain empty | ⟨c', at', hostname', ips'⟩ := second h c'' at''
  · exact .inl empty
  obtain empty | ⟨c, at_, hostname, ips⟩ := first h c' at'
  · exact .inl (ips'.trans empty)
  · exact .inr ⟨c, at_, hostname'.trans hostname, ips'.trans ips⟩

theorem keeps_foldl {σ α : Type} {f : σ → α → σ} (clients : σ → ClientManager)
    (keeps : ∀ s a, Keeps (clients s) (clients (f s a))) (s : σ) (as : List α) :
    Keeps (clients s) (clients (as.foldl f s)) := by
  induction as generalizing s with
  | nil => exact .refl _
  | cons a as ih => exact (keeps s a).trans (ih (f s a))

/-- A client that is changed keeps its hostname and its addresses, or loses the addresses. -/
theorem keeps_modify (m : ClientManager) (h : ClientHandle)
    {f : ClientConfig × ClientState → ClientConfig × ClientState}
    (kept : ∀ c, (f c).2.dnsIps = [] ∨
      (f c).1.hostname = c.1.hostname ∧ (f c).2.dnsIps = c.2.dnsIps) : Keeps m (m.modify h f) := by
  intro j c' at'
  rw [Slab.get?_modify] at at'
  split_ifs at at'
  · obtain ⟨c, at_, rfl⟩ := Option.map_eq_some_iff.mp at'
    exact (kept c).imp_right fun same => ⟨c, at_, same⟩
  · exact .inr ⟨c', at', rfl, rfl⟩

/-- A client is registered without addresses from a lookup. -/
theorem keeps_of_get? {h : ClientHandle} {c : ClientConfig × ClientState}
    (get : ∀ j, m'.get? j = if j = h then some c else m.get? j) (empty : c.2.dnsIps = []) :
    Keeps m m' := by
  intro j c' at'
  rw [get] at at'
  split_ifs at at'
  · cases at'
    exact .inl empty
  · exact .inr ⟨c', at', rfl, rfl⟩

variable (m) (h : ClientHandle)

theorem keeps_remove : Keeps m (m.remove h).2 := by
  intro j c' at'
  rw [Slab.get?_remove] at at'
  split_ifs at at'
  exact .inr ⟨c', at', rfl, rfl⟩

theorem keeps_setActive (active : Bool) : Keeps m (setActive m h active) :=
  keeps_modify m h fun _ => .inr ⟨rfl, rfl⟩

theorem keeps_deactivateClient : Keeps m (deactivateClient m h).2 := by
  rw [deactivateClient_eq]
  split_ifs
  · exact keeps_setActive m h false
  · exact .refl m

theorem keeps_activateClient : Keeps m (activateClient m h).2 := by
  rw [activateClient_eq]
  split_ifs
  · exact keeps_setActive m h true
  · exact .refl m

theorem keeps_updateIps : Keeps m (updateIps m h) :=
  keeps_modify m h fun _ => .inr ⟨rfl, rfl⟩

theorem keeps_setHostname (hostname : Option String) : Keeps m (setHostname m h hostname).2 := by
  obtain same | ⟨c, -, changed⟩ := setHostname_cases m h hostname
  · rw [same]
    exact .refl m
  · rw [changed]
    exact (keeps_modify m h fun _ => .inl rfl).trans (keeps_updateIps _ h)

theorem keeps_setFixIps (ips : List IpAddr) : Keeps m (setFixIps m h ips) := by
  refine Keeps.trans ?_ (keeps_updateIps _ h)
  exact keeps_modify m h fun _ => .inr ⟨rfl, rfl⟩

theorem keeps_setPort (port : UInt16) : Keeps m (setPort m h port) := by
  obtain same | ⟨c, -, changed⟩ := setPort_cases m h port
  · rw [same]
    exact .refl m
  · rw [changed]
    exact keeps_modify m h fun _ => .inr ⟨rfl, rfl⟩

theorem keeps_setInputChannels (cfg : InputChannelConfig) :
    Keeps m (setInputChannels m h cfg).2 := by
  obtain same | ⟨c, -, changed⟩ := setInputChannels_cases m h cfg
  · rw [same]
    exact .refl m
  · rw [changed]
    exact keeps_modify m h fun _ => .inr ⟨rfl, rfl⟩

theorem keeps_setEnableClipboardTo (enable : Bool) :
    Keeps m (setEnableClipboardTo m h enable).2 := by
  obtain same | ⟨c, -, changed⟩ := setEnableClipboardTo_cases m h enable
  · rw [same]
    exact .refl m
  · rw [changed]
    exact keeps_modify m h fun _ => .inr ⟨rfl, rfl⟩

theorem keeps_setPos (pos : Position) : Keeps m (setPos m h pos).2 := by
  obtain same | ⟨c, -, changed⟩ := setPos_cases m h pos
  · rw [same]
    exact .refl m
  · rw [changed]
    exact keeps_modify m h fun _ => .inr ⟨rfl, rfl⟩

theorem keeps_setMonitor (monitor : Option String) : Keeps m (setMonitor m h monitor).2 := by
  obtain same | ⟨c, -, changed⟩ := setMonitor_cases m h monitor
  · rw [same]
    exact .refl m
  · rw [changed]
    exact keeps_modify m h fun _ => .inr ⟨rfl, rfl⟩

end Client.ClientManager

namespace Service

open ClientManager

variable (s : Service) (h : ClientHandle)

theorem keeps_deactivate : Keeps s.clientManager (s.deactivateClient h).clientManager := by
  unfold deactivateClient
  dsimp only
  split_ifs <;> exact keeps_deactivateClient _ h

theorem keeps_activate : Keeps s.clientManager (s.activateClient h).clientManager := by
  have room (key : BarrierKey) : Keeps s.clientManager (s.makeRoom h key).clientManager := by
    unfold makeRoom
    split
    · split_ifs
      · exact keeps_deactivate s _
      · exact .refl _
    · exact .refl _
  unfold activateClient
  split
  · exact .refl _
  · next key _ =>
    dsimp only
    split_ifs <;> exact (room key).trans (keeps_activateClient _ h)

theorem keeps_recreate : Keeps s.clientManager (s.recreateCapture h).clientManager :=
  (keeps_deactivate s h).trans (keeps_activate _ h)

theorem keeps_removeClient : Keeps s.clientManager (s.removeClient h).clientManager := by
  unfold removeClient
  dsimp only
  split_ifs <;> exact keeps_remove _ h

theorem keeps_reloadClient (cc : ConfigClient) :
    Keeps s.clientManager (s.reloadClient cc).clientManager := by
  have added : Keeps s.clientManager (s.clientManager.addWithConfig cc).2 :=
    keeps_of_get? (get?_addWithConfig s.clientManager cc).2 rfl
  unfold reloadClient
  dsimp only
  split_ifs
  · exact (added.trans (keeps_deactivateClient _ _)).trans (keeps_activate _ _)
  · exact added

theorem keeps_updateClient {change : Bool × ClientManager}
    (keeps : Keeps s.clientManager change.2) :
    Keeps s.clientManager (s.updateClient h change).clientManager := by
  unfold updateClient
  dsimp only
  split_ifs
  · exact keeps.trans (keeps_recreate _ h)
  · exact keeps

theorem keeps_reattachCapture : Keeps s.clientManager (s.reattachCapture h).clientManager := by
  unfold reattachCapture
  split <;> exact .refl _

theorem keeps_reconciled (old new : List MonitorInfo) :
    Keeps s.clientManager (s.reconciled old new).clientManager := by
  have detach (s : Service) (h : ClientHandle) :
      Keeps s.clientManager (s.detachCapture h).clientManager := .refl _
  exact (keeps_foldl clientManager detach s _).trans
    (keeps_foldl clientManager keeps_reattachCapture _ _)

theorem keeps_monitorsChanged (monitors : List MonitorInfo) :
    Keeps s.clientManager (s.monitorsChanged monitors).clientManager := by
  unfold monitorsChanged
  cases s.lastMonitors with
  | none => exact .refl _
  | some old =>
    dsimp only
    rw [reconcileMonitorsChanged_eq]
    have reconciled := keeps_reconciled { s with lastMonitors := some monitors } old monitors
    exact reconciled.trans (keeps_foldl clientManager keeps_recreate _ _)

theorem keeps_handleFrontendRequest (r : FrontendRequest) :
    Keeps s.clientManager (s.handleFrontendRequest r).clientManager := by
  cases r with
  | activate h active =>
    cases active with
    | true => exact keeps_activate s h
    | false => exact keeps_deactivate s h
  | create => exact keeps_of_get? (get?_addClient s.clientManager).2 rfl
  | delete h => exact keeps_removeClient s h
  | updateFixIps h fixIps => exact keeps_setFixIps _ h fixIps
  | updateHostname h hostname => exact keeps_setHostname _ h hostname
  | updatePort h port => exact keeps_setPort _ h port
  | updatePosition h pos => exact keeps_updateClient s h (keeps_setPos _ h pos)
  | updateMonitor h monitor => exact keeps_updateClient s h (keeps_setMonitor _ h monitor)
  | updateEnterHook h enterHook => exact keeps_modify _ h fun _ => .inr ⟨rfl, rfl⟩
  | setClientInputChannels h cfg => exact keeps_setInputChannels _ h cfg
  | setEnableClipboardTo h enable => exact keeps_setEnableClipboardTo _ h enable
  | _ => exact .refl _

theorem keeps_loopStep (e : LoopEvent) : Keeps s.clientManager (s.loopStep e).clientManager := by
  cases e with
  | frontend request => exact keeps_handleFrontendRequest s request
  | configChange clients releaseBind =>
    have removed := keeps_foldl clientManager keeps_removeClient s s.clientManager.registeredClients
    exact removed.trans (keeps_foldl clientManager keeps_reloadClient _ clients)
  | monitorsChanged monitors => exact keeps_monitorsChanged s monitors

theorem keeps_start (clients : List ConfigClient) :
    Keeps Slab.empty (start clients).clientManager := by
  have added : Keeps Slab.empty (new clients).clientManager :=
    keeps_foldl id (fun m c => keeps_of_get? (get?_addWithConfig m c).2 rfl) Slab.empty clients
  refine (added.trans ?_).trans (keeps_foldl clientManager keeps_activate _ _)
  exact keeps_foldl id keeps_deactivateClient _ _

end Service

namespace DnsResolver

variable {s : DnsResolver}

/-- The addresses of every client are none or what a lookup of its hostname returned. -/
def Current (s : DnsResolver) : Prop :=
  ∀ h c, s.service.clientManager.get? h = some c → c.2.dnsIps = [] ∨
    ∃ r ∈ s.resolutions, s.origin h = some r ∧ c.1.hostname = some r.hostname ∧ c.2.dnsIps = r.ips

/-- What a lookup returned comes to a client that still has the hostname. -/
def Timely (s : DnsResolver) : Event → Prop
  | .deliver =>
    match s.eventRx with
    | .resolved h hostname (some ips) :: _ =>
      ips = [] ∨ ∀ c, s.service.clientManager.get? h = some c → c.1.hostname = some hostname
    | _ => True
  | .loop _ | .doDns | .complete _ _ => True

/-- The results that are queued were returned by a lookup. -/
def Logged (s : DnsResolver) : Prop :=
  ∀ h hostname ips, .resolved h hostname (some ips) ∈ s.eventRx → ⟨hostname, ips⟩ ∈ s.resolutions

theorem logged_of_subset {s' : DnsResolver} (logged : s.Logged) (queued : s'.eventRx ⊆ s.eventRx)
    (same : s'.resolutions = s.resolutions) : s'.Logged := by
  intro h hostname ips mem
  rw [same]
  exact logged h hostname ips (queued mem)

theorem eventRx_handleResolverEvent (s : DnsResolver) (e : DnsEvent) :
    (s.handleResolverEvent e).eventRx = s.eventRx ∧
      (s.handleResolverEvent e).resolutions = s.resolutions := by
  cases e <;> exact ⟨rfl, rfl⟩

theorem Logged.step (logged : s.Logged) (e : Event) : (s.step e).Logged := by
  cases e with
  | loop e => exact logged
  | doDns =>
    dsimp only [DnsResolver.step, doDns]
    split
    · exact logged
    · intro h hostname ips mem
      exact logged h hostname ips (by simpa using mem)
  | complete h ips =>
    dsimp only [DnsResolver.step, complete]
    split
    · exact logged
    · intro h' hostname' ips' mem
      rw [List.mem_append, List.mem_singleton] at mem
      rw [List.mem_append]
      rcases mem with queued | new
      · exact .inl (logged h' hostname' ips' queued)
      · cases new
        exact .inr (List.mem_singleton_self _)
  | deliver =>
    dsimp only [DnsResolver.step, deliver]
    split
    · exact logged
    · next e rest queue =>
      obtain ⟨events, resolutions⟩ := eventRx_handleResolverEvent { s with eventRx := rest } e
      refine logged_of_subset logged ?_ resolutions
      rw [events, queue]
      exact List.subset_cons_self e rest

/-- Clients that keep their hostname with their addresses have current addresses still. -/
theorem Current.of_keeps {s' : DnsResolver} (current : s.Current)
    (keeps : ClientManager.Keeps s.service.clientManager s'.service.clientManager)
    (logged : s.resolutions ⊆ s'.resolutions) (origin : s'.origin = s.origin) : s'.Current := by
  intro h c' at'
  obtain empty | ⟨c, at_, hostname, ips⟩ := keeps h c' at'
  · exact .inl empty
  rw [ips, hostname, origin]
  refine (current h c at_).imp_right ?_
  rintro ⟨r, mem, rest⟩
  exact ⟨r, logged mem, rest⟩

/-- The client after the service has taken over what a lookup returned. -/
theorem get?_resolved (m : ClientManager) (h j : ClientHandle) (ips : List IpAddr) :
    ((m.setResolving h false).setDnsIps h ips).get? j =
      if j = h then (m.get? j).map fun c => (c.1, { c.2 with
        resolving := false, dnsIps := ips, ips := (c.1.fixIps ++ ips).dedup })
      else m.get? j := by
  unfold ClientManager.setResolving ClientManager.setDnsIps ClientManager.updateIps
  rw [Slab.get?_modify, Slab.get?_modify, Slab.get?_modify]
  split_ifs
  · cases m.get? j <;> rfl
  · rfl

theorem current_resolved_iff (current : s.Current) {h : ClientHandle} {hostname : String}
    {ips : Option (List IpAddr)}
    (logged : ∀ list, ips = some list → ⟨hostname, list⟩ ∈ s.resolutions) :
    (s.handleResolverEvent (.resolved h hostname ips)).Current ↔ ips.getD [] = [] ∨
      ∀ c, s.service.clientManager.get? h = some c → c.1.hostname = some hostname := by
  have get (j : ClientHandle) := get?_resolved s.service.clientManager h j (ips.getD [])
  constructor
  · intro after
    refine or_iff_not_imp_left.mpr fun some_ c at_ => ?_
    have own := get h
    rw [if_pos rfl, at_] at own
    obtain empty | ⟨r, -, origin, hostname_, -⟩ := after h _ own
    · exact absurd empty some_
    · have same : some ⟨hostname, ips.getD []⟩ = some r :=
        (Function.update_self h _ s.origin).symm.trans origin
      cases same
      exact hostname_
  · intro timely j c' at'
    have at' := (get j).symm.trans at'
    by_cases own : j = h
    · subst own
      rw [if_pos rfl] at at'
      obtain ⟨c, at_, rfl⟩ := Option.map_eq_some_iff.mp at'
      cases ips with
      | none => exact .inl rfl
      | some list =>
        refine timely.imp_right fun same => ⟨⟨hostname, list⟩, logged list rfl, ?_, same c at_, rfl⟩
        exact Function.update_self ..
    · rw [if_neg own] at at'
      refine (current j c' at').imp_right fun ⟨r, mem, origin, rest⟩ => ⟨r, mem, ?_, rest⟩
      exact (Function.update_of_ne own ..).trans origin

theorem current_deliver_iff (current : s.Current) (logged : s.Logged) :
    s.deliver.Current ↔ s.Timely .deliver := by
  unfold deliver Timely
  cases queue : s.eventRx with
  | nil => exact iff_of_true current trivial
  | cons e rest =>
    cases e with
    | resolving h =>
      refine iff_of_true (current.of_keeps ?_ (List.Subset.refl _) rfl) trivial
      exact ClientManager.keeps_modify _ h fun _ => .inr ⟨rfl, rfl⟩
    | resolved h hostname ips =>
      have current : ({ s with eventRx := rest } : DnsResolver).Current := current
      refine (current_resolved_iff current ?_).trans ?_
      · rintro list rfl
        exact logged h hostname list (by simp [queue])
      · cases ips with
        | none => exact iff_of_true (.inl rfl) trivial
        | some list => rfl

theorem current_step_iff (current : s.Current) (logged : s.Logged) (e : Event) :
    (s.step e).Current ↔ s.Timely e := by
  cases e with
  | loop e =>
    refine iff_of_true (current.of_keeps ?_ (List.Subset.refl _) rfl) trivial
    exact Service.keeps_loopStep s.service e
  | doDns =>
    refine iff_of_true ?_ trivial
    dsimp only [step, doDns]
    split
    · exact current
    · exact current.of_keeps (.refl _) (List.Subset.refl _) rfl
  | complete h ips =>
    refine iff_of_true ?_ trivial
    dsimp only [step, complete]
    split
    · exact current
    · exact current.of_keeps (.refl _) (List.subset_append_left _ _) rfl
  | deliver => exact current_deliver_iff current logged

/-- The clients of the configuration have no addresses yet. -/
theorem current_start (clients : List ConfigClient) : (start clients).Current := by
  intro h c at_
  obtain empty | ⟨c', at', -⟩ := Service.keeps_start clients h c at_
  · exact .inl empty
  · rw [Slab.get?_empty] at at'
    cases at'

/-- The addresses of every client are those of its hostname, at all times, exactly when no result
comes to a client that has another hostname by then. -/
theorem addresses_current_iff (clients : List ConfigClient) (events : List Event) :
    Always step Current (start clients) events ↔ AllMeet step Timely (start clients) events := by
  refine always_iff_allMeet (fun s => s.Current ∧ s.Logged) ?_ ?_ ?_ ?_ events
  · rintro s e ⟨current, logged⟩ timely
    exact ⟨(current_step_iff current logged e).mpr timely, logged.step e⟩
  · exact fun s inv => inv.1
  · rintro s e ⟨current, logged⟩ after
    exact (current_step_iff current logged e).mp after
  · exact ⟨current_start clients, nofun⟩

/-- The hostname of a client is cleared while what a lookup of it returned is still queued. The
client, which has no hostname, gets the addresses. -/
theorem stale_addresses :
    let s := run step (start []) [.loop (.frontend .create),
      .loop (.frontend (.updateHostname 0 (some "a"))), .doDns,
      .complete 0 (some [.v4 #v[10, 0, 0, 2]]), .loop (.frontend (.updateHostname 0 none)),
      .deliver, .deliver]
    (s.service.clientManager.get? 0).map (fun c => (c.1.hostname, c.2.dnsIps)) =
      some (none, [.v4 #v[10, 0, 0, 2]]) := by
  decide

end DnsResolver

end LanMouse
