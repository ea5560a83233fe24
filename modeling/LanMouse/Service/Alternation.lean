import LanMouse.Lib.Transition
import LanMouse.Service.Board

/-!
# Creating and destroying barriers in turn

The requests for each client alternate over a run of the service exactly when every event finds the
barriers as its handler supposes them. What the handlers suppose can be wrong for a client whose
monitor is absent: its barrier may be missing although the client is active, or it may have been
created while the monitor was absent.
-/
namespace LanMouse

open Proto Capture Client

namespace Service

open Board

variable {s : Service} {h other : ClientHandle} {key : BarrierKey} {excused : BarrierKey → Prop}

/-! ### Requests are never taken back -/

/-- `s'` has the requests of `s` and possibly more. -/
def Grows (s s' : Service) : Prop := s.requests <+: s'.requests

theorem Grows.alternates {s s' : Service} (grows : Grows s s') (alternates : s'.board.Alternates) :
    s.board.Alternates := by
  obtain ⟨more, same⟩ := grows
  unfold Alternates board at alternates ⊢
  rw [← same, List.filterMap_append] at alternates
  exact alternates.of_append

theorem grows_request (s : Service) (r : CaptureRequest) : Grows s (s.request r) :=
  List.prefix_append _ _

theorem grows_deactivateClient (s : Service) (h : ClientHandle) :
    Grows s (s.deactivateClient h) := by
  unfold deactivateClient
  dsimp only
  split_ifs
  · exact grows_request _ _
  · exact List.prefix_refl _

theorem grows_activateClient (s : Service) (h : ClientHandle) : Grows s (s.activateClient h) := by
  have room : ∀ key, Grows s (s.makeRoom h key) := by
    intro key
    unfold makeRoom
    split
    · split_ifs
      · exact grows_deactivateClient s _
      · exact List.prefix_refl _
    · exact List.prefix_refl _
  unfold activateClient
  split
  · exact List.prefix_refl _
  · dsimp only
    split_ifs
    · exact ((room _).trans (grows_request _ _)).trans (grows_request _ _)
    · exact room _

theorem grows_recreateCapture (s : Service) (h : ClientHandle) : Grows s (s.recreateCapture h) :=
  (grows_deactivateClient s h).trans (grows_activateClient _ h)

theorem grows_removeClient (s : Service) (h : ClientHandle) : Grows s (s.removeClient h) := by
  unfold removeClient
  dsimp only
  split_ifs
  · exact grows_request _ _
  · exact List.prefix_refl _

theorem grows_reloadClient (s : Service) (c : ConfigClient) : Grows s (s.reloadClient c) := by
  unfold reloadClient
  generalize s.clientManager.addWithConfig c = added
  dsimp only
  split_ifs
  · exact grows_activateClient
      { s with clientManager := (added.2.deactivateClient added.1).2 } added.1
  · exact List.prefix_refl _

theorem grows_foldl {α : Type} {f : Service → α → Service} (grows : ∀ s a, Grows s (f s a))
    (s : Service) (as : List α) : Grows s (as.foldl f s) := by
  induction as generalizing s with
  | nil => exact List.prefix_refl _
  | cons a as ih => exact (grows s a).trans (ih (f s a))

/-! ### Adding, removing and changing clients -/

theorem Orderly.holds_rekey (o : Orderly excused s.board) {j : ClientHandle} (apart : j ≠ h)
    (key? : Option BarrierKey) : ((s.board.off h).rekey h key?).holds j = s.board.holds j := by
  change (s.board.off h).holds j = _
  simp [o.holds_off, apart]

theorem Orderly.roomFor_rekey (o : Orderly excused s.board) (key? : Option BarrierKey) :
    ((s.board.off h).rekey h key?).RoomFor h key ↔ s.board.RoomFor h key := by
  have occupies : ∀ other, ((s.board.off h).rekey h key?).Occupies other h key ↔
      s.board.Occupies other h key := by
    intro other
    unfold Occupies
    refine and_congr_right fun apart => ?_
    simp [Board.rekey, apart]
  refine forall_congr' fun other => ?_
  rw [occupies]
  exact imp_congr_right fun occ => by rw [Orderly.holds_rekey o occ.1]

/-- An active client that changes is deactivated with its new edge, and activated again. -/
theorem updateClient_eq {c : ClientConfig × ClientState}
    (present : s.clientManager.get? h = some c) (f : ClientConfig → ClientConfig) :
    let s' := s.updateClient h (c.2.active, s.clientManager.modify h fun c => (f c.1, c.2))
    s.board.active h = c.2.active ∧
      (c.2.active = false → s'.board = s.board.rekey h (some (f c.1).key)) ∧
      (c.2.active = true → ∃ off : Service, off.board = (s.board.off h).rekey h (some (f c.1).key) ∧
        s' = off.activateClient h) := by
  intro s'
  let changed : Service :=
    { s with clientManager := s.clientManager.modify h fun c => (f c.1, c.2) }
  have board_changed : changed.board = s.board.rekey h (some (f c.1).key) := by
    unfold changed board Board.rekey
    rw [ClientManager.isActive_modify, ClientManager.getKey_modify present]
  have flag : s.board.active h = c.2.active := by
    simp [board, ClientManager.isActive, present]
  refine ⟨flag, fun active => ?_, fun active => ⟨changed.deactivateClient h, ?_, ?_⟩⟩
  · have same : s' = changed := by simp [s', updateClient, active, changed]
    rw [same, board_changed]
  · rw [board_deactivateClient, board_changed]
    unfold Board.off Board.rekey
    simp [flag, active]
  · simp [s', updateClient, recreateCapture, active, changed]

/-- Give a client a new configuration and, if it is active, a new barrier. -/
theorem updateClient_spec (o : Orderly excused s.board) {c : ClientConfig × ClientState}
    (present : s.clientManager.get? h = some c) (f : ClientConfig → ClientConfig) :
    let s' := s.updateClient h (c.2.active, s.clientManager.modify h fun c => (f c.1, c.2))
    let fine := s.board.active h → s.board.holds h ∧ s.board.RoomFor h (f c.1).key
    (s'.board.Alternates → fine) ∧ (fine → Orderly excused s'.board) := by
  intro s' fine
  obtain ⟨flag, whenOff, whenOn⟩ := updateClient_eq present f
  cases active : c.2.active with
  | false =>
    rw [active] at flag
    refine ⟨fun _ on => absurd (flag.symm.trans on) Bool.false_ne_true, fun _ => ?_⟩
    have board_ : s'.board = s.board.rekey h (some (f c.1).key) := whenOff active
    rw [board_]
    exact o.rekey flag _
  | true =>
    obtain ⟨off, board_, same⟩ := whenOn active
    have same : s' = off.activateClient h := same
    rw [active] at flag
    have own : off.board.key? h = some (f c.1).key := by
      simp [board_, Board.rekey]
    have orderly (held : s.board.holds h) : Orderly excused off.board := by
      rw [board_]
      exact (o.off fun _ => held).rekey (by simp) _
    constructor
    · intro alternates _
      rw [same] at alternates
      have before := (grows_activateClient _ h).alternates alternates
      rw [board_] at before
      have held : s.board.holds h := (alternates_off.mp before).2 flag
      refine ⟨held, ?_⟩
      have room := alternates_of_activateClient (orderly held) own alternates
      rwa [board_, Orderly.roomFor_rekey o] at room
    · intro fine
      obtain ⟨held, room⟩ := fine flag
      rw [same]
      refine Orderly.activateClient (orderly held) own ?_
      rwa [board_, Orderly.roomFor_rekey o]

theorem board_removeClient (s : Service) (h : ClientHandle) :
    (s.removeClient h).board = (s.board.off h).rekey h none := by
  have removed : ((s.clientManager.remove h).1.any (·.2.active)) = s.board.active h := by
    rw [Slab.remove_fst]
    rfl
  unfold removeClient Board.off
  dsimp only
  rw [removed]
  cases active : s.board.active h with
  | true =>
    simp only [if_true, board_request, CaptureRequest.switch?]
    simp only [board, ClientManager.isActive_remove, ClientManager.getKey_remove]
    rfl
  | false =>
    simp only [Bool.false_eq_true, if_false]
    simp only [board, ClientManager.isActive_remove, ClientManager.getKey_remove, Board.rekey]
    congr 1
    exact (Function.update_eq_self_iff).mpr active.symm

theorem Orderly.removeClient (o : Orderly excused s.board)
    (held : s.board.active h → s.board.holds h) : Orderly excused (s.removeClient h).board := by
  rw [board_removeClient]
  exact (o.off held).rekey (by simp) _

theorem alternates_of_removeClient (alternates : (s.removeClient h).board.Alternates) :
    s.board.active h → s.board.holds h := by
  rw [board_removeClient] at alternates
  exact (alternates_off.mp alternates).2

/-- A client that is added is inactive. -/
theorem addClient_spec (s : Service) : ∃ h key?,
    s.board.active h = false ∧ s.addClient.board = s.board.rekey h key? := by
  obtain ⟨fresh, get⟩ := s.clientManager.get?_addClient
  refine ⟨s.clientManager.addClient.1, some ({} : ClientConfig).key, ?_, ?_⟩
  · simp [board, ClientManager.isActive, fresh]
  · unfold Service.addClient board Board.rekey
    rw [ClientManager.isActive_of_get? fresh get rfl, ClientManager.getKey_of_get? get]

theorem Orderly.addClient (o : Orderly excused s.board) : Orderly excused s.addClient.board := by
  obtain ⟨h, key?, inactive, board_⟩ := addClient_spec s
  rw [board_]
  exact o.rekey inactive key?

/-! ### Reloading the configuration -/

/-- A client of a reloaded configuration is registered as inactive and then activated. -/
theorem reloadClient_spec (s : Service) (cc : ConfigClient) : ∃ h key? registered,
    s.board.active h = false ∧ Service.board registered = s.board.rekey h key? ∧
      s.reloadClient cc = if cc.active then registered.activateClient h else registered := by
  obtain ⟨fresh, get⟩ := s.clientManager.get?_addWithConfig cc
  generalize hm : s.clientManager.addWithConfig cc = added at fresh get
  obtain ⟨h, m⟩ := added
  have inactive : s.board.active h = false := by
    simp [board, ClientManager.isActive, fresh]
  have flag : m.isActive h = cc.active := by
    simp [ClientManager.isActive, get, ConfigClient.state]
  have key_ := ClientManager.getKey_of_get? get
  unfold Service.reloadClient
  rw [hm]
  dsimp only
  rw [flag]
  cases active : cc.active with
  | false =>
    refine ⟨h, some cc.config.key, { s with clientManager := m }, inactive, ?_, rfl⟩
    unfold board Board.rekey
    rw [ClientManager.isActive_of_get? fresh get active, key_]
  | true =>
    rw [active] at flag
    refine ⟨h, some cc.config.key, { s with clientManager := (m.deactivateClient h).2 }, inactive,
      ?_, rfl⟩
    rw [ClientManager.deactivateClient_eq, if_pos flag]
    unfold board Board.rekey
    dsimp only
    rw [ClientManager.isActive_setActive _ _ _ (by simp [get]), ClientManager.getKey_setActive,
      key_]
    congr 1
    funext j
    by_cases same : j = h
    · subst same
      simpa [board] using inactive.symm
    · simp [same, ClientManager.isActive, get]

theorem Orderly.reloadClient (o : Orderly (fun _ => False) s.board) (cc : ConfigClient) :
    Orderly (fun _ => False) (s.reloadClient cc).board := by
  obtain ⟨h, key?, registered, inactive, board_, eq⟩ := reloadClient_spec s cc
  have orderly : Orderly (fun _ => False) registered.board := by
    rw [board_]
    exact o.rekey inactive key?
  rw [eq]
  split_ifs
  · exact Orderly.activateClient_held orderly h
  · exact orderly

theorem Orderly.foldl_reloadClient (o : Orderly (fun _ => False) s.board)
    (clients : List ConfigClient) :
    Orderly (fun _ => False) (clients.foldl Service.reloadClient s).board := by
  induction clients generalizing s with
  | nil => exact o
  | cons c rest ih => exact ih (Orderly.reloadClient o c)

/-- Removing clients one after another. -/
theorem foldl_removeClient_spec (o : Orderly excused s.board) {hs : List ClientHandle}
    (nodup : hs.Nodup) :
    let s' := hs.foldl removeClient s
    let fine := ∀ h ∈ hs, s.board.active h → s.board.holds h
    (s'.board.Alternates → fine) ∧
      (fine → Orderly excused s'.board ∧
        ∀ h, s'.board.active h = (s.board.active h && h ∉ hs)) := by
  intro s' fine
  induction hs generalizing s with
  | nil => exact ⟨fun _ h mem => absurd mem List.not_mem_nil, fun _ => ⟨o, by simp [s']⟩⟩
  | cons h rest ih =>
    obtain ⟨notMem, nodup⟩ := List.nodup_cons.mp nodup
    have active : ∀ j, (s.removeClient h).board.active j = (s.board.active j && j ≠ h) := by
      simp [board_removeClient, Board.rekey]
    have later (held : s.board.active h → s.board.holds h) :
        (∀ j ∈ rest, (s.removeClient h).board.active j → (s.removeClient h).board.holds j) ↔
          ∀ j ∈ rest, s.board.active j → s.board.holds j := by
      refine forall₂_congr fun j mem => ?_
      have apart : j ≠ h := fun same => notMem (same ▸ mem)
      rw [active, board_removeClient, Orderly.holds_rekey o apart]
      simp [apart]
    constructor
    · intro alternates
      have first : s.board.active h → s.board.holds h :=
        alternates_of_removeClient ((grows_foldl grows_removeClient _ rest).alternates alternates)
      have rest_ := (ih (Orderly.removeClient o first) nodup).1 alternates
      exact List.forall_mem_cons.mpr ⟨first, (later first).mp rest_⟩
    · intro fine
      obtain ⟨first, rest_⟩ := List.forall_mem_cons.mp fine
      obtain ⟨o', active'⟩ := (ih (Orderly.removeClient o first) nodup).2 ((later first).mpr rest_)
      refine ⟨o', fun j => (active' j).trans ?_⟩
      rw [active]
      by_cases same : j = h <;> simp [same]

theorem handleConfigChange_spec (o : Orderly excused s.board) (clients : List ConfigClient)
    (releaseBind : List Scancode) :
    let s' := s.handleConfigChange clients releaseBind
    let fine := ∀ h, s.board.active h → s.board.holds h
    (s'.board.Alternates → fine) ∧ (fine → Orderly excused s'.board) := by
  intro s' fine
  have registered : ∀ h, s.board.active h → h ∈ s.clientManager.keys := fun h active =>
    Slab.mem_keys.mpr (ClientManager.isSome_of_isActive active)
  obtain ⟨only, enough⟩ := foldl_removeClient_spec o s.clientManager.nodup_keys
  constructor
  · intro alternates h active
    have before := (grows_foldl grows_reloadClient _ clients).alternates
      ((grows_request _ _).alternates alternates)
    exact only before h (registered h active) active
  · intro fine
    obtain ⟨o', active⟩ := enough fun h _ => fine h
    have empty : Orderly (fun _ => False)
        (s.clientManager.keys.foldl removeClient s).board :=
      o'.of_held fun h active' => by
        rw [active, Bool.and_eq_true, decide_eq_true_eq] at active'
        exact absurd (registered h active'.1) active'.2
    have reloaded := Orderly.foldl_reloadClient empty clients
    have same : s'.board = (clients.foldl Service.reloadClient
        (s.clientManager.keys.foldl removeClient s)).board := by
      unfold s' handleConfigChange
      simp [board_request, CaptureRequest.switch?, ClientManager.registeredClients]
    rw [same]
    exact reloaded.of_held reloaded.held

/-! ### Monitor snapshots -/

/-- The edge is bound to a monitor that the last snapshot does not have. -/
def Absent (last : Option (List MonitorInfo)) (key : BarrierKey) : Prop :=
  ∃ id monitors, key.monitor = some id ∧ last = some monitors ∧ present monitors id = false

theorem map_filter_bindings (s : Service) (hs : List ClientHandle)
    (p : ClientHandle × BarrierKey → Bool) :
    ((s.bindings hs).filter p).map (·.1) =
      hs.filter fun h => (s.board.key? h).any fun key => p (h, key) := by
  induction hs with
  | nil => rfl
  | cons h rest ih =>
    rw [List.filter_cons, ← ih]
    change (((h :: rest).filterMap fun h => (s.board.key? h).map fun key => (h, key)).filter p).map
      (·.1) = _
    cases own : s.board.key? h with
    | none =>
      rw [List.filterMap_cons_none (by simp [own])]
      rfl
    | some key =>
      rw [List.filterMap_cons_some (b := (h, key)) (by simp [own])]
      simp only [Option.any_some, List.filter_cons]
      split_ifs <;> rfl

theorem foldl_detachCapture (s : Service) (hs : List ClientHandle) :
    (hs.foldl detachCapture s).clientManager = s.clientManager ∧
      (hs.foldl detachCapture s).lastMonitors = s.lastMonitors ∧
      (hs.foldl detachCapture s).board =
        { s.board with log := s.board.log ++ hs.map (·, false) } := by
  induction hs generalizing s with
  | nil => simp
  | cons h rest ih =>
    obtain ⟨manager, last, board_⟩ := ih (s.detachCapture h)
    refine ⟨manager, last, board_.trans ?_⟩
    simp [detachCapture, board_request, CaptureRequest.switch?]

theorem foldl_reattachCapture (s : Service) {hs : List ClientHandle}
    (registered : ∀ h ∈ hs, (s.board.key? h).isSome) :
    (hs.foldl reattachCapture s).clientManager = s.clientManager ∧
      (hs.foldl reattachCapture s).lastMonitors = s.lastMonitors ∧
      (hs.foldl reattachCapture s).board =
        { s.board with log := s.board.log ++ hs.map (·, true) } := by
  induction hs generalizing s with
  | nil => simp
  | cons h rest ih =>
    obtain ⟨first, rest_⟩ := List.forall_mem_cons.mp registered
    obtain ⟨key, own⟩ := Option.isSome_iff_exists.mp first
    have attached : s.reattachCapture h = s.request (.create h key .default) := by
      unfold reattachCapture
      rw [show s.clientManager.getKey h = some key from own]
    obtain ⟨manager, last, board_⟩ := ih (s.reattachCapture h) (by rw [attached]; exact rest_)
    rw [List.foldl_cons, manager, last, board_, attached, board_request]
    simp [request, CaptureRequest.switch?]

/-- Destroying and creating the barrier of a client that holds one changes no flag and no edge. -/
theorem recreate_spec (o : Orderly excused s.board) (active : s.board.active h)
    (own : s.board.key? h = some key) (held : s.board.holds h) :
    let s' := s.recreateCapture h
    Orderly excused s'.board ∧ s'.board.active = s.board.active ∧
      s'.board.key? = s.board.key? := by
  intro s'
  have off : (s.deactivateClient h).board = s.board.off h := board_deactivateClient s h
  have o' : Orderly excused (s.deactivateClient h).board := off ▸ o.off fun _ => held
  have own' : (s.deactivateClient h).board.key? h = some key := by rw [off, off_key?]; exact own
  have free : ∀ other, ¬(s.deactivateClient h).board.Occupies other h key := by
    rintro other ⟨apart, active', at_⟩
    rw [off, off_active, Bool.and_eq_true] at active'
    rw [off, off_key?] at at_
    exact apart (o.unique other h key active'.1 active at_ own)
  have room : (s.deactivateClient h).makeRoom h key = s.deactivateClient h := by
    obtain ⟨other, occupies, -⟩ | ⟨-, same⟩ := makeRoom_spec o'.unique own'
    · exact absurd occupies (free other)
    · exact same
  have board_ : s'.board = (s.board.off h).on h := by
    unfold s' recreateCapture
    rw [board_activateClient own' (by rw [room]; exact own'), room, off]
    simp
  refine ⟨Orderly.activateClient o' own' fun other occ => absurd occ (free other), ?_, ?_⟩
  · funext j
    rw [board_, on_active, off_active]
    by_cases same : j = h <;> simp [same, active]
  · rw [board_]
    exact off_key? _ _

theorem foldl_recreate {hs : List ClientHandle} (o : Orderly excused s.board)
    (bound : ∀ h ∈ hs, ∃ key, s.board.active h ∧ s.board.key? h = some key ∧ ¬excused key) :
    Orderly excused (hs.foldl recreateCapture s).board := by
  induction hs generalizing s with
  | nil => exact o
  | cons h rest ih =>
    obtain ⟨⟨key, active, own, here⟩, rest_⟩ := List.forall_mem_cons.mp bound
    have held : s.board.holds h := by
      by_contra idle
      obtain ⟨key', own', excused'⟩ := o.excuse h active (by simpa using idle)
      exact here (Option.some_inj.mp (own.symm.trans own') ▸ excused')
    obtain ⟨o', active', key'⟩ := recreate_spec o active own held
    exact ih o' (by rw [active', key']; exact rest_)

/-- The active ones among the registered clients with a certain kind of edge. -/
def selected (s : Service) (p : BarrierKey → Bool) : List ClientHandle :=
  (((s.bindings s.clientManager.registeredClients).filter fun b => p b.2).map (·.1)).filter
    (· ∈ s.clientManager.activeClients)

theorem mem_activeClients : h ∈ s.clientManager.activeClients ↔ s.board.active h := by
  unfold ClientManager.activeClients
  rw [List.mem_filter]
  exact and_iff_right_of_imp fun active =>
    Slab.mem_keys.mpr (ClientManager.isSome_of_isActive active)

theorem mem_selected {p : BarrierKey → Bool} :
    h ∈ s.selected p ↔ s.board.active h ∧ ∃ key, s.board.key? h = some key ∧ p key := by
  unfold selected
  rw [map_filter_bindings, List.mem_filter, List.mem_filter, decide_eq_true_eq, mem_activeClients,
    ClientManager.registeredClients, Slab.mem_keys]
  constructor
  · rintro ⟨⟨-, chosen⟩, active⟩
    exact ⟨active, by simpa [Option.any_eq_true] using chosen⟩
  · rintro ⟨active, key, own, chosen⟩
    exact ⟨⟨ClientManager.isSome_of_isActive active, by simp [own, chosen]⟩, active⟩

theorem nodup_selected (s : Service) (p : BarrierKey → Bool) : (s.selected p).Nodup := by
  unfold selected
  rw [map_filter_bindings]
  exact (s.clientManager.nodup_keys.filter _).filter _

/-- The monitor of an edge went away, or came back. -/
def monitorGone (old new : List MonitorInfo) (key : BarrierKey) : Bool :=
  key.monitor.any fun id => present old id && !present new id

def monitorBack (old new : List MonitorInfo) (key : BarrierKey) : Bool :=
  key.monitor.any fun id => !present old id && present new id

theorem not_gone_of_back {old new : List MonitorInfo} {key : BarrierKey}
    (back : monitorBack old new key) : monitorGone old new key = false := by
  unfold monitorBack at back
  unfold monitorGone
  cases bound : key.monitor with
  | none => rfl
  | some id =>
    rw [bound, Option.any_some, Bool.and_eq_true, Bool.not_eq_true'] at back
    simp [back.1]

/-- The board after the barriers of absent monitors were destroyed and those of monitors that came
back created. -/
def reconciled (s : Service) (old new : List MonitorInfo) : Service :=
  (s.selected (monitorBack old new)).foldl reattachCapture
    ((s.selected (monitorGone old new)).foldl detachCapture s)

theorem reconcileMonitorsChanged_eq (s : Service) (new old : List MonitorInfo) :
    s.reconcileMonitorsChanged new old =
      (recreateMonitors ((s.reconciled old new).bindings
        (s.reconciled old new).clientManager.activeClients) new old).foldl recreateCapture
          (s.reconciled old new) :=
  rfl

theorem board_reconciled (s : Service) (old new : List MonitorInfo) :
    (s.reconciled old new).board = { s.board with
      log := s.board.log ++ (s.selected (monitorGone old new)).map (·, false) ++
        (s.selected (monitorBack old new)).map (·, true) } := by
  obtain ⟨manager, -, board₁⟩ := foldl_detachCapture s (s.selected (monitorGone old new))
  have registered : ∀ h ∈ s.selected (monitorBack old new),
      (((s.selected (monitorGone old new)).foldl detachCapture s).board.key? h).isSome := by
    intro h mem
    obtain ⟨-, key, own, -⟩ := mem_selected.mp mem
    rw [board₁]
    simp [own]
  obtain ⟨-, -, board₂⟩ := foldl_reattachCapture _ registered
  unfold reconciled
  rw [board₂, board₁]

theorem holds_reconciled (s : Service) (old new : List MonitorInfo) (h : ClientHandle) :
    (s.reconciled old new).board.holds h =
      if h ∈ s.selected (monitorBack old new) then true
      else if h ∈ s.selected (monitorGone old new) then false else s.board.holds h := by
  rw [board_reconciled]
  simp only [holds, Toggle.isOn_append_map]

/-- No client whose monitor comes back holds a barrier. -/
def NoneBack (b : Board) (old new : List MonitorInfo) : Prop :=
  ∀ h key, b.active h → b.key? h = some key → monitorBack old new key → b.holds h = false

variable {old new : List MonitorInfo}

theorem Orderly.holds_of_gone (o : Orderly (Absent (some old)) s.board)
    (mem : h ∈ s.selected (monitorGone old new)) : s.board.holds h := by
  obtain ⟨active, key, own, gone⟩ := mem_selected.mp mem
  by_contra idle
  obtain ⟨key', own', id, monitors, bound, same, absent⟩ := o.excuse h active (by simpa using idle)
  obtain rfl : old = monitors := Option.some_inj.mp same
  obtain rfl : key = key' := Option.some_inj.mp (own.symm.trans own')
  simp [monitorGone, bound, absent] at gone

theorem Orderly.alternates_reconciled (o : Orderly (Absent (some old)) s.board) :
    (s.reconciled old new).board.Alternates ↔ NoneBack s.board old new := by
  have gone := s.nodup_selected (monitorGone old new)
  have back := s.nodup_selected (monitorBack old new)
  have apart : ∀ h ∈ s.selected (monitorBack old new),
      h ∉ s.selected (monitorGone old new) := by
    intro h mem mem'
    obtain ⟨-, key, own, back⟩ := mem_selected.mp mem
    obtain ⟨-, key', own', gone⟩ := mem_selected.mp mem'
    obtain rfl : key = key' := Option.some_inj.mp (own.symm.trans own')
    exact absurd ((not_gone_of_back back).symm.trans gone) Bool.false_ne_true
  rw [board_reconciled]
  unfold Alternates
  rw [Toggle.alternating_append_map back, Toggle.alternating_append_map gone,
    and_iff_right ⟨o.alternates, fun h mem => Orderly.holds_of_gone o mem⟩]
  constructor
  · intro idle h key active own back
    have mem := mem_selected.mpr ⟨active, key, own, back⟩
    have idle := idle h mem
    rwa [Toggle.isOn_append_map, if_neg (apart h mem)] at idle
  · intro idle h mem
    obtain ⟨active, key, own, back⟩ := mem_selected.mp mem
    rw [Toggle.isOn_append_map, if_neg (apart h mem)]
    exact idle h key active own back

theorem Orderly.reconciled (o : Orderly (Absent (some old)) s.board)
    (noneBack : NoneBack s.board old new) :
    Orderly (Absent (some new)) (s.reconciled old new).board where
  alternates := (Orderly.alternates_reconciled o).mpr noneBack
  live h held := by
    rw [holds_reconciled] at held
    rw [board_reconciled]
    split_ifs at held with back gone
    · exact (mem_selected.mp back).1
    · exact o.live h held
  excuse h active idle := by
    rw [holds_reconciled] at idle
    rw [board_reconciled] at active ⊢
    split_ifs at idle with back gone
    · obtain ⟨-, key, own, gone⟩ := mem_selected.mp gone
      refine ⟨key, own, ?_⟩
      cases bound : key.monitor with
      | none => simp [monitorGone, bound] at gone
      | some id =>
        have absent : present new id = false := by
          simp only [monitorGone, bound, Option.any_some, Bool.and_eq_true] at gone
          simpa using gone.2
        exact ⟨id, new, bound, rfl, absent⟩
    · obtain ⟨key, own, id, monitors, bound, same, absent⟩ := o.excuse h active idle
      obtain rfl : old = monitors := Option.some_inj.mp same
      refine ⟨key, own, id, new, bound, rfl, ?_⟩
      by_contra here
      refine back (mem_selected.mpr ⟨active, key, own, ?_⟩)
      simpa [monitorBack, bound, absent] using here
  unique := by
    rw [board_reconciled]
    exact o.unique

theorem present_of_recreate (mem : h ∈ recreateMonitors (s.bindings s.clientManager.activeClients)
    new old) : ∃ key, s.board.active h ∧ s.board.key? h = some key ∧ ¬Absent (some new) key := by
  unfold recreateMonitors at mem
  rw [map_filter_bindings, List.mem_filter, mem_activeClients] at mem
  obtain ⟨active, key, own, moved⟩ : s.board.active h ∧ _ := by
    simpa only [Option.any_eq_true] using mem
  refine ⟨key, active, own, ?_⟩
  rintro ⟨id, monitors, bound, same, absent⟩
  obtain rfl : new = monitors := Option.some_inj.mp same
  obtain ⟨id', bound', moved⟩ := moved
  obtain rfl : id = id' := Option.some_inj.mp (bound.symm.trans bound')
  have gone : new.find? (fun m => m.id = id) = none := by
    rw [List.find?_eq_none]
    simpa [present] using absent
  rw [gone] at moved
  split at moved <;> simp_all

theorem reconcileMonitorsChanged_spec (o : Orderly (Absent (some old)) s.board)
    (new : List MonitorInfo) :
    ((s.reconcileMonitorsChanged new old).board.Alternates → NoneBack s.board old new) ∧
      (NoneBack s.board old new →
        Orderly (Absent (some new)) (s.reconcileMonitorsChanged new old).board) := by
  rw [reconcileMonitorsChanged_eq]
  constructor
  · intro alternates
    generalize recreateMonitors _ new old = moved at alternates
    have grown := grows_foldl grows_recreateCapture (s.reconciled old new) moved
    exact (Orderly.alternates_reconciled o).mp (grown.alternates alternates)
  · intro noneBack
    exact foldl_recreate (Orderly.reconciled o noneBack) fun h mem => present_of_recreate mem

theorem monitorsChanged_spec (o : Orderly (Absent s.lastMonitors) s.board)
    (new : List MonitorInfo) :
    let s' := s.monitorsChanged new
    let fine := ∀ old, s.lastMonitors = some old → NoneBack s.board old new
    (s'.board.Alternates → fine) ∧ (fine → Orderly (Absent (some new)) s'.board) := by
  intro s' fine
  cases last : s.lastMonitors with
  | none =>
    have same : s'.board = s.board := by
      simp only [s', monitorsChanged, last]
      rfl
    rw [last] at o
    refine ⟨fun _ old h => by simp [last] at h, fun _ => same ▸ o.of_held fun h active => ?_⟩
    by_contra idle
    obtain ⟨key, -, id, monitors, -, none_, -⟩ := o.excuse h active (by simpa using idle)
    cases none_
  | some old =>
    obtain ⟨s₀, same, board₀⟩ :
        ∃ s₀ : Service, s' = s₀.reconcileMonitorsChanged new old ∧ s₀.board = s.board :=
      ⟨{ s with lastMonitors := some new }, by simp only [s', monitorsChanged, last], rfl⟩
    have spec := reconcileMonitorsChanged_spec (s := s₀) (by rwa [board₀, ← last]) new
    rw [board₀] at spec
    rw [same]
    simpa only [fine, last, Option.some_inj, forall_eq'] using spec

/-! ### Steps and runs -/

/-- The barriers are as the handler of the event supposes: a client that is switched off holds a
barrier, and a client whose monitor comes back does not. -/
def Sound (s : Service) : Event → Prop
  | .activate h true => ∀ key, s.board.key? h = some key → s.board.RoomFor h key
  | .activate h false => s.board.active h → s.board.holds h
  | .create => True
  | .delete h => s.board.active h → s.board.holds h
  | .updatePosition h pos => ∀ key, s.board.key? h = some key → key.pos ≠ pos → s.board.active h →
    s.board.holds h ∧ s.board.RoomFor h { key with pos := pos }
  | .updateMonitor h monitor => ∀ key, s.board.key? h = some key → key.monitor ≠ monitor →
    s.board.active h → s.board.holds h ∧ s.board.RoomFor h { key with monitor := monitor }
  | .configChange _ _ => ∀ h, s.board.active h → s.board.holds h
  | .monitorsChanged monitors => ∀ old, s.lastMonitors = some old →
    NoneBack s.board old monitors

theorem lastMonitors_foldl {α : Type} {f : Service → α → Service}
    (keeps : ∀ s a, (f s a).lastMonitors = s.lastMonitors) (s : Service) (as : List α) :
    (as.foldl f s).lastMonitors = s.lastMonitors := by
  induction as generalizing s with
  | nil => rfl
  | cons a as ih => exact (ih (f s a)).trans (keeps s a)

theorem lastMonitors_removeClient (s : Service) (h : ClientHandle) :
    (s.removeClient h).lastMonitors = s.lastMonitors := by
  unfold removeClient
  dsimp only
  split_ifs <;> rfl

theorem lastMonitors_updateClient (s : Service) (h : ClientHandle)
    (change : Bool × ClientManager) : (s.updateClient h change).lastMonitors = s.lastMonitors := by
  unfold updateClient recreateCapture
  dsimp only
  split_ifs
  · rw [lastMonitors_activateClient, lastMonitors_deactivateClient]
  · rfl

theorem lastMonitors_reloadClient (s : Service) (c : ConfigClient) :
    (s.reloadClient c).lastMonitors = s.lastMonitors := by
  unfold reloadClient
  dsimp only
  split_ifs
  · rw [lastMonitors_activateClient]
  · rfl

theorem lastMonitors_handleConfigChange (s : Service) (clients : List ConfigClient)
    (releaseBind : List Scancode) :
    (s.handleConfigChange clients releaseBind).lastMonitors = s.lastMonitors :=
  (lastMonitors_foldl lastMonitors_reloadClient _ _).trans
    (lastMonitors_foldl lastMonitors_removeClient _ _)

theorem lastMonitors_monitorsChanged (s : Service) (monitors : List MonitorInfo) :
    (s.monitorsChanged monitors).lastMonitors = some monitors := by
  have attach : ∀ (s : Service) h, (s.reattachCapture h).lastMonitors = s.lastMonitors := by
    intro s h
    unfold reattachCapture
    split <;> rfl
  have recreate : ∀ (s : Service) h, (s.recreateCapture h).lastMonitors = s.lastMonitors := by
    intro s h
    rw [recreateCapture, lastMonitors_activateClient, lastMonitors_deactivateClient]
  unfold monitorsChanged
  dsimp only
  split
  · unfold reconcileMonitorsChanged
    dsimp only
    rw [lastMonitors_foldl recreate, lastMonitors_foldl attach,
      lastMonitors_foldl (f := detachCapture) fun _ _ => rfl]
  · rfl

/-- A setter that changes the configuration of a client by `f`, if its key meets `moves`. -/
theorem setter_spec (o : Orderly excused s.board) {h : ClientHandle} {result : Bool × ClientManager}
    {moves : BarrierKey → Prop} (f : ClientConfig → ClientConfig) (g : BarrierKey → BarrierKey)
    (keys : ∀ c, (f c).key = g c.key)
    (absent : s.clientManager.get? h = none → result = (false, s.clientManager))
    (moved : ∀ c, s.clientManager.get? h = some c → moves c.1.key →
      result = (c.2.active, s.clientManager.modify h fun c => (f c.1, c.2)))
    (kept : ∀ c, s.clientManager.get? h = some c → ¬ moves c.1.key →
      result = (false, s.clientManager)) :
    let fine := ∀ key, s.board.key? h = some key → moves key → s.board.active h →
      s.board.holds h ∧ s.board.RoomFor h (g key)
    ((s.updateClient h result).board.Alternates → fine) ∧
      (fine → Orderly excused (s.updateClient h result).board) := by
  intro fine
  cases present : s.clientManager.get? h with
  | none =>
    have none_ : s.board.key? h = none := by simp [board, ClientManager.getKey, present]
    rw [absent present]
    exact ⟨fun _ key own => by simp [none_] at own, fun _ => o⟩
  | some c =>
    have own : s.board.key? h = some c.1.key := by simp [board, ClientManager.getKey, present]
    by_cases moves' : moves c.1.key
    · have spec := updateClient_spec o present f
      rw [keys] at spec
      rw [moved c present moves']
      simpa only [fine, own, Option.some_inj, forall_eq', moves', true_imp_iff] using spec
    · rw [kept c present moves']
      refine ⟨fun _ key own' moves => absurd ?_ moves', fun _ => o⟩
      obtain rfl : c.1.key = key := Option.some_inj.mp (own.symm.trans own')
      exact moves

theorem updatePos_spec (o : Orderly excused s.board) (h : ClientHandle) (pos : Position) :
    ((s.updatePos h pos).board.Alternates → s.Sound (.updatePosition h pos)) ∧
      (s.Sound (.updatePosition h pos) → Orderly excused (s.updatePos h pos).board) := by
  refine setter_spec o (fun c => { c with pos := pos }) (fun key => { key with pos := pos })
    (fun _ => rfl) (fun absent => ?_) (fun c present moves => ?_) fun c present stays => ?_
  · simp only [ClientManager.setPos, absent]
  · simp only [ClientManager.setPos, present]
    exact if_pos moves
  · simp only [ClientManager.setPos, present]
    exact if_neg stays

theorem updateMonitor_spec (o : Orderly excused s.board) (h : ClientHandle)
    (monitor : Option String) :
    ((s.updateMonitor h monitor).board.Alternates → s.Sound (.updateMonitor h monitor)) ∧
      (s.Sound (.updateMonitor h monitor) → Orderly excused (s.updateMonitor h monitor).board) := by
  refine setter_spec o (fun c => { c with monitor := monitor })
    (fun key => { key with monitor := monitor }) (fun _ => rfl) (fun absent => ?_)
    (fun c present moves => ?_) fun c present stays => ?_
  · simp only [ClientManager.setMonitor, absent]
  · simp only [ClientManager.setMonitor, present]
    exact if_pos moves
  · simp only [ClientManager.setMonitor, present]
    exact if_neg stays

/-- What the invariant says between two events. -/
def Settled (s : Service) : Prop := Orderly (Absent s.lastMonitors) s.board

theorem step_spec (settled : s.Settled) (e : Event) :
    ((step s e).board.Alternates → s.Sound e) ∧ (s.Sound e → (step s e).Settled) := by
  have o : Orderly (Absent s.lastMonitors) s.board := settled
  unfold Settled
  cases e with
  | activate h active =>
    cases active with
    | true =>
      rw [show step s (.activate h true) = s.activateClient h from rfl, lastMonitors_activateClient]
      cases own : s.board.key? h with
      | none =>
        rw [activateClient_unregistered own]
        exact ⟨fun _ key own' => by simp [own] at own', fun _ => o⟩
      | some key =>
        constructor
        · intro alternates key' own'
          obtain rfl : key = key' := Option.some_inj.mp (own.symm.trans own')
          exact alternates_of_activateClient o own alternates
        · exact fun sound => Orderly.activateClient o own (sound key own)
    | false =>
      rw [show step s (.activate h false) = s.deactivateClient h from rfl,
        lastMonitors_deactivateClient, board_deactivateClient]
      exact ⟨fun alternates => (alternates_off.mp alternates).2, o.off⟩
  | create => exact ⟨fun _ => trivial, fun _ => Orderly.addClient o⟩
  | delete h =>
    rw [show step s (.delete h) = s.removeClient h from rfl, lastMonitors_removeClient]
    exact ⟨alternates_of_removeClient, Orderly.removeClient o⟩
  | updatePosition h pos =>
    rw [show step s (.updatePosition h pos) = s.updatePos h pos from rfl, updatePos,
      lastMonitors_updateClient, ← updatePos]
    exact updatePos_spec o h pos
  | updateMonitor h monitor =>
    rw [show step s (.updateMonitor h monitor) = s.updateMonitor h monitor from rfl, updateMonitor,
      lastMonitors_updateClient, ← updateMonitor]
    exact updateMonitor_spec o h monitor
  | configChange clients releaseBind =>
    rw [show step s (.configChange clients releaseBind) =
      s.handleConfigChange clients releaseBind from rfl, lastMonitors_handleConfigChange]
    exact handleConfigChange_spec o clients releaseBind
  | monitorsChanged monitors =>
    rw [show step s (.monitorsChanged monitors) = s.monitorsChanged monitors from rfl,
      lastMonitors_monitorsChanged]
    exact monitorsChanged_spec o monitors

theorem settled_start (clients : List ConfigClient) : (start clients).Settled := by
  have deactivated : ∀ (hs : List ClientHandle) (m : ClientManager) (h : ClientHandle),
      (hs.foldl (fun m h => (m.deactivateClient h).2) m).isActive h =
        (m.isActive h && h ∉ hs) := by
    intro hs
    induction hs with
    | nil => simp
    | cons j rest ih =>
      intro m h
      rw [List.foldl_cons, ih, ClientManager.deactivateClient_eq]
      split_ifs with active
      · rw [ClientManager.isActive_setActive _ _ _ (ClientManager.isSome_of_isActive active)]
        by_cases same : h = j <;> simp [same]
      · by_cases same : h = j
        · simp [same, active]
        · simp [same]
  have activated : ∀ (hs : List ClientHandle) (s : Service), Orderly (fun _ => False) s.board →
      Orderly (fun _ => False) (hs.foldl activateClient s).board := by
    intro hs
    induction hs with
    | nil => exact fun s o => o
    | cons h rest ih => exact fun s o => ih _ (Orderly.activateClient_held o h)
  have o : Orderly (fun _ => False) (start clients).board := by
    refine activated _ _ ?_
    have inactive : ∀ h, ((new clients).clientManager.activeClients.foldl
        (fun m h => (m.deactivateClient h).2) (new clients).clientManager).isActive h = false := by
      intro h
      rw [deactivated]
      have known := mem_activeClients (s := new clients) (h := h)
      by_cases active : (new clients).clientManager.isActive h
      · simp [known.mpr active]
      · simp [active]
    exact {
      alternates := Toggle.alternating_nil
      live := fun h held => by cases held
      excuse := fun h active => absurd ((inactive h).symm.trans active) Bool.false_ne_true
      unique := fun g h key active => absurd ((inactive g).symm.trans active) Bool.false_ne_true }
  exact o.of_held o.held

theorem grows_monitorsChanged (s : Service) (monitors : List MonitorInfo) :
    Grows s (s.monitorsChanged monitors) := by
  have attach : ∀ (s : Service) h, Grows s (s.reattachCapture h) := by
    intro s h
    unfold reattachCapture
    split
    · exact List.prefix_refl _
    · exact grows_request _ _
  unfold monitorsChanged
  dsimp only
  split
  · refine List.IsPrefix.trans ?_ (grows_foldl grows_recreateCapture _ _)
    refine List.IsPrefix.trans ?_ (grows_foldl attach _ _)
    exact grows_foldl (f := detachCapture) (fun s h => grows_request s _)
      { s with lastMonitors := some monitors } _
  · exact List.prefix_refl _

theorem grows_step (s : Service) (e : Event) : Grows s (step s e) := by
  have update : ∀ h change, Grows s (s.updateClient h change) := by
    intro h change
    unfold updateClient
    dsimp only
    split_ifs
    · exact grows_recreateCapture { s with clientManager := change.2 } h
    · exact List.prefix_refl _
  cases e with
  | activate h active =>
    cases active with
    | true => exact grows_activateClient s h
    | false => exact grows_deactivateClient s h
  | create => exact List.prefix_refl _
  | delete h => exact grows_removeClient s h
  | updatePosition h pos => exact update h _
  | updateMonitor h monitor => exact update h _
  | configChange clients releaseBind =>
    exact ((grows_foldl grows_removeClient _ _).trans (grows_foldl grows_reloadClient _ _)).trans
      (grows_request _ _)
  | monitorsChanged monitors => exact grows_monitorsChanged s monitors

/-- The requests of a whole run alternate exactly when every event finds the barriers as its
handler supposes them. -/
theorem alternates_run_iff (clients : List ConfigClient) (events : List Event) :
    (Transition.run step (start clients) events).board.Alternates ↔
      Transition.AllMeet step Sound (start clients) events := by
  rw [Transition.good_run_iff_always (fun s : Service => s.board.Alternates)
    fun s e => (grows_step s e).alternates]
  refine Transition.always_iff_allMeet Settled (fun s e settled sound => ?_)
    (fun s settled => settled.alternates) (fun s e settled alternates => ?_)
    (settled_start clients) events
  · exact (step_spec settled e).2 sound
  · exact (step_spec settled e).1 alternates

end Service

end LanMouse
