import LanMouse.Capture.Frame
import LanMouse.Lib.Toggle
import LanMouse.Service.Barrier

/-!
# Flags, edges and requests

The service does not record which clients have a barrier: it goes by the `active` flag and by the
difference of two monitor snapshots. A client *holds* a barrier when the last request for it was to
create one.

A `Board` is what matters about that: the flags, the edges and the log of requests. Each operation
of the service acts on its board in one of three ways: it switches a client off, switches one on, or
changes the edge of an inactive client. A board is orderly when the requests alternate, only active
clients hold barriers, no two active clients share an edge, and an active client without a barrier
has an excuse.
-/
namespace LanMouse

open Proto Capture Client

structure Board where
  active : ClientHandle → Bool
  key? : ClientHandle → Option BarrierKey
  log : List (ClientHandle × Bool)

namespace Board

variable {b b' : Board} {h other : ClientHandle} {key : BarrierKey} {excused : BarrierKey → Prop}

/-- Whether the last request for the client was to create its barrier. -/
def holds (b : Board) (h : ClientHandle) : Bool := Toggle.isOn b.log h

/-- The requests for each client go create, destroy, create, … -/
def Alternates (b : Board) : Prop := Toggle.Alternating b.log

def off (b : Board) (h : ClientHandle) : Board :=
  if b.active h then
    { b with active := Function.update b.active h false, log := b.log ++ [(h, false)] }
  else b

def on (b : Board) (h : ClientHandle) : Board :=
  { b with active := Function.update b.active h true, log := b.log ++ [(h, true)] }

def rekey (b : Board) (h : ClientHandle) (key? : Option BarrierKey) : Board :=
  { b with key? := Function.update b.key? h key? }

/-- Another client that is active at an edge. -/
def Occupies (b : Board) (other h : ClientHandle) (key : BarrierKey) : Prop :=
  other ≠ h ∧ b.active other ∧ b.key? other = some key

/-- A client that is displaced from an edge holds a barrier. -/
def RoomFor (b : Board) (h : ClientHandle) (key : BarrierKey) : Prop :=
  ∀ other, b.Occupies other h key → b.holds other

/-- No two active clients share an edge. -/
def Unique (b : Board) : Prop :=
  ∀ g h key, b.active g → b.active h → b.key? g = some key → b.key? h = some key → g = h

/-- Only a client with an excused edge can be active without a barrier. -/
structure Orderly (excused : BarrierKey → Prop) (b : Board) : Prop where
  alternates : b.Alternates
  live : ∀ h, b.holds h → b.active h
  excuse : ∀ h, b.active h → b.holds h = false → ∃ key, b.key? h = some key ∧ excused key
  unique : ∀ g h key, b.active g → b.active h → b.key? g = some key → b.key? h = some key → g = h

@[simp] theorem off_active (b : Board) (h j : ClientHandle) :
    (b.off h).active j = (b.active j && j ≠ h) := by
  unfold off
  split_ifs with active
  · by_cases same : j = h <;> simp [same]
  · by_cases same : j = h
    · simp [same, active]
    · simp [same]

@[simp] theorem off_key? (b : Board) (h : ClientHandle) : (b.off h).key? = b.key? := by
  unfold off
  split_ifs <;> rfl

theorem Unique.off (u : b.Unique) (h : ClientHandle) : (b.off h).Unique := by
  intro g j key
  simp only [off_active, off_key?, Bool.and_eq_true]
  exact fun ag aj => u g j key ag.1 aj.1

theorem alternates_off : (b.off h).Alternates ↔ b.Alternates ∧ (b.active h → b.holds h) := by
  unfold off
  split_ifs with active
  · simp [Alternates, Toggle.alternating_concat, active, holds]
  · simp [active]

theorem Orderly.holds_off (o : Orderly excused b) (h j : ClientHandle) :
    (b.off h).holds j = (b.holds j && j ≠ h) := by
  unfold off
  split_ifs with active
  · by_cases same : h = j
    · simp [holds, same]
    · simp [holds, same, Ne.symm same]
  · by_cases same : j = h
    · subst same
      have idle : b.holds j = false := by
        by_contra held
        exact active (o.live j (by simpa using held))
      simp [idle]
    · simp [same]

theorem Orderly.off (o : Orderly excused b) (held : b.active h → b.holds h) :
    Orderly excused (b.off h) where
  alternates := alternates_off.mpr ⟨o.alternates, held⟩
  live j := by
    rw [o.holds_off, off_active]
    simp only [Bool.and_eq_true, decide_eq_true_eq]
    exact And.imp_left (o.live j)
  excuse j := by
    rw [o.holds_off, off_active, off_key?]
    intro active idle
    have apart : j ≠ h := by
      rintro rfl
      simp at active
    exact o.excuse j (by simpa [apart] using active) (by simpa [apart] using idle)
  unique := Unique.off o.unique h

@[simp] theorem holds_on (b : Board) (h j : ClientHandle) :
    (b.on h).holds j = (j = h || b.holds j) := by
  by_cases same : h = j
  · simp [holds, on, same]
  · simp [holds, on, same, Ne.symm same]

@[simp] theorem on_active (b : Board) (h j : ClientHandle) :
    (b.on h).active j = (j = h || b.active j) := by
  by_cases same : j = h <;> simp [on, same]

theorem Unique.on (u : b.Unique) (at_ : b.key? h = some key)
    (free : ∀ other, ¬b.Occupies other h key) : (b.on h).Unique := by
  intro g j key'
  simp only [on_active, Bool.or_eq_true, decide_eq_true_eq]
  intro ag aj kg kj
  by_contra apart
  by_cases gh : g = h
  · have same : key = key' := Option.some_inj.mp (at_.symm.trans (gh ▸ kg))
    have jh : j ≠ h := fun jh => apart (gh.trans jh.symm)
    exact free j ⟨jh, aj.resolve_left jh, same ▸ kj⟩
  · by_cases jh : j = h
    · have same : key = key' := Option.some_inj.mp (at_.symm.trans (jh ▸ kj))
      exact free g ⟨gh, ag.resolve_left gh, same ▸ kg⟩
    · exact apart (u g j key' (ag.resolve_left gh) (aj.resolve_left jh) kg kj)

theorem Orderly.on (o : Orderly excused b) (inactive : b.active h = false)
    (at_ : b.key? h = some key) (free : ∀ other, ¬b.Occupies other h key) :
    Orderly excused (b.on h) where
  alternates := by
    refine (Toggle.alternating_concat _ _ _).mpr ⟨o.alternates, ?_⟩
    by_contra held
    have active := o.live h (by simpa [holds] using held)
    rw [inactive] at active
    cases active
  live j := by
    simp only [holds_on, on_active, Bool.or_eq_true]
    exact Or.imp_right (o.live j)
  excuse j := by
    simp only [holds_on, on_active, Bool.or_eq_true, Bool.or_eq_false_iff]
    rintro active ⟨apart, idle⟩
    exact o.excuse j (active.resolve_left (by simpa using apart)) idle
  unique := Unique.on o.unique at_ free

theorem Unique.rekey (u : b.Unique) (inactive : b.active h = false) (key? : Option BarrierKey) :
    (b.rekey h key?).Unique := by
  intro g j key ag aj
  have apart : ∀ j, b.active j → j ≠ h := by
    rintro j active rfl
    exact absurd (inactive.symm.trans active) Bool.false_ne_true
  simpa [Board.rekey, apart g ag, apart j aj] using u g j key ag aj

theorem Orderly.rekey (o : Orderly excused b) (inactive : b.active h = false)
    (key? : Option BarrierKey) : Orderly excused (b.rekey h key?) where
  alternates := o.alternates
  live := o.live
  excuse j active idle := by
    have apart : j ≠ h := by
      rintro rfl
      exact absurd (inactive.symm.trans active) Bool.false_ne_true
    simpa [Board.rekey, apart] using o.excuse j active idle
  unique := Unique.rekey o.unique inactive key?

/-- When every active client holds a barrier, no excuse is needed. -/
theorem Orderly.of_held {excused' : BarrierKey → Prop} (o : Orderly excused b)
    (held : ∀ h, b.active h → b.holds h) : Orderly excused' b where
  alternates := o.alternates
  live := o.live
  excuse h active idle := absurd (idle.symm.trans (held h active)) Bool.false_ne_true
  unique := o.unique

theorem Orderly.held (o : Orderly (fun _ => False) b) (h : ClientHandle) (active : b.active h) :
    b.holds h := by
  by_contra idle
  obtain ⟨key, -, excused⟩ := o.excuse h active (by simpa using idle)
  exact excused

end Board

/-! ### The board of the service -/

namespace Service

open Board

variable {s : Service} {h other : ClientHandle} {key : BarrierKey} {excused : BarrierKey → Prop}

def board (s : Service) : Board where
  active := s.clientManager.isActive
  key? := s.clientManager.getKey
  log := s.requests.filterMap (·.switch?)

theorem board_request (s : Service) (r : CaptureRequest) :
    (s.request r).board = { s.board with log := s.board.log ++ r.switch?.toList } := by
  unfold board request
  rw [List.filterMap_append]
  cases h : r.switch? <;> simp [h]

theorem board_deactivateClient (s : Service) (h : ClientHandle) :
    (s.deactivateClient h).board = s.board.off h := by
  unfold deactivateClient Board.off
  rw [ClientManager.deactivateClient_eq]
  change _ = if s.clientManager.isActive h then _ else _
  split_ifs with active
  · dsimp only
    rw [if_pos rfl, board_request]
    have known := ClientManager.isSome_of_isActive active
    simp only [board, ClientManager.isActive_setActive _ _ _ known, ClientManager.getKey_setActive]
    rfl
  · rfl

theorem lastMonitors_deactivateClient (s : Service) (h : ClientHandle) :
    (s.deactivateClient h).lastMonitors = s.lastMonitors := by
  unfold deactivateClient
  dsimp only
  split_ifs <;> rfl

theorem makeRoom_spec (u : s.board.Unique) (own : s.board.key? h = some key) :
    (∃ other, s.board.Occupies other h key ∧ (s.makeRoom h key).board = s.board.off other) ∨
      ((∀ other, ¬s.board.Occupies other h key) ∧ s.makeRoom h key = s) := by
  unfold makeRoom
  split
  · rename_i other found
    obtain ⟨active, at_⟩ := ClientManager.clientAt_some own found
    split_ifs with apart
    · exact .inl ⟨other, ⟨apart, active, at_⟩, board_deactivateClient s other⟩
    · obtain rfl : other = h := not_not.mp apart
      exact .inr ⟨fun j ⟨differs, active', at'⟩ =>
        differs (u j other key active' active at' at_), rfl⟩
  · rename_i found
    exact .inr ⟨fun j ⟨_, active, at_⟩ => ClientManager.clientAt_none found active at_, rfl⟩

theorem lastMonitors_makeRoom (s : Service) (h : ClientHandle) (key : BarrierKey) :
    (s.makeRoom h key).lastMonitors = s.lastMonitors := by
  unfold makeRoom
  split
  · split_ifs
    · exact lastMonitors_deactivateClient s _
    · rfl
  · rfl

theorem board_activateClient (own : s.board.key? h = some key)
    (kept : (s.makeRoom h key).board.key? h = some key) :
    (s.activateClient h).board = if (s.makeRoom h key).board.active h then
      (s.makeRoom h key).board else (s.makeRoom h key).board.on h := by
  have registered := ClientManager.isSome_of_getKey kept
  unfold activateClient
  rw [show s.clientManager.getKey h = some key from own]
  dsimp only
  rw [ClientManager.activateClient_eq, registered, Bool.true_and]
  change _ = if (s.makeRoom h key).clientManager.isActive h then _ else _
  cases active : (s.makeRoom h key).clientManager.isActive h with
  | true => simp
  | false =>
    simp only [Bool.not_false, if_true, board_request, CaptureRequest.switch?]
    simp only [board, ClientManager.isActive_setActive _ _ _ registered,
      ClientManager.getKey_setActive]
    simp [Board.on]

theorem activateClient_unregistered (none_ : s.board.key? h = none) : s.activateClient h = s := by
  unfold activateClient
  rw [show s.clientManager.getKey h = none from none_]

theorem lastMonitors_activateClient (s : Service) (h : ClientHandle) :
    (s.activateClient h).lastMonitors = s.lastMonitors := by
  unfold activateClient
  split
  · rfl
  · rename_i key _
    dsimp only
    split_ifs <;> exact lastMonitors_makeRoom s h key

theorem alternates_of_activateClient (o : Orderly excused s.board)
    (own : s.board.key? h = some key) (alternates : (s.activateClient h).board.Alternates) :
    s.board.RoomFor h key := by
  intro other occupies
  obtain ⟨other', occupies', room⟩ | ⟨free, -⟩ := makeRoom_spec o.unique own
  · obtain rfl := o.unique other other' key occupies.2.1 occupies'.2.1 occupies.2.2 occupies'.2.2
    have off : (s.board.off other).Alternates := by
      rw [board_activateClient own (by rw [room, off_key?]; exact own), room] at alternates
      split_ifs at alternates
      · exact alternates
      · exact ((Toggle.alternating_concat _ _ _).mp alternates).1
    exact (alternates_off.mp off).2 occupies.2.1
  · exact absurd occupies (free other)

/-- Once another client at the edge is off, none is left there. -/
theorem free_of_off (u : s.board.Unique) (occupies : s.board.Occupies other h key) :
    ∀ j, ¬(s.board.off other).Occupies j h key := by
  rintro j ⟨apart, active, at_⟩
  rw [off_key?] at at_
  rw [off_active, Bool.and_eq_true, decide_eq_true_eq] at active
  exact active.2 (u j other key active.1 occupies.2.1 at_ occupies.2.2)

theorem Orderly.activateClient (o : Orderly excused s.board) (own : s.board.key? h = some key)
    (roomFor : s.board.RoomFor h key) : Orderly excused (s.activateClient h).board := by
  obtain ⟨other, occupies, room⟩ | ⟨free, room⟩ := makeRoom_spec o.unique own
  · have o' := o.off fun _ => roomFor other occupies
    have own' : (s.board.off other).key? h = some key := by rw [off_key?]; exact own
    rw [board_activateClient own (by rw [room]; exact own'), room]
    split_ifs with active
    · exact o'
    · exact o'.on (by simpa using active) own' (free_of_off o.unique occupies)
  · rw [board_activateClient own (by rw [room]; exact own), room]
    split_ifs with active
    · exact o
    · exact o.on (by simpa using active) own free

/-- Activating clients keeps every active client in possession of a barrier. -/
theorem Orderly.activateClient_held (o : Orderly (fun _ => False) s.board) (h : ClientHandle) :
    Orderly (fun _ => False) (s.activateClient h).board := by
  cases own : s.board.key? h with
  | none => rwa [activateClient_unregistered own]
  | some key => exact Orderly.activateClient o own fun other occupies => o.held other occupies.2.1

end Service

end LanMouse
