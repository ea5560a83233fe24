import LanMouse.Capture.Query
import LanMouse.Lib.Drain

/-!
# The capture thread on Windows

The thread has two kinds of callbacks. The mouse hook sees every motion and starts to enter a
barrier, or gives up when the cursor is pulled back; the message loop executes what the main thread
asks for. Both work on the same variables, one at a time.

A client is pending from the moment its barrier is entered until the peer has answered, and active
from then on. Coordinates are of any type with the operations that are used on them.
-/
namespace LanMouse.Capture.Windows

open Proto Transition

inductive ClientUpdate where
  | create (key : BarrierKey)
  | destroy (key : BarrierKey)
  | startCapture (key : BarrierKey)
  | cancelPending (key : BarrierKey)
  deriving DecidableEq, Repr

/-- What the thread tells the main thread. -/
inductive Notice (K : Type) where
  | begin
  | beginPending
  | cancelPending
  | motion (dx dy : K)
  deriving DecidableEq, Repr

/-- The variables of the thread. `displayResolutionGeneration` counts the changes of the displays
and wraps around; `generation` is the one the displays were read at. -/
structure EventThread (K : Type) where
  clients : Finset BarrierKey
  activeClient : Option BarrierKey
  pendingClient : Option BarrierKey
  pendingEntryPoint : K × K
  entryPoint : K × K
  prevPos : Option (K × K)
  displays : List (DisplayBound K)
  generation : Int32
  displayResolutionGeneration : Int32
  sent : List (BarrierKey × Notice K)

namespace EventThread

variable {K : Type}

def new [Zero K] : EventThread K where
  clients := ∅
  activeClient := none
  pendingClient := none
  pendingEntryPoint := (0, 0)
  entryPoint := (0, 0)
  prevPos := none
  displays := []
  generation := 0
  displayResolutionGeneration := 1
  sent := []

def send (t : EventThread K) (key : BarrierKey) (notice : Notice K) : EventThread K :=
  { t with sent := t.sent ++ [(key, notice)] }

/-- `enumerated` is what the system reports if it is asked. -/
def updateDisplayRegions (t : EventThread K) (enumerated : List (DisplayBound K)) :
    EventThread K :=
  if t.generation ≠ t.displayResolutionGeneration then
    { t with displays := enumerated, generation := t.displayResolutionGeneration }
  else t

/-! ### Requests -/

def updateClients (t : EventThread K) : ClientUpdate → EventThread K
  | .create key => { t with clients := insert key t.clients }
  | .destroy key =>
    { t with
      pendingClient := if t.pendingClient = some key then none else t.pendingClient
      activeClient := if t.activeClient = some key then none else t.activeClient
      clients := t.clients.erase key }
  | .startCapture key =>
    if t.pendingClient ≠ some key then t
    else
      { t with
        pendingClient := none
        activeClient := some key
        entryPoint := t.pendingEntryPoint }.send key .begin
  | .cancelPending key =>
    if t.pendingClient = some key then { t with pendingClient := none } else t

/-- The `Release` message. -/
def release (t : EventThread K) : EventThread K :=
  { t with activeClient := none, pendingClient := none }

/-! ### Motions -/

section Motion

variable [Add K] [Sub K] [Zero K] [One K] [LE K] [LT K] [DecidableLE K] [DecidableLT K]

/-- What a motion to `curr` does. The flag tells whether a client is active. `none` is a panic. -/
def checkClientActivation (t : EventThread K) (curr : K × K)
    (enumerated : List (DisplayBound K)) : Option (Bool × EventThread K) :=
  let prev := t.prevPos.getD curr
  let t := { t with prevPos := some curr }
  if t.activeClient.isSome then some (true, t)
  else
    let t := t.updateDisplayRegions enumerated
    let rects := t.displays.map DisplayBound.rect
    match t.pendingClient with
    | some pendingKey =>
      if cursorWithin curr rects pendingKey.pos then
        some (false, { t with pendingClient := none }.send pendingKey .cancelPending)
      else some (false, t)
    | none =>
      match activationPure prev curr t.displays t.clients with
      | none => some (false, t)
      | some key => do
        let entryPoint ← clampToDisplayBounds rects prev curr
        let t := { t with pendingClient := some key, pendingEntryPoint := entryPoint }
        return (false, t.send key .beginPending)

/-- The hook for a motion. The flag tells whether the motion is kept from the applications; the
main thread hears of it if there is `room` in the channel. -/
def mouseProc (t : EventThread K) (curr : K × K) (enumerated : List (DisplayBound K))
    (room : Bool) : Option (Bool × EventThread K) := do
  let (active, t) ← t.checkClientActivation curr enumerated
  if !active then
    return (false, t)
  match t.activeClient with
  | none => return (true, t)
  | some key =>
    let motion := .motion (curr.1 - t.entryPoint.1) (curr.2 - t.entryPoint.2)
    return (true, if room then t.send key motion else t)

/-- What happens on the thread, one thing after another. -/
inductive Event (K : Type) where
  | motion (curr : K × K) (enumerated : List (DisplayBound K)) (room : Bool)
  | displayChange
  | update (request : ClientUpdate)
  | release

def step (t : EventThread K) : Event K → Option (EventThread K)
  | .motion curr enumerated room => (t.mouseProc curr enumerated room).map Prod.snd
  | .displayChange =>
    some { t with displayResolutionGeneration := t.displayResolutionGeneration + 1 }
  | .update request => some (t.updateClients request)
  | .release => some t.release

end Motion

/-! ### Active and pending clients -/

/-- At most one client is active or pending, and it is registered. -/
structure Exclusive (t : EventThread K) : Prop where
  one : t.activeClient = none ∨ t.pendingClient = none
  active : ∀ key, t.activeClient = some key → key ∈ t.clients
  pending : ∀ key, t.pendingClient = some key → key ∈ t.clients

variable {t t' : EventThread K}

theorem Exclusive.of_same (exclusive : t.Exclusive) (clients : t'.clients = t.clients)
    (active : t'.activeClient = t.activeClient) (pending : t'.pendingClient = t.pendingClient) :
    t'.Exclusive := by
  refine ⟨?_, ?_, ?_⟩
  · rw [active, pending]
    exact exclusive.one
  · rw [active, clients]
    exact exclusive.active
  · rw [pending, clients]
    exact exclusive.pending

theorem exclusive_of_idle (active : t.activeClient = none) (pending : t.pendingClient = none) :
    t.Exclusive := by
  refine ⟨.inl active, ?_, ?_⟩
  · rw [active]
    nofun
  · rw [pending]
    nofun

theorem exclusive_of_pending {key : BarrierKey} (active : t.activeClient = none)
    (pending : t.pendingClient = some key) (registered : key ∈ t.clients) : t.Exclusive := by
  refine ⟨.inl active, ?_, ?_⟩
  · rw [active]
    nofun
  · rw [pending]
    rintro _ ⟨⟩
    exact registered

/-- A client that is not destroyed stays. -/
theorem eq_of_not_destroyed {client : Option BarrierKey} {key k : BarrierKey}
    (kept : (if client = some key then none else client) = some k) : client = some k ∧ k ≠ key := by
  split_ifs at kept with own
  refine ⟨kept, ?_⟩
  rintro rfl
  exact own kept

theorem Exclusive.updateClients (exclusive : t.Exclusive) (request : ClientUpdate) :
    (t.updateClients request).Exclusive := by
  cases request with
  | create key =>
    refine ⟨exclusive.one, fun k active => ?_, fun k pending => ?_⟩
    · exact Finset.mem_insert_of_mem (exclusive.active k active)
    · exact Finset.mem_insert_of_mem (exclusive.pending k pending)
  | destroy key =>
    refine ⟨?_, fun k active => ?_, fun k pending => ?_⟩
    · refine exclusive.one.imp (fun none_ => ?_) fun none_ => ?_ <;>
        simp [EventThread.updateClients, none_]
    · obtain ⟨active, other⟩ := eq_of_not_destroyed active
      exact Finset.mem_erase_of_ne_of_mem other (exclusive.active k active)
    · obtain ⟨pending, other⟩ := eq_of_not_destroyed pending
      exact Finset.mem_erase_of_ne_of_mem other (exclusive.pending k pending)
  | startCapture key =>
    dsimp only [EventThread.updateClients]
    split_ifs with other
    · exact exclusive
    · refine ⟨.inr rfl, ?_, nofun⟩
      rintro _ ⟨⟩
      exact exclusive.pending key (not_not.mp other)
  | cancelPending key =>
    dsimp only [EventThread.updateClients]
    split_ifs
    · exact ⟨.inr rfl, exclusive.active, nofun⟩
    · exact exclusive

theorem updateDisplayRegions_spec (t : EventThread K) (enumerated : List (DisplayBound K)) :
    (t.updateDisplayRegions enumerated).clients = t.clients ∧
      (t.updateDisplayRegions enumerated).activeClient = t.activeClient ∧
      (t.updateDisplayRegions enumerated).pendingClient = t.pendingClient := by
  unfold updateDisplayRegions
  split_ifs <;> exact ⟨rfl, rfl, rfl⟩

section Motion

variable [Add K] [Sub K] [Zero K] [One K] [LE K] [LT K] [DecidableLE K] [DecidableLT K]

/-- A motion leaves the clients alone. While one is active it changes nothing else; otherwise it may
give up the pending client, or make a registered one pending if there is none. -/
theorem checkClientActivation_cases {curr : K × K} {enumerated : List (DisplayBound K)}
    {active : Bool} (done : t.checkClientActivation curr enumerated = some (active, t')) :
    t'.clients = t.clients ∧ t'.activeClient = t.activeClient ∧
      (t'.pendingClient = t.pendingClient ∨ t'.pendingClient = none ∨
        t.activeClient = none ∧ ∃ key ∈ t.clients, t'.pendingClient = some key) := by
  unfold checkClientActivation at done
  dsimp only at done
  obtain ⟨clients, active_, pending⟩ :=
    updateDisplayRegions_spec { t with prevPos := some curr } enumerated
  generalize updateDisplayRegions { t with prevPos := some curr } enumerated = refreshed at *
  dsimp only at clients active_ pending
  split_ifs at done with capturing
  · cases done
    exact ⟨rfl, rfl, .inl rfl⟩
  · have idle : t.activeClient = none := Option.not_isSome_iff_eq_none.mp capturing
    split at done
    · split_ifs at done
      · cases done
        exact ⟨clients, active_, .inr (.inl rfl)⟩
      · cases done
        exact ⟨clients, active_, .inl pending⟩
    · split at done
      · cases done
        exact ⟨clients, active_, .inl pending⟩
      · next key entered =>
        obtain ⟨entryPoint, -, rest⟩ := Option.bind_eq_some_iff.mp done
        cases rest
        have registered := mem_of_queryPure entered
        rw [clients] at registered
        exact ⟨clients, active_, .inr (.inr ⟨idle, key, registered, rfl⟩)⟩

theorem Exclusive.checkClientActivation (exclusive : t.Exclusive) {curr : K × K}
    {enumerated : List (DisplayBound K)} {active : Bool}
    (done : t.checkClientActivation curr enumerated = some (active, t')) : t'.Exclusive := by
  obtain ⟨clients, active_, pending | pending | ⟨idle, key, registered, pending⟩⟩ :=
    checkClientActivation_cases done
  · exact exclusive.of_same clients active_ pending
  · refine ⟨.inr pending, ?_, ?_⟩
    · rw [active_, clients]
      exact exclusive.active
    · rw [pending]
      nofun
  · exact exclusive_of_pending (active_.trans idle) pending (clients ▸ registered)

theorem Exclusive.mouseProc (exclusive : t.Exclusive) {curr : K × K}
    {enumerated : List (DisplayBound K)} {room active : Bool}
    (done : t.mouseProc curr enumerated room = some (active, t')) : t'.Exclusive := by
  unfold EventThread.mouseProc at done
  obtain ⟨⟨capturing, moved⟩, checked, rest⟩ := Option.bind_eq_some_iff.mp done
  have kept := exclusive.checkClientActivation checked
  dsimp only at rest
  split_ifs at rest
  · cases rest
    exact kept
  · split at rest
    · cases rest
      exact kept
    · cases rest
      exact kept.of_same rfl rfl rfl
  · split at rest <;> cases rest <;> exact kept

theorem Exclusive.step (exclusive : t.Exclusive) (e : Event K) (done : t.step e = some t') :
    t'.Exclusive := by
  cases e with
  | motion curr enumerated room =>
    obtain ⟨⟨active, moved⟩, hook, rfl⟩ := Option.map_eq_some_iff.mp done
    exact exclusive.mouseProc hook
  | displayChange =>
    cases done
    exact exclusive.of_same rfl rfl rfl
  | update request =>
    cases done
    exact exclusive.updateClients request
  | release =>
    cases done
    exact exclusive_of_idle rfl rfl

/-- Whatever happens on the thread, at most one of the active and the pending client is set, and it
is registered. -/
theorem active_pending_exclusive (events : List (Event K)) :
    Always (fun s e => s.bind fun t : EventThread K => t.step e)
      (fun s => ∀ t, s = some t → t.Exclusive) (some new) events := by
  refine always_of_inv _ ?_ (fun _ inv => inv) ?_ events
  · intro s e inv t' done
    obtain ⟨t, rfl, stepped⟩ := Option.bind_eq_some_iff.mp done
    exact (inv t rfl).step e stepped
  · rintro t ⟨⟩
    exact exclusive_of_idle rfl rfl

end Motion

/-! ### The order of the requests -/

/-- What the requests are about: the registered clients, and which one is active or pending. -/
structure Registered where
  clients : Finset BarrierKey
  activeClient : Option BarrierKey
  pendingClient : Option BarrierKey
  deriving DecidableEq

namespace Registered

def update (r : Registered) : ClientUpdate → Registered
  | .create key => { r with clients := insert key r.clients }
  | .destroy key =>
    { clients := r.clients.erase key
      activeClient := if r.activeClient = some key then none else r.activeClient
      pendingClient := if r.pendingClient = some key then none else r.pendingClient }
  | .startCapture key =>
    if r.pendingClient = some key then
      { r with activeClient := some key, pendingClient := none }
    else r
  | .cancelPending key =>
    if r.pendingClient = some key then { r with pendingClient := none } else r

def release (r : Registered) : Registered := { r with activeClient := none, pendingClient := none }

/-- Without an active or pending client a request can only change which clients are registered, and
that does not depend on them. -/
theorem commute_release (u : ClientUpdate) : Function.Commute release fun r => update r u := by
  intro r
  cases u with
  | create key => rfl
  | destroy key => rfl
  | startCapture key =>
    have idle : r.release.update (.startCapture key) = r.release := by simp [update, release]
    refine Eq.trans ?_ idle.symm
    dsimp only [update]
    split_ifs <;> rfl
  | cancelPending key =>
    have idle : r.release.update (.cancelPending key) = r.release := by simp [update, release]
    refine Eq.trans ?_ idle.symm
    dsimp only [update]
    split_ifs <;> rfl

end Registered

def registered (t : EventThread K) : Registered := ⟨t.clients, t.activeClient, t.pendingClient⟩

theorem registered_updateClients (t : EventThread K) (u : ClientUpdate) :
    (t.updateClients u).registered = t.registered.update u := by
  cases u with
  | create key => rfl
  | destroy key => rfl
  | startCapture key =>
    dsimp only [updateClients, Registered.update, registered]
    by_cases own : t.pendingClient = some key
    · rw [if_neg (not_not.mpr own), if_pos own]
      rfl
    · rw [if_pos own, if_neg own]
  | cancelPending key =>
    dsimp only [updateClients, Registered.update, registered]
    split_ifs <;> rfl

/-- The requests of the main thread go through a buffer and through messages. Whenever the thread
takes its messages, the clients end up as if each request had been executed when it was made. -/
theorem requests_in_order (t : EventThread K) (events : List (Drain.Event ClientUpdate)) :
    let m := run (Drain.Mailbox.step updateClients release) { state := t } events
    m.Drained → m.state.registered =
      (Drain.Mailbox.inOrder updateClients release t m.issued).registered :=
  Drain.Mailbox.view_of_drained registered_updateClients (fun _ => rfl)
    Registered.commute_release t events

/-- A capture that was started after a release is executed before it. -/
theorem requests_in_order_overtaken :
    let key : BarrierKey := .fromPos .left
    let t : EventThread Int := { new with clients := {key}, pendingClient := some key }
    let m := run (Drain.Mailbox.step updateClients release) { state := t }
      [.call (.update (.create (.fromPos .right))), .signal, .call .reset,
        .call (.update (.startCapture key)), .drain, .drain, .signal, .drain]
    m.Drained ∧ m.state.registered =
      (Drain.Mailbox.inOrder updateClients release t m.issued).registered :=
  ⟨⟨rfl, rfl⟩, requests_in_order _ _ ⟨rfl, rfl⟩⟩

end EventThread

end LanMouse.Capture.Windows
