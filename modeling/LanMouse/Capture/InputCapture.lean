import LanMouse.Proto.Event
import Mathlib.Data.List.AList

/-!
# The input capture

`InputCapture` shares the barriers of one capture backend among several handles: a barrier key is
created in the backend with its first handle and destroyed with its last. A backend event for a key
goes to every handle subscribed to it.

The backend is the one whose calls can fail, `layer_shell`: it records or removes the key of a
barrier and flushes its queue afterwards. Whether it answers `Ok` is an argument of each operation.
-/
namespace LanMouse.Capture

open Proto

abbrev CaptureHandle := Nat

/-- The opposite edge of the screen. -/
def opposite : Position → Position
  | .left => .right
  | .right => .left
  | .top => .bottom
  | .bottom => .top

structure MonitorInfo where
  id : String
  name : String
  position : Int32 × Int32
  size : UInt32 × UInt32
  primary : Bool
  scale : F64
  deriving DecidableEq, Repr

/-- An edge of the screen, possibly of one monitor, and the part of it that triggers. -/
structure BarrierKey where
  pos : Position
  monitor : Option String
  offset : UInt16
  span : UInt16
  deriving DecidableEq, Repr

inductive CaptureEvent where
  | begin
  | beginPending
  | cancelPending
  | input (e : InputEvent)
  deriving DecidableEq, Repr

/-- The key codes `scancode::Linux` knows. -/
abbrev Scancode := Fin 250

def Scancode.tryFrom (key : UInt32) : Option Scancode :=
  if known : key.toNat < 250 then some ⟨key.toNat, known⟩ else none

/-- The ways capture code can panic. -/
inductive Panic where
  | idTaken
  | noBarrierKey
  | noIdVector
  | noSuchCapture
  deriving DecidableEq, Repr

/-- What polling a stream of fallible items yields. -/
inductive Polled (α : Type) where
  | pending
  | ended
  | failed
  | item (a : α)
  deriving DecidableEq, Repr

/-- The keys the backend holds barriers for: a key is recorded whether or not the flush that follows
succeeds. -/
def addClient (activePositions : List BarrierKey) (key : BarrierKey) : List BarrierKey :=
  activePositions.insert key

def deleteClient (activePositions : List BarrierKey) (key : BarrierKey) : List BarrierKey :=
  activePositions.filter (· ≠ key)

/-- `barriers` are the barriers the backend holds. -/
structure InputCapture where
  barriers : List BarrierKey
  pressedKeys : List Scancode
  positionMap : AList fun _ : BarrierKey => List CaptureHandle
  idMap : AList fun _ : CaptureHandle => BarrierKey
  pending : List (CaptureHandle × CaptureEvent)

namespace InputCapture

def new : InputCapture := ⟨[], [], ∅, ∅, []⟩

/-- The result tells whether the call returned `Ok`, and `created` whether that of the backend
did. -/
def create (c : InputCapture) (id : CaptureHandle) (key : BarrierKey) (created : Bool) :
    Except Panic (InputCapture × Bool) :=
  if id ∈ c.idMap then .error .idTaken
  else
    let c := { c with idMap := c.idMap.insert id key }
    match c.positionMap.lookup key with
    | some ids => .ok ({ c with positionMap := c.positionMap.insert key (ids ++ [id]) }, true)
    | none =>
      .ok ({ c with
        positionMap := c.positionMap.insert key [id]
        barriers := addClient c.barriers key }, created)

def destroy (c : InputCapture) (id : CaptureHandle) (destroyed : Bool) :
    Except Panic (InputCapture × Bool) :=
  match c.idMap.lookup id with
  | none => .error .noBarrierKey
  | some key =>
    let c := { c with idMap := c.idMap.erase id }
    match c.positionMap.lookup key with
    | none => .error .noIdVector
    | some ids =>
      let remaining := ids.filter (· ≠ id)
      if remaining = [] then
        .ok ({ c with
          positionMap := c.positionMap.erase key
          barriers := deleteClient c.barriers key }, destroyed)
      else .ok ({ c with positionMap := c.positionMap.insert key remaining }, true)

def release (c : InputCapture) : InputCapture := { c with pressedKeys := [] }

def takePressedKeys (c : InputCapture) : List Scancode × InputCapture :=
  (c.pressedKeys, { c with pressedKeys := [] })

def keysPressed (c : InputCapture) (keys : List Scancode) : Bool := keys.all (· ∈ c.pressedKeys)

def updatePressedKeys (c : InputCapture) (key : UInt32) (state : UInt8) : InputCapture :=
  match Scancode.tryFrom key with
  | none => c
  | some scancode =>
    { c with
      pressedKeys :=
        if state = 1 then c.pressedKeys.insert scancode else c.pressedKeys.erase scancode }

def trackKeys (c : InputCapture) : CaptureEvent → InputCapture
  | .input (.keyboard (.key _ key state)) => c.updatePressedKeys key state
  | _ => c

/-- The backend is polled only when no event is queued. -/
def pollNext (c : InputCapture) (backend : Polled (BarrierKey × CaptureEvent)) :
    Polled (CaptureHandle × CaptureEvent) × InputCapture :=
  match c.pending with
  | e :: rest => (.item e, { c with pending := rest })
  | [] =>
    match backend with
    | .pending => (.pending, c)
    | .ended => (.ended, c)
    | .failed => (.failed, c)
    | .item (key, event) =>
      let c := c.trackKeys event
      match (c.positionMap.lookup key).getD [] with
      | [] => (.pending, c)
      | first :: rest =>
        (.item (first, event), { c with pending := c.pending ++ rest.map fun id => (id, event) })

/-! ### Subscriptions -/

/-- Every handle is among the subscribers of its own key. -/
def Linked (c : InputCapture) : Prop :=
  ∀ id key, c.idMap.lookup id = some key → ∃ ids, c.positionMap.lookup key = some ids ∧ id ∈ ids

/-- Two captures with the same handles under the same keys. -/
def SameHandles (c d : InputCapture) : Prop := d.idMap = c.idMap ∧ d.positionMap = c.positionMap

theorem SameHandles.rfl {c : InputCapture} : SameHandles c c := ⟨.refl _, .refl _⟩

theorem SameHandles.trans {c d e : InputCapture} (h : SameHandles c d) (k : SameHandles d e) :
    SameHandles c e :=
  ⟨k.1.trans h.1, k.2.trans h.2⟩

theorem Linked.congr {c d : InputCapture} (linked : c.Linked) (same : SameHandles c d) :
    d.Linked := by
  intro id key h
  rw [same.1] at h
  rw [same.2]
  exact linked id key h

theorem linked_new : new.Linked := by simp [Linked, new]

theorem trackKeys_eq (c : InputCapture) (e : CaptureEvent) :
    c.trackKeys e = { c with pressedKeys := (c.trackKeys e).pressedKeys } := by
  unfold trackKeys updatePressedKeys
  split
  · split <;> rfl
  · rfl

theorem sameHandles_pollNext (c : InputCapture) (backend : Polled (BarrierKey × CaptureEvent)) :
    SameHandles c (c.pollNext backend).2 := by
  have track : ∀ e, SameHandles c (c.trackKeys e) := by
    intro e
    rw [trackKeys_eq]
    exact ⟨rfl, rfl⟩
  unfold pollNext
  split
  · exact ⟨rfl, rfl⟩
  · split
    · exact .rfl
    · exact .rfl
    · exact .rfl
    · rename_i key event
      dsimp only
      split
      · exact track event
      · exact (track event).trans ⟨rfl, rfl⟩

/-- What `create` does when it does not panic. It fails only when the backend does. -/
theorem create_eq_ok {c d : InputCapture} {id : CaptureHandle} {key : BarrierKey}
    {created ok : Bool} (done : c.create id key created = .ok (d, ok)) :
    id ∉ c.idMap ∧ d.idMap = c.idMap.insert id key ∧
      d.positionMap = c.positionMap.insert key ((c.positionMap.lookup key).getD [] ++ [id]) ∧
      d.pending = c.pending ∧ d.pressedKeys = c.pressedKeys ∧ (ok = false → created = false) := by
  unfold create at done
  by_cases taken : id ∈ c.idMap
  · rw [if_pos taken] at done
    cases done
  rw [if_neg taken] at done
  dsimp only at done
  cases present : c.positionMap.lookup key with
  | none =>
    rw [present] at done
    cases done
    exact ⟨taken, rfl, rfl, rfl, rfl, fun fails => fails⟩
  | some ids =>
    rw [present] at done
    cases done
    exact ⟨taken, rfl, rfl, rfl, rfl, Bool.noConfusion⟩

/-- What `destroy` does when it does not panic. It fails only when the backend does. -/
theorem destroy_eq_ok {c d : InputCapture} {id : CaptureHandle} {destroyed ok : Bool}
    (done : c.destroy id destroyed = .ok (d, ok)) :
    ∃ key ids, c.idMap.lookup id = some key ∧ c.positionMap.lookup key = some ids ∧
      d.idMap = c.idMap.erase id ∧
      (d.positionMap =
        if ids.filter (· ≠ id) = [] then c.positionMap.erase key
        else c.positionMap.insert key (ids.filter (· ≠ id))) ∧
      d.pending = c.pending ∧ d.pressedKeys = c.pressedKeys ∧ (ok = false → destroyed = false) := by
  unfold destroy at done
  cases known : c.idMap.lookup id with
  | none =>
    rw [known] at done
    cases done
  | some key =>
    rw [known] at done
    dsimp only at done
    cases present : c.positionMap.lookup key with
    | none =>
      rw [present] at done
      cases done
    | some ids =>
      rw [present] at done
      dsimp only at done
      refine ⟨key, ids, rfl, present, ?_⟩
      by_cases last : ids.filter (· ≠ id) = []
      · rw [if_pos last] at done ⊢
        cases done
        exact ⟨rfl, rfl, rfl, rfl, fun fails => fails⟩
      · rw [if_neg last] at done ⊢
        cases done
        exact ⟨rfl, rfl, rfl, rfl, Bool.noConfusion⟩

theorem create_ok {c : InputCapture} {id : CaptureHandle} (fresh : id ∉ c.idMap)
    (linked : c.Linked) (key : BarrierKey) (created : Bool) :
    ∃ d ok, c.create id key created = .ok (d, ok) ∧ d.idMap = c.idMap.insert id key ∧
      d.Linked := by
  unfold create
  rw [if_neg fresh]
  dsimp only
  split
  · rename_i ids present
    refine ⟨_, _, rfl, rfl, fun j k h => ?_⟩
    by_cases same : k = key
    · refine ⟨ids ++ [id], by rw [same, AList.lookup_insert], ?_⟩
      by_cases own : j = id
      · simp [own]
      · obtain ⟨others, h', mem⟩ := linked j k (by rwa [AList.lookup_insert_ne own] at h)
        rw [same, present, Option.some_inj] at h'
        simp [h', mem]
    · have other : j ≠ id := by
        rintro rfl
        exact same (by simpa using h.symm)
      rw [AList.lookup_insert_ne other] at h
      rw [AList.lookup_insert_ne same]
      exact linked j k h
  · rename_i absent
    refine ⟨_, _, rfl, rfl, fun j k h => ?_⟩
    by_cases own : j = id
    · subst own
      obtain rfl : key = k := by simpa using h
      exact ⟨[j], AList.lookup_insert _, by simp⟩
    · rw [AList.lookup_insert_ne own] at h
      obtain ⟨ids, present, mem⟩ := linked j k h
      have other : k ≠ key := by
        rintro rfl
        rw [absent] at present
        cases present
      exact ⟨ids, by rw [AList.lookup_insert_ne other]; exact present, mem⟩

theorem destroy_ok {c : InputCapture} {id : CaptureHandle} (live : id ∈ c.idMap)
    (linked : c.Linked) (destroyed : Bool) :
    ∃ d ok, c.destroy id destroyed = .ok (d, ok) ∧ d.idMap = c.idMap.erase id ∧ d.Linked := by
  obtain ⟨key, h⟩ := Option.isSome_iff_exists.mp (AList.lookup_isSome.mpr live)
  obtain ⟨ids, present, -⟩ := linked id key h
  have others : ∀ j k, (c.idMap.erase id).lookup j = some k →
      j ≠ id ∧ ∃ ids, c.positionMap.lookup k = some ids ∧ j ∈ ids := by
    intro j k h'
    have other : j ≠ id := by
      rintro rfl
      simp at h'
    rw [AList.lookup_erase_ne other] at h'
    exact ⟨other, linked j k h'⟩
  unfold destroy
  rw [h]
  dsimp only
  rw [present]
  dsimp only
  by_cases empty : ids.filter (· ≠ id) = []
  · rw [if_pos empty]
    refine ⟨_, _, rfl, rfl, fun j k h' => ?_⟩
    obtain ⟨other, others, present', mem⟩ := others j k h'
    have apart : k ≠ key := by
      rintro rfl
      obtain rfl : ids = others := by rw [present] at present'; simpa using present'
      have remains : j ∈ ids.filter (· ≠ id) := by simp [mem, other]
      rw [empty] at remains
      cases remains
    exact ⟨others, by rw [AList.lookup_erase_ne apart]; exact present', mem⟩
  · rw [if_neg empty]
    refine ⟨_, _, rfl, rfl, fun j k h' => ?_⟩
    obtain ⟨other, others, present', mem⟩ := others j k h'
    by_cases same : k = key
    · subst same
      obtain rfl : ids = others := by rw [present] at present'; simpa using present'
      exact ⟨_, AList.lookup_insert _, by simp [mem, other]⟩
    · exact ⟨others, by rw [AList.lookup_insert_ne same]; exact present', mem⟩

end InputCapture

end LanMouse.Capture
