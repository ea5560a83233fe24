import LanMouse.Capture.Geometry
import LanMouse.Capture.InputCapture
import Mathlib.Data.Finset.Basic
import Mathlib.Data.List.Pairwise

/-!
# From a motion to a registered barrier

Once a motion has entered a barrier, the monitor of the display it came from completes the key that
is looked up among the registered ones. A key without a monitor stands in where the one of the
monitor is not registered.

Nothing here depends on the arithmetic of the coordinates.
-/
namespace LanMouse.Capture

open Proto

structure DisplayBound (K : Type) where
  rect : DisplayRect K
  monitorId : Option String
  deriving DecidableEq, Repr

/-- The whole edge of a monitor. -/
def BarrierKey.onMonitor (pos : Position) (monitor : Option String) : BarrierKey :=
  ⟨pos, monitor, 0, 10000⟩

def BarrierKey.fromPos (pos : Position) : BarrierKey :=
  ⟨pos, none, 0, 10000⟩

/-- The key of the monitor where it is registered, else the key without a monitor. -/
def registeredKey (clients : Finset BarrierKey) (key : BarrierKey) : Option BarrierKey :=
  if key ∈ clients then some key
  else if key.monitor.isSome then
    let legacyKey := { key with monitor := none }
    if legacyKey ∈ clients then some legacyKey else none
  else none

section

variable {K : Type} [Add K] [Sub K] [Zero K] [LE K] [LT K] [DecidableLE K] [DecidableLT K]

/-- The index is of one of the displays: it was found in the list of their rectangles. -/
def queryPure (prev curr : K × K) (displays : List (DisplayBound K))
    (clients : Finset BarrierKey) : Option BarrierKey := do
  let rects := displays.map DisplayBound.rect
  let pos ← enteredBarrier prev curr rects
  let idx ← displayContainingIdx rects prev
  let display ← displays[idx]?
  registeredKey clients (.onMonitor pos display.monitorId)

def crossedPure (prev curr : K × K) (displays : List (DisplayBound K))
    (clients : Finset BarrierKey) : Option BarrierKey :=
  queryPure prev curr displays clients

def activationPure (prev curr : K × K) (displays : List (DisplayBound K))
    (clients : Finset BarrierKey) : Option BarrierKey :=
  queryPure prev curr displays clients

end

theorem registeredKey_eq_some_iff {clients : Finset BarrierKey} {pos : Position}
    {monitor : Option String} {k : BarrierKey} :
    registeredKey clients (.onMonitor pos monitor) = some k ↔
      (.onMonitor pos monitor ∈ clients ∧ k = .onMonitor pos monitor) ∨
      (.onMonitor pos monitor ∉ clients ∧ .fromPos pos ∈ clients ∧ k = .fromPos pos) := by
  have legacy : { BarrierKey.onMonitor pos monitor with monitor := none } = .fromPos pos := rfl
  unfold registeredKey
  by_cases registered : BarrierKey.onMonitor pos monitor ∈ clients
  · simp [registered, eq_comm]
  · cases monitor with
    | none =>
      have unbound : BarrierKey.fromPos pos ∉ clients := registered
      simp [legacy, registered, unbound]
    | some id =>
      have bound : (BarrierKey.onMonitor pos (some id)).monitor.isSome = true := rfl
      simp [legacy, registered, bound, eq_comm]

section Displays

variable {K : Type} [Add K] [LE K] [LT K]

/-- `d` is the first of the displays whose rectangle contains the point. -/
def FirstBound (displays : List (DisplayBound K)) (point : K × K) : DisplayBound K → Prop :=
  IsFirst (·.rect.Contains point) displays

/-- No point is in both displays. -/
def DisplayBound.Apart (d e : DisplayBound K) : Prop :=
  ∀ point, ¬ (d.rect.Contains point ∧ e.rect.Contains point)

theorem DisplayBound.Apart.symm {d e : DisplayBound K} (apart : d.Apart e) : e.Apart d :=
  fun point both => apart point both.symm

instance : Std.Symm (DisplayBound.Apart (K := K)) where
  symm _ _ := DisplayBound.Apart.symm

theorem unique_of_apart {displays : List (DisplayBound K)}
    (disjoint : displays.Pairwise DisplayBound.Apart) (point : K × K) :
    ∀ d ∈ displays, ∀ e ∈ displays, d.rect.Contains point → e.rect.Contains point → d = e := by
  intro d here e there holds both
  by_contra differ
  exact disjoint.forall here there differ point ⟨holds, both⟩

/-- The first of disjoint displays that contains a point is the only one. -/
theorem firstBound_iff_mem {displays : List (DisplayBound K)}
    (disjoint : displays.Pairwise DisplayBound.Apart) {point : K × K} {d : DisplayBound K} :
    FirstBound displays point d ↔ d ∈ displays ∧ d.rect.Contains point :=
  isFirst_iff_mem (unique_of_apart disjoint point)

theorem firstContaining_iff_mem {displays : List (DisplayBound K)}
    (disjoint : displays.Pairwise DisplayBound.Apart) {point : K × K} {r : DisplayRect K} :
    FirstContaining (displays.map DisplayBound.rect) point r ↔
      ∃ d ∈ displays, d.rect = r ∧ r.Contains point := by
  refine (isFirst_iff_mem ?_).trans ?_
  · simp only [List.forall_mem_map]
    intro d here e there holds both
    rw [unique_of_apart disjoint point d here e there holds both]
  · simp only [List.mem_map]
    constructor
    · rintro ⟨⟨d, mem, rfl⟩, holds⟩
      exact ⟨d, mem, rfl, holds⟩
    · rintro ⟨d, mem, rfl, holds⟩
      exact ⟨⟨d, mem, rfl⟩, holds⟩

end Displays

section Query

variable {K : Type} [Add K] [LE K] [LT K] [DecidableLE K] [DecidableLT K] {prev curr : K × K}
  {displays displays' : List (DisplayBound K)} {clients : Finset BarrierKey}

/-- Both searches come to the same display. -/
theorem getElem?_displayContainingIdx :
    ((displayContainingIdx (displays.map DisplayBound.rect) prev).bind (displays[·]?)) =
      displays.find? (isWithinDpRegion prev ·.rect) := by
  rw [displayContainingIdx_eq, List.findIdx?_map]
  induction displays with
  | nil => rfl
  | cons d rest ih =>
    rw [List.findIdx?_cons, List.find?_cons]
    cases within : isWithinDpRegion prev d.rect with
    | true => simp [within]
    | false => simpa [within, Option.bind_map] using ih

variable [Sub K] [Zero K]

theorem queryPure_eq (k : BarrierKey) : queryPure prev curr displays clients = some k ↔
    ∃ p d, enteredBarrier prev curr (displays.map DisplayBound.rect) = some p ∧
      FirstBound displays prev d ∧
      registeredKey clients (.onMonitor p d.monitorId) = some k := by
  have found : ∀ d, displays.find? (isWithinDpRegion prev ·.rect) = some d ↔
      FirstBound displays prev d :=
    fun d => find?_eq_some_iff_isFirst fun _ => isWithinDpRegion_iff
  simp only [← found, ← getElem?_displayContainingIdx, queryPure, bind, Option.bind_eq_some_iff]
  constructor
  · rintro ⟨p, entered, i, index, d, at_i, registered⟩
    exact ⟨p, d, entered, ⟨i, index, at_i⟩, registered⟩
  · rintro ⟨p, d, entered, ⟨i, index, at_i⟩, registered⟩
    exact ⟨p, entered, i, index, d, at_i, registered⟩

/-- A barrier that is entered is registered. -/
theorem mem_of_queryPure {k : BarrierKey} (found : queryPure prev curr displays clients = some k) :
    k ∈ clients := by
  obtain ⟨p, d, -, -, registered⟩ := (queryPure_eq k).mp found
  rcases registeredKey_eq_some_iff.mp registered with ⟨mem, rfl⟩ | ⟨-, mem, rfl⟩
  · exact mem
  · exact mem

/-- A motion over an edge finds the barrier of that edge on the monitor it left, or else that of the
edge on any monitor, and only one that is registered. -/
theorem queryPure_eq_some_iff (prev curr : K × K) (displays : List (DisplayBound K))
    (clients : Finset BarrierKey) (k : BarrierKey) :
    (queryPure prev curr displays clients = some k ↔
      ∃ p d, enteredBarrier prev curr (displays.map DisplayBound.rect) = some p ∧
        FirstBound displays prev d ∧
        ((.onMonitor p d.monitorId ∈ clients ∧ k = .onMonitor p d.monitorId) ∨
          (.onMonitor p d.monitorId ∉ clients ∧ .fromPos p ∈ clients ∧ k = .fromPos p))) ∧
    (queryPure prev curr displays clients = some k → k ∈ clients) := by
  refine ⟨?_, mem_of_queryPure⟩
  simp only [queryPure_eq, registeredKey_eq_some_iff]

/-- Neither search sees the order of disjoint displays. -/
theorem enteredBarrier_of_perm (disjoint : displays.Pairwise DisplayBound.Apart)
    (perm : displays.Perm displays') :
    enteredBarrier prev curr (displays.map DisplayBound.rect) =
      enteredBarrier prev curr (displays'.map DisplayBound.rect) := by
  have disjoint' := (perm.pairwise_iff DisplayBound.Apart.symm).mp disjoint
  refine Option.ext fun p => ?_
  simp only [enteredBarrier_eq_some_iff_motion, firstContaining_iff_mem disjoint,
    firstContaining_iff_mem disjoint', List.forall_mem_map, perm.mem_iff]

/-- The order in which disjoint displays are listed does not change the barrier. -/
theorem queryPure_of_perm (prev curr : K × K) (displays displays' : List (DisplayBound K))
    (clients : Finset BarrierKey) (disjoint : displays.Pairwise DisplayBound.Apart)
    (perm : displays.Perm displays') :
    queryPure prev curr displays clients = queryPure prev curr displays' clients := by
  have disjoint' := (perm.pairwise_iff DisplayBound.Apart.symm).mp disjoint
  refine Option.ext fun k => ?_
  simp only [queryPure_eq, enteredBarrier_of_perm disjoint perm, firstBound_iff_mem disjoint,
    firstBound_iff_mem disjoint', perm.mem_iff]

/-- Two displays side by side, listed from the left and from the right. -/
theorem queryPure_of_perm_pair :
    queryPure ((3, 1) : ℚ × ℚ) (5, 1) [⟨⟨0, 0, 2, 2⟩, some "left"⟩, ⟨⟨2, 0, 2, 2⟩, some "right"⟩]
        {.fromPos .right, .onMonitor .right (some "right")} =
      queryPure ((3, 1) : ℚ × ℚ) (5, 1)
        [⟨⟨2, 0, 2, 2⟩, some "right"⟩, ⟨⟨0, 0, 2, 2⟩, some "left"⟩]
        {.fromPos .right, .onMonitor .right (some "right")} ∧
    queryPure ((3, 1) : ℚ × ℚ) (5, 1) [⟨⟨0, 0, 2, 2⟩, some "left"⟩, ⟨⟨2, 0, 2, 2⟩, some "right"⟩]
      {.fromPos .right, .onMonitor .right (some "right")} =
        some (.onMonitor .right (some "right")) := by
  refine ⟨queryPure_of_perm _ _ _ _ _ ?_ (.swap _ _ _), by decide +kernel⟩
  refine List.pairwise_pair.mpr ?_
  rintro point ⟨leftOne, rightOne⟩
  have past := leftOne.right.trans_le (show (0 : ℚ) + 2 ≤ 2 by norm_num)
  exact absurd rightOne.left (not_le.mpr past)

end Query

end LanMouse.Capture
