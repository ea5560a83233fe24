import LanMouse.Proto.Event
import Mathlib.Algebra.Order.Field.Basic
import Mathlib.Algebra.Order.Field.Rat
import Mathlib.Tactic.Linarith

/-!
# Displays and the edges of the screen

The backends keep the displays as rectangles, left and top edge inclusive, right and bottom edge
exclusive. A motion enters a barrier when it leaves every display, and leaves the one it came from
past one edge only.

The functions are stated for any type of coordinates. What depends on the arithmetic is proved for
exact arithmetic, which doubles have on whole numbers of pixels and not on fractions of them.
-/
namespace LanMouse.Capture

open Proto

structure DisplayRect (K : Type) where
  x : K
  y : K
  w : K
  h : K
  deriving DecidableEq, Repr

section First

variable {α : Type} {P : α → Prop} {l : List α} {a : α}

/-- `a` is the first element of the list with the property. -/
def IsFirst (P : α → Prop) (l : List α) (a : α) : Prop :=
  P a ∧ ∃ before after, l = before ++ a :: after ∧ ∀ b ∈ before, ¬ P b

theorem IsFirst.mem (first : IsFirst P l a) : a ∈ l := by
  obtain ⟨-, before, after, rfl, -⟩ := first
  simp

theorem find?_eq_some_iff_isFirst {test : α → Bool} (decides : ∀ b, test b = true ↔ P b) :
    l.find? test = some a ↔ IsFirst P l a := by
  simp only [List.find?_eq_some_iff_append, IsFirst, decides, Bool.not_eq_true',
    ← Bool.not_eq_true]

/-- Where one element at most has the property, its place does not matter. -/
theorem isFirst_iff_mem (unique : ∀ b ∈ l, ∀ c ∈ l, P b → P c → b = c) :
    IsFirst P l a ↔ a ∈ l ∧ P a := by
  refine ⟨fun first => ⟨first.mem, first.1⟩, ?_⟩
  rintro ⟨mem, holds⟩
  obtain ⟨before, after, rfl, fresh⟩ := List.eq_append_cons_of_mem mem
  refine ⟨holds, before, after, rfl, fun b inside other => fresh ?_⟩
  rw [← unique b (List.mem_append_left _ inside) a mem other holds]
  exact inside

end First

section Model

variable {K : Type}

namespace DisplayRect

def left (d : DisplayRect K) : K := d.x

def top (d : DisplayRect K) : K := d.y

def right [Add K] (d : DisplayRect K) : K := d.x + d.w

def bottom [Add K] (d : DisplayRect K) : K := d.y + d.h

end DisplayRect

variable [Add K] [LE K] [LT K]

namespace DisplayRect

structure Contains (d : DisplayRect K) (point : K × K) : Prop where
  left : d.left ≤ point.1
  right : point.1 < d.right
  top : d.top ≤ point.2
  bottom : point.2 < d.bottom

/-- The point is past an edge of the display. -/
def Past (d : DisplayRect K) (point : K × K) : Position → Prop
  | .left => point.1 < d.left
  | .right => d.right ≤ point.1
  | .top => point.2 < d.top
  | .bottom => d.bottom ≤ point.2

end DisplayRect

/-- `d` is the first of the displays that contains the point. -/
def FirstContaining (displays : List (DisplayRect K)) (point : K × K) : DisplayRect K → Prop :=
  IsFirst (·.Contains point) displays

variable [DecidableLE K] [DecidableLT K]

/-- Whether the point is on the inside of an edge. -/
def isWithinDpBoundary (point : K × K) (display : DisplayRect K) : Position → Bool
  | .left => display.left ≤ point.1
  | .right => display.right > point.1
  | .top => display.top ≤ point.2
  | .bottom => display.bottom > point.2

def isWithinDpRegion (point : K × K) (display : DisplayRect K) : Bool :=
  [Position.left, .right, .top, .bottom].all (isWithinDpBoundary point display)

def inBounds (point : K × K) (displays : List (DisplayRect K)) (pos : Position) : Bool :=
  displays.any fun d => isWithinDpBoundary point d pos

def inDisplayRegion (point : K × K) (displays : List (DisplayRect K)) : Bool :=
  displays.any (isWithinDpRegion point)

def cursorWithin (point : K × K) (displays : List (DisplayRect K)) (pos : Position) : Bool :=
  inDisplayRegion point displays && inBounds point displays pos

/-- Whether the point is past an edge. -/
def crosses (point : K × K) (display : DisplayRect K) : Position → Bool
  | .left => point.1 < display.left
  | .right => point.1 ≥ display.right
  | .top => point.2 < display.top
  | .bottom => point.2 ≥ display.bottom

/-- The edge recorded last and the number of edges recorded. -/
def record (point : K × K) (display : DisplayRect K) (found : Option Position × Nat)
    (pos : Position) : Option Position × Nat :=
  if crosses point display pos then (some pos, found.2 + 1) else found

def recorded (point : K × K) (display : DisplayRect K) : Option Position × Nat :=
  [Position.left, .right, .top, .bottom].foldl (record point display) (none, 0)

/-- Whether the motion goes towards an edge. -/
def motionAgrees [Sub K] [Zero K] (prev curr : K × K) : Position → Bool
  | .left => curr.1 - prev.1 < 0
  | .right => curr.1 - prev.1 > 0
  | .top => curr.2 - prev.2 < 0
  | .bottom => curr.2 - prev.2 > 0

def enteredBarrier [Sub K] [Zero K] (prev curr : K × K) (displays : List (DisplayRect K)) :
    Option Position :=
  if !inDisplayRegion prev displays || inDisplayRegion curr displays then none
  else
    match displays.find? (isWithinDpRegion prev) with
    | none => none
    | some containing =>
      let (trueSide, trueCount) := recorded curr containing
      if trueCount ≠ 1 then none
      else
        match trueSide with
        | none => none
        | some pos => if motionAgrees prev curr pos then some pos else none

def displayContainingIdx (displays : List (DisplayRect K)) (point : K × K) : Option Nat :=
  displays.findIdx? fun d =>
    d.left ≤ point.1 && point.1 < d.right && d.top ≤ point.2 && point.2 < d.bottom

/-- `none` is a panic: the bounds are the wrong way round. -/
def clamp (x min max : K) : Option K :=
  if min ≤ max then
    let x := if x < min then min else x
    some (if x > max then max else x)
  else none

/-- `none` is a panic. -/
def clampToDisplayBounds [Sub K] [One K] (displayRegions : List (DisplayRect K))
    (prevPoint point : K × K) : Option (K × K) :=
  match displayRegions.find? (isWithinDpRegion prevPoint) with
  | none => some point
  | some display => do
    let x ← clamp point.1 display.left (display.right - 1)
    let y ← clamp point.2 display.top (display.bottom - 1)
    return (x, y)

/-! ### What the tests decide -/

theorem isWithinDpRegion_iff {point : K × K} {d : DisplayRect K} :
    isWithinDpRegion point d = true ↔ d.Contains point := by
  simp only [isWithinDpRegion, isWithinDpBoundary, gt_iff_lt, List.all_cons, List.all_nil,
    Bool.and_true, Bool.and_eq_true, decide_eq_true_eq]
  exact ⟨fun ⟨l, r, t, b⟩ => ⟨l, r, t, b⟩, fun ⟨l, r, t, b⟩ => ⟨l, r, t, b⟩⟩

theorem inDisplayRegion_iff {point : K × K} {displays : List (DisplayRect K)} :
    inDisplayRegion point displays = true ↔ ∃ d ∈ displays, d.Contains point := by
  simp only [inDisplayRegion, List.any_eq_true, isWithinDpRegion_iff]

theorem find?_region_eq_some_iff {point : K × K} {displays : List (DisplayRect K)}
    {d : DisplayRect K} :
    displays.find? (isWithinDpRegion point) = some d ↔ FirstContaining displays point d :=
  find?_eq_some_iff_isFirst fun _ => isWithinDpRegion_iff

/-- The search for the index goes by the same containment. -/
theorem displayContainingIdx_eq (displays : List (DisplayRect K)) (point : K × K) :
    displayContainingIdx displays point = displays.findIdx? (isWithinDpRegion point) := by
  refine congrArg (displays.findIdx? ·) (funext fun d => Bool.eq_iff_iff.mpr ?_)
  rw [isWithinDpRegion_iff]
  simp only [Bool.and_eq_true, decide_eq_true_eq]
  exact ⟨fun ⟨⟨⟨l, r⟩, t⟩, b⟩ => ⟨l, r, t, b⟩, fun ⟨l, r, t, b⟩ => ⟨⟨⟨l, r⟩, t⟩, b⟩⟩

/-- A point inside some display is on the inside of each of its edges: the side asked for makes no
difference. -/
theorem cursorWithin_eq (point : K × K) (displays : List (DisplayRect K)) (pos : Position) :
    cursorWithin point displays pos = inDisplayRegion point displays := by
  rw [cursorWithin, Bool.and_eq_left_iff_imp]
  intro within
  obtain ⟨d, mem, holds⟩ := inDisplayRegion_iff.mp within
  refine List.any_eq_true.mpr ⟨d, mem, ?_⟩
  cases pos with
  | left => exact decide_eq_true holds.left
  | right => exact decide_eq_true holds.right
  | top => exact decide_eq_true holds.top
  | bottom => exact decide_eq_true holds.bottom

theorem crosses_iff {point : K × K} {d : DisplayRect K} {pos : Position} :
    crosses point d pos = true ↔ d.Past point pos := by
  cases pos <;> simp [crosses, DisplayRect.Past]

/-- One edge is recorded, and it is `p`, when the point is past `p` and past no other edge. -/
theorem recorded_eq_iff {point : K × K} {d : DisplayRect K} {p : Position} :
    recorded point d = (some p, 1) ↔ ∀ q, d.Past point q ↔ q = p := by
  simp only [← crosses_iff, recorded, record, List.foldl_cons, List.foldl_nil]
  have all : ∀ motive : Position → Prop, (∀ q, motive q) ↔
      motive .left ∧ motive .right ∧ motive .top ∧ motive .bottom := by
    intro motive
    refine ⟨fun holds => ⟨holds _, holds _, holds _, holds _⟩, ?_⟩
    rintro ⟨l, r, t, b⟩ (_ | _ | _ | _) <;> assumption
  rw [all]
  cases crosses point d .left <;> cases crosses point d .right <;>
    cases crosses point d .top <;> cases crosses point d .bottom <;> cases p <;> simp

theorem exists_of_recorded_snd {point : K × K} {d : DisplayRect K} :
    (recorded point d).2 = 1 → ∃ p, recorded point d = (some p, 1) := by
  simp only [recorded, record, List.foldl_cons, List.foldl_nil]
  cases crosses point d .left <;> cases crosses point d .right <;>
    cases crosses point d .top <;> cases crosses point d .bottom <;> simp

section Entered

variable [Sub K] [Zero K] {prev curr : K × K} {displays : List (DisplayRect K)} {p : Position}

/-- What the code tests before a barrier is entered, for coordinates that obey no law. -/
theorem enteredBarrier_eq_some_iff_motion :
    enteredBarrier prev curr displays = some p ↔
      (∀ d ∈ displays, ¬ d.Contains curr) ∧
        ∃ d, FirstContaining displays prev d ∧ (∀ q, d.Past curr q ↔ q = p) ∧
          motionAgrees prev curr p = true := by
  constructor
  · intro entered
    unfold enteredBarrier at entered
    split at entered
    · cases entered
    · rename_i inside
      simp only [Bool.or_eq_true, Bool.not_eq_true', not_or, Bool.not_eq_false,
        inDisplayRegion_iff, not_exists, not_and] at inside
      cases found : displays.find? (isWithinDpRegion prev) with
      | none => simp [found] at entered
      | some d =>
        by_cases one : (recorded curr d).2 = 1
        · obtain ⟨q, only⟩ := exists_of_recorded_snd one
          simp only [found, only, ne_eq, not_true_eq_false, if_false,
            Option.ite_none_right_eq_some, Option.some.injEq] at entered
          obtain ⟨agrees, rfl⟩ := entered
          exact ⟨inside.2, d, find?_region_eq_some_iff.mp found, recorded_eq_iff.mp only, agrees⟩
        · simp [found, one] at entered
  · rintro ⟨outside, d, first, only, agrees⟩
    have within : inDisplayRegion prev displays = true :=
      inDisplayRegion_iff.mpr ⟨d, first.mem, first.1⟩
    have left : inDisplayRegion curr displays = false := by
      rw [Bool.eq_false_iff, ne_eq, inDisplayRegion_iff]
      rintro ⟨e, mem, holds⟩
      exact outside e mem holds
    unfold enteredBarrier
    simp [within, left, find?_region_eq_some_iff.mpr first, recorded_eq_iff.mpr only, agrees]

end Entered

end Model

/-! ### Entering a barrier -/

section Exact

variable {K : Type} [LinearOrder K]

/-- A point inside a display is reached from a point past an edge by going back over that edge. -/
theorem motionAgrees_of_past [AddCommGroup K] [IsOrderedAddMonoid K] {d : DisplayRect K}
    {prev curr : K × K} {p : Position} (within : d.Contains prev) (past : d.Past curr p) :
    motionAgrees prev curr p = true := by
  cases p with
  | left => exact decide_eq_true (sub_neg.mpr (lt_of_lt_of_le past within.left))
  | right => exact decide_eq_true (sub_pos.mpr (lt_of_lt_of_le within.right past))
  | top => exact decide_eq_true (sub_neg.mpr (lt_of_lt_of_le past within.top))
  | bottom => exact decide_eq_true (sub_pos.mpr (lt_of_lt_of_le within.bottom past))

/-- A barrier is entered exactly when the motion leaves all displays and goes past one edge only of
the display it came from; that it also goes towards that edge follows. -/
theorem enteredBarrier_eq_some_iff [AddCommGroup K] [IsOrderedAddMonoid K] (prev curr : K × K)
    (displays : List (DisplayRect K)) (p : Position) :
    (enteredBarrier prev curr displays = some p ↔
      (∃ d ∈ displays, d.Contains prev) ∧ (∀ d ∈ displays, ¬ d.Contains curr) ∧
        ∃ d, FirstContaining displays prev d ∧ ∀ q, d.Past curr q ↔ q = p) ∧
    ∀ d, displays.find? (isWithinDpRegion prev) = some d → recorded curr d = (some p, 1) →
      motionAgrees prev curr p = true := by
  refine ⟨⟨fun entered => ?_, ?_⟩, ?_⟩
  · obtain ⟨outside, d, first, only, -⟩ := enteredBarrier_eq_some_iff_motion.mp entered
    exact ⟨⟨d, first.mem, first.1⟩, outside, d, first, only⟩
  · rintro ⟨-, outside, d, first, only⟩
    have agrees := motionAgrees_of_past first.1 ((only p).mpr rfl)
    exact enteredBarrier_eq_some_iff_motion.mpr ⟨outside, d, first, only, agrees⟩
  · intro d found only
    have first := find?_region_eq_some_iff.mp found
    exact motionAgrees_of_past first.1 ((recorded_eq_iff.mp only p).mpr rfl)

/-- Two displays of different heights, side by side, left over the edge of the second. -/
theorem enteredBarrier_over_rationals :
    (enteredBarrier ((3, 1) : ℚ × ℚ) (5, 3 / 2) [⟨0, 0, 2, 1⟩, ⟨2, 0, 2, 2⟩] = some .right ↔
      (∃ d ∈ [(⟨0, 0, 2, 1⟩ : DisplayRect ℚ), ⟨2, 0, 2, 2⟩], d.Contains (3, 1)) ∧
        (∀ d ∈ [(⟨0, 0, 2, 1⟩ : DisplayRect ℚ), ⟨2, 0, 2, 2⟩], ¬ d.Contains (5, 3 / 2)) ∧
        ∃ d, FirstContaining [(⟨0, 0, 2, 1⟩ : DisplayRect ℚ), ⟨2, 0, 2, 2⟩] (3, 1) d ∧
          ∀ q, d.Past (5, 3 / 2) q ↔ q = .right) ∧
    enteredBarrier ((3, 1) : ℚ × ℚ) (5, 3 / 2) [⟨0, 0, 2, 1⟩, ⟨2, 0, 2, 2⟩] = some .right :=
  ⟨(enteredBarrier_eq_some_iff _ _ _ .right).1, by decide +kernel⟩

/-! ### Parking the cursor -/

/-- A point on the last line inside an edge of the display. -/
def DisplayRect.OnEdge [Add K] [Sub K] [One K] (d : DisplayRect K) (point : K × K) :
    Position → Prop
  | .left => point.1 = d.left
  | .right => point.1 = d.right - 1
  | .top => point.2 = d.top
  | .bottom => point.2 = d.bottom - 1

/-- The coordinate of a point along an edge. -/
def along (point : K × K) : Position → K
  | .left | .right => point.2
  | .top | .bottom => point.1

theorem clamp_eq {x lo hi : K} (ordered : lo ≤ hi) :
    clamp x lo hi = some (min (max x lo) hi) := by
  unfold clamp
  rw [if_pos ordered]
  grind

theorem clamp_of_lt {x lo hi : K} (ordered : lo ≤ hi) (below : x < lo) :
    clamp x lo hi = some lo := by
  rw [clamp_eq ordered, max_eq_right below.le, min_eq_left ordered]

theorem clamp_of_le {x lo hi : K} (ordered : lo ≤ hi) (above : hi ≤ x) :
    clamp x lo hi = some hi := by
  rw [clamp_eq ordered, max_eq_left (ordered.trans above), min_eq_right above]

theorem clamp_of_mem {x lo hi : K} (above : lo ≤ x) (below : x ≤ hi) : clamp x lo hi = some x := by
  rw [clamp_eq (above.trans below), max_eq_left above, min_eq_left below]

/-- A coordinate within the display is moved by less than one, to one that stays where it is. -/
theorem clamp_of_within [CommRing K] [IsStrictOrderedRing K] {x lo hi : K} (ordered : lo ≤ hi - 1)
    (above : lo ≤ x) (below : x < hi) :
    ∃ y, clamp x lo (hi - 1) = some y ∧ lo ≤ y ∧ y ≤ hi - 1 ∧ |y - x| < 1 := by
  refine ⟨min x (hi - 1), ?_, le_min above ordered, min_le_right _ _, ?_⟩
  · rw [clamp_eq ordered, max_eq_left above]
  · rw [abs_sub_lt_iff]
    rcases min_choice x (hi - 1) with eq | eq
    · rw [eq]
      simp
    · have : hi - 1 ≤ x := min_eq_right_iff.mp eq
      rw [eq]
      constructor <;> linarith

theorem clampToDisplayBounds_eq [Add K] [Sub K] [One K] {displays : List (DisplayRect K)}
    {prev point : K × K} {d : DisplayRect K} (first : FirstContaining displays prev d) {x y : K}
    (horizontal : clamp point.1 d.left (d.right - 1) = some x)
    (vertical : clamp point.2 d.top (d.bottom - 1) = some y) :
    clampToDisplayBounds displays prev point = some (x, y) := by
  unfold clampToDisplayBounds
  rw [find?_region_eq_some_iff.mpr first]
  simp [horizontal, vertical]

/-- In exact arithmetic, the cursor of a motion that enters a barrier is parked inside the display
it came from, on the edge it went past, less than a unit away along the edge, and stays there. -/
theorem clampToDisplayBounds_of_entered [CommRing K] [IsStrictOrderedRing K]
    (displays : List (DisplayRect K)) (prev curr : K × K) (p : Position)
    (size : ∀ d ∈ displays, 1 ≤ d.w ∧ 1 ≤ d.h)
    (entered : enteredBarrier prev curr displays = some p) :
    ∃ d q, FirstContaining displays prev d ∧
      clampToDisplayBounds displays prev curr = some q ∧ d.Contains q ∧ d.OnEdge q p ∧
      |along q p - along curr p| < 1 ∧ clampToDisplayBounds displays prev q = some q := by
  obtain ⟨-, d, first, only, -⟩ := enteredBarrier_eq_some_iff_motion.mp entered
  have wide : d.left ≤ d.right - 1 := by
    have := (size d first.mem).1
    unfold DisplayRect.left DisplayRect.right
    linarith
  have high : d.top ≤ d.bottom - 1 := by
    have := (size d first.mem).2
    unfold DisplayRect.top DisplayRect.bottom
    linarith
  have past : d.Past curr p := (only p).mpr rfl
  have inside (q : Position) (ne : q ≠ p) : ¬ d.Past curr q := fun gone => ne ((only q).mp gone)
  have withinX (notLeft : .left ≠ p) (notRight : .right ≠ p) :=
    clamp_of_within wide (not_lt.mp (inside .left notLeft)) (not_le.mp (inside .right notRight))
  have withinY (notTop : .top ≠ p) (notBottom : .bottom ≠ p) :=
    clamp_of_within high (not_lt.mp (inside .top notTop)) (not_le.mp (inside .bottom notBottom))
  -- the coordinate past the edge ends on it, the other one is within the display
  suffices parked : ∃ x y, clamp curr.1 d.left (d.right - 1) = some x ∧
      clamp curr.2 d.top (d.bottom - 1) = some y ∧ (d.left ≤ x ∧ x ≤ d.right - 1) ∧
      (d.top ≤ y ∧ y ≤ d.bottom - 1) ∧ d.OnEdge (x, y) p ∧
      |along (x, y) p - along curr p| < 1 by
    obtain ⟨x, y, horizontal, vertical, inX, inY, edge, near⟩ := parked
    have within : d.Contains (x, y) :=
      ⟨inX.1, inX.2.trans_lt (sub_one_lt _), inY.1, inY.2.trans_lt (sub_one_lt _)⟩
    have again : clampToDisplayBounds displays prev (x, y) = some (x, y) :=
      clampToDisplayBounds_eq first (clamp_of_mem inX.1 inX.2) (clamp_of_mem inY.1 inY.2)
    exact ⟨d, (x, y), first, clampToDisplayBounds_eq first horizontal vertical, within, edge, near,
      again⟩
  cases p with
  | left =>
    obtain ⟨y, vertical, lower, upper, near⟩ := withinY nofun nofun
    exact ⟨d.left, y, clamp_of_lt wide past, vertical, ⟨le_rfl, wide⟩, ⟨lower, upper⟩, rfl, near⟩
  | right =>
    obtain ⟨y, vertical, lower, upper, near⟩ := withinY nofun nofun
    have beyond : d.right - 1 ≤ curr.1 := (sub_one_lt _).le.trans past
    exact ⟨d.right - 1, y, clamp_of_le wide beyond, vertical, ⟨wide, le_rfl⟩, ⟨lower, upper⟩, rfl,
      near⟩
  | top =>
    obtain ⟨x, horizontal, lower, upper, near⟩ := withinX nofun nofun
    exact ⟨x, d.top, horizontal, clamp_of_lt high past, ⟨lower, upper⟩, ⟨le_rfl, high⟩, rfl, near⟩
  | bottom =>
    obtain ⟨x, horizontal, lower, upper, near⟩ := withinX nofun nofun
    have beyond : d.bottom - 1 ≤ curr.2 := (sub_one_lt _).le.trans past
    exact ⟨x, d.bottom - 1, horizontal, clamp_of_le high beyond, ⟨lower, upper⟩, ⟨high, le_rfl⟩,
      rfl, near⟩

/-- The motion ends half a unit above the lower edge, and the cursor is parked a whole unit above
it. -/
theorem clampToDisplayBounds_over_rationals :
    ∃ d q, FirstContaining [(⟨0, 0, 2, 1⟩ : DisplayRect ℚ), ⟨2, 0, 2, 2⟩] (3, 1) d ∧
      clampToDisplayBounds [(⟨0, 0, 2, 1⟩ : DisplayRect ℚ), ⟨2, 0, 2, 2⟩] (3, 1) (5, 3 / 2) =
        some q ∧
      d.Contains q ∧ d.OnEdge q .right ∧ |along q .right - along (5, 3 / 2) .right| < 1 ∧
      clampToDisplayBounds [(⟨0, 0, 2, 1⟩ : DisplayRect ℚ), ⟨2, 0, 2, 2⟩] (3, 1) q = some q :=
  clampToDisplayBounds_of_entered _ _ _ _ (by decide +kernel) (by decide +kernel)

end Exact

/-! ### Rounding -/

/-- The exponent of the leading bit of a number. -/
def leadingBit (q : ℚ) : ℤ :=
  let e : ℤ := q.num.natAbs.log2 - q.den.log2
  if |q| < 2 ^ e then e - 1 else e

/-- The nearest integer, and of two the even one. -/
def nearestEven (q : ℚ) : ℤ :=
  let below := q.floor
  let rest := q - below
  if rest < 1 / 2 ∨ rest = 1 / 2 ∧ below % 2 = 0 then below else below + 1

/-- A finite double, as the number it stands for. The bounds of the exponent are left out. -/
structure Double where
  val : ℚ
  deriving DecidableEq, Repr

namespace Double

/-- The double next to a number: 53 bits from the leading one on. -/
def round (q : ℚ) : Double :=
  let ulp : ℚ := 2 ^ (leadingBit q - 52)
  ⟨nearestEven (q / ulp) * ulp⟩

instance : Zero Double := ⟨⟨0⟩⟩

instance : One Double := ⟨⟨1⟩⟩

instance : Add Double := ⟨fun a b => round (a.val + b.val)⟩

instance : Sub Double := ⟨fun a b => round (a.val - b.val)⟩

instance : LE Double := ⟨fun a b => a.val ≤ b.val⟩

instance : LT Double := ⟨fun a b => a.val < b.val⟩

instance : DecidableLE Double := fun a b => inferInstanceAs (Decidable (a.val ≤ b.val))

instance : DecidableLT Double := fun a b => inferInstanceAs (Decidable (a.val < b.val))

end Double

/-- A display one unit high whose upper edge is at the double next to 0.9. Its lower edge is rounded
down, so that one unit above it is above the upper edge, and a clamp between the two panics. -/
theorem clampToDisplayBounds_rounded :
    let display : DisplayRect Double := ⟨⟨0⟩, Double.round (9 / 10), ⟨1⟩, ⟨1⟩⟩
    let prev : Double × Double := (⟨1 / 2⟩, ⟨1⟩)
    let curr : Double × Double := (⟨1 / 2⟩, ⟨5⟩)
    1 ≤ display.w ∧ 1 ≤ display.h ∧ enteredBarrier prev curr [display] = some .bottom ∧
      clampToDisplayBounds [display] prev curr = none := by
  decide +kernel

end LanMouse.Capture
