import LanMouse.Clipboard.Dispatch
import LanMouse.Lib.Recent

/-!
# The loopback lists

What a loopback list finds is said by what was marked in it: a fingerprint is found just if it was
marked lately. The text list is marked with what is announced and with what the peers send, the
image list only with what the peers send.
-/
namespace LanMouse.Clipboard

open Proto UnixPath Client

namespace LruFingerprints

variable {l : LruFingerprints} {capacity ttl now : Nat} {marks : List (Nat × Hash)}

/-- The list has what is left of the marks. -/
structure Keeps (l : LruFingerprints) (capacity ttl now : Nat) (marks : List (Nat × Hash)) :
    Prop where
  room : l.capacity = capacity
  age : l.ttl = ttl
  items : Recent.Keeps capacity ttl now marks l.items

theorem keeps_withCapacityAndTtl (capacity ttl now : Nat) :
    (withCapacityAndTtl capacity ttl).Keeps capacity ttl now [] :=
  ⟨rfl, rfl, .empty⟩

theorem Keeps.later (keeps : l.Keeps capacity ttl now marks) {later : Nat} (le : now ≤ later) :
    l.Keeps capacity ttl later marks :=
  ⟨keeps.room, keeps.age, keeps.items.later le⟩

/-- Where nothing is marked, the list is the one before. -/
theorem Keeps.unmarked (keeps : l.Keeps capacity ttl now marks) :
    l.Keeps capacity ttl now (marks ++ ([] : List Hash).map (now, ·)) := by
  rw [List.map_nil, List.append_nil]
  exact keeps

theorem Keeps.contains (keeps : l.Keeps capacity ttl now marks) (fp : Hash) :
    (l.contains now fp).2.Keeps capacity ttl now marks := by
  obtain ⟨rfl, rfl, items⟩ := keeps
  exact ⟨rfl, rfl, items.prune⟩

theorem Keeps.push (keeps : l.Keeps capacity ttl now marks) (some_ : 0 < capacity) (fp : Hash) :
    (l.push now fp).Keeps capacity ttl now (marks ++ [(now, fp)]) := by
  obtain ⟨rfl, rfl, items⟩ := keeps
  exact ⟨rfl, rfl, items.enter some_ fp⟩

theorem Keeps.contains_iff (keeps : l.Keeps capacity ttl now marks) (fp : Hash) :
    (l.contains now fp).1 = true ↔ Recent.Lately capacity ttl now marks fp := by
  obtain ⟨rfl, rfl, items⟩ := keeps
  exact items.found_iff fp

/-! ### Calls in any order -/

/-- A call of `push` or `contains`, with the time it is made at. -/
inductive Use where
  | push (now : Nat) (fp : Hash)
  | contains (now : Nat) (fp : Hash)

def Use.time : Use → Nat
  | push now _ | contains now _ => now

def use (l : LruFingerprints) : Use → LruFingerprints
  | .push now fp => l.push now fp
  | .contains now fp => (l.contains now fp).2

def pushes (uses : List Use) : List (Nat × Hash) :=
  uses.filterMap fun
    | .push now fp => some (now, fp)
    | .contains _ _ => none

theorem Keeps.use (keeps : l.Keeps capacity ttl now marks) (some_ : 0 < capacity) {u : Use}
    (later : now ≤ u.time) :
    (l.use u).Keeps capacity ttl u.time (marks ++ pushes [u]) := by
  cases u with
  | push now fp => exact (keeps.later later).push some_ fp
  | contains now fp =>
    rw [pushes, List.filterMap_cons, List.filterMap_nil, List.append_nil]
    exact (keeps.later later).contains fp

theorem Keeps.foldl_use (keeps : l.Keeps capacity ttl now marks) (some_ : 0 < capacity)
    {uses : List Use} {last : Nat}
    (inOrder : (now :: uses.map Use.time ++ [last]).Pairwise (· ≤ ·)) :
    (uses.foldl LruFingerprints.use l).Keeps capacity ttl last (marks ++ pushes uses) := by
  induction uses generalizing l now marks with
  | nil =>
    rw [pushes, List.filterMap_nil, List.append_nil]
    exact keeps.later (List.rel_of_pairwise_cons inOrder (by simp))
  | cons u uses ih =>
    have later : now ≤ u.time := List.rel_of_pairwise_cons inOrder (by simp)
    have all := ih (keeps.use some_ later) inOrder.of_cons
    rw [List.append_assoc, pushes, pushes, ← List.filterMap_append] at all
    exact all

/-- A fingerprint is found exactly when it is among the last pushes that fit, and was pushed less
than the time to live ago. -/
theorem contains_iff_pushed_lately (capacity ttl : Nat) (some_ : 1 ≤ capacity) (uses : List Use)
    (t : Nat) (inOrder : (uses.map Use.time ++ [t]).Pairwise (· ≤ ·)) (fp : Hash) :
    ((uses.foldl use (withCapacityAndTtl capacity ttl)).contains t fp).1 = true ↔
      ∃ ts, (ts, fp) ∈ (pushes uses).rtake capacity ∧ t - ts < ttl := by
  have start : (0 :: uses.map Use.time ++ [t]).Pairwise (· ≤ ·) :=
    List.pairwise_cons.mpr ⟨fun _ _ => Nat.zero_le _, inOrder⟩
  have keeps := (keeps_withCapacityAndTtl capacity ttl 0).foldl_use some_ start
  rw [keeps.contains_iff, Recent.Lately, List.nil_append]
  constructor
  · rintro ⟨⟨ts, _⟩, mem, rfl, young⟩
    exact ⟨ts, mem, young⟩
  · rintro ⟨ts, mem, young⟩
    exact ⟨(ts, fp), mem, rfl, young⟩

/-- The first of three pushes has made room for the third, and was pushed once more. -/
theorem contains_iff_pushed_lately_again :
    let a : Hash := Vector.replicate 32 1
    let b : Hash := Vector.replicate 32 2
    let uses := [.push 0 a, .contains 1 a, .push 2 b, .push 3 b, .contains 3 a, .push 5 a]
    (((uses.foldl use (withCapacityAndTtl 2 4)).contains 8 a).1 = true ↔
      ∃ ts, (ts, a) ∈ (pushes uses).rtake 2 ∧ 8 - ts < 4) ∧
    ((uses.foldl use (withCapacityAndTtl 2 4)).contains 8 a).1 = true := by
  intro a b uses
  exact ⟨contains_iff_pushed_lately 2 4 (by decide) uses 8 (by decide) a, by decide⟩

end LruFingerprints

end LanMouse.Clipboard
