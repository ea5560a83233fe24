import LanMouse.Clipboard.FileMeta
import LanMouse.Lib.Lines

/-!
# What a fingerprint says of a file selection

`file_selection_fingerprint` hashes the selected paths in a fixed order, each with a newline behind
it. The order of the selection does not matter. A path may hold newlines, though, and then two
selections that differ can be hashed from the same bytes.
-/
namespace LanMouse.Clipboard

open Proto UnixPath Lines

/-- The encoded bytes of an `OsStr`. -/
abbrev OsPath := List UInt8

/-- The bytes that are hashed. -/
def selectionBytes (paths : List OsPath) : List UInt8 :=
  terminated 10 (paths.insertionSort pathLe)

def encodedFingerprint (sha256 : List UInt8 → Hash) (paths : List OsPath) : Hash :=
  sha256 (selectionBytes paths)

theorem fileSelectionFingerprint_eq (sha256 : List UInt8 → Hash) (paths : List Path) :
    fileSelectionFingerprint sha256 paths = encodedFingerprint sha256 (paths.map pathBytes) := rfl

/-! ### The order of the paths -/

instance : Std.Total pathLe where
  total a b := by
    unfold pathLe
    have bytes := List.le_total a b
    grind

instance : IsTrans OsPath pathLe where
  trans a b c := by
    unfold pathLe
    intro ab bc
    have bytes : a ≤ b → b ≤ c → a ≤ c := List.le_trans
    grind

instance : Std.Antisymm pathLe where
  antisymm a b := by
    unfold pathLe
    intro ab ba
    have bytes : a ≤ b → b ≤ a → a = b := List.le_antisymm
    grind

theorem insertionSort_eq_iff_perm {paths paths' : List OsPath} :
    paths.insertionSort pathLe = paths'.insertionSort pathLe ↔ paths.Perm paths' := by
  constructor
  · intro same
    calc
      paths.Perm (paths.insertionSort pathLe) := (List.perm_insertionSort ..).symm
      _ = paths'.insertionSort pathLe := same
      List.Perm _ paths' := List.perm_insertionSort ..
  · intro perm
    refine List.Perm.eq_of_pairwise' (List.pairwise_insertionSort pathLe _)
      (List.pairwise_insertionSort pathLe _) ?_
    exact (List.perm_insertionSort ..).trans (perm.trans (List.perm_insertionSort ..).symm)

/-! ### Selections that are told apart -/

/-- The two selections consist of the same lines, in the order in which they are hashed, but not of
the same number of lines path by path. -/
def Regrouped (paths paths' : List OsPath) : Prop :=
  (paths.insertionSort pathLe).flatMap (lines 10) =
      (paths'.insertionSort pathLe).flatMap (lines 10) ∧
    (paths.insertionSort pathLe).map (fun p => (lines 10 p).length) ≠
      (paths'.insertionSort pathLe).map fun p => (lines 10 p).length

/-- Paths without a newline are a line each. -/
theorem not_regrouped_of_no_newline {paths paths' : List OsPath} (plain : ∀ p ∈ paths, 10 ∉ p)
    (plain' : ∀ p ∈ paths', 10 ∉ p) : ¬ Regrouped paths paths' := by
  rintro ⟨same, differ⟩
  rw [flatMap_lines_of_not_mem, flatMap_lines_of_not_mem] at same
  · exact differ (by rw [same])
  · simpa using plain'
  · simpa using plain

/-- With a hash that keeps the two apart if they are not the same bytes, selections have one
fingerprint exactly when they are the same but for their order, unless they are regroupings of each
other. -/
theorem fingerprint_tells_selections_iff (sha256 : List UInt8 → Hash) (paths paths' : List OsPath)
    (apart : Set.InjOn sha256 {selectionBytes paths, selectionBytes paths'}) :
    (encodedFingerprint sha256 paths = encodedFingerprint sha256 paths' ↔ paths.Perm paths') ↔
      ¬ Regrouped paths paths' := by
  have hashed : encodedFingerprint sha256 paths = encodedFingerprint sha256 paths' ↔
      (paths.insertionSort pathLe).flatMap (lines 10) =
        (paths'.insertionSort pathLe).flatMap (lines 10) := by
    rw [← terminated_eq_iff]
    exact apart.eq_iff (by simp) (by simp)
  have perm : paths.Perm paths' ↔
      (paths.insertionSort pathLe).flatMap (lines 10) =
          (paths'.insertionSort pathLe).flatMap (lines 10) ∧
        (paths.insertionSort pathLe).map (fun p => (lines 10 p).length) =
          (paths'.insertionSort pathLe).map fun p => (lines 10 p).length :=
    insertionSort_eq_iff_perm.symm.trans eq_iff_lines
  rw [hashed, perm, Regrouped]
  tauto

/-- `/a`, and `/a` together with `/b`. -/
theorem fingerprint_tells_two_selections :
    let sha256 : List UInt8 → Hash := fun bytes => Vector.replicate 32 (UInt8.ofNat bytes.length)
    encodedFingerprint sha256 [[47, 97]] = encodedFingerprint sha256 [[47, 97], [47, 98]] ↔
      List.Perm ([[47, 97]] : List OsPath) [[47, 97], [47, 98]] := by
  intro sha256
  refine (fingerprint_tells_selections_iff _ _ _ ?_).mpr ?_
  · rintro a (rfl | rfl) b (rfl | rfl) same
    · rfl
    · exact absurd same (by decide)
    · exact absurd same (by decide)
    · rfl
  · exact not_regrouped_of_no_newline (by decide) (by decide)

/-- `/a` and `/b`, and one path that is the two with a newline between them. -/
theorem fingerprint_confuses_selections :
    (∀ sha256 : List UInt8 → Hash, encodedFingerprint sha256 [[47, 97], [47, 98]] =
      encodedFingerprint sha256 [[47, 97, 10, 47, 98]]) ∧
    ¬ List.Perm ([[47, 97], [47, 98]] : List OsPath) [[47, 97, 10, 47, 98]] := by
  refine ⟨fun sha256 => congrArg sha256 (by decide), fun perm => ?_⟩
  exact absurd perm.length_eq (by decide)

end LanMouse.Clipboard
