import Mathlib.Data.List.Basic

/-!
# Trust on first use

A history lists the values that keys have used, oldest first. A key trusts the value it used first,
and `accepts` says whether a further use is of that value.

Keys may share slots, and then it is the slot that trusts its first value. Nobody can tell the
difference as long as the keys of a slot `Agree` on what they used first (`first_slotted_iff`,
`accepts_slotted`).
-/
namespace FirstUse

variable {κ ν φ : Type}

/-- The value a key used first. -/
def first [DecidableEq κ] (history : List (κ × φ)) (k : κ) : Option φ := history.lookup k

def accepts [DecidableEq κ] [DecidableEq φ] (history : List (κ × φ)) (use : κ × φ) : Bool :=
  (first history use.1).all (· = use.2)

def slotted (slot : κ → ν) (history : List (κ × φ)) : List (ν × φ) :=
  history.map fun use => (slot use.1, use.2)

/-- Keys that share a slot have used the same value first. -/
def Agree [DecidableEq κ] (slot : κ → ν) (history : List (κ × φ)) : Prop :=
  ∀ a ∈ history, ∀ b ∈ history, slot a.1 = slot b.1 → first history a.1 = first history b.1

theorem slotted_snoc (slot : κ → ν) (history : List (κ × φ)) (use : κ × φ) :
    slotted slot (history ++ [use]) = slotted slot history ++ [(slot use.1, use.2)] :=
  List.map_append

section Lookup

variable [DecidableEq κ]

theorem first_snoc (history : List (κ × φ)) (use : κ × φ) (k : κ) :
    first (history ++ [use]) k =
      (first history k).or (if k = use.1 then some use.2 else none) := by
  obtain ⟨key, value⟩ := use
  unfold first
  rw [List.lookup_append, List.lookup_cons, List.lookup_nil]
  by_cases same : k = key
  · simp [same]
  · simp [same, beq_false_of_ne same]

theorem exists_first_of_mem {history : List (κ × φ)} {use : κ × φ} (mem : use ∈ history) :
    ∃ v, first history use.1 = some v :=
  Option.isSome_iff_exists.mp (List.lookup_isSome_iff.mpr ⟨use, mem, beq_self_eq_true _⟩)

theorem mem_of_first {history : List (κ × φ)} {k : κ} {v : φ} (found : first history k = some v) :
    (k, v) ∈ history := by
  obtain ⟨l, r, split, -⟩ := List.lookup_eq_some_iff.mp found
  simp [split]

theorem first_of_isPrefix {done history : List (κ × φ)} (begins : done <+: history) {k : κ}
    {v : φ} (found : first done k = some v) : first history k = some v := by
  obtain ⟨rest, rfl⟩ := begins
  rw [first] at found
  simp [first, List.lookup_append, found]

theorem Agree.of_isPrefix {slot : κ → ν} {done history : List (κ × φ)}
    (agree : Agree slot history) (begins : done <+: history) : Agree slot done := by
  intro a a_mem b b_mem same
  obtain ⟨v, a_trusts⟩ := exists_first_of_mem a_mem
  obtain ⟨w, b_trusts⟩ := exists_first_of_mem b_mem
  have both := agree a (begins.subset a_mem) b (begins.subset b_mem) same
  rw [first_of_isPrefix begins a_trusts, first_of_isPrefix begins b_trusts] at both
  rw [a_trusts, b_trusts, both]

end Lookup

section Slots

variable [DecidableEq ν]

theorem exists_first_slotted_of_mem (slot : κ → ν) {history : List (κ × φ)} {use : κ × φ}
    (mem : use ∈ history) : ∃ v, first (slotted slot history) (slot use.1) = some v :=
  exists_first_of_mem (List.mem_map_of_mem mem : (slot use.1, use.2) ∈ slotted slot history)

variable [DecidableEq κ]

/-- What a slot trusts is what one of its keys trusts. -/
theorem exists_of_first_slotted {slot : κ → ν} {history : List (κ × φ)} {n : ν} {v : φ}
    (found : first (slotted slot history) n = some v) :
    ∃ a ∈ history, slot a.1 = n ∧ first history a.1 = some v := by
  induction history with
  | nil => cases found
  | cons use rest ih =>
    obtain ⟨k, w⟩ := use
    simp only [first, slotted, List.map_cons, List.lookup_cons] at found
    by_cases here : n = slot k
    · refine ⟨(k, w), List.mem_cons_self, here.symm, ?_⟩
      simpa [first, here, List.lookup_cons] using found
    · rw [beq_false_of_ne here] at found
      obtain ⟨a, mem, there, trusts⟩ := ih found
      have differs : a.1 ≠ k := fun same => here (same ▸ there).symm
      exact ⟨a, List.mem_cons_of_mem _ mem, there,
        by simpa [first, List.lookup_cons, beq_false_of_ne differs] using trusts⟩

/-- Every key finds its own first value in its slot exactly when the keys agree. -/
theorem first_slotted_iff (slot : κ → ν) (history : List (κ × φ)) :
    (∀ use ∈ history, first (slotted slot history) (slot use.1) = first history use.1) ↔
      Agree slot history := by
  constructor
  · intro kept a a_mem b b_mem same
    rw [← kept a a_mem, ← kept b b_mem, same]
  · intro agree use mem
    obtain ⟨v, held⟩ := exists_first_slotted_of_mem slot mem
    obtain ⟨a, a_mem, there, trusts⟩ := exists_of_first_slotted held
    rw [held, ← trusts]
    exact agree a a_mem use mem there

theorem accepts_slotted [DecidableEq φ] {slot : κ → ν} {history : List (κ × φ)} {use : κ × φ}
    (agree : Agree slot (history ++ [use])) :
    accepts (slotted slot history) (slot use.1, use.2) = accepts history use := by
  unfold accepts
  cases held : first (slotted slot history) (slot use.1) with
  | none =>
    cases own : first history use.1 with
    | none => rfl
    | some v =>
      obtain ⟨w, found⟩ := exists_first_slotted_of_mem slot (mem_of_first own)
      rw [held] at found
      cases found
  | some v =>
    obtain ⟨a, mem, there, trusts⟩ := exists_of_first_slotted held
    have both := agree a (List.mem_append_left _ mem) use (by simp) there
    rw [first_snoc, first_snoc, trusts] at both
    cases own : first history use.1 with
    | none => simpa [own] using both
    | some w =>
      rw [own] at both
      rw [show v = w from Option.some.inj both]

end Slots

end FirstUse
