import Mathlib.Data.List.Basic

/-!
# Slabs

A store that hands out small numbers as keys and reuses a key once its value is removed, the last
freed key first. The stack of freed keys holds only vacant slots, each once.

Other developments need only the laws of `get?` after each operation and `mem_keys`.
-/

structure Slab (α : Type) where
  slots : List (Option α)
  free : List Nat
  vacant : ∀ k ∈ free, slots[k]? = some none
  nodup : free.Nodup

namespace Slab

variable {α : Type}

def empty : Slab α := ⟨[], [], by simp, List.nodup_nil⟩

def get? (s : Slab α) (k : Nat) : Option α := s.slots[k]?.join

/-- The occupied keys in ascending order. -/
def keys (s : Slab α) : List Nat := (List.range s.slots.length).filter fun k => (s.get? k).isSome

/-- Store a value under the key freed last, or under a new one. -/
def insert (s : Slab α) (a : α) : Nat × Slab α :=
  match h : s.free with
  | [] => (s.slots.length, ⟨s.slots ++ [some a], [], by simp, List.nodup_nil⟩)
  | k :: rest =>
    (k, {
      slots := s.slots.set k (some a)
      free := rest
      vacant := fun j mem => by
        have nodup := s.nodup
        rw [h, List.nodup_cons] at nodup
        have other : k ≠ j := fun same => nodup.1 (same ▸ mem)
        rw [List.getElem?_set_ne other]
        exact s.vacant j (h ▸ List.mem_cons_of_mem k mem)
      nodup := (List.nodup_cons.mp (h ▸ s.nodup)).2 })

/-- Change the value under a key, if there is one. -/
def modify (s : Slab α) (k : Nat) (f : α → α) : Slab α where
  slots := s.slots.modify k (Option.map f)
  free := s.free
  vacant j mem := by
    have none_ := s.vacant j mem
    rw [List.getElem?_modify]
    split_ifs <;> simp [none_]
  nodup := s.nodup

/-- Take the value under a key out and free the key. -/
def remove (s : Slab α) (k : Nat) : Option α × Slab α :=
  match h : s.get? k with
  | none => (none, s)
  | some a =>
    (some a, {
      slots := s.slots.set k none
      free := k :: s.free
      vacant := fun j mem => by
        have inside : k < s.slots.length := by
          by_contra outside
          simp [get?, List.getElem?_eq_none (Nat.le_of_not_lt outside)] at h
        obtain rfl | mem := List.mem_cons.mp mem
        · simp [inside]
        · by_cases same : k = j
          · simp [← same, inside]
          · rw [List.getElem?_set_ne same]
            exact s.vacant j mem
      nodup := by
        refine List.nodup_cons.mpr ⟨fun mem => ?_, s.nodup⟩
        simp [get?, s.vacant k mem] at h })

theorem mem_keys {s : Slab α} {k : Nat} : k ∈ s.keys ↔ (s.get? k).isSome := by
  rw [keys, List.mem_filter, List.mem_range, and_iff_right_iff_imp]
  intro occupied
  by_contra outside
  simp [get?, List.getElem?_eq_none (Nat.le_of_not_lt outside)] at occupied

theorem nodup_keys (s : Slab α) : s.keys.Nodup := List.nodup_range.filter _

theorem pairwise_keys (s : Slab α) : s.keys.Pairwise (· < ·) := List.pairwise_lt_range.filter _

/-- A search through the keys finds the smallest one with the property. -/
theorem find?_keys_eq_some_iff {s : Slab α} {p : Nat → Bool} {k : Nat}
    (occupied : ∀ j, p j = true → (s.get? j).isSome) :
    s.keys.find? p = some k ↔ p k = true ∧ ∀ j < k, p j = false := by
  have smallest : ∀ {k}, s.keys.find? p = some k → ∀ j < k, p j = false := by
    intro k found j before
    obtain ⟨-, front, back, split_, fails⟩ := List.find?_eq_some_iff_append.mp found
    by_contra holds
    have holds : p j = true := by simpa using holds
    have mem : j ∈ s.keys := mem_keys.mpr (occupied j holds)
    have sorted := s.pairwise_keys
    rw [split_] at mem sorted
    obtain inFront | inBack := List.mem_append.mp mem
    · simpa [holds] using fails j inFront
    · obtain rfl | later := List.mem_cons.mp inBack
      · exact Nat.lt_irrefl _ before
      · have after := (List.pairwise_cons.mp (List.pairwise_append.mp sorted).2.1).1 j later
        exact Nat.lt_asymm before after
  constructor
  · exact fun found => ⟨List.find?_some found, smallest found⟩
  · rintro ⟨holds, first⟩
    have some_ : (s.keys.find? p).isSome :=
      List.find?_isSome.mpr ⟨k, mem_keys.mpr (occupied k holds), holds⟩
    obtain ⟨k', found⟩ := Option.isSome_iff_exists.mp some_
    obtain less | rfl | more := Nat.lt_trichotomy k k'
    · simp [smallest found k less] at holds
    · exact found
    · have satisfied := List.find?_some found
      simp [first k' more] at satisfied

theorem get?_empty (k : Nat) : (empty : Slab α).get? k = none := rfl

theorem get?_insert_key (s : Slab α) (a : α) : s.get? (s.insert a).1 = none := by
  unfold insert
  split
  · simp [get?]
  · rename_i k rest h
    simp [get?, s.vacant k (h ▸ List.mem_cons_self)]

theorem get?_insert (s : Slab α) (a : α) (j : Nat) :
    (s.insert a).2.get? j = if j = (s.insert a).1 then some a else s.get? j := by
  unfold insert
  split
  · by_cases same : j = s.slots.length
    · simp [get?, same]
    · by_cases inside : j < s.slots.length
      · simp [get?, same, List.getElem?_append_left inside]
      · have beyond : (s.slots ++ [some a])[j]? = none :=
          List.getElem?_eq_none (by simp; omega)
        simp [get?, same, beyond, List.getElem?_eq_none (Nat.le_of_not_lt inside)]
  · rename_i k rest h
    have inside : k < s.slots.length := by
      by_contra outside
      have none_ := s.vacant k (h ▸ List.mem_cons_self)
      simp [List.getElem?_eq_none (Nat.le_of_not_lt outside)] at none_
    by_cases same : j = k
    · simp [get?, same, inside]
    · simp [get?, same, List.getElem?_set_ne (Ne.symm same)]

theorem get?_modify (s : Slab α) (k : Nat) (f : α → α) (j : Nat) :
    (s.modify k f).get? j = if j = k then (s.get? j).map f else s.get? j := by
  by_cases same : j = k
  · subst same
    simp only [modify, get?, List.getElem?_modify, if_true]
    cases s.slots[j]? <;> simp
  · simp [modify, get?, Ne.symm same, same]

theorem isSome_get?_modify (s : Slab α) (k : Nat) (f : α → α) (j : Nat) :
    ((s.modify k f).get? j).isSome = (s.get? j).isSome := by
  rw [get?_modify]
  split_ifs
  · exact Option.isSome_map
  · rfl

theorem keys_modify (s : Slab α) (k : Nat) (f : α → α) : (s.modify k f).keys = s.keys := by
  have length : (s.modify k f).slots.length = s.slots.length := List.length_modify ..
  unfold keys
  rw [length]
  congr 1
  funext j
  exact isSome_get?_modify s k f j

theorem get?_remove (s : Slab α) (k j : Nat) :
    (s.remove k).2.get? j = if j = k then none else s.get? j := by
  unfold remove
  split
  · rename_i h
    by_cases same : j = k <;> simp [same, h]
  · by_cases same : j = k
    · subst same
      simp only [get?, List.getElem?_set_self', if_true]
      cases s.slots[j]? <;> simp
    · simp [get?, same, List.getElem?_set_ne (Ne.symm same)]

theorem remove_fst (s : Slab α) (k : Nat) : (s.remove k).1 = s.get? k := by
  unfold remove
  split <;> simp [*]

end Slab
