import Mathlib.Data.List.Basic
import Mathlib.Data.List.Induction

/-!
# Directories

Holders register under keys and leave again; each key should lead to the holder that registered
there last, for as long as that holder is live. `lastIdx` finds the last registration of a kind in
a list of all of them. A directory that is `Exact` leads to such holders and to nothing else.

A directory that forgets a key whenever a holder of it leaves stays exact if the latest holder of
the key, if there still is one, is not live afterwards: `Exact.leave`.
-/
namespace Directory

section LastIdx

variable {α : Type} {p q : α → Bool} {l : List α} {i : Nat}

theorem getElem?_concat_eq_some {a b : α} :
    (l ++ [a])[i]? = some b ↔ l[i]? = some b ∨ i = l.length ∧ a = b := by
  obtain inside | rfl | outside := Nat.lt_trichotomy i l.length
  · simp [List.getElem?_append_left inside, Nat.ne_of_lt inside]
  · simp
  · have beyond : (l ++ [a])[i]? = none := List.getElem?_eq_none (by simp; omega)
    simp [beyond, List.getElem?_eq_none (Nat.le_of_lt outside), Nat.ne_of_gt outside]

theorem map_set_of_same {β : Type} {f : α → β} {a b : α} (mine : l[i]? = some a)
    (same : f b = f a) : (l.set i b).map f = l.map f := by
  rw [List.map_set, same]
  obtain ⟨inside, rfl⟩ := List.getElem?_eq_some_iff.mp mine
  rw [← List.getElem_map f, List.set_getElem_self]
  simpa using inside

theorem map_modify_of_same {β : Type} {f : α → β} {g : α → α} (same : ∀ a, f (g a) = f a) (i : Nat)
    (l : List α) : (l.modify i g).map f = l.map f := by
  refine List.ext_getElem? fun j => ?_
  rw [List.getElem?_map, List.getElem?_map, List.getElem?_modify]
  cases l[j]? with
  | none => rfl
  | some a => split_ifs <;> simp [same]

theorem exists_getElem?_of_map_eq {β : Type} {f : α → β} {l l' : List α} {a : α}
    (same : l'.map f = l.map f) (mine : l[i]? = some a) : ∃ a', l'[i]? = some a' ∧ f a' = f a := by
  have found : (l'.map f)[i]? = some (f a) := by
    rw [same, List.getElem?_map, mine]
    rfl
  rw [List.getElem?_map] at found
  exact Option.map_eq_some_iff.mp found

/-- The index of the last element that satisfies `p`. -/
def lastIdx (p : α → Bool) (l : List α) : Option Nat :=
  ((l.zipIdx.filter fun a => p a.1).getLast?).map Prod.snd

@[simp] theorem lastIdx_nil : lastIdx p [] = none := rfl

theorem lastIdx_concat (a : α) :
    lastIdx p (l ++ [a]) = if p a then some l.length else lastIdx p l := by
  simp only [lastIdx, List.zipIdx_append, List.filter_append]
  split_ifs with holds <;> simp [holds]

theorem getElem?_lastIdx (last : lastIdx p l = some i) : ∃ a, l[i]? = some a ∧ p a = true := by
  obtain ⟨⟨a, j⟩, final, rfl⟩ := Option.map_eq_some_iff.mp last
  obtain ⟨mem, holds⟩ := List.mem_filter.mp (List.mem_of_getLast? final)
  exact ⟨a, List.mem_zipIdx_iff_getElem?.mp mem, holds⟩

theorem lastIdx_lt (last : lastIdx p l = some i) : i < l.length := by
  obtain ⟨a, at_, -⟩ := getElem?_lastIdx last
  exact (List.getElem?_eq_some_iff.mp at_).1

theorem lastIdx_map (p : α → Bool) (l : List α) : lastIdx id (l.map p) = lastIdx p l := by
  induction l using List.reverseRecOn with
  | nil => rfl
  | append_singleton l a ih =>
    rw [List.map_append, List.map_singleton, lastIdx_concat, lastIdx_concat, ih, List.length_map]
    rfl

theorem lastIdx_congr {l l' : List α} (same : l.map p = l'.map q) :
    lastIdx p l = lastIdx q l' := by
  rw [← lastIdx_map p, same, lastIdx_map]

end LastIdx

section Exact

variable {κ ι : Type} {table table' latest latest' : κ → Option ι}
  {live live' : ι → Prop}

/-- Every key leads to its latest holder while that one is live, and to no other. -/
def Exact (table latest : κ → Option ι) (live : ι → Prop) : Prop :=
  ∀ k i, table k = some i ↔ latest k = some i ∧ live i

theorem Exact.congr (exact : Exact table latest live) (tables : ∀ k, table' k = table k)
    (last : ∀ k, latest' k = latest k)
    (lives : ∀ k h, latest k = some h → (live' h ↔ live h)) : Exact table' latest' live' := by
  intro k h
  rw [tables, last, exact k h]
  exact and_congr_right fun there => (lives k h there).symm

variable [DecidableEq κ]

theorem Exact.register (exact : Exact table latest live) (k : κ) (i : ι)
    (entered : ∀ j, table' j = if j = k then some i else table j)
    (last : ∀ j, latest' j = if j = k then some i else latest j) (alive : live' i)
    (others : ∀ j h, j ≠ k → latest j = some h → (live' h ↔ live h)) :
    Exact table' latest' live' := by
  intro j h
  rw [entered, last]
  split_ifs with same
  · constructor
    · intro own
      exact ⟨own, Option.some_inj.mp own ▸ alive⟩
    · exact fun own => own.1
  · rw [exact j h]
    exact and_congr_right fun there => (others j h same there).symm

theorem Exact.leave (exact : Exact table latest live) (k : κ)
    (removed : ∀ j, table' j = if j = k then none else table j)
    (last : ∀ j, j ≠ k → latest' j = latest j) (dead : ∀ h, latest' k = some h → ¬ live' h)
    (others : ∀ j h, j ≠ k → latest j = some h → (live' h ↔ live h)) :
    Exact table' latest' live' := by
  intro j h
  rw [removed]
  split_ifs with same
  · subst same
    constructor
    · intro none_
      cases none_
    · exact fun both => absurd both.2 (dead h both.1)
  · rw [exact j h, last j same]
    exact and_congr_right fun there => (others j h same there).symm

end Exact

end Directory
