import Mathlib.Data.List.Basic
import Mathlib.Data.List.Induction
import Mathlib.Data.List.Nodup

/-!
# Logs of switches

A log records for which key something was switched on or off, oldest first. It alternates when, for
every key, the entries go on, off, on, … starting with on. Whether an entry may follow a log depends
only on whether its key is on.
-/
namespace Toggle

variable {κ : Type} [DecidableEq κ]

/-- The entries of one key. -/
def entries (log : List (κ × Bool)) (k : κ) : List Bool :=
  log.filterMap fun s => if s.1 = k then some s.2 else none

def isOn (log : List (κ × Bool)) (k : κ) : Bool := (entries log k).getLastD false

def AlternatesFrom : Bool → List Bool → Prop
  | _, [] => True
  | next, b :: rest => b = next ∧ AlternatesFrom (!next) rest

def Alternating (log : List (κ × Bool)) : Prop := ∀ k, AlternatesFrom true (entries log k)

theorem alternatesFrom_append_singleton (next : Bool) (bs : List Bool) (b : Bool) :
    AlternatesFrom next (bs ++ [b]) ↔ AlternatesFrom next bs ∧ bs.getLastD (!next) = !b := by
  induction bs generalizing next with
  | nil => cases next <;> cases b <;> simp [AlternatesFrom]
  | cons c rest ih =>
    simp only [List.cons_append, AlternatesFrom, ih, Bool.not_not, List.getLastD_cons, and_assoc]
    exact and_congr_right fun same => by rw [same]

theorem entries_concat (log : List (κ × Bool)) (j k : κ) (b : Bool) :
    entries (log ++ [(j, b)]) k = if j = k then entries log k ++ [b] else entries log k := by
  simp only [entries, List.filterMap_append]
  split_ifs with same <;> simp [same]

@[simp] theorem isOn_nil (k : κ) : isOn ([] : List (κ × Bool)) k = false := rfl

@[simp] theorem isOn_concat (log : List (κ × Bool)) (j k : κ) (b : Bool) :
    isOn (log ++ [(j, b)]) k = if j = k then b else isOn log k := by
  rw [isOn, entries_concat]
  split_ifs with same
  · simp
  · rfl

theorem alternating_nil : Alternating ([] : List (κ × Bool)) := fun _ => trivial

theorem alternating_concat (log : List (κ × Bool)) (j : κ) (b : Bool) :
    Alternating (log ++ [(j, b)]) ↔ Alternating log ∧ isOn log j = !b := by
  constructor
  · intro h
    refine ⟨fun k => ?_, ?_⟩
    · have entry := h k
      rw [entries_concat] at entry
      split_ifs at entry
      · exact ((alternatesFrom_append_singleton _ _ _).mp entry).1
      · exact entry
    · have entry := h j
      rw [entries_concat, if_pos rfl] at entry
      exact ((alternatesFrom_append_singleton _ _ _).mp entry).2
  · rintro ⟨h, off⟩ k
    rw [entries_concat]
    split_ifs with same
    · subst same
      exact (alternatesFrom_append_singleton _ _ _).mpr ⟨h j, off⟩
    · exact h k

theorem Alternating.of_append {log more : List (κ × Bool)} (h : Alternating (log ++ more)) :
    Alternating log := by
  induction more using List.reverseRecOn with
  | nil => simpa using h
  | append_singleton more s ih =>
    rw [← List.append_assoc] at h
    exact ih ((alternating_concat _ _ _).mp h).1

/-- Switching several keys the same way. -/
theorem isOn_append_map (log : List (κ × Bool)) (ks : List κ) (b : Bool) (k : κ) :
    isOn (log ++ ks.map (·, b)) k = if k ∈ ks then b else isOn log k := by
  induction ks using List.reverseRecOn with
  | nil => simp
  | append_singleton ks j ih =>
    rw [List.map_append, List.map_singleton, ← List.append_assoc, isOn_concat, ih]
    by_cases same : j = k
    · simp [same]
    · simp [same, Ne.symm same]

theorem alternating_append_map {ks : List κ} (nodup : ks.Nodup) (log : List (κ × Bool))
    (b : Bool) :
    Alternating (log ++ ks.map (·, b)) ↔ Alternating log ∧ ∀ k ∈ ks, isOn log k = !b := by
  induction ks using List.reverseRecOn with
  | nil => simp
  | append_singleton ks j ih =>
    obtain ⟨nodup, -, apart⟩ := List.nodup_append.mp nodup
    have fresh : j ∉ ks := fun mem => apart j mem j (by simp) rfl
    rw [List.map_append, List.map_singleton, ← List.append_assoc, alternating_concat, ih nodup,
      isOn_append_map, if_neg fresh]
    simp only [List.mem_append, List.mem_singleton]
    grind

end Toggle
