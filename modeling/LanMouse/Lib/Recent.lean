import Mathlib.Data.List.DropRight

/-!
# Recent entries

A list of recent entries has each entry with the time it was made, the oldest first. It has room for
a number of entries, and an entry only counts until it has reached a certain age. What is too old is
dropped from the front when the list is consulted, and the front entry makes room for a new one when
the list is full.

`Keeps` says what such a list stands for: everything that was ever entered, of which the entries
that are still wanted are left. Then an entry is found just if it is one of the last that were made
and not too old (`Keeps.found_iff`).
-/
namespace Recent

variable {κ : Type} {capacity ttl now : Nat} {log kept : List (Nat × κ)}

/-- Whether an entry is too old. -/
def stale (ttl now : Nat) (entry : Nat × κ) : Bool := now - entry.1 ≥ ttl

def prune (ttl now : Nat) (kept : List (Nat × κ)) : List (Nat × κ) := kept.dropWhile (stale ttl now)

def enter (capacity now : Nat) (key : κ) (kept : List (Nat × κ)) : List (Nat × κ) :=
  (if kept.length ≥ capacity then kept.drop 1 else kept) ++ [(now, key)]

/-- The key was entered less than `ttl` ago, and fewer than `capacity` entries were made since. -/
def Lately (capacity ttl now : Nat) (log : List (Nat × κ)) (key : κ) : Prop :=
  ∃ entry ∈ log.rtake capacity, entry.2 = key ∧ now - entry.1 < ttl

instance [DecidableEq κ] (key : κ) : Decidable (Lately capacity ttl now log key) :=
  inferInstanceAs (Decidable (∃ entry ∈ log.rtake capacity, entry.2 = key ∧ now - entry.1 < ttl))

/-- `kept` is what a list has at the time `now` of all that was entered. -/
structure Keeps (capacity ttl now : Nat) (log kept : List (Nat × κ)) : Prop where
  inOrder : log.Pairwise fun a b => a.1 ≤ b.1
  past : ∀ entry ∈ log, entry.1 ≤ now
  room : kept.length ≤ capacity
  split : ∃ gone, log = gone ++ kept ∧
    ∀ entry ∈ gone.drop (log.length - capacity), stale ttl now entry

theorem stale_mono {entry : Nat × κ} {later : Nat} (le : now ≤ later)
    (old : stale ttl now entry = true) : stale ttl later entry = true := by
  simp only [stale, ge_iff_le, decide_eq_true_eq] at *
  omega

/-- What was entered later is not older. -/
theorem stale_of_le {a b : Nat × κ} (le : a.1 ≤ b.1) (old : stale ttl now b = true) :
    stale ttl now a = true := by
  simp only [stale, ge_iff_le, decide_eq_true_eq] at *
  omega

/-- Of entries in order, those behind the first one that is not too old are not too old either. -/
theorem fresh_of_mem_prune (inOrder : kept.Pairwise fun a b => a.1 ≤ b.1) {entry : Nat × κ}
    (mem : entry ∈ prune ttl now kept) : stale ttl now entry = false := by
  induction kept with
  | nil => cases mem
  | cons first rest ih =>
    cases age : stale ttl now first with
    | true =>
      rw [prune, List.dropWhile_cons_of_pos age] at mem
      exact ih inOrder.of_cons mem
    | false =>
      refine Bool.eq_false_iff.mpr fun old => ?_
      rw [prune, List.dropWhile_cons_of_neg (by rw [age]; exact Bool.false_ne_true)] at mem
      obtain rfl | mem := List.mem_cons.mp mem
      · exact absurd (age.symm.trans old) Bool.false_ne_true
      · have := stale_of_le (List.rel_of_pairwise_cons inOrder mem) old
        exact absurd (age.symm.trans this) Bool.false_ne_true

namespace Keeps

theorem empty : Keeps capacity ttl now ([] : List (Nat × κ)) [] :=
  ⟨.nil, nofun, Nat.zero_le _, [], rfl, fun _ mem =>
    absurd (List.mem_of_mem_drop mem) List.not_mem_nil⟩

theorem later (keeps : Keeps capacity ttl now log kept) {later : Nat} (le : now ≤ later) :
    Keeps capacity ttl later log kept := by
  obtain ⟨inOrder, past, room, gone, eq, old⟩ := keeps
  exact ⟨inOrder, fun entry mem => (past entry mem).trans le, room, gone, eq,
    fun entry mem => stale_mono le (old entry mem)⟩

theorem prune (keeps : Keeps capacity ttl now log kept) :
    Keeps capacity ttl now log (prune ttl now kept) := by
  obtain ⟨inOrder, past, room, gone, eq, old⟩ := keeps
  refine ⟨inOrder, past, (List.dropWhile_sublist _).length_le.trans room,
    gone ++ kept.takeWhile (stale ttl now), ?_, fun entry mem => ?_⟩
  · rw [Recent.prune, List.append_assoc, List.takeWhile_append_dropWhile, eq]
  · rw [List.drop_append, List.mem_append] at mem
    obtain mem | mem := mem
    · exact old entry mem
    · exact List.mem_takeWhile_imp (List.mem_of_mem_drop mem)

theorem enter (keeps : Keeps capacity ttl now log kept) (some_ : 0 < capacity) (key : κ) :
    Keeps capacity ttl now (log ++ [(now, key)]) (enter capacity now key kept) := by
  obtain ⟨inOrder, past, room, gone, eq, old⟩ := keeps
  have total : log.length = gone.length + kept.length := by rw [eq, List.length_append]
  have inOrder' : (log ++ [(now, key)]).Pairwise fun a b => a.1 ≤ b.1 := by
    refine List.pairwise_append.mpr ⟨inOrder, List.pairwise_singleton _ _, fun a mem b last => ?_⟩
    rw [List.mem_singleton.mp last]
    exact past a mem
  have past' : ∀ entry ∈ log ++ [(now, key)], entry.1 ≤ now := by
    intro entry mem
    obtain mem | mem := List.mem_append.mp mem
    · exact past entry mem
    · rw [List.mem_singleton.mp mem]
  unfold Recent.enter
  split
  · next full =>
    refine ⟨inOrder', past', ?_, gone ++ kept.take 1, ?_, fun entry mem => ?_⟩
    · rw [List.length_append, List.length_drop, List.length_singleton]
      omega
    · rw [eq]
      conv_lhs => rw [← List.take_append_drop 1 kept]
      simp only [List.append_assoc]
    · -- The list was full, so whatever has left it is not among the last entries.
      have none_ : (gone ++ kept.take 1).drop ((log ++ [(now, key)]).length - capacity) = [] := by
        rw [List.drop_eq_nil_iff]
        simp only [List.length_append, List.length_take, List.length_singleton]
        omega
      rw [none_] at mem
      cases mem
  · next space =>
    refine ⟨inOrder', past', ?_, gone, ?_, fun entry mem => old entry ?_⟩
    · rw [List.length_append, List.length_singleton]
      omega
    · rw [eq, List.append_assoc]
    · refine List.drop_subset_drop_left gone ?_ mem
      rw [List.length_append]
      omega

/-- A consulted list finds what was entered lately, and nothing else. -/
theorem found_iff (keeps : Keeps capacity ttl now log kept) [DecidableEq κ] (key : κ) :
    (Recent.prune ttl now kept).any (·.2 = key) = true ↔ Lately capacity ttl now log key := by
  obtain ⟨inOrder, past, room, gone, eq, old⟩ := keeps
  have last : log.rtake capacity = gone.drop (log.length - capacity) ++ kept := by
    have total : log.length = gone.length + kept.length := by rw [eq, List.length_append]
    rw [List.rtake]
    conv_lhs => rw [eq]
    rw [List.drop_append_of_le_length (by rw [← eq]; omega), ← eq]
  have sorted : kept.Pairwise fun a b => a.1 ≤ b.1 := by
    rw [eq] at inOrder
    exact (List.pairwise_append.mp inOrder).2.1
  constructor
  · intro found
    obtain ⟨entry, mem, same⟩ := List.any_eq_true.mp found
    refine ⟨entry, ?_, of_decide_eq_true same, ?_⟩
    · rw [last]
      exact List.mem_append_right _ ((List.dropWhile_sublist _).subset mem)
    · simpa [stale] using fresh_of_mem_prune sorted mem
  · rintro ⟨entry, mem, same, young⟩
    have notStale : ¬ stale ttl now entry = true := by
      simp only [stale, ge_iff_le, decide_eq_true_eq]
      omega
    rw [last, List.mem_append] at mem
    obtain mem | mem := mem
    · exact absurd (old entry mem) notStale
    · rw [← List.takeWhile_append_dropWhile (p := stale ttl now) (l := kept),
        List.mem_append] at mem
      obtain mem | mem := mem
      · exact absurd (List.mem_takeWhile_imp mem) notStale
      · exact List.any_eq_true.mpr ⟨entry, mem, decide_eq_true same⟩

end Keeps

end Recent
