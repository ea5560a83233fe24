import Mathlib.Data.List.Forall2

/-!
# Batches that stop at the first error

A batch goes through its items in turn and gives up at the first that fails. `mapM_cases` tells what
comes of a batch from what comes of each item: all results, in order, or the error of the first item
at fault.
-/
namespace Batch

variable {ε α β : Type}

/-- The loop over a batch. The results so far are pushed to a list, and their number is the place of
the next item. -/
def collect (f : Nat → α → Except ε β) (results : List β) : List α → Except ε (List β)
  | [] => .ok results
  | a :: as =>
    match f results.length a with
    | .error e => .error e
    | .ok b => collect f (results ++ [b]) as

theorem mapM_cons_error {f : α → Except ε β} {a : α} {e : ε} (failed : f a = .error e)
    (as : List α) : (a :: as).mapM f = .error e := by
  rw [List.mapM_cons, failed]
  rfl

theorem mapM_cons_ok {f : α → Except ε β} {a : α} {b : β} (done : f a = .ok b) (as : List α) :
    (a :: as).mapM f = (b :: ·) <$> as.mapM f := by
  rw [List.mapM_cons, done]
  rfl

/-- If the place of an item does not matter, the loop is a traversal. -/
theorem collect_eq_mapM {f : Nat → α → Except ε β} {g : α → Except ε β}
    (same : ∀ i a, f i a = g a) (results : List β) (as : List α) :
    collect f results as = (results ++ ·) <$> as.mapM g := by
  fun_induction collect f results as with
  | case1 results => exact congrArg Except.ok (List.append_nil results).symm
  | case2 results a as e failed =>
    rw [mapM_cons_error ((same _ a).symm.trans failed)]
    rfl
  | case3 results a as b done ih =>
    rw [mapM_cons_ok ((same _ a).symm.trans done), ih, Functor.map_map]
    congr 1
    funext bs
    exact List.append_assoc results [b] bs

/-- Every result is that of an item. -/
theorem exists_of_mem_mapM {f : α → Except ε β} {as : List α} {bs : List β}
    (done : as.mapM f = .ok bs) {b : β} (mem : b ∈ bs) : ∃ a ∈ as, f a = .ok b := by
  induction as generalizing bs with
  | nil =>
    cases done
    cases mem
  | cons a as ih =>
    cases first : f a with
    | error e =>
      rw [mapM_cons_error first] at done
      cases done
    | ok head =>
      rw [mapM_cons_ok first] at done
      cases others : as.mapM f with
      | error e =>
        rw [others] at done
        cases done
      | ok rest =>
        rw [others] at done
        cases done
        obtain rfl | mem := List.mem_cons.mp mem
        · exact ⟨a, List.mem_cons_self, first⟩
        · obtain ⟨a', mem', ok⟩ := ih others mem
          exact ⟨a', List.mem_cons_of_mem _ mem', ok⟩

/-- Every item has its result beside it. -/
theorem exists_zip_of_mapM {f : α → Except ε β} {as : List α} {bs : List β}
    (done : as.mapM f = .ok bs) {a : α} (mem : a ∈ as) :
    ∃ b, (b, a) ∈ bs.zip as ∧ f a = .ok b := by
  induction as generalizing bs with
  | nil => cases mem
  | cons first as ih =>
    cases made : f first with
    | error e =>
      rw [mapM_cons_error made] at done
      cases done
    | ok head =>
      rw [mapM_cons_ok made] at done
      cases others : as.mapM f with
      | error e =>
        rw [others] at done
        cases done
      | ok rest =>
        rw [others] at done
        cases done
        obtain rfl | mem := List.mem_cons.mp mem
        · exact ⟨head, List.mem_cons_self, made⟩
        · obtain ⟨b, both, ok⟩ := ih others mem
          exact ⟨b, List.mem_cons_of_mem _ both, ok⟩

theorem mapError_mapM {δ : Type} (g : ε → δ) (f : α → Except ε β) (as : List α) :
    (as.mapM f).mapError g = as.mapM fun a => (f a).mapError g := by
  induction as with
  | nil => rfl
  | cons a as ih =>
    cases first : f a with
    | error e =>
      rw [mapM_cons_error first, List.mapM_cons, first]
      rfl
    | ok b =>
      rw [mapM_cons_ok first, List.mapM_cons, first, ← ih]
      cases as.mapM f <;> rfl

theorem mapM_cases {f : α → Except ε β} {fault : α → Option ε} {good : α → β → Prop}
    (each : ∀ a, (∃ e, fault a = some e ∧ f a = .error e) ∨
      (fault a = none ∧ ∃ b, good a b ∧ f a = .ok b)) (as : List α) :
    (∃ before a after e, as = before ++ a :: after ∧ (∀ x ∈ before, fault x = none) ∧
      fault a = some e ∧ as.mapM f = .error e) ∨
    ((∀ a ∈ as, fault a = none) ∧ ∃ bs, List.Forall₂ good as bs ∧ as.mapM f = .ok bs) := by
  induction as with
  | nil => exact .inr ⟨nofun, [], .nil, rfl⟩
  | cons a as ih =>
    obtain ⟨e, bad, failed⟩ | ⟨sound, b, fine, done⟩ := each a
    · exact .inl ⟨[], a, as, e, rfl, nofun, bad, mapM_cons_error failed as⟩
    · rw [mapM_cons_ok done]
      have first : ∀ {xs : List α}, (∀ x ∈ xs, fault x = none) → ∀ x ∈ a :: xs, fault x = none :=
        fun others => List.forall_mem_cons.mpr ⟨sound, others⟩
      obtain ⟨before, x, after, e, rfl, others, bad, failed⟩ | ⟨others, bs, all, rest⟩ := ih
      · exact .inl ⟨a :: before, x, after, e, rfl, first others, bad, by rw [failed]; rfl⟩
      · exact .inr ⟨first others, b :: bs, .cons fine all, by rw [rest]; rfl⟩

end Batch
