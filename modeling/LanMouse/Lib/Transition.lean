import Mathlib.Algebra.Ring.Nat

/-!
# Runs of a state machine

A machine takes events one after another. `Always` says that a property holds in every state of a
run, `AllMeet` that every event of the run finds a condition met in the state before it.

`always_of_allMeet` is the invariant rule for runs whose events meet a condition. When an event that
does not meet the condition breaks the property, the condition is exact: `always_iff_allMeet`.
-/
namespace Transition

variable {σ ε : Type} {step : σ → ε → σ} {good : σ → Prop} {cond : σ → ε → Prop}

def run (step : σ → ε → σ) (s : σ) (es : List ε) : σ := es.foldl step s

def Always (step : σ → ε → σ) (good : σ → Prop) : σ → List ε → Prop
  | s, [] => good s
  | s, e :: es => good s ∧ Always step good (step s e) es

def AllMeet (step : σ → ε → σ) (cond : σ → ε → Prop) : σ → List ε → Prop
  | _, [] => True
  | s, e :: es => cond s e ∧ AllMeet step cond (step s e) es

instance decidableAllMeet [∀ s e, Decidable (cond s e)] :
    ∀ (s : σ) (es : List ε), Decidable (AllMeet step cond s es)
  | _, [] => isTrue trivial
  | s, e :: es =>
    have := decidableAllMeet (step s e) es
    inferInstanceAs (Decidable (cond s e ∧ AllMeet step cond (step s e) es))

instance decidableAlways [∀ s, Decidable (good s)] :
    ∀ (s : σ) (es : List ε), Decidable (Always step good s es)
  | s, [] => inferInstanceAs (Decidable (good s))
  | s, e :: es =>
    have := decidableAlways (step s e) es
    inferInstanceAs (Decidable (good s ∧ Always step good (step s e) es))

/-- What is read off the steps of a run, one after another. -/
def collect {α : Type} (step : σ → ε → σ) (note : σ → ε → Option α) : σ → List ε → List α
  | _, [] => []
  | s, e :: es => (note s e).toList ++ collect step note (step s e) es

theorem run_cons (s : σ) (e : ε) (es : List ε) :
    run step s (e :: es) = run step (step s e) es := rfl

theorem run_append (s : σ) (es es' : List ε) :
    run step s (es ++ es') = run step (run step s es) es' := List.foldl_append

theorem run_snoc (s : σ) (es : List ε) (e : ε) :
    run step s (es ++ [e]) = step (run step s es) e := run_append s es [e]

theorem collect_snoc {α : Type} {note : σ → ε → Option α} (s : σ) (es : List ε) (e : ε) :
    collect step note s (es ++ [e]) =
      collect step note s es ++ (note (run step s es) e).toList := by
  induction es generalizing s with
  | nil => rw [List.nil_append, collect, collect, collect, List.append_nil, List.nil_append]; rfl
  | cons first es ih => rw [List.cons_append, collect, ih, collect, run_cons, List.append_assoc]

theorem inv_run (inv : σ → Prop) (kept : ∀ s e, inv s → cond s e → inv (step s e)) {s : σ}
    (start : inv s) {es : List ε} (meets : AllMeet step cond s es) : inv (run step s es) := by
  induction es generalizing s with
  | nil => exact start
  | cons e es ih => exact ih (kept s e start meets.1) meets.2

theorem allMeet_of_forall {meets : ε → Prop} {s : σ} {es : List ε} (all : ∀ e ∈ es, meets e) :
    AllMeet step (fun _ e => meets e) s es := by
  induction es generalizing s with
  | nil => trivial
  | cons e es ih =>
    exact ⟨all e List.mem_cons_self, ih fun e mem => all e (List.mem_cons_of_mem _ mem)⟩

theorem allMeet_of_not_mem_collect {α : Type} {note : σ → ε → Option α} {a : α} {s : σ}
    {es : List ε} (absent : a ∉ collect step note s es) :
    AllMeet step (fun s e => note s e ≠ some a) s es := by
  induction es generalizing s with
  | nil => trivial
  | cons e es ih =>
    rw [collect, List.mem_append, not_or, Option.mem_toList] at absent
    exact ⟨absent.1, ih absent.2⟩

theorem AllMeet.and {cond' : σ → ε → Prop} {s : σ} {es : List ε} (all : AllMeet step cond s es)
    (all' : AllMeet step cond' s es) : AllMeet step (fun s e => cond s e ∧ cond' s e) s es := by
  induction es generalizing s with
  | nil => trivial
  | cons e es ih => exact ⟨⟨all.1, all'.1⟩, ih all.2 all'.2⟩

theorem allMeet_append {s : σ} {es es' : List ε} :
    AllMeet step cond s (es ++ es') ↔
      AllMeet step cond s es ∧ AllMeet step cond (run step s es) es' := by
  induction es generalizing s with
  | nil => exact (iff_of_eq (true_and _)).symm
  | cons e es ih => exact (and_congr_right fun _ => ih).trans and_assoc.symm

theorem inv_run_of_step (inv : σ → Prop) (kept : ∀ s e, inv s → inv (step s e)) {s : σ}
    (start : inv s) (es : List ε) : inv (run step s es) :=
  have meets : AllMeet step (fun _ _ => True) s es := allMeet_of_forall fun _ _ => trivial
  inv_run inv (fun s e holds _ => kept s e holds) start meets

/-- The rank rule: events that cost something use up a rank that no event restores. -/
theorem rank_run_of_inv (inv : σ → Prop) (step : σ → ε → σ) (rank : σ → Nat) (cost : ε → Nat)
    {es : List ε} (kept : ∀ s, ∀ e ∈ es, inv s → inv (step s e))
    (falls : ∀ s, ∀ e ∈ es, inv s → rank (step s e) ≤ rank s - cost e) {s : σ} (start : inv s) :
    rank (run step s es) ≤ rank s - (es.map cost).sum := by
  induction es generalizing s with
  | nil => exact Nat.le_refl _
  | cons e es ih =>
    have first := falls s e List.mem_cons_self start
    have rest := ih (fun s e mem => kept s e (List.mem_cons_of_mem _ mem))
      (fun s e mem => falls s e (List.mem_cons_of_mem _ mem)) (kept s e List.mem_cons_self start)
    rw [run_cons, List.map_cons, List.sum_cons]
    omega

theorem rank_run (step : σ → ε → σ) (rank : σ → Nat) (cost : ε → Nat) {es : List ε}
    (falls : ∀ s, ∀ e ∈ es, rank (step s e) ≤ rank s - cost e) (s : σ) :
    rank (run step s es) ≤ rank s - (es.map cost).sum :=
  rank_run_of_inv (fun _ => True) step rank cost (fun _ _ _ _ => trivial)
    (fun s e mem _ => falls s e mem) trivial

theorem always_of_allMeet (inv : σ → Prop) (kept : ∀ s e, inv s → cond s e → inv (step s e))
    (suffices_ : ∀ s, inv s → good s) {s : σ} (start : inv s) {es : List ε}
    (meets : AllMeet step cond s es) : Always step good s es := by
  induction es generalizing s with
  | nil => exact suffices_ s start
  | cons e es ih => exact ⟨suffices_ s start, ih (kept s e start meets.1) meets.2⟩

/-- Under an invariant a condition on the events can be exchanged for one it implies. -/
theorem allMeet_mono {cond' : σ → ε → Prop} (inv : σ → Prop)
    (kept : ∀ s e, inv s → cond s e → inv (step s e))
    (weaker : ∀ s e, inv s → cond s e → cond' s e) {s : σ} (start : inv s) {es : List ε}
    (meets : AllMeet step cond s es) : AllMeet step cond' s es := by
  induction es generalizing s with
  | nil => trivial
  | cons e es ih =>
    exact ⟨weaker s e start meets.1, ih (kept s e start meets.1) meets.2⟩

theorem always_of_inv (inv : σ → Prop) (kept : ∀ s e, inv s → inv (step s e))
    (suffices_ : ∀ s, inv s → good s) {s : σ} (start : inv s) (es : List ε) :
    Always step good s es :=
  have meets : AllMeet step (fun _ _ => True) s es := allMeet_of_forall fun _ _ => trivial
  always_of_allMeet inv (fun s e holds _ => kept s e holds) suffices_ start meets

theorem Always.head {s : σ} {es : List ε} (h : Always step good s es) : good s := by
  cases es with
  | nil => exact h
  | cons e es => exact h.1

theorem always_iff_allMeet (inv : σ → Prop) (kept : ∀ s e, inv s → cond s e → inv (step s e))
    (suffices_ : ∀ s, inv s → good s) (exact_ : ∀ s e, inv s → good (step s e) → cond s e)
    {s : σ} (start : inv s) (es : List ε) : Always step good s es ↔ AllMeet step cond s es := by
  refine ⟨fun always => ?_, always_of_allMeet inv kept suffices_ start⟩
  induction es generalizing s with
  | nil => trivial
  | cons e es ih =>
    have meets := exact_ s e start always.2.head
    exact ⟨meets, ih (kept s e start meets) always.2⟩

/-- The same for a property of states together with one of events. -/
theorem always_and_allMeet_iff {keeps : σ → ε → Prop} (inv : σ → Prop)
    (kept : ∀ s e, inv s → cond s e → inv (step s e)) (suffices_ : ∀ s, inv s → good s)
    (implied : ∀ s e, inv s → cond s e → keeps s e)
    (exact_ : ∀ s e, inv s → good (step s e) → keeps s e → cond s e) {s : σ} (start : inv s)
    (es : List ε) :
    Always step good s es ∧ AllMeet step keeps s es ↔ AllMeet step cond s es := by
  constructor
  · rintro ⟨always, keeps⟩
    induction es generalizing s with
    | nil => trivial
    | cons e es ih =>
      have meets := exact_ s e start always.2.head keeps.1
      exact ⟨meets, ih (kept s e start meets) always.2 keeps.2⟩
  · intro meets
    exact ⟨always_of_allMeet inv kept suffices_ start meets,
      allMeet_mono inv kept implied start meets⟩

/-- A property that a step can only lose holds in the last state exactly when it always held. -/
theorem good_run_iff_always (good : σ → Prop) (back : ∀ s e, good (step s e) → good s) {s : σ}
    (es : List ε) : good (run step s es) ↔ Always step good s es := by
  induction es generalizing s with
  | nil => rfl
  | cons e es ih =>
    rw [run_cons, ih]
    exact ⟨fun rest => ⟨back s e rest.head, rest⟩, fun always => always.2⟩

end Transition
