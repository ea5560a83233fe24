import Mathlib.Data.List.Basic

/-!
# Sets of tasks

A task set is spawned into and joined. A task that has finished stays in the set until it is joined,
and the finished tasks are joined in any order: each call of `joinNext` is told which one to take.
-/

structure JoinSet (κ α : Type) where
  running : List κ := []
  finished : List (κ × α) := []
  deriving DecidableEq, Repr

namespace JoinSet

/-- What a call of `joinNext` meets: no task at all, only tasks that run, or a finished one. -/
inductive Joined (κ α : Type) where
  | empty
  | pending
  | task (result : κ × α) (rest : JoinSet κ α)

variable {κ α : Type}

def spawn (set : JoinSet κ α) (key : κ) : JoinSet κ α :=
  { set with running := set.running ++ [key] }

def finish [DecidableEq κ] (set : JoinSet κ α) (key : κ) (result : α) : JoinSet κ α :=
  { running := set.running.erase key, finished := set.finished ++ [(key, result)] }

def joinNext (set : JoinSet κ α) (choice : Nat) : Joined κ α :=
  match set.finished[choice % set.finished.length]? with
  | some result =>
    .task result
      { set with finished := set.finished.eraseIdx (choice % set.finished.length) }
  | none => if set.running.isEmpty then .empty else .pending

/-- The number of steps the tasks still have ahead of them. -/
def work (set : JoinSet κ α) : Nat := 2 * set.running.length + set.finished.length

theorem work_finish [DecidableEq κ] {set : JoinSet κ α} {key : κ} (runs : key ∈ set.running)
    (result : α) : (set.finish key result).work + 1 = set.work := by
  have length := List.length_erase_of_mem runs
  have positive := List.length_pos_of_mem runs
  simp [work, finish]
  omega

theorem joinNext_cases (set : JoinSet κ α) (choice : Nat) :
    (set.finished = [] ∧ set.running = [] ∧ set.joinNext choice = .empty) ∨
    (set.finished = [] ∧ set.running ≠ [] ∧ set.joinNext choice = .pending) ∨
    ∃ before result after, set.finished = before ++ result :: after ∧
      set.joinNext choice = .task result { set with finished := before ++ after } := by
  by_cases none_ : set.finished = []
  · by_cases idle : set.running = []
    · exact .inl ⟨none_, idle, by simp [joinNext, none_, idle]⟩
    · exact .inr (.inl ⟨none_, idle, by simp [joinNext, none_, idle]⟩)
  · have bound : choice % set.finished.length < set.finished.length :=
      Nat.mod_lt _ (List.length_pos_iff.mpr none_)
    refine .inr (.inr ⟨_, _, _, (List.take_append_drop (choice % set.finished.length) _).symm.trans
      (congrArg _ (List.drop_eq_getElem_cons bound)), ?_⟩)
    rw [joinNext, List.getElem?_eq_getElem bound, List.eraseIdx_eq_take_drop_succ]

end JoinSet
