import Mathlib.Algebra.Order.Ring.Nat

/-!
# Exponential backoff

After each failure in a row the delay doubles, up to a cap. `streak` counts the failures of one key
since its last success, in a history of outcomes that belong to many keys.
-/
namespace Backoff

variable {κ : Type} [DecidableEq κ] {first cap : Nat}

/-- The delay after `n` failures in a row and one more. -/
def delay (first cap n : Nat) : Nat := min (first * 2 ^ n) cap

theorem delay_zero (small : first ≤ cap) : delay first cap 0 = first := by
  rw [delay, Nat.pow_zero, Nat.mul_one, min_eq_left small]

/-- Doubling a capped delay and capping it again is one more doubling of the uncapped one. -/
theorem min_delay_mul_two (n : Nat) :
    min (delay first cap n * 2) cap = delay first cap (n + 1) := by
  unfold delay
  rw [Nat.pow_succ, ← Nat.mul_assoc]
  omega

/-- The failures of `key` since its last success. -/
def streak (key : κ) (outcomes : List (κ × Bool)) : Nat :=
  outcomes.foldl
    (fun n outcome => if outcome.1 = key then if outcome.2 then 0 else n + 1 else n) 0

theorem streak_append_failure (key : κ) (outcomes : List (κ × Bool)) :
    streak key (outcomes ++ [(key, false)]) = streak key outcomes + 1 := by
  simp [streak]

theorem streak_append_success (key : κ) (outcomes : List (κ × Bool)) :
    streak key (outcomes ++ [(key, true)]) = 0 := by
  simp [streak]

theorem streak_append_other {key other : κ} (apart : other ≠ key) (ok : Bool)
    (outcomes : List (κ × Bool)) :
    streak key (outcomes ++ [(other, ok)]) = streak key outcomes := by
  simp [streak, apart]

end Backoff
