import LanMouse.Lib.Verdict

/-!
# How a loop over items goes

`readItems` calls the reader of an item again and again until its block is used up.
`readItemsTraced` is the same loop with a note of every call. If the reader takes at least `n` bytes
when it succeeds, a block of `k` bytes is used up or found malformed after at most `k / n` calls
that succeed and one that fails.
-/
namespace Bytes

variable {ε α : Type}

/-- A call of the reader: what was left of the block, and what came of it. -/
structure Attempt (ε α : Type) where
  before : List UInt8
  result : Except (Fault ε) (α × List UInt8)

namespace Attempt

def succeeds (a : Attempt ε α) : Bool := a.result.isOk

theorem succeeds_of_ok {a : Attempt ε α} {p : α × List UInt8} (read : a.result = .ok p) :
    a.succeeds = true := by
  rw [succeeds, read]
  rfl

theorem succeeds_of_error {a : Attempt ε α} {f : Fault ε} (failed : a.result = .error f) :
    a.succeeds = false := by
  rw [succeeds, failed]
  rfl

/-- The bytes that a successful call has taken. -/
def used (a : Attempt ε α) : List UInt8 :=
  match a.result with
  | .ok (_, rest) => a.before.take (a.before.length - rest.length)
  | .error _ => []

theorem used_eq {a : Attempt ε α} {x : α} {used rest : List UInt8} (read : a.result = .ok (x, rest))
    (split : a.before = used ++ rest) : a.used = used := by
  rw [Attempt.used, read, split]
  simp

end Attempt

def readItemsTraced (item : Cursor ε α) :
    Nat → List UInt8 → Except (Fault ε) (List α) × List (Attempt ε α)
  | _, [] => (.ok [], [])
  | 0, _ :: _ => (.error .hang, [])
  | fuel + 1, body@(_ :: _) =>
    let attempt : Attempt ε α := ⟨body, item body⟩
    match item body with
    | .error f => (.error f, [attempt])
    | .ok (a, rest) =>
      let (result, attempts) := readItemsTraced item fuel rest
      ((a :: ·) <$> result, attempt :: attempts)

variable {item : Cursor ε α} {fuel n : Nat} {body : List UInt8}

theorem readItemsTraced_fst (item : Cursor ε α) (fuel : Nat) (body : List UInt8) :
    (readItemsTraced item fuel body).1 = readItems item fuel body := by
  fun_induction readItemsTraced item fuel body with
  | case1 => rw [readItems]
  | case2 => rw [readItems]
  | case3 fuel b bs attempt f failed => simp only [readItems, failed]
  | case4 fuel b bs attempt a rest read result attempts later ih =>
    rw [later] at ih
    simp only [readItems, read, ← ih]

/-- Every call is of the reader, on an end of the block. -/
theorem attempt_of_mem (steady : Local item) :
    ∀ a ∈ (readItemsTraced item fuel body).2, a.result = item a.before ∧ a.before <:+ body := by
  fun_induction readItemsTraced item fuel body with
  | case1 => nofun
  | case2 => nofun
  | case3 fuel b bs attempt f failed =>
    intro a mem
    rw [List.mem_singleton.mp mem]
    exact ⟨rfl, List.suffix_rfl⟩
  | case4 fuel b bs attempt a rest read result attempts later ih =>
    rw [later] at ih
    intro a' mem
    rcases List.mem_cons.mp mem with rfl | mem
    · exact ⟨rfl, List.suffix_rfl⟩
    · obtain ⟨used, split, -⟩ := steady _ _ _ read
      obtain ⟨call, inside⟩ := ih a' mem
      exact ⟨call, inside.trans ⟨used, split.symm⟩⟩

/-- A call that succeeds takes at least `n` bytes, and reads no others. -/
theorem Attempt.taken (steady : Local item) (takes : TakesAtLeast n item) {a : Attempt ε α}
    (call : a.result = item a.before) {x : α} {rest : List UInt8}
    (read : a.result = .ok (x, rest)) :
    a.before = a.used ++ rest ∧ n ≤ a.used.length ∧ Reads item a.used x := by
  obtain ⟨used, split, reads⟩ := steady _ _ _ (call ▸ read)
  rw [Attempt.used_eq read split]
  refine ⟨split, ?_, reads⟩
  obtain ⟨x', rest', ok, enough⟩ | ⟨e, failed⟩ := takes a.before
  · have same : (x', rest') = (x, rest) := Except.ok.inj (ok.symm.trans (call ▸ read))
    cases same
    rw [split, List.length_append] at enough
    omega
  · rw [← call, read] at failed
    cases failed

/-- The calls that succeed take different bytes of the block. -/
theorem count_succeeds_le (takes : TakesAtLeast n item) :
    n * (readItemsTraced item fuel body).2.countP Attempt.succeeds ≤ body.length := by
  fun_induction readItemsTraced item fuel body with
  | case1 => simp
  | case2 => simp
  | case3 fuel b bs attempt f failed =>
    simp [Attempt.succeeds_of_error (a := attempt) failed]
  | case4 fuel b bs attempt a rest read result attempts later ih =>
    rw [later] at ih
    have yes : attempt.succeeds = true := Attempt.succeeds_of_ok read
    dsimp only at ih ⊢
    obtain ⟨a', rest', ok, less⟩ | ⟨e, failed⟩ := takes (b :: bs)
    · have same : (a', rest') = (a, rest) := Except.ok.inj (ok.symm.trans read)
      cases same
      rw [List.countP_cons_of_pos yes, Nat.mul_add_one]
      omega
    · rw [read] at failed
      cases failed

/-- The loop ends at a call that fails. -/
theorem count_fails_le :
    (readItemsTraced item fuel body).2.countP (fun a => !a.succeeds) ≤ 1 := by
  fun_induction readItemsTraced item fuel body with
  | case1 => simp
  | case2 => simp
  | case3 fuel b bs attempt f failed => exact List.countP_le_length
  | case4 fuel b bs attempt a rest read result attempts later ih =>
    rw [later] at ih
    have yes : attempt.succeeds = true := Attempt.succeeds_of_ok read
    rw [List.countP_cons_of_neg (by simp [yes])]
    exact ih

/-- A block that is read is used up by the calls. -/
theorem flatMap_used_of_ok (steady : Local item) :
    ∀ xs, (readItemsTraced item fuel body).1 = .ok xs →
      (readItemsTraced item fuel body).2.flatMap Attempt.used = body := by
  fun_induction readItemsTraced item fuel body with
  | case1 => exact fun _ _ => rfl
  | case2 => nofun
  | case3 => nofun
  | case4 fuel b bs attempt a rest read result attempts later ih =>
    rw [later] at ih
    intro xs done
    cases result with
    | error f => cases done
    | ok ys =>
      obtain ⟨used, split, -⟩ := steady _ _ _ read
      have own : attempt.used = used := Attempt.used_eq read split
      rw [List.flatMap_cons, own, ih ys rfl, split]

end Bytes
