import Mathlib.Data.List.Basic
import Mathlib.Data.List.TakeWhile

/-!
# Observations that wait to be taken up

A value that changes now and then is observed again and again, and the observations wait in a queue.
Whoever takes them up remembers the key of the one that was dealt with last and passes over
observations with this key, so that what is observed several times is dealt with once.

This works as long as the queue is `Settled`: first come the observations that are passed over, then
those of values that have not been dealt with. The queue must be settled again whenever another key
is remembered, which is so when the first observation is dealt with (`Settled.deal`), but need not
be when the key comes from elsewhere.
-/
namespace Observed

variable {α κ : Type} {key : α → κ} {last : Option κ} {fresh : α → Prop} {looks : List α} {x : α}

/-- Observations of the same value are the same, and no value is observed after a later one. -/
def InOrder (number : α → Nat) (looks : List α) : Prop :=
  looks.Pairwise fun a b => number a < number b ∨ a = b

def Settled (key : α → κ) (last : Option κ) (fresh : α → Prop) (looks : List α) : Prop :=
  ∃ held rest, looks = held ++ rest ∧ (∀ x ∈ held, last = some (key x)) ∧ ∀ x ∈ rest, fresh x

namespace InOrder

variable {number : α → Nat}

theorem left {more : List α} (inOrder : InOrder number (looks ++ more)) : InOrder number looks :=
  (List.pairwise_append.mp inOrder).1

theorem again (inOrder : InOrder number (looks ++ [x])) :
    InOrder number (looks ++ [x] ++ [x]) := by
  refine List.pairwise_append.mpr ⟨inOrder, List.pairwise_singleton _ _, fun a mem b last => ?_⟩
  rw [List.mem_singleton.mp last]
  obtain mem | mem := List.mem_append.mp mem
  · exact (List.pairwise_append.mp inOrder).2.2 a mem x (List.mem_singleton_self x)
  · exact .inr (List.mem_singleton.mp mem)

theorem snoc (inOrder : InOrder number looks) (later : ∀ y ∈ looks, number y < number x) :
    InOrder number (looks ++ [x]) := by
  refine List.pairwise_append.mpr ⟨inOrder, List.pairwise_singleton _ _, fun a mem b last => ?_⟩
  rw [List.mem_singleton.mp last]
  exact .inl (later a mem)

end InOrder

namespace Settled

theorem of_key (same : ∀ x ∈ looks, last = some (key x)) : Settled key last fresh looks :=
  ⟨looks, [], (List.append_nil _).symm, same, nofun⟩

theorem of_fresh (all : ∀ x ∈ looks, fresh x) : Settled key last fresh looks :=
  ⟨[], looks, rfl, nofun, all⟩

theorem of_dropWhile [DecidableEq κ] {k : κ} (new : ∀ x ∈ looks.dropWhile (key · = k), fresh x) :
    Settled key (some k) fresh looks := by
  refine ⟨looks.takeWhile (key · = k), looks.dropWhile (key · = k),
    List.takeWhile_append_dropWhile.symm, fun x mem => ?_, new⟩
  have same := List.mem_takeWhile_imp mem
  rw [of_decide_eq_true same]

theorem imp {fresh' : α → Prop} (settled : Settled key last fresh looks)
    (weaker : ∀ x, fresh x → fresh' x) : Settled key last fresh' looks := by
  obtain ⟨held, rest, eq, same, new⟩ := settled
  exact ⟨held, rest, eq, same, fun x mem => weaker x (new x mem)⟩

theorem left {more : List α} (settled : Settled key last fresh (looks ++ more)) :
    Settled key last fresh looks := by
  obtain ⟨held, rest, eq, same, new⟩ := settled
  refine ⟨held.take looks.length, rest.take (looks.length - held.length), ?_,
    fun x mem => same x (List.mem_of_mem_take mem), fun x mem => new x (List.mem_of_mem_take mem)⟩
  rw [← List.take_append, ← eq, List.take_left]

theorem tail (settled : Settled key last fresh (x :: looks)) : Settled key last fresh looks := by
  obtain ⟨held, rest, eq, same, new⟩ := settled
  cases held with
  | nil =>
    refine of_fresh fun y mem => new y ?_
    rw [← show x :: looks = rest from eq]
    exact List.mem_cons_of_mem _ mem
  | cons first held =>
    obtain ⟨-, rfl⟩ := List.cons.inj eq
    exact ⟨held, rest, rfl, fun y mem => same y (List.mem_cons_of_mem _ mem), new⟩

/-- When the first observation is not passed over, none of them is of a value that was dealt
with. -/
theorem fresh_of_ne (settled : Settled key last fresh (x :: looks)) (ne : last ≠ some (key x)) :
    ∀ y ∈ x :: looks, fresh y := by
  obtain ⟨held, rest, eq, same, new⟩ := settled
  cases held with
  | nil =>
    rw [show x :: looks = rest from eq]
    exact new
  | cons first held =>
    obtain ⟨rfl, -⟩ := List.cons.inj eq
    exact absurd (same x List.mem_cons_self) ne

/-- The value is observed once more. -/
theorem again (settled : Settled key last fresh (looks ++ [x])) :
    Settled key last fresh (looks ++ [x] ++ [x]) := by
  obtain ⟨held, rest, eq, same, new⟩ := settled
  rw [eq]
  obtain rfl | ⟨front, y, rfl⟩ := rest.eq_nil_or_concat'
  · rw [List.append_nil] at eq ⊢
    refine of_key fun z mem => ?_
    obtain mem | mem := List.mem_append.mp mem
    · exact same z mem
    · refine same z ?_
      rw [List.mem_singleton.mp mem, ← eq]
      exact List.mem_append_right _ (List.mem_singleton_self x)
  · rw [← List.append_assoc] at eq
    obtain ⟨-, rfl⟩ := List.append_inj' eq rfl |>.imp_right List.singleton_inj.mp
    refine ⟨held, front ++ [x] ++ [x], by simp, same, fun z mem => new z ?_⟩
    simp only [List.mem_append, or_assoc, or_self] at mem ⊢
    exact mem

/-- A new value is there to be observed. -/
theorem snoc (settled : Settled key last fresh looks) (new : fresh x) :
    Settled key last fresh (looks ++ [x]) := by
  obtain ⟨held, rest, rfl, same, all⟩ := settled
  refine ⟨held, rest ++ [x], by rw [List.append_assoc], same, fun y mem => ?_⟩
  obtain mem | mem := List.mem_append.mp mem
  · exact all y mem
  · rw [List.mem_singleton.mp mem]
    exact new

/-- The first observation is dealt with: the others of the same value are passed over from now
on. -/
theorem deal {number : α → Nat} (inOrder : InOrder number (x :: looks))
    (new : ∀ y ∈ looks, fresh y) :
    Settled key (some (key x)) (fun y => fresh y ∧ number y ≠ number x) looks := by
  induction looks with
  | nil => exact of_fresh nofun
  | cons y looks ih =>
    obtain ⟨first, behind⟩ := List.pairwise_cons.mp inOrder
    obtain less | rfl := first y List.mem_cons_self
    · refine of_fresh fun z mem => ⟨new z mem, ?_⟩
      obtain rfl | mem := List.mem_cons.mp mem
      · omega
      · obtain later | rfl := List.rel_of_pairwise_cons behind mem <;> omega
    · obtain ⟨held, rest, rfl, same, all⟩ :=
        ih behind fun z mem => new z (List.mem_cons_of_mem _ mem)
      refine ⟨x :: held, rest, rfl, fun z mem => ?_, all⟩
      obtain rfl | mem := List.mem_cons.mp mem
      · rfl
      · exact same z mem

end Settled

end Observed
