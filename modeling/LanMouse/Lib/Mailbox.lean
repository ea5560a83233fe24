/-!
# A mailbox that wakes its reader

A mailbox keeps the items its reader has not taken. Polling an empty mailbox registers the reader's
waker, and the next item that arrives uses the waker up. A poll that takes an item registers
nothing.
-/

/-- Only a mailbox without items holds a waker. -/
structure Mailbox (α : Type) where
  ready : List α
  closed : Bool := false
  waker : Bool := false
  drained : waker = true → ready = [] := by simp

namespace Mailbox

variable {α : Type}

def push (m : Mailbox α) (a : α) : Mailbox α where
  ready := m.ready ++ [a]
  closed := m.closed
  waker := false

/-- The outer `none` is a pending poll, the inner one the end of the items. -/
def poll (m : Mailbox α) : Option (Option α) × Mailbox α :=
  match m.ready with
  | [] =>
    if m.closed then (some none, m)
    else (none, { m with ready := [], waker := true, drained := fun _ => rfl })
  | a :: rest =>
    (some (some a), { m with ready := rest, waker := false, drained := by simp })

/-- What a poll does: it meets the end of the items, it registers the waker, or it takes an item. -/
theorem poll_cases (m : Mailbox α) :
    (m.ready = [] ∧ m.poll.1 = some none) ∨
    (m.ready = [] ∧ m.poll.1 = none ∧ m.poll.2.ready = [] ∧ m.poll.2.waker = true) ∨
    ∃ a rest, m.ready = a :: rest ∧ m.poll.1 = some (some a) ∧ m.poll.2.ready = rest ∧
      m.poll.2.waker = false := by
  obtain ⟨ready, closed, waker, drained⟩ := m
  cases ready with
  | nil =>
    cases closed with
    | true => exact .inl ⟨rfl, rfl⟩
    | false => exact .inr (.inl ⟨rfl, rfl, rfl, rfl⟩)
  | cons a rest => exact .inr (.inr ⟨a, rest, rfl, rfl, rfl, rfl⟩)

theorem ready_poll (m : Mailbox α) : m.poll.2.ready = m.ready.tail := by
  obtain ⟨ready, closed, waker, drained⟩ := m
  cases ready with
  | nil => cases closed <;> rfl
  | cons a rest => rfl

end Mailbox
