import LanMouse.Lib.Transition
import Mathlib.Logic.Function.Iterate

/-!
# A buffer that is drained as a whole

A caller gives orders to a thread in two ways. An update is put into a shared buffer, and then a
message is posted that says so; a reset is a message of its own. The thread takes the messages in
order, but executes the whole buffer at the first message that says there is something in it. So an
update may be executed before a reset that was ordered earlier.

If a reset commutes with every update this does not matter: once nothing is left to do, the state is
what the calls, executed in the order they were issued, lead to (`state_of_drained`).
-/
namespace Drain

open Transition

variable {σ τ υ : Type}

inductive Call (υ : Type) where
  | update (u : υ)
  | reset
  deriving DecidableEq, Repr

inductive Message where
  | updates
  | reset
  deriving DecidableEq, Repr

/-- The thread with its buffer and its messages. `unsignalled` is set while the caller has put an
update into the buffer and not yet posted the message. `issued` lists the calls. -/
structure Mailbox (σ υ : Type) where
  state : σ
  buffer : List υ := []
  queue : List Message := []
  unsignalled : Bool := false
  issued : List (Call υ) := []

inductive Event (υ : Type) where
  | call (c : Call υ)
  | signal
  | drain

namespace Mailbox

variable (exec : σ → υ → σ) (reset : σ → σ)

/-- The caller begins a call, once the last one has returned. -/
def call (m : Mailbox σ υ) (c : Call υ) : Mailbox σ υ :=
  if m.unsignalled then m
  else
    match c with
    | .update u =>
      { m with buffer := m.buffer ++ [u], unsignalled := true, issued := m.issued ++ [c] }
    | .reset => { m with queue := m.queue ++ [.reset], issued := m.issued ++ [c] }

def signal (m : Mailbox σ υ) : Mailbox σ υ :=
  if m.unsignalled then { m with queue := m.queue ++ [.updates], unsignalled := false } else m

/-- The thread takes a message. -/
def drain (m : Mailbox σ υ) : Mailbox σ υ :=
  match m.queue with
  | [] => m
  | .updates :: rest =>
    { m with state := m.buffer.foldl exec m.state, buffer := [], queue := rest }
  | .reset :: rest => { m with state := reset m.state, queue := rest }

def step (m : Mailbox σ υ) : Event υ → Mailbox σ υ
  | .call c => m.call c
  | .signal => m.signal
  | .drain => m.drain exec reset

/-- A call, executed at once. -/
def perform (s : σ) : Call υ → σ
  | .update u => exec s u
  | .reset => reset s

def inOrder (s : σ) (calls : List (Call υ)) : σ := calls.foldl (perform exec reset) s

/-- Nothing is left to do for the thread, and the caller is in no call. -/
def Drained (m : Mailbox σ υ) : Prop := m.queue = [] ∧ m.unsignalled = false

/-! ### The order of the calls -/

/-- What the thread would come to if it executed the buffer first and the resets afterwards. -/
def settled (m : Mailbox σ υ) : σ :=
  reset^[m.queue.count .reset] (m.buffer.foldl exec m.state)

variable {exec reset} {m : Mailbox σ υ}

/-- There is a message for what is in the buffer, or there will be. -/
def Announced (m : Mailbox σ υ) : Prop :=
  m.buffer ≠ [] → .updates ∈ m.queue ∨ m.unsignalled = true

theorem Announced.step (announced : m.Announced) (e : Event υ) :
    (m.step exec reset e).Announced := by
  cases e with
  | call c =>
    dsimp only [Mailbox.step, call]
    split_ifs with busy
    · exact announced
    · cases c with
      | update u => exact fun _ => .inr rfl
      | reset => exact fun some_ => (announced some_).imp_left (List.mem_append_left _)
  | signal =>
    dsimp only [Mailbox.step, signal]
    split_ifs
    · exact fun _ => .inl (by simp)
    · exact announced
  | drain =>
    dsimp only [Mailbox.step, drain]
    split
    · exact announced
    · exact fun some_ => absurd rfl some_
    · next rest queue =>
      intro some_
      have before := announced some_
      rw [queue, List.mem_cons] at before
      exact before.imp_left fun mem => mem.resolve_left nofun

theorem reset_foldl (commute : ∀ u, Function.Commute reset fun s => exec s u) (s : σ)
    (updates : List υ) : updates.foldl exec (reset s) = reset (updates.foldl exec s) := by
  induction updates generalizing s with
  | nil => rfl
  | cons u updates ih =>
    rw [List.foldl_cons, List.foldl_cons, ← ih]
    exact congrArg (List.foldl exec · updates) (commute u s).symm

/-- A call adds its effect to what the thread will come to; the thread's own steps change nothing
about that. -/
theorem settled_step (commute : ∀ u, Function.Commute reset fun s => exec s u) {s : σ}
    (inv : m.settled exec reset = inOrder exec reset s m.issued) (e : Event υ) :
    (m.step exec reset e).settled exec reset =
      inOrder exec reset s (m.step exec reset e).issued := by
  cases e with
  | call c =>
    dsimp only [step, call]
    split_ifs with busy
    · exact inv
    · cases c with
      | update u =>
        unfold settled inOrder at inv ⊢
        dsimp only
        rw [List.foldl_append, List.foldl_append, ← inv]
        exact ((commute u).iterate_left _) _
      | reset =>
        unfold settled inOrder at inv ⊢
        dsimp only
        rw [List.foldl_append, ← inv, List.count_append, List.count_singleton_self,
          Function.iterate_succ_apply']
        rfl
  | signal =>
    dsimp only [step, signal]
    split_ifs
    · unfold settled at inv ⊢
      dsimp only
      rw [List.count_append]
      exact inv
    · exact inv
  | drain =>
    dsimp only [step, drain]
    split
    · exact inv
    · next rest queue =>
      unfold settled at inv ⊢
      rw [queue] at inv
      exact inv
    · next rest queue =>
      unfold settled at inv ⊢
      rw [queue, List.count_cons_self, Function.iterate_succ_apply, ← reset_foldl commute] at inv
      exact inv

/-- Once everything is drained, the calls have had the effect they have in order. -/
theorem state_of_drained (commute : ∀ u, Function.Commute reset fun s => exec s u) (s : σ)
    (events : List (Event υ)) :
    let m := run (step exec reset) { state := s } events
    m.Drained → m.state = inOrder exec reset s m.issued := by
  intro m drained
  have inv : m.settled exec reset = inOrder exec reset s m.issued :=
    inv_run_of_step (fun m : Mailbox σ υ => m.settled exec reset = inOrder exec reset s m.issued)
      (fun _ e inv => settled_step commute inv e) rfl events
  have announced : m.Announced :=
    inv_run_of_step Announced (fun _ e announced => announced.step e)
      (fun some_ => absurd rfl some_) events
  have empty : m.buffer = [] := by
    by_contra some_
    rcases announced some_ with queued | waiting
    · rw [drained.1] at queued
      cases queued
    · rw [drained.2] at waiting
      cases waiting
  unfold settled at inv
  rw [drained.1, empty] at inv
  exact inv

/-! ### Seen through a view -/

/-- The mailbox of a thread of which only a part is looked at. -/
def map (view : τ → σ) (m : Mailbox τ υ) : Mailbox σ υ where
  state := view m.state
  buffer := m.buffer
  queue := m.queue
  unsignalled := m.unsignalled
  issued := m.issued

section View

variable {view : τ → σ} {exec' : τ → υ → τ} {reset' : τ → τ}

theorem view_foldl (simulates : ∀ t u, view (exec' t u) = exec (view t) u) (t : τ)
    (updates : List υ) : view (updates.foldl exec' t) = updates.foldl exec (view t) := by
  induction updates generalizing t with
  | nil => rfl
  | cons u updates ih => rw [List.foldl_cons, List.foldl_cons, ih, simulates]

theorem map_step (onUpdate : ∀ t u, view (exec' t u) = exec (view t) u)
    (onReset : ∀ t, view (reset' t) = reset (view t)) (m : Mailbox τ υ) (e : Event υ) :
    (m.step exec' reset' e).map view = (m.map view).step exec reset e := by
  cases e with
  | call c =>
    dsimp only [step, call, map]
    split_ifs
    · rfl
    · cases c <;> rfl
  | signal =>
    dsimp only [step, signal, map]
    split_ifs <;> rfl
  | drain =>
    dsimp only [step, drain, map]
    split
    · rfl
    · simp only [view_foldl onUpdate]
    · simp only [onReset]

theorem map_run (onUpdate : ∀ t u, view (exec' t u) = exec (view t) u)
    (onReset : ∀ t, view (reset' t) = reset (view t)) (m : Mailbox τ υ) (events : List (Event υ)) :
    (run (step exec' reset') m events).map view = run (step exec reset) (m.map view) events := by
  induction events generalizing m with
  | nil => rfl
  | cons e events ih => rw [run_cons, run_cons, ih, map_step onUpdate onReset]

theorem view_inOrder (onUpdate : ∀ t u, view (exec' t u) = exec (view t) u)
    (onReset : ∀ t, view (reset' t) = reset (view t)) (t : τ) (calls : List (Call υ)) :
    view (inOrder exec' reset' t calls) = inOrder exec reset (view t) calls := by
  refine view_foldl (fun t c => ?_) t calls
  cases c with
  | update u => exact onUpdate t u
  | reset => exact onReset t

/-- It is enough that the resets commute with the updates in what is looked at. -/
theorem view_of_drained (onUpdate : ∀ t u, view (exec' t u) = exec (view t) u)
    (onReset : ∀ t, view (reset' t) = reset (view t))
    (commute : ∀ u, Function.Commute reset fun s => exec s u) (t : τ) (events : List (Event υ)) :
    let m := run (step exec' reset') { state := t } events
    m.Drained → view m.state = view (inOrder exec' reset' t m.issued) := by
  intro m drained
  have seen := map_run onUpdate onReset { state := t } events
  have final := state_of_drained commute (view t) events
  dsimp only at final
  rw [show ({ state := view t } : Mailbox σ υ) = map view { state := t } from rfl, ← seen] at final
  rw [view_inOrder onUpdate onReset]
  exact final drained

end View

end Mailbox

end Drain
