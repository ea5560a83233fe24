import Mathlib.Data.List.Basic

/-!
# Metered readers

A reader works on a source of some size and allocates memory as it goes. A metered reader carries
the memory allocated so far along and notes a moment after each allocation: how much of the source
was unread then, and how much had been allocated. Nothing is taken back, so what is in use at any
time is at most what the last moment says.

`Within size c k m` bounds a reader by a constant and a multiple of what it takes from the source:
unread source counts `k` for each unit, so the sum of that and of the memory grows by at most `c`.
`Runs m r` says that `m` computes what the plain reader `r` computes.
-/

structure Moment where
  unread : Nat
  allocated : Nat
  deriving DecidableEq, Repr

/-- How a run of a metered reader ends: with the outcome of the plain reader, the moments on the way
and the memory allocated in the end. -/
structure Metered.Run (σ ε α : Type) where
  outcome : Except ε (α × σ)
  moments : List Moment
  allocated : Nat

/-- A run from a source and the memory allocated before. -/
def Metered (σ ε α : Type) := σ → Nat → Metered.Run σ ε α

namespace Metered

variable {σ ε α β : Type}

protected def pure (a : α) : Metered σ ε α := fun s n => ⟨.ok (a, s), [], n⟩

protected def bind (m : Metered σ ε α) (f : α → Metered σ ε β) : Metered σ ε β := fun s n =>
  match m s n with
  | ⟨.ok (a, s'), moments, n'⟩ =>
    let rest := f a s' n'
    { rest with moments := moments ++ rest.moments }
  | ⟨.error e, moments, n'⟩ => ⟨.error e, moments, n'⟩

instance : Monad (Metered σ ε) where
  pure := Metered.pure
  bind := Metered.bind

def fail (e : ε) : Metered σ ε α := fun _ n => ⟨.error e, [], n⟩

/-- A reader that allocates nothing. -/
def lift (r : StateT σ (Except ε) α) : Metered σ ε α := fun s n => ⟨r s, [], n⟩

def allocate (size : σ → Nat) (bytes : Nat) : Metered σ ε Unit := fun s n =>
  ⟨.ok ((), s), [⟨size s, n + bytes⟩], n + bytes⟩

/-- A vector is moved to `bytes` newly allocated bytes, room for `cap` items. -/
def grow (size : σ → Nat) (cap bytes : Nat) : Metered σ ε Nat := do
  allocate size bytes
  pure cap

variable {m : Metered σ ε α} {f : α → Metered σ ε β}

theorem bind_of_ok {s s' : σ} {n n' : Nat} {a : α} {moments : List Moment}
    (run : m s n = ⟨.ok (a, s'), moments, n'⟩) :
    (m >>= f) s n = { f a s' n' with moments := moments ++ (f a s' n').moments } := by
  change Metered.bind m f s n = _
  rw [Metered.bind, run]

theorem bind_of_error {s : σ} {n n' : Nat} {e : ε} {moments : List Moment}
    (run : m s n = ⟨.error e, moments, n'⟩) : (m >>= f) s n = ⟨.error e, moments, n'⟩ := by
  change Metered.bind m f s n = _
  rw [Metered.bind, run]

/-! ### The plain reader -/

def Runs (m : Metered σ ε α) (r : StateT σ (Except ε) α) : Prop := ∀ s n, (m s n).outcome = r s

theorem Runs.pure (a : α) : Runs (pure a : Metered σ ε α) (pure a) := fun _ _ => rfl

theorem Runs.lift (r : StateT σ (Except ε) α) : Runs (lift r) r := fun _ _ => rfl

theorem Runs.bind {r : StateT σ (Except ε) α} {g : α → StateT σ (Except ε) β} (first : Runs m r)
    (next : ∀ a, Runs (f a) (g a)) : Runs (m >>= f) (r >>= g) := by
  intro s n
  have same := first s n
  have step : (r >>= g) s = (r s >>= fun p => g p.1 p.2) := rfl
  rw [step, ← same]
  rcases run : m s n with ⟨_ | ⟨a, s'⟩, moments, n'⟩
  · rw [bind_of_error run]
    rfl
  · rw [bind_of_ok run]
    exact next a s' n'

theorem Runs.map {r : StateT σ (Except ε) α} (f : α → β) (runs : Runs m r) :
    Runs (f <$> m) (f <$> r) := by
  intro s n
  have same := runs s n
  have step : (f <$> r) s = ((fun p => (f p.1, p.2)) <$> r s) := rfl
  have metered : f <$> m = m >>= fun a => Metered.pure (f a) := rfl
  rw [metered, step, ← same]
  rcases run : m s n with ⟨_ | ⟨a, s'⟩, moments, n'⟩
  · rw [bind_of_error run]
    rfl
  · rw [bind_of_ok run]
    rfl

theorem Runs.grow_bind {size : σ → Nat} {cap bytes : Nat} {m : Nat → Metered σ ε α}
    {r : StateT σ (Except ε) α} (runs : Runs (m cap) r) : Runs (grow size cap bytes >>= m) r :=
  fun s n => runs s (n + bytes)

theorem Runs.allocate_bind (size : σ → Nat) (bytes : Nat) {r : StateT σ (Except ε) α}
    (runs : Runs m r) : Runs (allocate size bytes >>= fun _ => m) r :=
  fun s n => runs s (n + bytes)

/-! ### Bounds -/

/-- What is allocated and what is unread, at `k` for each unit, is at most `limit` all along. -/
structure Run.Bounded (size : σ → Nat) (k : Nat) (run : Run σ ε α) (limit : Nat) : Prop where
  moments : ∀ v ∈ run.moments, v.allocated + k * v.unread ≤ limit
  final : run.allocated ≤ limit
  ok : ∀ a s, run.outcome = .ok (a, s) → run.allocated + k * size s ≤ limit

def Within (size : σ → Nat) (c k : Nat) (m : Metered σ ε α) : Prop :=
  ∀ s n, (m s n).Bounded size k (n + c + k * size s)

section Rules

variable {size : σ → Nat} {c d k : Nat}

theorem Run.Bounded.mono {run : Run σ ε α} {limit limit' : Nat}
    (bounded : run.Bounded size k limit) (le : limit ≤ limit') : run.Bounded size k limit' where
  moments v mem := Nat.le_trans (bounded.moments v mem) le
  final := Nat.le_trans bounded.final le
  ok a s outcome := Nat.le_trans (bounded.ok a s outcome) le

/-- A bound for what goes before, and one for what follows from what that left. -/
theorem Run.Bounded.bind {s : σ} {n small limit : Nat} (first : (m s n).Bounded size k small)
    (le : small ≤ limit)
    (next : ∀ a s', (m s n).outcome = .ok (a, s') → (m s n).allocated + k * size s' ≤ small →
      (f a s' (m s n).allocated).Bounded size k limit) :
    ((m >>= f) s n).Bounded size k limit := by
  rcases run : m s n with ⟨_ | ⟨a, s'⟩, moments, n'⟩
  · rw [bind_of_error run]
    rw [run] at first
    exact ⟨(first.mono le).moments, (first.mono le).final, by simp⟩
  · rw [bind_of_ok run]
    rw [run] at first next
    have after := next a s' rfl (first.ok a s' rfl)
    refine ⟨fun v mem => ?_, after.final, after.ok⟩
    rcases List.mem_append.mp mem with early | late
    · exact (first.mono le).moments v early
    · exact after.moments v late

theorem Within.pure (a : α) : Within size 0 k (pure a : Metered σ ε α) := fun s n => by
  refine ⟨fun _ mem => absurd mem List.not_mem_nil, Nat.le_add_right n _, ?_⟩
  rintro _ _ ⟨⟩
  exact Nat.le_refl _

theorem Within.fail (e : ε) : Within size 0 k (fail e : Metered σ ε α) := fun _ n =>
  ⟨fun _ mem => absurd mem List.not_mem_nil, Nat.le_add_right n _, fun _ _ ok => by cases ok⟩

theorem Within.bind (first : Within size c k m) (next : ∀ a, Within size d k (f a)) :
    Within size (c + d) k (m >>= f) := fun s n => by
  refine (first s n).bind (by omega) fun a s' _ spent => ?_
  exact (next a s' _).mono (by omega)

theorem Within.lift {r : StateT σ (Except ε) α}
    (shrinks : ∀ s a s', r s = .ok (a, s') → size s' ≤ size s) : Within size 0 k (lift r) :=
  fun s n => by
    refine ⟨fun _ mem => absurd mem List.not_mem_nil, Nat.le_add_right n _, fun a s' read => ?_⟩
    have less := Nat.mul_le_mul_left k (shrinks s a s' read)
    exact Nat.add_le_add_left less n

/-- An outcome that does not touch the source. -/
theorem Within.outcome (x : Except ε α) : Within size 0 k (Metered.lift fun s => (·, s) <$> x) := by
  refine .lift fun s a s' read => ?_
  cases x with
  | error e => cases read
  | ok a =>
    cases read
    exact Nat.le_refl _

theorem Run.Bounded.allocate {s : σ} {n bytes limit : Nat} (fits : n + bytes + k * size s ≤ limit) :
    (Metered.allocate size bytes s n : Run σ ε Unit).Bounded size k limit := by
  refine ⟨fun v mem => ?_, Nat.le_trans (Nat.le_add_right _ _) fits, ?_⟩
  · rw [List.mem_singleton.mp mem]
    exact fits
  · rintro _ _ ⟨⟩
    exact fits

theorem Run.Bounded.grow {s : σ} {n cap bytes limit : Nat} {m : Nat → Metered σ ε α}
    (fits : n + bytes + k * size s ≤ limit) (next : (m cap s (n + bytes)).Bounded size k limit) :
    ((Metered.grow size cap bytes >>= m) s n).Bounded size k limit := by
  have allocated : (Metered.allocate size bytes s n : Run σ ε Unit).Bounded size k limit :=
    .allocate fits
  have grown := allocated.bind (f := fun _ => (Pure.pure cap : Metered σ ε Nat)) (Nat.le_refl _)
    fun _ s' _ spent => (Within.pure cap s' _).mono (by omega)
  refine grown.bind (Nat.le_refl _) fun _ _ same _ => ?_
  cases same
  exact next

/-- Memory for a value is paid for by what was read to get the value. -/
theorem Within.charge {r : StateT σ (Except ε) α} {cost : α → Nat}
    (pays : ∀ s a s', r s = .ok (a, s') → cost a + k * size s' ≤ k * size s)
    (next : ∀ a, Within size d k (f a)) :
    Within size d k (Metered.lift r >>= fun a => allocate size (cost a) >>= fun _ => f a) := by
  intro s n
  have plain : (Metered.lift r s n).Bounded size k (n + k * size s) := by
    refine ⟨fun _ mem => absurd mem List.not_mem_nil, Nat.le_add_right n _, fun a s' read => ?_⟩
    have enough := pays s a s' read
    change n + k * size s' ≤ _
    omega
  refine plain.bind (by omega) fun a s' read _ => ?_
  have enough := pays s a s' read
  have allocated : (allocate size (cost a) s' n : Run σ ε Unit).Bounded size k (n + k * size s) :=
    .allocate (by omega)
  refine allocated.bind (by omega) fun _ s'' same spent => ?_
  exact (next a s'' _).mono (by omega)

theorem Within.mono (within : Within size c k m) (le : c ≤ d) :
    Within size d k m := fun s n => (within s n).mono (by omega)

theorem Within.seq (first : Within size 0 k m) (next : ∀ a, Within size 0 k (f a)) :
    Within size 0 k (m >>= f) := first.bind next

theorem Within.map (f : α → β) (within : Within size c k m) :
    Within size c k (f <$> m) := within.bind (d := 0) fun a => .pure (f a)

end Rules

/-! ### A block of the source -/

/-- A reader on a block that was cut from the source. -/
def onBlock (block : List α) (m : Metered (List α) ε β) : Metered (List α) ε β := fun s n =>
  let run := m block n
  { outcome := (fun p => (p.1, s)) <$> run.outcome
    moments := run.moments.map fun v => { v with unread := v.unread + s.length }
    allocated := run.allocated }

theorem Runs.block (cut : StateT (List α) (Except ε) (List α))
    {m : List α → Metered (List α) ε β} {r : List α → Except ε β}
    (runs : ∀ block n, Prod.fst <$> (m block block n).outcome = r block) :
    Runs (Metered.lift cut >>= fun block => onBlock block (m block))
      (cut >>= fun block => liftM (r block)) := by
  refine (Runs.lift cut).bind fun block s n => ?_
  rw [← runs block n]
  change (fun p => (p.1, s)) <$> (m block block n).outcome = _
  rcases (m block block n).outcome with e | ⟨b, rest⟩ <;> rfl

/-- What a block costs is paid for by cutting it off. -/
theorem Within.block {cut : StateT (List α) (Except ε) (List α)} {k : Nat}
    {m : List α → Metered (List α) ε β}
    (cuts : ∀ s block s', cut s = .ok (block, s') → block.length + s'.length ≤ s.length)
    (within : ∀ block, Within List.length 0 k (m block)) :
    Within List.length 0 k (Metered.lift cut >>= fun block => onBlock block (m block)) := by
  intro s n
  have plain : (Metered.lift cut s n).Bounded List.length k (n + k * s.length) := by
    refine ⟨fun _ mem => absurd mem List.not_mem_nil, Nat.le_add_right n _, fun a s' read => ?_⟩
    have less := Nat.mul_le_mul_left k (Nat.le_trans (Nat.le_add_left _ _) (cuts s a s' read))
    change n + k * s'.length ≤ _
    omega
  refine plain.bind (by omega) fun block s' read _ => ?_
  have inside := within block block n
  have enough := Nat.mul_le_mul_left k (cuts s block s' read)
  rw [Nat.mul_add] at enough
  refine ⟨fun v mem => ?_, ?_, fun b rest outcome => ?_⟩
  · obtain ⟨w, inBlock, rfl⟩ := List.mem_map.mp mem
    have bound := inside.moments w inBlock
    dsimp only
    rw [Nat.mul_add]
    omega
  · have bound := inside.final
    change (m block block n).allocated ≤ _
    omega
  · have kept : rest = s' := by
      change (fun p => (p.1, s')) <$> (m block block n).outcome = _ at outcome
      cases result : (m block block n).outcome with
      | error e =>
        rw [result] at outcome
        cases outcome
      | ok p =>
        rw [result] at outcome
        cases outcome
        rfl
    subst kept
    have bound := inside.final
    change (m block block n).allocated + k * rest.length ≤ _
    omega

end Metered
