import LanMouse.Capture.InputCapture

/-!
# Events for a destroyed handle

The stream of an `InputCapture` yields a backend event to the first subscriber of its key at once
and queues it for the others. `destroy` takes a handle out of the subscriptions and leaves the queue
alone: the stream is silent for the handle from then on exactly when nothing was queued for it.
-/
namespace LanMouse.Capture

/-- What is called on an `InputCapture`, with the answers of the backend. -/
inductive Operation where
  | create (id : CaptureHandle) (key : BarrierKey) (created : Bool)
  | destroy (id : CaptureHandle) (destroyed : Bool)
  | poll (backend : Polled (BarrierKey × CaptureEvent))
  deriving DecidableEq, Repr

namespace InputCapture

variable {c d : InputCapture} {id : CaptureHandle} {key : BarrierKey}

def operate (c : InputCapture) : Operation → Except Panic InputCapture
  | .create id key created => Prod.fst <$> c.create id key created
  | .destroy id destroyed => Prod.fst <$> c.destroy id destroyed
  | .poll backend => .ok (c.pollNext backend).2

def yields (c : InputCapture) : Operation → Option (CaptureHandle × CaptureEvent)
  | .poll backend =>
    match (c.pollNext backend).1 with
    | .item e => some e
    | _ => none
  | _ => none

def operateAll (c : InputCapture) (ops : List Operation) : Except Panic InputCapture :=
  ops.foldlM operate c

/-- The events the stream yields in a run, which a panic ends. -/
def stream : InputCapture → List Operation → List (CaptureHandle × CaptureEvent)
  | _, [] => []
  | c, op :: ops =>
    (c.yields op).toList ++
      match c.operate op with
      | .ok d => stream d ops
      | .error _ => []

/-- Every subscriber of a key is a handle created there. -/
def Owned (c : InputCapture) : Prop :=
  ∀ key ids, c.positionMap.lookup key = some ids → ∀ id ∈ ids, c.idMap.lookup id = some key

/-- No event for the handle can come any more without a new `create`. -/
structure Gone (c : InputCapture) (id : CaptureHandle) : Prop where
  owned : c.Owned
  absent : id ∉ c.idMap
  nothingQueued : ∀ e ∈ c.pending, e.1 ≠ id

theorem owned_new : new.Owned := by simp [Owned, new]

theorem Owned.congr (owned : c.Owned) (same : SameHandles c d) : d.Owned := by
  intro key ids present id mem
  rw [same.1]
  exact owned key ids (same.2 ▸ present) id mem

theorem Owned.create (owned : c.Owned) {created ok : Bool}
    (done : c.create id key created = .ok (d, ok)) : d.Owned := by
  obtain ⟨fresh, idMap, positionMap, -⟩ := create_eq_ok done
  have older : ∀ k ids, c.positionMap.lookup k = some ids → ∀ j ∈ ids,
      d.idMap.lookup j = some k := by
    intro k ids present j mem
    have own := owned k ids present j mem
    have apart : j ≠ id := by
      rintro rfl
      exact fresh (AList.lookup_isSome.mp (own ▸ rfl))
    rw [idMap, AList.lookup_insert_ne apart, own]
  intro k ids present j mem
  rw [positionMap] at present
  by_cases same : k = key
  · subst same
    rw [AList.lookup_insert, Option.some_inj] at present
    subst present
    obtain old | own := List.mem_append.mp mem
    · cases before : c.positionMap.lookup k with
      | none => simp [before] at old
      | some ids => exact older k ids before j (by simpa [before] using old)
    · rw [idMap, List.mem_singleton.mp own, AList.lookup_insert]
  · rw [AList.lookup_insert_ne same] at present
    exact older k ids present j mem

theorem Owned.destroy (owned : c.Owned) {destroyed ok : Bool}
    (done : c.destroy id destroyed = .ok (d, ok)) : d.Owned := by
  obtain ⟨key, ids, known, present, idMap, positionMap, -⟩ := destroy_eq_ok done
  intro k js present' j mem
  have before : ∃ all, c.positionMap.lookup k = some all ∧ j ∈ all ∧ j ≠ id := by
    rw [positionMap] at present'
    by_cases same : k = key
    · subst same
      split_ifs at present' with last
      · simp at present'
      · rw [AList.lookup_insert, Option.some_inj] at present'
        subst present'
        exact ⟨ids, present, by simpa using mem⟩
    · have there : c.positionMap.lookup k = some js := by
        split_ifs at present' with last
        · rwa [AList.lookup_erase_ne same] at present'
        · rwa [AList.lookup_insert_ne same] at present'
      refine ⟨js, there, mem, ?_⟩
      rintro rfl
      rw [owned k js there j mem, Option.some_inj] at known
      exact same known
  obtain ⟨all, there, listed, apart⟩ := before
  rw [idMap, AList.lookup_erase_ne apart]
  exact owned k all there j listed

theorem map_fst_ok {x : Except Panic (InputCapture × Bool)} (done : Prod.fst <$> x = .ok d) :
    ∃ ok, x = .ok (d, ok) := by
  cases x with
  | error p => cases done
  | ok r =>
    cases done
    exact ⟨r.2, rfl⟩

theorem Owned.operate (owned : c.Owned) {op : Operation} (done : c.operate op = .ok d) :
    d.Owned := by
  cases op with
  | create id key created =>
    obtain ⟨ok, done⟩ := map_fst_ok done
    exact owned.create done
  | destroy id destroyed =>
    obtain ⟨ok, done⟩ := map_fst_ok done
    exact owned.destroy done
  | poll backend =>
    cases done
    exact owned.congr (sameHandles_pollNext c backend)

theorem Owned.operateAll (owned : c.Owned) {ops : List Operation}
    (done : c.operateAll ops = .ok d) : d.Owned := by
  induction ops generalizing c with
  | nil =>
    cases done
    exact owned
  | cons op ops ih =>
    cases first : c.operate op with
    | error p => simp [InputCapture.operateAll, List.foldlM_cons, first, bind, Except.bind] at done
    | ok c' =>
      simp only [InputCapture.operateAll, List.foldlM_cons, first, bind, Except.bind] at done
      exact ih (owned.operate first) done

/-- What the stream yields or queues was queued before, or is for a subscriber. -/
theorem of_pollNext {backend : Polled (BarrierKey × CaptureEvent)}
    {e : CaptureHandle × CaptureEvent}
    (comes : c.yields (.poll backend) = some e ∨ e ∈ (c.pollNext backend).2.pending) :
    e ∈ c.pending ∨ ∃ key ids, c.positionMap.lookup key = some ids ∧ e.1 ∈ ids := by
  cases queue : c.pending with
  | cons first rest =>
    left
    simp only [yields, pollNext, queue, Option.some_inj] at comes
    obtain rfl | mem := comes
    · exact List.mem_cons_self
    · exact List.mem_cons_of_mem _ mem
  | nil =>
    right
    cases backend with
    | item a =>
      obtain ⟨key, event⟩ := a
      have keys : (c.trackKeys event).positionMap = c.positionMap := by rw [trackKeys_eq]
      have none_ : (c.trackKeys event).pending = [] := by rw [trackKeys_eq, queue]
      simp only [yields, pollNext, queue, keys, none_] at comes
      cases present : c.positionMap.lookup key with
      | none => simp [present, none_] at comes
      | some ids =>
        refine ⟨key, ids, present, ?_⟩
        cases ids with
        | nil => simp [present, none_] at comes
        | cons first rest =>
          simp only [present, Option.getD_some, Option.some_inj, List.nil_append,
            List.mem_map] at comes
          obtain rfl | ⟨id, mem, rfl⟩ := comes
          · exact List.mem_cons_self
          · exact List.mem_cons_of_mem _ mem
    | _ => simp [yields, pollNext, queue] at comes

theorem Gone.not_subscribed (gone : c.Gone id) {ids : List CaptureHandle}
    (present : c.positionMap.lookup key = some ids) : id ∉ ids := by
  intro mem
  have own := gone.owned key ids present id mem
  exact gone.absent (AList.lookup_isSome.mp (own ▸ rfl))

theorem Gone.of_pollNext (gone : c.Gone id) {backend : Polled (BarrierKey × CaptureEvent)}
    {e : CaptureHandle × CaptureEvent}
    (comes : c.yields (.poll backend) = some e ∨ e ∈ (c.pollNext backend).2.pending) :
    e.1 ≠ id := by
  obtain queued | ⟨key, ids, present, mem⟩ := InputCapture.of_pollNext comes
  · exact gone.nothingQueued e queued
  · rintro rfl
    exact gone.not_subscribed present mem

theorem Gone.yields (gone : c.Gone id) {op : Operation} {e : CaptureHandle × CaptureEvent}
    (comes : c.yields op = some e) : e.1 ≠ id := by
  cases op with
  | poll backend => exact gone.of_pollNext (.inl comes)
  | _ => cases comes

theorem Gone.operate (gone : c.Gone id) {op : Operation} (done : c.operate op = .ok d)
    (other : ∀ key created, op ≠ .create id key created) : d.Gone id := by
  have owned := gone.owned.operate done
  cases op with
  | create id' key created =>
    obtain ⟨ok, done⟩ := map_fst_ok done
    obtain ⟨-, idMap, -, pending, -⟩ := create_eq_ok done
    have apart : id ≠ id' := fun same => other key created (same ▸ rfl)
    refine ⟨owned, ?_, pending ▸ gone.nothingQueued⟩
    rw [idMap, AList.mem_insert]
    exact not_or.mpr ⟨apart, gone.absent⟩
  | destroy id' destroyed =>
    obtain ⟨ok, done⟩ := map_fst_ok done
    obtain ⟨key, ids, -, -, idMap, -, pending, -⟩ := destroy_eq_ok done
    refine ⟨owned, ?_, pending ▸ gone.nothingQueued⟩
    rw [idMap]
    exact fun mem => gone.absent (AList.mem_erase.mp mem).2
  | poll backend =>
    cases done
    refine ⟨owned, ?_, fun e mem => gone.of_pollNext (.inr mem)⟩
    rw [(sameHandles_pollNext c backend).1]
    exact gone.absent

theorem Gone.stream (gone : c.Gone id) {ops : List Operation}
    (others : ∀ key created, .create id key created ∉ ops) : ∀ e ∈ c.stream ops, e.1 ≠ id := by
  induction ops generalizing c with
  | nil => simp [InputCapture.stream]
  | cons op ops ih =>
    intro e mem
    obtain now | later := List.mem_append.mp mem
    · exact gone.yields (Option.mem_toList.mp now)
    · cases done : c.operate op with
      | error p => simp [done] at later
      | ok d =>
        rw [done] at later
        have apart : ∀ key created, op ≠ .create id key created := by
          rintro key created rfl
          exact others key created List.mem_cons_self
        exact ih (gone.operate done apart)
          (fun key created mem => others key created (List.mem_cons_of_mem _ mem)) e later

/-- Polled often enough, the stream yields what is queued. -/
theorem stream_polls (c : InputCapture) :
    c.stream (List.replicate c.pending.length (.poll .pending)) = c.pending := by
  generalize queue : c.pending = queued
  induction queued generalizing c with
  | nil => rfl
  | cons e rest ih =>
    have polled : c.pollNext .pending = (.item e, { c with pending := rest }) := by
      rw [pollNext, queue]
    rw [List.length_cons, List.replicate_succ, InputCapture.stream]
    simp only [InputCapture.yields, InputCapture.operate, polled]
    exact congrArg (e :: ·) (ih { c with pending := rest } rfl)

/-- A destroyed handle gets no event until it is created again, exactly when none was queued for it
at the time. -/
theorem destroyed_is_silent_iff (ops : List Operation) (reached : new.operateAll ops = .ok c)
    {destroyed ok : Bool} (returned : c.destroy id destroyed = .ok (d, ok)) :
    (∀ more, (∀ key created, .create id key created ∉ more) → ∀ e ∈ d.stream more, e.1 ≠ id) ↔
      ∀ e ∈ c.pending, e.1 ≠ id := by
  have owned : c.Owned := owned_new.operateAll reached
  obtain ⟨key, ids, known, present, idMap, positionMap, pending, -⟩ := destroy_eq_ok returned
  constructor
  · intro silent e queued
    have polls := silent (List.replicate d.pending.length (.poll .pending)) (by simp)
    rw [stream_polls, pending] at polls
    exact polls e queued
  · intro nothing more others
    have gone : d.Gone id :=
      ⟨owned.destroy returned, by rw [idMap]; exact fun mem => (AList.mem_erase.mp mem).1 rfl,
        by rwa [pending]⟩
    exact gone.stream others

theorem destroyed_is_silent_of_drained :
    let key : BarrierKey := ⟨.left, none, 0, 0⟩
    let ops := [.create 0 key true, .create 1 key true, .poll (.item (key, .begin)), .poll .pending]
    ∃ c d, new.operateAll ops = .ok c ∧ c.destroy 1 true = .ok (d, true) ∧
      ∀ more, (∀ key created, .create 1 key created ∉ more) → ∀ e ∈ d.stream more, e.1 ≠ 1 := by
  intro key ops
  have returned : ∃ c d, new.operateAll ops = .ok c ∧ c.destroy 1 true = .ok (d, true) ∧
      c.pending = [] := ⟨_, _, rfl, rfl, rfl⟩
  obtain ⟨c, d, reached, returned, drained⟩ := returned
  exact ⟨c, d, reached, returned,
    (destroyed_is_silent_iff ops reached returned).mpr (by simp [drained])⟩

/-- The event for the second subscriber is still queued when the handle is destroyed. -/
theorem destroyed_handle_yields :
    let key : BarrierKey := ⟨.left, none, 0, 0⟩
    let ops := [.create 0 key true, .create 1 key true, .poll (.item (key, .begin))]
    ∃ c d, new.operateAll ops = .ok c ∧ c.destroy 1 true = .ok (d, true) ∧
      d.stream [.poll .pending] = [(1, .begin)] :=
  ⟨_, _, rfl, rfl, rfl⟩

end InputCapture

end LanMouse.Capture
