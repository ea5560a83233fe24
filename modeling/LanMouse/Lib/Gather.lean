import Mathlib.Data.List.Nodup
import Mathlib.Data.List.Perm.Subperm
import Mathlib.Data.List.Range
import Mathlib.Logic.Function.Basic

/-!
# Gathering the results of a batch

Tasks are started in batches and each comes to its result in its own time. The results queue up and
are gathered one by one in the slot of their key; the result that fills the slot makes it fire.

`Sound` is what keeps the batches apart when a batch is only started while the slot of its key is
free and every task comes to a result: the slot of a batch is there until its last result has been
gathered, and then it has fired once, with exactly the results of the batch. Where every acceptable
result comes after those of the tasks before it, a batch with only acceptable results fires in the
order of its tasks.
-/
namespace Gather

/-- The tasks of a batch have consecutive numbers. -/
structure Batch (κ : Type) where
  key : κ
  first : Nat
  count : Nat

def Batch.numbers {κ : Type} (b : Batch κ) : List Nat := List.range' b.first b.count

theorem Batch.nodup_numbers {κ : Type} (b : Batch κ) : b.numbers.Nodup := List.nodup_range'

structure Slot (ρ : Type) where
  batch : Nat
  expected : Nat
  received : List ρ

structure State (κ ρ : Type) where
  results : List (Option ρ)
  batches : List (Batch κ)
  slots : κ → Option (Slot ρ)
  queue : List (Nat × ρ)
  fired : List (Nat × List ρ)

variable {κ ρ : Type}

namespace State

def empty : State κ ρ := ⟨[], [], fun _ => none, [], []⟩

def result (s : State κ ρ) (i : Nat) : Option ρ := s.results[i]?.join

def finish (s : State κ ρ) (i : Nat) (r : ρ) : State κ ρ :=
  { s with results := s.results.set i (some r), queue := s.queue ++ [(i, r)] }

/-- Start a batch of `count` tasks. -/
def spawn [DecidableEq κ] (s : State κ ρ) (key : κ) (count : Nat) : State κ ρ :=
  { s with
    results := s.results ++ List.replicate count none
    batches := s.batches ++ [⟨key, s.results.length, count⟩]
    slots := Function.update s.slots key (some ⟨s.batches.length, count, []⟩) }

/-- A result comes to its slot. -/
def gather [DecidableEq κ] (s : State κ ρ) (key : κ) (r : ρ) : State κ ρ :=
  match s.slots key with
  | none => s
  | some slot =>
    let received := slot.received ++ [r]
    if received.length ≠ slot.expected then
      { s with slots := Function.update s.slots key (some { slot with received }) }
    else
      { s with
        slots := Function.update s.slots key none
        fired := s.fired ++ [(slot.batch, received)] }

def next [DecidableEq κ] (key : ρ → κ) (s : State κ ρ) : State κ ρ :=
  match s.queue with
  | [] => s
  | (_, r) :: rest => { s with queue := rest }.gather (key r) r

/-! ### What is kept -/

/-- The results of a batch that wait in the queue. -/
def waiting (s : State κ ρ) (b : Batch κ) : List ρ :=
  (s.queue.filter fun x => x.1 ∈ b.numbers).map (·.2)

def firedFor (s : State κ ρ) (n : Nat) : List (Nat × List ρ) := s.fired.filter (·.1 = n)

/-- The batch has a slot that holds what has been gathered, and there is more to come. -/
structure Open (s : State κ ρ) (n : Nat) (b : Batch κ) (order : List Nat) (slot : Slot ρ) :
    Prop where
  held : s.slots b.key = some slot
  batch : slot.batch = n
  expected : slot.expected = b.count
  unfilled : slot.received.length < b.count
  gathered : slot.received ++ s.waiting b = order.filterMap s.result
  unfired : s.firedFor n = []

/-- The batch has fired and left nothing behind. -/
structure Closed (s : State κ ρ) (n : Nat) (b : Batch κ) (order : List Nat) : Prop where
  released : ∀ key slot, s.slots key = some slot → slot.batch ≠ n
  drained : s.waiting b = []
  finished : ∀ i ∈ b.numbers, (s.result i).isSome
  fired : s.firedFor n = [(n, order.filterMap s.result)]

/-- `order` is the order in which the tasks of the batch have come to their results. -/
structure Tracks (ok : ρ → Bool) (s : State κ ρ) (n : Nat) (b : Batch κ) (order : List Nat) :
    Prop where
  nodup : order.Nodup
  mem : ∀ i, i ∈ order ↔ i ∈ b.numbers ∧ (s.result i).isSome
  inOrder : (∀ r ∈ order.filterMap s.result, ok r) → order = List.range' b.first order.length
  status : (∃ slot, s.Open n b order slot) ∨ s.Closed n b order

structure Sound (key : ρ → κ) (ok : ρ → Bool) (s : State κ ρ) : Prop where
  tiled : s.batches.flatMap Batch.numbers = List.range s.results.length
  queued : ∀ i r, (i, r) ∈ s.queue → s.result i = some r
  keyed : ∀ b ∈ s.batches, ∀ i ∈ b.numbers, ∀ r, s.result i = some r → key r = b.key
  below : ∀ x ∈ s.fired, x.1 < s.batches.length
  slotted : ∀ k slot, s.slots k = some slot → ∃ b, s.batches[slot.batch]? = some b ∧ b.key = k
  tracks : ∀ n b, s.batches[n]? = some b → ∃ order, s.Tracks ok n b order

variable {key : ρ → κ} {ok : ρ → Bool} {s : State κ ρ} {n m : Nat} {b b' : Batch κ}
  {order : List Nat} {slot : Slot ρ}

theorem sound_empty : (empty : State κ ρ).Sound key ok where
  tiled := rfl
  queued := nofun
  keyed := nofun
  below := nofun
  slotted := nofun
  tracks := by simp [empty]

/-! ### Batches do not share tasks -/

theorem Sound.disjoint (sound : s.Sound key ok) (found : s.batches[n]? = some b)
    (found' : s.batches[m]? = some b') (differ : n ≠ m) {i : Nat} (mem : i ∈ b.numbers) :
    i ∉ b'.numbers := by
  have nodup : (s.batches.flatMap Batch.numbers).Nodup := by
    rw [sound.tiled]
    exact List.nodup_range
  have pairwise := (List.nodup_flatMap.mp nodup).2
  obtain ⟨inside, rfl⟩ := List.getElem?_eq_some_iff.mp found
  obtain ⟨inside', rfl⟩ := List.getElem?_eq_some_iff.mp found'
  rw [List.pairwise_iff_getElem] at pairwise
  intro mem'
  obtain lt | gt := Nat.lt_or_gt_of_ne differ
  · exact pairwise n m inside inside' lt mem mem'
  · exact pairwise m n inside' inside gt mem' mem

theorem Sound.exists_batch (sound : s.Sound key ok) {i : Nat} (inside : i < s.results.length) :
    ∃ (n : Nat) (b : Batch κ), s.batches[n]? = some b ∧ i ∈ b.numbers := by
  have mem : i ∈ s.batches.flatMap Batch.numbers := by
    rw [sound.tiled]
    exact List.mem_range.mpr inside
  obtain ⟨b, present, mem⟩ := List.mem_flatMap.mp mem
  obtain ⟨n, found⟩ := List.getElem?_of_mem present
  exact ⟨n, b, found, mem⟩

theorem Sound.lt_length (sound : s.Sound key ok) (present : b ∈ s.batches) {i : Nat}
    (mem : i ∈ b.numbers) : i < s.results.length := by
  have mem : i ∈ s.batches.flatMap Batch.numbers := List.mem_flatMap.mpr ⟨b, present, mem⟩
  rw [sound.tiled] at mem
  exact List.mem_range.mp mem

theorem lt_of_result {i : Nat} {r : ρ} (done : s.result i = some r) : i < s.results.length := by
  by_contra outside
  simp [result, List.getElem?_eq_none (Nat.not_lt.mp outside)] at done

theorem length_results_of_tracked {results : Nat → Option ρ}
    (done : ∀ i ∈ order, (results i).isSome) :
    (order.filterMap results).length = order.length := by
  induction order with
  | nil => rfl
  | cons i order ih =>
    obtain ⟨r, done_⟩ := Option.isSome_iff_exists.mp (done i List.mem_cons_self)
    rw [List.filterMap_cons_some done_, List.length_cons, List.length_cons,
      ih fun j mem => done j (List.mem_cons_of_mem _ mem)]

theorem Tracks.length_results (tracks : s.Tracks ok n b order) :
    (order.filterMap s.result).length = order.length :=
  length_results_of_tracked fun i mem => ((tracks.mem i).mp mem).2

theorem Tracks.subset (tracks : s.Tracks ok n b order) : order ⊆ b.numbers :=
  fun i mem => ((tracks.mem i).mp mem).1

/-- A batch with as many results as tasks has no unfinished task. -/
theorem Tracks.finished (tracks : s.Tracks ok n b order) (all : b.count ≤ order.length) {i : Nat}
    (mem : i ∈ b.numbers) : i ∈ order := by
  have subperm : order.Subperm b.numbers := tracks.nodup.subperm tracks.subset
  have perm := subperm.perm_of_length_le (by simpa [Batch.numbers] using all)
  exact perm.mem_iff.mpr mem

theorem Tracks.length_le (tracks : s.Tracks ok n b order) : order.length ≤ b.count := by
  have subperm : order.Subperm b.numbers := tracks.nodup.subperm tracks.subset
  simpa [Batch.numbers] using subperm.length_le

/-! ### Starting a batch -/

section Spawn

variable [DecidableEq κ] {k : κ} {count : Nat}

theorem result_spawn (s : State κ ρ) (k : κ) (count i : Nat) :
    (s.spawn k count).result i = s.result i := by
  unfold result spawn
  by_cases inside : i < s.results.length
  · rw [List.getElem?_append_left inside]
  · have outside := Nat.not_lt.mp inside
    rw [List.getElem?_append_right outside, List.getElem?_eq_none outside,
      List.getElem?_replicate]
    split <;> rfl

theorem Tracks.spawn (found : s.batches[n]? = some b)
    (tracks : s.Tracks ok n b order) (free : s.slots k = none) :
    (s.spawn k count).Tracks ok n b order := by
  have results : (s.spawn k count).result = s.result := funext (result_spawn s k count)
  have below : n < s.batches.length := (List.getElem?_eq_some_iff.mp found).1
  refine ⟨tracks.nodup, by rw [results]; exact tracks.mem, by rw [results]; exact tracks.inOrder,
    ?_⟩
  obtain ⟨slot, opened⟩ | closed := tracks.status
  · have other : b.key ≠ k := fun same => by
      rw [← same, opened.held] at free
      cases free
    exact .inl ⟨slot, (Function.update_of_ne other ..).trans opened.held, opened.batch,
      opened.expected, opened.unfilled, by rw [results]; exact opened.gathered, opened.unfired⟩
  · refine .inr ⟨fun key slot there => ?_, closed.drained, by rw [results]; exact closed.finished,
      by rw [results]; exact closed.fired⟩
    by_cases same : key = k
    · subst same
      simp only [State.spawn, Function.update_self, Option.some.injEq] at there
      subst there
      exact Nat.ne_of_gt below
    · exact closed.released key slot ((Function.update_of_ne same ..).symm.trans there)

theorem tracks_spawned (sound : s.Sound key ok) (some_ : 0 < count) :
    (s.spawn k count).Tracks ok s.batches.length ⟨k, s.results.length, count⟩ [] := by
  have unfinished : ∀ i ∈ Batch.numbers ⟨k, s.results.length, count⟩, s.result i = none := by
    intro i mem
    have outside : s.results.length ≤ i := (List.mem_range'_1.mp mem).1
    simp [result, List.getElem?_eq_none outside]
  have waiting : (s.spawn k count).waiting ⟨k, s.results.length, count⟩ = [] := by
    have none_ :
        s.queue.filter (fun x => x.1 ∈ Batch.numbers ⟨k, s.results.length, count⟩) = [] := by
      rw [List.filter_eq_nil_iff]
      intro x mem there
      have done := sound.queued x.1 x.2 mem
      rw [unfinished x.1 (by simpa using there)] at done
      cases done
    simp only [State.waiting, State.spawn, none_, List.map_nil]
  have unfired : (s.spawn k count).firedFor s.batches.length = [] := by
    simp only [firedFor, State.spawn, List.filter_eq_nil_iff, decide_eq_true_eq]
    exact fun x mem => Nat.ne_of_lt (sound.below x mem)
  refine ⟨List.nodup_nil, fun i => ?_, fun _ => rfl, .inl ⟨_, Function.update_self .., rfl, rfl,
    some_, ?_, unfired⟩⟩
  · rw [result_spawn]
    refine iff_of_false List.not_mem_nil fun both => ?_
    rw [unfinished i both.1] at both
    cases both.2
  · rw [waiting]
    rfl

theorem Sound.spawn (sound : s.Sound key ok) (free : s.slots k = none) (some_ : 0 < count) :
    (s.spawn k count).Sound key ok where
  tiled := by
    simp only [State.spawn, List.flatMap_append, sound.tiled, List.flatMap_singleton,
      Batch.numbers, List.length_append, List.length_replicate, List.range_eq_range']
    rw [← List.range'_append_1, Nat.zero_add]
  queued := fun i r mem => (result_spawn s k count i).trans (sound.queued i r mem)
  keyed := by
    intro b mem i inside r done
    rw [result_spawn] at done
    obtain old | new := List.mem_append.mp mem
    · exact sound.keyed b old i inside r done
    · cases List.mem_singleton.mp new
      exact absurd (lt_of_result done) (Nat.not_lt.mpr (List.mem_range'_1.mp inside).1)
  below := fun x mem => by
    have below := sound.below x mem
    simp only [State.spawn, List.length_append, List.length_singleton]
    omega
  slotted := by
    intro k' slot there
    by_cases same : k' = k
    · subst same
      simp only [State.spawn, Function.update_self, Option.some.injEq] at there
      subst there
      exact ⟨_, List.getElem?_concat_length, rfl⟩
    · simp only [State.spawn, Function.update_of_ne same] at there
      obtain ⟨b, found, key⟩ := sound.slotted k' slot there
      have inside := (List.getElem?_eq_some_iff.mp found).1
      exact ⟨b, (List.getElem?_append_left inside).trans found, key⟩
  tracks := by
    intro n b found
    simp only [State.spawn] at found
    by_cases old : n < s.batches.length
    · rw [List.getElem?_append_left old] at found
      obtain ⟨order, tracks⟩ := sound.tracks n b found
      exact ⟨order, tracks.spawn found free⟩
    · have inside := (List.getElem?_eq_some_iff.mp found).1
      simp only [List.length_append, List.length_singleton] at inside
      obtain rfl : n = s.batches.length := by omega
      rw [List.getElem?_concat_length] at found
      cases found
      exact ⟨[], tracks_spawned sound some_⟩

end Spawn

/-! ### A task comes to its result -/

section Finish

variable {i : Nat} {r : ρ}

/-- What is asked of a task that comes to its result. -/
structure Finishes (key : ρ → κ) (ok : ρ → Bool) (s : State κ ρ) (i : Nat) (r : ρ) : Prop where
  running : s.results[i]? = some none
  keyed : ∀ b ∈ s.batches, i ∈ b.numbers → key r = b.key
  inOrder : ok r → ∀ b ∈ s.batches, i ∈ b.numbers → ∀ j ∈ b.numbers, j < i → (s.result j).isSome

theorem result_finish (running : s.results[i]? = some none) (j : Nat) :
    (s.finish i r).result j = if j = i then some r else s.result j := by
  have inside := (List.getElem?_eq_some_iff.mp running).1
  unfold result finish
  by_cases same : j = i
  · subst same
    simp [inside]
  · simp [same, List.getElem?_set_ne (Ne.symm same)]

theorem filterMap_result_finish (running : s.results[i]? = some none) (absent : i ∉ order) :
    order.filterMap (s.finish i r).result = order.filterMap s.result := by
  refine List.filterMap_congr fun j mem => ?_
  have other : j ≠ i := fun same => absent (same ▸ mem)
  rw [result_finish running, if_neg other]

theorem waiting_finish (s : State κ ρ) (i : Nat) (r : ρ) (b : Batch κ) :
    (s.finish i r).waiting b = s.waiting b ++ if i ∈ b.numbers then [r] else [] := by
  unfold waiting finish
  rw [List.filter_append, List.map_append]
  split <;> simp [*]

theorem not_mem_of_running (tracks : s.Tracks ok n b order) (running : s.results[i]? = some none) :
    i ∉ order := by
  intro mem
  have done := ((tracks.mem i).mp mem).2
  simp [result, running] at done

/-- A result that comes after those of all tasks before it keeps the order of the tasks. -/
theorem snoc_range' {first i : Nat} (sorted : order = List.range' first order.length)
    (above : first ≤ i) (before : ∀ j, first ≤ j → j < i → j ∈ order) (absent : i ∉ order) :
    order ++ [i] = List.range' first (order ++ [i]).length := by
  have upper : i = first + order.length := by
    have notBelow : ¬i < first + order.length := fun below =>
      absent (by rw [sorted]; exact List.mem_range'_1.mpr ⟨above, below⟩)
    by_contra differ
    have mem := before (first + order.length) (by omega) (by omega)
    rw [sorted] at mem
    have := (List.mem_range'_1.mp mem).2
    simp only [List.length_range'] at this
    omega
  rw [List.length_append, List.length_singleton, List.range'_concat, ← sorted, upper, Nat.one_mul]

theorem Tracks.finish_own (tracks : s.Tracks ok n b order) (present : b ∈ s.batches)
    (finishes : s.Finishes key ok i r) (own : i ∈ b.numbers) :
    (s.finish i r).Tracks ok n b (order ++ [i]) := by
  have absent := not_mem_of_running tracks finishes.running
  have gathered : (order ++ [i]).filterMap (s.finish i r).result =
      order.filterMap s.result ++ [r] := by
    rw [List.filterMap_append, filterMap_result_finish finishes.running absent]
    simp [result_finish finishes.running]
  refine ⟨?_, fun j => ?_, fun acceptable => ?_, ?_⟩
  · rw [List.nodup_append]
    exact ⟨tracks.nodup, List.nodup_singleton i, fun a mem c single => by
      rw [List.mem_singleton.mp single]
      exact fun same => absent (same ▸ mem)⟩
  · rw [List.mem_append, List.mem_singleton, tracks.mem, result_finish finishes.running]
    by_cases same : j = i
    · simp [same, own]
    · simp [same]
  · rw [gathered] at acceptable
    have sorted := tracks.inOrder fun r' mem => acceptable r' (List.mem_append_left _ mem)
    have good := acceptable r (List.mem_append_right _ List.mem_cons_self)
    refine snoc_range' sorted (List.mem_range'_1.mp own).1 (fun j above below => ?_) absent
    have upper := (List.mem_range'_1.mp own).2
    have inside : j ∈ b.numbers := List.mem_range'_1.mpr ⟨above, by omega⟩
    exact (tracks.mem j).mpr ⟨inside, finishes.inOrder good b present own j inside below⟩
  · obtain ⟨slot, opened⟩ | closed := tracks.status
    · refine .inl ⟨slot, opened.held, opened.batch, opened.expected, opened.unfilled, ?_,
        opened.unfired⟩
      rw [waiting_finish, if_pos own, ← List.append_assoc, opened.gathered, gathered]
    · have done := closed.finished i own
      simp [result, finishes.running] at done

theorem Tracks.finish_other (tracks : s.Tracks ok n b order) (running : s.results[i]? = some none)
    (other : i ∉ b.numbers) : (s.finish i r).Tracks ok n b order := by
  have absent := not_mem_of_running tracks running
  have gathered := (filterMap_result_finish (r := r) running absent)
  have waiting : (s.finish i r).waiting b = s.waiting b := by
    rw [waiting_finish, if_neg other, List.append_nil]
  have same : ∀ j ∈ b.numbers, (s.finish i r).result j = s.result j := fun j mem => by
    have differ : j ≠ i := fun eq => other (eq ▸ mem)
    rw [result_finish running, if_neg differ]
  refine ⟨tracks.nodup, fun j => ?_, by rw [gathered]; exact tracks.inOrder, ?_⟩
  · rw [tracks.mem]
    exact and_congr_right fun mem => by rw [same j mem]
  · obtain ⟨slot, opened⟩ | closed := tracks.status
    · exact .inl ⟨slot, opened.held, opened.batch, opened.expected, opened.unfilled,
        by rw [waiting, gathered]; exact opened.gathered, opened.unfired⟩
    · exact .inr ⟨closed.released, waiting.trans closed.drained,
        fun j mem => by rw [same j mem]; exact closed.finished j mem,
        by rw [gathered]; exact closed.fired⟩

theorem Sound.finish (sound : s.Sound key ok) (finishes : s.Finishes key ok i r) :
    (s.finish i r).Sound key ok where
  tiled := by
    simp only [State.finish, List.length_set]
    exact sound.tiled
  queued := by
    intro j r' mem
    rw [result_finish finishes.running]
    obtain old | new := List.mem_append.mp mem
    · have done := sound.queued j r' old
      have other : j ≠ i := fun same => by
        subst same
        simp [result, finishes.running] at done
      rw [if_neg other, done]
    · cases List.mem_singleton.mp new
      rw [if_pos rfl]
  keyed := by
    intro b mem j inside r' done
    rw [result_finish finishes.running] at done
    by_cases same : j = i
    · subst same
      rw [if_pos rfl] at done
      cases done
      exact finishes.keyed b mem inside
    · rw [if_neg same] at done
      exact sound.keyed b mem j inside r' done
  below := sound.below
  slotted := sound.slotted
  tracks := by
    intro n b found
    obtain ⟨order, tracks⟩ := sound.tracks n b found
    by_cases own : i ∈ b.numbers
    · exact ⟨order ++ [i], tracks.finish_own (List.mem_of_getElem? found) finishes own⟩
    · exact ⟨order, tracks.finish_other finishes.running own⟩

end Finish

/-! ### A result is gathered -/

section Next

variable {i : Nat} {r : ρ} {rest : List (Nat × ρ)}

theorem waiting_cons {s' : State κ ρ} (queue : s.queue = (i, r) :: s'.queue) (b : Batch κ) :
    s.waiting b = if i ∈ b.numbers then r :: s'.waiting b else s'.waiting b := by
  unfold waiting
  rw [queue, List.filter_cons]
  split <;> simp_all

/-- What gathering leaves of the other slots and batches. -/
structure Gathers (s s' : State κ ρ) (i : Nat) (r : ρ) (k : κ) (n : Nat) : Prop where
  queue : s.queue = (i, r) :: s'.queue
  results : s'.results = s.results
  batches : s'.batches = s.batches
  held : ∃ slot, s.slots k = some slot ∧ slot.batch = n
  slot : ∀ slot, s'.slots k = some slot → slot.batch = n
  others : ∀ k', k' ≠ k → s'.slots k' = s.slots k'
  fired : ∀ m, m ≠ n → s'.firedFor m = s.firedFor m

theorem Gathers.result {s' : State κ ρ} {k : κ} (gathers : s.Gathers s' i r k n) :
    s'.result = s.result := by
  funext j
  simp only [State.result, gathers.results]

theorem Tracks.gathers_other {s' : State κ ρ} {k : κ} (tracks : s.Tracks ok m b order)
    (gathers : s.Gathers s' i r k n) (differ : m ≠ n) (other : i ∉ b.numbers) :
    s'.Tracks ok m b order := by
  have waiting : s'.waiting b = s.waiting b := by
    rw [waiting_cons gathers.queue, if_neg other]
  refine ⟨tracks.nodup, by rw [gathers.result]; exact tracks.mem,
    by rw [gathers.result]; exact tracks.inOrder, ?_⟩
  obtain ⟨slot, opened⟩ | closed := tracks.status
  · have apart : b.key ≠ k := fun same => by
      obtain ⟨held, there, batch⟩ := gathers.held
      rw [← same, opened.held] at there
      cases there
      exact differ (opened.batch.symm.trans batch)
    exact .inl ⟨slot, (gathers.others _ apart).trans opened.held, opened.batch, opened.expected,
      opened.unfilled, by rw [waiting, gathers.result]; exact opened.gathered,
      (gathers.fired m differ).trans opened.unfired⟩
  · refine .inr ⟨fun k' held there => ?_, waiting.trans closed.drained,
      by rw [gathers.result]; exact closed.finished,
      by rw [gathers.result, gathers.fired m differ]; exact closed.fired⟩
    by_cases same : k' = k
    · subst same
      rw [gathers.slot held there]
      exact differ.symm
    · exact closed.released k' held ((gathers.others k' same).symm.trans there)

theorem Sound.gathers {s' : State κ ρ} (sound : s.Sound key ok)
    (gathers : s.Gathers s' i r b.key n) (found : s.batches[n]? = some b) (own : i ∈ b.numbers)
    (below : ∀ x ∈ s'.fired, x.1 < s.batches.length) (tracks : ∃ order, s'.Tracks ok n b order) :
    s'.Sound key ok where
  tiled := by
    rw [gathers.batches, gathers.results]
    exact sound.tiled
  queued := by
    intro j r' mem
    rw [gathers.result]
    refine sound.queued j r' ?_
    rw [gathers.queue]
    exact List.mem_cons_of_mem _ mem
  keyed := by
    rw [gathers.batches, gathers.result]
    exact sound.keyed
  below := by
    rw [gathers.batches]
    exact below
  slotted := by
    intro k slot there
    rw [gathers.batches]
    by_cases same : k = b.key
    · subst same
      rw [gathers.slot slot there]
      exact ⟨b, found, rfl⟩
    · rw [gathers.others k same] at there
      exact sound.slotted k slot there
  tracks := by
    intro m b' found'
    rw [gathers.batches] at found'
    by_cases same : m = n
    · subst same
      rw [found] at found'
      cases found'
      exact tracks
    · obtain ⟨order, tracks⟩ := sound.tracks m b' found'
      exact ⟨order, tracks.gathers_other gathers same
        (sound.disjoint found found' (Ne.symm same) own)⟩

variable [DecidableEq κ]

/-- The slot takes the result of its batch. -/
def keep (s : State κ ρ) (k : κ) (slot : Slot ρ) (r : ρ) (rest : List (Nat × ρ)) : State κ ρ :=
  { s with
    queue := rest
    slots := Function.update s.slots k (some { slot with received := slot.received ++ [r] }) }

/-- The last result of a batch makes its slot fire. -/
def fire (s : State κ ρ) (k : κ) (slot : Slot ρ) (r : ρ) (rest : List (Nat × ρ)) : State κ ρ :=
  { s with
    queue := rest
    slots := Function.update s.slots k none
    fired := s.fired ++ [(slot.batch, slot.received ++ [r])] }

theorem next_eq (queue : s.queue = (i, r) :: rest) (held : s.slots (key r) = some slot) :
    s.next key = if slot.received.length + 1 = slot.expected then s.fire (key r) slot r rest
      else s.keep (key r) slot r rest := by
  simp only [next, queue, gather, held, List.length_append, List.length_singleton]
  by_cases filled : slot.received.length + 1 = slot.expected
  · simp [filled, fire]
  · simp [filled, keep]

theorem Sound.keep (sound : s.Sound key ok) (queue : s.queue = (i, r) :: rest)
    (found : s.batches[n]? = some b) (own : i ∈ b.numbers) (tracks : s.Tracks ok n b order)
    (opened : s.Open n b order slot) (unfilled : slot.received.length + 1 < b.count) :
    (s.keep b.key slot r rest).Sound key ok := by
  have gathers : s.Gathers (s.keep b.key slot r rest) i r b.key n := by
    refine ⟨queue, rfl, rfl, ⟨slot, opened.held, opened.batch⟩, fun held there => ?_,
      fun k' other => Function.update_of_ne other .., fun _ _ => rfl⟩
    simp only [State.keep, Function.update_self, Option.some.injEq] at there
    subst there
    exact opened.batch
  have gathered := opened.gathered
  rw [waiting_cons gathers.queue, if_pos own] at gathered
  refine sound.gathers gathers found own sound.below
    ⟨order, tracks.nodup, tracks.mem, tracks.inOrder, .inl ⟨_, Function.update_self ..,
      opened.batch, opened.expected, ?_, ?_, opened.unfired⟩⟩
  · simpa using unfilled
  · rw [gathers.result, ← gathered]
    simp

theorem Sound.fire (sound : s.Sound key ok) (queue : s.queue = (i, r) :: rest)
    (found : s.batches[n]? = some b) (own : i ∈ b.numbers) (tracks : s.Tracks ok n b order)
    (opened : s.Open n b order slot) (filled : slot.received.length + 1 = b.count) :
    (s.fire b.key slot r rest).Sound key ok := by
  have gathers : s.Gathers (s.fire b.key slot r rest) i r b.key n := by
    refine ⟨queue, rfl, rfl, ⟨slot, opened.held, opened.batch⟩, fun held there => ?_,
      fun k' other => Function.update_of_ne other .., fun m differ => ?_⟩
    · simp only [State.fire, Function.update_self] at there
      cases there
    · have apart : slot.batch ≠ m := fun same => differ (same.symm.trans opened.batch)
      simp [firedFor, State.fire, apart]
  have gathered := opened.gathered
  rw [waiting_cons gathers.queue, if_pos own] at gathered
  have count : order.length =
      slot.received.length + 1 + ((s.fire b.key slot r rest).waiting b).length := by
    rw [← tracks.length_results, ← gathered, List.length_append, List.length_cons]
    omega
  have upper := tracks.length_le
  have drained : (s.fire b.key slot r rest).waiting b = [] :=
    List.eq_nil_of_length_eq_zero (by omega)
  rw [drained] at gathered
  refine sound.gathers gathers found own (fun x mem => ?_)
    ⟨order, tracks.nodup, tracks.mem, tracks.inOrder, .inr ⟨fun k' held there => ?_, drained,
      fun j mem => ?_, ?_⟩⟩
  · obtain old | new := List.mem_append.mp mem
    · exact sound.below x old
    · rw [List.mem_singleton.mp new, opened.batch]
      exact (List.getElem?_eq_some_iff.mp found).1
  · intro same
    by_cases own : k' = b.key
    · subst own
      simp [State.fire] at there
    · rw [gathers.others k' own] at there
      obtain ⟨b', found', key⟩ := sound.slotted k' held there
      rw [same, found] at found'
      cases found'
      exact own key.symm
  · exact ((tracks.mem j).mp (tracks.finished (by omega) mem)).2
  · have unfired : s.fired.filter (·.1 = n) = [] := opened.unfired
    rw [gathers.result, ← gathered]
    simp [firedFor, State.fire, unfired, opened.batch]

theorem Sound.next (sound : s.Sound key ok) : (s.next key).Sound key ok := by
  cases queue : s.queue with
  | nil =>
    have idle : s.next key = s := by simp [State.next, queue]
    rw [idle]
    exact sound
  | cons x rest =>
    obtain ⟨i, r⟩ := x
    have done : s.result i = some r := sound.queued i r (by rw [queue]; exact List.mem_cons_self)
    obtain ⟨n, b, found, own⟩ := sound.exists_batch (lt_of_result done)
    obtain ⟨order, tracks⟩ := sound.tracks n b found
    have keyed := sound.keyed b (List.mem_of_getElem? found) i own r done
    obtain ⟨slot, opened⟩ | closed := tracks.status
    · rw [next_eq queue (by rw [keyed]; exact opened.held), keyed, opened.expected]
      split
      · next filled => exact sound.fire queue found own tracks opened filled
      · next unfilled =>
        have below := opened.unfilled
        exact sound.keep queue found own tracks opened (by omega)
    · have drained := closed.drained
      simp [waiting, queue, own] at drained

end Next

/-! ### What a batch comes to -/

/-- A batch fires at most once, and only when all of its tasks have come to their results; if these
are acceptable, it fires with them in the order of the tasks. -/
theorem Sound.firedFor_cases (sound : s.Sound key ok) (found : s.batches[n]? = some b) :
    s.firedFor n = [] ∨ ∃ results, s.firedFor n = [(n, results)] ∧
      (∀ i ∈ b.numbers, (s.result i).isSome) ∧
      ((∀ r ∈ results, ok r) → results = b.numbers.filterMap s.result) := by
  obtain ⟨order, tracks⟩ := sound.tracks n b found
  obtain ⟨slot, opened⟩ | closed := tracks.status
  · exact .inl opened.unfired
  · refine .inr ⟨_, closed.fired, closed.finished, fun acceptable => ?_⟩
    have all : b.numbers ⊆ order := fun i mem =>
      (tracks.mem i).mpr ⟨mem, closed.finished i mem⟩
    have perm : b.numbers.Subperm order := b.nodup_numbers.subperm all
    have count : order.length = b.count := by
      have lower := perm.length_le
      have upper := tracks.length_le
      simp only [Batch.numbers, List.length_range'] at lower
      omega
    have sorted : order = b.numbers := by
      rw [tracks.inOrder acceptable, count]
      rfl
    rw [sorted]

/-- A batch that has a slot has not fired. -/
theorem Sound.unfired (sound : s.Sound key ok) {k : κ} (held : s.slots k = some slot) :
    s.firedFor slot.batch = [] := by
  obtain ⟨b, found, -⟩ := sound.slotted k slot held
  obtain ⟨order, tracks⟩ := sound.tracks slot.batch b found
  obtain ⟨_, opened⟩ | closed := tracks.status
  · exact opened.unfired
  · exact absurd rfl (closed.released k slot held)

/-- Once all results of a batch have been gathered, no slot is held for it. -/
theorem Sound.released (sound : s.Sound key ok) (found : s.batches[n]? = some b)
    (finished : ∀ i ∈ b.numbers, (s.result i).isSome) (drained : s.waiting b = []) {k : κ}
    (held : s.slots k = some slot) : slot.batch ≠ n := by
  obtain ⟨order, tracks⟩ := sound.tracks n b found
  obtain ⟨_, opened⟩ | closed := tracks.status
  · have unfilled := opened.unfilled
    have all : b.numbers ⊆ order := fun i mem => (tracks.mem i).mpr ⟨mem, finished i mem⟩
    have subperm : b.numbers.Subperm order := b.nodup_numbers.subperm all
    have lower := subperm.length_le
    have gathered := congrArg List.length opened.gathered
    rw [drained, List.append_nil, tracks.length_results] at gathered
    simp only [Batch.numbers, List.length_range'] at lower
    omega
  · exact closed.released k slot held

end State

end Gather
