import LanMouse.Capture.FanOut

/-!
# The barriers of the backend

`create` makes a barrier in the backend with the first handle of a key, and `destroy` removes it
with the last one. Both change the maps of the capture before they call the backend, and leave them
so when the backend fails.

The maps agree with each other after any calls. They agree with the barriers of the backend as well,
because the backend, too, has recorded or removed the key when it fails.
-/
namespace LanMouse.Capture

open Transition

/-- What can be called on an `InputCapture`. -/
inductive Call where
  | operate (op : Operation)
  | release
  | startCapture (key : BarrierKey)
  | cancelPending (key : BarrierKey)
  | takePressedKeys
  | terminate

namespace InputCapture

def call (c : InputCapture) : Call → Except Panic InputCapture
  | .operate op => c.operate op
  | .release => .ok c.release
  | .takePressedKeys => .ok c.takePressedKeys.2
  -- these are only passed on to the backend
  | .startCapture _ | .cancelPending _ | .terminate => .ok c

/-- A panic ends a run. -/
def callNext (s : Except Panic InputCapture) (e : Call) : Except Panic InputCapture :=
  s >>= fun c => c.call e

/-- The maps agree with each other and with the barriers of the backend. -/
structure Consistent (c : InputCapture) : Prop where
  once : ∀ id key, c.idMap.lookup id = some key ↔
    ∃ ids, c.positionMap.lookup key = some ids ∧ ids.count id = 1
  nonempty : ∀ key ids, c.positionMap.lookup key = some ids → ids ≠ []
  barriers : ∀ key, key ∈ c.barriers ↔ key ∈ c.positionMap

/-! ### The maps -/

/-- The maps agree with each other. -/
structure Filed (c : InputCapture) : Prop where
  own : ∀ id key, c.idMap.lookup id = some key ↔ id ∈ c.subscribers key
  nodup : ∀ key, (c.subscribers key).Nodup
  used : ∀ key, key ∈ c.positionMap ↔ c.subscribers key ≠ []

variable {c d : InputCapture} {id : CaptureHandle} {key : BarrierKey}

theorem filed_new : new.Filed := by
  refine ⟨fun id key => ?_, fun key => List.nodup_nil, fun key => ?_⟩
  · simp [new, subscribers]
  · simp [new, subscribers]

theorem Filed.congr (filed : c.Filed) (same : SameHandles c d) : d.Filed := by
  obtain ⟨idMap, positionMap⟩ := same
  have subs : ∀ key, d.subscribers key = c.subscribers key := by
    intro key
    rw [subscribers, positionMap]
    rfl
  refine ⟨fun id key => ?_, fun key => ?_, fun key => ?_⟩
  · rw [idMap, subs]
    exact filed.own id key
  · rw [subs]
    exact filed.nodup key
  · rw [positionMap, subs]
    exact filed.used key

theorem subscribers_of_lookup {ids : List CaptureHandle}
    (present : c.positionMap.lookup key = some ids) : c.subscribers key = ids := by
  rw [subscribers, present]
  rfl

theorem Filed.owned (filed : c.Filed) : c.Owned := by
  intro key ids present id mem
  rw [filed.own, subscribers_of_lookup present]
  exact mem

theorem Filed.create (filed : c.Filed) {created ok : Bool}
    (done : c.create id key created = .ok (d, ok)) : d.Filed := by
  obtain ⟨fresh, idMap, positionMap, -⟩ := create_eq_ok done
  have absent : ∀ k, id ∉ c.subscribers k := by
    intro k mem
    rw [← filed.own, AList.lookup_eq_none.mpr fresh] at mem
    cases mem
  refine ⟨fun j k => ?_, fun k => ?_, fun k => ?_⟩
  · rw [idMap, subscribers_create done]
    by_cases same : j = id
    · subst same
      rw [AList.lookup_insert, Option.some_inj]
      split_ifs with at_
      · simp [at_]
      · simp [at_, absent k]
    · rw [AList.lookup_insert_ne same, filed.own]
      split_ifs with at_
      · simp [same]
      · rfl
  · exact filed.owned.nodup_create (filed.nodup k) done
  · rw [positionMap, AList.mem_insert, filed.used, subscribers_create done]
    split_ifs with at_
    · simp [at_]
    · simp [Ne.symm at_]

theorem Filed.destroy (filed : c.Filed) {destroyed ok : Bool}
    (done : c.destroy id destroyed = .ok (d, ok)) : d.Filed := by
  have subs := subscribers_destroy filed.owned done
  obtain ⟨key, ids, known, present, idMap, positionMap, -⟩ := destroy_eq_ok done
  refine ⟨fun j k => ?_, fun k => ?_, fun k => ?_⟩
  · rw [idMap, subs]
    by_cases same : j = id
    · subst same
      simp
    · rw [AList.lookup_erase_ne same, filed.own]
      simp [same]
  · rw [subs]
    exact (filed.nodup k).filter _
  -- the key leaves the map with its last handle, and no other key changes
  · rw [positionMap]
    by_cases at_ : k = key
    · subst at_
      rw [subs, subscribers_of_lookup present]
      split_ifs with last
      · exact iff_of_false (fun mem => (AList.mem_erase.mp mem).1 rfl) (fun some_ => some_ last)
      · exact iff_of_true ((AList.mem_insert _).mpr (.inl rfl)) last
    · have others : d.subscribers k = c.subscribers k := by
        rw [subscribers, positionMap]
        split_ifs
        · rw [AList.lookup_erase_ne at_]
          rfl
        · rw [AList.lookup_insert_ne at_]
          rfl
      rw [others, ← filed.used]
      split_ifs
      · simp [AList.mem_erase, at_]
      · simp [AList.mem_insert, at_]

theorem Filed.call (filed : c.Filed) {e : Call} (done : c.call e = .ok d) : d.Filed := by
  cases e with
  | operate op =>
    cases op with
    | create id key created =>
      obtain ⟨ok, done⟩ := map_fst_ok done
      exact filed.create done
    | destroy id destroyed =>
      obtain ⟨ok, done⟩ := map_fst_ok done
      exact filed.destroy done
    | poll backend =>
      cases done
      exact filed.congr (sameHandles_pollNext c backend)
  | release | takePressedKeys | startCapture | cancelPending | terminate =>
    cases done
    exact filed.congr ⟨rfl, rfl⟩

/-! ### The barriers -/

/-- The backend holds the barriers of the keys in use. -/
def Barred (c : InputCapture) : Prop := ∀ key, key ∈ c.barriers ↔ key ∈ c.positionMap

theorem Filed.consistent (filed : c.Filed) (barred : c.Barred) : c.Consistent := by
  refine ⟨fun id key => ?_, fun key ids present => ?_, barred⟩
  · have nodup := filed.nodup key
    rw [filed.own]
    cases present : c.positionMap.lookup key with
    | none => simp [subscribers, present]
    | some ids =>
      rw [subscribers_of_lookup present] at nodup ⊢
      simp [nodup.count]
  · rw [← subscribers_of_lookup present, ← filed.used, ← AList.lookup_isSome, present]
    rfl

theorem barriers_create {created ok : Bool} (done : c.create id key created = .ok (d, ok)) :
    d.barriers = if key ∈ c.positionMap then c.barriers else addClient c.barriers key := by
  unfold create at done
  rw [if_neg (create_eq_ok done).1] at done
  dsimp only at done
  cases present : c.positionMap.lookup key with
  | none =>
    rw [present] at done
    cases done
    rw [if_neg (AList.lookup_eq_none.mp present)]
  | some ids =>
    rw [present] at done
    cases done
    rw [if_pos (AList.lookup_isSome.mp (present ▸ rfl))]

theorem barriers_destroy {ids : List CaptureHandle} (known : c.idMap.lookup id = some key)
    (present : c.positionMap.lookup key = some ids) {destroyed ok : Bool}
    (done : c.destroy id destroyed = .ok (d, ok)) :
    d.barriers =
      if ids.filter (· ≠ id) = [] then deleteClient c.barriers key else c.barriers := by
  unfold destroy at done
  simp only [known, present] at done
  by_cases last : ids.filter (· ≠ id) = []
  · rw [if_pos last] at done ⊢
    cases done
    rfl
  · rw [if_neg last] at done ⊢
    cases done
    rfl

/-- The first handle of a key brings its barrier, whatever the backend answers. -/
theorem Barred.create (barred : c.Barred) {created ok : Bool}
    (done : c.create id key created = .ok (d, ok)) : d.Barred := by
  obtain ⟨-, -, positionMap, -⟩ := create_eq_ok done
  intro k
  rw [barriers_create done, positionMap, AList.mem_insert]
  split_ifs with present
  · rw [barred]
    exact (or_iff_right_of_imp (· ▸ present)).symm
  · rw [addClient, List.mem_insert_iff, barred]

/-- The last handle of a key takes its barrier away, whatever the backend answers. -/
theorem Barred.destroy (barred : c.Barred) {destroyed ok : Bool}
    (done : c.destroy id destroyed = .ok (d, ok)) : d.Barred := by
  obtain ⟨key, ids, known, present, -, positionMap, -⟩ := destroy_eq_ok done
  have used : key ∈ c.positionMap := AList.lookup_isSome.mp (present ▸ rfl)
  intro k
  rw [barriers_destroy known present done, positionMap]
  split_ifs with last
  · simp [deleteClient, AList.mem_erase, barred k, and_comm]
  · rw [barred, AList.mem_insert]
    exact (or_iff_right_of_imp (· ▸ used)).symm

theorem barriers_pollNext (c : InputCapture) (backend : Polled (BarrierKey × CaptureEvent)) :
    (c.pollNext backend).2.barriers = c.barriers := by
  unfold pollNext
  split
  · rfl
  · split
    · rfl
    · rfl
    · rfl
    · rename_i key event
      have track : (c.trackKeys event).barriers = c.barriers := by rw [trackKeys_eq]
      dsimp only
      split
      · exact track
      · exact track

theorem Barred.call (barred : c.Barred) {e : Call} (done : c.call e = .ok d) : d.Barred := by
  cases e with
  | operate op =>
    cases op with
    | create id key created =>
      obtain ⟨ok, done⟩ := map_fst_ok done
      exact barred.create done
    | destroy id destroyed =>
      obtain ⟨ok, done⟩ := map_fst_ok done
      exact barred.destroy done
    | poll backend =>
      cases done
      intro key
      rw [barriers_pollNext, (sameHandles_pollNext c backend).2]
      exact barred key
  | release | takePressedKeys | startCapture | cancelPending | terminate =>
    cases done
    exact barred

/-- In every state of every run, whatever the backend answers to each call, the maps agree with each
other and the backend holds the barriers of the keys in use. -/
theorem always_consistent (calls : List Call) :
    Always callNext (fun s => ∀ c, s = .ok c → c.Consistent) (.ok new) calls := by
  refine always_of_inv (fun s => ∀ c, s = .ok c → c.Filed ∧ c.Barred) ?_ ?_ ?_ calls
  · intro s e inv d done
    cases s with
    | error p => cases done
    | ok c =>
      obtain ⟨filed, barred⟩ := inv c rfl
      exact ⟨filed.call done, barred.call done⟩
  · intro s inv c here
    obtain ⟨filed, barred⟩ := inv c here
    exact filed.consistent barred
  · rintro c ⟨⟩
    exact ⟨filed_new, by simp [Barred, new]⟩

/-- A `create` and a `destroy` that the backend fails, of handles that share a key. -/
example :
    let key : BarrierKey := ⟨.left, none, 0, 10000⟩
    ((run callNext (.ok new) [.operate (.create 0 key false), .operate (.create 1 key true),
      .operate (.destroy 0 false)]).toOption.map (·.barriers)) = some [key] := by
  decide

end InputCapture

end LanMouse.Capture
