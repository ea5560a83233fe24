import LanMouse.Capture.Destroyed
import LanMouse.Capture.Waker
import LanMouse.Lib.Transition
import Mathlib.Data.List.Induction

/-!
# Fan-out to the subscribers

An event of the backend is meant for every handle that has subscribed to its barrier. The stream of
the capture hands it to the first of them and queues it for the others, so an event is spread over
as many polls as it has subscribers.

What has been delivered, what is queued and what the subscribers are owed from the backend's events
make up one list that a poll does not change. As long as no handle is created or destroyed, polling
often enough turns it into the deliveries.
-/
namespace LanMouse.Capture

open Transition

/-- The handles that calls have subscribed to a barrier, in the order of their creation. -/
def subscriptions (key : BarrierKey) (ops : List Operation) : List CaptureHandle :=
  ops.foldl (fun ids op =>
    match op with
    | .create id k _ => if k = key then ids ++ [id] else ids
    | .destroy id _ => ids.filter (· ≠ id)
    | .poll _ => ids) []

/-- What the subscribers are to get of an item of the backend. -/
def fanOut (subscribers : BarrierKey → List CaptureHandle) :
    BackendItem → List (CaptureHandle × CaptureEvent)
  | .ok (key, event) => (subscribers key).map fun id => (id, event)
  | .error _ => []

def Polled.items {α : Type} : Polled α → List α
  | .item a => [a]
  | _ => []

/-- A capture that is polled, with its backend and what it has delivered. -/
structure Tap where
  capture : InputCapture
  backend : Backend
  delivered : List (CaptureHandle × CaptureEvent) := []

/-- What happens between a `create` or `destroy` and the next. -/
inductive TapEvent where
  | arrives (item : BackendItem)
  | closes
  | polls
  | releases
  | takesKeys

namespace Tap

def step (t : Tap) : TapEvent → Tap
  | .arrives item => { t with backend := t.backend.push item }
  | .closes => { t with backend := { t.backend with closed := true } }
  | .polls =>
    let (result, capture, backend) := t.capture.pollBackend t.backend
    ⟨capture, backend, t.delivered ++ result.items⟩
  | .releases => { t with capture := t.capture.release }
  | .takesKeys => { t with capture := t.capture.takePressedKeys.2 }

end Tap

def arrivals (events : List TapEvent) : List BackendItem :=
  events.filterMap fun
    | .arrives item => some item
    | _ => none

namespace InputCapture

/-! ### The order of the subscriptions -/

theorem Owned.not_mem_subscribers {c : InputCapture} (owned : c.Owned) {id : CaptureHandle}
    {key : BarrierKey} (elsewhere : c.idMap.lookup id ≠ some key) : id ∉ c.subscribers key := by
  intro mem
  cases present : c.positionMap.lookup key with
  | none => simp [subscribers, present] at mem
  | some ids =>
    rw [subscribers, present] at mem
    exact elsewhere (owned key ids present id mem)

theorem subscribers_create {c d : InputCapture} {id : CaptureHandle} {key : BarrierKey}
    {created ok : Bool} (done : c.create id key created = .ok (d, ok)) (k : BarrierKey) :
    d.subscribers k = if key = k then c.subscribers k ++ [id] else c.subscribers k := by
  obtain ⟨-, -, positionMap, -⟩ := create_eq_ok done
  rw [subscribers, positionMap]
  split_ifs with same
  · subst same
    rw [AList.lookup_insert]
    rfl
  · rw [AList.lookup_insert_ne (Ne.symm same)]
    rfl

theorem Owned.nodup_create {c d : InputCapture} (owned : c.Owned) {id : CaptureHandle}
    {key k : BarrierKey} (nodup : (c.subscribers k).Nodup) {created ok : Bool}
    (done : c.create id key created = .ok (d, ok)) : (d.subscribers k).Nodup := by
  obtain ⟨fresh, -⟩ := create_eq_ok done
  have new : id ∉ c.subscribers k := by
    apply owned.not_mem_subscribers
    rw [AList.lookup_eq_none.mpr fresh]
    exact nofun
  rw [subscribers_create done]
  split_ifs
  · rw [← List.concat_eq_append]
    exact nodup.concat new
  · exact nodup

theorem subscribers_destroy {c d : InputCapture} (owned : c.Owned) {id : CaptureHandle}
    {destroyed ok : Bool} (done : c.destroy id destroyed = .ok (d, ok)) (k : BarrierKey) :
    d.subscribers k = (c.subscribers k).filter (· ≠ id) := by
  obtain ⟨key, ids, known, present, -, positionMap, -⟩ := destroy_eq_ok done
  rw [subscribers, positionMap]
  by_cases same : k = key
  · subst same
    rw [subscribers, present]
    split_ifs with last
    · rw [AList.lookup_erase, Option.getD_some, last]
      rfl
    · rw [AList.lookup_insert]
      rfl
  · have kept : (c.subscribers k).filter (· ≠ id) = c.subscribers k := by
      refine List.filter_eq_self.mpr fun j mem => decide_eq_true ?_
      rintro rfl
      refine owned.not_mem_subscribers ?_ mem
      rw [known, ne_eq, Option.some_inj]
      exact Ne.symm same
    rw [kept]
    split_ifs with last
    · rw [AList.lookup_erase_ne same]
      rfl
    · rw [AList.lookup_insert_ne same]
      rfl

theorem subscribers_pollNext (c : InputCapture) (backend : Polled (BarrierKey × CaptureEvent))
    (key : BarrierKey) : (c.pollNext backend).2.subscribers key = c.subscribers key := by
  rw [subscribers, (c.sameHandles_pollNext backend).2]
  rfl

theorem operateAll_snoc {c d : InputCapture} {ops : List Operation} {op : Operation}
    (done : c.operateAll (ops ++ [op]) = .ok d) :
    ∃ e, c.operateAll ops = .ok e ∧ e.operate op = .ok d := by
  rw [operateAll, List.foldlM_append] at done
  cases first : ops.foldlM operate c with
  | error p => simp [first, bind, Except.bind] at done
  | ok e =>
    rw [first] at done
    change (e.operate op >>= pure) = .ok d at done
    rw [bind_pure] at done
    exact ⟨e, first, done⟩

/-- The subscribers of a barrier stand in the order of their creation, each of them once. -/
theorem subscribers_operateAll {c : InputCapture} {ops : List Operation}
    (reached : new.operateAll ops = .ok c) (key : BarrierKey) :
    c.subscribers key = subscriptions key ops ∧ (c.subscribers key).Nodup := by
  induction ops using List.reverseRecOn generalizing c with
  | nil =>
    cases reached
    exact ⟨rfl, List.nodup_nil⟩
  | append_singleton ops op ih =>
    obtain ⟨e, before, done⟩ := operateAll_snoc reached
    obtain ⟨same, nodup⟩ := ih before
    have owned : e.Owned := owned_new.operateAll before
    rw [subscriptions, List.foldl_append, ← subscriptions, ← same]
    cases op with
    | create id k created =>
      obtain ⟨ok, done⟩ := map_fst_ok done
      exact ⟨subscribers_create done key, owned.nodup_create nodup done⟩
    | destroy id destroyed =>
      obtain ⟨ok, done⟩ := map_fst_ok done
      rw [subscribers_destroy owned done]
      exact ⟨rfl, nodup.filter _⟩
    | poll backend =>
      cases done
      rw [subscribers_pollNext]
      exact ⟨rfl, nodup⟩

/-! ### One poll -/

/-- An event goes to the first subscriber at once and to the others through the queue. -/
theorem items_pollNext {c : InputCapture} (queue : c.pending = []) (key : BarrierKey)
    (event : CaptureEvent) :
    (c.pollNext (.item (key, event))).1.items =
      (fanOut c.subscribers (.ok (key, event))).take 1 ∧
    (c.pollNext (.item (key, event))).2.pending =
      (fanOut c.subscribers (.ok (key, event))).drop 1 := by
  have drained : (c.trackKeys event).pending = [] := by rw [trackKeys_eq, queue]
  rw [fanOut, ← subscribers_trackKeys c event, subscribers, pollNext, queue]
  dsimp only
  cases ((c.trackKeys event).positionMap.lookup key).getD [] with
  | nil => simp [Polled.items, drained]
  | cons first rest => simp [Polled.items, drained]

/-- What a poll does: it hands out a queued event, it takes an item of the backend, or there was
neither. -/
theorem pollBackend_takes (c : InputCapture) (backend : Backend) :
    (∃ e rest, c.pending = e :: rest ∧ (c.pollBackend backend).1.items = [e] ∧
      (c.pollBackend backend).2.1.pending = rest ∧ (c.pollBackend backend).2.2 = backend) ∨
    (∃ item rest, c.pending = [] ∧ backend.ready = item :: rest ∧
      (c.pollBackend backend).1.items = (fanOut c.subscribers item).take 1 ∧
      (c.pollBackend backend).2.1.pending = (fanOut c.subscribers item).drop 1 ∧
      (c.pollBackend backend).2.2.ready = rest) ∨
    (c.pending = [] ∧ backend.ready = [] ∧ (c.pollBackend backend).1.items = [] ∧
      (c.pollBackend backend).2.1.pending = [] ∧ (c.pollBackend backend).2.2.ready = []) := by
  cases queue : c.pending with
  | cons e rest =>
    refine .inl ⟨e, rest, rfl, ?_, ?_, ?_⟩
    · rw [pollBackend_of_queue queue]
      rfl
    · rw [pollBackend, queue, pollNext, queue]
    · rw [pollBackend, queue]
  | nil =>
    rw [pollBackend_of_empty queue, backend.ready_poll]
    obtain ⟨empty, answer⟩ | ⟨empty, answer, -⟩ | ⟨item, rest, ready, answer, -⟩ :=
      backend.poll_cases
    · refine .inr (.inr ⟨rfl, empty, ?_⟩)
      rw [answer, empty, Polled.ofStream, pollNext, queue]
      exact ⟨rfl, queue, rfl⟩
    · refine .inr (.inr ⟨rfl, empty, ?_⟩)
      rw [answer, empty, Polled.ofStream, pollNext, queue]
      exact ⟨rfl, queue, rfl⟩
    · rw [ready, List.tail_cons, answer]
      refine .inr (.inl ⟨item, rest, rfl, rfl, ?_⟩)
      cases item with
      | ok e =>
        obtain ⟨items, pending⟩ := items_pollNext queue e.1 e.2
        exact ⟨items, pending, rfl⟩
      | error e =>
        rw [Polled.ofStream, pollNext, queue]
        exact ⟨rfl, queue, rfl⟩

theorem subscribers_pollBackend (c : InputCapture) (backend : Backend) :
    (c.pollBackend backend).2.1.subscribers = c.subscribers := by
  funext key
  cases queue : c.pending with
  | cons e rest =>
    rw [pollBackend, queue]
    exact c.subscribers_pollNext .pending key
  | nil =>
    rw [pollBackend_of_empty queue]
    exact c.subscribers_pollNext _ key

end InputCapture

/-! ### Runs without `create` and `destroy` -/

namespace Tap

/-- The deliveries, and after them those that are still to come. -/
def account (t : Tap) : List (CaptureHandle × CaptureEvent) :=
  t.delivered ++ t.capture.pending ++ t.backend.ready.flatMap (fanOut t.capture.subscribers)

/-- The number of polls that are needed for what is still to come. -/
def owed (t : Tap) : Nat :=
  t.capture.pending.length +
    (t.backend.ready.map fun item => max 1 (fanOut t.capture.subscribers item).length).sum

theorem subscribers_step (t : Tap) (e : TapEvent) :
    (t.step e).capture.subscribers = t.capture.subscribers := by
  cases e with
  | polls => exact t.capture.subscribers_pollBackend t.backend
  | _ => rfl

/-- A poll moves the front of the account to the deliveries. -/
theorem account_polls (t : Tap) : (t.step .polls).account = t.account := by
  rw [account, subscribers_step]
  obtain ⟨e, rest, queue, items, pending, same⟩ |
    ⟨item, rest, queue, ready, items, pending, left⟩ | ⟨queue, ready, items, pending, left⟩ :=
    t.capture.pollBackend_takes t.backend
  · simp [step, account, queue, items, pending, same]
  · have whole := List.take_append_drop 1 (fanOut t.capture.subscribers item)
    simp only [step, account, queue, ready, items, pending, left, List.flatMap_cons,
      List.append_assoc, List.nil_append]
    rw [← List.append_assoc (List.take 1 _), whole]
  · simp [step, account, queue, ready, items, pending, left]

theorem account_step (t : Tap) (e : TapEvent) :
    (t.step e).account =
      t.account ++ (arrivals [e]).flatMap (fanOut t.capture.subscribers) := by
  cases e with
  | arrives item => simp [step, account, arrivals, Mailbox.push]
  | polls => simp [account_polls, arrivals]
  | _ => exact (List.append_nil _).symm

theorem account_run (t : Tap) (events : List TapEvent) :
    (run step t events).account =
      t.account ++ (arrivals events).flatMap (fanOut t.capture.subscribers) := by
  induction events generalizing t with
  | nil => exact (List.append_nil _).symm
  | cons e events ih =>
    rw [run_cons, ih, account_step, subscribers_step, List.append_assoc, ← List.flatMap_append,
      arrivals, arrivals, ← List.filterMap_append]
    rfl

theorem owed_polls (t : Tap) : (t.step .polls).owed = t.owed - 1 := by
  rw [owed, subscribers_step]
  obtain ⟨e, rest, queue, items, pending, same⟩ |
    ⟨item, rest, queue, ready, items, pending, left⟩ | ⟨queue, ready, items, pending, left⟩ :=
    t.capture.pollBackend_takes t.backend
  · simp [step, owed, queue, pending, same]
  · simp only [step, owed, queue, ready, pending, left, List.length_drop, List.map_cons,
      List.sum_cons, List.length_nil]
    omega
  · simp [step, owed, queue, ready, pending, left]

theorem owed_run_polls (t : Tap) (n : Nat) :
    (run step t (List.replicate n .polls)).owed = t.owed - n := by
  induction n generalizing t with
  | zero => rfl
  | succ n ih =>
    rw [List.replicate_succ, run_cons, ih, owed_polls]
    omega

theorem delivered_of_owed {t : Tap} (settled : t.owed = 0) : t.delivered = t.account := by
  obtain ⟨drained, taken⟩ := Nat.add_eq_zero_iff.mp settled
  have queue : t.capture.pending = [] := List.eq_nil_of_length_eq_zero drained
  cases ready : t.backend.ready with
  | nil => simp [account, queue, ready]
  | cons item rest =>
    rw [ready, List.map_cons, List.sum_cons] at taken
    omega

end Tap

namespace InputCapture

/-- At any time the deliveries are the first of those due, and polling on delivers the rest. -/
theorem delivers_each_once (ops : List Operation) (c : InputCapture)
    (reached : new.operateAll ops = .ok c) (backend : Backend) (events : List TapEvent) :
    let subscribers := fun key => subscriptions key ops
    let due := c.pending ++ (backend.ready ++ arrivals events).flatMap (fanOut subscribers)
    (∀ key, (subscribers key).Nodup) ∧
      (run Tap.step ⟨c, backend, []⟩ events).delivered <+: due ∧
      ∃ n, ∀ m, n ≤ m →
        (run Tap.step ⟨c, backend, []⟩ (events ++ List.replicate m .polls)).delivered = due := by
  intro subscribers due
  have same : c.subscribers = subscribers :=
    funext fun key => (subscribers_operateAll reached key).1
  have account : ∀ more, arrivals more = [] →
      (run Tap.step ⟨c, backend, []⟩ (events ++ more)).account = due := by
    intro more none
    rw [Tap.account_run, arrivals, List.filterMap_append, ← arrivals, ← arrivals, none, same]
    simp [Tap.account, due, same]
  refine ⟨fun key => ?_, ?_, (run Tap.step ⟨c, backend, []⟩ events).owed, fun m enough => ?_⟩
  · rw [← same]
    exact (subscribers_operateAll reached key).2
  · have now := account [] rfl
    rw [List.append_nil, Tap.account, List.append_assoc] at now
    exact ⟨_, now⟩
  · rw [Tap.delivered_of_owed]
    · apply account
      simp [arrivals]
    · rw [run_append, Tap.owed_run_polls]
      omega

/-- The event of the barrier in the middle has no subscriber and is passed over. -/
theorem delivers_each_once_three :
    let left : BarrierKey := ⟨.left, none, 0, 10000⟩
    let top : BarrierKey := ⟨.top, none, 0, 10000⟩
    let ops := [.create 2 left true, .create 1 left true]
    let events := [.arrives (.ok (left, .begin)), .polls, .arrives (.ok (top, .begin)),
      .arrives (.ok (left, .cancelPending))]
    ∃ c, new.operateAll ops = .ok c ∧ ∃ n, ∀ m, n ≤ m →
      (run Tap.step ⟨c, ⟨[], false, false, by simp⟩, []⟩
          (events ++ List.replicate m .polls)).delivered =
        [(2, .begin), (1, .begin), (2, .cancelPending), (1, .cancelPending)] := by
  intro left top ops events
  exact ⟨_, rfl, (delivers_each_once ops _ rfl _ events).2.2⟩

end InputCapture

end LanMouse.Capture
