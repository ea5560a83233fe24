import LanMouse.Capture.InputCapture
import LanMouse.Lib.Mailbox

/-!
# Wake-ups of the input capture

The capture is polled as a stream. When it returns `Pending` its task sleeps until the backend wakes
it, and the backend does so only if its last poll was pending as well.

An event for a barrier without subscribers is dropped, and the capture returns `Pending` although
the backend was ready. Events that wait behind the dropped one are not delivered until something
else polls the capture, and no event that arrives meanwhile wakes the task.
-/
namespace LanMouse.Capture

/-- What a backend hands out: an event with the barrier it belongs to, or an error. -/
abbrev BackendItem := Except Unit (BarrierKey × CaptureEvent)

abbrev Backend := Mailbox BackendItem

def Polled.ofStream {α : Type} : Option (Option (Except Unit α)) → Polled α
  | none => .pending
  | some none => .ended
  | some (some (.error _)) => .failed
  | some (some (.ok a)) => .item a

namespace InputCapture

def subscribers (c : InputCapture) (key : BarrierKey) : List CaptureHandle :=
  (c.positionMap.lookup key).getD []

/-- An event of a barrier that someone has subscribed to. -/
def delivers (c : InputCapture) : BackendItem → Bool
  | .ok (key, _) => c.subscribers key ≠ []
  | .error _ => false

/-- `pollNext` with the backend it polls. -/
def pollBackend (c : InputCapture) (backend : Backend) :
    Polled (CaptureHandle × CaptureEvent) × InputCapture × Backend :=
  match c.pending with
  | _ :: _ =>
    let (result, c) := c.pollNext .pending
    (result, c, backend)
  | [] =>
    let (answer, backend) := backend.poll
    let (result, c) := c.pollNext (.ofStream answer)
    (result, c, backend)

/-- The next poll drops an event that nobody has subscribed to. -/
def drops (c : InputCapture) (backend : Backend) : Bool :=
  match c.pending, backend.ready with
  | [], .ok (key, _) :: _ => c.subscribers key = []
  | _, _ => false

/-- The next poll drops an event in front of one that can be delivered. -/
def skips (c : InputCapture) (backend : Backend) : Bool :=
  c.drops backend && backend.ready.tail.any c.delivers

theorem subscribers_trackKeys (c : InputCapture) (event : CaptureEvent) (key : BarrierKey) :
    (c.trackKeys event).subscribers key = c.subscribers key := by
  rw [trackKeys_eq]
  rfl

theorem delivers_pollNext (c : InputCapture) (polled : Polled (BarrierKey × CaptureEvent))
    (item : BackendItem) : (c.pollNext polled).2.delivers item = c.delivers item := by
  cases item with
  | error e => rfl
  | ok e => rw [delivers, delivers, subscribers, subscribers, (c.sameHandles_pollNext polled).2]

/-- An event is dropped exactly when nobody has subscribed to its barrier. -/
theorem pollNext_item_pending_iff {c : InputCapture} (queue : c.pending = []) (key : BarrierKey)
    (event : CaptureEvent) :
    (c.pollNext (.item (key, event))).1 = .pending ↔ c.subscribers key = [] := by
  rw [← subscribers_trackKeys c event, subscribers, pollNext, queue]
  dsimp only
  split <;> simp [*]

theorem pollBackend_of_queue {c : InputCapture} {e : CaptureHandle × CaptureEvent}
    {rest : List (CaptureHandle × CaptureEvent)} (queue : c.pending = e :: rest)
    (backend : Backend) : (c.pollBackend backend).1 = .item e := by
  rw [pollBackend, queue, pollNext, queue]

theorem pollBackend_of_empty {c : InputCapture} (queue : c.pending = []) (backend : Backend) :
    c.pollBackend backend =
      ((c.pollNext (.ofStream backend.poll.1)).1, (c.pollNext (.ofStream backend.poll.1)).2,
        backend.poll.2) := by
  rw [pollBackend, queue]

theorem drops_of_ok {c : InputCapture} (queue : c.pending = []) {backend : Backend}
    {key : BarrierKey} {event : CaptureEvent} {rest : List BackendItem}
    (ready : backend.ready = .ok (key, event) :: rest) :
    c.drops backend = decide (c.subscribers key = []) := by
  rw [drops, queue, ready]

/-- What a poll does: it drops an event, it leaves the waker with a backend that has nothing, or it
is not pending. -/
theorem pollBackend_cases (c : InputCapture) (backend : Backend) :
    (c.drops backend = true ∧ (c.pollBackend backend).1 = .pending ∧
      (c.pollBackend backend).2.2.ready = backend.ready.tail ∧
      (c.pollBackend backend).2.2.waker = false) ∨
    (c.drops backend = false ∧ (c.pollBackend backend).1 = .pending ∧
      (c.pollBackend backend).2.2.ready = [] ∧ (c.pollBackend backend).2.2.waker = true) ∨
    (c.drops backend = false ∧ (c.pollBackend backend).1 ≠ .pending) := by
  cases queue : c.pending with
  | cons e rest =>
    refine .inr (.inr ⟨by rw [drops, queue], ?_⟩)
    rw [pollBackend_of_queue queue]
    nofun
  | nil =>
    rw [pollBackend_of_empty queue]
    obtain ⟨empty, answer⟩ | ⟨empty, answer, left, waker⟩ |
      ⟨item, rest, ready, answer, left, waker⟩ := backend.poll_cases
    · refine .inr (.inr ⟨by rw [drops, queue, empty], ?_⟩)
      rw [answer, Polled.ofStream, pollNext, queue]
      nofun
    · refine .inr (.inl ⟨by rw [drops, queue, empty], ?_, left, waker⟩)
      rw [answer, Polled.ofStream, pollNext, queue]
    · cases item with
      | error e =>
        refine .inr (.inr ⟨by rw [drops, queue, ready], ?_⟩)
        rw [answer, Polled.ofStream, pollNext, queue]
        nofun
      | ok item =>
        obtain ⟨key, event⟩ := item
        have dropped := pollNext_item_pending_iff queue key event
        rw [drops_of_ok queue ready, answer, Polled.ofStream, ready]
        by_cases unsubscribed : c.subscribers key = []
        · exact .inl ⟨decide_eq_true unsubscribed, dropped.mpr unsubscribed, left, waker⟩
        · exact .inr (.inr ⟨decide_eq_false unsubscribed, mt dropped.mp unsubscribed⟩)

theorem delivers_pollBackend (c : InputCapture) (backend : Backend) (item : BackendItem) :
    (c.pollBackend backend).2.1.delivers item = c.delivers item := by
  cases queue : c.pending with
  | cons e rest =>
    rw [pollBackend, queue]
    exact c.delivers_pollNext .pending item
  | nil =>
    rw [pollBackend_of_empty queue]
    exact c.delivers_pollNext _ item

theorem skips_eq_false_iff {c : InputCapture} {backend : Backend} (drops : c.drops backend = true) :
    c.skips backend = false ↔ ∀ item ∈ backend.ready.tail, c.delivers item = false := by
  simp [skips, drops]

/-- A poll that returns `Pending` leaves no event that could be delivered, and none that waits
without a registered waker, unless it drops an event in front of it. -/
theorem pending_leaves_none_iff (c : InputCapture) (backend : Backend) :
    let (result, after, rest) := c.pollBackend backend
    ((result = .pending → ∀ item ∈ rest.ready, after.delivers item = false) ↔
      c.skips backend = false) ∧
    ((result = .pending → ∀ item ∈ rest.ready, after.delivers item = true → rest.waker = true) ↔
      c.skips backend = false) := by
  dsimp only
  simp only [delivers_pollBackend]
  obtain ⟨drops, pending, left, waker⟩ | ⟨keeps, pending, left, waker⟩ | ⟨keeps, ready⟩ :=
    c.pollBackend_cases backend
  · simp [skips_eq_false_iff drops, pending, left, waker]
  · simp [skips, keeps, pending, left]
  · simp [skips, keeps, ready]

/-- The barrier on the left has no subscriber, and its event keeps the one on the right waiting. -/
theorem deliverable_left_behind :
    let left : BarrierKey := ⟨.left, none, 0, 10000⟩
    let right : BarrierKey := ⟨.right, none, 0, 10000⟩
    let backend : Backend := { ready := [.ok (left, .beginPending), .ok (right, .beginPending)] }
    ∃ c, new.create 1 right true = .ok (c, true) ∧
      (c.pollBackend backend).1 = .pending ∧
      (c.pollBackend backend).2.2.ready = [.ok (right, .beginPending)] ∧
      (c.pollBackend backend).2.1.delivers (.ok (right, .beginPending)) = true ∧
      (c.pollBackend backend).2.2.waker = false :=
  ⟨_, rfl, by decide, rfl, by decide, rfl⟩

end InputCapture

end LanMouse.Capture
