import LanMouse.Capture.Consistency

/-!
# The cursor and the capture state

When the task calls the backend's `release`, the cursor goes back to this machine. From then on the
task has to be idle, until it handles the next `Begin` or `BeginPending`.

`release_capture` resets the state before it releases the backend. The other places that release the
backend do not: the two sends that can fail, and the events of a handle for incoming connections.
And an idle task that still has an active client starts to send when that client acknowledges
something.
-/
namespace LanMouse.Capture

open Proto Transition

/-- A task, and whether the backend has given the cursor back and no hand-over has begun since. -/
structure Cursor where
  running : Running
  givenBack : Bool := false

/-- The event of the session's stream that an input brings. -/
def Session.taken? (s : Session) (i : Input) : Option (CaptureHandle × CaptureEvent) :=
  match i.event with
  | .capture polled =>
    match (s.capture.pollNext polled).1 with
    | .item e => some e
    | _ => none
  | _ => none

/-- A `Begin` or `BeginPending` is handled. -/
def Running.begins (r : Running) (i : Input) : Bool :=
  match r with
  | .session s => (s.taken? i).any fun e => e.2 = .begin ∨ e.2 = .beginPending
  | _ => false

/-- How often the task has called the backend's `release`. -/
def CaptureTask.releases (t : CaptureTask) : Nat := t.effects.count .release

def Running.releases (r : Running) : Nat := (r.task?.map (·.releases)).getD 0

/-- The task calls the backend's `release`. -/
def Running.issues (r : Running) (i : Input) : Bool := r.releases < (Capture.step r i).releases

namespace Cursor

def step (c : Cursor) (i : Input) : Cursor where
  running := Capture.step c.running i
  givenBack := c.running.issues i || (c.givenBack && !c.running.begins i)

/-- A task whose backend has given the cursor back is idle. -/
def Respected (c : Cursor) : Prop :=
  c.givenBack = true → ∀ t ∈ c.running.task?, t.state = .idle

end Cursor

namespace Session

/-- An event of a handle for which the backend is released while the task is not idle. -/
def straysOnEvent (s : Session) (handle : CaptureHandle) (event : CaptureEvent) (a : Answers) :
    Bool :=
  if s.capture.keysPressed s.releaseBind then false
  else
    match s.getCapture handle, event with
    | some (key, .enterOnly), _ => !s.isDefaultCaptureAt key && s.state ≠ .idle
    | some (_, .default), .begin => !s.promotes handle && !a.sent
    | some (_, .default), .input _ => s.state = .sending && !a.sent
    | _, _ => false

/-- The backend is released while the task is not idle. -/
def strays (s : Session) (i : Input) : Bool :=
  match i.event with
  | .capture polled =>
    match s.capture.pollNext polled with
    | (.item (handle, event), capture) =>
      ({ s with capture := capture }).straysOnEvent handle event i.answers
    | _ => false
  | _ => false

/-- An idle task with an active client hears an acknowledgement. -/
def wakes (s : Session) (i : Input) : Bool :=
  match i.event with
  | .recv handle (.ack _) => s.hears handle && s.state = .idle && s.activeClient.isSome
  | _ => false

end Session

/-- The backend is not released by a task that stays in its state, and no acknowledgement is heard
from a client that is still active after the cursor was given back. -/
def Cursor.Minds (c : Cursor) (i : Input) : Prop :=
  match c.running with
  | .session s => s.strays i = false ∧ (c.givenBack = true → s.wakes i = false)
  | _ => True

/-! ### What the handlers do to the state and the backend -/

namespace Turn

/-- The state after a turn and how often the backend has been released. -/
def cursor? : Turn → Option (State × Nat)
  | .next s => some (s.state, s.releases)
  | .stop s => some (s.state, s.releases)
  | .panic _ => none

/-- The task has become idle, or it has neither released the backend nor changed its state. -/
def Calm (s : Session) (turn : Turn) : Prop :=
  ∀ x ∈ turn.cursor?, x.1 = .idle ∨ x = (s.state, s.releases)

def Unreleased (s : Session) (turn : Turn) : Prop := ∀ x ∈ turn.cursor?, x.2 = s.releases

/-- The backend was released by a task that is not idle afterwards. -/
def Strayed (s : Session) (turn : Turn) : Prop :=
  ∃ x ∈ turn.cursor?, s.releases < x.2 ∧ x.1 ≠ .idle

theorem cursor?_ofResult (s : Session) (result : Bool) :
    (Turn.ofResult (s, result)).cursor? = some (s.state, s.releases) := by
  cases result <;> rfl

theorem cursor?_running (turn : Turn) :
    turn.running.task?.map (fun t => (t.state, t.releases)) = turn.cursor? := by
  cases turn with
  | next s => rfl
  | stop s => simp [running, Running.task?, cursor?, CaptureTask.emit, CaptureTask.releases]
  | panic p => rfl

theorem calm_of_cursor {s s' : Session} {turn : Turn}
    (after : turn.cursor? = some (s'.state, s'.releases))
    (calm : s'.state = .idle ∨ (s'.state = s.state ∧ s'.releases = s.releases)) :
    turn.Calm s := by
  intro x mem
  obtain rfl := Option.mem_some_iff.mp (after ▸ mem)
  exact calm.imp_right fun ⟨state, releases⟩ => by rw [state, releases]

theorem calm_next {s s' : Session}
    (calm : s'.state = .idle ∨ (s'.state = s.state ∧ s'.releases = s.releases)) :
    (Turn.next s').Calm s :=
  calm_of_cursor rfl calm

theorem calm_ofResult {s s' : Session}
    (calm : s'.state = .idle ∨ (s'.state = s.state ∧ s'.releases = s.releases)) (result : Bool) :
    (Turn.ofResult (s', result)).Calm s :=
  calm_of_cursor (cursor?_ofResult s' result) calm

theorem Strayed.congr {s s' : Session} {turn : Turn} (strayed : turn.Strayed s')
    (same : s'.releases = s.releases) : turn.Strayed s := by
  rwa [Strayed, ← same]

theorem Unreleased.congr {s s' : Session} {turn : Turn} (unreleased : turn.Unreleased s')
    (same : s'.releases = s.releases) : turn.Unreleased s := by
  rwa [Unreleased, ← same]

theorem strayed_ofResult {s s' : Session} (more : s.releases < s'.releases)
    (busy : s'.state ≠ .idle) (result : Bool) : (Turn.ofResult (s', result)).Strayed s :=
  ⟨_, cursor?_ofResult s' result, more, busy⟩

end Turn

theorem CaptureTask.releases_emit (t : CaptureTask) {e : Effect} (other : e ≠ .release) :
    (t.emit e).releases = t.releases := by
  rw [releases, releases, emit, List.count_append, List.count_singleton,
    if_neg (by simpa using other), Nat.add_zero]

namespace Session

variable {s : Session} {a : Answers}

theorem releases_emit (s : Session) {e : Effect} (other : e ≠ .release) :
    (s.emit e).releases = s.releases :=
  CaptureTask.releases_emit _ other

theorem releases_releaseBackend (s : Session) : s.releaseBackend.releases = s.releases + 1 := by
  simp [releaseBackend, emit, mapTask, CaptureTask.emit, CaptureTask.releases, List.count_append]

theorem state_releaseCapture (s : Session) (a : Answers) :
    (s.releaseCapture a).1.state = .idle := by
  unfold releaseCapture
  split_ifs with skip
  · simp only [shouldSkipRelease, Bool.and_eq_true, decide_eq_true_eq] at skip
    exact skip.1
  · split <;> rfl

theorem releaseCapture_calm (s s' : Session) (a : Answers) :
    (Turn.ofResult (s'.releaseCapture a)).Calm s :=
  Turn.calm_ofResult (.inl (s'.state_releaseCapture a)) _

theorem releases_handleBeginPending (s : Session) (handle : CaptureHandle) (key : BarrierKey)
    (a : Answers) : (s.handleBeginPending handle key a).releases = s.releases := by
  unfold handleBeginPending
  dsimp only
  split_ifs
  · exact CaptureTask.releases_emit _ nofun
  · exact (CaptureTask.releases_emit _ (by simp)).trans (CaptureTask.releases_emit _ (by simp))

theorem handleCancelPending_calm (s : Session) (handle : CaptureHandle) (key : BarrierKey) :
    (Turn.next (s.handleCancelPending handle key)).Calm s := by
  have unreleased := s.releases_emit (e := .cancelPending key) nofun
  unfold handleCancelPending
  dsimp only
  split
  · split_ifs
    · exact Turn.calm_next (.inl rfl)
    · exact Turn.calm_next (.inr ⟨rfl, unreleased⟩)
  · exact Turn.calm_next (.inr ⟨rfl, unreleased⟩)

theorem releases_enterClient (s : Session) (handle : CaptureHandle) :
    (s.enterClient handle).releases = s.releases := by
  unfold enterClient
  split_ifs
  · exact CaptureTask.releases_emit _ nofun
  · rfl

/-- A release after a failed send. -/
theorem releases_sendFailed {s s' : Session} (same : s'.releases = s.releases) :
    s.releases < (s'.mapTask (·.sendFailed)).releaseBackend.releases := by
  rw [releases_releaseBackend, ← same]
  exact Nat.lt_succ_self _

/-- The cursor is taken for another client, and the client cannot be told. -/
theorem handleBegin_strayed (s : Session) (handle : CaptureHandle) (key : BarrierKey)
    (fresh : s.promotes handle = false) (fails : a.sent = false) :
    (s.handleBegin handle key a).Strayed s := by
  have before := releases_enterClient s handle
  simp only [handleBegin, fresh, fails, Bool.false_eq_true, if_false]
  refine Turn.strayed_ofResult (releases_sendFailed ?_) State.noConfusion a.released
  exact (CaptureTask.releases_emit _ (by simp)).trans before

theorem handleBegin_unreleased (s : Session) (handle : CaptureHandle) (key : BarrierKey)
    (fine : s.promotes handle = true ∨ a.sent = true) :
    (s.handleBegin handle key a).Unreleased s := by
  have before := releases_enterClient s handle
  unfold handleBegin
  dsimp only
  split_ifs with promoted sent
  · rintro x mem
    obtain rfl := Option.mem_some_iff.mp mem
    exact before
  · rintro x mem
    obtain rfl := Option.mem_some_iff.mp mem
    exact (CaptureTask.releases_emit _ (by simp)).trans before
  · simp [promoted, sent] at fine

theorem handleInput_strayed (handle : CaptureHandle) (e : InputEvent) (sending : s.state = .sending)
    (fails : a.sent = false) : (s.handleInput handle e a).Strayed s := by
  have told := s.releases_emit (e := .send (.input e) handle) nofun
  have busy : s.state ≠ .idle := by simp [sending]
  simp only [handleInput, sending, fails, Bool.false_eq_true, if_false]
  exact Turn.strayed_ofResult (releases_sendFailed told) busy a.released

theorem handleInput_calm (handle : CaptureHandle) (e : InputEvent)
    (fine : s.state = .sending → a.sent = true) : (s.handleInput handle e a).Calm s := by
  unfold handleInput
  split
  · next sending =>
    dsimp only
    rw [if_pos (fine sending)]
    exact Turn.calm_next (.inr ⟨rfl, s.releases_emit nofun⟩)
  · exact Turn.calm_next (.inr ⟨rfl, rfl⟩)

/-- The handler up to the question whether to release the backend. -/
theorem handleEnterOnly_eq (s : Session) (handle : CaptureHandle) (key : BarrierKey)
    (event : CaptureEvent) (a : Answers) :
    ∃ s', s'.state = s.state ∧ s'.releases = s.releases ∧
      s.handleEnterOnly handle key event a =
        if s.isDefaultCaptureAt key then .next s'
        else .ofResult (s'.releaseBackend, a.released) := by
  unfold handleEnterOnly
  by_cases trigger : event = .begin ∨ event = .beginPending
  · refine ⟨s.emit (.notify (.captureBegin handle)), rfl, s.releases_emit nofun, ?_⟩
    simp only [trigger, if_true]
    rfl
  · exact ⟨s, rfl, rfl, by simp only [trigger, if_false]⟩

theorem handleEnterOnly_strayed (handle : CaptureHandle) {key : BarrierKey} (event : CaptureEvent)
    (alone : s.isDefaultCaptureAt key = false) (busy : s.state ≠ .idle) :
    (s.handleEnterOnly handle key event a).Strayed s := by
  obtain ⟨s', state, releases, same⟩ := s.handleEnterOnly_eq handle key event a
  rw [same, alone, if_neg Bool.false_ne_true]
  refine Turn.strayed_ofResult ?_ (state ▸ busy) a.released
  rw [releases_releaseBackend, releases]
  exact Nat.lt_succ_self _

theorem handleEnterOnly_calm (handle : CaptureHandle) {key : BarrierKey} (event : CaptureEvent)
    (fine : s.isDefaultCaptureAt key = true ∨ s.state = .idle) :
    (s.handleEnterOnly handle key event a).Calm s := by
  obtain ⟨s', state, releases, same⟩ := s.handleEnterOnly_eq handle key event a
  rw [same]
  split_ifs with shared
  · exact Turn.calm_next (.inr ⟨state, releases⟩)
  · have idle : s'.releaseBackend.state = .idle := state.trans (fine.resolve_left shared)
    exact Turn.calm_ofResult (.inl idle) a.released

variable (s)

/-- What an event of the session's stream does: the task strays, or it is calm, or it begins a
hand-over without a release. -/
theorem handleCaptureEvent_cases (handle : CaptureHandle) (event : CaptureEvent) (a : Answers) :
    (s.straysOnEvent handle event a = true ∧ (s.handleCaptureEvent handle event a).Strayed s) ∨
    (s.straysOnEvent handle event a = false ∧
      ((s.handleCaptureEvent handle event a).Calm s ∨
      ((event = .begin ∨ event = .beginPending) ∧
        (s.handleCaptureEvent handle event a).Unreleased s))) := by
  unfold straysOnEvent handleCaptureEvent
  by_cases pressed : s.capture.keysPressed s.releaseBind = true
  · rw [if_pos pressed, if_pos pressed]
    exact .inr ⟨rfl, .inl (releaseCapture_calm s s a)⟩
  rw [if_neg pressed, if_neg pressed]
  rcases s.getCapture handle with _ | ⟨key, _ | _⟩
  · exact .inr ⟨rfl, .inl nofun⟩
  · cases event with
    | begin =>
      let noted := s.emit (.notify (.captureBegin handle))
      have told : noted.releases = s.releases := s.releases_emit nofun
      by_cases fails : s.promotes handle = false ∧ a.sent = false
      · have strayed := noted.handleBegin_strayed handle key fails.1 fails.2
        exact .inl ⟨by simp [fails], strayed.congr told⟩
      · refine .inr ⟨by simpa using fails, .inr ⟨.inl rfl, ?_⟩⟩
        have fine : s.promotes handle = true ∨ a.sent = true := by
          by_contra neither
          simp [not_or] at neither
          exact fails neither
        exact (noted.handleBegin_unreleased handle key fine).congr told
    | beginPending =>
      refine .inr ⟨rfl, .inr ⟨.inr rfl, ?_⟩⟩
      rintro x mem
      obtain rfl := Option.mem_some_iff.mp mem
      exact releases_handleBeginPending s handle key a
    | cancelPending => exact .inr ⟨rfl, .inl (s.handleCancelPending_calm handle key)⟩
    | input e =>
      by_cases fails : s.state = .sending ∧ a.sent = false
      · exact .inl ⟨by simp [fails], handleInput_strayed handle e fails.1 fails.2⟩
      · exact .inr ⟨by simpa using fails, .inl (handleInput_calm handle e (by simpa using fails))⟩
  · by_cases fails : s.isDefaultCaptureAt key = false ∧ s.state ≠ .idle
    · exact .inl ⟨by simp [fails], handleEnterOnly_strayed handle event fails.1 fails.2⟩
    · refine .inr ⟨by simpa using fails, .inl (handleEnterOnly_calm handle event ?_)⟩
      by_contra neither
      simp [not_or] at neither
      exact fails neither

theorem handleCapture_cases (polled : Polled (BarrierKey × CaptureEvent)) (a : Answers) :
    (s.strays ⟨.capture polled, a⟩ = true ∧ (s.handleCapture polled a).Strayed s) ∨
    (s.strays ⟨.capture polled, a⟩ = false ∧
      ((s.handleCapture polled a).Calm s ∨
      ((Running.session s).begins ⟨.capture polled, a⟩ = true ∧
        (s.handleCapture polled a).Unreleased s))) := by
  unfold strays handleCapture Running.begins taken?
  dsimp only
  rcases s.capture.pollNext polled with ⟨next, capture⟩
  cases next with
  | item e =>
    obtain strayed | ⟨stays, calm | ⟨begins, unreleased⟩⟩ :=
      handleCaptureEvent_cases { s with capture := capture } e.1 e.2 a
    · exact .inl strayed
    · exact .inr ⟨stays, .inl calm⟩
    · exact .inr ⟨stays, .inr ⟨by simpa using begins, unreleased⟩⟩
  | pending => exact .inr ⟨rfl, .inl (Turn.calm_next (.inr ⟨rfl, rfl⟩))⟩
  | ended => exact .inr ⟨rfl, .inl (Turn.calm_of_cursor rfl (.inr ⟨rfl, rfl⟩))⟩
  | failed => exact .inr ⟨rfl, .inl (Turn.calm_of_cursor rfl (.inr ⟨rfl, rfl⟩))⟩

/-- Only an acknowledgement for an idle task with an active client sets it to sending. -/
theorem handleAck_cases (handle : CaptureHandle) (a : Answers) :
    (s.state = .idle ∧ s.activeClient.isSome = true ∧
      s.handleAck handle a = { s with state := .sending }) ∨
    (¬ (s.state = .idle ∧ s.activeClient.isSome = true) ∧
      (Turn.next (s.handleAck handle a)).Calm s) := by
  unfold handleAck
  cases state : s.state with
  | pending h key started =>
    refine .inr ⟨by simp, ?_⟩
    dsimp only
    split_ifs
    · exact Turn.calm_next (.inr ⟨rfl, s.releases_emit nofun⟩)
    · exact Turn.calm_next (.inl rfl)
    · exact Turn.calm_next (.inr ⟨rfl, rfl⟩)
  | idle =>
    cases active : s.activeClient.isSome with
    | true => exact .inl ⟨rfl, rfl, rfl⟩
    | false => exact .inr ⟨by simp, Turn.calm_next (.inr ⟨rfl, rfl⟩)⟩
  | sending =>
    refine .inr ⟨by simp, ?_⟩
    dsimp only
    split_ifs
    · exact Turn.calm_next (.inr ⟨state.symm, rfl⟩)
    · exact Turn.calm_next (.inr ⟨rfl, rfl⟩)

theorem handleRecv_cases (handle : CaptureHandle) (event : ProtoEvent) (a : Answers) :
    (s.wakes ⟨.recv handle event, a⟩ = true ∧
      (s.handleRecv handle event a).cursor? = some (.sending, s.releases)) ∨
    (s.wakes ⟨.recv handle event, a⟩ = false ∧ (s.handleRecv handle event a).Calm s) := by
  unfold handleRecv
  by_cases deaf : s.activeClient.any (handle ≠ ·) = true
  · rw [if_pos deaf]
    refine .inr ⟨?_, Turn.calm_next (.inr ⟨rfl, rfl⟩)⟩
    cases event with
    | ack n => simp only [wakes, Session.hears, deaf, Bool.not_true, Bool.false_and]
    | _ => rfl
  rw [if_neg deaf]
  have hears : s.hears handle = true := by simpa [hears] using deaf
  cases event with
  | ack n =>
    obtain ⟨idle, active, sends⟩ | ⟨awake, calm⟩ :=
      handleAck_cases (s.mapTask (·.progress a.now)) handle a
    · have idle : s.state = .idle := idle
      have active : s.activeClient.isSome = true := active
      refine .inl ⟨by simp [wakes, hears, idle, active], ?_⟩
      dsimp only
      rw [sends]
      rfl
    · have awake : ¬ (s.state = .idle ∧ s.activeClient.isSome = true) := awake
      exact .inr ⟨by simpa [wakes, hears] using awake, calm⟩
  | leave n => exact .inr ⟨rfl, releaseCapture_calm s _ a⟩
  | _ => exact .inr ⟨rfl, Turn.calm_next (.inr ⟨rfl, rfl⟩)⟩

theorem runStallChecks_calm (a : Answers) : (Turn.next (s.runStallChecks a)).Calm s := by
  unfold runStallChecks
  split_ifs
  · exact Turn.calm_next (.inl (state_releaseCapture _ a))
  · exact Turn.calm_next (.inl (state_releaseCapture _ a))
  · exact Turn.calm_next (.inr ⟨rfl, rfl⟩)

theorem runWatchdogHeavy_calm (a : Answers) : (Turn.next (s.runWatchdogHeavy a)).Calm s := by
  unfold runWatchdogHeavy
  dsimp only
  split_ifs
  · exact Turn.calm_next (.inl (state_releaseCapture _ a))
  · exact runStallChecks_calm (s.expireCrossings a.now) a
  · exact s.runStallChecks_calm a

theorem runWatchdogLight_calm (a : Answers) : (Turn.next (s.runWatchdogLight a)).Calm s := by
  unfold runWatchdogLight
  split_ifs
  · exact Turn.calm_next (.inl rfl)
  · exact Turn.calm_next (.inr ⟨rfl, rfl⟩)

theorem handlePendingTick_calm (a : Answers) : (Turn.next (s.handlePendingTick a)).Calm s := by
  unfold handlePendingTick
  split
  · split_ifs
    · exact Turn.calm_next (.inl rfl)
    · exact Turn.calm_next (.inr ⟨rfl, rfl⟩)
  · exact Turn.calm_next (.inr ⟨rfl, rfl⟩)

theorem handlePeerLost_calm (handle : Option CaptureHandle) (a : Answers) :
    (s.handlePeerLost handle a).Calm s := by
  unfold handlePeerLost
  split
  · split_ifs
    · exact releaseCapture_calm s s a
    · exact Turn.calm_next (.inr ⟨rfl, rfl⟩)
  · split_ifs
    · exact releaseCapture_calm s s a
    · exact Turn.calm_next (.inr ⟨rfl, rfl⟩)

theorem handleMonitorTick_calm (current : List MonitorInfo) :
    (Turn.next (s.handleMonitorTick current)).Calm s := by
  unfold handleMonitorTick
  split_ifs
  · exact Turn.calm_next (.inr ⟨rfl, s.releases_emit nofun⟩)
  · exact Turn.calm_next (.inr ⟨rfl, rfl⟩)

theorem withCapture_calm {s s' : Session} (result : Except Panic (InputCapture × Bool))
    (state : s'.state = s.state) (releases : s'.releases = s.releases) :
    (s'.withCapture result).Calm s := by
  cases result with
  | error p => exact nofun
  | ok done => exact Turn.calm_of_cursor (Turn.cursor?_ofResult _ done.2) (.inr ⟨state, releases⟩)

theorem handleRequest_calm (r : CaptureRequest) (a : Answers) : (s.handleRequest r a).Calm s := by
  cases r with
  | release => exact releaseCapture_calm s s a
  | create h key type => exact withCapture_calm _ rfl rfl
  | destroy h => exact withCapture_calm _ rfl rfl
  | reenable => exact Turn.calm_next (.inr ⟨rfl, rfl⟩)
  | setReleaseBind bind => exact Turn.calm_next (.inr ⟨rfl, rfl⟩)
  | dial handle => exact Turn.calm_next (.inr ⟨rfl, s.releases_emit nofun⟩)
  | sendClip event handle => exact Turn.calm_next (.inr ⟨rfl, s.releases_emit nofun⟩)

/-- What a turn does to the cursor. -/
theorem turn_cases (i : Input) :
    (s.strays i = true ∧ (s.turn i).Strayed s) ∨
    (s.strays i = false ∧ s.wakes i = true ∧ (Running.session s).begins i = false ∧
      (s.turn i).cursor? = some (.sending, s.releases)) ∨
    (s.strays i = false ∧ s.wakes i = false ∧ ((s.turn i).Calm s ∨
      ((Running.session s).begins i = true ∧ (s.turn i).Unreleased s))) := by
  obtain ⟨event, a⟩ := i
  cases event with
  | capture polled =>
    obtain strayed | ⟨stays, rest⟩ := s.handleCapture_cases polled a
    · exact .inl strayed
    · exact .inr (.inr ⟨stays, rfl, rest⟩)
  | recv handle event =>
    obtain ⟨wakes, sends⟩ | ⟨awake, calm⟩ := s.handleRecv_cases handle event a
    · exact .inr (.inl ⟨rfl, wakes, rfl, sends⟩)
    · exact .inr (.inr ⟨rfl, awake, .inl calm⟩)
  | request r => exact .inr (.inr ⟨rfl, rfl, .inl (s.handleRequest_calm r a)⟩)
  | pendingTick => exact .inr (.inr ⟨rfl, rfl, .inl (s.handlePendingTick_calm a)⟩)
  | watchdogLight =>
    refine .inr (.inr ⟨rfl, rfl, .inl ?_⟩)
    dsimp only [turn]
    split_ifs
    · exact s.runWatchdogLight_calm a
    · exact Turn.calm_next (.inr ⟨rfl, rfl⟩)
  | watchdogHeavy =>
    refine .inr (.inr ⟨rfl, rfl, .inl ?_⟩)
    dsimp only [turn]
    split_ifs
    · exact s.runWatchdogHeavy_calm a
    · exact Turn.calm_next (.inr ⟨rfl, rfl⟩)
  | peerLost handle => exact .inr (.inr ⟨rfl, rfl, .inl (s.handlePeerLost_calm handle a)⟩)
  | monitorTick current =>
    exact .inr (.inr ⟨rfl, rfl, .inl (s.handleMonitorTick_calm current)⟩)

end Session

/-! ### Steps and runs -/

theorem Turn.releases_running (turn : Turn) :
    turn.running.releases = (turn.cursor?.map (·.2)).getD 0 := by
  rw [Running.releases, ← cursor?_running, Option.map_map]
  rfl

theorem Turn.idle_running (turn : Turn) :
    (∀ t ∈ turn.running.task?, t.state = .idle) ↔ ∀ x ∈ turn.cursor?, x.1 = .idle := by
  rw [← cursor?_running]
  simp

theorem Session.respected_step_iff {s : Session} {givenBack : Bool}
    (respected : givenBack = true → s.state = .idle) (i : Input) :
    (Cursor.step ⟨.session s, givenBack⟩ i).Respected ↔ Cursor.Minds ⟨.session s, givenBack⟩ i := by
  have issues : (Running.session s).issues i =
      decide (s.releases < (((s.turn i).cursor?).map (·.2)).getD 0) :=
    congrArg (fun n => decide (s.releases < n)) (s.turn i).releases_running
  simp only [Cursor.Respected, Cursor.step, Capture.step, issues, Turn.idle_running, Cursor.Minds]
  obtain ⟨strays, x, after, more, busy⟩ | ⟨stays, wakes, begins, after⟩ |
      ⟨stays, sleeps, calm | ⟨begins, unreleased⟩⟩ := s.turn_cases i
  · rw [Option.mem_def] at after
    simp [after, more, busy, strays]
  · simp [after, begins, stays, wakes]
  · refine iff_of_true (fun given x after => ?_) ⟨stays, fun _ => sleeps⟩
    obtain idle | rfl := calm x after
    · exact idle
    · rw [Option.mem_def] at after
      simp only [after, Option.map_some, Option.getD_some, lt_self_iff_false, decide_false,
        Bool.false_or, Bool.and_eq_true] at given
      exact respected given.1
  · refine iff_of_true (fun given => ?_) ⟨stays, fun _ => sleeps⟩
    rw [begins, Bool.not_true, Bool.and_false, Bool.or_false] at given
    cases after : (s.turn i).cursor? with
    | none => exact nofun
    | some x =>
      have same := unreleased x after
      simp [after, same] at given

theorem CaptureTask.doCapture_same (t : CaptureTask) (a : Answers) :
    ∀ u ∈ (t.doCapture a).task?, u.state = t.state ∧ u.releases = t.releases := by
  unfold doCapture
  split
  · rintro u same
    cases same
    exact ⟨rfl, rfl⟩
  · dsimp only
    split
    · exact fun u gone => absurd gone (Option.not_mem_none u)
    · rintro u same
      cases same
      exact ⟨rfl, (releases_emit _ (by simp)).trans (releases_emit _ (by simp))⟩
    · rintro u same
      cases same
      exact ⟨rfl, (releases_emit _ (by simp)).trans
        ((releases_emit _ (by simp)).trans (releases_emit _ (by simp)))⟩

/-- Between two sessions the task neither releases a backend nor changes its state. -/
theorem CaptureTask.wait_same (t : CaptureTask) (i : Input) :
    ∀ u ∈ (t.wait i).task?, u.state = t.state ∧ u.releases = t.releases := by
  unfold wait
  split
  · exact t.doCapture_same i.answers
  all_goals
    rintro u same
    cases same
  · exact ⟨rfl, rfl⟩
  · exact ⟨rfl, rfl⟩
  · exact ⟨rfl, rfl⟩
  · exact ⟨rfl, rfl⟩
  · exact ⟨rfl, releases_emit _ nofun⟩
  · exact ⟨rfl, releases_emit _ nofun⟩
  · exact ⟨rfl, rfl⟩

theorem respected_step_iff {c : Cursor} (respected : c.Respected) (i : Input) :
    (c.step i).Respected ↔ c.Minds i := by
  obtain ⟨running, givenBack⟩ := c
  cases running with
  | session s => exact Session.respected_step_iff (fun given => respected given _ rfl) i
  | gap t =>
    refine iff_of_true (fun given u mem => ?_) trivial
    obtain ⟨state, releases⟩ := t.wait_same i u mem
    have same : (t.wait i).releases = t.releases := by
      have task : (t.wait i).task? = some u := mem
      rw [Running.releases, task]
      exact releases
    have before : (Running.gap t).releases = t.releases := rfl
    simp only [Cursor.step, Running.issues, Capture.step, before, same, lt_self_iff_false,
      decide_false, Bool.false_or, Bool.and_eq_true] at given
    rw [state]
    exact respected given.1 t rfl
  | panicked p => exact iff_of_true (fun _ t gone => absurd gone (Option.not_mem_none t)) trivial

/-- In every state of every run the task is idle while its backend has given the cursor back,
exactly when no input makes it release the backend and stay in a state that is not idle, and none
is an acknowledgement of a client that is still active after the release. -/
theorem idle_after_release_iff (releaseBind : List Scancode) (cfg : WatchdogConfig) (a : Answers)
    (inputs : List Input) :
    Always Cursor.step Cursor.Respected ⟨start releaseBind cfg a, false⟩ inputs ↔
      AllMeet Cursor.step Cursor.Minds ⟨start releaseBind cfg a, false⟩ inputs :=
  always_iff_allMeet Cursor.Respected
    (fun _ i respected minds => (respected_step_iff respected i).mpr minds) (fun _ ok => ok)
    (fun _ i respected after => (respected_step_iff respected i).mp after)
    (fun given => absurd given Bool.false_ne_true) inputs

/-- A send to client 1 fails after the hand-over, and the task goes on sending to a cursor that was
given back. -/
theorem sending_after_release :
    let key : BarrierKey := ⟨.left, none, 0, 10000⟩
    let moved : CaptureEvent := .input (.pointer (.motion 0 0 0))
    let c := run Cursor.step ⟨start [29, 42, 125, 56] {} { now := 0 }, false⟩
      (handOver key ++ [⟨.capture (.item (key, moved)), { now := 4, sent := false }⟩])
    c.givenBack = true ∧ c.running.task?.map (·.state) = some .sending ∧ ¬ c.Respected := by
  intro key moved c
  have given : c.givenBack = true := by decide
  have sending : c.running.task?.map (·.state) = some .sending := by decide
  refine ⟨given, sending, fun respected => ?_⟩
  obtain ⟨t, mem, state⟩ := Option.map_eq_some_iff.mp sending
  have idle := respected given t mem
  simp [idle] at state

end LanMouse.Capture
