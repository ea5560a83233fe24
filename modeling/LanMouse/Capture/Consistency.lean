import LanMouse.Capture.Frame
import LanMouse.Lib.Transition

/-!
# The capture state against the active client

The task keeps two variables that belong together: its `state` and its `active_client`. They agree
when a sending task has a registered active client and an idle one has none.

They come apart in exactly two ways: the active client is destroyed while the task sends, or the
task gives up a pending hand-over while it still has an active client.
-/
namespace LanMouse.Capture

open Proto

def State.isPending : State → Bool
  | .pending .. => true
  | _ => false

namespace CaptureTask

structure Consistent (t : CaptureTask) : Prop where
  sending : t.state = .sending → ∃ h, t.activeClient = some h ∧ t.Registered h
  idle : t.state = .idle → t.activeClient = none

end CaptureTask

def Running.task? : Running → Option CaptureTask
  | .session s => some s.toCaptureTask
  | .gap t => some t
  | .panicked _ => none

/-- The state and the active client agree; a task that panicked has neither. -/
def Running.Consistent (r : Running) : Prop := ∀ t ∈ r.task?, t.Consistent

/-! ### When a hand-over is given up -/

namespace Session

/-- The event of a handle that makes the task give up a hand-over. -/
def giveUpOnEvent (s : Session) (handle : CaptureHandle) (event : CaptureEvent) (a : Answers) :
    Bool :=
  if s.capture.keysPressed s.releaseBind then s.state.isPending
  else
    match s.getCapture handle, event with
    | some (_, .default), .beginPending => !a.sent
    | some (_, .default), .cancelPending => s.promotes handle
    | _, _ => false

/-- Whether a message of `handle` reaches the task. -/
def hears (s : Session) (handle : CaptureHandle) : Bool := !s.activeClient.any (handle ≠ ·)

/-- Whether an input makes the task give up a hand-over that awaits its acknowledgement, or one
that it was about to start. -/
def givesUp (s : Session) (i : Input) : Bool :=
  match i.event with
  | .capture polled =>
    match s.capture.pollNext polled with
    | (.item (handle, event), capture) =>
      ({ s with capture := capture }).giveUpOnEvent handle event i.answers
    | _ => false
  | .recv handle (.ack _) => s.hears handle && s.promotes handle && !i.answers.started
  | .recv handle (.leave _) => s.hears handle && s.state.isPending
  | .request .release => s.state.isPending
  | .pendingTick =>
    match s.state with
    | .pending _ _ started => pendingAckTimeout ≤ i.answers.now - started
    | _ => false
  | .watchdogHeavy =>
    s.watchdogConfig.anyCheckEnabled && s.noProgress i.answers.now && s.state.isPending
  | .peerLost none => s.activeClient.isSome && s.state.isPending
  | .peerLost (some handle) => s.activeClient = some handle && s.state.isPending
  | _ => false

end Session

/-- The client the task sends to is not destroyed. -/
def CaptureTask.SparesActive (t : CaptureTask) : Event → Prop
  | .request (.destroy h) => ¬(t.state = .sending ∧ t.activeClient = some h)
  | _ => True

/-- An input does not destroy the client the task sends to, and makes the task give up a hand-over
only when no client is active. -/
def Sound : Running → Input → Prop
  | .session s, i => s.SparesActive i.event ∧ (s.givesUp i → s.activeClient = none)
  | .gap t, i => t.SparesActive i.event
  | .panicked _, _ => True

/-! ### What the handlers do to the two variables -/

namespace CaptureTask

variable {t u : CaptureTask}

theorem consistent_pending {h : CaptureHandle} {key : BarrierKey} {started : Nat}
    (pending : t.state = .pending h key started) : t.Consistent :=
  ⟨by simp [pending], by simp [pending]⟩

theorem consistent_idle_iff (idle : t.state = .idle) :
    t.Consistent ↔ t.activeClient = none :=
  ⟨fun c => c.idle idle, fun none_ => ⟨by simp [idle], fun _ => none_⟩⟩

theorem consistent_sending_iff (sending : t.state = .sending) :
    t.Consistent ↔ ∃ h, t.activeClient = some h ∧ t.Registered h :=
  ⟨fun c => c.sending sending, fun active => ⟨fun _ => active, by simp [sending]⟩⟩

theorem Consistent.congr (c : t.Consistent) (state : u.state = t.state)
    (active : u.activeClient = t.activeClient) (captures : u.captures = t.captures) :
    u.Consistent := by
  refine ⟨fun h => ?_, fun h => ?_⟩
  · obtain ⟨handle, h, mem⟩ := c.sending (state ▸ h)
    exact ⟨handle, active.trans h, by rwa [Registered, captures]⟩
  · exact active.trans (c.idle (state ▸ h))

theorem Consistent.addCapture (c : t.Consistent) (h : CaptureHandle) (key : BarrierKey)
    (type : CaptureType) : (t.addCapture h key type).Consistent := by
  refine ⟨fun sending => ?_, c.idle⟩
  obtain ⟨j, active, registered⟩ := c.sending sending
  exact ⟨j, active, registered_addCapture.mpr (.inr registered)⟩

theorem Consistent.removeCapture_iff (c : t.Consistent) (h : CaptureHandle) :
    (t.removeCapture h).Consistent ↔ ¬(t.state = .sending ∧ t.activeClient = some h) := by
  constructor
  · rintro removed ⟨sending, active⟩
    obtain ⟨j, active', registered⟩ := removed.sending sending
    obtain rfl : h = j := Option.some_inj.mp (active.symm.trans active')
    exact (registered_removeCapture.mp registered).1 rfl
  · refine fun spared => ⟨fun sending => ?_, c.idle⟩
    obtain ⟨j, active, registered⟩ := c.sending sending
    refine ⟨j, active, registered_removeCapture.mpr ⟨?_, registered⟩⟩
    rintro rfl
    exact spared ⟨sending, active⟩

end CaptureTask

open CaptureTask

/-- A panic leaves no variables behind that could disagree. -/
def Turn.Consistent : Turn → Prop
  | .next s => s.toCaptureTask.Consistent
  | .stop s => s.toCaptureTask.Consistent
  | .panic _ => True

theorem Turn.consistent_ofResult (s : Session) (result : Bool) :
    (Turn.ofResult (s, result)).Consistent ↔ s.toCaptureTask.Consistent := by
  cases result <;> rfl

namespace Session

variable {s : Session} {a : Answers}

/-- A handler that makes the task idle and keeps the active client. -/
theorem consistent_gaveUp (s : Session) {s' : Session} {ok : Prop} (state : s'.state = .idle)
    (active : s'.activeClient = s.activeClient) (iff : ok ↔ s.activeClient = none) :
    s'.toCaptureTask.Consistent ↔ ok := by
  rw [consistent_idle_iff state, active, iff]

theorem releaseCapture_consistent (consistent : s.Consistent) (a : Answers) :
    (s.releaseCapture a).1.Consistent ↔ (s.state.isPending → s.activeClient = none) := by
  unfold releaseCapture
  split_ifs with skip
  · have idle : s.state = .idle := by
      unfold shouldSkipRelease at skip
      grind
    exact iff_of_true (consistent.congr rfl rfl rfl) (by simp [idle, State.isPending])
  · split
    · rename_i pending
      exact consistent_gaveUp s rfl rfl (by simp [pending, State.isPending])
    · rename_i other
      have notPending : s.state.isPending = false := by
        unfold State.isPending
        split
        · exact absurd ‹_› (other _ _ _)
        · rfl
      rw [consistent_idle_iff rfl]
      cases h : s.activeClient <;>
        simp [leaveActive, h, releaseBackend, emit, mapTask, CaptureTask.emit, recovered,
          notPending]

theorem handleBeginPending_consistent (handle : CaptureHandle) (key : BarrierKey) :
    (s.handleBeginPending handle key a).Consistent ↔ (!a.sent → s.activeClient = none) := by
  unfold handleBeginPending
  dsimp only
  split_ifs with sent
  · exact iff_of_true (consistent_pending rfl) (by simp [sent])
  · exact consistent_gaveUp s rfl rfl (by simp [sent])

theorem handleCancelPending_consistent (consistent : s.Consistent) (handle : CaptureHandle)
    (key : BarrierKey) :
    (s.handleCancelPending handle key).Consistent ↔
      (s.promotes handle → s.activeClient = none) := by
  unfold handleCancelPending promotes
  dsimp only [emit, mapTask, CaptureTask.emit]
  split
  · split_ifs with same
    · exact consistent_gaveUp s rfl rfl (by simp [*])
    · exact iff_of_true (consistent.congr rfl rfl rfl) (by simp [*])
  · exact iff_of_true (consistent.congr rfl rfl rfl) (by simp)

theorem handleBegin_consistent {handle : CaptureHandle} (registered : s.Registered handle)
    (key : BarrierKey) : (s.handleBegin handle key a).Consistent := by
  have entered : (s.enterClient handle).activeClient = some handle ∧
      (s.enterClient handle).captures = s.captures := by
    unfold enterClient
    split_ifs with other
    · exact ⟨rfl, rfl⟩
    · exact ⟨(not_not.mp other).symm, rfl⟩
  -- The rest of the handler touches neither variable.
  have fine : ∀ s' : Session, s'.state = .sending →
      s'.activeClient = (s.enterClient handle).activeClient →
      s'.captures = (s.enterClient handle).captures → s'.toCaptureTask.Consistent := by
    intro s' state active captures
    refine (consistent_sending_iff state).mpr ⟨handle, active.trans entered.1, ?_⟩
    rwa [Registered, captures, entered.2]
  unfold handleBegin
  dsimp only
  split_ifs
  · apply fine <;> rfl
  · apply fine <;> rfl
  · rw [Turn.consistent_ofResult]
    apply fine <;> rfl

theorem handleInput_consistent (consistent : s.Consistent) (handle : CaptureHandle)
    (e : InputEvent) : (s.handleInput handle e a).Consistent := by
  unfold handleInput
  split
  · dsimp only
    split_ifs
    · exact consistent.congr rfl rfl rfl
    · rw [Turn.consistent_ofResult]
      exact consistent.congr rfl rfl rfl
  · exact consistent

theorem handleEnterOnly_consistent (consistent : s.Consistent) (handle : CaptureHandle)
    (key : BarrierKey) (event : CaptureEvent) :
    (s.handleEnterOnly handle key event a).Consistent := by
  unfold handleEnterOnly
  dsimp only
  split_ifs
  · exact consistent.congr rfl rfl rfl
  · rw [Turn.consistent_ofResult]
    exact consistent.congr rfl rfl rfl
  · exact consistent
  · rw [Turn.consistent_ofResult]
    exact consistent.congr rfl rfl rfl

theorem handleCaptureEvent_consistent (consistent : s.Consistent) (handle : CaptureHandle)
    (event : CaptureEvent) (a : Answers) :
    (s.handleCaptureEvent handle event a).Consistent ↔
      (s.giveUpOnEvent handle event a → s.activeClient = none) := by
  unfold handleCaptureEvent giveUpOnEvent
  split_ifs with pressed
  · exact (Turn.consistent_ofResult _ _).trans (releaseCapture_consistent consistent a)
  · rcases found : s.getCapture handle with _ | ⟨key, _ | _⟩
    · exact iff_of_true trivial (by simp)
    · have registered := registered_of_getCapture found
      cases event with
      | beginPending => exact handleBeginPending_consistent handle key
      | cancelPending => exact handleCancelPending_consistent consistent handle key
      | begin =>
        exact iff_of_true (handleBegin_consistent
          (s := s.emit (.notify (.captureBegin handle))) registered key) (by simp)
      | input e => exact iff_of_true (handleInput_consistent consistent handle e) (by simp)
    · exact iff_of_true (handleEnterOnly_consistent consistent handle key event) (by simp)

theorem handleCapture_consistent (consistent : s.Consistent)
    (polled : Polled (BarrierKey × CaptureEvent)) (a : Answers) :
    (s.handleCapture polled a).Consistent ↔
      (s.givesUp ⟨.capture polled, a⟩ → s.activeClient = none) := by
  unfold handleCapture givesUp
  dsimp only
  rcases s.capture.pollNext polled with ⟨next, capture⟩
  have polled : ({ s with capture := capture } : Session).Consistent :=
    consistent.congr rfl rfl rfl
  cases next with
  | item e => exact handleCaptureEvent_consistent polled e.1 e.2 a
  | pending => exact iff_of_true polled (by simp)
  | ended => exact iff_of_true polled (by simp)
  | failed => exact iff_of_true polled (by simp)

theorem handleAck_consistent (consistent : s.Consistent) (handle : CaptureHandle) (a : Answers) :
    (s.handleAck handle a).Consistent ↔
      (s.promotes handle && !a.started → s.activeClient = none) := by
  unfold handleAck promotes
  cases state : s.state with
  | pending h key started =>
    dsimp only
    split_ifs with same ok
    · exact iff_of_true (consistent.congr rfl rfl rfl) (by simp [ok])
    · exact consistent_gaveUp s rfl rfl (by simp [same, ok])
    · exact iff_of_true consistent (by simp [same])
  | idle =>
    have none_ := consistent.idle state
    exact iff_of_true (by simpa [none_] using consistent) (by simp)
  | sending =>
    dsimp only
    split_ifs
    · exact iff_of_true (consistent.congr state.symm rfl rfl) (by simp)
    · exact iff_of_true consistent (by simp)

theorem handleRecv_consistent (consistent : s.Consistent) (handle : CaptureHandle)
    (event : ProtoEvent) (a : Answers) :
    (s.handleRecv handle event a).Consistent ↔
      (s.givesUp ⟨.recv handle event, a⟩ → s.activeClient = none) := by
  have heard : (s.mapTask (·.progress a.now)).Consistent := consistent.congr rfl rfl rfl
  unfold handleRecv
  split_ifs with ignored
  · refine iff_of_true consistent fun givesUp => ?_
    have deaf : s.hears handle = false := by rw [hears, ignored, Bool.not_true]
    unfold Session.givesUp at givesUp
    cases event <;> simp [deaf] at givesUp
  · have hears : s.hears handle = true := by simpa [hears] using ignored
    unfold Session.givesUp
    cases event with
    | ack n =>
      simp only [hears, Bool.true_and]
      exact handleAck_consistent heard handle a
    | leave n =>
      simp only [hears, Bool.true_and]
      exact (Turn.consistent_ofResult _ _).trans (releaseCapture_consistent heard a)
    | _ => exact iff_of_true heard (by simp)

theorem handlePendingTick_consistent (consistent : s.Consistent) (a : Answers) :
    (s.handlePendingTick a).Consistent ↔
      (s.givesUp ⟨.pendingTick, a⟩ → s.activeClient = none) := by
  unfold handlePendingTick givesUp
  dsimp only
  cases state : s.state with
  | pending h key started =>
    dsimp only
    split_ifs with late
    · exact consistent_gaveUp s rfl rfl (by simp [late])
    · exact iff_of_true consistent (by simp [late])
  | idle => exact iff_of_true consistent (by simp)
  | sending => exact iff_of_true consistent (by simp)

theorem runWatchdogLight_eq (consistent : s.Consistent) (a : Answers) :
    s.runWatchdogLight a = s := by
  unfold runWatchdogLight
  refine if_neg fun ghost => ?_
  simp only [Bool.and_eq_true, decide_eq_true_eq, Option.isNone_iff_eq_none] at ghost
  obtain ⟨h, active, -⟩ := consistent.sending ghost.1.2
  rw [active] at ghost
  cases ghost.2

theorem runStallChecks_consistent (consistent : s.Consistent) (a : Answers) :
    (s.runStallChecks a).Consistent ↔
      (s.noProgress a.now && s.state.isPending → s.activeClient = none) := by
  unfold runStallChecks
  split_ifs with storm stalled
  · have sending : s.state = .sending := by
      unfold sendFailureStorm at storm
      grind
    have reset : ({ s with watchdog.consecutiveSendFailures := 0 } : Session).Consistent :=
      consistent.congr rfl rfl rfl
    refine (releaseCapture_consistent reset a).trans ?_
    simp [sending, State.isPending]
  · simpa [stalled] using releaseCapture_consistent consistent a
  · exact iff_of_true consistent (by simp [stalled])

theorem runWatchdogHeavy_consistent (consistent : s.Consistent) (a : Answers) :
    (s.runWatchdogHeavy a).Consistent ↔
      (s.noProgress a.now && s.state.isPending → s.activeClient = none) := by
  have expired : (s.expireCrossings a.now).Consistent := consistent.congr rfl rfl rfl
  unfold runWatchdogHeavy
  dsimp only
  split_ifs with check storm
  · have idle : s.state = .idle := by
      unfold crossingStorm expireCrossings at storm
      grind
    refine (releaseCapture_consistent expired a).trans ?_
    simp [idle, State.isPending, expireCrossings]
  · exact runStallChecks_consistent expired a
  · exact runStallChecks_consistent consistent a

theorem handlePeerLost_consistent (consistent : s.Consistent) (handle : Option CaptureHandle)
    (a : Answers) :
    (s.handlePeerLost handle a).Consistent ↔
      (s.givesUp ⟨.peerLost handle, a⟩ → s.activeClient = none) := by
  have released := (Turn.consistent_ofResult (s.releaseCapture a).1 (s.releaseCapture a).2).trans
    (releaseCapture_consistent consistent a)
  unfold handlePeerLost givesUp
  cases handle with
  | none =>
    dsimp only
    split_ifs with active
    · simpa [active] using released
    · exact iff_of_true consistent (by simp [active])
  | some handle =>
    dsimp only
    split_ifs with active
    · simpa [active] using released
    · exact iff_of_true consistent (by simp [active])

theorem create_consistent (consistent : s.Consistent) (tied : s.Tied) (h : CaptureHandle)
    (key : BarrierKey) (type : CaptureType) :
    (s.handleRequest (.create h key type) a).Consistent := by
  by_cases taken : s.Registered h
  · rw [create_taken tied taken]
    trivial
  · obtain ⟨d, ok, created, -⟩ := create_fresh tied taken key type a
    dsimp only [handleRequest]
    rw [created]
    exact (Turn.consistent_ofResult _ _).mpr (consistent.addCapture h key type)

theorem destroy_consistent (consistent : s.Consistent) (tied : s.Tied) (h : CaptureHandle) :
    (s.handleRequest (.destroy h) a).Consistent ↔
      ¬(s.state = .sending ∧ s.activeClient = some h) := by
  by_cases live : s.Registered h
  · obtain ⟨d, ok, destroyed, -⟩ := destroy_live tied live a
    dsimp only [handleRequest]
    rw [destroyed]
    exact (Turn.consistent_ofResult _ _).trans (consistent.removeCapture_iff h)
  · rw [destroy_absent tied live]
    refine iff_of_true trivial ?_
    rintro ⟨sending, active⟩
    obtain ⟨j, active', registered⟩ := consistent.sending sending
    obtain rfl : h = j := Option.some_inj.mp (active.symm.trans active')
    exact live registered

end Session

/-! ### Steps and runs -/

namespace Session

variable {s : Session}

theorem turn_consistent (consistent : s.Consistent) (tied : s.Tied) (i : Input) :
    (s.turn i).Consistent ↔ Sound (.session s) i := by
  obtain ⟨event, a⟩ := i
  -- All inputs but one spare the active client.
  have plain (spares : s.SparesActive event) : Sound (.session s) ⟨event, a⟩ ↔
      (s.givesUp ⟨event, a⟩ → s.activeClient = none) := by
    simp [Sound, spares]
  cases event with
  | capture polled =>
    exact (handleCapture_consistent consistent polled a).trans (plain trivial).symm
  | recv handle event =>
    exact (handleRecv_consistent consistent handle event a).trans (plain trivial).symm
  | pendingTick => exact (handlePendingTick_consistent consistent a).trans (plain trivial).symm
  | peerLost handle =>
    exact (handlePeerLost_consistent consistent handle a).trans (plain trivial).symm
  | monitorTick current =>
    refine iff_of_true ?_ ((plain trivial).mpr (by simp [givesUp]))
    unfold turn handleMonitorTick
    dsimp only
    split_ifs <;> exact consistent.congr rfl rfl rfl
  | watchdogLight =>
    refine iff_of_true ?_ ((plain trivial).mpr (by simp [givesUp]))
    simp only [turn, runWatchdogLight_eq consistent, ite_self]
    exact consistent
  | watchdogHeavy =>
    rw [plain trivial]
    dsimp only [givesUp, turn]
    split_ifs with enabled
    · simp only [enabled, Bool.true_and]
      exact runWatchdogHeavy_consistent consistent a
    · exact iff_of_true consistent (by simp [enabled])
  | request r =>
    cases r with
    | release =>
      exact ((Turn.consistent_ofResult _ _).trans (releaseCapture_consistent consistent a)).trans
        (plain trivial).symm
    | create h key type =>
      exact iff_of_true (create_consistent consistent tied h key type)
        ((plain trivial).mpr (by simp [givesUp]))
    | destroy h =>
      refine (destroy_consistent (a := a) consistent tied h).trans ?_
      simp [Sound, SparesActive, givesUp]
    | _ =>
      exact iff_of_true (consistent.congr rfl rfl rfl) ((plain trivial).mpr (by simp [givesUp]))

end Session

theorem consistent_gap {t : CaptureTask} : (Running.gap t).Consistent ↔ t.Consistent := by
  simp [Running.Consistent, Running.task?]

theorem consistent_panicked (p : Panic) : (Running.panicked p).Consistent := by
  simp [Running.Consistent, Running.task?]

theorem Turn.consistent_running (turn : Turn) : turn.running.Consistent ↔ turn.Consistent := by
  cases turn with
  | next s => simp [running, Running.Consistent, Running.task?, Turn.Consistent]
  | stop s =>
    exact consistent_gap.trans ⟨fun c => c.congr rfl rfl rfl, fun c => c.congr rfl rfl rfl⟩
  | panic p => exact iff_of_true (consistent_panicked p) trivial

theorem Started.consistent {t : CaptureTask} {r : Running} (started : Started t r)
    (consistent : t.Consistent) : r.Consistent := by
  cases started with
  | session tied state active captures =>
    intro u same
    obtain rfl : _ = u := Option.some_inj.mp same
    exact consistent.congr state active captures
  | gap state active captures => exact consistent_gap.mpr (consistent.congr state active captures)
  | panicked => exact consistent_panicked _

theorem wait_consistent {t : CaptureTask} (consistent : t.Consistent) (i : Input) :
    (t.wait i).Consistent ↔ Sound (.gap t) i := by
  obtain ⟨event, a⟩ := i
  unfold CaptureTask.wait
  cases event with
  | request r =>
    cases r with
    | reenable => exact iff_of_true ((doCapture_started t a).consistent consistent) trivial
    | create h key type =>
      exact iff_of_true (consistent_gap.mpr (consistent.addCapture h key type)) trivial
    | destroy h => exact consistent_gap.trans (consistent.removeCapture_iff h)
    | _ => exact iff_of_true (consistent_gap.mpr (consistent.congr rfl rfl rfl)) trivial
  | _ => exact iff_of_true (consistent_gap.mpr consistent) trivial

theorem step_consistent {r : Running} (consistent : r.Consistent) (tied : r.Tied)
    (i : Input) : (step r i).Consistent ↔ Sound r i := by
  cases r with
  | session s =>
    exact (Turn.consistent_running _).trans (Session.turn_consistent (consistent _ rfl) tied i)
  | gap t => exact wait_consistent (consistent _ rfl) i
  | panicked p => exact iff_of_true consistent trivial

/-- Over every run of the task, the state and the active client agree in all its states exactly
when no input destroys the client the task sends to or makes the task give up a hand-over while a
client is active. -/
theorem always_consistent_iff (releaseBind : List Scancode) (cfg : WatchdogConfig) (a : Answers)
    (inputs : List Input) :
    Transition.Always step Running.Consistent (start releaseBind cfg a) inputs ↔
      Transition.AllMeet step Sound (start releaseBind cfg a) inputs := by
  have started := doCapture_started (CaptureTask.new releaseBind cfg a.now) a
  have consistent := started.consistent ((consistent_idle_iff rfl).mpr rfl)
  refine Transition.always_iff_allMeet (fun r : Running => r.Consistent ∧ r.Tied)
    (fun r i ok sound => ?_) (fun r ok => ok.1) (fun r i ok agree => ?_)
    ⟨consistent, started.tied⟩ inputs
  · exact ⟨(step_consistent ok.1 ok.2 i).mpr sound, tied_step ok.2 i⟩
  · exact (step_consistent ok.1 ok.2 i).mp agree

/-- The cursor is handed over to client 1 in two steps. -/
def handOver (key : BarrierKey) : List Input :=
  [⟨.request (.create 1 key .default), { now := 0 }⟩,
    ⟨.capture (.item (key, .beginPending)), { now := 1 }⟩,
    ⟨.recv 1 (.ack 0), { now := 2 }⟩,
    ⟨.capture (.item (key, .begin)), { now := 3 }⟩]

/-- After a failed send the backend gives the cursor back but client 1 stays active; when the next
hand-over to it fails at once, the task is idle with an active client. And client 1 can be
destroyed while the task sends to it. -/
theorem inconsistent_after_handOver :
    let key : BarrierKey := ⟨.left, none, 0, 10000⟩
    let moved : CaptureEvent := .input (.pointer (.motion 0 0 0))
    let running := Transition.run step (start [29, 42, 125, 56] {} { now := 0 }) (handOver key)
    ((Transition.run step running
      [⟨.capture (.item (key, moved)), { now := 4, sent := false }⟩,
        ⟨.capture (.item (key, .beginPending)), { now := 5, sent := false }⟩]).task?.map
          fun t => (t.state, t.activeClient)) = some (.idle, some 1) ∧
    ((Transition.run step running [⟨.request (.destroy 1), { now := 4 }⟩]).task?.map
      fun t => (t.state, t.activeClient, t.captures)) = some (.sending, some 1, []) := by
  decide

end LanMouse.Capture
