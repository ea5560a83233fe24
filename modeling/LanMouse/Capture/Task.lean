import LanMouse.Capture.InputCapture

/-!
# The capture task

`CaptureTask` owns the hand-over of the cursor to a client. It runs capture sessions, each with a
fresh `InputCapture`, and between two sessions waits to be re-enabled. Its own fields outlive the
sessions.

An input of the task is one ready arm of its loop together with the answers that the backend, the
connection and the clock give while the arm runs. Shutdown is not modelled.
-/
namespace LanMouse.Capture

open Proto

inductive CaptureType where
  | default
  | enterOnly
  deriving DecidableEq, Repr

inductive ICaptureEvent where
  | captureBegin (handle : CaptureHandle)
  | captureDisabled
  | captureEnabled
  | clientEntered (handle : CaptureHandle)
  | monitorsChanged (monitors : List MonitorInfo)
  deriving DecidableEq, Repr

inductive CaptureRequest where
  | release
  | create (handle : CaptureHandle) (key : BarrierKey) (type : CaptureType)
  | destroy (handle : CaptureHandle)
  | reenable
  | setReleaseBind (bind : List Scancode)
  | dial (handle : CaptureHandle)
  | sendClip (event : ProtoEvent) (handle : CaptureHandle)
  deriving DecidableEq, Repr

/-- Times are in milliseconds. -/
inductive State where
  | idle
  | pending (handle : CaptureHandle) (key : BarrierKey) (started : Nat)
  | sending
  deriving DecidableEq, Repr

def pendingAckTimeout : Nat := 500

/-- `enabled` already takes the environment variable `LAN_MOUSE_WATCHDOG` into account. -/
structure WatchdogConfig where
  enabled : Bool := true
  ghostActiveCheck : Bool := true
  crossingStormCheck : Bool := true
  sendFailuresCheck : Bool := true
  noProgressCheck : Bool := true
  crossingWindow : Nat := 5000
  crossingStormThreshold : Nat := 5
  sendFailuresThreshold : Nat := 3
  noProgressTimeout : Nat := 8000
  deriving DecidableEq, Repr

def WatchdogConfig.anyCheckEnabled (cfg : WatchdogConfig) : Bool :=
  cfg.enabled &&
    (cfg.ghostActiveCheck || cfg.crossingStormCheck || cfg.sendFailuresCheck ||
      cfg.noProgressCheck)

structure WatchdogState where
  consecutiveSendFailures : Nat
  recentCrossings : List Nat
  lastProgressAt : Nat
  deriving DecidableEq, Repr

/-- What the task does to its surroundings, failed sends included. -/
inductive Effect where
  | send (event : ProtoEvent) (handle : CaptureHandle)
  | dial (handle : CaptureHandle)
  | notify (event : ICaptureEvent)
  | startCapture (key : BarrierKey)
  | cancelPending (key : BarrierKey)
  | release
  deriving DecidableEq, Repr

structure CaptureTask where
  activeClient : Option CaptureHandle
  captures : List (CaptureHandle × BarrierKey × CaptureType)
  state : State
  releaseBind : List Scancode
  watchdog : WatchdogState
  watchdogConfig : WatchdogConfig
  lastMonitors : List MonitorInfo
  effects : List Effect

/-- A capture session: the task's own fields and the session's input capture. -/
structure Session extends CaptureTask where
  capture : InputCapture

/-- What the backend, the connection and the clock answer while one input is handled. A new
backend reports its monitors. -/
structure Answers where
  now : Nat
  opened : Option (List MonitorInfo) := some []
  created : BarrierKey → Bool := fun _ => true
  destroyed : Bool := true
  released : Bool := true
  started : Bool := true
  sent : Bool := true

/-- How handling one input ends: the session goes on, it ends, or the task panics. -/
inductive Turn where
  | next (s : Session)
  | stop (s : Session)
  | panic (p : Panic)

def Turn.ofResult : Session × Bool → Turn
  | (s, true) => .next s
  | (s, false) => .stop s

/-! ### Fields of the task -/

namespace CaptureTask

def new (releaseBind : List Scancode) (cfg : WatchdogConfig) (now : Nat) : CaptureTask where
  activeClient := none
  captures := []
  state := .idle
  releaseBind := releaseBind
  watchdog := ⟨0, [], now⟩
  watchdogConfig := cfg
  lastMonitors := []
  effects := []

def addCapture (t : CaptureTask) (handle : CaptureHandle) (key : BarrierKey)
    (type : CaptureType) : CaptureTask :=
  { t with captures := t.captures ++ [(handle, key, type)] }

def removeCapture (t : CaptureTask) (handle : CaptureHandle) : CaptureTask :=
  { t with captures := t.captures.filter fun c => handle ≠ c.1 }

def isDefaultCaptureAt (t : CaptureTask) (key : BarrierKey) : Bool :=
  t.captures.any fun c => c.2.1 = key && c.2.2 = .default

/-- The entry of a handle; the source panics when there is none. -/
def getCapture (t : CaptureTask) (handle : CaptureHandle) : Option (BarrierKey × CaptureType) :=
  (t.captures.find? fun c => c.1 = handle).map (·.2)

def emit (t : CaptureTask) (e : Effect) : CaptureTask := { t with effects := t.effects ++ [e] }

def progress (t : CaptureTask) (now : Nat) : CaptureTask :=
  { t with watchdog.consecutiveSendFailures := 0, watchdog.lastProgressAt := now }

def sendFailed (t : CaptureTask) : CaptureTask :=
  { t with
    watchdog.consecutiveSendFailures :=
      min (t.watchdog.consecutiveSendFailures + 1) (2 ^ 32 - 1) }

/-- The watchdog's state after a release. -/
def recovered (t : CaptureTask) (now : Nat) : CaptureTask := { t with watchdog := ⟨0, [], now⟩ }

end CaptureTask

/-! ### Handlers of a session -/

namespace Session

def mapTask (s : Session) (f : CaptureTask → CaptureTask) : Session :=
  { s with toCaptureTask := f s.toCaptureTask }

def emit (s : Session) (e : Effect) : Session := s.mapTask (·.emit e)

def releaseBackend (s : Session) : Session :=
  { s.emit .release with capture := s.capture.release }

def keyUp (key : Scancode) : ProtoEvent :=
  .input (.keyboard (.key 0 (UInt32.ofNat key.val) 0))

def modifiersZero : ProtoEvent := .input (.keyboard (.modifiers 0 0 0 0))

/-- Take leave of the active client: lift its keys, reset its modifiers and tell it. -/
def leaveActive (s : Session) : Session :=
  match s.activeClient with
  | none => s
  | some handle =>
    let (heldKeys, capture) := s.capture.takePressedKeys
    { s with
      activeClient := none
      capture := capture
      effects := s.effects ++ heldKeys.map (fun key => .send (keyUp key) handle) ++
        [.send modifiersZero handle, .send (.leave 0) handle] }

def shouldSkipRelease (s : Session) : Bool := s.state = .idle && s.activeClient.isNone

def releaseCapture (s : Session) (a : Answers) : Session × Bool :=
  if s.shouldSkipRelease then (s.mapTask (·.recovered a.now), true)
  else
    match s.state with
    | .pending _ key _ =>
      let s := { s.emit (.cancelPending key) with state := .idle }
      (s.releaseBackend.mapTask (·.recovered a.now), a.released)
    | _ =>
      let s := { s.leaveActive with state := .idle }
      (s.releaseBackend.mapTask (·.recovered a.now), a.released)

def handleBeginPending (s : Session) (handle : CaptureHandle) (key : BarrierKey) (a : Answers) :
    Session :=
  let s := { s with
    state := .pending handle key a.now
    watchdog.recentCrossings := s.watchdog.recentCrossings ++ [a.now] }
  let s := s.emit (.send (.enter (opposite key.pos)) handle)
  if a.sent then s.mapTask (·.progress a.now)
  else ({ s.emit (.cancelPending key) with state := .idle }).mapTask (·.sendFailed)

def handleCancelPending (s : Session) (handle : CaptureHandle) (key : BarrierKey) : Session :=
  let s := s.emit (.cancelPending key)
  match s.state with
  | .pending h _ _ => if h = handle then { s with state := .idle } else s
  | _ => s

def enterClient (s : Session) (handle : CaptureHandle) : Session :=
  if some handle ≠ s.activeClient then
    { s.emit (.notify (.clientEntered handle)) with activeClient := some handle }
  else s

/-- Whether this is the second half of a hand-over that `BeginPending` started. -/
def promotes (s : Session) (handle : CaptureHandle) : Bool :=
  match s.state with
  | .pending h _ _ => h = handle
  | _ => false

def handleBegin (s : Session) (handle : CaptureHandle) (key : BarrierKey) (a : Answers) : Turn :=
  let promoted := s.promotes handle
  let s := { s.enterClient handle with state := .sending }
  if promoted then .next (s.mapTask (·.progress a.now))
  else
    let s := s.emit (.send (.enter (opposite key.pos)) handle)
    if a.sent then .next (s.mapTask (·.progress a.now))
    else .ofResult ((s.mapTask (·.sendFailed)).releaseBackend, a.released)

def handleInput (s : Session) (handle : CaptureHandle) (e : InputEvent) (a : Answers) : Turn :=
  match s.state with
  | .sending =>
    let s := s.emit (.send (.input e) handle)
    if a.sent then .next (s.mapTask (·.progress a.now))
    else .ofResult ((s.mapTask (·.sendFailed)).releaseBackend, a.released)
  | _ => .next s

/-- A handle for incoming connections only triggers a message to the service. -/
def handleEnterOnly (s : Session) (handle : CaptureHandle) (key : BarrierKey)
    (event : CaptureEvent) (a : Answers) : Turn :=
  let s := if event = .begin ∨ event = .beginPending then
    s.emit (.notify (.captureBegin handle)) else s
  if s.isDefaultCaptureAt key then .next s else .ofResult (s.releaseBackend, a.released)

def handleCaptureEvent (s : Session) (handle : CaptureHandle) (event : CaptureEvent)
    (a : Answers) : Turn :=
  if s.capture.keysPressed s.releaseBind then .ofResult (s.releaseCapture a)
  else
    match s.getCapture handle with
    | none => .panic .noSuchCapture
    | some (key, .enterOnly) => s.handleEnterOnly handle key event a
    | some (key, .default) =>
      match event with
      | .beginPending => .next (s.handleBeginPending handle key a)
      | .cancelPending => .next (s.handleCancelPending handle key)
      | .begin => (s.emit (.notify (.captureBegin handle))).handleBegin handle key a
      | .input e => s.handleInput handle e a

def handleAck (s : Session) (handle : CaptureHandle) (a : Answers) : Session :=
  match s.state with
  | .pending h key _ =>
    if h = handle then
      let s := s.emit (.startCapture key)
      if a.started then s else { s.emit (.cancelPending key) with state := .idle }
    else s
  | _ => if s.activeClient.isSome then { s with state := .sending } else s

def handleRecv (s : Session) (handle : CaptureHandle) (event : ProtoEvent) (a : Answers) : Turn :=
  if s.activeClient.any (handle ≠ ·) then .next s
  else
    let s := s.mapTask (·.progress a.now)
    match event with
    | .ack _ => .next (s.handleAck handle a)
    | .leave _ => .ofResult (s.releaseCapture a)
    | _ => .next s

def withCapture (s : Session) : Except Panic (InputCapture × Bool) → Turn
  | .ok (capture, ok) => .ofResult ({ s with capture := capture }, ok)
  | .error p => .panic p

def handleRequest (s : Session) (r : CaptureRequest) (a : Answers) : Turn :=
  match r with
  | .reenable => .next s
  | .release => .ofResult (s.releaseCapture a)
  | .create h key type =>
    (s.mapTask (·.addCapture h key type)).withCapture (s.capture.create h key (a.created key))
  | .destroy h => (s.mapTask (·.removeCapture h)).withCapture (s.capture.destroy h a.destroyed)
  | .setReleaseBind bind => .next { s with releaseBind := bind }
  | .dial handle => .next (s.emit (.dial handle))
  | .sendClip event handle => .next (s.emit (.send event handle))

def handlePendingTick (s : Session) (a : Answers) : Session :=
  match s.state with
  | .pending _ key started =>
    if pendingAckTimeout ≤ a.now - started then
      { s.emit (.cancelPending key) with state := .idle }
    else s
  | _ => s

def runWatchdogLight (s : Session) (a : Answers) : Session :=
  if s.watchdogConfig.ghostActiveCheck && s.state = .sending && s.activeClient.isNone then
    ({ s with state := .idle }).releaseBackend.mapTask (·.progress a.now)
  else s

def expireCrossings (s : Session) (now : Nat) : Session :=
  { s with
    watchdog.recentCrossings := s.watchdog.recentCrossings.dropWhile fun front =>
      s.watchdogConfig.crossingWindow < now - front }

def crossingStorm (s : Session) : Bool :=
  s.watchdogConfig.crossingStormThreshold ≤ s.watchdog.recentCrossings.length &&
    s.state = .idle && s.activeClient.isNone

def sendFailureStorm (s : Session) : Bool :=
  s.watchdogConfig.sendFailuresCheck && s.state = .sending &&
    s.watchdogConfig.sendFailuresThreshold ≤ s.watchdog.consecutiveSendFailures

def noProgress (s : Session) (now : Nat) : Bool :=
  s.watchdogConfig.noProgressCheck && s.state ≠ .idle &&
    s.watchdogConfig.noProgressTimeout < now - s.watchdog.lastProgressAt

/-- The last two checks of the heavy watchdog. -/
def runStallChecks (s : Session) (a : Answers) : Session :=
  if s.sendFailureStorm then
    (({ s with watchdog.consecutiveSendFailures := 0 }).releaseCapture a).1
  else if s.noProgress a.now then (s.releaseCapture a).1
  else s

def runWatchdogHeavy (s : Session) (a : Answers) : Session :=
  if s.watchdogConfig.crossingStormCheck then
    let s := s.expireCrossings a.now
    if s.crossingStorm then (s.releaseCapture a).1 else s.runStallChecks a
  else s.runStallChecks a

/-- `none` stands for the closed channel. -/
def handlePeerLost (s : Session) (handle : Option CaptureHandle) (a : Answers) : Turn :=
  match handle with
  | none => if s.activeClient.isSome then .ofResult (s.releaseCapture a) else .next s
  | some handle =>
    if s.activeClient = some handle then .ofResult (s.releaseCapture a) else .next s

def handleMonitorTick (s : Session) (current : List MonitorInfo) : Session :=
  if current ≠ s.lastMonitors then
    { s.emit (.notify (.monitorsChanged current)) with lastMonitors := current }
  else s

def handleCapture (s : Session) (polled : Polled (BarrierKey × CaptureEvent)) (a : Answers) :
    Turn :=
  let (next, capture) := s.capture.pollNext polled
  let s := { s with capture := capture }
  match next with
  | .pending => .next s
  | .ended => .stop s
  | .failed => .stop s
  | .item (handle, event) => s.handleCaptureEvent handle event a

end Session

/-! ### The task's loop -/

inductive Event where
  | capture (polled : Polled (BarrierKey × CaptureEvent))
  | recv (handle : CaptureHandle) (event : ProtoEvent)
  | request (r : CaptureRequest)
  | pendingTick
  | watchdogLight
  | watchdogHeavy
  | peerLost (handle : Option CaptureHandle)
  | monitorTick (current : List MonitorInfo)
  deriving DecidableEq, Repr

structure Input where
  event : Event
  answers : Answers

/-- Where the task is. -/
inductive Running where
  | session (s : Session)
  | gap (t : CaptureTask)
  | panicked (p : Panic)

def Session.turn (s : Session) (i : Input) : Turn :=
  match i.event with
  | .capture polled => s.handleCapture polled i.answers
  | .recv handle event => s.handleRecv handle event i.answers
  | .request r => s.handleRequest r i.answers
  | .pendingTick => .next (s.handlePendingTick i.answers)
  | .watchdogLight =>
    .next (if s.watchdogConfig.anyCheckEnabled then s.runWatchdogLight i.answers else s)
  | .watchdogHeavy =>
    .next (if s.watchdogConfig.anyCheckEnabled then s.runWatchdogHeavy i.answers else s)
  | .peerLost handle => s.handlePeerLost handle i.answers
  | .monitorTick current => .next (s.handleMonitorTick current)

def Turn.running : Turn → Running
  | .next s => .session s
  | .stop s => .gap (s.toCaptureTask.emit (.notify .captureDisabled))
  | .panic p => .panicked p

/-- Create the barriers of all registered captures; the result tells whether all succeeded. -/
def createCaptures (created : BarrierKey → Bool) :
    InputCapture → List (CaptureHandle × BarrierKey × CaptureType) →
      Except Panic (InputCapture × Bool)
  | c, [] => .ok (c, true)
  | c, (handle, key, _) :: rest =>
    match c.create handle key (created key) with
    | .error p => .error p
    | .ok (c, true) => createCaptures created c rest
    | .ok (c, false) => .ok (c, false)

def CaptureTask.doCapture (t : CaptureTask) (a : Answers) : Running :=
  match a.opened with
  | none => .gap t
  | some initial =>
    let t := { t with lastMonitors := initial }
    let t := (t.emit (.notify (.monitorsChanged initial))).emit (.notify .captureEnabled)
    match createCaptures a.created .new t.captures with
    | .error p => .panicked p
    | .ok (capture, true) => .session ⟨t, capture⟩
    | .ok (_, false) => .gap (t.emit (.notify .captureDisabled))

/-- Between two sessions only requests are taken. -/
def CaptureTask.wait (t : CaptureTask) (i : Input) : Running :=
  match i.event with
  | .request .reenable => t.doCapture i.answers
  | .request (.create h key type) => .gap (t.addCapture h key type)
  | .request (.destroy h) => .gap (t.removeCapture h)
  | .request .release => .gap t
  | .request (.setReleaseBind bind) => .gap { t with releaseBind := bind }
  | .request (.dial handle) => .gap (t.emit (.dial handle))
  | .request (.sendClip event handle) => .gap (t.emit (.send event handle))
  | _ => .gap t

def step : Running → Input → Running
  | .session s, i => (s.turn i).running
  | .gap t, i => t.wait i
  | .panicked p, _ => .panicked p

/-- The task right after its first attempt to start a session. -/
def start (releaseBind : List Scancode) (cfg : WatchdogConfig) (a : Answers) : Running :=
  (CaptureTask.new releaseBind cfg a.now).doCapture a

end LanMouse.Capture
