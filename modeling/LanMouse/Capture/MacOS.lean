import LanMouse.Capture.Query
import LanMouse.Lib.Transition

/-!
# Capture on macOS

The callback of the event tap and the producer task share one state under a lock. The callback makes
a client pending when the cursor runs into its barrier; the producer task makes a pending client
current when the peer has answered, and hides the cursor then. Each call to hide the cursor is
counted by the system and has to be made up for by a call to show it.

The calls to the system succeed, except that the displays may not be known for a while. Events that
are never sent to the producer task are left out, and those that are sent may come at any time.
Coordinates are of any type with the operations that are used on them.
-/
namespace LanMouse.Capture.MacOS

open Proto Transition

/-- `displays` is what a refresh of the displays gives, if it succeeds. -/
inductive ProducerEvent (K : Type) where
  | release
  | create (key : BarrierKey)
  | destroy (key : BarrierKey)
  | startCapture (key : BarrierKey)
  | cancelPending (key : BarrierKey)
  | eventTapDisabled
  | displayReconfigured (displays : Option (List (DisplayBound K)))

/-- The kinds of events that the tap reports. Drags are those of any button. -/
inductive EventKind (K : Type) where
  | mouseMoved (location delta : K × K)
  | mouseDragged
  | other

/-- `inputs` is what `get_events` makes of an event. -/
inductive TapEvent (K : Type) where
  | tapDisabledByTimeout
  | tapDisabledByUserInput
  | event (kind : EventKind K) (inputs : List CaptureEvent)

inductive CaptureError where
  | eventTapDisabled
  deriving DecidableEq, Repr

/-- `hides` and `shows` count the calls to hide and to show the cursor. -/
structure InputCaptureState (K : Type) where
  activeClients : Finset BarrierKey := ∅
  currentKey : Option BarrierKey := none
  pendingKey : Option BarrierKey := none
  enterPosition : Option (K × K) := none
  displays : List (DisplayBound K)
  hides : Nat := 0
  shows : Nat := 0
  warps : List (K × K) := []
  sent : List (BarrierKey × CaptureEvent) := []

namespace InputCaptureState

variable {K : Type}

def hideCursor (s : InputCaptureState K) : InputCaptureState K := { s with hides := s.hides + 1 }

def showCursor (s : InputCaptureState K) : InputCaptureState K := { s with shows := s.shows + 1 }

def send (s : InputCaptureState K) (key : BarrierKey) (event : CaptureEvent) :
    InputCaptureState K :=
  { s with sent := s.sent ++ [(key, event)] }

/-- Show the cursor if a client is current, which it no longer is then. -/
def leaveClient (s : InputCaptureState K) : InputCaptureState K :=
  if s.currentKey.isSome then { s.showCursor with currentKey := none } else s

section Geometry

variable [Add K] [Sub K] [Zero K] [One K] [LE K] [LT K] [DecidableLE K] [DecidableLT K]

def crossed (s : InputCaptureState K) (prev curr : K × K) : Option BarrierKey :=
  crossedPure prev curr s.displays s.activeClients

def displayContainingBound (displays : List (DisplayBound K)) (point : K × K) :
    Option (DisplayBound K) :=
  displays.find? fun d =>
    d.rect.left ≤ point.1 && point.1 < d.rect.right && d.rect.top ≤ point.2 &&
      point.2 < d.rect.bottom

/-- The point just inside an edge of the display that `prev` is on. -/
def computeEdgePoint (s : InputCaptureState K) (prev : K × K) (pos : Position) :
    Option (K × K) := do
  let display ← displayContainingBound s.displays prev
  match pos with
  | .left => return (display.rect.left + 1, prev.2)
  | .right => return (display.rect.right - 1, prev.2)
  | .top => return (prev.1, display.rect.top + 1)
  | .bottom => return (prev.1, display.rect.bottom - 1)

/-- Where the cursor goes if its display is not known. -/
def nudge (prev : K × K) : Position → K × K
  | .left => (prev.1 - 1, prev.2)
  | .right => (prev.1 + 1, prev.2)
  | .top => (prev.1, prev.2 - 1)
  | .bottom => (prev.1, prev.2 + 1)

/-- It is a panic if no position was recorded. -/
def resetCursor (s : InputCaptureState K) (pos : Position) : Option (InputCaptureState K) := do
  let prev ← s.enterPosition
  let warp := (s.computeEdgePoint prev pos).getD (nudge prev pos)
  return { s with warps := s.warps ++ [warp] }

/-! ### The producer task -/

/-- The result is what the main thread is to be told. -/
def handleProducerEvent (s : InputCaptureState K) : ProducerEvent K →
    Option (Except CaptureError (Option (BarrierKey × CaptureEvent)) × InputCaptureState K)
  | .release => return (.ok none, { s.leaveClient with pendingKey := none })
  | .startCapture key =>
    if s.pendingKey ≠ some key then return (.ok none, s)
    else if s.currentKey.isNone then do
      let s := { s.hideCursor with pendingKey := none, currentKey := some key }
      let s ← s.resetCursor key.pos
      return (.ok (some (key, .begin)), s)
    else return (.ok none, { s with pendingKey := none })
  | .cancelPending key =>
    if s.pendingKey = some key then
      return (.ok (some (key, .cancelPending)), { s with pendingKey := none })
    else return (.ok none, s)
  | .create key => return (.ok none, { s with activeClients := insert key s.activeClients })
  | .destroy key =>
    let s := if s.currentKey = some key then s.leaveClient else s
    return (.ok none, { s with
      pendingKey := if s.pendingKey = some key then none else s.pendingKey
      activeClients := s.activeClients.erase key })
  | .eventTapDisabled =>
    return (.error .eventTapDisabled, { s.leaveClient with pendingKey := none })
  | .displayReconfigured displays =>
    return (.ok none, { s with displays := displays.getD s.displays })

/-- One round of the task. Errors are only logged. -/
def produce (s : InputCaptureState K) (e : ProducerEvent K) : Option (InputCaptureState K) := do
  let (result, s) ← s.handleProducerEvent e
  match result with
  | .ok (some (key, event)) => return s.send key event
  | .ok none | .error _ => return s

/-! ### The event tap -/

/-- The cursor runs into the barrier of a client. -/
def enterPending (s : InputCaptureState K) (key : BarrierKey) (prev : K × K) :
    InputCaptureState K :=
  { s with pendingKey := some key, enterPosition := some prev }.send key .beginPending

/-- A motion while no client is current. -/
def mouseMoved (s : InputCaptureState K) (location delta : K × K) : Bool × InputCaptureState K :=
  let prev := location
  let curr := (location.1 + delta.1, location.2 + delta.2)
  match s.pendingKey, s.crossed prev curr with
  | some pendingKey, none =>
    (false, { s with pendingKey := none }.send pendingKey .cancelPending)
  | some pendingKey, some otherKey =>
    if otherKey ≠ pendingKey then
      (true, (s.send pendingKey .cancelPending).enterPending otherKey prev)
    else (false, s)
  | none, some newKey => (true, s.enterPending newKey prev)
  | none, none => (false, s)

/-- The flag tells whether the event is kept from the applications. -/
def eventTapCallback (s : InputCaptureState K) :
    TapEvent K → Option (Bool × InputCaptureState K)
  | .tapDisabledByTimeout => return (false, s)
  | .tapDisabledByUserInput => return (false, s.leaveClient)
  | .event kind inputs =>
    match s.currentKey, kind with
    | some key, .other => return (true, inputs.foldl (fun s input => s.send key input) s)
    | some key, _ => do
      let s ← s.resetCursor key.pos
      return (true, inputs.foldl (fun s input => s.send key input) s)
    | none, .mouseMoved location delta => return s.mouseMoved location delta
    | none, _ => return (false, s)

inductive Event (K : Type) where
  | tap (event : TapEvent K)
  | producer (event : ProducerEvent K)

def step (s : InputCaptureState K) : Event K → Option (InputCaptureState K)
  | .tap event => (s.eventTapCallback event).map Prod.snd
  | .producer event => s.produce event

end Geometry

/-! ### Keys and the cursor -/

/-- At most one key is set, and it is that of a client; the position where the cursor entered is
known; and the cursor is hidden once while a client is current. -/
structure Sound (s : InputCaptureState K) : Prop where
  one : s.currentKey = none ∨ s.pendingKey = none
  current : ∀ key, s.currentKey = some key → key ∈ s.activeClients
  pending : ∀ key, s.pendingKey = some key → key ∈ s.activeClients
  entered : s.currentKey.isSome ∨ s.pendingKey.isSome → s.enterPosition.isSome
  balance : (s.hides : Int) - s.shows = if s.currentKey.isSome then 1 else 0

variable {s s' : InputCaptureState K}

theorem Sound.of_same (sound : s.Sound) (clients : s'.activeClients = s.activeClients)
    (current : s'.currentKey = s.currentKey) (pending : s'.pendingKey = s.pendingKey)
    (entered : s'.enterPosition = s.enterPosition) (hides : s'.hides = s.hides)
    (shows_ : s'.shows = s.shows) : s'.Sound := by
  constructor
  · rw [current, pending]
    exact sound.one
  · rw [current, clients]
    exact sound.current
  · rw [pending, clients]
    exact sound.pending
  · rw [current, pending, entered]
    exact sound.entered
  · rw [current, hides, shows_]
    exact sound.balance

theorem Sound.send (sound : s.Sound) (key : BarrierKey) (event : CaptureEvent) :
    (s.send key event).Sound := sound.of_same rfl rfl rfl rfl rfl rfl

theorem Sound.dropPending (sound : s.Sound) : { s with pendingKey := none }.Sound :=
  ⟨.inr rfl, sound.current, nofun, fun set => sound.entered (.inl (set.resolve_right nofun)),
    sound.balance⟩

theorem Sound.leaveClient (sound : s.Sound) : s.leaveClient.Sound := by
  have balance := sound.balance
  unfold InputCaptureState.leaveClient
  split_ifs at balance ⊢ with capturing
  · refine ⟨.inl rfl, nofun, sound.pending, fun set => sound.entered (.inl capturing), ?_⟩
    simp only [showCursor, Option.isSome_none, Bool.false_eq_true, if_false]
    omega
  · exact sound

theorem leaveClient_spec (s : InputCaptureState K) : s.leaveClient.currentKey = none ∧
    s.leaveClient.pendingKey = s.pendingKey ∧ s.leaveClient.activeClients = s.activeClients := by
  unfold leaveClient
  split_ifs with capturing
  · exact ⟨rfl, rfl, rfl⟩
  · exact ⟨Option.not_isSome_iff_eq_none.mp capturing, rfl, rfl⟩

/-- A client may become pending while none is current. -/
theorem Sound.enterPending (sound : s.Sound) (free : s.currentKey = none) {key : BarrierKey}
    (registered : key ∈ s.activeClients) (prev : K × K) : (s.enterPending key prev).Sound := by
  have pended : { s with pendingKey := some key, enterPosition := some prev }.Sound := by
    refine ⟨.inl free, sound.current, ?_, fun _ => rfl, sound.balance⟩
    rintro _ ⟨⟩
    exact registered
  exact pended.send key .beginPending

/-- A pending client becomes current, and the cursor is hidden. -/
theorem Sound.promote (sound : s.Sound) {key : BarrierKey} (pending : s.pendingKey = some key)
    (free : s.currentKey = none) :
    { s.hideCursor with pendingKey := none, currentKey := some key }.Sound := by
  refine ⟨.inr rfl, ?_, nofun, fun _ => sound.entered (.inr (by rw [pending]; rfl)), ?_⟩
  · rintro _ ⟨⟩
    exact sound.pending key pending
  · have balance := sound.balance
    rw [free] at balance
    simp only [hideCursor, Option.isSome_some, if_true, Option.isSome_none, Bool.false_eq_true,
      if_false] at balance ⊢
    omega

theorem Sound.create (sound : s.Sound) (key : BarrierKey) :
    { s with activeClients := insert key s.activeClients }.Sound :=
  ⟨sound.one, fun k is => Finset.mem_insert_of_mem (sound.current k is),
    fun k is => Finset.mem_insert_of_mem (sound.pending k is), sound.entered, sound.balance⟩

/-- A client that is not current may be destroyed. -/
theorem Sound.destroy (sound : s.Sound) {key : BarrierKey} (free : s.currentKey ≠ some key) :
    { s with
      pendingKey := if s.pendingKey = some key then none else s.pendingKey
      activeClients := s.activeClients.erase key }.Sound := by
  constructor <;> dsimp only
  case one =>
    refine sound.one.imp_right fun none_ => ?_
    simp [none_]
  case current =>
    intro k is
    refine Finset.mem_erase_of_ne_of_mem ?_ (sound.current k is)
    rintro rfl
    exact free is
  case pending =>
    intro k is
    split_ifs at is with own
    refine Finset.mem_erase_of_ne_of_mem ?_ (sound.pending k is)
    rintro rfl
    exact own is
  case entered =>
    intro set
    refine sound.entered (set.imp_right fun is => ?_)
    split_ifs at is
    · cases is
    · exact is
  case balance => exact sound.balance

theorem Sound.foldl_send (sound : s.Sound) (key : BarrierKey) (inputs : List CaptureEvent) :
    (inputs.foldl (fun s input => s.send key input) s).Sound := by
  induction inputs generalizing s with
  | nil => exact sound
  | cons input inputs ih => exact ih (sound.send key input)

section Geometry

variable [Add K] [Sub K] [LE K] [LT K] [DecidableLE K] [DecidableLT K]

theorem Sound.mouseMoved [Zero K] (sound : s.Sound) (free : s.currentKey = none)
    (location delta : K × K) : (s.mouseMoved location delta).2.Sound := by
  unfold InputCaptureState.mouseMoved
  dsimp only
  split
  · exact sound.dropPending.send _ _
  · next otherKey pending crossed =>
    split_ifs
    · exact (sound.send _ _).enterPending free (mem_of_queryPure crossed) _
    · exact sound
  · next newKey pending crossed => exact sound.enterPending free (mem_of_queryPure crossed) _
  · exact sound

variable [One K]

/-- The cursor can be reset while a client is current. -/
theorem Sound.resetCursor (sound : s.Sound) (capturing : s.currentKey.isSome) (pos : Position) :
    ∃ s', s.resetCursor pos = some s' ∧ s'.Sound := by
  obtain ⟨prev, entered⟩ := Option.isSome_iff_exists.mp (sound.entered (.inl capturing))
  let warp := (s.computeEdgePoint prev pos).getD (nudge prev pos)
  refine ⟨{ s with warps := s.warps ++ [warp] }, ?_, sound.of_same rfl rfl rfl rfl rfl rfl⟩
  unfold InputCaptureState.resetCursor
  simp only [entered, Option.bind_eq_bind, Option.bind_some]
  rfl

theorem Sound.handleProducerEvent (sound : s.Sound) (e : ProducerEvent K) :
    ∃ result s', s.handleProducerEvent e = some (result, s') ∧ s'.Sound := by
  cases e with
  | release => exact ⟨_, _, rfl, sound.leaveClient.dropPending⟩
  | eventTapDisabled => exact ⟨_, _, rfl, sound.leaveClient.dropPending⟩
  | create key => exact ⟨_, _, rfl, sound.create key⟩
  | displayReconfigured displays => exact ⟨_, _, rfl, sound.of_same rfl rfl rfl rfl rfl rfl⟩
  | destroy key =>
    refine ⟨_, _, rfl, ?_⟩
    by_cases own : s.currentKey = some key
    · rw [if_pos own]
      refine sound.leaveClient.destroy ?_
      rw [(leaveClient_spec s).1]
      nofun
    · rw [if_neg own]
      exact sound.destroy own
  | cancelPending key =>
    dsimp only [InputCaptureState.handleProducerEvent]
    split_ifs
    · exact ⟨_, _, rfl, sound.dropPending⟩
    · exact ⟨_, _, rfl, sound⟩
  | startCapture key =>
    dsimp only [InputCaptureState.handleProducerEvent]
    split_ifs with other free
    · exact ⟨_, _, rfl, sound⟩
    · have promoted := sound.promote (not_not.mp other) (Option.isNone_iff_eq_none.mp free)
      obtain ⟨s', reset, sound'⟩ := promoted.resetCursor rfl key.pos
      rw [reset]
      exact ⟨_, _, rfl, sound'⟩
    · exact ⟨_, _, rfl, sound.dropPending⟩

theorem Sound.produce (sound : s.Sound) (e : ProducerEvent K) :
    ∃ s', s.produce e = some s' ∧ s'.Sound := by
  obtain ⟨result, s', handled, sound'⟩ := sound.handleProducerEvent e
  unfold InputCaptureState.produce
  rw [handled]
  match result with
  | .ok (some (key, event)) => exact ⟨_, rfl, sound'.send key event⟩
  | .ok none => exact ⟨_, rfl, sound'⟩
  | .error _ => exact ⟨_, rfl, sound'⟩

variable [Zero K]

theorem Sound.eventTapCallback (sound : s.Sound) (e : TapEvent K) :
    ∃ drop s', s.eventTapCallback e = some (drop, s') ∧ s'.Sound := by
  cases e with
  | tapDisabledByTimeout => exact ⟨_, _, rfl, sound⟩
  | tapDisabledByUserInput => exact ⟨_, _, rfl, sound.leaveClient⟩
  | event kind inputs =>
    cases capturing : s.currentKey with
    | none =>
      cases kind with
      | mouseMoved location delta =>
        refine ⟨(s.mouseMoved location delta).1, _, ?_, sound.mouseMoved capturing location delta⟩
        simp only [InputCaptureState.eventTapCallback, capturing]
        rfl
      | mouseDragged | other =>
        refine ⟨false, s, ?_, sound⟩
        simp only [InputCaptureState.eventTapCallback, capturing]
        rfl
    | some key =>
      obtain ⟨s', reset, sound'⟩ := sound.resetCursor (by rw [capturing]; rfl) key.pos
      cases kind with
      | mouseMoved | mouseDragged =>
        refine ⟨true, _, ?_, sound'.foldl_send key inputs⟩
        simp only [InputCaptureState.eventTapCallback, capturing, reset]
        rfl
      | other =>
        refine ⟨true, _, ?_, sound.foldl_send key inputs⟩
        simp only [InputCaptureState.eventTapCallback, capturing]
        rfl

/-- Whatever the tap and the producer task do, and in whatever order, the keys, the position and the
cursor stay in step. -/
theorem keys_and_cursor_sound (displays : List (DisplayBound K)) (events : List (Event K)) :
    Always (fun s e => s.bind fun s : InputCaptureState K => s.step e)
      (fun s => ∃ t, s = some t ∧ t.Sound) (some { displays }) events := by
  refine always_of_inv _ ?_ (fun _ inv => inv) ?_ events
  · rintro _ e ⟨s, rfl, sound⟩
    cases e with
    | tap event =>
      obtain ⟨drop, s', called, sound'⟩ := sound.eventTapCallback event
      refine ⟨s', ?_, sound'⟩
      simp only [Option.bind_some, step, called, Option.map_some]
    | producer event => exact sound.produce event
  · exact ⟨_, rfl, .inl rfl, nofun, nofun, nofun, rfl⟩

end Geometry

end InputCaptureState

end LanMouse.Capture.MacOS
