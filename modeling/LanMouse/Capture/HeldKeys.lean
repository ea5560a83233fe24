import LanMouse.Capture.Consistency

/-!
# Keys held at a client

The client that gets a key-down and no key-up goes on with the key held. The task does not keep
account of what it has sent: when it takes leave of a client it lifts the keys in the input
capture's set of pressed keys. The ledger here keeps that account from the messages themselves. A
key-down counts when its send succeeded, a key-up when it was tried.

The set follows what is polled, not what is sent, and it is cleared with every release of the
backend. It covers the ledger as long as none of the ways in which the two come apart is taken while
a key is held; `Careful` lists them.
-/
namespace LanMouse.Capture

open Proto Transition

/-- The keys held at each client. -/
abbrev Held := List (CaptureHandle × UInt32)

/-- The key and the state of a key event. -/
def CaptureEvent.key? : CaptureEvent → Option (UInt32 × UInt8)
  | .input (.keyboard (.key _ key state)) => some (key, state)
  | _ => none

/-- Only the keys that are held are looked at, not every key there can be. -/
instance (priority := high) (held : Held) (p : CaptureHandle × UInt32 → Prop) [DecidablePred p] :
    Decidable (∀ x ∈ held, p x) :=
  List.decidableBAll p held

instance (priority := high) (event : CaptureEvent) (p : UInt32 × UInt8 → Prop) [DecidablePred p] :
    Decidable (∀ k ∈ event.key?, p k) :=
  Option.decidableForallMem event.key?

/-- The event is the key-up that the client `x.1` waits for to lift the key `x.2`. -/
def Lifts (handle : CaptureHandle) (event : CaptureEvent) (x : CaptureHandle × UInt32) : Prop :=
  handle = x.1 ∧ event.key? = some (x.2, 0)

instance (handle : CaptureHandle) (event : CaptureEvent) (x : CaptureHandle × UInt32) :
    Decidable (Lifts handle event x) :=
  inferInstanceAs (Decidable (_ ∧ _))

namespace InputCapture

/-- The key is in the set of pressed keys. -/
def presses (c : InputCapture) (key : UInt32) : Bool :=
  (Scancode.tryFrom key).any c.pressedKeys.contains

/-- The key-up is queued. -/
def Awaits (c : InputCapture) (x : CaptureHandle × UInt32) : Prop :=
  ∃ e ∈ c.pending, Lifts e.1 e.2 x

instance (c : InputCapture) (x : CaptureHandle × UInt32) : Decidable (c.Awaits x) :=
  inferInstanceAs (Decidable (∃ e ∈ c.pending, _))

/-- The next backend event does not take the key out of the set, unless the client gets it. -/
def Reaches (c : InputCapture) (x : CaptureHandle × UInt32) :
    Polled (BarrierKey × CaptureEvent) → Prop
  | .item (key, event) => c.pending = [] → ∀ k ∈ event.key?, k.1 = x.2 →
    k.2 = 1 ∨ k.2 = 0 ∧ x.1 ∈ (c.positionMap.lookup key).getD []
  | _ => True

instance (c : InputCapture) (x : CaptureHandle × UInt32)
    (polled : Polled (BarrierKey × CaptureEvent)) : Decidable (c.Reaches x polled) :=
  match polled with
  | .item (_, _) => inferInstanceAs (Decidable (_ → ∀ k ∈ _, _))
  | .pending | .ended | .failed => isTrue trivial

end InputCapture

/-! ### The ledger -/

def note (sent : Bool) (held : Held) : Effect → Held
  | .send (.input (.keyboard (.key _ key state))) h =>
    if state = 0 then held.filter (· ≠ (h, key)) else if sent then held.insert (h, key) else held
  | _ => held

/-- No Leave for a client that holds keys, and no input for another client meanwhile. -/
def Allowed (held : Held) : Effect → Prop
  | .send (.input _) h => ∀ x ∈ held, x.1 = h
  | .send (.leave _) h => ∀ x ∈ held, x.1 ≠ h
  | _ => True

def Running.effects (r : Running) : List Effect := (r.task?.map (·.effects)).getD []

/-- The task with the ledger of the keys that its messages have left held. -/
structure Ledger where
  task : Running
  held : Held := []

namespace Ledger

/-- What the task does in one turn. -/
def newEffects (l : Ledger) (i : Input) : List Effect :=
  (Capture.step l.task i).effects.drop l.task.effects.length

def step (l : Ledger) (i : Input) : Ledger where
  task := Capture.step l.task i
  held := run (note i.answers.sent) l.held (l.newEffects i)

/-- In one turn every key held at a client is lifted before the task takes leave of it and before it
sends input to another. -/
def LiftsFirst (l : Ledger) (i : Input) : Prop :=
  AllMeet (note i.answers.sent) Allowed l.held (l.newEffects i)

/-- Keys are held only at the active client. -/
def OnlyActive (l : Ledger) : Prop :=
  ∀ t ∈ l.task.task?, ∀ x ∈ l.held, t.activeClient = some x.1

end Ledger

/-! ### Turns that keep the account -/

namespace Session

/-- A release lifts what is held: it is not taken for the end of a pending hand-over, and no key-up
is still queued. -/
def CanRelease (s : Session) (held : Held) : Prop :=
  ∀ x ∈ held, s.state.isPending = false ∧ ¬ s.capture.Awaits x

/-- The conditions on an event that the stream yields, once its key is tracked. -/
def Minds (s : Session) (held : Held) (handle : CaptureHandle) (event : CaptureEvent)
    (a : Answers) : Prop :=
  if s.capture.keysPressed s.releaseBind then
    s.CanRelease held ∧ ∀ x ∈ held, ¬ Lifts handle event x
  else
    match s.getCapture handle, event with
    | none, _ => True
    | some (key, .enterOnly), event =>
      if s.isDefaultCaptureAt key then ∀ x ∈ held, ¬ Lifts handle event x else held = []
    | some (_, .default), .begin => ∀ x ∈ held, x.1 = handle ∧ (s.promotes handle ∨ a.sent)
    | some (_, .default), .input e =>
      if s.state = .sending then
        (∀ x ∈ held, x.1 = handle) ∧ (a.sent = false → ∀ x ∈ held, Lifts handle (.input e) x) ∧
          ∀ k ∈ (CaptureEvent.input e).key?, k.2 ≠ 0 → a.sent = true →
            s.activeClient = some handle ∧ s.capture.presses k.1 = true
      else ∀ x ∈ held, ¬ Lifts handle (.input e) x
    | _, _ => True

instance (s : Session) (held : Held) : Decidable (s.CanRelease held) :=
  inferInstanceAs (Decidable (∀ x ∈ held, _))

instance (s : Session) (held : Held) (handle : CaptureHandle) (event : CaptureEvent) (a : Answers) :
    Decidable (s.Minds held handle event a) := by
  unfold Minds
  split
  · infer_instance
  · split <;> infer_instance

/-- The conditions on an input while keys are held. -/
def Careful (s : Session) (held : Held) (i : Input) : Prop :=
  match i.event with
  | .capture polled =>
    (∀ x ∈ held, s.capture.Reaches x polled) ∧
      match s.capture.pollNext polled with
      | (.item (handle, event), capture) =>
        ({ s with capture := capture } : Session).Minds held handle event i.answers
      | (.pending, _) => True
      | _ => held = []
  | .recv handle (.leave _) => s.hears handle = true → s.CanRelease held
  | .request .release => s.CanRelease held
  | .request (.create _ key _) => held ≠ [] → i.answers.created key = true
  | .request (.destroy _) => held ≠ [] → i.answers.destroyed = true
  | .request (.sendClip (.input _) _) => False
  | .request (.sendClip (.leave _) _) => False
  | .watchdogHeavy => s.watchdogConfig.anyCheckEnabled = true →
    s.sendFailureStorm ∨ s.noProgress i.answers.now → s.CanRelease held
  | .peerLost handle => handle = none ∨ s.activeClient = handle → s.CanRelease held
  | _ => True

instance (s : Session) (held : Held) (i : Input) : Decidable (s.Careful held i) := by
  unfold Careful
  split
  · refine @instDecidableAnd _ _ inferInstance ?_
    split <;> infer_instance
  all_goals infer_instance

end Session

def Careful (l : Ledger) (i : Input) : Prop :=
  match l.task, i.event with
  | .session s, _ => s.Careful l.held i
  | .gap _, .request (.sendClip (.input _) _) => False
  | .gap _, .request (.sendClip (.leave _) _) => False
  | _, _ => True

instance (l : Ledger) (i : Input) : Decidable (Careful l i) := by
  unfold Careful
  split <;> infer_instance

/-! ### The pressed keys -/

namespace InputCapture

variable {c : InputCapture} {key : UInt32} {event : CaptureEvent}

theorem trackKeys_key? (c : InputCapture) (event : CaptureEvent) :
    c.trackKeys event =
      match event.key? with
      | some (key, state) => c.updatePressedKeys key state
      | none => c := by
  cases event with
  | input e =>
    cases e with
    | keyboard k => cases k <;> rfl
    | pointer => rfl
  | _ => rfl

theorem tryFrom_eq_some {scancode : Scancode} :
    Scancode.tryFrom key = some scancode ↔ UInt32.ofNat scancode.val = key := by
  unfold Scancode.tryFrom
  constructor
  · intro known
    split_ifs at known
    obtain rfl := Option.some_inj.mp known
    exact UInt32.ofNat_toNat
  · rintro rfl
    have same : (UInt32.ofNat scancode.val).toNat = scancode.val :=
      Nat.mod_eq_of_lt (scancode.isLt.trans (by decide))
    simp [same]

theorem presses_iff :
    c.presses key = true ↔ ∃ scancode ∈ c.pressedKeys, UInt32.ofNat scancode.val = key := by
  simp only [presses, Option.any_eq_true, List.contains_iff_mem, tryFrom_eq_some]
  exact exists_congr fun _ => and_comm

/-- A key stays pressed until an event of the same key says otherwise. -/
theorem presses_trackKeys (pressed : c.presses key = true)
    (kept : ∀ state, event.key? = some (key, state) → state = 1) :
    (c.trackKeys event).presses key = true := by
  rw [trackKeys_key?]
  cases own : event.key? with
  | none => exact pressed
  | some tracked =>
    obtain ⟨key', state⟩ := tracked
    dsimp only
    obtain ⟨scancode, mem, known⟩ := presses_iff.mp pressed
    cases known' : Scancode.tryFrom key' with
    | none => simpa only [updatePressedKeys, known'] using pressed
    | some scancode' =>
      simp only [updatePressedKeys, known', presses_iff]
      refine ⟨scancode, ?_, known⟩
      split_ifs with down
      · exact List.mem_insert_of_mem mem
      · refine (List.mem_erase_of_ne ?_).mpr mem
        rintro rfl
        obtain rfl := known.symm.trans (tryFrom_eq_some.mp known')
        exact down (kept state own)

variable {x : CaptureHandle × UInt32} {polled : Polled (BarrierKey × CaptureEvent)}

/-- A poll leaves a key in the set or its key-up in the queue, or yields the key-up. -/
theorem pollNext_covers (covered : c.presses x.2 = true ∨ c.Awaits x)
    (reaches : c.Reaches x polled) :
    (c.pollNext polled).2.presses x.2 = true ∨ (c.pollNext polled).2.Awaits x ∨
      ∃ handle event, (c.pollNext polled).1 = .item (handle, event) ∧ Lifts handle event x := by
  unfold pollNext
  cases queue : c.pending with
  | cons e rest =>
    dsimp only
    obtain pressed | ⟨e', mem, lifts⟩ := covered
    · exact .inl pressed
    · rw [queue] at mem
      obtain rfl | mem := List.mem_cons.mp mem
      · exact .inr (.inr ⟨_, _, rfl, lifts⟩)
      · exact .inr (.inl ⟨e', mem, lifts⟩)
  | nil =>
    have pressed : c.presses x.2 = true := by
      obtain pressed | ⟨e, mem, -⟩ := covered
      · exact pressed
      · rw [queue] at mem
        cases mem
    cases polled with
    | pending | ended | failed => exact .inl pressed
    | item keyed =>
      obtain ⟨key, event⟩ := keyed
      have subscribers : (c.trackKeys event).positionMap = c.positionMap := by
        rw [trackKeys_eq]
      dsimp only
      rw [subscribers]
      by_cases kept : ∀ state, event.key? = some (x.2, state) → state = 1
      · refine .inl ?_
        have tracked := presses_trackKeys pressed kept
        split <;> exact tracked
      · simp only [not_forall] at kept
        obtain ⟨state, own, other⟩ := kept
        obtain ⟨rfl, mem⟩ := (reaches queue _ own rfl).resolve_left other
        cases ids : (c.positionMap.lookup key).getD [] with
        | nil =>
          rw [ids] at mem
          cases mem
        | cons first rest =>
          rw [ids] at mem
          obtain here | later := List.mem_cons.mp mem
          · exact .inr (.inr ⟨first, event, rfl, here.symm, own⟩)
          · refine .inr (.inl ⟨(x.1, event), ?_, rfl, own⟩)
            exact List.mem_append_right _ (List.mem_map.mpr ⟨x.1, later, rfl⟩)

end InputCapture

/-! ### Accounts -/

/-- The messages in `new` are all allowed and turn the ledger from `held` to `held'`. -/
def Accounts (sent : Bool) (held held' : Held) (new : List Effect) : Prop :=
  AllMeet (note sent) Allowed held new ∧ run (note sent) held new = held'

/-- Neither input nor a Leave. -/
def Effect.Quiet : Effect → Prop
  | .send (.input _) _ => False
  | .send (.leave _) _ => False
  | _ => True

section Accounts

variable {sent : Bool} {held held' held'' : Held} {new new' : List Effect} {h : CaptureHandle}

theorem Accounts.append (first : Accounts sent held held' new)
    (second : Accounts sent held' held'' new') : Accounts sent held held'' (new ++ new') := by
  obtain ⟨allowed, rfl⟩ := first
  exact ⟨allMeet_append.mpr ⟨allowed, second.1⟩, (run_append _ _ _).trans second.2⟩

theorem Effect.Quiet.note {e : Effect} (quiet : e.Quiet) : Capture.note sent held e = held := by
  unfold Capture.note
  split
  · cases quiet
  · rfl

theorem Effect.Quiet.allowed {e : Effect} (quiet : e.Quiet) : Allowed held e := by
  unfold Allowed
  split
  · cases quiet
  · cases quiet
  · trivial

theorem accounts_quiet (quiet : ∀ e ∈ new, e.Quiet) : Accounts sent held held new := by
  induction new with
  | nil => exact ⟨trivial, rfl⟩
  | cons e es ih =>
    have first := quiet e List.mem_cons_self
    obtain ⟨allowed, same⟩ := ih fun e mem => quiet e (List.mem_cons_of_mem _ mem)
    refine ⟨⟨first.allowed, ?_⟩, ?_⟩
    · rwa [first.note]
    · rwa [run_cons, first.note]

variable (sent) in
/-- Key-ups for the keys in `keys` leave the others held. -/
theorem accounts_keyUps (own : ∀ x ∈ held, x.1 = h) (keys : List Scancode) :
    ∃ held', Accounts sent held held' (keys.map fun key => .send (Session.keyUp key) h) ∧
      ∀ x ∈ held', x ∈ held ∧ ∀ key ∈ keys, x.2 ≠ UInt32.ofNat key.val := by
  induction keys generalizing held with
  | nil => exact ⟨held, ⟨trivial, rfl⟩, fun x mem => ⟨mem, by simp⟩⟩
  | cons key keys ih =>
    have fewer : ∀ x ∈ note sent held (.send (Session.keyUp key) h),
        x ∈ held ∧ x.2 ≠ UInt32.ofNat key.val := by
      intro x mem
      obtain ⟨mem, other⟩ := List.mem_filter.mp mem
      refine ⟨mem, fun same => ?_⟩
      simp [← own x mem, ← same] at other
    obtain ⟨held', ⟨allowed, eq⟩, rest⟩ := ih fun x mem => own x (fewer x mem).1
    refine ⟨held', ⟨⟨own, allowed⟩, eq⟩, fun x mem => ?_⟩
    obtain ⟨before, others⟩ := rest x mem
    refine ⟨(fewer x before).1, fun key' mem' => ?_⟩
    obtain rfl | mem' := List.mem_cons.mp mem'
    · exact (fewer x before).2
    · exact others key' mem'

end Accounts

/-! ### The handlers -/

namespace Session

variable {s s' s'' : Session} {sent : Bool} {held held' held'' : Held} {a : Answers}

/-- What is held is held at the active client, and is pressed or about to be lifted. -/
def Covers (s : Session) (held : Held) : Prop :=
  ∀ x ∈ held, s.activeClient = some x.1 ∧ (s.capture.presses x.2 = true ∨ s.capture.Awaits x)

/-- From `s` to `s'` the ledger goes from `held` to `held'`. -/
def Books (s s' : Session) (sent : Bool) (held held' : Held) : Prop :=
  ∃ new, s'.effects = s.effects ++ new ∧ Accounts sent held held' new

theorem covers_nil (s : Session) : s.Covers [] := fun _ mem => by cases mem

theorem Covers.congr (covers : s.Covers held) (active : s'.activeClient = s.activeClient)
    (pressed : s'.capture.pressedKeys = s.capture.pressedKeys)
    (pending : s'.capture.pending = s.capture.pending) : s'.Covers held := by
  unfold Covers InputCapture.presses InputCapture.Awaits at *
  rwa [active, pressed, pending]

theorem Covers.eq_nil (covers : s.Covers held) (none_ : s.activeClient = none) : held = [] := by
  refine List.eq_nil_iff_forall_not_mem.mpr fun x mem => ?_
  have active := (covers x mem).1
  rw [none_] at active
  cases active

theorem Books.trans (first : s.Books s' sent held held') (second : s'.Books s'' sent held' held'') :
    s.Books s'' sent held held'' := by
  obtain ⟨new, eq, accounts⟩ := first
  obtain ⟨new', eq', accounts'⟩ := second
  exact ⟨new ++ new', by rw [eq', eq, List.append_assoc], accounts.append accounts'⟩

theorem books_quiet (new : List Effect) (eq : s'.effects = s.effects ++ new)
    (quiet : ∀ e ∈ new, e.Quiet) : s.Books s' sent held held :=
  ⟨new, eq, accounts_quiet quiet⟩

theorem books_same (eq : s'.effects = s.effects) : s.Books s' sent held held :=
  books_quiet [] (by rw [eq, List.append_nil]) (by simp)

/-- Taking leave of the active client lifts all its keys that are in the set. -/
theorem leaveActive_books (covers : s.Covers held)
    (pressed : ∀ x ∈ held, s.capture.presses x.2 = true) :
    s.Books s.leaveActive sent held [] := by
  unfold leaveActive
  cases active : s.activeClient with
  | none =>
    rw [covers.eq_nil active]
    exact books_same rfl
  | some h =>
    have own : ∀ x ∈ held, x.1 = h := fun x mem =>
      Option.some_inj.mp ((covers x mem).1.symm.trans active)
    obtain ⟨held', accounts, rest⟩ := accounts_keyUps sent own s.capture.pressedKeys
    obtain rfl : held' = [] := by
      refine List.eq_nil_iff_forall_not_mem.mpr fun x mem => ?_
      obtain ⟨before, others⟩ := rest x mem
      obtain ⟨scancode, inSet, same⟩ := InputCapture.presses_iff.mp (pressed x before)
      exact others scancode inSet same.symm
    refine ⟨_, List.append_assoc .., accounts.append ⟨⟨by simp [Allowed, modifiersZero], ?_⟩, rfl⟩⟩
    exact ⟨by simp [Allowed, note, modifiersZero], trivial⟩

theorem releaseCapture_books (covers : s.Covers held) (can : s.CanRelease held) :
    s.Books (s.releaseCapture a).1 sent held [] := by
  unfold releaseCapture
  split_ifs with skips
  · have none_ : s.activeClient = none := by
      simp only [shouldSkipRelease, Bool.and_eq_true, Option.isNone_iff_eq_none] at skips
      exact skips.2
    rw [covers.eq_nil none_]
    exact books_same rfl
  · cases state : s.state with
    | pending h key started =>
      obtain rfl : held = [] := by
        refine List.eq_nil_iff_forall_not_mem.mpr fun x mem => ?_
        have running := (can x mem).1
        rw [state] at running
        cases running
      exact books_quiet [.cancelPending key, .release] (List.append_assoc ..)
        (by simp [Effect.Quiet])
    | idle | sending =>
      have pressed : ∀ x ∈ held, s.capture.presses x.2 = true := fun x mem =>
        (covers x mem).2.resolve_right (can x mem).2
      refine (leaveActive_books covers pressed).trans ?_
      exact books_quiet [.release] rfl (by simp [Effect.Quiet])

end Session

/-- After a turn the ledger is still covered; at the end of a session nothing is held. -/
def Turn.Safe (s : Session) (sent : Bool) (held : Held) : Turn → Prop
  | .next s' => ∃ held', s.Books s' sent held held' ∧ s'.Covers held'
  | .stop s' => s.Books s' sent held []
  | .panic _ => True

theorem Turn.Safe.after {s s' : Session} {sent : Bool} {held : Held} {turn : Turn}
    (safe : turn.Safe s' sent held)
    (books : s.Books s' sent held held) : turn.Safe s sent held := by
  cases turn with
  | next s'' =>
    obtain ⟨held', books', covers⟩ := safe
    exact ⟨held', books.trans books', covers⟩
  | stop s'' => exact books.trans safe
  | panic p => trivial

namespace Session

variable {s s' s'' : Session} {sent : Bool} {held held' held'' : Held} {a : Answers}
  {handle : CaptureHandle} {event : CaptureEvent}

theorem Books.ofResult (books : s.Books s' sent held []) (result : Bool) :
    (Turn.ofResult (s', result)).Safe s sent held := by
  cases result with
  | true => exact ⟨[], books, s'.covers_nil⟩
  | false => exact books

theorem releaseCapture_safe (covers : s.Covers held) (can : s.CanRelease held) :
    (Turn.ofResult (s.releaseCapture a)).Safe s sent held :=
  (releaseCapture_books covers can).ofResult _

/-- A step with no message of interest that leaves the active client and the keys alone. -/
theorem Covers.quiet (covers : s.Covers held) (new : List Effect)
    (eq : s'.effects = s.effects ++ new) (quiet : ∀ e ∈ new, e.Quiet)
    (active : s'.activeClient = s.activeClient)
    (pressed : s'.capture.pressedKeys = s.capture.pressedKeys)
    (pending : s'.capture.pending = s.capture.pending) : (Turn.next s').Safe s sent held :=
  ⟨held, books_quiet new eq quiet, covers.congr active pressed pending⟩

theorem Covers.still (covers : s.Covers held) (effects : s'.effects = s.effects)
    (active : s'.activeClient = s.activeClient)
    (pressed : s'.capture.pressedKeys = s.capture.pressedKeys)
    (pending : s'.capture.pending = s.capture.pending) : (Turn.next s').Safe s sent held :=
  ⟨held, books_same effects, covers.congr active pressed pending⟩

/-- Input that is sent lifts a key that it is the key-up of, and leaves held the key that it is the
key-down of. -/
theorem mem_note_input {e : InputEvent} {x : CaptureHandle × UInt32}
    (mem : x ∈ note sent held (.send (.input e) handle)) :
    x ∈ held ∧ ¬ Lifts handle (.input e) x ∨
      ∃ state, (CaptureEvent.input e).key? = some (x.2, state) ∧ state ≠ 0 ∧ sent = true ∧
        x.1 = handle := by
  cases e with
  | pointer => exact .inl ⟨mem, fun lifts => by cases lifts.2⟩
  | keyboard k =>
    cases k with
    | modifiers => exact .inl ⟨mem, fun lifts => by cases lifts.2⟩
    | key time key state =>
      simp only [note] at mem
      split_ifs at mem with up
      · obtain ⟨mem, other⟩ := List.mem_filter.mp mem
        refine .inl ⟨mem, fun lifts => ?_⟩
        obtain ⟨rfl, same⟩ := lifts
        cases same
        simp at other
      · obtain rfl | mem := List.mem_insert_iff.mp mem
        · exact .inr ⟨state, rfl, up, by assumption, rfl⟩
        · refine .inl ⟨mem, fun lifts => up ?_⟩
          cases lifts.2
          rfl
      · refine .inl ⟨mem, fun lifts => up ?_⟩
        cases lifts.2
        rfl

theorem handleInput_safe {e : InputEvent} (sending : s.state = .sending)
    (own : ∀ x ∈ held, x.1 = handle)
    (covers : ∀ x ∈ held, s.activeClient = some x.1 ∧ (s.capture.presses x.2 = true ∨
      s.capture.Awaits x ∨ Lifts handle (.input e) x))
    (fails : a.sent = false → ∀ x ∈ held, Lifts handle (.input e) x)
    (tracked : ∀ k ∈ (CaptureEvent.input e).key?, k.2 ≠ 0 → a.sent = true →
      s.activeClient = some handle ∧ s.capture.presses k.1 = true) :
    (s.handleInput handle e a).Safe s a.sent held := by
  simp only [handleInput, sending]
  have allowed : Allowed held (.send (.input e) handle) := own
  split_ifs with sent
  · refine ⟨_, ⟨[.send (.input e) handle], rfl, ⟨allowed, trivial⟩, rfl⟩, fun x mem => ?_⟩
    obtain ⟨mem, stays⟩ | ⟨state, down, other, -, rfl⟩ := mem_note_input mem
    · obtain ⟨active, pressed | awaits | lifts⟩ := covers x mem
      · exact ⟨active, .inl pressed⟩
      · exact ⟨active, .inr awaits⟩
      · exact absurd lifts stays
    · obtain ⟨active, pressed⟩ := tracked _ down other sent
      exact ⟨active, .inl pressed⟩
  · refine Books.ofResult ⟨[.send (.input e) handle, .release], List.append_assoc ..,
      ⟨allowed, trivial, trivial⟩, ?_⟩ _
    refine List.eq_nil_iff_forall_not_mem.mpr fun x mem => ?_
    obtain ⟨mem, stays⟩ | ⟨-, -, -, succeeded, -⟩ := mem_note_input mem
    · exact stays (fails (by simpa using sent) x mem)
    · exact sent succeeded

theorem enterClient_eq (s : Session) (handle : CaptureHandle) :
    ∃ new, (s.enterClient handle).effects = s.effects ++ new ∧ (∀ e ∈ new, e.Quiet) ∧
      (s.enterClient handle).activeClient = some handle ∧
      (s.enterClient handle).capture = s.capture := by
  unfold enterClient
  split_ifs with other
  · exact ⟨[.notify (.clientEntered handle)], rfl, by simp [Effect.Quiet], rfl, rfl⟩
  · exact ⟨[], (List.append_nil _).symm, by simp, (not_not.mp other).symm, rfl⟩

theorem handleBegin_safe {key : BarrierKey} (covers : s.Covers held)
    (own : ∀ x ∈ held, x.1 = handle ∧ (s.promotes handle ∨ a.sent)) :
    (s.handleBegin handle key a).Safe s sent held := by
  obtain ⟨new, effects, quiet, active, capture⟩ := s.enterClient_eq handle
  have enters : (s.enterClient handle).Covers held := fun x mem =>
    ⟨active.trans (congrArg some (own x mem).1.symm), capture ▸ (covers x mem).2⟩
  have books : s.Books (s.enterClient handle) sent held held := books_quiet new effects quiet
  unfold handleBegin
  dsimp only
  split_ifs with promoted succeeded
  · exact ⟨held, books.trans (books_same rfl), enters.congr rfl rfl rfl⟩
  · refine ⟨held, books.trans (books_quiet [.send (.enter (opposite key.pos)) handle] rfl ?_),
      enters.congr rfl rfl rfl⟩
    simp [Effect.Quiet]
  · obtain rfl : held = [] := by
      refine List.eq_nil_iff_forall_not_mem.mpr fun x mem => ?_
      obtain promotes | sent := (own x mem).2
      · exact promoted promotes
      · exact succeeded sent
    refine Books.ofResult (books.trans (books_quiet
      [.send (.enter (opposite key.pos)) handle, .release] (List.append_assoc ..) ?_)) _
    simp [Effect.Quiet]

theorem handleEnterOnly_safe {key : BarrierKey}
    (stays : (∀ x ∈ held, ¬ Lifts handle event x) → s.Covers held)
    (minds : if s.isDefaultCaptureAt key then ∀ x ∈ held, ¬ Lifts handle event x else held = []) :
    (s.handleEnterOnly handle key event a).Safe s sent held := by
  unfold handleEnterOnly
  dsimp only
  by_cases default : s.isDefaultCaptureAt key = true
  · rw [if_pos default] at minds
    have covers := stays minds
    split_ifs with starts here
    · exact covers.quiet [.notify (.captureBegin handle)] rfl (by simp [Effect.Quiet]) rfl rfl rfl
    · exact absurd default here
    · exact covers.still rfl rfl rfl rfl
  · rw [if_neg default] at minds
    subst minds
    split_ifs with starts here
    · exact absurd here default
    · exact (books_quiet [.notify (.captureBegin handle), .release] (List.append_assoc ..)
        (by simp [Effect.Quiet])).ofResult _
    · exact (books_quiet [.release] rfl (by simp [Effect.Quiet])).ofResult _

theorem Covers.handleBeginPending {key : BarrierKey} (covers : s.Covers held) :
    (Turn.next (s.handleBeginPending handle key a)).Safe s sent held := by
  unfold Session.handleBeginPending
  dsimp only
  split_ifs
  · exact covers.quiet [.send (.enter (opposite key.pos)) handle] rfl (by simp [Effect.Quiet])
      rfl rfl rfl
  · exact covers.quiet [.send (.enter (opposite key.pos)) handle, .cancelPending key]
      (List.append_assoc ..) (by simp [Effect.Quiet]) rfl rfl rfl

theorem Covers.handleCancelPending {key : BarrierKey} (covers : s.Covers held) :
    (Turn.next (s.handleCancelPending handle key)).Safe s sent held := by
  unfold Session.handleCancelPending
  dsimp only
  split
  · split_ifs
    · exact covers.quiet [.cancelPending key] rfl (by simp [Effect.Quiet]) rfl rfl rfl
    · exact covers.quiet [.cancelPending key] rfl (by simp [Effect.Quiet]) rfl rfl rfl
  · exact covers.quiet [.cancelPending key] rfl (by simp [Effect.Quiet]) rfl rfl rfl

theorem handleCaptureEvent_safe
    (covers : ∀ x ∈ held, s.activeClient = some x.1 ∧ (s.capture.presses x.2 = true ∨
      s.capture.Awaits x ∨ Lifts handle event x)) (minds : s.Minds held handle event a) :
    (s.handleCaptureEvent handle event a).Safe s a.sent held := by
  have stays : (∀ x ∈ held, ¬ Lifts handle event x) → s.Covers held := fun other x mem =>
    ⟨(covers x mem).1, (covers x mem).2.imp_right fun or_ => or_.resolve_right (other x mem)⟩
  unfold handleCaptureEvent
  unfold Minds at minds
  by_cases chord : s.capture.keysPressed s.releaseBind = true
  · rw [if_pos chord] at minds ⊢
    exact releaseCapture_safe (stays minds.2) minds.1
  rw [if_neg chord] at minds ⊢
  cases found : s.getCapture handle with
  | none => trivial
  | some entry =>
    obtain ⟨key, type⟩ := entry
    rw [found] at minds
    cases type with
    | enterOnly => exact handleEnterOnly_safe stays minds
    | default =>
      cases event with
      | beginPending =>
        have covers := stays fun x mem lifts => by cases lifts.2
        exact covers.handleBeginPending
      | cancelPending =>
        have covers := stays fun x mem lifts => by cases lifts.2
        exact covers.handleCancelPending
      | begin =>
        have covers := stays fun x mem lifts => by cases lifts.2
        have notified : s.Books (s.emit (.notify (.captureBegin handle))) a.sent held held :=
          books_quiet [.notify (.captureBegin handle)] rfl (by simp [Effect.Quiet])
        have covers' : (s.emit (.notify (.captureBegin handle))).Covers held :=
          covers.congr rfl rfl rfl
        exact (handleBegin_safe covers' minds).after notified
      | input e =>
        dsimp only at minds ⊢
        by_cases sending : s.state = .sending
        · rw [if_pos sending] at minds
          exact handleInput_safe sending minds.1 covers minds.2.1 minds.2.2
        · rw [if_neg sending] at minds
          have idle : s.handleInput handle e a = .next s := by
            unfold handleInput
            split
            · contradiction
            · rfl
          rw [idle]
          exact (stays minds).still rfl rfl rfl rfl

theorem handleCapture_safe {polled : Polled (BarrierKey × CaptureEvent)} (covers : s.Covers held)
    (careful : s.Careful held ⟨.capture polled, a⟩) :
    (s.handleCapture polled a).Safe s a.sent held := by
  obtain ⟨reaches, minds⟩ := careful
  have polls := fun x mem => InputCapture.pollNext_covers (covers x mem).2 (reaches x mem)
  unfold handleCapture
  cases next : s.capture.pollNext polled with
  | mk yielded capture =>
    rw [next] at minds polls
    dsimp only at minds polls ⊢
    have same : s.Books ({ s with capture := capture } : Session) a.sent held held := books_same rfl
    cases yielded with
    | pending =>
      refine ⟨held, same, fun x mem => ⟨(covers x mem).1, ?_⟩⟩
      obtain pressed | awaits | ⟨_, _, other, -⟩ := polls x mem
      · exact .inl pressed
      · exact .inr awaits
      · cases other
    | ended | failed =>
      subst minds
      exact same
    | item e =>
      refine Turn.Safe.after (handleCaptureEvent_safe (fun x mem => ⟨(covers x mem).1, ?_⟩) minds)
        same
      refine (polls x mem).imp_right (Or.imp_right ?_)
      rintro ⟨_, _, own, lifts⟩
      cases own
      exact lifts

theorem handleAck_safe (covers : s.Covers held) :
    (Turn.next (s.handleAck handle a)).Safe s sent held := by
  unfold handleAck
  cases s.state with
  | pending h key started =>
    dsimp only
    split_ifs
    · exact covers.quiet [.startCapture key] rfl (by simp [Effect.Quiet]) rfl rfl rfl
    · exact covers.quiet [.startCapture key, .cancelPending key] (List.append_assoc ..)
        (by simp [Effect.Quiet]) rfl rfl rfl
    · exact covers.still rfl rfl rfl rfl
  | idle | sending =>
    dsimp only
    split_ifs <;> exact covers.still rfl rfl rfl rfl

theorem handleRecv_safe {event : ProtoEvent} (covers : s.Covers held)
    (careful : s.Careful held ⟨.recv handle event, a⟩) :
    (s.handleRecv handle event a).Safe s sent held := by
  unfold handleRecv
  split_ifs with deaf
  · exact covers.still rfl rfl rfl rfl
  · have progress : s.Books (s.mapTask (·.progress a.now)) sent held held := books_same rfl
    have covers' : (s.mapTask (·.progress a.now)).Covers held := covers.congr rfl rfl rfl
    refine Turn.Safe.after ?_ progress
    cases event with
    | ack serial => exact handleAck_safe covers'
    | leave serial =>
      have can := careful (by simpa [hears] using deaf)
      exact releaseCapture_safe covers' can
    | _ => exact covers'.still rfl rfl rfl rfl

theorem withCapture_safe {result : Except Panic (InputCapture × Bool)} (covers : s.Covers held)
    (kept : ∀ capture ok, result = .ok (capture, ok) →
      capture.pressedKeys = s.capture.pressedKeys ∧ capture.pending = s.capture.pending ∧
        (ok = false → held = [])) : (s.withCapture result).Safe s sent held := by
  cases result with
  | error p => trivial
  | ok result =>
    obtain ⟨capture, ok⟩ := result
    obtain ⟨pressed, pending, stops⟩ := kept capture ok rfl
    cases ok with
    | true => exact covers.still rfl rfl pressed pending
    | false =>
      rw [stops rfl]
      exact books_same rfl

theorem handleRequest_safe {r : CaptureRequest} (covers : s.Covers held)
    (careful : s.Careful held ⟨.request r, a⟩) : (s.handleRequest r a).Safe s sent held := by
  cases r with
  | reenable => exact covers.still rfl rfl rfl rfl
  | release => exact releaseCapture_safe covers careful
  | create h key type =>
    have added : s.Books (s.mapTask (·.addCapture h key type)) sent held held := books_same rfl
    refine Turn.Safe.after ?_ added
    refine withCapture_safe (covers.congr rfl rfl rfl) fun capture ok done => ?_
    obtain ⟨-, -, -, pending, pressed, fails⟩ := InputCapture.create_eq_ok done
    refine ⟨pressed, pending, fun stops => by_contra fun some_ => ?_⟩
    cases (careful some_).symm.trans (fails stops)
  | destroy h =>
    have removed : s.Books (s.mapTask (·.removeCapture h)) sent held held := books_same rfl
    refine Turn.Safe.after ?_ removed
    refine withCapture_safe (covers.congr rfl rfl rfl) fun capture ok done => ?_
    obtain ⟨_, _, -, -, -, -, pending, pressed, fails⟩ := InputCapture.destroy_eq_ok done
    refine ⟨pressed, pending, fun stops => by_contra fun some_ => ?_⟩
    cases (careful some_).symm.trans (fails stops)
  | setReleaseBind bind => exact covers.still rfl rfl rfl rfl
  | dial h => exact covers.quiet [.dial h] rfl (by simp [Effect.Quiet]) rfl rfl rfl
  | sendClip event h =>
    have quiet : (Effect.send event h).Quiet := by
      cases event <;> exact careful
    exact covers.quiet [.send event h] rfl (List.forall_mem_singleton.mpr quiet) rfl rfl rfl

theorem runStallChecks_safe (covers : s.Covers held)
    (can : s.sendFailureStorm ∨ s.noProgress a.now → s.CanRelease held) :
    (Turn.next (s.runStallChecks a)).Safe s sent held := by
  unfold runStallChecks
  split_ifs with storm stalled
  · have covers' : ({ s with watchdog.consecutiveSendFailures := 0 } : Session).Covers held :=
      covers.congr rfl rfl rfl
    exact ⟨[], releaseCapture_books covers' (can (.inl storm)), covers_nil _⟩
  · exact ⟨[], releaseCapture_books covers (can (.inr stalled)), covers_nil _⟩
  · exact covers.still rfl rfl rfl rfl

theorem runWatchdogHeavy_safe (covers : s.Covers held)
    (can : s.sendFailureStorm ∨ s.noProgress a.now → s.CanRelease held) :
    (Turn.next (s.runWatchdogHeavy a)).Safe s sent held := by
  unfold runWatchdogHeavy
  dsimp only
  have expired : (s.expireCrossings a.now).Covers held := covers.congr rfl rfl rfl
  have same : s.Books (s.expireCrossings a.now) sent held held := books_same rfl
  split_ifs with checks storm
  · have none_ : (s.expireCrossings a.now).activeClient = none := by
      simp only [crossingStorm, Bool.and_eq_true, Option.isNone_iff_eq_none] at storm
      exact storm.2
    obtain rfl := expired.eq_nil none_
    refine ⟨[], same.trans (releaseCapture_books expired fun x mem => ?_), covers_nil _⟩
    cases mem
  · exact (runStallChecks_safe expired can).after same
  · exact runStallChecks_safe covers can

theorem handlePeerLost_safe {lost : Option CaptureHandle} (covers : s.Covers held)
    (can : lost = none ∨ s.activeClient = lost → s.CanRelease held) :
    (s.handlePeerLost lost a).Safe s sent held := by
  unfold handlePeerLost
  cases lost with
  | none =>
    dsimp only
    split_ifs
    · exact releaseCapture_safe covers (can (.inl rfl))
    · exact covers.still rfl rfl rfl rfl
  | some handle =>
    dsimp only
    split_ifs with active
    · exact releaseCapture_safe covers (can (.inr active))
    · exact covers.still rfl rfl rfl rfl

theorem turn_safe {i : Input} (covers : s.Covers held) (careful : s.Careful held i) :
    (s.turn i).Safe s i.answers.sent held := by
  obtain ⟨event, a⟩ := i
  cases event with
  | capture polled => exact handleCapture_safe covers careful
  | recv handle event => exact handleRecv_safe covers careful
  | request r => exact handleRequest_safe covers careful
  | pendingTick =>
    simp only [turn, handlePendingTick]
    cases s.state with
    | pending h key started =>
      dsimp only
      split_ifs
      · exact covers.quiet [.cancelPending key] rfl (by simp [Effect.Quiet]) rfl rfl rfl
      · exact covers.still rfl rfl rfl rfl
    | idle | sending => exact covers.still rfl rfl rfl rfl
  | watchdogLight =>
    simp only [turn, runWatchdogLight]
    split_ifs with enabled ghost
    · have none_ : s.activeClient = none := by
        simp only [Bool.and_eq_true, Option.isNone_iff_eq_none] at ghost
        exact ghost.2
      obtain rfl := covers.eq_nil none_
      exact ⟨[], books_quiet [.release] rfl (by simp [Effect.Quiet]), covers_nil _⟩
    · exact covers.still rfl rfl rfl rfl
    · exact covers.still rfl rfl rfl rfl
  | watchdogHeavy =>
    simp only [turn]
    split_ifs with enabled
    · exact runWatchdogHeavy_safe covers (careful enabled)
    · exact covers.still rfl rfl rfl rfl
  | peerLost lost => exact handlePeerLost_safe covers careful
  | monitorTick current =>
    simp only [turn, handleMonitorTick]
    split_ifs
    · exact covers.quiet [.notify (.monitorsChanged current)] rfl (by simp [Effect.Quiet])
        rfl rfl rfl
    · exact covers.still rfl rfl rfl rfl

end Session

/-! ### Runs -/

def Running.Covers (held : Held) : Running → Prop
  | .session s => s.Covers held
  | .gap _ => held = []
  | .panicked _ => True

/-- Between two sessions nothing of interest is sent. -/
theorem wait_quiet (t : CaptureTask) {i : Input} (careful : Careful ⟨.gap t, []⟩ i) :
    (∃ p, t.wait i = .panicked p) ∨
      ∃ new, (t.wait i).effects = t.effects ++ new ∧ ∀ e ∈ new, e.Quiet := by
  have same : ∀ u : CaptureTask, u.effects = t.effects →
      ∃ new, (Running.gap u).effects = t.effects ++ new ∧ ∀ e ∈ new, e.Quiet :=
    fun u eq => ⟨[], eq.trans (List.append_nil _).symm, by simp⟩
  obtain ⟨event, a⟩ := i
  cases event with
  | request r =>
    cases r with
    | reenable =>
      simp only [CaptureTask.wait, CaptureTask.doCapture]
      cases a.opened with
      | none => exact .inr (same t rfl)
      | some initial =>
        dsimp only
        split
        · exact .inl ⟨_, rfl⟩
        · exact .inr ⟨[.notify (.monitorsChanged initial), .notify .captureEnabled],
            List.append_assoc .., by simp [Effect.Quiet]⟩
        · refine .inr ⟨[.notify (.monitorsChanged initial), .notify .captureEnabled,
            .notify .captureDisabled], ?_, by simp [Effect.Quiet]⟩
          simp [Running.effects, Running.task?, CaptureTask.emit]
    | dial h => exact .inr ⟨[.dial h], rfl, by simp [Effect.Quiet]⟩
    | sendClip event h =>
      have quiet : (Effect.send event h).Quiet := by
        cases event <;> exact careful
      exact .inr ⟨[.send event h], rfl, List.forall_mem_singleton.mpr quiet⟩
    | release | create | destroy | setReleaseBind => exact .inr (same _ rfl)
  | _ => exact .inr (same t rfl)

namespace Ledger

variable {l : Ledger} {i : Input} {held : Held} {new : List Effect}

theorem newEffects_of_append (eq : (Capture.step l.task i).effects = l.task.effects ++ new) :
    l.newEffects i = new := by
  rw [newEffects, eq, List.drop_left]

theorem newEffects_of_panicked {p : Panic} (panics : Capture.step l.task i = .panicked p) :
    l.newEffects i = [] := by
  rw [newEffects, panics]
  exact List.drop_nil

theorem liftsFirst_and_covers (eq : l.newEffects i = new)
    (accounts : Accounts i.answers.sent l.held held new)
    (covers : (Capture.step l.task i).Covers held) :
    l.LiftsFirst i ∧ (l.step i).task.Covers (l.step i).held := by
  unfold LiftsFirst step
  rw [eq, accounts.2]
  exact ⟨accounts.1, covers⟩

theorem kept (covers : l.task.Covers l.held) (careful : Careful l i) :
    l.LiftsFirst i ∧ (l.step i).task.Covers (l.step i).held := by
  obtain ⟨task, held⟩ := l
  cases task with
  | session s =>
    have safe : (s.turn i).Safe s i.answers.sent held := Session.turn_safe covers careful
    have step_ : Capture.step (.session s) i = (s.turn i).running := rfl
    cases turn : s.turn i with
    | next s' =>
      rw [turn] at safe step_
      obtain ⟨held', ⟨new, eq, accounts⟩, covers⟩ := safe
      refine liftsFirst_and_covers (newEffects_of_append ?_) accounts (step_ ▸ covers)
      rw [step_]
      exact eq
    | stop s' =>
      rw [turn] at safe step_
      obtain ⟨new, eq, accounts⟩ := safe
      have disabled : Accounts i.answers.sent [] [] [.notify .captureDisabled] :=
        accounts_quiet (by simp [Effect.Quiet])
      refine liftsFirst_and_covers (newEffects_of_append ?_) (accounts.append disabled)
        (step_ ▸ rfl)
      rw [step_]
      exact (congrArg (· ++ _) eq).trans (List.append_assoc ..)
    | panic p =>
      rw [turn] at step_
      refine liftsFirst_and_covers (newEffects_of_panicked step_) ⟨trivial, rfl⟩ ?_
      rw [step_]
      trivial
  | gap t =>
    obtain rfl : held = [] := covers
    have covers' : (t.wait i).Covers [] := by
      cases t.wait i with
      | session s => exact s.covers_nil
      | gap => rfl
      | panicked => trivial
    obtain ⟨p, panics⟩ | ⟨new, eq, quiet⟩ := wait_quiet t careful
    · exact liftsFirst_and_covers (newEffects_of_panicked panics) ⟨trivial, rfl⟩ covers'
    · exact liftsFirst_and_covers (newEffects_of_append eq) (accounts_quiet quiet) covers'
  | panicked p =>
    exact liftsFirst_and_covers (newEffects_of_panicked rfl) ⟨trivial, rfl⟩ trivial

theorem onlyActive_of_covers (covers : l.task.Covers l.held) : l.OnlyActive := by
  obtain ⟨task, held⟩ := l
  intro t own x mem
  cases task with
  | session s =>
    obtain rfl : s.toCaptureTask = t := Option.some_inj.mp own
    exact (covers x mem).1
  | gap u =>
    obtain rfl : held = [] := covers
    cases mem
  | panicked p => cases own

end Ledger

/-- In every run whose inputs keep the account, keys are held only at the active client, and all are
lifted before the task takes leave of it or sends input to another. -/
theorem held_keys_lifted_first (releaseBind : List Scancode) (cfg : WatchdogConfig) (a : Answers)
    {inputs : List Input}
    (careful : AllMeet Ledger.step Careful ⟨start releaseBind cfg a, []⟩ inputs) :
    AllMeet Ledger.step Ledger.LiftsFirst ⟨start releaseBind cfg a, []⟩ inputs ∧
      Always Ledger.step Ledger.OnlyActive ⟨start releaseBind cfg a, []⟩ inputs := by
  have started : (start releaseBind cfg a).Covers [] := by
    cases start releaseBind cfg a with
    | session s => exact s.covers_nil
    | gap => rfl
    | panicked => trivial
  have kept : ∀ (l : Ledger) i, l.task.Covers l.held → Careful l i →
      (l.step i).task.Covers (l.step i).held :=
    fun _ _ covers careful => (Ledger.kept covers careful).2
  exact ⟨allMeet_mono (fun l => l.task.Covers l.held) kept
      (fun _ _ covers careful => (Ledger.kept covers careful).1) started careful,
    always_of_allMeet (fun l => l.task.Covers l.held) kept
      (fun _ covers => Ledger.onlyActive_of_covers covers) started careful⟩

/-- A key goes down and up, another is still held when the task takes leave. -/
theorem held_keys_lifted_first_release :
    let bind : List Scancode := [29, 42, 56, 125]
    let key : BarrierKey := ⟨.left, none, 0, 10000⟩
    let a : Answers := { now := 0 }
    let press (k : UInt32) (state : UInt8) : Input :=
      ⟨.capture (.item (key, .input (.keyboard (.key 0 k state)))), a⟩
    let inputs : List Input := [⟨.request (.create 0 key .default), a⟩,
      ⟨.capture (.item (key, .begin)), a⟩, press 30 1, press 30 0, press 31 1,
      ⟨.request .release, a⟩]
    AllMeet Ledger.step Careful ⟨start bind {} a, []⟩ inputs ∧
      AllMeet Ledger.step Ledger.LiftsFirst ⟨start bind {} a, []⟩ inputs := by
  intro bind key a press inputs
  have careful : AllMeet Ledger.step Careful ⟨start bind {} a, []⟩ inputs := by decide +kernel
  exact ⟨careful, (held_keys_lifted_first bind {} a careful).1⟩

/-- A button fails to be sent while a key is held. The backend is released, and with it the pressed
keys are forgotten; the task takes leave without a key-up. -/
theorem leaves_with_key_held :
    let bind : List Scancode := [29, 42, 56, 125]
    let key : BarrierKey := ⟨.left, none, 0, 10000⟩
    let a : Answers := { now := 0 }
    let before : List Input := [⟨.request (.create 0 key .default), a⟩,
      ⟨.capture (.item (key, .begin)), a⟩,
      ⟨.capture (.item (key, .input (.keyboard (.key 0 30 1)))), a⟩,
      ⟨.capture (.item (key, .input (.pointer (.button 0 272 1)))), { a with sent := false }⟩]
    let l := run Ledger.step ⟨start bind {} a, []⟩ before
    l.held = [(0, 30)] ∧ l.newEffects ⟨.request .release, a⟩ =
      [.send Session.modifiersZero 0, .send (.leave 0) 0, .release] := by
  decide +kernel

end LanMouse.Capture
