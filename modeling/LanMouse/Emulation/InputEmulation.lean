import LanMouse.Lib.Toggle
import LanMouse.Lib.Transition
import LanMouse.Proto.Event
import Mathlib.Data.Finset.Basic
import Mathlib.Data.List.AList

/-!
# The input emulation

`InputEmulation` stands in front of an emulation backend and keeps the set of pressed keys of each
handle, so that the backend sees a key go down only when it is up and up only when it is down, and
so that the keys of a handle can be lifted when it goes.

The calls the backend received are recorded, oldest first. What it answers is an argument of each
operation, and so is the order in which a hash set is iterated.
-/
namespace LanMouse.Emulation

open Proto

abbrev EmulationHandle := UInt64

inductive Call where
  | consume (event : InputEvent) (handle : EmulationHandle)
  | create (handle : EmulationHandle)
  | destroy (handle : EmulationHandle)
  | terminate
  deriving DecidableEq, Repr

/-- An order in which hash sets give out their elements. -/
structure Order (α : Type) where
  list : Finset α → List α
  nodup : ∀ s, (list s).Nodup
  mem_list : ∀ s a, a ∈ list s ↔ a ∈ s

noncomputable def Order.any (α : Type) : Order α :=
  ⟨Finset.toList, fun s => s.nodup_toList, fun _ _ => Finset.mem_toList⟩

/-- How one call of `release_keys` goes: the order of the keys, and whether the backend takes the
events one after another. It takes those that are left when the answers are used up. -/
structure Release where
  order : Order UInt32
  answers : List Bool

def Release.Clean (how : Release) : Prop := ∀ answer ∈ how.answers, answer = true

structure InputEmulation where
  handles : Finset EmulationHandle
  pressedKeys : AList fun _ : EmulationHandle => Finset UInt32
  calls : List Call

namespace InputEmulation

def new : InputEmulation := ⟨∅, ∅, []⟩

def call (s : InputEmulation) (c : Call) : InputEmulation := { s with calls := s.calls ++ [c] }

/-- The result tells whether the event should be processed. -/
def updatePressedKeys (s : InputEmulation) (handle : EmulationHandle) (key : UInt32)
    (state : UInt8) : Bool × InputEmulation :=
  match s.pressedKeys.lookup handle with
  | none => (false, s)
  | some keys =>
    if state = 0 then
      (key ∈ keys, { s with pressedKeys := s.pressedKeys.insert handle (keys.erase key) })
    else (key ∉ keys, { s with pressedKeys := s.pressedKeys.insert handle (insert key keys) })

/-- The result tells whether the call returned `Ok`. -/
def consume (s : InputEmulation) (event : InputEvent) (handle : EmulationHandle) (answer : Bool) :
    Bool × InputEmulation :=
  match event with
  | .keyboard (.key _ key state) =>
    let (process, s) := s.updatePressedKeys handle key state
    if process then (answer, s.call (.consume event handle)) else (true, s)
  | _ => (answer, s.call (.consume event handle))

def create (s : InputEmulation) (handle : EmulationHandle) : Bool × InputEmulation :=
  if handle ∈ s.handles then (false, s)
  else
    let s := { s with
      handles := insert handle s.handles
      pressedKeys := s.pressedKeys.insert handle ∅ }
    (true, s.call (.create handle))

/-- Pass on events until one is refused. -/
def consumeEach (handle : EmulationHandle) :
    List InputEvent → List Bool → InputEmulation → Bool × InputEmulation
  | [], _, s => (true, s)
  | event :: rest, answers, s =>
    let s := s.call (.consume event handle)
    if answers.headD true then consumeEach handle rest answers.tail s else (false, s)

def keyUp (key : UInt32) : InputEvent := .keyboard (.key 0 key 0)

def releaseKeys (s : InputEmulation) (handle : EmulationHandle) (how : Release) :
    Bool × InputEmulation :=
  let modifiers : InputEvent := .keyboard (.modifiers 0 0 0 0)
  match s.pressedKeys.lookup handle with
  | none => consumeEach handle [modifiers] how.answers s
  | some keys =>
    let s := { s with pressedKeys := s.pressedKeys.insert handle ∅ }
    consumeEach handle ((how.order.list keys).map keyUp ++ [modifiers]) how.answers s

def destroy (s : InputEmulation) (handle : EmulationHandle) (how : Release) : InputEmulation :=
  let (_, s) := s.releaseKeys handle how
  if handle ∈ s.handles then
    let s := { s with
      handles := s.handles.erase handle
      pressedKeys := s.pressedKeys.erase handle }
    s.call (.destroy handle)
  else s

def terminate (s : InputEmulation) (order : Order EmulationHandle)
    (how : EmulationHandle → Release) : InputEmulation :=
  let s := (order.list s.handles).foldl (fun s handle => s.destroy handle (how handle)) s
  s.call .terminate

def hasPressedKeys (s : InputEmulation) (handle : EmulationHandle) : Bool :=
  (s.pressedKeys.lookup handle).any fun keys => keys ≠ ∅

end InputEmulation

inductive Op where
  | consume (event : InputEvent) (handle : EmulationHandle) (answer : Bool)
  | create (handle : EmulationHandle)
  | releaseKeys (handle : EmulationHandle) (how : Release)
  | destroy (handle : EmulationHandle) (how : Release)
  | terminate (order : Order EmulationHandle) (how : EmulationHandle → Release)

/-- The backend takes every event it is given. -/
def Op.Clean : Op → Prop
  | consume _ _ answer => answer = true
  | create _ => True
  | releaseKeys _ how => how.Clean
  | destroy _ how => how.Clean
  | terminate _ how => ∀ handle, (how handle).Clean

namespace InputEmulation

def step (s : InputEmulation) : Op → InputEmulation
  | .consume event handle answer => (s.consume event handle answer).2
  | .create handle => (s.create handle).2
  | .releaseKeys handle how => (s.releaseKeys handle how).2
  | .destroy handle how => s.destroy handle how
  | .terminate order how => s.terminate order how

end InputEmulation

/-! ### The keys the backend holds down -/

/-- The key a call presses (`true`) or releases. -/
def Call.key? : Call → Option ((EmulationHandle × UInt32) × Bool)
  | consume (.keyboard (.key _ key state)) handle => some ((handle, key), state ≠ 0)
  | _ => none

namespace InputEmulation

def keyLog (s : InputEmulation) : List ((EmulationHandle × UInt32) × Bool) :=
  s.calls.filterMap Call.key?

def keysOf (s : InputEmulation) (handle : EmulationHandle) : Finset UInt32 :=
  (s.pressedKeys.lookup handle).getD ∅

/-- What the emulation believes of the keys is what the backend was told. -/
structure Matches (s : InputEmulation) : Prop where
  alternating : Toggle.Alternating s.keyLog
  pressed : ∀ handle key, Toggle.isOn s.keyLog (handle, key) = true ↔ key ∈ s.keysOf handle
  created : ∀ handle ∉ s.handles, s.pressedKeys.lookup handle = none

variable {s : InputEmulation} {handle : EmulationHandle} {how : Release}

theorem keyLog_call (s : InputEmulation) (c : Call) :
    (s.call c).keyLog = s.keyLog ++ c.key?.toList := by
  simp only [keyLog, call, List.filterMap_append]
  cases h : c.key? <;> simp [h]

theorem matches_new : Matches new :=
  ⟨Toggle.alternating_nil, by simp [keyLog, keysOf, new], by simp [new]⟩

theorem Matches.off (m : Matches s) {key : UInt32} (up : key ∉ s.keysOf handle) :
    Toggle.isOn s.keyLog (handle, key) = false := by
  rw [← Bool.not_eq_true, m.pressed]
  exact up

/-- A handle that is not created holds nothing down. -/
theorem Matches.off_of_not_mem (m : Matches s) (gone : handle ∉ s.handles) (key : UInt32) :
    Toggle.isOn s.keyLog (handle, key) = false :=
  m.off (by simp [keysOf, m.created handle gone])

theorem Matches.of_same (m : Matches s) {s' : InputEmulation} (log : s'.keyLog = s.keyLog)
    (keys : ∀ handle, s'.pressedKeys.lookup handle = s.pressedKeys.lookup handle)
    (handles : s'.handles = s.handles) : Matches s' := by
  refine ⟨log ▸ m.alternating, fun handle key => ?_, fun handle gone => ?_⟩
  · rw [log, m.pressed, keysOf, keysOf, keys]
  · rw [keys]
    exact m.created handle (handles ▸ gone)

theorem Matches.call (m : Matches s) {c : Call} (silent : c.key? = none) : Matches (s.call c) :=
  m.of_same (by simp [keyLog_call, silent]) (fun _ => rfl) rfl

theorem keysOf_insert (s : InputEmulation) (handle other : EmulationHandle) (keys : Finset UInt32) :
    ({ s with pressedKeys := s.pressedKeys.insert handle keys } : InputEmulation).keysOf other =
      if other = handle then keys else s.keysOf other := by
  simp only [keysOf]
  by_cases same : other = handle
  · subst same
    simp
  · rw [AList.lookup_insert_ne same, if_neg same]

/-- One key goes from up to down or back, in the log and in its set. -/
theorem Matches.switch (m : Matches s) {event : InputEvent} {key : UInt32} {b : Bool}
    {keys : Finset UInt32} (known : s.pressedKeys.lookup handle = some keys)
    (is : (Call.consume event handle).key? = some ((handle, key), b))
    (was : key ∈ keys ↔ b = false) {keys' : Finset UInt32}
    (now : ∀ k, k ∈ keys' ↔ if k = key then b = true else k ∈ keys) :
    Matches (({ s with pressedKeys := s.pressedKeys.insert handle keys' } : InputEmulation).call
      (.consume event handle)) := by
  have own : s.keysOf handle = keys := by simp [keysOf, known]
  generalize changed : ({ s with pressedKeys := s.pressedKeys.insert handle keys' } :
    InputEmulation) = s'
  have log : (s'.call (.consume event handle)).keyLog = s.keyLog ++ [((handle, key), b)] := by
    rw [keyLog_call, is, ← changed]
    rfl
  refine ⟨?_, fun other k => ?_, fun other gone => ?_⟩
  · rw [log, Toggle.alternating_concat]
    refine ⟨m.alternating, ?_⟩
    cases b with
    | true => exact m.off (own ▸ fun mem => absurd (was.mp mem) (by decide))
    | false => exact (m.pressed handle key).mpr (own ▸ was.mpr rfl)
  · have keys_ : (s'.call (.consume event handle)).keysOf other =
        if other = handle then keys' else s.keysOf other := by
      rw [← keysOf_insert, ← changed]
      rfl
    rw [log, Toggle.isOn_concat, keys_]
    by_cases same : other = handle
    · subst same
      rw [if_pos rfl, now]
      by_cases it : k = key
      · simp [it]
      · simp [it, Ne.symm it, m.pressed, own]
    · simp [same, Ne.symm same, m.pressed]
  · rw [← changed] at gone ⊢
    have apart : other ≠ handle := by
      rintro rfl
      rw [m.created other gone] at known
      cases known
    exact (AList.lookup_insert_ne apart).trans (m.created other gone)

theorem Matches.insert_same (m : Matches s) {keys : Finset UInt32}
    (known : s.pressedKeys.lookup handle = some keys) :
    Matches { s with pressedKeys := s.pressedKeys.insert handle keys } := by
  refine m.of_same rfl (fun other => ?_) rfl
  by_cases same : other = handle
  · subst same
    rw [known]
    exact AList.lookup_insert _
  · exact AList.lookup_insert_ne same

theorem Matches.consume (m : Matches s) (event : InputEvent) (handle : EmulationHandle)
    (answer : Bool) : Matches (s.consume event handle answer).2 := by
  cases event with
  | pointer e => exact m.call rfl
  | keyboard e =>
    cases e with
    | modifiers => exact m.call rfl
    | key time key state =>
      unfold InputEmulation.consume
      cases known : s.pressedKeys.lookup handle with
      | none => simpa [updatePressedKeys, known] using m
      | some keys =>
        simp only [updatePressedKeys, known]
        by_cases up : state = 0
        · by_cases held : key ∈ keys
          · simp only [up, held, if_true, decide_true]
            exact m.switch known rfl (by simp [held]) (by grind)
          · simp only [up, held, if_true, decide_false]
            rw [Finset.erase_eq_of_notMem held]
            exact m.insert_same known
        · by_cases held : key ∈ keys
          · simp only [up, held, if_false, not_true_eq_false, decide_false]
            rw [Finset.insert_eq_of_mem held]
            exact m.insert_same known
          · simp only [up, held, if_false, not_false_eq_true, decide_true, if_true]
            refine m.switch known rfl ?_ ?_
            · simp [up, held]
            · simp [up]; grind

theorem Matches.create (m : Matches s) (handle : EmulationHandle) :
    Matches (s.create handle).2 := by
  unfold InputEmulation.create
  by_cases old : handle ∈ s.handles
  · rwa [if_pos old]
  rw [if_neg old]
  refine Matches.call ?_ rfl
  refine ⟨m.alternating, fun other key => ?_, fun other gone => ?_⟩
  · refine (m.pressed other key).trans ?_
    have keys := keysOf_insert s handle other ∅
    simp only [keysOf] at keys ⊢
    rw [keys]
    by_cases same : other = handle
    · subst same
      simp [m.created other old]
    · rw [if_neg same]
  · obtain ⟨apart, gone⟩ := not_or.mp (Finset.mem_insert.not.mp gone)
    exact (AList.lookup_insert_ne apart).trans (m.created other gone)

theorem consumeEach_clean {answers : List Bool} (clean : ∀ answer ∈ answers, answer = true)
    (handle : EmulationHandle) (events : List InputEvent) (s : InputEmulation) :
    consumeEach handle events answers s =
      (true, { s with calls := s.calls ++ events.map (Call.consume · handle) }) := by
  induction events generalizing answers s with
  | nil => simp [consumeEach]
  | cons event events ih =>
    have taken : answers.headD true = true := by
      cases answers with
      | nil => rfl
      | cons answer answers => exact clean answer List.mem_cons_self
    rw [consumeEach, if_pos taken, ih fun answer mem => clean answer (List.mem_of_mem_tail mem)]
    simp [InputEmulation.call]

theorem consumeEach_same (handle : EmulationHandle) (events : List InputEvent)
    (answers : List Bool) (s : InputEmulation) :
    (consumeEach handle events answers s).2.pressedKeys = s.pressedKeys ∧
      (consumeEach handle events answers s).2.handles = s.handles := by
  induction events generalizing answers s with
  | nil => exact ⟨rfl, rfl⟩
  | cons event events ih =>
    rw [consumeEach]
    split_ifs
    · exact ih answers.tail (s.call (.consume event handle))
    · exact ⟨rfl, rfl⟩

/-- Whatever the backend answers, `release_keys` empties the record of the handle. -/
theorem releaseKeys_records (s : InputEmulation) (handle : EmulationHandle) (how : Release) :
    (∀ other, (s.releaseKeys handle how).2.pressedKeys.lookup other =
      if other = handle then (s.pressedKeys.lookup handle).map fun _ => ∅
      else s.pressedKeys.lookup other) ∧
    (s.releaseKeys handle how).2.handles = s.handles := by
  unfold releaseKeys
  cases known : s.pressedKeys.lookup handle with
  | none =>
    obtain ⟨pressed, handles⟩ := consumeEach_same handle [.keyboard (.modifiers 0 0 0 0)]
      how.answers s
    refine ⟨fun other => ?_, handles⟩
    dsimp only
    rw [pressed]
    split_ifs with same
    · rw [same, known]
      rfl
    · rfl
  | some keys =>
    obtain ⟨pressed, handles⟩ := consumeEach_same handle
      ((how.order.list keys).map keyUp ++ [.keyboard (.modifiers 0 0 0 0)]) how.answers
      { s with pressedKeys := s.pressedKeys.insert handle ∅ }
    refine ⟨fun other => ?_, handles⟩
    dsimp only
    rw [pressed]
    split_ifs with same
    · rw [same, AList.lookup_insert]
      rfl
    · exact AList.lookup_insert_ne same

/-- When the backend takes the events of `release_keys`, all keys of the handle go up. -/
theorem releaseKeys_clean (clean : how.Clean) (s : InputEmulation) (handle : EmulationHandle) :
    ∃ keys : List UInt32, keys.Nodup ∧ (∀ key, key ∈ keys ↔ key ∈ s.keysOf handle) ∧
      (s.releaseKeys handle how).2.keyLog =
        s.keyLog ++ (keys.map (handle, ·)).map (·, false) := by
  cases known : s.pressedKeys.lookup handle with
  | none =>
    refine ⟨[], List.nodup_nil, by simp [keysOf, known], ?_⟩
    simp [releaseKeys, known, consumeEach_clean clean, keyLog, Call.key?]
  | some keys =>
    refine ⟨how.order.list keys, how.order.nodup keys, by simp [keysOf, known, how.order.mem_list],
      ?_⟩
    simp [releaseKeys, known, consumeEach_clean clean, keyLog, Call.key?, keyUp,
      List.filterMap_append, List.filterMap_map, Function.comp_def]

theorem Matches.releaseKeys (m : Matches s) (clean : how.Clean) (handle : EmulationHandle) :
    Matches (s.releaseKeys handle how).2 ∧ (s.releaseKeys handle how).2.keysOf handle = ∅ := by
  obtain ⟨keys, nodup, mem, log⟩ := releaseKeys_clean clean s handle
  obtain ⟨lookup, handles⟩ := releaseKeys_records s handle how
  have keys_ : ∀ other, (s.releaseKeys handle how).2.keysOf other =
      if other = handle then ∅ else s.keysOf other := by
    intro other
    rw [keysOf, lookup]
    split_ifs
    · cases s.pressedKeys.lookup handle <;> rfl
    · rfl
  refine ⟨⟨?_, fun other key => ?_, fun other gone => ?_⟩, by simp [keys_]⟩
  · rw [log, Toggle.alternating_append_map (nodup.map (Prod.mk_right_injective handle))]
    refine ⟨m.alternating, fun k held => ?_⟩
    obtain ⟨key, listed, rfl⟩ := List.mem_map.mp held
    exact (m.pressed handle key).mpr ((mem key).mp listed)
  · rw [log, Toggle.isOn_append_map, keys_]
    by_cases same : other = handle
    · subst same
      have listed : (other, key) ∈ keys.map (other, ·) ↔ key ∈ s.keysOf other := by simp [mem]
      rw [if_pos rfl]
      by_cases held : key ∈ s.keysOf other
      · simp [listed, held]
      · simp [listed, held, m.off held]
    · have other_ : (other, key) ∉ keys.map (handle, ·) := by
        simp [Ne.symm same]
      rw [if_neg other_, if_neg same, m.pressed]
  · rw [handles] at gone
    rw [lookup]
    split_ifs with same
    · rw [← same, m.created other gone]
      rfl
    · exact m.created other gone

theorem Matches.destroy (m : Matches s) (clean : how.Clean) (handle : EmulationHandle) :
    Matches (s.destroy handle how) ∧ (s.destroy handle how).handles = s.handles.erase handle := by
  obtain ⟨released, empty⟩ := m.releaseKeys clean handle
  have handles := (releaseKeys_records s handle how).2
  unfold InputEmulation.destroy
  generalize s.releaseKeys handle how = r at released empty handles
  obtain ⟨ok, r⟩ := r
  dsimp only at *
  by_cases known : handle ∈ r.handles
  · rw [if_pos known]
    refine ⟨Matches.call ?_ rfl, congrArg (·.erase handle) handles⟩
    refine ⟨released.alternating, fun other key => ?_, fun other gone => ?_⟩
    · refine (released.pressed other key).trans ?_
      by_cases same : other = handle
      · subst same
        rw [empty]
        simp [keysOf]
      · simp only [keysOf, AList.lookup_erase_ne same]
    · by_cases same : other = handle
      · subst same
        exact AList.lookup_erase other r.pressedKeys
      · have gone : other ∉ r.handles := fun mem => gone (Finset.mem_erase.mpr ⟨same, mem⟩)
        exact (AList.lookup_erase_ne same).trans (released.created other gone)
  · rw [if_neg known]
    refine ⟨released, ?_⟩
    rw [handles] at known ⊢
    exact (Finset.erase_eq_of_notMem known).symm

theorem Matches.foldl_destroy (m : Matches s) {how : EmulationHandle → Release}
    (clean : ∀ handle, (how handle).Clean) (handles : List EmulationHandle) :
    let s' := handles.foldl (fun s handle => s.destroy handle (how handle)) s
    Matches s' ∧ ∀ handle, handle ∈ s'.handles ↔ handle ∈ s.handles ∧ handle ∉ handles := by
  induction handles generalizing s with
  | nil => exact ⟨m, by simp⟩
  | cons first rest ih =>
    obtain ⟨after, left⟩ := m.destroy (clean first) first
    obtain ⟨all, mem⟩ := ih after
    refine ⟨all, fun handle => ?_⟩
    rw [List.foldl_cons, mem, left, Finset.mem_erase, List.mem_cons]
    tauto

theorem Matches.terminate (m : Matches s) {how : EmulationHandle → Release}
    (clean : ∀ handle, (how handle).Clean) (order : Order EmulationHandle) :
    Matches (s.terminate order how) ∧ ∀ handle, handle ∉ (s.terminate order how).handles := by
  obtain ⟨all, mem⟩ := m.foldl_destroy clean (order.list s.handles)
  refine ⟨all.call rfl, fun handle left => ?_⟩
  obtain ⟨known, skipped⟩ := (mem handle).mp left
  exact skipped ((order.mem_list s.handles handle).mpr known)

theorem Matches.step (m : Matches s) {op : Op} (clean : op.Clean) : Matches (s.step op) := by
  cases op with
  | consume event handle answer => exact m.consume event handle answer
  | create handle => exact m.create handle
  | releaseKeys handle how => exact (m.releaseKeys clean handle).1
  | destroy handle how => exact (m.destroy clean handle).1
  | terminate order how => exact (m.terminate clean order).1

theorem matches_run {ops : List Op} (clean : ∀ op ∈ ops, op.Clean) :
    Matches (Transition.run InputEmulation.step new ops) :=
  Transition.inv_run Matches (fun _ _ m clean => m.step clean) matches_new
    (Transition.allMeet_of_forall clean)

/-- With a backend that takes every event, the key events it sees alternate for each handle and key,
and no key of a handle stays down once the handle is gone. -/
theorem key_events_alternate (ops : List Op) (clean : ∀ op ∈ ops, op.Clean) :
    let s := Transition.run InputEmulation.step new ops
    Toggle.Alternating s.keyLog ∧
      (∀ handle, handle ∉ s.handles → ∀ key, Toggle.isOn s.keyLog (handle, key) = false) ∧
      (∀ handle how, how.Clean → handle ∉ (s.destroy handle how).handles ∧
        ∀ key, Toggle.isOn (s.destroy handle how).keyLog (handle, key) = false) ∧
      ∀ order how, (∀ handle : EmulationHandle, (how handle : Release).Clean) →
        ∀ handle key, Toggle.isOn (s.terminate order how).keyLog (handle, key) = false := by
  intro s
  have m : Matches s := matches_run clean
  refine ⟨m.alternating, fun handle gone => m.off_of_not_mem gone, ?_, ?_⟩
  · intro handle how clean
    obtain ⟨after, left⟩ := m.destroy clean handle
    have gone : handle ∉ (s.destroy handle how).handles := by simp [left]
    exact ⟨gone, after.off_of_not_mem gone⟩
  · intro order how clean handle key
    obtain ⟨after, gone⟩ := m.terminate clean order
    exact after.off_of_not_mem (gone handle) key

theorem key_events_alternate_double_press :
    let press : Op := .consume (.keyboard (.key 0 30 1)) 1 true
    let ops := [.create 1, press, press, .destroy 1 ⟨.any UInt32, []⟩]
    (∀ op ∈ ops, op.Clean) ∧
      Toggle.Alternating (Transition.run InputEmulation.step new ops).keyLog := by
  intro press ops
  have clean : ∀ op ∈ ops, op.Clean := by
    simp [ops, press, Op.Clean, Release.Clean]
  exact ⟨clean, (key_events_alternate ops clean).1⟩

end InputEmulation

end LanMouse.Emulation
