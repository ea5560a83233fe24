import LanMouse.Emulation.InputEmulation
import Mathlib.Data.Finset.Card

/-!
# The record of the keys and what the backend has accepted

The emulation records a key as pressed or released before it hands the event to the backend, and
empties the record of a handle before it lifts its keys. When the backend refuses an event, the
record says what was meant and not what happened.

The key events the backend accepted are kept beside the emulation. The record of the live handles
agrees with them as long as no key event is refused to a handle that stays, and no handle comes
back with keys that are still down.
-/
namespace LanMouse.Emulation

open Proto Transition

/-- What a backend takes of a list of events, until it refuses one. -/
def acceptedOf {α : Type} : List α → List Bool → List α
  | [], _ => []
  | a :: rest, answers =>
    if answers.headD true then a :: acceptedOf rest answers.tail else []

section

variable {α : Type} {l : List α} {answers : List Bool}

theorem acceptedOf_eq_self (taken : ∀ answer ∈ answers.take l.length, answer = true) :
    acceptedOf l answers = l := by
  induction l generalizing answers with
  | nil => rfl
  | cons a l ih =>
    cases answers with
    | nil => simp [acceptedOf, ih]
    | cons answer answers =>
      rw [List.length_cons, List.take_succ_cons, List.forall_mem_cons] at taken
      rw [acceptedOf, List.headD_cons, if_pos taken.1, List.tail_cons, ih taken.2]

/-- Where every element is taken, none is refused. -/
theorem taken_of_subset_acceptedOf (nodup : l.Nodup) (all : ∀ a ∈ l, a ∈ acceptedOf l answers) :
    ∀ answer ∈ answers.take l.length, answer = true := by
  induction l generalizing answers with
  | nil => simp
  | cons a l ih =>
    obtain ⟨fresh, nodup⟩ := List.nodup_cons.mp nodup
    cases answers with
    | nil => simp
    | cons answer answers =>
      rw [List.length_cons, List.take_succ_cons, List.forall_mem_cons]
      have first : answer = true := by
        by_contra refused
        have taken := all a List.mem_cons_self
        rw [acceptedOf, List.headD_cons, if_neg refused] at taken
        cases taken
      refine ⟨first, ih nodup fun b mem => ?_⟩
      have taken := all b (List.mem_cons_of_mem a mem)
      rw [acceptedOf, List.headD_cons, if_pos first, List.tail_cons, List.mem_cons] at taken
      refine taken.resolve_left ?_
      rintro rfl
      exact fresh mem

theorem acceptedOf_map {β : Type} (f : α → β) :
    acceptedOf (l.map f) answers = (acceptedOf l answers).map f := by
  induction l generalizing answers with
  | nil => rfl
  | cons a l ih =>
    rw [List.map_cons, acceptedOf, acceptedOf]
    split_ifs
    · rw [ih, List.map_cons]
    · rfl

/-- An element at the end that is left out anyway makes no difference. -/
theorem filterMap_acceptedOf_concat {β : Type} {f : α → Option β} {last : α}
    (silent : f last = none) :
    (acceptedOf (l ++ [last]) answers).filterMap f = (acceptedOf l answers).filterMap f := by
  induction l generalizing answers with
  | nil =>
    simp only [List.nil_append, acceptedOf]
    split_ifs <;> simp [silent]
  | cons a l ih =>
    rw [List.cons_append, acceptedOf, acceptedOf]
    split_ifs
    · rw [List.filterMap_cons, List.filterMap_cons, ih]
    · rfl

end

/-- The key events among the calls that were made after `before` and accepted. An operation stops at
the first call that is refused, so only the last one can be. -/
def took (before : InputEmulation) (outcome : Bool × InputEmulation) :
    List ((EmulationHandle × UInt32) × Bool) :=
  let made := outcome.2.calls.drop before.calls.length
  (if outcome.1 then made else made.dropLast).filterMap Call.key?

/-- The emulation and the key events its backend has accepted. -/
structure Ledger where
  emulation : InputEmulation
  accepted : List ((EmulationHandle × UInt32) × Bool)

namespace Ledger

def new : Ledger := ⟨.new, []⟩

def consume (g : Ledger) (event : InputEvent) (handle : EmulationHandle) (answer : Bool) :
    Ledger :=
  let outcome := g.emulation.consume event handle answer
  ⟨outcome.2, g.accepted ++ took g.emulation outcome⟩

def releaseKeys (g : Ledger) (handle : EmulationHandle) (how : Release) : Ledger :=
  let outcome := g.emulation.releaseKeys handle how
  ⟨outcome.2, g.accepted ++ took g.emulation outcome⟩

def destroy (g : Ledger) (handle : EmulationHandle) (how : Release) : Ledger :=
  ⟨g.emulation.destroy handle how, (g.releaseKeys handle how).accepted⟩

def terminate (g : Ledger) (order : Order EmulationHandle) (how : EmulationHandle → Release) :
    Ledger :=
  let handles := order.list g.emulation.handles
  ⟨g.emulation.terminate order how,
    (handles.foldl (fun g handle => g.destroy handle (how handle)) g).accepted⟩

def step (g : Ledger) : Op → Ledger
  | .consume event handle answer => g.consume event handle answer
  | .create handle => { g with emulation := (g.emulation.create handle).2 }
  | .releaseKeys handle how => g.releaseKeys handle how
  | .destroy handle how => g.destroy handle how
  | .terminate order how => g.terminate order how

/-- The ledger adds nothing to the emulation. -/
theorem emulation_run (g : Ledger) (ops : List Op) :
    (run step g ops).emulation = run InputEmulation.step g.emulation ops := by
  induction ops generalizing g with
  | nil => rfl
  | cons op ops ih =>
    rw [run_cons, run_cons, ih]
    cases op <;> rfl

/-- A key is recorded for a live handle exactly when the backend holds it down. -/
def Faithful (g : Ledger) : Prop :=
  ∀ handle ∈ g.emulation.handles, ∀ key,
    key ∈ g.emulation.keysOf handle ↔ Toggle.isOn g.accepted (handle, key) = true

/-- No key event is refused to a handle that stays, and no handle comes back with keys that the
backend holds down. -/
def Heeded (g : Ledger) : Op → Prop
  | .consume (.keyboard (.key _ key state)) handle answer =>
    handle ∈ g.emulation.handles → (key ∈ g.emulation.keysOf handle ↔ state = 0) → answer = true
  | .consume _ _ _ => True
  | .create handle =>
    handle ∉ g.emulation.handles → ∀ key, Toggle.isOn g.accepted (handle, key) = false
  | .releaseKeys handle how =>
    ∀ answer ∈ how.answers.take (g.emulation.keysOf handle).card, answer = true
  | .destroy _ _ => True
  | .terminate _ _ => True

end Ledger

namespace InputEmulation

variable {s : InputEmulation} {handle : EmulationHandle} {how : Release}

/-- Exactly the live handles have a record. -/
def Registered (s : InputEmulation) : Prop :=
  ∀ handle, handle ∈ s.handles ↔ (s.pressedKeys.lookup handle).isSome = true

theorem registered_new : new.Registered := by simp [Registered, new]

theorem Registered.lookup_eq_none (registered : s.Registered) (gone : handle ∉ s.handles) :
    s.pressedKeys.lookup handle = none := by
  rw [registered, Bool.not_eq_true, Option.isSome_eq_false_iff, Option.isNone_iff_eq_none] at gone
  exact gone

theorem Registered.keysOf_eq (registered : s.Registered) (gone : handle ∉ s.handles) :
    s.keysOf handle = ∅ := by
  rw [keysOf, registered.lookup_eq_none gone]
  rfl

theorem Registered.of_same (registered : s.Registered) {s' : InputEmulation}
    (lookup : ∀ handle, (s'.pressedKeys.lookup handle).isSome =
      (s.pressedKeys.lookup handle).isSome)
    (handles : s'.handles = s.handles) : s'.Registered := by
  intro handle
  rw [handles, lookup, registered handle]

/-! ### Lifting the keys of a handle -/

/-- The events the backend took are those before the first it refused, and nothing but the calls
has changed. -/
theorem consumeEach_spec (handle : EmulationHandle) (events : List InputEvent)
    (answers : List Bool) (s : InputEmulation) :
    ∃ made, (consumeEach handle events answers s).2 = { s with calls := s.calls ++ made } ∧
      ((consumeEach handle events answers s).1 = false → made ≠ []) ∧
      (if (consumeEach handle events answers s).1 then made else made.dropLast) =
        (acceptedOf events answers).map (Call.consume · handle) := by
  induction events generalizing answers s with
  | nil => exact ⟨[], by simp [consumeEach], nofun, rfl⟩
  | cons event events ih =>
    rw [consumeEach, acceptedOf]
    by_cases taken : answers.headD true = true
    · rw [if_pos taken, if_pos taken]
      obtain ⟨made, after, stopped, eq⟩ := ih answers.tail (s.call (.consume event handle))
      refine ⟨.consume event handle :: made, ?_, fun _ => List.cons_ne_nil _ _, ?_⟩
      · rw [after]
        simp [call]
      · rw [List.map_cons, ← eq]
        split_ifs with ok
        · rfl
        · exact List.dropLast_cons_of_ne_nil (stopped (Bool.eq_false_iff.mpr ok))
    · rw [if_neg taken, if_neg taken]
      exact ⟨[.consume event handle], rfl, fun _ => List.cons_ne_nil _ _, rfl⟩

theorem took_consumeEach (handle : EmulationHandle) (events : List InputEvent)
    (answers : List Bool) (before s : InputEmulation) (same : before.calls = s.calls) :
    took before (consumeEach handle events answers s) =
      (acceptedOf events answers).filterMap fun event => (Call.consume event handle).key? := by
  obtain ⟨made, after, -, eq⟩ := consumeEach_spec handle events answers s
  unfold took
  rw [after, same, List.drop_left]
  dsimp only
  rw [eq, List.filterMap_map]
  rfl

/-- In `release_keys` the backend takes some of the events that lift the keys of the handle. -/
theorem releaseKeys_took (s : InputEmulation) (handle : EmulationHandle) (how : Release) :
    ∃ keys : List UInt32, keys.Nodup ∧ (∀ key, key ∈ keys ↔ key ∈ s.keysOf handle) ∧
      keys.length = (s.keysOf handle).card ∧
      took s (s.releaseKeys handle how) =
        ((acceptedOf keys how.answers).map (handle, ·)).map (·, false) := by
  unfold releaseKeys
  cases known : s.pressedKeys.lookup handle with
  | none =>
    have empty : s.keysOf handle = ∅ := by rw [keysOf, known]; rfl
    refine ⟨[], List.nodup_nil, by simp [empty], by simp [empty], ?_⟩
    refine Eq.trans (took_consumeEach _ _ _ s _ rfl) ?_
    exact filterMap_acceptedOf_concat (l := []) rfl
  | some keys =>
    have own : s.keysOf handle = keys := by rw [keysOf, known]; rfl
    have nodup := how.order.nodup keys
    have listed : ∀ key, key ∈ how.order.list keys ↔ key ∈ keys := how.order.mem_list keys
    have size : (how.order.list keys).length = keys.card := by
      rw [← List.toFinset_card_of_nodup nodup]
      congr 1
      ext key
      rw [List.mem_toFinset, listed]
    rw [own]
    refine ⟨how.order.list keys, nodup, listed, size, ?_⟩
    refine Eq.trans (took_consumeEach _ _ _ s _ rfl) ?_
    rw [filterMap_acceptedOf_concat rfl, acceptedOf_map]
    simp [List.filterMap_map, List.map_map, Function.comp_def, keyUp, Call.key?]

/-! ### A key event -/

theorem updatePressedKeys_eq {keys : Finset UInt32}
    (known : s.pressedKeys.lookup handle = some keys) (key : UInt32) (state : UInt8) :
    ∃ keys' : Finset UInt32, (∀ k, k ∈ keys' ↔ if k = key then state ≠ 0 else k ∈ keys) ∧
      s.updatePressedKeys handle key state =
        (decide (key ∈ keys ↔ state = 0),
          { s with pressedKeys := s.pressedKeys.insert handle keys' }) := by
  unfold updatePressedKeys
  rw [known]
  by_cases up : state = 0
  · refine ⟨keys.erase key, by grind, ?_⟩
    simp [up]
  · refine ⟨insert key keys, by grind, ?_⟩
    simp [up]

/-- A key event leaves its key as it says in the record, and is passed on if that is a change. -/
theorem consume_key_spec {keys : Finset UInt32} (known : s.pressedKeys.lookup handle = some keys)
    (time key : UInt32) (state : UInt8) (answer : Bool) :
    let outcome := s.consume (.keyboard (.key time key state)) handle answer
    (∃ keys' : Finset UInt32, (∀ k, k ∈ keys' ↔ if k = key then state ≠ 0 else k ∈ keys) ∧
      ∀ other, outcome.2.pressedKeys.lookup other =
        if other = handle then some keys' else s.pressedKeys.lookup other) ∧
    outcome.2.handles = s.handles ∧
    took s outcome =
      if (key ∈ keys ↔ state = 0) ∧ answer = true then [((handle, key), decide (state ≠ 0))]
      else [] := by
  obtain ⟨keys', mem, eq⟩ := updatePressedKeys_eq known key state
  have lookup : ∀ other, (s.pressedKeys.insert handle keys').lookup other =
      if other = handle then some keys' else s.pressedKeys.lookup other := by
    intro other
    split_ifs with same
    · rw [same]
      exact AList.lookup_insert _
    · exact AList.lookup_insert_ne same
  simp only [consume, eq]
  by_cases change : key ∈ keys ↔ state = 0
  · rw [if_pos (decide_eq_true change)]
    refine ⟨⟨keys', mem, lookup⟩, rfl, ?_⟩
    cases answer with
    | true => simp [took, call, Call.key?, change]
    | false => simp [took, call]
  · rw [if_neg (by simpa using change), if_neg (fun both => change both.1)]
    exact ⟨⟨keys', mem, lookup⟩, rfl, by simp [took]⟩

end InputEmulation

/-! ### One operation -/

namespace Ledger

open InputEmulation

variable {g : Ledger}

/-- The operation has changed neither a record nor what the backend accepted. -/
structure Same (g g' : Ledger) : Prop where
  lookup : ∀ handle,
    g'.emulation.pressedKeys.lookup handle = g.emulation.pressedKeys.lookup handle
  handles : g'.emulation.handles = g.emulation.handles
  accepted : g'.accepted = g.accepted

theorem Same.registered {g' : Ledger} (same : Same g g') (registered : g.emulation.Registered) :
    g'.emulation.Registered :=
  registered.of_same (fun handle => by rw [same.lookup]) same.handles

theorem Same.faithful {g' : Ledger} (same : Same g g') (faithful : g.Faithful) : g'.Faithful := by
  intro handle live key
  rw [same.handles] at live
  rw [same.accepted, keysOf, same.lookup]
  exact faithful handle live key

theorem consume_same_of_other {event : InputEvent} {handle : EmulationHandle} (answer : Bool)
    (other : (Call.consume event handle).key? = none) : Same g (g.consume event handle answer) := by
  have passed : g.emulation.consume event handle answer =
      (answer, g.emulation.call (.consume event handle)) := by
    unfold InputEmulation.consume
    split
    · cases other
    · rfl
  refine ⟨fun _ => ?_, ?_, ?_⟩
  · simp [consume, passed, InputEmulation.call]
  · simp [consume, passed, InputEmulation.call]
  · cases answer <;> simp [consume, passed, took, InputEmulation.call, other]

theorem consume_same_of_unknown {handle : EmulationHandle}
    (unknown : g.emulation.pressedKeys.lookup handle = none) (time key : UInt32) (state : UInt8)
    (answer : Bool) : Same g (g.consume (.keyboard (.key time key state)) handle answer) := by
  have dropped : g.emulation.consume (.keyboard (.key time key state)) handle answer =
      (true, g.emulation) := by
    simp [InputEmulation.consume, updatePressedKeys, unknown]
  refine ⟨fun _ => ?_, ?_, ?_⟩ <;> simp [consume, dropped, took]

section KeyEvent

variable {handle : EmulationHandle} {keys : Finset UInt32}

theorem mem_keysOf_consume_key (known : g.emulation.pressedKeys.lookup handle = some keys)
    (time key : UInt32) (state : UInt8) (answer : Bool) (other : EmulationHandle) (k : UInt32) :
    k ∈ (g.consume (.keyboard (.key time key state)) handle answer).emulation.keysOf other ↔
      if other = handle ∧ k = key then state ≠ 0 else k ∈ g.emulation.keysOf other := by
  obtain ⟨⟨keys', mem, lookup⟩, -⟩ := consume_key_spec known time key state answer
  rw [consume, keysOf, lookup]
  by_cases same : other = handle
  · subst same
    rw [if_pos rfl, Option.getD_some, mem, keysOf, known, Option.getD_some]
    simp only [true_and]
  · rw [if_neg same, if_neg fun both => same both.1, keysOf]

theorem isOn_consume_key (known : g.emulation.pressedKeys.lookup handle = some keys)
    (time key : UInt32) (state : UInt8) (answer : Bool) (other : EmulationHandle) (k : UInt32) :
    Toggle.isOn (g.consume (.keyboard (.key time key state)) handle answer).accepted (other, k) =
      if (other = handle ∧ k = key) ∧ (key ∈ keys ↔ state = 0) ∧ answer = true then
        decide (state ≠ 0)
      else Toggle.isOn g.accepted (other, k) := by
  obtain ⟨-, -, passed⟩ := consume_key_spec known time key state answer
  rw [consume, passed]
  by_cases heard : (key ∈ keys ↔ state = 0) ∧ answer = true
  · rw [if_pos heard, Toggle.isOn_concat]
    refine if_congr ?_ rfl rfl
    rw [Prod.mk.injEq, eq_comm, @eq_comm _ key]
    exact (and_iff_left heard).symm
  · rw [if_neg heard, if_neg fun both => heard both.2, List.append_nil]

/-- The record after a key event agrees with what the backend accepted exactly when the event was
no change or was accepted. -/
theorem faithful_consume_key_iff (faithful : g.Faithful) (live : handle ∈ g.emulation.handles)
    (known : g.emulation.pressedKeys.lookup handle = some keys) (time key : UInt32)
    (state : UInt8) (answer : Bool) :
    (g.consume (.keyboard (.key time key state)) handle answer).Faithful ↔
      ((key ∈ keys ↔ state = 0) → answer = true) := by
  obtain ⟨-, handles, -⟩ := consume_key_spec known time key state answer
  have before : key ∈ keys ↔ Toggle.isOn g.accepted (handle, key) = true := by
    rw [← faithful handle live key, keysOf, known, Option.getD_some]
  constructor
  · intro faithful' change
    by_contra refused
    have after := faithful' handle (handles ▸ live) key
    rw [mem_keysOf_consume_key known, if_pos ⟨rfl, rfl⟩, isOn_consume_key known,
      if_neg fun heard => refused heard.2.2, ← before, change] at after
    exact not_iff_self after
  · intro heeded other live' k
    rw [mem_keysOf_consume_key known, isOn_consume_key known]
    by_cases it : other = handle ∧ k = key
    · obtain ⟨rfl, rfl⟩ := it
      rw [if_pos ⟨rfl, rfl⟩]
      by_cases change : k ∈ keys ↔ state = 0
      · rw [if_pos ⟨⟨rfl, rfl⟩, change, heeded change⟩, decide_eq_true_iff]
      · rw [if_neg fun heard => change heard.2.1, ← before]
        exact not_iff_comm.mp (not_iff.mp change)
    · rw [if_neg it, if_neg fun heard => it heard.1]
      exact faithful other (handles ▸ live') k

end KeyEvent

/-- An event that is no key event of a live handle changes nothing here. -/
theorem consume_cases (registered : g.emulation.Registered) (event : InputEvent)
    (handle : EmulationHandle) (answer : Bool) :
    (Same g (g.consume event handle answer) ∧ g.Heeded (.consume event handle answer)) ∨
      ∃ time key state keys, event = .keyboard (.key time key state) ∧
        g.emulation.pressedKeys.lookup handle = some keys := by
  cases event with
  | pointer e => exact .inl ⟨consume_same_of_other answer rfl, trivial⟩
  | keyboard e =>
    cases e with
    | modifiers => exact .inl ⟨consume_same_of_other answer rfl, trivial⟩
    | key time key state =>
      cases known : g.emulation.pressedKeys.lookup handle with
      | none =>
        refine .inl ⟨consume_same_of_unknown known time key state answer, fun live => ?_⟩
        rw [registered, known] at live
        cases live
      | some keys => exact .inr ⟨time, key, state, keys, rfl, rfl⟩

theorem registered_consume (registered : g.emulation.Registered) (event : InputEvent)
    (handle : EmulationHandle) (answer : Bool) :
    (g.consume event handle answer).emulation.Registered := by
  obtain ⟨same, -⟩ | ⟨time, key, state, keys, rfl, known⟩ :=
    consume_cases registered event handle answer
  · exact same.registered registered
  · obtain ⟨⟨keys', -, lookup⟩, handles, -⟩ := consume_key_spec known time key state answer
    refine registered.of_same (fun other => ?_) handles
    rw [consume, lookup]
    split_ifs with same
    · rw [same, known]
      rfl
    · rfl

theorem faithful_consume_iff (registered : g.emulation.Registered) (faithful : g.Faithful)
    (event : InputEvent) (handle : EmulationHandle) (answer : Bool) :
    (g.consume event handle answer).Faithful ↔ g.Heeded (.consume event handle answer) := by
  obtain ⟨same, heeded⟩ | ⟨time, key, state, keys, rfl, known⟩ :=
    consume_cases registered event handle answer
  · exact iff_of_true (same.faithful faithful) heeded
  · have live : handle ∈ g.emulation.handles := by rw [registered, known]; rfl
    have own : g.emulation.keysOf handle = keys := by rw [keysOf, known]; rfl
    rw [faithful_consume_key_iff faithful live known, Heeded, own]
    exact ⟨fun heeded _ => heeded, fun heeded => heeded live⟩

theorem keysOf_releaseKeys (g : Ledger) (handle other : EmulationHandle) (how : Release) :
    (g.releaseKeys handle how).emulation.keysOf other =
      if other = handle then ∅ else g.emulation.keysOf other := by
  rw [releaseKeys, keysOf, (releaseKeys_records g.emulation handle how).1]
  split_ifs
  · cases g.emulation.pressedKeys.lookup handle <;> rfl
  · rfl

/-- Lifting the keys of a handle releases those that the backend takes. -/
theorem isOn_releaseKeys (g : Ledger) (handle : EmulationHandle) (how : Release) :
    ∃ keys : List UInt32, keys.Nodup ∧ (∀ key, key ∈ keys ↔ key ∈ g.emulation.keysOf handle) ∧
      keys.length = (g.emulation.keysOf handle).card ∧
      ∀ other key, Toggle.isOn (g.releaseKeys handle how).accepted (other, key) =
        if other = handle ∧ key ∈ acceptedOf keys how.answers then false
        else Toggle.isOn g.accepted (other, key) := by
  obtain ⟨keys, nodup, mem, size, passed⟩ := releaseKeys_took g.emulation handle how
  refine ⟨keys, nodup, mem, size, fun other key => ?_⟩
  rw [releaseKeys, passed, Toggle.isOn_append_map]
  simp [eq_comm, and_comm]

theorem registered_releaseKeys (registered : g.emulation.Registered) (handle : EmulationHandle)
    (how : Release) : (g.releaseKeys handle how).emulation.Registered := by
  obtain ⟨lookup, handles⟩ := releaseKeys_records g.emulation handle how
  refine registered.of_same (fun other => ?_) handles
  rw [releaseKeys, lookup]
  split_ifs with same
  · rw [same, Option.isSome_map]
  · rfl

theorem faithful_releaseKeys_iff (registered : g.emulation.Registered) (faithful : g.Faithful)
    (handle : EmulationHandle) (how : Release) :
    (g.releaseKeys handle how).Faithful ↔ g.Heeded (.releaseKeys handle how) := by
  obtain ⟨keys, nodup, mem, size, log⟩ := isOn_releaseKeys g handle how
  have handles : (g.releaseKeys handle how).emulation.handles = g.emulation.handles :=
    (releaseKeys_records g.emulation handle how).2
  rw [Heeded, ← size]
  constructor
  · intro faithful'
    by_cases live : handle ∈ g.emulation.handles
    · refine taken_of_subset_acceptedOf nodup fun key listed => ?_
      have after := faithful' handle (handles ▸ live) key
      rw [keysOf_releaseKeys, if_pos rfl, log, (faithful handle live key).mp ((mem key).mp listed)]
        at after
      simpa using after
    · rw [size, registered.keysOf_eq live]
      simp
  · intro heeded other live key
    rw [handles] at live
    simp only [keysOf_releaseKeys, log, acceptedOf_eq_self heeded, mem]
    have before := faithful other live key
    by_cases same : other = handle
    · subst same
      by_cases held : key ∈ g.emulation.keysOf other
      · simp [held]
      · simpa [held] using before
    · simpa [same] using before

end Ledger

namespace InputEmulation

theorem destroy_spec {s : InputEmulation} (registered : s.Registered) (handle : EmulationHandle)
    (how : Release) :
    (s.destroy handle how).handles = s.handles.erase handle ∧
      ∀ other, (s.destroy handle how).pressedKeys.lookup other =
        if other = handle then none else s.pressedKeys.lookup other := by
  obtain ⟨lookup, handles⟩ := releaseKeys_records s handle how
  unfold destroy
  generalize s.releaseKeys handle how = r at lookup handles
  dsimp only
  by_cases known : handle ∈ r.2.handles
  · rw [if_pos known]
    refine ⟨by rw [← handles]; rfl, fun other => ?_⟩
    split_ifs with same
    · rw [same]
      exact AList.lookup_erase handle r.2.pressedKeys
    · refine (AList.lookup_erase_ne same).trans ?_
      rw [lookup, if_neg same]
  · rw [if_neg known]
    rw [handles] at known ⊢
    refine ⟨(Finset.erase_eq_of_notMem known).symm, fun other => ?_⟩
    rw [lookup, registered.lookup_eq_none known]
    rfl

theorem Registered.destroy {s : InputEmulation} (registered : s.Registered)
    (handle : EmulationHandle) (how : Release) : (s.destroy handle how).Registered := by
  intro other
  obtain ⟨handles, lookup⟩ := destroy_spec registered handle how
  rw [handles, lookup, Finset.mem_erase, registered other]
  split_ifs with same <;> simp [same]

theorem Registered.foldl_destroy {s : InputEmulation} (registered : s.Registered)
    (how : EmulationHandle → Release) (handles : List EmulationHandle) :
    (handles.foldl (fun s handle => s.destroy handle (how handle)) s).Registered ∧
      ∀ handle, handle ∈ (handles.foldl (fun s handle => s.destroy handle (how handle)) s).handles ↔
        handle ∈ s.handles ∧ handle ∉ handles := by
  induction handles generalizing s with
  | nil => exact ⟨registered, by simp⟩
  | cons first rest ih =>
    obtain ⟨after, mem⟩ := ih (registered.destroy first (how first))
    refine ⟨after, fun handle => ?_⟩
    rw [List.foldl_cons, mem, (destroy_spec registered first (how first)).1, Finset.mem_erase,
      List.mem_cons]
    tauto

theorem Registered.terminate {s : InputEmulation} (registered : s.Registered)
    (order : Order EmulationHandle) (how : EmulationHandle → Release) :
    (s.terminate order how).Registered ∧ ∀ handle, handle ∉ (s.terminate order how).handles := by
  obtain ⟨after, mem⟩ := registered.foldl_destroy how (order.list s.handles)
  refine ⟨after, fun handle left => ?_⟩
  obtain ⟨live, skipped⟩ := (mem handle).mp left
  exact skipped ((order.mem_list s.handles handle).mpr live)

theorem create_spec {s : InputEmulation} {handle : EmulationHandle} (fresh : handle ∉ s.handles) :
    (s.create handle).2.handles = insert handle s.handles ∧
      ∀ other, (s.create handle).2.pressedKeys.lookup other =
        if other = handle then some ∅ else s.pressedKeys.lookup other := by
  unfold create
  rw [if_neg fresh]
  refine ⟨rfl, fun other => ?_⟩
  split_ifs with same
  · rw [same]
    exact AList.lookup_insert _
  · exact AList.lookup_insert_ne same

theorem Registered.create {s : InputEmulation} (registered : s.Registered)
    (handle : EmulationHandle) : (s.create handle).2.Registered := by
  by_cases live : handle ∈ s.handles
  · unfold InputEmulation.create
    rwa [if_pos live]
  · intro other
    obtain ⟨handles, lookup⟩ := create_spec live
    rw [handles, lookup, Finset.mem_insert, registered other]
    split_ifs with same <;> simp [same]

end InputEmulation

namespace Ledger

open InputEmulation

variable {g : Ledger}

theorem faithful_destroy (registered : g.emulation.Registered) (faithful : g.Faithful)
    (handle : EmulationHandle) (how : Release) : (g.destroy handle how).Faithful := by
  obtain ⟨handles, lookup⟩ := destroy_spec registered handle how
  obtain ⟨keys, -, -, -, log⟩ := isOn_releaseKeys g handle how
  intro other live key
  obtain ⟨apart, live⟩ := Finset.mem_erase.mp (handles ▸ live)
  rw [destroy, log, if_neg fun both => apart both.1, keysOf, lookup, if_neg apart]
  exact faithful other live key

/-- A new handle starts with no keys, so the backend must hold none of them down. -/
theorem faithful_create_iff (faithful : g.Faithful) (handle : EmulationHandle) :
    (g.step (.create handle)).Faithful ↔ g.Heeded (.create handle) := by
  by_cases live : handle ∈ g.emulation.handles
  · have same : (g.emulation.create handle).2 = g.emulation := by
      unfold InputEmulation.create
      rw [if_pos live]
    rw [step, same]
    exact iff_of_true faithful fun fresh => absurd live fresh
  · obtain ⟨handles, lookup⟩ := create_spec live
    have now : ∀ other, (g.step (.create handle)).emulation.keysOf other =
        if other = handle then ∅ else g.emulation.keysOf other := by
      intro other
      rw [step, keysOf, lookup]
      split_ifs <;> rfl
    constructor
    · intro faithful' _ key
      have after := faithful' handle (handles ▸ Finset.mem_insert_self _ _) key
      rw [now, if_pos rfl] at after
      simpa [step] using after
    · intro heeded other live' key
      have before : other = handle ∨ other ∈ g.emulation.handles :=
        Finset.mem_insert.mp (handles ▸ live')
      rw [now]
      by_cases same : other = handle
      · subst same
        simp [step, heeded live key]
      · rw [if_neg same]
        exact faithful other (before.resolve_left same) key

theorem registered_step (registered : g.emulation.Registered) (op : Op) :
    (g.step op).emulation.Registered := by
  cases op with
  | consume event handle answer => exact registered_consume registered event handle answer
  | create handle => exact registered.create handle
  | releaseKeys handle how => exact registered_releaseKeys registered handle how
  | destroy handle how => exact registered.destroy handle how
  | terminate order how => exact (registered.terminate order how).1

theorem faithful_step_iff (registered : g.emulation.Registered) (faithful : g.Faithful) (op : Op) :
    (g.step op).Faithful ↔ g.Heeded op := by
  cases op with
  | consume event handle answer =>
    exact faithful_consume_iff registered faithful event handle answer
  | create handle => exact faithful_create_iff faithful handle
  | releaseKeys handle how => exact faithful_releaseKeys_iff registered faithful handle how
  | destroy handle how =>
    exact iff_of_true (faithful_destroy registered faithful handle how) trivial
  | terminate order how =>
    refine iff_of_true (fun handle live => ?_) trivial
    exact absurd live ((registered.terminate order how).2 handle)

/-- The recorded keys are those the backend holds down in every state of a run, exactly when no key
event is refused and no handle comes back with keys held down. -/
theorem recorded_iff_accepted (ops : List Op) :
    Always step Faithful new ops ↔ AllMeet step Heeded new ops := by
  refine always_iff_allMeet (fun g => g.emulation.Registered ∧ g.Faithful) ?_ ?_ ?_ ?_ ops
  · rintro g op ⟨registered, faithful⟩ heeded
    exact ⟨registered_step registered op, (faithful_step_iff registered faithful op).mpr heeded⟩
  · exact fun g holds => holds.2
  · rintro g op ⟨registered, faithful⟩ after
    exact (faithful_step_iff registered faithful op).mp after
  · refine ⟨registered_new, fun handle live => ?_⟩
    exact absurd live (Finset.notMem_empty handle)

/-- A press that is refused stays recorded, so that it is not passed on again. A release that is
refused is forgotten: a second one is not passed on, and nothing is left to lift. -/
theorem refused_events_are_recorded :
    let press : InputEvent := .keyboard (.key 0 30 1)
    let unpress : InputEvent := .keyboard (.key 0 30 0)
    let up := run step new [.create 1, .consume press 1 false]
    let down := run step new [.create 1, .consume press 1 true, .consume unpress 1 false]
    (¬ up.Faithful ∧ 30 ∈ up.emulation.keysOf 1 ∧ Toggle.isOn up.accepted (1, 30) = false ∧
      (up.emulation.consume press 1 true).2.calls = up.emulation.calls) ∧
    ¬ down.Faithful ∧ Toggle.isOn down.accepted (1, 30) = true ∧
      (down.emulation.consume unpress 1 true).2.calls = down.emulation.calls ∧
      down.emulation.hasPressedKeys 1 = false := by
  intro press unpress up down
  have recorded : 30 ∈ up.emulation.keysOf 1 := by decide
  have forgotten : 30 ∉ down.emulation.keysOf 1 := by decide
  have isUp : Toggle.isOn up.accepted (1, 30) = false := by decide
  have isDown : Toggle.isOn down.accepted (1, 30) = true := by decide
  refine ⟨⟨fun faithful => ?_, recorded, isUp, by decide⟩, fun faithful => ?_, isDown, by decide,
    by decide⟩
  · have on := (faithful 1 (by decide) 30).mp recorded
    rw [isUp] at on
    cases on
  · exact forgotten ((faithful 1 (by decide) 30).mpr isDown)

end Ledger

end LanMouse.Emulation
