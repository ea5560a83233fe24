import LanMouse.Emulation.Task
import LanMouse.Lib.Transition

/-!
# Removals and termination

A request is taken wherever the task happens to wait, and each of these places deals with it in its
own way. Two requests should have the same effect in all of them: after a removal the peer has no
handle until it sends input again, and after a termination the task only closes the backend and
returns.
-/
namespace LanMouse.Emulation

open Proto Client Transition

/-! ### The handles of the backend -/

namespace InputEmulation

theorem handles_consume (s : InputEmulation) (event : InputEvent) (handle : EmulationHandle)
    (answer : Bool) : (s.consume event handle answer).2.handles = s.handles := by
  have pressed (key : UInt32) (state : UInt8) :
      (s.updatePressedKeys handle key state).2.handles = s.handles := by
    unfold updatePressedKeys
    split
    · rfl
    · split_ifs <;> rfl
  unfold consume
  split
  · dsimp only
    split_ifs
    · exact pressed ..
    · exact pressed ..
  · rfl

theorem handles_create (s : InputEmulation) (handle : EmulationHandle) :
    (s.create handle).2.handles = insert handle s.handles := by
  unfold create
  split_ifs with live
  · rw [Finset.insert_eq_of_mem live]
  · rfl

theorem handles_destroy (s : InputEmulation) (handle : EmulationHandle) (how : Release) :
    (s.destroy handle how).handles = s.handles.erase handle := by
  have kept : (s.releaseKeys handle how).2.handles = s.handles :=
    (releaseKeys_records s handle how).2
  unfold destroy
  dsimp only
  split_ifs with live
  · exact congrArg (·.erase handle) kept
  · rw [kept] at live ⊢
    exact (Finset.erase_eq_of_notMem live).symm

end InputEmulation

/-- A handle of the backend that was created for a peer is the one the table has for it. -/
def Owns (handles : AList fun _ : SocketAddr => EmulationHandle)
    (owner : EmulationHandle → Option SocketAddr) (emulation : InputEmulation) : Prop :=
  ∀ handle ∈ emulation.handles, ∀ addr, owner handle = some addr →
    handles.lookup addr = some handle

section Owns

variable {handles : AList fun _ : SocketAddr => EmulationHandle}
  {owner : EmulationHandle → Option SocketAddr} {emulation : InputEmulation} {addr : SocketAddr}
  {handle : EmulationHandle}

theorem owns_new : Owns handles owner .new := by
  intro handle live
  simp [InputEmulation.new] at live

theorem Owns.of_handles {emulation' : InputEmulation} (own : Owns handles owner emulation)
    (same : emulation'.handles = emulation.handles) : Owns handles owner emulation' := by
  intro handle live
  exact own handle (same ▸ live)

theorem Owns.insert (own : Owns handles owner emulation) (absent : handles.lookup addr = none) :
    Owns (handles.insert addr handle) owner emulation := by
  intro h live a owned
  have entry := own h live a owned
  have other : a ≠ addr := by
    rintro rfl
    rw [absent] at entry
    cases entry
  rwa [AList.lookup_insert_ne other]

theorem Owns.create (own : Owns handles owner emulation)
    (entry : handles.lookup addr = some handle) :
    Owns handles
      (if handle ∈ emulation.handles then owner else Function.update owner handle (some addr))
      (emulation.create handle).2 := by
  intro h live a owned
  rw [InputEmulation.handles_create, Finset.mem_insert] at live
  split_ifs at owned with there
  · refine own h ?_ a owned
    rcases live with rfl | live
    · exact there
    · exact live
  · by_cases same : h = handle
    · subst same
      rw [Function.update_self, Option.some_inj] at owned
      exact owned ▸ entry
    · rw [Function.update_of_ne same] at owned
      exact own h (live.resolve_left same) a owned

theorem Owns.destroy (own : Owns handles owner emulation)
    (entry : handles.lookup addr = some handle) (how : Release) :
    Owns (handles.erase addr) owner (emulation.destroy handle how) := by
  intro h live a owned
  rw [InputEmulation.handles_destroy, Finset.mem_erase] at live
  have held := own h live.2 a owned
  have other : a ≠ addr := by
    rintro rfl
    rw [entry, Option.some_inj] at held
    exact live.1 held.symm
  rwa [AList.lookup_erase_ne other]

end Owns

/-- The handles that are still to be created again. -/
def Phase.rest : Phase → List (SocketAddr × EmulationHandle)
  | .recreating _ rest => rest
  | _ => []

namespace EmulationTask

/-- The backend and the table agree, and so do the table and what is still to be created. -/
structure Orderly (s : EmulationTask) : Prop where
  owns : ∀ emulation ∈ s.phase.emulation?, Owns s.handles s.owner emulation
  rest : ∀ client ∈ s.phase.rest, s.handles.lookup client.1 = some client.2

variable {s s' : EmulationTask} {emulation : InputEmulation}

theorem Orderly.of_same (o : s.Orderly) (handles : s'.handles = s.handles)
    (owner : s'.owner = s.owner) (phase : s'.phase = s.phase) : s'.Orderly := by
  constructor
  · rw [phase, handles, owner]
    exact o.owns
  · rw [phase, handles]
    exact o.rest

theorem orderly_of_idle (idle : s.phase.emulation? = none) : s.Orderly := by
  refine ⟨by simp [idle], ?_⟩
  cases phase : s.phase with
  | recreating => simp [phase, Phase.emulation?] at idle
  | creating | session | closing | disabled | ended => simp [Phase.rest]

theorem orderly_leave (s : EmulationTask) : s.leave.Orderly := by
  refine orderly_of_idle ?_
  unfold leave
  split_ifs <;> rfl

theorem orderly_session (owns : Owns s.handles s.owner emulation) :
    ({ s with phase := .session emulation }).Orderly :=
  ⟨fun _ is => Option.some_inj.mp is ▸ owns, by simp [Phase.rest]⟩

theorem orderly_closing (owns : Owns s.handles s.owner emulation) :
    ({ s with phase := .closing emulation }).Orderly :=
  ⟨fun _ is => Option.some_inj.mp is ▸ owns, by simp [Phase.rest]⟩

theorem orderly_proceed (owns : Owns s.handles s.owner emulation)
    {rest : List (SocketAddr × EmulationHandle)}
    (entries : ∀ client ∈ rest, s.handles.lookup client.1 = some client.2) :
    ({ s with phase := proceed emulation rest }).Orderly := by
  cases rest with
  | nil => exact orderly_session owns
  | cons client rest => exact ⟨fun _ is => Option.some_inj.mp is ▸ owns, entries⟩

theorem handles_createFor (s : EmulationTask) (emulation : InputEmulation) (addr : SocketAddr)
    (handle : EmulationHandle) : (s.createFor emulation addr handle).2.handles = s.handles := by
  unfold createFor
  dsimp only
  split_ifs <;> rfl

theorem owns_createFor (owns : Owns s.handles s.owner emulation) {addr : SocketAddr}
    {handle : EmulationHandle} (entry : s.handles.lookup addr = some handle) :
    Owns (s.createFor emulation addr handle).2.handles
      (s.createFor emulation addr handle).2.owner (s.createFor emulation addr handle).1 := by
  have created := owns.create entry
  unfold createFor
  dsimp only
  split_ifs at created ⊢
  · exact created
  · exact created

theorem orderly_abandon (owns : Owns s.handles s.owner emulation)
    {rest : List (SocketAddr × EmulationHandle)}
    (entries : ∀ client ∈ rest, s.handles.lookup client.1 = some client.2) (begun : Bool) :
    (s.abandon emulation rest begun).Orderly := by
  unfold abandon
  split
  · next addr handle rest =>
    have entry := entries (addr, handle) List.mem_cons_self
    exact orderly_session (owns_createFor owns entry)
  · exact orderly_session owns

theorem owns_handleOf (owns : Owns s.handles s.owner emulation) (addr : SocketAddr) :
    Owns (s.handleOf emulation addr).2.2.handles (s.handleOf emulation addr).2.2.owner
      (s.handleOf emulation addr).2.1 := by
  unfold handleOf
  split
  · exact owns
  · next absent =>
    -- the table is extended after the backend was told; the order does not matter here
    have extended : Owns (s.handles.insert addr s.nextId) s.owner emulation := owns.insert absent
    have created := extended.create (AList.lookup_insert _)
    dsimp only [createFor]
    split_ifs at created ⊢
    · exact created
    · exact created

theorem orderly_doEmulationSession (o : s.Orderly) (phase : s.phase = .session emulation)
    (r : ProxyRequest) (answer : Answer) :
    (s.doEmulationSession emulation r answer).Orderly := by
  have owns : Owns s.handles s.owner emulation := o.owns emulation (by rw [phase]; rfl)
  cases r with
  | input event addr =>
    have kept := (owns_handleOf owns addr).of_handles (InputEmulation.handles_consume _ event
      (s.handleOf emulation addr).1 answer.ok)
    dsimp only [doEmulationSession]
    split_ifs
    · exact orderly_session kept
    · exact orderly_closing kept
  | remove addr =>
    dsimp only [doEmulationSession]
    split
    · next handle entry =>
      have destroyed := owns.destroy entry answer.how
      exact ⟨fun _ is => Option.some_inj.mp is ▸ destroyed, by simp [Phase.rest]⟩
    · exact o
  | terminate => exact orderly_closing owns
  | reenable => exact o

theorem orderly_take (o : s.Orderly) (r : ProxyRequest) (rest : List ProxyRequest) :
    (s.take r rest).Orderly := o.of_same rfl rfl rfl

theorem Orderly.dequeue (o : s.Orderly) (answer : Answer) : (s.dequeue answer).Orderly := by
  unfold EmulationTask.dequeue
  split
  · exact o
  · next r rest _ =>
    have taken := orderly_take o r rest
    split
    · split_ifs
      · exact orderly_leave _
      · exact taken
    · next emulation clients phase =>
      split_ifs
      · have owns := taken.owns emulation (by rw [take, phase]; rfl)
        have entries := taken.rest
        rw [take, phase] at entries
        exact orderly_abandon owns entries answer.begun
      · exact taken
    · next emulation phase => exact orderly_doEmulationSession taken phase r answer
    · next phase =>
      cases r with
      | reenable => exact orderly_of_idle rfl
      | terminate => exact orderly_of_idle rfl
      | input | remove => exact taken
    · exact o
    · exact o

theorem Orderly.step (o : s.Orderly) (e : TaskEvent) : (s.step e).Orderly := by
  cases e with
  | send r => exact o.of_same rfl rfl rfl
  | created order =>
    dsimp only [EmulationTask.step, created]
    split
    · split_ifs
      · refine orderly_proceed owns_new fun client mem => ?_
        obtain ⟨addr, -, listed⟩ := List.mem_filterMap.mp mem
        obtain ⟨handle, entry, rfl⟩ := Option.map_eq_some_iff.mp listed
        exact entry
      · exact o
    · exact o
  | failed =>
    dsimp only [EmulationTask.step, failed]
    split
    · exact orderly_leave s
    · exact o
  | recreate =>
    dsimp only [EmulationTask.step, recreate]
    split
    · next emulation addr handle rest phase =>
      have owns := o.owns emulation (by rw [phase]; rfl)
      have entries := o.rest
      rw [phase] at entries
      have entry := entries (addr, handle) List.mem_cons_self
      refine orderly_proceed (owns_createFor owns entry) fun client mem => ?_
      have same := handles_createFor s emulation addr handle
      exact same ▸ entries client (List.mem_cons_of_mem _ mem)
    · exact o
  | dequeue answer => exact o.dequeue answer
  | closed =>
    dsimp only [EmulationTask.step, closed]
    split
    · exact orderly_leave s
    · exact o

/-! ### Taking requests -/

/-- No request is sent or taken. -/
structure SameChannel (s s' : EmulationTask) : Prop where
  exitRequested : s'.exitRequested = s.exitRequested
  requestRx : s'.requestRx = s.requestRx
  dequeued : s'.dequeued = s.dequeued

/-- The table stays the same as well. -/
structure Quiet (s s' : EmulationTask) : Prop extends SameChannel s s' where
  handles : s'.handles = s.handles

theorem quiet_leave (s : EmulationTask) : Quiet s s.leave := ⟨⟨rfl, rfl, rfl⟩, rfl⟩

theorem quiet_createFor (s : EmulationTask) (emulation : InputEmulation) (addr : SocketAddr)
    (handle : EmulationHandle) : Quiet s (s.createFor emulation addr handle).2 := by
  unfold createFor
  dsimp only
  split_ifs <;> exact ⟨⟨rfl, rfl, rfl⟩, rfl⟩

theorem Quiet.withPhase (quiet : Quiet s s') (phase : Phase) :
    Quiet s { s' with phase := phase } :=
  ⟨⟨quiet.exitRequested, quiet.requestRx, quiet.dequeued⟩, quiet.handles⟩

theorem quiet_abandon (s : EmulationTask) (emulation : InputEmulation)
    (rest : List (SocketAddr × EmulationHandle)) (begun : Bool) :
    Quiet s (s.abandon emulation rest begun) := by
  unfold abandon
  split
  · exact (quiet_createFor ..).withPhase _
  · exact ⟨⟨rfl, rfl, rfl⟩, rfl⟩

/-- What happens without a request that is sent or taken. -/
def internal : TaskEvent → Bool
  | .created _ | .failed | .recreate | .closed => true
  | .send _ | .dequeue _ => false

/-- Only `dequeue` takes a request or changes the table. -/
theorem step_quiet {e : TaskEvent} (own : internal e = true) : Quiet s (s.step e) := by
  have same : Quiet s s := ⟨⟨rfl, rfl, rfl⟩, rfl⟩
  cases e with
  | send | dequeue => cases own
  | created order =>
    dsimp only [step, created]
    split
    · split_ifs
      · exact same.withPhase _
      · exact same
    · exact same
  | failed =>
    dsimp only [step, failed]
    split
    · exact quiet_leave s
    · exact same
  | recreate =>
    dsimp only [step, recreate]
    split
    · exact (quiet_createFor ..).withPhase _
    · exact same
  | closed =>
    dsimp only [step, closed]
    split
    · exact quiet_leave s
    · exact same

theorem sameChannel_handleOf (s : EmulationTask) (emulation : InputEmulation) (addr : SocketAddr) :
    SameChannel s (s.handleOf emulation addr).2.2 := by
  unfold handleOf
  split
  · exact ⟨rfl, rfl, rfl⟩
  · have quiet := quiet_createFor { s with nextId := s.nextId + 1 } emulation addr s.nextId
    exact ⟨quiet.exitRequested, quiet.requestRx, quiet.dequeued⟩

theorem sameChannel_doEmulationSession (s : EmulationTask) (emulation : InputEmulation)
    (r : ProxyRequest) (answer : Answer) :
    SameChannel s (s.doEmulationSession emulation r answer) := by
  cases r with
  | input event addr =>
    have same := sameChannel_handleOf s emulation addr
    exact ⟨same.exitRequested, same.requestRx, same.dequeued⟩
  | remove addr =>
    dsimp only [doEmulationSession]
    split <;> exact ⟨rfl, rfl, rfl⟩
  | terminate | reenable => exact ⟨rfl, rfl, rfl⟩

/-! ### Removals -/

def noteRemoval (addr : SocketAddr) (gone : Bool) : ProxyRequest → Bool
  | .input _ a => if a = addr then false else gone
  | .remove a => if a = addr then true else gone
  | .terminate | .reenable => gone

/-- Of the requests about a peer, its removal was taken last. -/
def removed (log : List ProxyRequest) (addr : SocketAddr) : Bool :=
  log.foldl (noteRemoval addr) false

theorem removed_snoc (log : List ProxyRequest) (r : ProxyRequest) (addr : SocketAddr) :
    removed (log ++ [r]) addr = noteRemoval addr (removed log addr) r := List.foldl_append

/-- A peer that was removed has no handle, neither in the table nor in the backend. -/
def Gone (s : EmulationTask) : Prop :=
  ∀ addr, removed s.dequeued addr = true → s.handles.lookup addr = none ∧
    ∀ emulation ∈ s.phase.emulation?, ∀ handle ∈ emulation.handles, s.owner handle ≠ some addr

def Cleared (s : EmulationTask) : Prop :=
  ∀ addr, removed s.dequeued addr = true → s.handles.lookup addr = none

theorem Cleared.gone (cleared : s.Cleared) (o : s.Orderly) : s.Gone := by
  intro addr last
  refine ⟨cleared addr last, fun emulation is handle live owned => ?_⟩
  have entry := o.owns emulation is handle live addr owned
  rw [cleared addr last] at entry
  cases entry

/-- A removal that is taken outside of a session is of a peer without a handle. -/
def HeedsRemoval (s : EmulationTask) : TaskEvent → Prop
  | .dequeue _ =>
    match s.phase with
    | .creating | .recreating _ _ | .disabled =>
      ∀ addr, s.requestRx.head? = some (.remove addr) → s.handles.lookup addr = none
    | .session _ | .closing _ | .ended => True
  | .send _ | .created _ | .failed | .recreate | .closed => True

theorem Cleared.of_quiet (cleared : s.Cleared) (quiet : Quiet s s') : s'.Cleared := by
  intro addr last
  rw [quiet.handles]
  exact cleared addr (quiet.dequeued ▸ last)

/-- A session clears the table of a peer that is removed, and adds no other peer than the one that
sends. -/
theorem lookup_doEmulationSession {emulation : InputEmulation} {r : ProxyRequest} {answer : Answer}
    {addr : SocketAddr} {gone : Bool} (before : gone = true → s.handles.lookup addr = none)
    (now : noteRemoval addr gone r = true) :
    (s.doEmulationSession emulation r answer).handles.lookup addr = none := by
  cases r with
  | input event a =>
    simp only [noteRemoval] at now
    split_ifs at now with same
    dsimp only [doEmulationSession, handleOf]
    split
    · exact before now
    · refine (AList.lookup_insert_ne (Ne.symm same)).trans ?_
      rw [(quiet_createFor { s with nextId := s.nextId + 1 } ..).handles]
      exact before now
  | remove a =>
    dsimp only [doEmulationSession]
    by_cases same : a = addr
    · subst same
      split
      · exact AList.lookup_erase _ _
      · next absent => exact absent
    · simp only [noteRemoval, if_neg same] at now
      split
      · exact (AList.lookup_erase_ne (Ne.symm same)).trans (before now)
      · exact before now
  | terminate | reenable => exact before now

/-- Outside of a session the table stays as it is when a request is taken. -/
theorem cleared_take_iff (cleared : s.Cleared) {r : ProxyRequest} (rest : List ProxyRequest)
    (quiet : Quiet (s.take r rest) s') :
    s'.Cleared ↔ ∀ addr, r = .remove addr → s.handles.lookup addr = none := by
  have log : s'.dequeued = s.dequeued ++ [r] := quiet.dequeued
  have table : s'.handles = s.handles := quiet.handles
  unfold Cleared
  rw [log, table]
  constructor
  · rintro after addr rfl
    refine after addr ?_
    rw [removed_snoc]
    exact if_pos rfl
  · intro absent addr last
    rw [removed_snoc] at last
    cases r with
    | input event a =>
      simp only [noteRemoval] at last
      split_ifs at last
      exact cleared addr last
    | remove a =>
      simp only [noteRemoval] at last
      split_ifs at last with same
      · exact absent addr (by rw [same])
      · exact cleared addr last
    | terminate | reenable => exact cleared addr last

theorem cleared_step_iff (cleared : s.Cleared) (e : TaskEvent) :
    (s.step e).Cleared ↔ s.HeedsRemoval e := by
  cases e with
  | send => exact iff_of_true cleared trivial
  | created | failed | recreate | closed =>
    exact iff_of_true (cleared.of_quiet (step_quiet rfl)) trivial
  | dequeue answer =>
    dsimp only [step, dequeue, HeedsRemoval]
    cases queue : s.requestRx with
    | nil =>
      refine iff_of_true cleared ?_
      split <;> simp
    | cons r rest =>
      simp only [List.head?_cons, Option.some_inj]
      cases phase : s.phase with
      | creating =>
        refine cleared_take_iff cleared rest ?_
        split_ifs
        · exact quiet_leave _
        · exact ⟨⟨rfl, rfl, rfl⟩, rfl⟩
      | recreating emulation clients =>
        refine cleared_take_iff cleared rest ?_
        dsimp only
        split_ifs
        · exact quiet_abandon ..
        · exact ⟨⟨rfl, rfl, rfl⟩, rfl⟩
      | session emulation =>
        refine iff_of_true (fun addr last => ?_) trivial
        rw [(sameChannel_doEmulationSession ..).dequeued, take, removed_snoc] at last
        exact lookup_doEmulationSession (cleared addr) last
      | disabled =>
        refine cleared_take_iff cleared rest ?_
        cases r <;> exact ⟨⟨rfl, rfl, rfl⟩, rfl⟩
      | closing | ended => exact iff_of_true cleared trivial

/-- A removed peer stays without a handle exactly when no removal of a peer that has one is taken
outside of a session. -/
theorem removed_stay_gone_iff (events : List TaskEvent) :
    Always step Gone {} events ↔ AllMeet step HeedsRemoval {} events := by
  refine always_iff_allMeet (fun s => s.Orderly ∧ s.Cleared) ?_ ?_ ?_ ?_ events
  · rintro s e ⟨o, cleared⟩ heeds
    exact ⟨o.step e, (cleared_step_iff cleared e).mpr heeds⟩
  · rintro s ⟨o, cleared⟩
    exact cleared.gone o
  · rintro s e ⟨-, cleared⟩ gone
    exact (cleared_step_iff cleared e).mp fun addr last => (gone addr last).1
  · exact ⟨orderly_of_idle rfl, fun addr last => by cases last⟩

/-- Emulation fails at the first event of a peer, the peer is removed, and emulation is enabled
again. -/
def failedOnce (answer : Answer) (peer : SocketAddr) : List TaskEvent :=
  [.created [], .send (.input (.keyboard (.key 0 30 1)) peer), .dequeue { answer with ok := false },
    .closed, .send (.remove peer), .dequeue answer, .send .reenable, .dequeue answer,
    .created [peer]]

/-- A removal is ignored while emulation is disabled, and once it is enabled again the removed peer
has its handle back. -/
theorem removed_peer_comes_back :
    let peer : SocketAddr := ⟨.v4 #v[10, 0, 0, 2], 4242⟩
    let s := run step {} (failedOnce { how := ⟨.any UInt32, []⟩ } peer ++ [.recreate])
    removed s.dequeued peer = true ∧ s.handles.lookup peer = some 0 ∧
      ∃ emulation ∈ s.phase.emulation?, 0 ∈ emulation.handles ∧ s.owner 0 = some peer := by
  refine ⟨by decide, by decide, ?_⟩
  refine ⟨_, rfl, ?_, ?_⟩
  · decide
  · decide

/-! ### Termination -/

/-- Nothing is left but to close the backend and to return. -/
def windsDown (s : EmulationTask) : Prop :=
  match s.phase with
  | .closing _ => s.exitRequested = true
  | .ended => True
  | .creating | .recreating _ _ | .session _ | .disabled => False

/-- Once a request to terminate was taken, no other one is, and the task winds down. -/
structure Obeys (s : EmulationTask) : Prop where
  last : .terminate ∉ s.dequeued.dropLast
  stops : .terminate ∈ s.dequeued → s.windsDown

/-- A request to terminate is not taken while handles are created again. -/
def HeedsTermination (s : EmulationTask) : TaskEvent → Prop
  | .dequeue _ =>
    match s.phase with
    | .recreating _ _ => s.requestRx.head? ≠ some .terminate
    | .creating | .session _ | .closing _ | .disabled | .ended => True
  | .send _ | .created _ | .failed | .recreate | .closed => True

theorem obeys_of_not_mem (absent : .terminate ∉ s.dequeued) : s.Obeys :=
  ⟨fun mem => absent (List.mem_of_mem_dropLast mem), fun mem => absurd mem absent⟩

/-- The flag is set before the request is sent. -/
def Warned (s : EmulationTask) : Prop :=
  .terminate ∈ s.dequeued ++ s.requestRx → s.exitRequested = true

theorem Warned.of_same (warned : s.Warned) (same : SameChannel s s') : s'.Warned := by
  unfold Warned
  rw [same.dequeued, same.requestRx, same.exitRequested]
  exact warned

theorem Warned.take (warned : s.Warned) {r : ProxyRequest} {rest : List ProxyRequest}
    (queue : s.requestRx = r :: rest) : (s.take r rest).Warned := by
  intro mem
  refine warned ?_
  rw [queue]
  simpa [EmulationTask.take] using mem

theorem Warned.step (warned : s.Warned) (e : TaskEvent) : (s.step e).Warned := by
  cases e with
  | send r =>
    intro mem
    dsimp only [EmulationTask.step, send] at mem ⊢
    rw [← List.append_assoc, List.mem_append, List.mem_singleton] at mem
    rw [Bool.or_eq_true, decide_eq_true_iff]
    exact mem.imp warned Eq.symm
  | created | failed | recreate | closed =>
    exact warned.of_same (step_quiet rfl).toSameChannel
  | dequeue answer =>
    dsimp only [EmulationTask.step, dequeue]
    split
    · exact warned
    · next r rest queue =>
      have taken := warned.take queue
      split
      · split_ifs
        · exact taken.of_same (quiet_leave _).toSameChannel
        · exact taken
      · split_ifs
        · exact taken.of_same (quiet_abandon ..).toSameChannel
        · exact taken
      · exact taken.of_same (sameChannel_doEmulationSession ..)
      · cases r <;> exact taken
      · exact warned
      · exact warned

theorem windsDown_iff : s.windsDown ↔
    (∃ emulation, s.phase = .closing emulation) ∧ s.exitRequested = true ∨ s.phase = .ended := by
  unfold windsDown
  split <;> simp_all

theorem dequeue_of_windsDown (stops : s.windsDown) (answer : Answer) : s.dequeue answer = s := by
  unfold dequeue
  cases s.requestRx with
  | nil => rfl
  | cons r rest =>
    rcases windsDown_iff.mp stops with ⟨⟨emulation, phase⟩, -⟩ | phase <;> simp only [phase]

/-- A task that winds down goes on to do so, and takes no more requests. -/
theorem windsDown_step (stops : s.windsDown) (e : TaskEvent) :
    (s.step e).windsDown ∧ (s.step e).dequeued = s.dequeued := by
  cases e with
  | send r =>
    refine ⟨?_, rfl⟩
    rw [windsDown_iff] at stops ⊢
    exact stops.imp_left fun ⟨phase, exit⟩ => ⟨phase, by simp [step, send, exit]⟩
  | dequeue answer =>
    rw [step, dequeue_of_windsDown stops]
    exact ⟨stops, rfl⟩
  | created | failed | recreate =>
    refine ⟨?_, (step_quiet rfl).dequeued⟩
    rcases windsDown_iff.mp stops with ⟨⟨emulation, phase⟩, -⟩ | phase <;>
      simpa only [step, created, failed, recreate, phase] using stops
  | closed =>
    refine ⟨?_, (step_quiet rfl).dequeued⟩
    rcases windsDown_iff.mp stops with ⟨⟨emulation, phase⟩, exit⟩ | phase
    · rw [windsDown_iff]
      exact .inr (by simp only [step, closed, phase, leave, exit, if_true])
    · simpa only [step, closed, phase] using stops

/-- A request is taken by a task that was not told to terminate before. -/
theorem obeys_take_iff {r : ProxyRequest} {rest : List ProxyRequest}
    (absent : .terminate ∉ s.dequeued) (same : SameChannel (s.take r rest) s') :
    s'.Obeys ↔ (r = .terminate → s'.windsDown) := by
  have log : s'.dequeued = s.dequeued ++ [r] := same.dequeued
  constructor
  · rintro obeys rfl
    exact obeys.stops (by simp [log])
  · intro stops
    refine ⟨by simpa [log] using absent, fun mem => ?_⟩
    rw [log, List.mem_append, List.mem_singleton] at mem
    exact stops (mem.resolve_left absent).symm

theorem obeys_of_quiet (absent : .terminate ∉ s.dequeued) (quiet : Quiet s s') : s'.Obeys := by
  refine obeys_of_not_mem ?_
  rw [quiet.dequeued]
  exact absent

theorem obeys_dequeue_iff (absent : .terminate ∉ s.dequeued) (warned : s.Warned) (answer : Answer) :
    (s.dequeue answer).Obeys ↔ s.HeedsTermination (.dequeue answer) := by
  dsimp only [dequeue, HeedsTermination]
  cases queue : s.requestRx with
  | nil =>
    refine iff_of_true (obeys_of_not_mem absent) ?_
    split <;> simp
  | cons r rest =>
    have exit : r = .terminate → s.exitRequested = true := by
      rintro rfl
      exact warned (by simp [queue])
    have passed (other : r ≠ .terminate) : (s.take r rest).Obeys :=
      (obeys_take_iff absent ⟨rfl, rfl, rfl⟩).mpr fun is => absurd is other
    cases phase : s.phase with
    | creating =>
      refine iff_of_true ?_ trivial
      dsimp only
      split_ifs with is
      · refine (obeys_take_iff absent (quiet_leave _).toSameChannel).mpr fun _ => ?_
        simp [leave, take, windsDown, exit is]
      · exact passed is
    | recreating emulation clients =>
      dsimp only
      rw [List.head?_cons, ne_eq, Option.some_inj]
      split_ifs with is
      · refine (obeys_take_iff absent (quiet_abandon ..).toSameChannel).trans ?_
        refine iff_of_false (fun stops => ?_) (fun other => other is)
        -- the session goes on
        have stops := stops is
        unfold abandon at stops
        split at stops <;> exact stops
      · exact iff_of_true (passed is) is
    | session emulation =>
      refine iff_of_true ?_ trivial
      refine (obeys_take_iff absent (sameChannel_doEmulationSession ..)).mpr ?_
      rintro rfl
      exact exit rfl
    | disabled =>
      have same : SameChannel (s.take r rest) ((s.take r rest).waitForReenable r) := by
        cases r <;> exact ⟨rfl, rfl, rfl⟩
      refine iff_of_true ((obeys_take_iff absent same).mpr ?_) trivial
      rintro rfl
      trivial
    | closing | ended => exact iff_of_true (obeys_of_not_mem absent) trivial

theorem obeys_step_iff (obeys : s.Obeys) (warned : s.Warned) (e : TaskEvent) :
    (s.step e).Obeys ↔ s.HeedsTermination e := by
  by_cases told : .terminate ∈ s.dequeued
  · have stops := obeys.stops told
    have next := windsDown_step stops e
    refine iff_of_true ⟨by rw [next.2]; exact obeys.last, fun _ => next.1⟩ ?_
    unfold HeedsTermination
    split
    · rcases windsDown_iff.mp stops with ⟨⟨emulation, phase⟩, -⟩ | phase <;> simp only [phase]
    all_goals trivial
  · cases e with
    | send r => exact iff_of_true (obeys_of_not_mem told) trivial
    | created | failed | recreate | closed =>
      exact iff_of_true (obeys_of_quiet told (step_quiet rfl)) trivial
    | dequeue answer => exact obeys_dequeue_iff told warned answer

/-- A request to terminate is the last one taken and ends the task, exactly when none is taken while
handles are created again. -/
theorem terminate_obeyed_iff (events : List TaskEvent) :
    Always step Obeys {} events ↔ AllMeet step HeedsTermination {} events := by
  refine always_iff_allMeet (fun s => s.Obeys ∧ s.Warned) ?_ ?_ ?_ ?_ events
  · rintro s e ⟨obeys, warned⟩ heeds
    exact ⟨(obeys_step_iff obeys warned e).mpr heeds, warned.step e⟩
  · exact fun s inv => inv.1
  · rintro s e ⟨obeys, warned⟩ after
    exact (obeys_step_iff obeys warned e).mp after
  · exact ⟨obeys_of_not_mem nofun, nofun⟩

/-- A request to terminate that is taken while the handles are created again ends their creation
only. The session waits for requests and takes the next one. -/
theorem terminate_swallowed :
    let peer : SocketAddr := ⟨.v4 #v[10, 0, 0, 2], 4242⟩
    let answer : Answer := { how := ⟨.any UInt32, []⟩ }
    let s := run step {} (failedOnce answer peer ++
      [.send .terminate, .dequeue answer, .send .reenable, .dequeue answer])
    s.dequeued = [.input (.keyboard (.key 0 30 1)) peer, .remove peer, .reenable, .terminate,
      .reenable] ∧ ¬ s.windsDown := by
  refine ⟨by decide, ?_⟩
  rintro ⟨⟩

end EmulationTask

end LanMouse.Emulation
