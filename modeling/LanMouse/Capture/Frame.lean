import LanMouse.Capture.Task

/-!
# Which captures are registered

Only requests to create or destroy a capture change which captures are registered, in the task and
in the session's input capture. Both know the same handles in every session.
-/
namespace LanMouse.Capture

open Proto

/-- A request that switches the barrier of a handle on or off. -/
def CaptureRequest.switch? : CaptureRequest → Option (CaptureHandle × Bool)
  | .create h _ _ => some (h, true)
  | .destroy h => some (h, false)
  | _ => none

def Event.switch? : Event → Option (CaptureHandle × Bool)
  | .request r => r.switch?
  | _ => none

def CaptureTask.Registered (t : CaptureTask) (h : CaptureHandle) : Prop := h ∈ t.captures.map (·.1)

/-- `s'` has the captures of `s`. -/
structure Keeps (s s' : Session) : Prop where
  captures : s'.captures = s.captures
  handles : s.capture.SameHandles s'.capture

def Turn.Keeps (s : Session) : Turn → Prop
  | .next s' => Capture.Keeps s s'
  | .stop s' => Capture.Keeps s s'
  | .panic p => p = .noSuchCapture

theorem Keeps.trans {s s' s'' : Session} (h : Keeps s s') (k : Keeps s' s'') : Keeps s s'' :=
  ⟨k.captures.trans h.captures, h.handles.trans k.handles⟩

theorem Turn.keeps_ofResult {s s' : Session} (keeps : Capture.Keeps s s') (result : Bool) :
    (Turn.ofResult (s', result)).Keeps s := by
  cases result <;> exact keeps

theorem Turn.Keeps.after {s s' : Session} {turn : Turn} (keeps : turn.Keeps s')
    (before : Capture.Keeps s s') : turn.Keeps s := by
  cases turn with
  | next => exact before.trans keeps
  | stop => exact before.trans keeps
  | panic => exact keeps

namespace Session

variable (s : Session) (a : Answers)

theorem releaseCapture_keeps : Keeps s (s.releaseCapture a).1 := by
  have leave : Keeps s s.leaveActive := by
    unfold leaveActive
    split
    · exact ⟨rfl, .rfl⟩
    · exact ⟨rfl, rfl, rfl⟩
  unfold releaseCapture
  split_ifs
  · exact ⟨rfl, .rfl⟩
  · split
    · exact ⟨rfl, rfl, rfl⟩
    · exact leave.trans ⟨rfl, rfl, rfl⟩

theorem handleBegin_keeps (handle : CaptureHandle) (key : BarrierKey) :
    (s.handleBegin handle key a).Keeps s := by
  have enter : Keeps s (s.enterClient handle) := by
    unfold enterClient
    split_ifs <;> exact ⟨rfl, .rfl⟩
  unfold handleBegin
  dsimp only
  split_ifs
  · exact enter.trans ⟨rfl, .rfl⟩
  · exact enter.trans ⟨rfl, .rfl⟩
  · apply Turn.keeps_ofResult
    exact enter.trans ⟨rfl, rfl, rfl⟩

theorem handleCaptureEvent_keeps (handle : CaptureHandle) (event : CaptureEvent) :
    (s.handleCaptureEvent handle event a).Keeps s := by
  unfold handleCaptureEvent
  split_ifs
  · exact Turn.keeps_ofResult (s.releaseCapture_keeps a) _
  · split
    · rfl
    · unfold handleEnterOnly
      dsimp only
      split_ifs
      · exact ⟨rfl, .rfl⟩
      · apply Turn.keeps_ofResult
        exact ⟨rfl, rfl, rfl⟩
      · exact ⟨rfl, .rfl⟩
      · apply Turn.keeps_ofResult
        exact ⟨rfl, rfl, rfl⟩
    · split
      · unfold handleBeginPending
        dsimp only
        split_ifs <;> exact ⟨rfl, .rfl⟩
      · unfold handleCancelPending
        dsimp only
        split
        · split_ifs <;> exact ⟨rfl, .rfl⟩
        · exact ⟨rfl, .rfl⟩
      · exact (handleBegin_keeps _ a handle _).after ⟨rfl, .rfl⟩
      · unfold handleInput
        split
        · dsimp only
          split_ifs
          · exact ⟨rfl, .rfl⟩
          · apply Turn.keeps_ofResult
            exact ⟨rfl, rfl, rfl⟩
        · exact ⟨rfl, .rfl⟩

theorem handleCapture_keeps (polled : Polled (BarrierKey × CaptureEvent)) :
    (s.handleCapture polled a).Keeps s := by
  have handles := s.capture.sameHandles_pollNext polled
  unfold handleCapture
  dsimp only
  split
  · exact ⟨rfl, handles⟩
  · exact ⟨rfl, handles⟩
  · exact ⟨rfl, handles⟩
  · exact (handleCaptureEvent_keeps _ a _ _).after ⟨rfl, handles⟩

theorem handleRecv_keeps (handle : CaptureHandle) (event : ProtoEvent) :
    (s.handleRecv handle event a).Keeps s := by
  unfold handleRecv
  split_ifs
  · exact ⟨rfl, .rfl⟩
  · dsimp only
    split
    · unfold handleAck
      split
      · dsimp only
        split_ifs <;> exact ⟨rfl, .rfl⟩
      · split_ifs <;> exact ⟨rfl, .rfl⟩
    · exact (Turn.keeps_ofResult (releaseCapture_keeps _ a) _).after ⟨rfl, .rfl⟩
    · exact ⟨rfl, .rfl⟩

theorem runWatchdogHeavy_keeps : Keeps s (s.runWatchdogHeavy a) := by
  have stall : ∀ s : Session, Keeps s (s.runStallChecks a) := by
    intro s
    unfold runStallChecks
    split_ifs
    · refine .trans ?_ (releaseCapture_keeps _ a)
      exact ⟨rfl, .rfl⟩
    · exact s.releaseCapture_keeps a
    · exact ⟨rfl, .rfl⟩
  unfold runWatchdogHeavy
  dsimp only
  split_ifs
  · refine .trans ?_ (releaseCapture_keeps _ a)
    exact ⟨rfl, .rfl⟩
  · refine .trans ?_ (stall _)
    exact ⟨rfl, .rfl⟩
  · exact stall s

theorem handlePeerLost_keeps (handle : Option CaptureHandle) :
    (s.handlePeerLost handle a).Keeps s := by
  have released := Turn.keeps_ofResult (s.releaseCapture_keeps a) (s.releaseCapture a).2
  unfold handlePeerLost
  split
  · split_ifs
    · exact released
    · exact ⟨rfl, .rfl⟩
  · split_ifs
    · exact released
    · exact ⟨rfl, .rfl⟩

theorem turn_keeps {i : Input} (plain : i.event.switch? = none) : (s.turn i).Keeps s := by
  obtain ⟨event, a⟩ := i
  cases event with
  | capture polled => exact s.handleCapture_keeps a polled
  | recv handle event => exact s.handleRecv_keeps a handle event
  | request r =>
    cases r with
    | release => exact Turn.keeps_ofResult (s.releaseCapture_keeps a) _
    | create => cases plain
    | destroy => cases plain
    | _ => exact ⟨rfl, .rfl⟩
  | pendingTick =>
    unfold turn handlePendingTick
    dsimp only
    split
    · split_ifs <;> exact ⟨rfl, .rfl⟩
    · exact ⟨rfl, .rfl⟩
  | watchdogLight =>
    unfold turn runWatchdogLight
    dsimp only
    split_ifs
    · exact ⟨rfl, rfl, rfl⟩
    · exact ⟨rfl, .rfl⟩
    · exact ⟨rfl, .rfl⟩
  | watchdogHeavy =>
    unfold turn
    dsimp only
    split_ifs
    · exact s.runWatchdogHeavy_keeps a
    · exact ⟨rfl, .rfl⟩
  | peerLost handle => exact s.handlePeerLost_keeps a handle
  | monitorTick current =>
    unfold turn handleMonitorTick
    dsimp only
    split_ifs <;> exact ⟨rfl, .rfl⟩

end Session

/-! ### Registering and removing a capture -/

namespace CaptureTask

variable {t : CaptureTask} {h j : CaptureHandle}

theorem registered_addCapture {key : BarrierKey} {type : CaptureType} :
    (t.addCapture h key type).Registered j ↔ j = h ∨ t.Registered j := by
  simp [Registered, addCapture, or_comm]

theorem registered_removeCapture :
    (t.removeCapture h).Registered j ↔ j ≠ h ∧ t.Registered j := by
  simp only [Registered, removeCapture, List.mem_map, List.mem_filter]
  grind

theorem registered_of_getCapture {c : BarrierKey × CaptureType}
    (found : t.getCapture h = some c) : t.Registered h := by
  unfold getCapture at found
  obtain ⟨entry, found, -⟩ := Option.map_eq_some_iff.mp found
  have same := List.find?_some found
  exact List.mem_map.mpr ⟨entry, List.mem_of_find?_eq_some found, by simpa using same⟩

end CaptureTask

open CaptureTask

/-- The input capture of a session knows exactly the registered captures. -/
structure Session.Tied (s : Session) : Prop where
  linked : s.capture.Linked
  handles : ∀ h, h ∈ s.capture.idMap ↔ s.Registered h

def Running.Tied : Running → Prop
  | .session s => s.Tied
  | _ => True

theorem Keeps.tied {s s' : Session} (keeps : Keeps s s') (tied : s.Tied) : s'.Tied where
  linked := tied.linked.congr keeps.handles
  handles h := by rw [keeps.handles.1, tied.handles, Registered, Registered, keeps.captures]

namespace Session

variable {s : Session} {h : CaptureHandle}

theorem create_taken (tied : s.Tied) (taken : s.Registered h) (key : BarrierKey)
    (type : CaptureType) (a : Answers) :
    s.handleRequest (.create h key type) a = .panic .idTaken := by
  dsimp only [handleRequest]
  rw [InputCapture.create, if_pos ((tied.handles h).mpr taken)]
  rfl

theorem create_fresh (tied : s.Tied) (fresh : ¬s.Registered h) (key : BarrierKey)
    (type : CaptureType) (a : Answers) :
    ∃ d ok, s.capture.create h key (a.created key) = .ok (d, ok) ∧
      ({ s.mapTask (·.addCapture h key type) with capture := d } : Session).Tied := by
  obtain ⟨d, ok, created, idMap, linked⟩ := InputCapture.create_ok
    (fun mem => fresh ((tied.handles h).mp mem)) tied.linked key (a.created key)
  refine ⟨d, ok, created, linked, fun j => ?_⟩
  rw [idMap, AList.mem_insert, tied.handles]
  exact registered_addCapture.symm

theorem destroy_absent (tied : s.Tied) (absent : ¬s.Registered h) (a : Answers) :
    s.handleRequest (.destroy h) a = .panic .noBarrierKey := by
  have gone : s.capture.idMap.lookup h = none :=
    AList.lookup_eq_none.mpr fun mem => absent ((tied.handles h).mp mem)
  dsimp only [handleRequest]
  rw [InputCapture.destroy, gone]
  rfl

theorem destroy_live (tied : s.Tied) (live : s.Registered h) (a : Answers) :
    ∃ d ok, s.capture.destroy h a.destroyed = .ok (d, ok) ∧
      ({ s.mapTask (·.removeCapture h) with capture := d } : Session).Tied := by
  obtain ⟨d, ok, destroyed, idMap, linked⟩ :=
    InputCapture.destroy_ok ((tied.handles h).mpr live) tied.linked a.destroyed
  refine ⟨d, ok, destroyed, linked, fun j => ?_⟩
  rw [idMap, AList.mem_erase, tied.handles]
  exact registered_removeCapture.symm

end Session

theorem createCaptures_handles {created : BarrierKey → Bool}
    {entries : List (CaptureHandle × BarrierKey × CaptureType)} {c d : InputCapture}
    (linked : c.Linked) (done : createCaptures created c entries = .ok (d, true)) :
    d.Linked ∧ ∀ h, h ∈ d.idMap ↔ h ∈ c.idMap ∨ h ∈ entries.map (·.1) := by
  induction entries generalizing c with
  | nil =>
    obtain rfl : c = d := by simpa [createCaptures] using done
    simpa using linked
  | cons entry rest ih =>
    obtain ⟨handle, key, type⟩ := entry
    unfold createCaptures at done
    by_cases taken : handle ∈ c.idMap
    · simp [InputCapture.create, taken] at done
    · obtain ⟨c', ok, h, idMap, linked'⟩ := InputCapture.create_ok taken linked key (created key)
      rw [h] at done
      cases ok with
      | false => simp at done
      | true =>
        obtain ⟨linked'', handles⟩ := ih linked' done
        refine ⟨linked'', fun j => ?_⟩
        rw [handles, idMap, AList.mem_insert, List.map_cons, List.mem_cons]
        tauto

/-- Starting a session changes neither the captures nor the hand-over. -/
inductive Started (t : CaptureTask) : Running → Prop where
  | session {s : Session} (tied : s.Tied) (state : s.state = t.state)
      (active : s.activeClient = t.activeClient) (captures : s.captures = t.captures) :
      Started t (.session s)
  | gap {u : CaptureTask} (state : u.state = t.state) (active : u.activeClient = t.activeClient)
      (captures : u.captures = t.captures) : Started t (.gap u)
  | panicked {p : Panic} (duplicate : ¬(t.captures.map (·.1)).Nodup) : Started t (.panicked p)

theorem createCaptures_ok (created : BarrierKey → Bool)
    {entries : List (CaptureHandle × BarrierKey × CaptureType)} {c : InputCapture}
    (linked : c.Linked) (nodup : (entries.map (·.1)).Nodup)
    (fresh : ∀ h ∈ entries.map (·.1), h ∉ c.idMap) :
    ∃ d ok, createCaptures created c entries = .ok (d, ok) := by
  induction entries generalizing c with
  | nil => exact ⟨c, true, rfl⟩
  | cons entry rest ih =>
    obtain ⟨handle, key, type⟩ := entry
    obtain ⟨first, nodup⟩ := List.nodup_cons.mp nodup
    obtain ⟨c', ok, h, idMap, linked'⟩ := InputCapture.create_ok
      (fresh handle List.mem_cons_self) linked key (created key)
    unfold createCaptures
    rw [h]
    cases ok with
    | false => exact ⟨c', false, rfl⟩
    | true =>
      refine ih linked' nodup fun j mem => ?_
      rw [idMap, AList.mem_insert, not_or]
      exact ⟨fun same => first (same ▸ mem), fresh j (List.mem_cons_of_mem _ mem)⟩

theorem doCapture_started (t : CaptureTask) (a : Answers) : Started t (t.doCapture a) := by
  have none_ : ∀ h, h ∉ InputCapture.new.idMap := AList.notMem_empty
  unfold CaptureTask.doCapture
  split
  · exact .gap rfl rfl rfl
  · dsimp only
    split
    · rename_i failed
      refine .panicked fun nodup => ?_
      obtain ⟨d, ok, done⟩ := createCaptures_ok a.created InputCapture.linked_new
        nodup fun h _ => none_ h
      cases failed.symm.trans done
    · rename_i done
      obtain ⟨linked, handles⟩ := createCaptures_handles InputCapture.linked_new done
      exact .session ⟨linked, fun h => (handles h).trans (or_iff_right (none_ h))⟩ rfl rfl rfl
    · exact .gap rfl rfl rfl

theorem Started.tied {t : CaptureTask} {r : Running} (started : Started t r) : r.Tied := by
  cases started with
  | session tied => exact tied
  | gap => trivial
  | panicked => trivial

theorem Session.tied_ofResult {s : Session} (tied : s.Tied) (result : Bool) :
    (Turn.ofResult (s, result)).running.Tied := by
  cases result
  · trivial
  · exact tied

theorem Turn.Keeps.tied {s : Session} {turn : Turn} (keeps : turn.Keeps s) (tied : s.Tied) :
    turn.running.Tied := by
  cases turn with
  | next s' => exact Capture.Keeps.tied keeps tied
  | stop => trivial
  | panic => trivial

theorem tied_step {r : Running} (tied : r.Tied) (i : Input) : (step r i).Tied := by
  obtain ⟨event, a⟩ := i
  cases r with
  | session s =>
    by_cases plain : event.switch? = none
    · exact (s.turn_keeps plain).tied tied
    · cases event with
      | request r =>
        cases r with
        | create h key type =>
          by_cases taken : s.Registered h
          · change (s.handleRequest (.create h key type) a).running.Tied
            rw [Session.create_taken tied taken]
            trivial
          · obtain ⟨d, ok, created, tied'⟩ := Session.create_fresh tied taken key type a
            dsimp only [step, Session.turn, Session.handleRequest]
            rw [created]
            exact Session.tied_ofResult tied' ok
        | destroy h =>
          by_cases live : s.Registered h
          · obtain ⟨d, ok, destroyed, tied'⟩ := Session.destroy_live tied live a
            dsimp only [step, Session.turn, Session.handleRequest]
            rw [destroyed]
            exact Session.tied_ofResult tied' ok
          · change (s.handleRequest (.destroy h) a).running.Tied
            rw [Session.destroy_absent tied live]
            trivial
        | _ => exact absurd rfl plain
      | _ => exact absurd rfl plain
  | gap t =>
    cases event with
    | request r =>
      cases r with
      | reenable => exact (doCapture_started t a).tied
      | _ => trivial
    | _ => trivial
  | panicked p => trivial

end LanMouse.Capture
