import LanMouse.Service.Alternation

/-!
# The requests in the capture task

The capture task takes the service's requests one after another, with anything else in between and
in any number of sessions. As long as the requests it has taken alternate, the captures it has
registered are those that are switched on, and neither the assertion in `InputCapture::create` nor
the `expect` in `InputCapture::destroy` fails.
-/
namespace LanMouse

open Proto Capture Client CaptureTask

namespace Service

/-- The captures that are switched on are registered, each once. -/
structure Matches (t : CaptureTask) (log : List (CaptureHandle × Bool)) : Prop where
  nodup : (t.captures.map (·.1)).Nodup
  registered : ∀ h, t.Registered h ↔ Toggle.isOn log h

def Follows (log : List (CaptureHandle × Bool)) : Running → Prop
  | .session s => s.Tied ∧ Matches s.toCaptureTask log
  | .gap t => Matches t log
  | .panicked p => p = .noSuchCapture

variable {t u : CaptureTask} {log : List (CaptureHandle × Bool)} {h : CaptureHandle}

theorem Matches.congr (m : Matches t log) (captures : u.captures = t.captures) :
    Matches u log where
  nodup := captures ▸ m.nodup
  registered h := by rw [Registered, captures]; exact m.registered h

theorem Matches.addCapture (m : Matches t log) (off : Toggle.isOn log h = false)
    (key : BarrierKey) (type : CaptureType) :
    Matches (t.addCapture h key type) (log ++ [(h, true)]) where
  nodup := by
    have fresh : h ∉ t.captures.map (·.1) := fun mem => by
      simpa [off] using (m.registered h).mp mem
    rw [CaptureTask.addCapture, List.map_append, List.map_singleton, ← List.concat_eq_append,
      List.nodup_concat]
    exact ⟨fresh, m.nodup⟩
  registered j := by
    rw [registered_addCapture, Toggle.isOn_concat, m.registered]
    by_cases same : h = j
    · simp [same]
    · simp [same, Ne.symm same]

theorem Matches.removeCapture (m : Matches t log) (h : CaptureHandle) :
    Matches (t.removeCapture h) (log ++ [(h, false)]) where
  nodup := m.nodup.sublist (List.filter_sublist.map _)
  registered j := by
    rw [registered_removeCapture, Toggle.isOn_concat, m.registered]
    by_cases same : h = j
    · simp [same]
    · simp [same, Ne.symm same]

theorem follows_started {r : Running} (started : Started t r) (m : Matches t log) :
    Follows log r := by
  cases started with
  | session tied state active captures => exact ⟨tied, m.congr captures⟩
  | gap state active captures => exact m.congr captures
  | panicked duplicate => exact absurd m.nodup duplicate

theorem follows_ofResult {s : Session} (tied : s.Tied) (m : Matches s.toCaptureTask log)
    (result : Bool) : Follows log (Turn.ofResult (s, result)).running := by
  cases result
  · exact m.congr rfl
  · exact ⟨tied, m⟩

theorem follows_turn {s : Session} (tied : s.Tied) (m : Matches s.toCaptureTask log) {i : Input}
    (plain : i.event.switch? = none) : Follows log (s.turn i).running := by
  have keeps := s.turn_keeps plain
  cases turn : s.turn i with
  | next s' =>
    rw [turn] at keeps
    exact ⟨Keeps.tied keeps tied, m.congr keeps.captures⟩
  | stop s' =>
    rw [turn] at keeps
    exact m.congr keeps.captures
  | panic p =>
    rw [turn] at keeps
    exact keeps

theorem follows_wait (m : Matches t log) {i : Input} (plain : i.event.switch? = none) :
    Follows log (t.wait i) := by
  obtain ⟨event, a⟩ := i
  cases event with
  | request r =>
    cases r with
    | reenable => exact follows_started (doCapture_started t a) m
    | create => cases plain
    | destroy => cases plain
    | _ => exact m.congr rfl
  | _ => exact m

theorem follows_create {r : Running} (follows : Follows log r) (off : Toggle.isOn log h = false)
    (key : BarrierKey) (type : CaptureType) (a : Answers) :
    Follows (log ++ [(h, true)]) (Capture.step r ⟨.request (.create h key type), a⟩) := by
  cases r with
  | panicked p => exact follows
  | gap t => exact Matches.addCapture follows off key type
  | session s =>
    obtain ⟨tied, m⟩ := follows
    have fresh : ¬s.Registered h := fun reg => by simpa [off] using (m.registered h).mp reg
    obtain ⟨d, ok, created, tied'⟩ := Session.create_fresh tied fresh key type a
    dsimp only [Capture.step, Session.turn, Session.handleRequest]
    rw [created]
    exact follows_ofResult tied' (m.addCapture off key type) ok

theorem follows_destroy {r : Running} (follows : Follows log r) (on : Toggle.isOn log h)
    (a : Answers) :
    Follows (log ++ [(h, false)]) (Capture.step r ⟨.request (.destroy h), a⟩) := by
  cases r with
  | panicked p => exact follows
  | gap t => exact Matches.removeCapture follows h
  | session s =>
    obtain ⟨tied, m⟩ := follows
    obtain ⟨d, ok, destroyed, tied'⟩ := Session.destroy_live tied ((m.registered h).mpr on) a
    dsimp only [Capture.step, Session.turn, Session.handleRequest]
    rw [destroyed]
    exact follows_ofResult tied' (m.removeCapture h) ok

theorem follows_step {r : Running} (follows : Follows log r) {i : Input}
    (alternates : Toggle.Alternating (log ++ i.event.switch?.toList)) :
    Follows (log ++ i.event.switch?.toList) (Capture.step r i) := by
  obtain ⟨event, a⟩ := i
  by_cases plain : event.switch? = none
  · rw [plain, Option.toList_none, List.append_nil]
    cases r with
    | panicked p => exact follows
    | session s => exact follows_turn follows.1 follows.2 plain
    | gap t => exact follows_wait follows plain
  · cases event with
    | request r =>
      cases r with
      | create h key type =>
        exact follows_create follows ((Toggle.alternating_concat _ _ _).mp alternates).2 key type a
      | destroy h =>
        exact follows_destroy follows ((Toggle.alternating_concat _ _ _).mp alternates).2 a
      | _ => exact absurd rfl plain
    | _ => exact absurd rfl plain

/-- A run of the capture task that takes alternating requests. -/
theorem follows_run {r : Running} (follows : Follows log r) {inputs : List Input}
    (alternates : Toggle.Alternating (log ++ inputs.filterMap (·.event.switch?))) :
    Follows (log ++ inputs.filterMap (·.event.switch?)) (Transition.run Capture.step r inputs) := by
  induction inputs generalizing log r with
  | nil => simpa [Transition.run] using follows
  | cons i rest ih =>
    have split : log ++ (i :: rest).filterMap (·.event.switch?) =
        log ++ i.event.switch?.toList ++ rest.filterMap (·.event.switch?) := by
      rw [List.filterMap_cons]
      cases i.event.switch? <;> simp
    rw [split] at alternates ⊢
    exact ih (follows_step follows alternates.of_append) alternates

/-- However the capture task comes to take the requests, it never fails the assertion in
`InputCapture::create` or the `expect` in `InputCapture::destroy`. -/
def NeverAsserts (requests : List CaptureRequest) : Prop :=
  ∀ releaseBind cfg a inputs,
    inputs.filterMap (fun i : Input => i.event.switch?) <+: requests.filterMap (·.switch?) →
    Transition.run Capture.step (Capture.start releaseBind cfg a) inputs ≠ .panicked .idTaken ∧
    Transition.run Capture.step (Capture.start releaseBind cfg a) inputs ≠ .panicked .noBarrierKey

theorem neverAsserts_of_alternating {requests : List CaptureRequest}
    (alternates : Toggle.Alternating (requests.filterMap (·.switch?))) :
    NeverAsserts requests := by
  rintro releaseBind cfg a inputs ⟨more, same⟩
  rw [← same] at alternates
  have start : Follows [] (Capture.start releaseBind cfg a) :=
    follows_started (doCapture_started _ a) ⟨List.nodup_nil, fun h => by simp [Registered,
      CaptureTask.new]⟩
  have follows := follows_run start (by simpa using alternates.of_append)
  constructor
  · intro panicked
    rw [panicked] at follows
    cases follows
  · intro panicked
    rw [panicked] at follows
    cases follows

/-- Over every run of the service, the create and destroy requests for each client alternate,
starting with a create, and the capture task can take them without failing an assertion, exactly
when every event finds the barriers as its handler supposes them. -/
theorem barrier_requests_sound_iff (clients : List ConfigClient) (events : List Event) :
    let requests := (Transition.run step (start clients) events).requests
    (Toggle.Alternating (requests.filterMap (·.switch?)) ∧ NeverAsserts requests) ↔
      Transition.AllMeet step Sound (start clients) events := by
  intro requests
  rw [← alternates_run_iff]
  exact ⟨fun both => both.1, fun alternates => ⟨alternates, neverAsserts_of_alternating alternates⟩⟩

/-- A client bound to a monitor is active from the start. When the monitor is missing in the first
snapshot and comes up in the second, its barrier is created twice. When the monitor goes away and
the client is deactivated after that, its barrier is destroyed twice. -/
theorem barrier_requests_repeat :
    let client : ConfigClient := { active := true, monitor := some "DP-1" }
    let monitor : MonitorInfo := ⟨"DP-1", "", (0, 0), (1920, 1080), true, 0⟩
    let deliver (s : Service) : Running :=
      Transition.run Capture.step (Capture.start [29, 42, 125, 56] {} { now := 0 })
        (s.requests.map fun r => ⟨.request r, { now := 0 }⟩)
    let plugged := Transition.run step (start [client])
      [.monitorsChanged [], .monitorsChanged [monitor]]
    let unplugged := Transition.run step (start [client])
      [.monitorsChanged [monitor], .monitorsChanged [], .activate 0 false]
    plugged.requests.filterMap (·.switch?) = [(0, true), (0, true)] ∧
    deliver plugged = .panicked .idTaken ∧
    unplugged.requests.filterMap (·.switch?) = [(0, true), (0, false), (0, false)] ∧
    deliver unplugged = .panicked .noBarrierKey :=
  ⟨by decide, rfl, by decide, rfl⟩

end Service

end LanMouse
