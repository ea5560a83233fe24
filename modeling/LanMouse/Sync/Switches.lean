import LanMouse.Sync.Handlers
import LanMouse.Files.Reports

/-!
# What the clipboard switches hold back

The configuration has a switch for the whole clipboard and one for each kind of content. Nothing on
the way of a content consults them: not the dispatch of a local change, not the handlers of inbound
events, not the tasks they spawn. Only a landed selection is not put on the local clipboard while
the whole clipboard is switched off.

`State.moves` is the kind of content that an event moves: announces to a peer, writes to the local
clipboard or to a file. Every event leaves the other kinds alone. If nothing of a kind is copied or
comes in while it is switched off, and no task of the kind is left when it is switched off, then no
task of the kind is alive while it is off (`State.Clear`), and no event moves it.
-/
namespace LanMouse.Sync

open Proto UnixPath Client Clipboard Files FileStore Transition

inductive Kind where
  | text
  | image
  | files
  deriving DecidableEq, Repr

def ClipboardConfig.off (cfg : ClipboardConfig) : Kind → Bool
  | .text => !cfg.enabled || cfg.ignoreText
  | .image => !cfg.enabled || cfg.ignoreImages
  | .files => !cfg.enabled || cfg.ignoreFiles

def eventKind : ProtoEvent → Option Kind
  | .clipboardText _ => some .text
  | .clipboardImage _ => some .image
  | .clipboardFiles _ | .fileTransferOffer _ | .fileTransferResponse _ | .fileTransferCancel _ =>
    some .files
  | _ => none

def BackendCmd.kind : BackendCmd → Kind
  | .setText _ => .text
  | .setImage .. | .setDibImage _ => .image
  | .setFiles _ => .files

def contentKind : Content → Kind
  | .text _ => .text
  | .image _ => .image
  | .files .. => .files

/-- From one state to the next nothing of a kind is broadcast or written. -/
structure Silent (k : Kind) (s s' : State) : Prop where
  sent : s'.sent.filter (eventKind ·.2 = some k) = s.sent.filter (eventKind ·.2 = some k)
  clipboard : s'.clipboard.filter (·.kind = k) = s.clipboard.filter (·.kind = k)
  files : k = .files → ∀ p bytes, s'.world.files.read p = some bytes →
    s.world.files.read p = some bytes

/-- The task is about to create, write or rename a file. -/
def Writes : Phase → Bool
  | .creating .. | .writing .. | .verified .. => true
  | _ => false

namespace State

variable (host : Host)

/-- The change is new, can be announced, and somebody is there to hear of it. -/
def announces (s : State) (now : Nat) (content : Content) : Bool :=
  let change : Change :=
    { content, now, maxSize := (s.config host).maxFileSize.toNat, peers := s.peers }
  !s.dispatcher.remembers host.sha256 change && (change.announcement? host.sha256).isSome &&
    s.peers.recipients ≠ []

/-- The next report is the last of its collector, and there is no reason to skip it. -/
def injects (s : State) (reply : CmdReply) : Bool :=
  match s.filesApplied with
  | [] => false
  | (_, result) :: _ =>
    match s.pendingFileCollectors.lookup result.batchFingerprint with
    | none => false
    | some c =>
      reply = .done && c.received.length + 1 = c.expected &&
        (decideReinjectSkip (s.config host).enabled (s.config host).injectToClipboard
          s.dispatcher.lastOutboundFilesFingerprint result.batchFingerprint
          (c.received ++ [result])).isNone

/-- The kind of content that an event moves. -/
def moves (s : State) (e : Event) : Option Kind :=
  match e.action with
  | .dispatch content _ =>
    if s.announces host e.now content then some (contentKind content) else none
  | .recoverPush text => if text.isSome && s.peers.recipients ≠ [] then some .text else none
  | .inbound addr (.clipboardText ct) a =>
    if s.appliesText e.now addr ct a then some .text else none
  | .imageTurn i a =>
    if s.imageTasks[i]?.any (fun t => t.phase matches .setting _) && a.set = .done then
      some .image
    else none
  | .fileTurn i _ => if s.world.tasks[i]?.any (Writes ·.phase) then some .files else none
  | .fileApplied reply => if s.injects host reply then some .files else none
  | _ => none

/-- No task of a kind that the configuration switches off is alive, and no report waits that could
still be put on the clipboard. -/
structure Clear (s : State) (cfg : ClipboardConfig) : Prop where
  images : cfg.off .image → ∀ t ∈ s.imageTasks, t.phase = .ended
  files : cfg.off .files → ∀ t ∈ s.world.tasks, ∃ landed, t.phase = .ended landed
  reports : cfg.off .files → cfg.enabled → s.filesApplied = []

/-- While a kind is switched off, nothing of it is copied with somebody there to hear of it, and no
announcement of it comes in; when it is switched off, no task of it is left. -/
def Heeds (s : State) (e : Event) : Prop :=
  match e.action with
  | .setConfig cfg => s.Clear (clipboardConfig host (some (setClipboardConfig cfg)))
  | .configChange toml => s.Clear (clipboardConfig host toml)
  | .dispatch content _ => (s.config host).off (contentKind content) → s.peers.recipients = []
  | .recoverPush text => (s.config host).off .text → text.isSome → s.peers.recipients = []
  | .inbound _ (.clipboardText _) _ => ¬ (s.config host).off .text
  | .inbound _ (.clipboardImage _) _ => ¬ (s.config host).off .image
  | .inbound _ (.clipboardFiles _) _ => ¬ (s.config host).off .files
  | _ => True

end State

/-! ### Every event leaves the other kinds alone -/

section Step

variable {host : Host} {s s' : State} {now : Nat} {k : Kind}

theorem Silent.of_same (sent : s'.sent = s.sent) (clipboard : s'.clipboard = s.clipboard)
    (files : s'.world.files = s.world.files) : Silent k s s' where
  sent := by rw [sent]
  clipboard := by rw [clipboard]
  files := fun _ p bytes there => by rwa [files] at there

/-- Silence is about what is sent, written and on disk. -/
theorem Silent.congr {s₀ : State} (silent : Silent k s s') (sent : s.sent = s₀.sent)
    (clipboard : s.clipboard = s₀.clipboard) (files : s.world.files = s₀.world.files) :
    Silent k s₀ s' where
  sent := by rw [← sent]; exact silent.sent
  clipboard := by rw [← clipboard]; exact silent.clipboard
  files := by rw [← files]; exact silent.files

theorem silent_push (filled : Snapshot) {out : Outcome}
    (unheard : ∀ e ∈ out.events, eventKind e = some k → s.peers.recipients = []) :
    Silent k s (s.push now filled out) := by
  have nothing : (out.events.flatMap (broadcastClipboardEvent s.peers)).filter
      (eventKind ·.2 = some k) = [] := by
    rw [List.filter_eq_nil_iff]
    intro x mem kind
    obtain ⟨e, dispatched, broadcast⟩ := List.mem_flatMap.mp mem
    obtain ⟨recipient, reached, rfl⟩ := List.mem_map.mp broadcast
    rw [unheard e dispatched (of_decide_eq_true kind)] at reached
    cases reached
  refine ⟨?_, rfl, fun _ _ _ there => there⟩
  simp only [State.push, List.filter_append, nothing, List.append_nil]

theorem eventKind_cancels {d : Dispatcher} {content : Content} {event : ProtoEvent}
    (mem : event ∈ d.cancels content) : eventKind event = some (contentKind content) := by
  cases content with
  | text | image => cases mem
  | files paths collected =>
    obtain ⟨sha, -, rfl⟩ := List.mem_map.mp mem
    rfl

/-- A dispatch only broadcasts a change that is new and can be announced. -/
theorem dispatch_events (sha256 : List UInt8 → Hash) (d : Dispatcher) (c : Change) {e : ProtoEvent}
    (mem : e ∈ (d.dispatch sha256 c.now c.maxSize c.content).events) :
    eventKind e = some (contentKind c.content) ∧ d.remembers sha256 c = false ∧
      (c.announcement? sha256).isSome := by
  rw [events_dispatch] at mem
  split at mem
  · cases mem
  · next new =>
    cases announced : c.announcement? sha256 with
    | none =>
      rw [announced] at mem
      cases mem
    | some event =>
      rw [announced] at mem
      refine ⟨?_, Bool.eq_false_iff.mpr new, rfl⟩
      obtain cancel | announcement := List.mem_append.mp mem
      · exact eventKind_cancels cancel
      · cases List.mem_singleton.mp announcement
        obtain ⟨_, _, content, rfl⟩ | ⟨_, _, content, rfl⟩ | ⟨_, _, _, content, rfl⟩ :=
          announcement?_cases sha256 announced <;>
        simp [content, eventKind, contentKind]

theorem silent_dispatch (content : Content) (filled : Snapshot)
    (unannounced : k = contentKind content → s.announces host now content = false) :
    Silent k s (s.step host ⟨now, .dispatch content filled⟩) := by
  refine silent_push filled fun e mem kind => ?_
  obtain ⟨own, new, announced⟩ := dispatch_events host.sha256 s.dispatcher
    ⟨content, now, (s.config host).maxFileSize.toNat, s.peers, fun _ => .error ""⟩ mem
  have unannounced := unannounced (Option.some.inj (kind.symm.trans own))
  simpa [State.announces, new, announced] using unannounced

theorem silent_recoverPush (text : Option String)
    (unheard : k = .text → (text.isSome && s.peers.recipients ≠ []) = false) :
    Silent k s (s.step host ⟨now, .recoverPush text⟩) := by
  refine silent_push _ fun e mem kind => ?_
  cases text with
  | none => cases mem
  | some text =>
    cases List.mem_singleton.mp mem
    have unheard := unheard (Option.some.inj kind.symm)
    simpa using unheard

theorem silent_inboundText (addr : SocketAddr) (ct : ClipboardText) (a : InboundAnswers)
    (unapplied : k = .text → s.appliesText now addr ct a = false) :
    Silent k s (s.handleClipboardInboundText now ct addr a) := by
  obtain ⟨dispatcher, requests, written, eq, applies⟩ := s.inboundText_eq now ct addr a
  rw [eq]
  refine ⟨rfl, ?_, fun _ _ _ there => there⟩
  cases written with
  | none => simp
  | some text =>
    have other : k ≠ .text := fun same => by
      have refused := unapplied same
      rw [applies rfl] at refused
      cases refused
    simp [BackendCmd.kind, other.symm]

theorem silent_imageTurn (i : Nat) (a : ImageAnswers)
    (waits : k = .image →
      (s.imageTasks[i]?.any (fun t => t.phase matches .setting _) && a.set = .done) = false) :
    Silent k s (s.imageTurn host i a) := by
  obtain ⟨imageTasks, imagesApplied, written, eq, only⟩ := s.imageTurn_eq host i a
  rw [eq]
  refine ⟨rfl, ?_, fun _ _ _ there => there⟩
  cases written with
  | none => simp
  | some cmd =>
    obtain ⟨t, bytes, found, setting, done, rfl⟩ := only cmd rfl
    have other : k ≠ .image := fun same => by
      have waits := waits same
      simp [found, setting, done] at waits
    obtain ⟨mime, image⟩ | image := t.command_cases bytes <;>
      simp [image, BackendCmd.kind, other.symm]

theorem read_blockingTurn {sha256 : List UInt8 → Hash} {job : Job} {phase : Phase} {files : Disk}
    {a : Answers} (harmless : Writes phase = false) {p : Path} {bytes : List UInt8}
    (there : (job.blockingTurn sha256 phase files a).2.read p = some bytes) :
    files.read p = some bytes := by
  unfold Job.blockingTurn at there
  split at there
  · exact there
  · cases phase with
    | creating | writing | verified => cases harmless
    | removing bytes path =>
      simp only [Job.blockingCall, Job.removePartial] at there
      split at there
      · cases removed : files.removeFile (keepPartialPath path) with
        | none => simpa [removed] using there
        | some files' =>
          rw [removed] at there
          exact FileSystem.read_of_removeFile removed there
      · exact there
    | spawned | fetching | probing | joined | ended => exact there

theorem read_turn {sha256 : List UInt8 → Hash} {t : Task} {i : Nat} {registry : Registry}
    {files : Disk} {a : Answers} (harmless : Writes t.phase = false) {p : Path}
    {bytes : List UInt8} (there : (t.turn sha256 i registry files a).files.read p = some bytes) :
    files.read p = some bytes := by
  have raced : ∀ registry, (t.race i registry files a).files = files := by
    intro registry
    unfold Task.race
    repeat' split
    all_goals rfl
  cases phase : t.phase with
  | spawned | fetching =>
    simp only [Task.turn, phase, raced] at there
    exact there
  | joined bytesLen result =>
    simp only [Task.turn, phase] at there
    cases result with
    | error failure => exact there
    | ok path =>
      simp only [Task.conclude] at there
      split at there
      · split at there
        · next files' removed =>
          split at removed
          · exact FileSystem.read_of_removeFile removed there
          · cases removed
        · exact there
      · exact there
  | ended landed =>
    simp only [Task.turn, phase] at there
    exact there
  | probing bytes | creating bytes | writing bytes | removing bytes | verified bytes =>
    have blocking : t.phase.payload? = some bytes := by rw [phase]; rfl
    rw [turn_blocking blocking] at there
    exact read_blockingTurn harmless there

theorem silent_fileTurn (i : Nat) (a : Answers)
    (harmless : k = .files → s.world.tasks[i]?.any (Writes ·.phase) = false) :
    Silent k s (s.fileTurn host i a) := by
  refine ⟨rfl, rfl, fun files p bytes there => ?_⟩
  cases found : s.world.tasks[i]? with
  | none =>
    simp only [State.fileTurn, World.receive, World.step_turn_none found] at there
    exact there
  | some t =>
    simp only [State.fileTurn, World.receive, World.step_turn found] at there
    have harmless := harmless files
    simp only [found, Option.any_some] at harmless
    exact read_turn harmless there

theorem silent_maybeInject (fp : Hash) (c : FileSetCollector) {reply : CmdReply}
    (skipped : k = .files → reply = .done → s.skipReason host fp c.received ≠ none) :
    Silent k s (s.maybeInjectFilesToClipboard host fp c reply) := by
  obtain ⟨dispatcher, inject, eq, unskipped⟩ := s.maybeInject_eq host fp c reply
  rw [eq]
  refine ⟨rfl, ?_, fun _ _ _ there => there⟩
  cases inject with
  | false => rfl
  | true =>
    obtain ⟨done, none_⟩ := unskipped rfl
    have other : k ≠ .files := fun files => skipped files done none_
    simp [BackendCmd.kind, other.symm]

theorem silent_collect (result : InboundFileApplyResult) {reply : CmdReply}
    (skipped : k = .files → reply = .done → ∀ c,
      s.pendingFileCollectors.lookup result.batchFingerprint = some c →
      c.received.length + 1 = c.expected →
        s.skipReason host result.batchFingerprint (c.received ++ [result]) ≠ none) :
    Silent k s (s.collect host result reply) := by
  unfold State.collect
  split
  · exact .of_same rfl rfl rfl
  · next c held =>
    simp only [List.length_append, List.length_singleton]
    split
    · exact .of_same rfl rfl rfl
    · next filled =>
      refine (silent_maybeInject _ _ fun files done => ?_).congr rfl rfl rfl
      exact skipped files done c held (not_not.mp filled)

theorem silent_fileApplied {i : Nat} {result : InboundFileApplyResult}
    {rest : List (Nat × InboundFileApplyResult)} (queue : s.filesApplied = (i, result) :: rest)
    (reply : CmdReply) (skipped : k = .files → s.injects host reply = false) :
    Silent k s
      ({ s with filesApplied := rest }.handleInboundFilesApplied host now result reply) := by
  obtain ⟨lru, eq⟩ := State.filesApplied_eq host { s with filesApplied := rest } now result reply
  rw [eq]
  refine (silent_collect result fun files done c held filled unskipped => ?_).congr rfl rfl rfl
  have skipped := skipped files
  have held : s.pendingFileCollectors.lookup result.batchFingerprint = some c := held
  have unskipped : s.skipReason host result.batchFingerprint (c.received ++ [result]) = none :=
    unskipped
  simp [State.injects, queue, held, done, filled, unskipped] at skipped

theorem silent_inbound (addr : SocketAddr) (event : ProtoEvent) (a : InboundAnswers)
    (unapplied : k = .text → ∀ ct, event = .clipboardText ct →
      s.appliesText now addr ct a = false) :
    Silent k s (s.handleClipboardInbound host now addr event a) := by
  cases event with
  | clipboardText ct => exact silent_inboundText addr ct a fun text => unapplied text ct rfl
  | clipboardImage ci =>
    obtain ⟨dispatcher, imageTasks, requests, eq⟩ := s.inboundImage_eq now ci addr
    simp only [State.handleClipboardInbound, eq]
    exact .of_same rfl rfl rfl
  | clipboardFiles cf =>
    obtain ⟨lru, eq | ⟨jobs, conn, -, -, eq⟩⟩ := s.inboundFiles_eq host now cf addr a
    all_goals
      simp only [State.handleClipboardInbound, eq]
      exact .of_same rfl rfl rfl
  | _ => exact .of_same rfl rfl rfl

theorem silent_imageApplied (result : InboundImageApplyResult)
    (rest : List InboundImageApplyResult) :
    Silent k s ({ s with imagesApplied := rest }.handleInboundImageApplied now result) := by
  obtain ⟨dispatcher, eq⟩ := State.imageApplied_eq { s with imagesApplied := rest } now result
  rw [eq]
  exact .of_same rfl rfl rfl

theorem eq_false_of_ite_ne {moved : Bool}
    (other : (if moved then some k else none) ≠ some k) : moved = false := by
  cases moved with
  | false => rfl
  | true => exact absurd rfl other

/-- An event leaves the kinds alone that it does not move. -/
theorem silent_of_not_moves {e : Event} (other : s.moves host e ≠ some k) :
    Silent k s (s.step host e) := by
  obtain ⟨now, action⟩ := e
  cases action with
  | dispatch content filled =>
    refine silent_dispatch content filled ?_
    rintro rfl
    exact eq_false_of_ite_ne other
  | recoverPush text =>
    refine silent_recoverPush text ?_
    rintro rfl
    exact eq_false_of_ite_ne other
  | inbound addr event a =>
    refine silent_inbound addr event a ?_
    rintro rfl ct rfl
    exact eq_false_of_ite_ne other
  | imageTurn i a =>
    refine silent_imageTurn i a ?_
    rintro rfl
    exact eq_false_of_ite_ne other
  | imageApplied =>
    simp only [State.step, State.act]
    split
    · exact .of_same rfl rfl rfl
    · exact silent_imageApplied _ _
  | fileTurn i a =>
    refine silent_fileTurn i a ?_
    rintro rfl
    exact eq_false_of_ite_ne other
  | fileApplied reply =>
    simp only [State.step, State.act]
    split
    · exact .of_same rfl rfl rfl
    · next queue =>
      refine silent_fileApplied queue reply ?_
      rintro rfl
      exact eq_false_of_ite_ne other
  | forward h e =>
    refine ⟨?_, rfl, fun _ _ _ there => there⟩
    simp [State.step, State.act, eventKind]
  | _ => exact .of_same rfl rfl rfl

end Step

/-! ### No task of a kind that is off -/

namespace State

variable {host : Host} {s s' : State} {cfg : ClipboardConfig}

theorem Clear.congr (clear : s.Clear cfg) (images : s'.imageTasks = s.imageTasks)
    (tasks : s'.world.tasks = s.world.tasks) (reports : s'.filesApplied = s.filesApplied) :
    s'.Clear cfg :=
  ⟨images ▸ clear.images, tasks ▸ clear.files, reports ▸ clear.reports⟩

theorem Clear.imageTurn (clear : s.Clear cfg) (i : Nat) (a : ImageAnswers) :
    (s.imageTurn host i a).Clear cfg := by
  unfold State.imageTurn
  split
  · exact clear
  · next t found =>
    refine ⟨fun off u mem => ?_, clear.files, clear.reports⟩
    obtain old | rfl := List.mem_or_eq_of_mem_set mem
    · exact clear.images off u old
    · have ended := clear.images off t (List.mem_of_getElem? found)
      simp only [ImageTask.turn, ended]

/-- A turn of a task that has ended changes nothing and reports nothing. -/
theorem Clear.fileTurn (clear : s.Clear cfg) (i : Nat) (a : Answers) :
    (s.fileTurn host i a).Clear cfg := by
  have idle : cfg.off .files → (s.world.receive host.sha256 (.turn i a)).tasks = s.world.tasks := by
    intro off
    cases found : s.world.tasks[i]? with
    | none => rw [World.receive, World.step_turn_none found]
    | some t =>
      obtain ⟨landed, ended⟩ := clear.files off t (List.mem_of_getElem? found)
      rw [World.receive, World.step_turn found]
      simp only [World.put, Task.turn, ended]
      obtain ⟨inside, rfl⟩ := List.getElem?_eq_some_iff.mp found
      exact List.set_getElem_self inside
  refine ⟨clear.images, fun off => ?_, fun off on => ?_⟩
  · simp only [State.fileTurn, idle off]
    exact clear.files off
  · simp [State.fileTurn, idle off, newReports, clear.reports off on]

theorem Clear.collect (clear : s.Clear (s.config host)) (result : InboundFileApplyResult)
    (reply : CmdReply) :
    (s.collect host result reply).Clear ((s.collect host result reply).config host) := by
  unfold State.collect
  split
  · exact clear
  · simp only
    split
    · exact clear.congr rfl rfl rfl
    · obtain ⟨dispatcher, inject, eq, -⟩ := State.maybeInject_eq host _ _ _ reply
      rw [eq]
      exact clear.congr rfl rfl rfl

theorem Clear.inbound (clear : s.Clear (s.config host)) {now : Nat} {addr : SocketAddr}
    {event : ProtoEvent} {a : InboundAnswers} (heeds : s.Heeds host ⟨now, .inbound addr event a⟩) :
    (s.step host ⟨now, .inbound addr event a⟩).Clear
      ((s.step host ⟨now, .inbound addr event a⟩).config host) := by
  simp only [State.step, State.act, State.handleClipboardInbound]
  cases event with
  | clipboardText ct =>
    obtain ⟨dispatcher, requests, written, eq, -⟩ := s.inboundText_eq now ct addr a
    simp only [eq]
    exact clear.congr rfl rfl rfl
  | clipboardImage ci =>
    obtain ⟨dispatcher, imageTasks, requests, eq⟩ := s.inboundImage_eq now ci addr
    simp only [eq]
    exact ⟨fun off => absurd off heeds, clear.files, clear.reports⟩
  | clipboardFiles cf =>
    obtain ⟨lru, eq | ⟨jobs, conn, -, -, eq⟩⟩ := s.inboundFiles_eq host now cf addr a
    all_goals
      simp only [eq]
      exact ⟨clear.images, fun off => absurd off heeds, fun off => absurd off heeds⟩
  | fileTransferCancel cancel => exact clear.congr rfl rfl rfl
  | _ => exact clear

theorem Clear.step (clear : s.Clear (s.config host)) {e : Event} (heeds : s.Heeds host e) :
    (s.step host e).Clear ((s.step host e).config host) := by
  obtain ⟨now, action⟩ := e
  cases action with
  | setConfig | configChange => exact ⟨heeds.images, heeds.files, heeds.reports⟩
  | inbound addr event a => exact clear.inbound heeds
  | imageTurn i a =>
    have same : (s.imageTurn host i a).config host = s.config host := by
      unfold State.imageTurn
      split <;> rfl
    exact same ▸ clear.imageTurn i a
  | fileTurn i a => exact clear.fileTurn i a
  | imageApplied =>
    simp only [State.step, State.act]
    split
    · exact clear
    · obtain ⟨dispatcher, eq⟩ := State.imageApplied_eq { s with imagesApplied := _ } now _
      rw [eq]
      exact clear.congr rfl rfl rfl
  | fileApplied reply =>
    simp only [State.step, State.act]
    split
    · exact clear
    · next i result rest queue =>
      obtain ⟨lru, eq⟩ :=
        State.filesApplied_eq host { s with filesApplied := rest } now result reply
      rw [eq]
      refine Clear.collect (s := { s with filesApplied := rest, fileLruFingerprints := lru })
        ⟨clear.images, clear.files, fun off on => ?_⟩ result reply
      have none_ := clear.reports off on
      simp [queue] at none_
  | _ => exact clear.congr rfl rfl rfl

/-- No event moves a kind that is off. -/
theorem Clear.not_moves (clear : s.Clear (s.config host)) {e : Event} (heeds : s.Heeds host e)
    {k : Kind} (off : (s.config host).off k) : s.moves host e ≠ some k := by
  obtain ⟨now, action⟩ := e
  intro moved
  cases action with
  | dispatch content filled =>
    simp only [moves, Option.ite_none_right_eq_some, Option.some_inj] at moved
    obtain ⟨announced, rfl⟩ := moved
    have none_ := heeds off
    simp [announces, none_] at announced
  | recoverPush text =>
    simp only [moves, Option.ite_none_right_eq_some, Option.some_inj] at moved
    obtain ⟨heard, rfl⟩ := moved
    simp only [Bool.and_eq_true, decide_eq_true_eq] at heard
    exact heard.2 (heeds off heard.1)
  | inbound addr event a =>
    cases event with
    | clipboardText ct =>
      simp only [moves, Option.ite_none_right_eq_some, Option.some_inj] at moved
      obtain ⟨-, rfl⟩ := moved
      exact heeds off
    | _ => cases moved
  | imageTurn i a =>
    simp only [moves, Option.ite_none_right_eq_some, Option.some_inj] at moved
    obtain ⟨sets, rfl⟩ := moved
    cases found : s.imageTasks[i]? with
    | none => simp [found] at sets
    | some t => simp [found, clear.images off t (List.mem_of_getElem? found)] at sets
  | fileTurn i a =>
    simp only [moves, Option.ite_none_right_eq_some, Option.some_inj] at moved
    obtain ⟨writes, rfl⟩ := moved
    cases found : s.world.tasks[i]? with
    | none => simp [found] at writes
    | some t =>
      obtain ⟨landed, ended⟩ := clear.files off t (List.mem_of_getElem? found)
      simp [found, ended, Writes] at writes
  | fileApplied reply =>
    simp only [moves, Option.ite_none_right_eq_some, Option.some_inj] at moved
    obtain ⟨injected, rfl⟩ := moved
    unfold injects at injected
    split at injected
    · cases injected
    · next queue =>
      split at injected
      · cases injected
      · have disabled : (s.config host).enabled = false := by
          cases on : (s.config host).enabled with
          | false => rfl
          | true =>
            rw [clear.reports off on] at queue
            cases queue
        simp [decideReinjectSkip, disabled] at injected
  | _ => cases moved

end State

/-- In a run in which, while a kind of content is switched off, nothing of it is copied and no
announcement of it comes in, and in which no task of it is left when it is switched off, nothing of
that kind is broadcast, written to the local clipboard or written to a file while it is off. -/
theorem switched_off_silent (host : Host) (toml : Option TomlClipboard) (files : Disk)
    (events : List Event)
    (heeded : AllMeet (State.step host) (State.Heeds host) (.start toml files) events) :
    AllMeet (State.step host)
      (fun s e => ∀ k, (s.config host).off k → Silent k s (s.step host e)) (.start toml files)
      events := by
  have start : State.Clear (.start toml files) (State.config host (.start toml files)) :=
    ⟨fun _ => nofun, fun _ => nofun, fun _ _ => rfl⟩
  refine allMeet_mono (fun s => s.Clear (s.config host)) (fun _ _ clear heeds => clear.step heeds)
    (fun s e clear heeds k off => ?_) start heeded
  exact silent_of_not_moves (clear.not_moves heeds off)

/-- Texts are switched off. One that is copied while nobody is connected goes nowhere; an image
comes in and is written. -/
theorem switched_off_silent_text :
    let host : Host := ⟨fun bytes => Vector.replicate 32 (bytes.headD 0), "/d".toList⟩
    let addr : SocketAddr := ⟨.v4 #v[192, 168, 0, 2], 2268⟩
    let hash : Hash := Vector.replicate 32 1
    let start : State := .start (some { ignoreText := some true }) .empty
    let copy : Event := { action := .dispatch (.text "a") fun _ => .error "" }
    let events : List Event := [copy, { action := .links (fun _ => true) (fun _ => none) },
      { action := .connected addr },
      { action := .inbound addr (.clipboardImage ⟨hash, "image/png", hash, 1⟩) {} },
      { action := .imageTurn 0 { fetch := some (.ok (200, [1])) } }, { action := .imageTurn 0 {} }]
    (start.config host).off .text ∧ Silent .text start (start.step host copy) ∧
      (run (State.step host) start events).clipboard = [.setImage [1] .png] := by
  intro host addr hash start copy events
  have heeded : AllMeet (State.step host) (State.Heeds host) start events :=
    ⟨fun _ => rfl, trivial, trivial, Bool.false_ne_true, trivial, trivial, trivial⟩
  exact ⟨rfl, (switched_off_silent host _ _ events heeded).1 .text rfl, by decide +kernel⟩

/-- With the whole clipboard switched off, a text is announced, a text and an image that come in are
written to the local clipboard, and a file is written. With each kind switched off, a selection is
put on the local clipboard as well. -/
theorem switched_off_moves :
    let host : Host := ⟨fun bytes => Vector.replicate 32 (bytes.headD 0), "/d".toList⟩
    let addr : SocketAddr := ⟨.v4 #v[192, 168, 0, 2], 2268⟩
    let hash (byte : UInt8) : Hash := Vector.replicate 32 byte
    let actions : List Action :=
      [.links (fun _ => true) (fun _ => none), .connected addr,
        .dispatch (.text "a") (fun _ => .error ""),
        .inbound addr (.clipboardText (.fromContent (hash 98) (hash 98) [98])) {},
        .inbound addr (.clipboardImage ⟨hash 1, "image/png", hash 1, 1⟩) {},
        .imageTurn 0 { fetch := some (.ok (200, [1])) }, .imageTurn 0 {},
        .inbound addr (.clipboardFiles ⟨hash 9, [⟨"a", 1, "text/plain", hash 2⟩]⟩) {}] ++
      List.replicate 7 (.fileTurn 0 { fetch := some (.ok (200, [2])) }) ++ [.fileApplied .done]
    let final (toml : TomlClipboard) : State :=
      run (State.step host) (.start (some toml) .empty) (actions.map fun action => { action })
    let disabled := final { enabled := some false }
    let ignored :=
      final { ignoreText := some true, ignoreImages := some true, ignoreFiles := some true }
    (disabled.config host).enabled = false ∧
      disabled.sent.map (eventKind ·.2) = [some .text] ∧
      disabled.clipboard = [.setText "b", .setImage [1] .png] ∧
      disabled.world.files.read "/d/a".toList = some [2] ∧
      (∀ k ∈ [Kind.text, .image, .files], (ignored.config host).off k) ∧
      ignored.sent.map (eventKind ·.2) = [some .text] ∧
      ignored.clipboard = [.setText "b", .setImage [1] .png, .setFiles ["/d/a".toList]] := by
  decide +kernel

end LanMouse.Sync
