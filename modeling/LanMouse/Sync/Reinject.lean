import LanMouse.Lib.Observed
import LanMouse.Sync.Batches
import LanMouse.Sync.Echo

/-!
# Selections that are put on the clipboard

When all files of a batch have landed, the service puts them on the clipboard, and stamps the
selection as the one it announced last, so that it is passed over when the poller sees it. This
holds it back as long as every look that waits at that time is at the same files. Otherwise the
stamp is lost to the first of them: it goes out again if it had been announced, and the batch goes
out after it. The same happens when the clipboard does not take the batch and has an announced
selection on it.
-/
namespace LanMouse.Sync

open Proto UnixPath Client Clipboard Files Transition Observed

/-- The action may change which selection counts as the last one. -/
def Action.stampsFiles : Action → Bool
  | .dispatch (.files ..) _ | .fileApplied _ => true
  | _ => false

namespace State

variable (host : Host)

/-- What a report completes: the paths of its batch, unless there is a reason to skip it. -/
def completes (s : State) (result : InboundFileApplyResult) : Option (List Path) :=
  match s.pendingFileCollectors.lookup result.batchFingerprint with
  | none => none
  | some c =>
    let received := c.received ++ [result]
    let paths := received.filterMap (·.landedPath)
    if received.length = c.expected ∧ s.skipReason host result.batchFingerprint received = none ∧
        paths ≠ [] then
      some paths
    else none

/-- What the next report completes. -/
def reinjects (s : State) : Option (List Path) :=
  s.filesApplied.head?.bind fun report => s.completes host report.2

variable {host}

/-- From one state to the next nothing is stamped or put on the clipboard, or the paths are. -/
def Stamps (host : Host) (reply : CmdReply) (s s' : State) : Option (List Path) → Prop
  | none => s'.dispatcher.lastOutboundFilesFingerprint =
      s.dispatcher.lastOutboundFilesFingerprint ∧ s'.clipboard = s.clipboard
  | some paths => s'.dispatcher.lastOutboundFilesFingerprint =
      some (fileSelectionFingerprint host.sha256 paths) ∧
      s'.clipboard = s.clipboard ++ if reply = .done then [.setFiles paths] else []

theorem stamps_maybeInject (s : State) (fp : Hash) (c : FileSetCollector) (reply : CmdReply) :
    Stamps host reply s (s.maybeInjectFilesToClipboard host fp c reply)
      (if s.skipReason host fp c.received = none ∧ c.received.filterMap (·.landedPath) ≠ [] then
        some (c.received.filterMap (·.landedPath))
      else none) := by
  cases skip : s.skipReason host fp c.received with
  | some reason =>
    simp only [maybeInjectFilesToClipboard, skip]
    exact ⟨rfl, rfl⟩
  | none =>
    simp only [maybeInjectFilesToClipboard, skip]
    by_cases nothing : c.received.filterMap (·.landedPath) = []
    · simp only [nothing, if_true, ne_eq, not_true_eq_false, and_false, if_false]
      exact ⟨rfl, rfl⟩
    · simp only [nothing, if_false, ne_eq, not_false_eq_true, and_self, if_true]
      cases reply <;> exact ⟨rfl, by simp⟩

theorem stamps_collect (s : State) (result : InboundFileApplyResult) (reply : CmdReply) :
    Stamps host reply s (s.collect host result reply) (s.completes host result) := by
  cases held : s.pendingFileCollectors.lookup result.batchFingerprint with
  | none =>
    simp only [collect, completes, held]
    exact ⟨rfl, rfl⟩
  | some c =>
    simp only [collect, completes, held]
    by_cases filled : (c.received ++ [result]).length = c.expected
    · simp only [filled, ne_eq, not_true_eq_false, if_false, true_and]
      exact stamps_maybeInject { s with
        pendingFileCollectors := s.pendingFileCollectors.erase result.batchFingerprint }
        result.batchFingerprint { c with received := c.received ++ [result] } reply
    · simp only [ne_eq, filled, not_false_eq_true, if_true, false_and, if_false]
      exact ⟨rfl, rfl⟩

/-- A batch that is complete is stamped, and put on the clipboard if this takes it. -/
theorem stamps_fileApplied (s : State) (now : Nat) (reply : CmdReply) :
    Stamps host reply s (s.step host ⟨now, .fileApplied reply⟩) (s.reinjects host) := by
  cases queue : s.filesApplied with
  | nil =>
    simp only [step, act, reinjects, queue]
    exact ⟨rfl, rfl⟩
  | cons report rest =>
    obtain ⟨i, result⟩ := report
    simp only [step, act, reinjects, queue, List.head?_cons, Option.bind_some]
    obtain ⟨lru, eq⟩ := filesApplied_eq host { s with filesApplied := rest } now result reply
    rw [eq]
    exact stamps_collect { s with filesApplied := rest, fileLruFingerprints := lru } result reply

theorem lastFingerprint_step_other {s : State} {now : Nat} {action : Action}
    (other : action.stampsFiles = false) :
    (s.step host ⟨now, action⟩).dispatcher.lastOutboundFilesFingerprint =
      s.dispatcher.lastOutboundFilesFingerprint := by
  cases action with
  | dispatch content filled =>
    simp only [step, act, push, Dispatcher.dispatch]
    cases content with
    | text t =>
      simp only [Dispatcher.dispatchText]
      split
      · rfl
      · split <;> rfl
    | image image =>
      simp only [Dispatcher.dispatchImage]
      split
      · rfl
      · split <;> rfl
    | files paths collected => cases other
  | recoverPush text => cases text <;> rfl
  | inbound addr event a =>
    simp only [step, act, handleClipboardInbound]
    cases event with
    | clipboardText ct =>
      obtain ⟨⟨lru, text, eq⟩, -⟩ := s.inboundText_lists now ct addr a
      rw [eq]
    | clipboardImage ci =>
      simp only [handleClipboardInboundImage]
      split
      · rfl
      · split <;> rfl
    | clipboardFiles cf => rw [(s.inboundFiles_lists host now cf addr a).1]
    | _ => rfl
  | imageTurn i a =>
    obtain ⟨imageTasks, imagesApplied, written, eq, -⟩ := s.imageTurn_eq host i a
    simp only [step, act, eq]
  | imageApplied =>
    simp only [step, act]
    split
    · rfl
    · simp only [handleInboundImageApplied]
      split <;> rfl
  | fileApplied reply => cases other
  | get who route sha =>
    simp only [step, act, Dispatcher.get]
    cases route <;> rfl
  | _ => rfl

theorem writtenSince_of_clipboard {s s' : State} {more : List BackendCmd}
    (clipboard : s'.clipboard = s.clipboard ++ more) : s.writtenSince s' = more.getLast? := by
  rw [writtenSince, clipboard, List.drop_left]

theorem writtenSince_of_same {s s' : State} (same : s'.clipboard = s.clipboard) :
    s.writtenSince s' = none :=
  writtenSince_of_clipboard (same.trans (List.append_nil _).symm)

theorem files?_of_written {s s' : State} {more : List BackendCmd}
    (clipboard : s'.clipboard = s.clipboard ++ more) (others : ∀ cmd ∈ more, cmd.files? = none)
    {cmd : BackendCmd} (written : s.writtenSince s' = some cmd) : cmd.files? = none := by
  rw [writtenSince_of_clipboard clipboard] at written
  exact others cmd (List.mem_of_getLast? written)

/-- Only a report has files put on the clipboard. -/
theorem files?_of_writtenSince {s : State} {now : Nat} {action : Action}
    (other : action.stampsFiles = false) {cmd : BackendCmd}
    (written : s.writtenSince (s.step host ⟨now, action⟩) = some cmd) : cmd.files? = none := by
  have unwritten {s' : State} (same : s'.clipboard = s.clipboard)
      (written : s.writtenSince s' = some cmd) : cmd.files? = none :=
    files?_of_written (same.trans (List.append_nil _).symm) (fun _ => nofun) written
  cases action with
  | inbound addr event a =>
    cases event with
    | clipboardText ct =>
      obtain ⟨dispatcher, requests, text, eq, -⟩ := s.inboundText_eq now ct addr a
      have clipboard : (s.step host ⟨now, .inbound addr (.clipboardText ct) a⟩).clipboard =
          s.clipboard ++ text.toList.map .setText := by
        simp only [step, act, handleClipboardInbound, eq]
      refine files?_of_written clipboard (List.forall_mem_map.mpr fun text _ => ?_) written
      rfl
    | clipboardImage ci =>
      obtain ⟨dispatcher, imageTasks, requests, eq⟩ := s.inboundImage_eq now ci addr
      refine unwritten ?_ written
      simp only [step, act, handleClipboardInbound, eq]
    | clipboardFiles cf =>
      obtain ⟨lru, eq | ⟨jobs, conn, -, -, eq⟩⟩ := s.inboundFiles_eq host now cf addr a
      all_goals
        refine unwritten ?_ written
        simp only [step, act, handleClipboardInbound, eq, spawnFiles]
    | _ => exact unwritten rfl written
  | imageTurn i a =>
    obtain ⟨imageTasks, imagesApplied, image, eq, own⟩ := s.imageTurn_eq host i a
    have clipboard : (s.step host ⟨now, .imageTurn i a⟩).clipboard =
        s.clipboard ++ image.toList := by
      simp only [step, act, eq]
    refine files?_of_written clipboard (fun cmd mem => ?_) written
    obtain ⟨t, bytes, -, -, -, rfl⟩ := own _ (Option.mem_toList.mp mem)
    obtain ⟨mime, eq⟩ | eq := t.command_cases bytes
    · rw [eq]
      rfl
    · rw [eq]
      rfl
  | imageApplied =>
    refine unwritten ?_ written
    simp only [step, act]
    split
    · rfl
    · next result rest _ =>
      obtain ⟨dispatcher, eq⟩ := imageApplied_eq { s with imagesApplied := rest } now result
      rw [eq]
  | fileApplied reply => cases other
  | _ => exact unwritten rfl written

end State

/-- The answer to the write of the batch that a move completes. -/
def Move.report? : Move → Option CmdReply
  | .serve (.fileApplied reply) _ => some reply
  | _ => none

/-- The files that a look is at. -/
def Look.fingerprint (host : Host) (look : Look (List Path)) : Hash :=
  fileSelectionFingerprint host.sha256 look.value

namespace Desktop

/-- What the poller would see now. -/
def current (d : Desktop) : List (Look (List Path)) :=
  (d.contents.files.map fun paths => ⟨paths, d.stamp⟩).toList

/-- The looks that wait, and the one that may follow. -/
def selections (d : Desktop) : List (Look (List Path)) := d.filesRx ++ d.current

/-- After a write the clipboard reports the files that were set, and no others. -/
def ReportsFiles (host : Host) (d : Desktop) : Move → Prop
  | .serve action left =>
    ∀ cmd ∈ d.service.writtenSince (d.service.step host ⟨d.clock, d.answer action⟩),
      left.files = cmd.files?
  | _ => True

/-- When a batch is stamped and put on the clipboard, all looks that wait are at its files. When the
clipboard does not take it, the looks that wait, and what is on the clipboard, are new from the
first one on that is not at its files. -/
def StampsAlone (host : Host) (d : Desktop) (move : Move) : Prop :=
  ∀ reply ∈ move.report?, ∀ paths ∈ d.service.reinjects host,
    if reply = .done then
      ∀ look ∈ d.filesRx, look.fingerprint host = fileSelectionFingerprint host.sha256 paths
    else
      ∀ look ∈ d.selections.dropWhile
          (Look.fingerprint host · = fileSelectionFingerprint host.sha256 paths),
        IsNew (d.announced .files) look.stamp

instance (host : Host) (d : Desktop) : (move : Move) → Decidable (d.ReportsFiles host move)
  | .serve .. => inferInstanceAs (Decidable (∀ cmd ∈ d.service.writtenSince _, _))
  | .wait _ | .copy _ | .tick .. | .text | .image | .files .. | .recover _ => isTrue trivial

instance (host : Host) (d : Desktop) (move : Move) : Decidable (d.StampsAlone host move) :=
  inferInstanceAs (Decidable (∀ reply ∈ move.report?, ∀ paths ∈ d.service.reinjects host, ite ..))

/-- The changes of the clipboard are seen in their order. -/
structure FilesInOrder (d : Desktop) : Prop where
  inOrder : InOrder (·.stamp.number) d.selections
  past : ∀ look ∈ d.selections, look.stamp.number ≤ d.stamp.number
  announced : ∀ stamp ∈ d.announced .files, stamp.number ≤ d.stamp.number

/-- What was announced or put on the clipboard is held back. -/
structure FilesHeld (host : Host) (d : Desktop) : Prop extends d.FilesInOrder where
  settled : Settled (Look.fingerprint host) d.service.dispatcher.lastOutboundFilesFingerprint
    (fun look => IsNew (d.announced .files) look.stamp) d.selections
  onlyNew : OnlyNew (d.announced .files)

section Step

variable {host : Host} {d d' : Desktop}

theorem FilesInOrder.congr (ordered : d.FilesInOrder) (filesRx : d'.filesRx = d.filesRx)
    (contents : d'.contents = d.contents) (stamp : d'.stamp = d.stamp)
    (announced : d'.announced .files = d.announced .files) : d'.FilesInOrder := by
  have selections : d'.selections = d.selections := by
    simp only [Desktop.selections, current, filesRx, contents, stamp]
  exact
    { inOrder := selections ▸ ordered.inOrder
      past := by rw [selections, stamp]; exact ordered.past
      announced := by rw [announced, stamp]; exact ordered.announced }

/-- A change of the clipboard is later than all that was seen before. -/
theorem FilesInOrder.put (ordered : d.FilesInOrder) (contents : Contents) (origin : Origin) :
    (d.put contents origin).FilesInOrder := by
  have before : ∀ look ∈ d.filesRx, look.stamp.number < d.stamp.number + 1 := fun look mem =>
    Nat.lt_succ_of_le (ordered.past look (List.mem_append_left _ mem))
  have waiting : InOrder (·.stamp.number) d.filesRx := ordered.inOrder.left
  have announced : ∀ stamp ∈ d.announced .files, stamp.number ≤ d.stamp.number + 1 :=
    fun stamp mem => (ordered.announced stamp mem).trans (Nat.le_succ _)
  cases files : contents.files with
  | none =>
    have selections : (d.put contents origin).selections = d.filesRx := by
      simp [Desktop.selections, current, Desktop.put, files]
    exact ⟨selections ▸ waiting, fun look mem => (before look (selections ▸ mem)).le, announced⟩
  | some paths =>
    have selections : (d.put contents origin).selections =
        d.filesRx ++ [⟨paths, ⟨d.stamp.number + 1, origin⟩⟩] := by
      simp [Desktop.selections, current, Desktop.put, files]
    refine ⟨selections ▸ waiting.snoc before, fun look mem => ?_, announced⟩
    rw [selections] at mem
    obtain mem | mem := List.mem_append.mp mem
    · exact (before look mem).le
    · rw [List.mem_singleton.mp mem]
      exact Nat.le_refl _

theorem selections_put (contents : Contents) (origin : Origin) :
    (d.put contents origin).selections = d.filesRx ++
      (contents.files.map fun paths => ⟨paths, ⟨d.stamp.number + 1, origin⟩⟩).toList := rfl

theorem FilesHeld.congr (held : d.FilesHeld host) (filesRx : d'.filesRx = d.filesRx)
    (contents : d'.contents = d.contents) (stamp : d'.stamp = d.stamp)
    (announced : d'.announced .files = d.announced .files)
    (last : d'.service.dispatcher.lastOutboundFilesFingerprint =
      d.service.dispatcher.lastOutboundFilesFingerprint) : d'.FilesHeld host where
  toFilesInOrder := held.toFilesInOrder.congr filesRx contents stamp announced
  settled := by
    have selections : d'.selections = d.selections := by
      simp only [Desktop.selections, current, filesRx, contents, stamp]
    rw [selections, last, announced]
    exact held.settled
  onlyNew := by
    rw [announced]
    exact held.onlyNew

/-! #### The user and the poller -/

theorem FilesHeld.copy (held : d.FilesHeld host) (contents : Option Contents) :
    (d.copy contents).FilesHeld host := by
  cases contents with
  | none => exact held
  | some contents =>
    refine ⟨held.toFilesInOrder.put contents .copied, ?_, held.onlyNew⟩
    have waiting := held.settled.left
    simp only [Desktop.copy, selections_put]
    cases contents.files with
    | none =>
      rw [Option.map_none, Option.toList_none, List.append_nil]
      exact waiting
    | some paths =>
      refine waiting.snoc ⟨rfl, fun mem => ?_⟩
      obtain ⟨stamp, announced, number⟩ := List.mem_map.mp mem
      have := held.announced stamp announced
      simp only at number
      omega

theorem FilesHeld.lookText (held : d.FilesHeld host) (readable : Bool) :
    (d.lookText readable).FilesHeld host := by
  unfold Desktop.lookText
  split
  · split
    · exact held.congr rfl rfl rfl rfl rfl
    · exact held
  · exact held

theorem FilesHeld.lookImage (held : d.FilesHeld host) (readable : Bool) :
    (d.lookImage readable).FilesHeld host := by
  unfold Desktop.lookImage
  split
  · split
    · exact held.congr rfl rfl rfl rfl rfl
    · exact held
  · exact held

theorem FilesHeld.lookFiles (held : d.FilesHeld host) (readable : Bool) :
    (d.lookFiles readable).FilesHeld host := by
  unfold Desktop.lookFiles
  split
  · next paths files =>
    split
    · have now : d.selections = d.filesRx ++ [⟨paths, d.stamp⟩] := by
        simp only [Desktop.selections, current, files]
        rfl
      have again : ({ d with filesRx := d.filesRx ++ [⟨paths, d.stamp⟩] } : Desktop).selections =
          d.filesRx ++ [⟨paths, d.stamp⟩] ++ [⟨paths, d.stamp⟩] := by
        simp only [Desktop.selections, current, files]
        rfl
      refine ⟨⟨?_, fun look mem => held.past look ?_, held.announced⟩, ?_, held.onlyNew⟩
      · rw [again]
        exact (now ▸ held.inOrder).again
      · rw [again] at mem
        rw [now]
        simp only [List.mem_append, or_assoc, or_self] at mem ⊢
        exact mem
      · rw [again]
        exact (now ▸ held.settled).again
    · exact held
  · exact held

theorem FilesHeld.tick (held : d.FilesHeld host) (readable : Readable)
    (beforeText beforeFiles : Option Contents) :
    (d.tick readable beforeText beforeFiles).FilesHeld host := by
  have first := (held.lookImage readable.image).copy beforeText
  simp only [Desktop.tick]
  split
  · exact (first.copy beforeFiles).lookFiles _
  · exact ((first.lookText _).copy beforeFiles).lookFiles _

/-! #### The rounds of the service -/

/-- A round leaves the clipboard as it is, or puts something on it. -/
theorem round_cases (host : Host) (d : Desktop) (action : Action) (stamp : Stamp)
    (left : Contents) :
    (d.round host action stamp left).filesRx = d.filesRx ∧
      ((d.service.writtenSince (d.service.step host ⟨d.clock, action⟩) = none ∧
          (d.round host action stamp left).contents = d.contents ∧
          (d.round host action stamp left).stamp = d.stamp) ∨
        ∃ cmd, d.service.writtenSince (d.service.step host ⟨d.clock, action⟩) = some cmd ∧
          (d.round host action stamp left).contents = left ∧
          (d.round host action stamp left).stamp = ⟨d.stamp.number + 1, .written cmd⟩) := by
  simp only [round]
  split
  · next none_ => exact ⟨rfl, .inl ⟨none_, rfl, rfl⟩⟩
  · next cmd written => exact ⟨rfl, .inr ⟨cmd, written, rfl, rfl⟩⟩

theorem selections_round_of_unwritten {action : Action}
    (unwritten : d.service.writtenSince (d.service.step host ⟨d.clock, action⟩) = none)
    (stamp : Stamp) (left : Contents) :
    (d.round host action stamp left).selections = d.selections ∧
      (d.round host action stamp left).stamp = d.stamp := by
  obtain ⟨filesRx, ⟨-, contents, stamp'⟩ | ⟨cmd, written, -, -⟩⟩ :=
    round_cases host d action stamp left
  · refine ⟨?_, stamp'⟩
    simp only [selections, current, filesRx, contents, stamp']
  · rw [unwritten] at written
    cases written

/-- What has to be shown of a round that announces no selection. -/
theorem FilesHeld.of_silent (held : d.FilesHeld host) {action : Action} {stamp : Stamp}
    {left : Contents}
    (silent : d.service.announcedSince (d.service.step host ⟨d.clock, action⟩) .files = false)
    (settled : Settled (Look.fingerprint host)
      (d.service.step host ⟨d.clock, action⟩).dispatcher.lastOutboundFilesFingerprint
      (fun look => IsNew (d.announced .files) look.stamp)
      (d.round host action stamp left).selections) :
    (d.round host action stamp left).FilesHeld host := by
  have announced : (d.round host action stamp left).announced .files = d.announced .files :=
    announced_round_of_silent silent
  refine ⟨?_, ?_, ?_⟩
  · obtain ⟨filesRx, ⟨-, contents, stamp'⟩ | ⟨cmd, -, contents, stamp'⟩⟩ :=
      round_cases host d action stamp left
    · exact held.toFilesInOrder.congr filesRx contents stamp' announced
    · exact (held.toFilesInOrder.put left (.written cmd)).congr filesRx contents stamp' announced
  · rw [announced, service_round]
    exact settled
  · rw [announced]
    exact held.onlyNew

theorem FilesHeld.round_other (held : d.FilesHeld host) {action : Action} {stamp : Stamp}
    {left : Contents} (other : action.stampsFiles = false)
    (silent : d.service.announcedSince (d.service.step host ⟨d.clock, action⟩) .files = false)
    (reports : ∀ cmd ∈ d.service.writtenSince (d.service.step host ⟨d.clock, action⟩),
      left.files = cmd.files?) :
    (d.round host action stamp left).FilesHeld host := by
  refine held.of_silent silent ?_
  rw [State.lastFingerprint_step_other other]
  obtain ⟨filesRx, ⟨unwritten, -, -⟩ | ⟨cmd, written, contents, -⟩⟩ :=
    round_cases host d action stamp left
  · rw [(selections_round_of_unwritten unwritten _ _).1]
    exact held.settled
  · have nothing : left.files = none := by
      rw [reports cmd written, State.files?_of_writtenSince other written]
    have waiting : (d.round host action stamp left).selections = d.filesRx := by
      simp [selections, current, filesRx, contents, nothing]
    rw [waiting]
    exact held.settled.left

theorem FilesHeld.round_fileApplied (held : d.FilesHeld host) {reply : CmdReply} {stamp : Stamp}
    {left : Contents} (alone : d.StampsAlone host (.serve (.fileApplied reply) left))
    (reports : ∀ cmd ∈ d.service.writtenSince
      (d.service.step host ⟨d.clock, .fileApplied reply⟩), left.files = cmd.files?) :
    (d.round host (.fileApplied reply) stamp left).FilesHeld host := by
  refine held.of_silent (State.announcedSince_other host rfl _) ?_
  have stamps : State.Stamps host reply d.service _ _ :=
    State.stamps_fileApplied d.service d.clock reply
  cases batch : d.service.reinjects host with
  | none =>
    rw [batch] at stamps
    rw [(selections_round_of_unwritten (State.writtenSince_of_same stamps.2) _ _).1, stamps.1]
    exact held.settled
  | some paths =>
    rw [batch] at stamps
    have same := alone reply rfl paths batch
    rw [stamps.1]
    by_cases done : reply = .done
    · rw [if_pos done] at same
      have written : d.service.writtenSince
          (d.service.step host ⟨d.clock, .fileApplied reply⟩) = some (.setFiles paths) := by
        rw [State.writtenSince_of_clipboard stamps.2, if_pos done]
        rfl
      obtain ⟨filesRx, ⟨none_, -, -⟩ | ⟨cmd, -, contents, -⟩⟩ :=
        round_cases host d (.fileApplied reply) stamp left
      · rw [none_] at written
        cases written
      · have files : left.files = some paths := reports _ written
        refine .of_key fun look mem => congrArg some ?_
        simp only [selections, current, filesRx, contents, files] at mem
        obtain mem | mem := List.mem_append.mp mem
        · exact (same look mem).symm
        · rw [List.mem_singleton.mp mem]
          rfl
    · rw [if_neg done] at same
      have clipboard : (d.service.step host ⟨d.clock, .fileApplied reply⟩).clipboard =
          d.service.clipboard := by
        rw [stamps.2, if_neg done, List.append_nil]
      rw [(selections_round_of_unwritten (State.writtenSince_of_same clipboard) _ _).1]
      exact .of_dropWhile same

/-- A selection that is taken up is passed over or cannot be announced, or it becomes the last
one. -/
theorem dispatchFiles_cases {s s' : State} {now : Nat} {paths : List Path}
    {collected filled : Snapshot}
    (step : s' = s.step host ⟨now, .dispatch (.files paths collected) filled⟩) :
    s'.clipboard = s.clipboard ∧
      (s.announcedSince s' .files = false ∧ s'.dispatcher.lastOutboundFilesFingerprint =
          s.dispatcher.lastOutboundFilesFingerprint ∨
        s.dispatcher.lastOutboundFilesFingerprint ≠
            some (fileSelectionFingerprint host.sha256 paths) ∧
          s'.dispatcher.lastOutboundFilesFingerprint =
            some (fileSelectionFingerprint host.sha256 paths)) := by
  subst step
  refine ⟨rfl, ?_⟩
  rw [State.announcedSince_dispatch]
  simp only [State.step, State.act, State.push, State.announces, Dispatcher.dispatch,
    Dispatcher.remembers, Change.announcement?, Content.announcement?, Dispatcher.dispatchFiles,
    dispatchFilesDecide, contentKind, decide_true, Bool.true_and]
  by_cases none_ : paths = []
  · left
    simp [none_, settle]
  · by_cases same : s.dispatcher.lastOutboundFilesFingerprint =
      some (fileSelectionFingerprint host.sha256 paths)
    · left
      simp [none_, same, settle]
    · simp only [none_, same, if_false]
      cases collectFilesBlocking host.sha256 collected (s.config host).maxFileSize.toNat paths with
      | ok entries => exact .inr ⟨same, rfl⟩
      | error e =>
        cases e with
        | exceedsLimit offending size limit => exact .inr ⟨same, rfl⟩
        | isDirectory p => exact .inl ⟨by simp, rfl⟩
        | io e => exact .inl ⟨by simp, rfl⟩

theorem FilesHeld.take (held : d.FilesHeld host) {look : Look (List Path)}
    {rest : List (Look (List Path))} (queue : d.filesRx = look :: rest) :
    ({ d with filesRx := rest } : Desktop).FilesHeld host ∧
      d.selections = look :: ({ d with filesRx := rest } : Desktop).selections := by
  have selections : d.selections = look :: ({ d with filesRx := rest } : Desktop).selections := by
    rw [Desktop.selections, queue]
    rfl
  have inOrder := held.inOrder
  have settled := held.settled
  rw [selections] at inOrder settled
  refine ⟨⟨⟨inOrder.of_cons, fun look mem => held.past look ?_, held.announced⟩, settled.tail,
    held.onlyNew⟩, selections⟩
  rw [selections]
  exact List.mem_cons_of_mem _ mem

/-- The first look is announced: the others at the same selection are held back from now on. -/
theorem FilesHeld.of_announced (held : d.FilesHeld host) {look : Look (List Path)}
    {action : Action} {left : Contents}
    (announced : d.service.announcedSince (d.service.step host ⟨d.clock, action⟩) .files = true)
    (unwritten : d.service.writtenSince (d.service.step host ⟨d.clock, action⟩) = none)
    (last : (d.service.step host ⟨d.clock, action⟩).dispatcher.lastOutboundFilesFingerprint =
      some (look.fingerprint host))
    (inOrder : InOrder (·.stamp.number) (look :: d.selections))
    (past : look.stamp.number ≤ d.stamp.number)
    (new : ∀ y ∈ look :: d.selections, IsNew (d.announced .files) y.stamp) :
    (d.round host action look.stamp left).FilesHeld host := by
  obtain ⟨selections, stamp⟩ :
      (d.round host action look.stamp left).selections = d.selections ∧ _ :=
    selections_round_of_unwritten unwritten _ _
  have more : (d.round host action look.stamp left).announced .files =
      d.announced .files ++ [look.stamp] := by
    rw [announced_round, if_pos announced]
  refine ⟨⟨selections ▸ held.inOrder, ?_, ?_⟩, ?_, ?_⟩
  · rw [selections, stamp]
    exact held.past
  · rw [more, stamp]
    exact List.forall_mem_append.mpr ⟨held.announced, List.forall_mem_singleton.mpr past⟩
  · rw [selections, more, service_round, last]
    refine (Settled.deal inOrder fun y mem => new y (List.mem_cons_of_mem _ mem)).imp ?_
    rintro y ⟨fresh, later⟩
    exact (isNew_snoc _ _ _).mpr ⟨fresh, later⟩
  · rw [more]
    exact (onlyNew_snoc _ _).mpr ⟨held.onlyNew, new look List.mem_cons_self⟩

theorem FilesHeld.files (held : d.FilesHeld host) {look : Look (List Path)}
    {rest : List (Look (List Path))} (queue : d.filesRx = look :: rest)
    (collected filled : Snapshot) :
    ({ d with filesRx := rest }.round host (.dispatch (.files look.value collected) filled)
      look.stamp {}).FilesHeld host := by
  obtain ⟨others, selections⟩ := held.take queue
  obtain ⟨s', step⟩ : ∃ s', s' = d.service.step host
    ⟨d.clock, .dispatch (.files look.value collected) filled⟩ := ⟨_, rfl⟩
  obtain ⟨clipboard, dealt⟩ := dispatchFiles_cases step
  have unwritten := State.writtenSince_of_same clipboard
  rw [step] at dealt unwritten
  have same := (selections_round_of_unwritten (d := { d with filesRx := rest }) unwritten
    look.stamp {}).1
  obtain ⟨silent, last⟩ | ⟨ne, last⟩ := dealt
  · refine others.of_silent silent ?_
    rw [same, last]
    exact others.settled
  · have new : ∀ y ∈ look :: ({ d with filesRx := rest } : Desktop).selections,
        IsNew (d.announced .files) y.stamp := by
      have settled := held.settled
      rw [selections] at settled
      exact settled.fresh_of_ne ne
    cases announced : d.service.announcedSince (d.service.step host
      ⟨d.clock, .dispatch (.files look.value collected) filled⟩) .files with
    | false =>
      refine others.of_silent announced ?_
      rw [same, last]
      exact .of_fresh fun y mem => new y (List.mem_cons_of_mem _ mem)
    | true =>
      exact others.of_announced announced unwritten last (selections ▸ held.inOrder)
        (held.past look (selections ▸ List.mem_cons_self)) new

theorem FilesHeld.step (held : d.FilesHeld host) (move : Move) (reports : d.ReportsFiles host move)
    (alone : d.StampsAlone host move) : (d.step host move).FilesHeld host := by
  cases move with
  | wait time => exact held.congr rfl rfl rfl rfl rfl
  | copy contents => exact held.copy (some contents)
  | tick readable beforeText beforeFiles => exact held.tick readable beforeText beforeFiles
  | text =>
    simp only [Desktop.step]
    split
    · exact held
    · next look rest queue =>
      have held' : ({ d with textRx := rest } : Desktop).FilesHeld host :=
        held.congr rfl rfl rfl rfl rfl
      refine held'.round_other rfl ?_ ?_
      · rw [State.announcedSince_dispatch]
        rfl
      · exact fun cmd written => (State.files?_of_writtenSince rfl written).symm
  | image =>
    simp only [Desktop.step]
    split
    · exact held
    · next look rest queue =>
      have held' : ({ d with imageRx := rest } : Desktop).FilesHeld host :=
        held.congr rfl rfl rfl rfl rfl
      refine held'.round_other rfl ?_ ?_
      · rw [State.announcedSince_dispatch]
        rfl
      · exact fun cmd written => (State.files?_of_writtenSince rfl written).symm
  | files collected filled =>
    simp only [Desktop.step]
    split
    · exact held
    · next queue => exact held.files queue collected filled
  | recover answered =>
    refine held.round_other rfl ?_ ?_
    · rw [State.announcedSince_recoverPush]
      rfl
    · exact fun cmd written => (State.files?_of_writtenSince rfl written).symm
  | serve action left =>
    simp only [Desktop.step]
    split
    · exact held
    · next own =>
      cases action with
      | dispatch | recoverPush => exact absurd rfl own
      | fileApplied reply => exact held.round_fileApplied alone reports
      | _ => exact held.round_other rfl (State.announcedSince_other host rfl _) reports

theorem filesHeld_start (host : Host) (toml : Option TomlClipboard) (files : Disk)
    (contents : Contents) : (start toml files contents).FilesHeld host := by
  have only : ∀ look ∈ (start toml files contents).selections, look.stamp = ⟨0, .copied⟩ := by
    intro look mem
    simp only [selections, current, start, List.nil_append, Option.mem_toList,
      Option.map_eq_some_iff] at mem
    obtain ⟨paths, -, rfl⟩ := mem
    rfl
  refine ⟨⟨?_, fun look mem => ?_, fun _ mem => absurd mem List.not_mem_nil⟩,
    .of_fresh fun look mem => ?_, onlyNew_nil⟩
  · simp only [selections, current, start, List.nil_append]
    cases contents.files with
    | none => exact List.Pairwise.nil
    | some paths => exact List.pairwise_singleton _ _
  · rw [only look mem]
    exact Nat.le_refl _
  · rw [only look mem]
    exact ⟨rfl, List.not_mem_nil⟩

end Step

/-- Whatever the order of the rounds, the looks and the copies: if the clipboard reports the files
that were set, and every batch is stamped while the looks that wait are at its files, then only
selections that the local user has just copied are announced, and no copy is announced twice. -/
theorem selections_announced_new (host : Host) (toml : Option TomlClipboard) (files : Disk)
    (contents : Contents) (moves : List Move)
    (reports : AllMeet (step host) (ReportsFiles host) (start toml files contents) moves)
    (alone : AllMeet (step host) (StampsAlone host) (start toml files contents) moves) :
    Always (step host) (fun d => OnlyNew (d.announced .files)) (start toml files contents) moves :=
  always_of_allMeet (FilesHeld host)
    (fun _ move held meets => held.step move meets.1 meets.2) (fun _ held => held.onlyNew)
    (filesHeld_start host toml files contents) (reports.and alone)

/-- A batch is put on the clipboard after a selection was announced, and is held back. -/
theorem selections_announced_new_batch :
    let host : Host :=
      ⟨fun bytes => Vector.replicate 32 (bytes.foldl (· + ·) 0), "/d".toList⟩
    let addr : SocketAddr := ⟨.v4 #v[192, 168, 0, 2], 2268⟩
    let files : Move := .files (fun _ => .ok { bytes := [1] }) fun _ => .ok { bytes := [1] }
    let arrives : Action := .inbound addr (.clipboardFiles
      ⟨Vector.replicate 32 9, [⟨"x", 1, "text/plain", Vector.replicate 32 1⟩]⟩) {}
    let turns : List Move :=
      List.replicate 8 (.serve (.fileTurn 0 { fetch := some (.ok (200, [1])) }) {})
    let moves : List Move := [.serve (.links (fun _ => true) fun _ => none) {},
      .serve (.connected addr) {}, .copy { files := some ["/a".toList] }, .tick {} none none, files,
      .serve arrives {}] ++ turns ++
      [.serve (.fileApplied .done) { files := some ["/d/x".toList] }, .tick {} none none, files]
    Always (step host) (fun d => OnlyNew (d.announced .files)) (start none .empty {}) moves ∧
      (run (step host) (start none .empty {}) moves).announced .files = [⟨1, .copied⟩] ∧
      (run (step host) (start none .empty {}) moves).stamp =
        ⟨2, .written (.setFiles ["/d/x".toList])⟩ := by
  intro host addr files arrives turns moves
  exact ⟨selections_announced_new host none .empty {} moves (by decide +kernel)
    (by decide +kernel), by decide +kernel⟩

/-- A look at an announced selection is waiting when a batch is put on the clipboard: the selection
goes out again, and then the batch. The selection also goes out again when the clipboard has not
taken the batch. -/
theorem selections_announced_again :
    let host : Host :=
      ⟨fun bytes => Vector.replicate 32 (bytes.foldl (· + ·) 0), "/d".toList⟩
    let addr : SocketAddr := ⟨.v4 #v[192, 168, 0, 2], 2268⟩
    let files : Move := .files (fun _ => .ok { bytes := [1] }) fun _ => .ok { bytes := [1] }
    let tick : Move := .tick {} none none
    let arrives : Action := .inbound addr (.clipboardFiles
      ⟨Vector.replicate 32 9, [⟨"x", 1, "text/plain", Vector.replicate 32 1⟩]⟩) {}
    let turns : List Move :=
      List.replicate 8 (.serve (.fileTurn 0 { fetch := some (.ok (200, [1])) }) {})
    let landed : List Move := [.serve (.links (fun _ => true) fun _ => none) {},
      .serve (.connected addr) {}, .copy { files := some ["/a".toList] }, tick, files,
      .serve arrives {}] ++ turns
    let late := landed ++ [tick, .serve (.fileApplied .done) { files := some ["/d/x".toList] },
      files, tick, files]
    let refused := landed ++ [.serve (.fileApplied (.failed "")) {}, tick, files]
    let final (moves : List Move) : Desktop := run (step host) (start none .empty {}) moves
    (AllMeet (step host) (ReportsFiles host) (start none .empty {}) late ∧
        (final late).announced .files = [⟨1, .copied⟩, ⟨1, .copied⟩,
          ⟨2, .written (.setFiles ["/d/x".toList])⟩] ∧ ¬ OnlyNew ((final late).announced .files)) ∧
      AllMeet (step host) (ReportsFiles host) (start none .empty {}) refused ∧
        (final refused).announced .files = [⟨1, .copied⟩, ⟨1, .copied⟩] ∧
        ¬ OnlyNew ((final refused).announced .files) := by
  decide +kernel

end Desktop

end LanMouse.Sync
