import LanMouse.Sync.Service

/-!
# What the handlers change

Each handler of the service changes a few fields of the state. The lemmas say which, and what must
be the case when it writes to the local clipboard; nothing else about a handler is used later.
-/
namespace LanMouse.Sync

open Proto UnixPath Client Clipboard Files

theorem ImageTask.command_cases (t : ImageTask) (bytes : List UInt8) :
    (∃ mime, t.command bytes = .setImage bytes mime) ∨ t.command bytes = .setDibImage bytes := by
  unfold ImageTask.command
  split
  · exact .inr rfl
  · exact .inl ⟨_, rfl⟩

/-- An image task writes its image when it has it and the backend takes it. -/
theorem ImageTask.command_turn {sha256 : List UInt8 → Hash} {t : ImageTask} {a : ImageAnswers}
    {cmd : BackendCmd} (writes : (t.turn sha256 a).2.1 = some cmd) :
    ∃ bytes, t.phase = .setting bytes ∧ a.set = .done ∧ cmd = t.command bytes := by
  unfold ImageTask.turn at writes
  split at writes
  · split at writes
    · cases writes
    · split at writes <;> cases writes
    · cases writes
  · next bytes phase =>
    split at writes
    · cases writes
    · cases writes
    · cases writes
    · next done =>
      cases writes
      exact ⟨bytes, phase, done, rfl⟩
  · split at writes <;> cases writes
  · cases writes

theorem batchFingerprint_of_mem {cf : ClipboardFiles} {addr : SocketAddr} {acceptDir : Path}
    {keepPartial : Bool} {job : Job}
    (mem : job ∈ Files.handleClipboardInboundFiles cf addr acceptDir keepPartial) :
    job.batchFingerprint = cf.fingerprint := by
  unfold Files.handleClipboardInboundFiles at mem
  split at mem
  · obtain ⟨entry, -, rfl⟩ := List.mem_map.mp mem
    rfl
  · cases mem
  · cases mem

namespace State

/-- The text is not one of the last ones, its bytes are to be had, and the backend takes them. -/
def appliesText (s : State) (now : Nat) (addr : SocketAddr) (ct : ClipboardText)
    (a : InboundAnswers) : Bool :=
  !(s.dispatcher.clipboardLru.contains now ct.sha256).1 && a.set = .done &&
    (ct.contentInline.isSome || (s.peerConnectionForAddr addr).isSome &&
      (match a.get with
        | .ok (status, _) => status = 200
        | .error _ => false))

/-- The reason not to put a batch on the clipboard, as the service finds it. -/
abbrev skipReason (host : Host) (s : State) (fp : Hash) (received : List InboundFileApplyResult) :
    Option ReinjectSkipReason :=
  decideReinjectSkip (s.config host).enabled (s.config host).injectToClipboard
    s.dispatcher.lastOutboundFilesFingerprint fp received

/-! ### Texts and images -/

theorem applyText_eq (s : State) (now : Nat) (sha : Hash) (bytes : List UInt8) (reply : CmdReply) :
    ∃ (dispatcher : Dispatcher) (written : Option String),
      s.applyInboundClipboardText now sha bytes reply =
        { s with dispatcher, clipboard := s.clipboard ++ written.toList.map .setText } ∧
      (written.isSome → reply = .done) := by
  cases reply with
  | done => exact ⟨_, some (fromUtf8Lossy bytes), rfl, fun _ => rfl⟩
  | gone | closed | failed =>
    refine ⟨(s.applyInboundClipboardText now sha bytes .gone).dispatcher, none, ?_, nofun⟩
    simp [applyInboundClipboardText]

theorem inboundText_eq (s : State) (now : Nat) (ct : ClipboardText) (addr : SocketAddr)
    (a : InboundAnswers) :
    ∃ (dispatcher : Dispatcher) (requests : List (Recipient × Route × Hash))
      (written : Option String), s.handleClipboardInboundText now ct addr a =
        { s with dispatcher, requests, clipboard := s.clipboard ++ written.toList.map .setText } ∧
      (written.isSome → s.appliesText now addr ct a) := by
  have unwritten : ∀ (dispatcher : Dispatcher) (requests : List (Recipient × Route × Hash)),
      ∃ (dispatcher' : Dispatcher) (requests' : List (Recipient × Route × Hash))
        (written : Option String), ({ s with dispatcher, requests } : State) =
          { s with
            dispatcher := dispatcher', requests := requests'
            clipboard := s.clipboard ++ written.toList.map .setText } ∧
        (written.isSome → s.appliesText now addr ct a) := fun dispatcher requests =>
    ⟨dispatcher, requests, none, by simp, nofun⟩
  simp only [handleClipboardInboundText]
  split
  · exact unwritten _ s.requests
  · next unseen =>
    split
    · next content inline_ =>
      obtain ⟨dispatcher, written, eq, done⟩ := applyText_eq
        { s with dispatcher := { s.dispatcher with
          clipboardLru := (s.dispatcher.clipboardLru.contains now ct.sha256).2 } }
        now ct.sha256 content a.set
      refine ⟨dispatcher, s.requests, written, eq, fun some_ => ?_⟩
      simp [appliesText, unseen, done some_, inline_]
    · next inline_ =>
      split
      · exact unwritten _ s.requests
      · next conn connected =>
        split
        · next status body got =>
          split
          · next ok =>
            obtain ⟨dispatcher, written, eq, done⟩ := applyText_eq
              { s with
                dispatcher := { s.dispatcher with
                  clipboardLru := (s.dispatcher.clipboardLru.contains now ct.sha256).2 }
                requests := s.requests ++ [(conn, .text, ct.sha256)] }
              now ct.sha256 body a.set
            refine ⟨dispatcher, _, written, eq, fun some_ => ?_⟩
            have connected' : s.peerConnectionForAddr addr = some conn := connected
            simp [appliesText, unseen, done some_, connected', got, ok]
          · exact unwritten _ _
        · exact unwritten _ _

theorem inboundImage_eq (s : State) (now : Nat) (ci : ClipboardImage) (addr : SocketAddr) :
    ∃ (dispatcher : Dispatcher) (imageTasks : List ImageTask)
      (requests : List (Recipient × Route × Hash)),
      s.handleClipboardInboundImage now ci addr = { s with dispatcher, imageTasks, requests } := by
  simp only [handleClipboardInboundImage]
  split
  · exact ⟨_, _, _, rfl⟩
  · split <;> exact ⟨_, _, _, rfl⟩

theorem imageApplied_eq (s : State) (now : Nat) (result : InboundImageApplyResult) :
    ∃ dispatcher : Dispatcher,
      s.handleInboundImageApplied now result = { s with dispatcher } := by
  unfold handleInboundImageApplied
  split <;> exact ⟨_, rfl⟩

theorem imageTurn_eq (host : Host) (s : State) (i : Nat) (a : ImageAnswers) :
    ∃ (imageTasks : List ImageTask) (imagesApplied : List InboundImageApplyResult)
      (written : Option BackendCmd), s.imageTurn host i a =
        { s with imageTasks, imagesApplied, clipboard := s.clipboard ++ written.toList } ∧
      ∀ cmd ∈ written, ∃ t bytes, s.imageTasks[i]? = some t ∧ t.phase = .setting bytes ∧
        a.set = .done ∧ cmd = t.command bytes := by
  unfold imageTurn
  split
  · exact ⟨s.imageTasks, s.imagesApplied, none, by simp, nofun⟩
  · next t found =>
    refine ⟨_, _, _, rfl, fun cmd writes => ?_⟩
    obtain ⟨bytes, phase, done, eq⟩ := ImageTask.command_turn writes
    exact ⟨t, bytes, found, phase, done, eq⟩

/-! ### Files -/

/-- A selection is skipped, or its tasks are spawned. -/
theorem inboundFiles_eq (host : Host) (s : State) (now : Nat) (cf : ClipboardFiles)
    (addr : SocketAddr) (a : InboundAnswers) :
    ∃ fileLruFingerprints : LruFingerprints,
      s.handleClipboardInboundFiles host now cf addr a = { s with fileLruFingerprints } ∨
      ∃ jobs conn, jobs ≠ [] ∧ (∀ job ∈ jobs, job.batchFingerprint = cf.fingerprint) ∧
        s.handleClipboardInboundFiles host now cf addr a =
          { s with fileLruFingerprints }.spawnFiles cf jobs conn := by
  refine ⟨(s.fileLruFingerprints.contains now cf.fingerprint).2, ?_⟩
  simp only [handleClipboardInboundFiles]
  split
  · exact .inl rfl
  · split
    · exact .inl rfl
    · next some_ =>
      split
      · exact .inl rfl
      · split
        · exact .inr ⟨_, _, some_, fun _ => batchFingerprint_of_mem, rfl⟩
        · exact .inl rfl

/-- A complete collector puts its paths on the clipboard, or does not. -/
theorem maybeInject_eq (host : Host) (s : State) (fp : Hash) (c : FileSetCollector)
    (reply : CmdReply) :
    ∃ (dispatcher : Dispatcher) (inject : Bool), s.maybeInjectFilesToClipboard host fp c reply =
      { s with
        dispatcher
        clipboard :=
          if inject then s.clipboard ++ [.setFiles (c.received.filterMap (·.landedPath))]
          else s.clipboard
        injections :=
          if inject then s.injections ++ [(c.batch, c.received.filterMap (·.landedPath))]
          else s.injections } ∧
      (inject → reply = .done ∧ s.skipReason host fp c.received = none) := by
  simp only [maybeInjectFilesToClipboard]
  split
  · exact ⟨_, false, rfl, nofun⟩
  · next unskipped =>
    split
    · exact ⟨_, false, rfl, nofun⟩
    · split
      · exact ⟨_, true, rfl, fun _ => ⟨rfl, unskipped⟩⟩
      · exact ⟨_, false, rfl, nofun⟩

/-- The report goes to its collector. -/
theorem filesApplied_eq (host : Host) (s : State) (now : Nat) (result : InboundFileApplyResult)
    (reply : CmdReply) :
    ∃ fileLruFingerprints : LruFingerprints, s.handleInboundFilesApplied host now result reply =
      { s with fileLruFingerprints }.collect host result reply := by
  unfold handleInboundFilesApplied
  split <;> exact ⟨_, rfl⟩

end State

end LanMouse.Sync
