import LanMouse.Sync.Desktop

/-!
# What the service has marked

The loopback lists of the service hold what is left of the marks that were made, whatever happens
between the marks. So in every state of a run a list finds a hash just if it was marked lately.
-/
namespace LanMouse.Sync

open Proto UnixPath Client Clipboard Files Transition

section Dispatcher

variable (d : Dispatcher) (now : Nat)

@[simp] theorem clipboardLru_complete (filled : Snapshot) (fill : Fill) :
    (d.complete now filled fill).clipboardLru = d.clipboardLru := by
  cases fill <;> rfl

@[simp] theorem imageLru_complete (filled : Snapshot) (fill : Fill) :
    (d.complete now filled fill).imageLruFingerprints = d.imageLruFingerprints := by
  cases fill <;> rfl

@[simp] theorem clipboardLru_settle (filled : Snapshot) (out : Outcome) :
    (settle now filled out).clipboardLru = out.dispatcher.clipboardLru := by
  unfold settle
  split
  · exact clipboardLru_complete _ _ _ _
  · rfl

@[simp] theorem imageLru_settle (filled : Snapshot) (out : Outcome) :
    (settle now filled out).imageLruFingerprints = out.dispatcher.imageLruFingerprints := by
  unfold settle
  split
  · exact imageLru_complete _ _ _ _
  · rfl

variable (sha256 : List UInt8 → Hash)

theorem clipboardLru_dispatchImage (image : ImageBytes) :
    (d.dispatchImage sha256 now image).dispatcher.clipboardLru = d.clipboardLru := by
  simp only [Dispatcher.dispatchImage]
  split
  · rfl
  · split <;> rfl

theorem imageLru_dispatchImage (image : ImageBytes) :
    (d.dispatchImage sha256 now image).dispatcher.imageLruFingerprints =
      (d.imageLruFingerprints.contains now (sha256 image.data)).2 := by
  simp only [Dispatcher.dispatchImage]
  split
  · rfl
  · split <;> rfl

theorem dispatchFiles_lists (snapshot : Snapshot) (maxSize : Nat) (paths : List Path) :
    (d.dispatchFiles sha256 snapshot maxSize paths).dispatcher.clipboardLru = d.clipboardLru ∧
      (d.dispatchFiles sha256 snapshot maxSize paths).dispatcher.imageLruFingerprints =
        d.imageLruFingerprints := by
  unfold Dispatcher.dispatchFiles
  split <;> exact ⟨rfl, rfl⟩

theorem imageLru_dispatchText (text : String) :
    (d.dispatchText sha256 now text).dispatcher.imageLruFingerprints = d.imageLruFingerprints := by
  simp only [Dispatcher.dispatchText]
  split
  · rfl
  · split <;> rfl

end Dispatcher

namespace State

variable {host : Host} {s : State} {now : Nat}

/-- A report that completes its collector may stamp the selection, and does nothing else to the
dispatcher. -/
theorem collect_lists (host : Host) (s : State) (result : InboundFileApplyResult)
    (reply : CmdReply) :
    ∃ fingerprint : Option Hash, (s.collect host result reply).dispatcher =
        { s.dispatcher with lastOutboundFilesFingerprint := fingerprint } ∧
      (s.collect host result reply).fileLruFingerprints = s.fileLruFingerprints := by
  simp only [collect]
  split
  · exact ⟨_, rfl, rfl⟩
  · split
    · exact ⟨_, rfl, rfl⟩
    · simp only [maybeInjectFilesToClipboard]
      split
      · exact ⟨_, rfl, rfl⟩
      · split
        · exact ⟨_, rfl, rfl⟩
        · split <;> exact ⟨_, rfl, rfl⟩

theorem inboundFiles_lists (host : Host) (s : State) (now : Nat) (cf : ClipboardFiles)
    (addr : SocketAddr) (a : InboundAnswers) :
    (s.handleClipboardInboundFiles host now cf addr a).dispatcher = s.dispatcher ∧
      (s.handleClipboardInboundFiles host now cf addr a).fileLruFingerprints =
        (s.fileLruFingerprints.contains now cf.fingerprint).2 := by
  simp only [handleClipboardInboundFiles]
  split
  · exact ⟨rfl, rfl⟩
  · split
    · exact ⟨rfl, rfl⟩
    · split
      · exact ⟨rfl, rfl⟩
      · split <;> exact ⟨rfl, rfl⟩

theorem clipboardLru_applyText (s : State) (sha : Hash) (bytes : List UInt8) (reply : CmdReply) :
    (s.applyInboundClipboardText now sha bytes reply).dispatcher.clipboardLru =
      s.dispatcher.clipboardLru.push now sha := by
  cases reply <;> rfl

theorem clipboardLru_imageApplied (s : State) (now : Nat) (result : InboundImageApplyResult) :
    (s.handleInboundImageApplied now result).dispatcher.clipboardLru =
      s.dispatcher.clipboardLru := by
  unfold handleInboundImageApplied
  split <;> rfl

theorem clipboardLru_inboundText (s : State) (now : Nat) (ct : ClipboardText) (addr : SocketAddr)
    (a : InboundAnswers) :
    (s.handleClipboardInboundText now ct addr a).dispatcher.clipboardLru =
      if s.marksText now addr ct a then
        (s.dispatcher.clipboardLru.contains now ct.sha256).2.push now ct.sha256
      else (s.dispatcher.clipboardLru.contains now ct.sha256).2 := by
  obtain ⟨get, set, dirCreated⟩ := a
  have connection : ∀ dispatcher : Dispatcher,
      ({ s with dispatcher } : State).peerConnectionForAddr addr = s.peerConnectionForAddr addr :=
    fun _ => rfl
  cases seen : (s.dispatcher.clipboardLru.contains now ct.sha256).1 with
  | true => simp [handleClipboardInboundText, marksText, seen]
  | false =>
    cases inline_ : ct.contentInline with
    | some content =>
      simp [handleClipboardInboundText, marksText, seen, inline_, clipboardLru_applyText]
    | none =>
      cases connected : s.peerConnectionForAddr addr with
      | none => simp [handleClipboardInboundText, marksText, seen, inline_, connection, connected]
      | some conn =>
        simp only [handleClipboardInboundText, marksText, seen, inline_, connection, connected]
        cases get with
        | error e => rfl
        | ok answer =>
          by_cases ok : answer.1 = 200
          · simp [ok, clipboardLru_applyText]
          · simp [ok]

/-- An inbound text does nothing to the dispatcher but to what it remembers of texts. -/
theorem inboundText_lists (s : State) (now : Nat) (ct : ClipboardText) (addr : SocketAddr)
    (a : InboundAnswers) :
    (∃ (clipboardLru : LruFingerprints) (clipboardLastText : Option String),
      (s.handleClipboardInboundText now ct addr a).dispatcher =
        { s.dispatcher with clipboardLru, clipboardLastText }) ∧
      (s.handleClipboardInboundText now ct addr a).fileLruFingerprints =
        s.fileLruFingerprints := by
  have applied : ∀ (s' : State) (lru : LruFingerprints) (sha : Hash) (bytes : List UInt8)
      (reply : CmdReply), s'.dispatcher = { s.dispatcher with clipboardLru := lru } →
      (∃ (clipboardLru : LruFingerprints) (clipboardLastText : Option String),
        (s'.applyInboundClipboardText now sha bytes reply).dispatcher =
          { s.dispatcher with clipboardLru, clipboardLastText }) ∧
        (s'.applyInboundClipboardText now sha bytes reply).fileLruFingerprints =
          s'.fileLruFingerprints := by
    intro s' lru sha bytes reply same
    refine ⟨?_, by cases reply <;> rfl⟩
    cases reply <;> simp only [applyInboundClipboardText, same] <;> exact ⟨_, _, rfl⟩
  simp only [handleClipboardInboundText]
  split
  · exact ⟨⟨_, _, rfl⟩, rfl⟩
  · split
    · exact applied _ _ _ _ _ rfl
    · split
      · exact ⟨⟨_, _, rfl⟩, rfl⟩
      · split
        · split
          · exact applied _ _ _ _ _ rfl
          · exact ⟨⟨_, _, rfl⟩, rfl⟩
        · exact ⟨⟨_, _, rfl⟩, rfl⟩

section Keeps

variable {capacity ttl : Nat} {marks : List (Nat × Hash)} (some_ : 0 < capacity)

include some_

theorem keeps_dispatchText (sha256 : List UInt8 → Hash) {d : Dispatcher}
    (keeps : d.clipboardLru.Keeps capacity ttl now marks) (t : String) :
    (d.dispatchText sha256 now t).dispatcher.clipboardLru.Keeps capacity ttl now
      (marks ++ (if (d.dispatchText sha256 now t).events.isEmpty then []
        else [sha256 (asBytes t)]).map (now, ·)) := by
  simp only [Dispatcher.dispatchText]
  split
  · simpa using keeps
  · split
    · simpa using keeps.contains _
    · exact (keeps.contains (sha256 (asBytes t))).push some_ _

theorem keeps_inboundText (keeps : s.dispatcher.clipboardLru.Keeps capacity ttl now marks)
    (ct : ClipboardText) (addr : SocketAddr) (a : InboundAnswers) :
    (s.handleClipboardInboundText now ct addr a).dispatcher.clipboardLru.Keeps capacity ttl now
      (marks ++ (if s.marksText now addr ct a then [ct.sha256] else []).map (now, ·)) := by
  rw [clipboardLru_inboundText]
  split
  · exact (keeps.contains ct.sha256).push some_ _
  · rw [List.map_nil, List.append_nil]
    exact keeps.contains ct.sha256

theorem keeps_imageApplied
    (keeps : s.dispatcher.imageLruFingerprints.Keeps capacity ttl now marks)
    (result : InboundImageApplyResult) :
    (s.handleInboundImageApplied now result).dispatcher.imageLruFingerprints.Keeps capacity ttl now
      (marks ++ (if result.success then result.inboundSha :: result.postWriteSha.toList
        else []).map (now, ·)) := by
  have first := keeps.push some_ result.inboundSha
  unfold handleInboundImageApplied
  split
  · cases result.postWriteSha with
    | none => exact first
    | some sha =>
      have second := first.push some_ sha
      rw [List.append_assoc] at second
      exact second
  · simpa using keeps

end Keeps

/-- What a round marks in the file list. -/
def fileMarks (s : State) (action : Action) : List Hash :=
  ((s.takenUp action).filter (·.2.success)).map (·.2.inboundSha)

/-- The three lists have what is left of the marks. -/
structure ListsKeep (s : State) (now : Nat) (texts images files : List (Nat × Hash)) : Prop where
  texts : s.dispatcher.clipboardLru.Keeps LruFingerprints.defaultCapacity
    LruFingerprints.defaultTtl now texts
  images : s.dispatcher.imageLruFingerprints.Keeps imageLoopbackCapacity imageLoopbackTtl now images
  files : s.fileLruFingerprints.Keeps fileLoopbackCapacity fileLoopbackTtl now files

theorem listsKeep_start (toml : Option TomlClipboard) (files : Disk) (now : Nat) :
    (start toml files).ListsKeep now [] [] [] :=
  ⟨LruFingerprints.keeps_withCapacityAndTtl _ _ _, LruFingerprints.keeps_withCapacityAndTtl _ _ _,
    LruFingerprints.keeps_withCapacityAndTtl _ _ _⟩

section ListsKeep

variable {texts images files : List (Nat × Hash)}

theorem ListsKeep.later (keep : s.ListsKeep now texts images files) {later : Nat}
    (le : now ≤ later) : s.ListsKeep later texts images files :=
  ⟨keep.texts.later le, keep.images.later le, keep.files.later le⟩

theorem ListsKeep.unmarked (keep : s.ListsKeep now texts images files) {s' : State}
    (textList : s'.dispatcher.clipboardLru = s.dispatcher.clipboardLru)
    (imageList : s'.dispatcher.imageLruFingerprints = s.dispatcher.imageLruFingerprints)
    (fileList : s'.fileLruFingerprints = s.fileLruFingerprints) :
    s'.ListsKeep now (texts ++ ([] : List Hash).map (now, ·))
      (images ++ ([] : List Hash).map (now, ·)) (files ++ ([] : List Hash).map (now, ·)) :=
  ⟨textList ▸ keep.texts.unmarked, imageList ▸ keep.images.unmarked,
    fileList ▸ keep.files.unmarked⟩

theorem ListsKeep.fileApplied (keep : s.ListsKeep now texts images files)
    (result : InboundFileApplyResult) (reply : CmdReply) :
    (s.handleInboundFilesApplied host now result reply).ListsKeep now texts images
      (files ++ (if result.success then [(now, result.inboundSha)] else [])) := by
  unfold handleInboundFilesApplied
  split
  · obtain ⟨fingerprint, dispatcher, list⟩ := collect_lists host
      { s with fileLruFingerprints := s.fileLruFingerprints.push now result.inboundSha } result
      reply
    refine ⟨?_, ?_, ?_⟩
    · rw [dispatcher]
      exact keep.texts
    · rw [dispatcher]
      exact keep.images
    · rw [list]
      exact keep.files.push (by decide) _
  · obtain ⟨fingerprint, dispatcher, list⟩ := collect_lists host s result reply
    refine ⟨?_, ?_, ?_⟩
    · rw [dispatcher]
      exact keep.texts
    · rw [dispatcher]
      exact keep.images
    · rw [list, List.append_nil]
      exact keep.files

/-- The lists after a round, with what it marks. -/
abbrev ListsKeepAfter (host : Host) (s : State) (now : Nat) (texts images files : List (Nat × Hash))
    (action : Action) : Prop :=
  (s.step host ⟨now, action⟩).ListsKeep now (texts ++ (s.textMarks host now action).map (now, ·))
    (images ++ (s.imageMarks action).map (now, ·)) (files ++ (s.fileMarks action).map (now, ·))

theorem ListsKeep.dispatch (keep : s.ListsKeep now texts images files) (content : Content)
    (filled : Snapshot) :
    ListsKeepAfter host s now texts images files (.dispatch content filled) := by
  simp only [ListsKeepAfter, State.step, act, push, Dispatcher.dispatch]
  cases content with
  | text t =>
    refine ⟨?_, ?_, keep.files.unmarked⟩
    · rw [clipboardLru_settle]
      exact keeps_dispatchText (by decide) host.sha256 keep.texts t
    · rw [imageLru_settle, imageLru_dispatchText]
      exact keep.images.unmarked
  | image image =>
    refine ⟨?_, ?_, keep.files.unmarked⟩
    · rw [clipboardLru_settle, clipboardLru_dispatchImage]
      exact keep.texts.unmarked
    · rw [imageLru_settle, imageLru_dispatchImage]
      exact (keep.images.contains _).unmarked
  | files paths collected =>
    refine ⟨?_, ?_, keep.files.unmarked⟩
    · rw [clipboardLru_settle, (dispatchFiles_lists ..).1]
      exact keep.texts.unmarked
    · rw [imageLru_settle, (dispatchFiles_lists ..).2]
      exact keep.images.unmarked

theorem ListsKeep.inbound (keep : s.ListsKeep now texts images files) (addr : SocketAddr)
    (event : ProtoEvent) (a : InboundAnswers) :
    ListsKeepAfter host s now texts images files (.inbound addr event a) := by
  cases event with
  | clipboardText ct =>
    obtain ⟨⟨lru, text, dispatcher⟩, fileList⟩ := s.inboundText_lists now ct addr a
    simp only [ListsKeepAfter, State.step, act, handleClipboardInbound]
    refine ⟨keeps_inboundText (by decide) keep.texts ct addr a, ?_, ?_⟩
    · rw [dispatcher]
      exact keep.images.unmarked
    · rw [fileList]
      exact keep.files.unmarked
  | clipboardImage ci =>
    simp only [ListsKeepAfter, State.step, act, handleClipboardInbound, handleClipboardInboundImage]
    have images := (keep.images.contains ci.sha256).unmarked
    split
    · exact ⟨keep.texts.unmarked, images, keep.files.unmarked⟩
    · split <;> exact ⟨keep.texts.unmarked, images, keep.files.unmarked⟩
  | clipboardFiles cf =>
    obtain ⟨dispatcher, list⟩ := s.inboundFiles_lists host now cf addr a
    simp only [ListsKeepAfter, State.step, act, handleClipboardInbound]
    refine ⟨?_, ?_, ?_⟩
    · rw [dispatcher]
      exact keep.texts.unmarked
    · rw [dispatcher]
      exact keep.images.unmarked
    · rw [list]
      exact (keep.files.contains _).unmarked
  | _ => exact keep.unmarked rfl rfl rfl

theorem ListsKeep.imageApplied (keep : s.ListsKeep now texts images files) :
    ListsKeepAfter host s now texts images files .imageApplied := by
  cases queue : s.imagesApplied with
  | nil =>
    simp only [ListsKeepAfter, State.step, act, State.imageMarks, queue]
    exact keep.unmarked rfl rfl rfl
  | cons result rest =>
    simp only [ListsKeepAfter, State.step, act, State.imageMarks, queue]
    refine ⟨?_, keeps_imageApplied (s := { s with imagesApplied := rest }) (by decide)
      keep.images result, ?_⟩
    · rw [clipboardLru_imageApplied]
      exact keep.texts.unmarked
    · obtain ⟨dispatcher, eq⟩ := imageApplied_eq { s with imagesApplied := rest } now result
      rw [eq]
      exact keep.files.unmarked

theorem ListsKeep.reported (keep : s.ListsKeep now texts images files) (reply : CmdReply) :
    ListsKeepAfter host s now texts images files (.fileApplied reply) := by
  cases queue : s.filesApplied with
  | nil =>
    simp only [ListsKeepAfter, State.step, act, State.fileMarks, State.takenUp, queue]
    exact keep.unmarked rfl rfl rfl
  | cons first rest =>
    obtain ⟨i, result⟩ := first
    have applied : ({ s with filesApplied := rest }.handleInboundFilesApplied host now result
        reply).ListsKeep now texts images
        (files ++ (if result.success then [(now, result.inboundSha)] else [])) :=
      ListsKeep.fileApplied (s := { s with filesApplied := rest })
        ⟨keep.texts, keep.images, keep.files⟩ result reply
    simp only [ListsKeepAfter, State.step, act, State.fileMarks, State.takenUp, queue]
    refine ⟨applied.texts.unmarked, applied.images.unmarked, ?_⟩
    convert applied.files using 2
    cases success : result.success <;> simp [success]

theorem ListsKeep.step (keep : s.ListsKeep now texts images files) (action : Action) :
    ListsKeepAfter host s now texts images files action := by
  cases action with
  | dispatch content filled => exact keep.dispatch content filled
  | recoverPush text =>
    simp only [ListsKeepAfter, State.step, act, push]
    cases text with
    | none => exact keep.unmarked rfl rfl rfl
    | some text =>
      exact ⟨keep.texts.push (by decide) _, keep.images.unmarked, keep.files.unmarked⟩
  | inbound addr event a => exact keep.inbound addr event a
  | imageTurn i a =>
    obtain ⟨imageTasks, imagesApplied, written, eq, -⟩ := s.imageTurn_eq host i a
    simp only [ListsKeepAfter, State.step, act, eq]
    exact keep.unmarked rfl rfl rfl
  | imageApplied => exact keep.imageApplied
  | fileApplied reply => exact keep.reported reply
  | get who route sha =>
    simp only [ListsKeepAfter, State.step, act, Dispatcher.get]
    cases route <;> exact keep.unmarked rfl rfl rfl
  | _ => exact keep.unmarked rfl rfl rfl

end ListsKeep

end State

/-! ### The desktop -/

namespace Desktop

section Round

variable (host : Host) (d : Desktop) (action : Action) (stamp : Stamp) (left : Contents)

/-- A round changes the clipboard only by what it writes. -/
theorem round_eq : ∃ (contents : Contents) (stamp' : Stamp), d.round host action stamp left =
    { d with
      service := d.service.step host ⟨d.clock, action⟩
      announced := fun k =>
        if d.service.announcedSince (d.service.step host ⟨d.clock, action⟩) k then
          d.announced k ++ [stamp]
        else d.announced k
      textMarks := d.textMarks ++ (d.service.textMarks host d.clock action).map (d.clock, ·)
      imageMarks := d.imageMarks ++ (d.service.imageMarks action).map (d.clock, ·)
      reports := d.reports ++ (d.service.takenUp action).map (d.clock, ·)
      contents
      stamp := stamp' } := by
  simp only [round]
  split <;> exact ⟨_, _, rfl⟩

@[simp] theorem service_round :
    (d.round host action stamp left).service = d.service.step host ⟨d.clock, action⟩ := by
  obtain ⟨contents, stamp', eq⟩ := d.round_eq host action stamp left
  rw [eq]

theorem announced_round (k : Kind) : (d.round host action stamp left).announced k =
    if d.service.announcedSince (d.service.step host ⟨d.clock, action⟩) k then
      d.announced k ++ [stamp]
    else d.announced k := by
  obtain ⟨contents, stamp', eq⟩ := d.round_eq host action stamp left
  rw [eq]

end Round

/-- The hashes that were marked in the file list. -/
def fileMarks (d : Desktop) : List (Nat × Hash) :=
  (d.reports.filter (·.2.2.success)).map fun report => (report.1, report.2.2.inboundSha)

/-- The lists of the service have what is left of the marks. -/
def Marked (d : Desktop) : Prop :=
  d.service.ListsKeep d.clock d.textMarks d.imageMarks d.fileMarks

variable {host : Host} {d : Desktop}

theorem Marked.round (marked : d.Marked) (action : Action) (stamp : Stamp) (left : Contents) :
    (d.round host action stamp left).Marked := by
  have files : (d.reports ++ (d.service.takenUp action).map (d.clock, ·)).filter (·.2.2.success) =
      d.reports.filter (·.2.2.success) ++
        ((d.service.takenUp action).filter (·.2.success)).map (d.clock, ·) := by
    rw [List.filter_append, List.filter_map]
    rfl
  obtain ⟨contents, stamp', eq⟩ := d.round_eq host action stamp left
  rw [eq]
  have keep : (d.service.step host ⟨d.clock, action⟩).ListsKeep d.clock _ _ _ :=
    State.ListsKeep.step marked action
  simp only [State.fileMarks, List.map_map] at keep
  simp only [Marked, fileMarks, files, List.map_append, List.map_map]
  exact keep

/-- Only the clipboard and the channels of the poller differ. -/
structure Aside (d d' : Desktop) : Prop where
  service : d'.service = d.service
  clock : d'.clock = d.clock
  announced : d'.announced = d.announced
  textMarks : d'.textMarks = d.textMarks
  imageMarks : d'.imageMarks = d.imageMarks
  reports : d'.reports = d.reports

theorem Aside.rfl : Aside d d := ⟨Eq.refl _, Eq.refl _, Eq.refl _, Eq.refl _, Eq.refl _, Eq.refl _⟩

theorem Aside.trans {d' d'' : Desktop} (first : Aside d d') (second : Aside d' d'') :
    Aside d d'' where
  service := second.service.trans first.service
  clock := second.clock.trans first.clock
  announced := second.announced.trans first.announced
  textMarks := second.textMarks.trans first.textMarks
  imageMarks := second.imageMarks.trans first.imageMarks
  reports := second.reports.trans first.reports

theorem aside_copy (contents : Option Contents) : Aside d (d.copy contents) := by
  cases contents <;> exact ⟨rfl, rfl, rfl, rfl, rfl, rfl⟩

theorem aside_lookText (readable : Bool) : Aside d (d.lookText readable) := by
  unfold lookText
  split
  · split <;> exact ⟨rfl, rfl, rfl, rfl, rfl, rfl⟩
  · exact .rfl

theorem aside_lookImage (readable : Bool) : Aside d (d.lookImage readable) := by
  unfold lookImage
  split
  · split <;> exact ⟨rfl, rfl, rfl, rfl, rfl, rfl⟩
  · exact .rfl

theorem aside_lookFiles (readable : Bool) : Aside d (d.lookFiles readable) := by
  unfold lookFiles
  split
  · split <;> exact ⟨rfl, rfl, rfl, rfl, rfl, rfl⟩
  · exact .rfl

/-- The poller and the user do nothing to the service. -/
theorem aside_tick (readable : Readable) (beforeText beforeFiles : Option Contents) :
    Aside d (d.tick readable beforeText beforeFiles) := by
  have first : Aside d ((d.lookImage readable.image).copy beforeText) :=
    (aside_lookImage _).trans (aside_copy _)
  simp only [tick]
  split
  · exact (first.trans (aside_copy _)).trans (aside_lookFiles _)
  · exact ((first.trans (aside_lookText _)).trans (aside_copy _)).trans (aside_lookFiles _)

theorem Marked.aside (marked : d.Marked) {d' : Desktop} (aside : Aside d d') : d'.Marked := by
  simp only [Marked, fileMarks, aside.service, aside.clock, aside.textMarks, aside.imageMarks,
    aside.reports]
  exact marked

theorem Marked.step (marked : d.Marked) (move : Move) : (d.step host move).Marked := by
  cases move with
  | wait time => exact State.ListsKeep.later marked (Nat.le_add_right _ _)
  | copy contents => exact marked.aside (aside_copy (some contents))
  | tick readable beforeText beforeFiles => exact marked.aside (aside_tick ..)
  | text =>
    simp only [Desktop.step]
    split
    · exact marked
    · next rest _ =>
      have marked' : ({ d with textRx := rest } : Desktop).Marked := marked
      exact marked'.round _ _ _
  | image =>
    simp only [Desktop.step]
    split
    · exact marked
    · next rest _ =>
      have marked' : ({ d with imageRx := rest } : Desktop).Marked := marked
      exact marked'.round _ _ _
  | files collected filled =>
    simp only [Desktop.step]
    split
    · exact marked
    · next rest _ =>
      have marked' : ({ d with filesRx := rest } : Desktop).Marked := marked
      exact marked'.round _ _ _
  | recover answered => exact marked.round _ _ _
  | serve action left =>
    simp only [Desktop.step]
    split
    · exact marked
    · exact marked.round _ _ _

theorem marked_start (toml : Option TomlClipboard) (files : Disk) (contents : Contents) :
    (start toml files contents).Marked :=
  State.listsKeep_start toml files 0

end Desktop

end LanMouse.Sync
