import LanMouse.Sync.Marks

/-!
# Echoes of texts and images

A text that the service has written for a peer, or has announced, comes back to it in the looks of
the poller. It is held back as long as it is the last text that was taken up, or its hash was marked
lately; an image, as long as it is the last that was announced, or its hash was marked lately.

So there are three ways for a text to go out that nobody has just copied. The hash that is marked
for a text of a peer is the one that the peer has sent, whatever the text. The text taken up last is
forgotten with every text of a peer, while looks at an older text may be waiting. And a peer that
connects is sent the text that is on the clipboard, whoever put it there. An image is only marked
after it was written, and never again: it goes out if a look at it is taken up before the report of
the task that wrote it, or a minute after it.
-/
namespace LanMouse.Sync

open Proto UnixPath Client Clipboard Files Transition

/-! ### What goes out -/

namespace State

variable {s : State} {now : Nat}

theorem announcedSince_of_sent {s' : State} {more : List (Recipient × ProtoEvent)}
    (sent : s'.sent = s.sent ++ more) (k : Kind) :
    s.announcedSince s' k = more.any fun m => isAnnouncement m.2 && eventKind m.2 = some k := by
  rw [announcedSince, sent, List.drop_left]

theorem announcedSince_push (filled : Snapshot) (out : Outcome) (k : Kind) :
    s.announcedSince (s.push now filled out) k = (decide (s.peers.recipients ≠ []) &&
      out.events.any fun e => isAnnouncement e && eventKind e = some k) := by
  have sent : (s.push now filled out).sent = _ := rfl
  rw [announcedSince_of_sent sent, Bool.eq_iff_iff, List.any_eq_true, Bool.and_eq_true,
    List.any_eq_true, decide_eq_true_iff]
  constructor
  · rintro ⟨m, mem, announced⟩
    obtain ⟨e, dispatched, broadcast⟩ := List.mem_flatMap.mp mem
    obtain ⟨recipient, reached, rfl⟩ := List.mem_map.mp broadcast
    exact ⟨List.ne_nil_of_mem reached, e, dispatched, announced⟩
  · rintro ⟨reached, e, dispatched, announced⟩
    obtain ⟨recipient, mem⟩ := List.exists_mem_of_ne_nil _ reached
    exact ⟨(recipient, e),
      List.mem_flatMap.mpr ⟨e, dispatched, List.mem_map.mpr ⟨recipient, mem, rfl⟩⟩, announced⟩

/-- A dispatch announces its own kind, if the change is new and can be announced. -/
theorem announcedSince_dispatch (host : Host) (content : Content) (filled : Snapshot) (k : Kind) :
    s.announcedSince (s.step host ⟨now, .dispatch content filled⟩) k =
      (decide (contentKind content = k) && s.announces host now content) := by
  let change : Change :=
    { content, now, maxSize := (s.config host).maxFileSize.toNat, peers := s.peers }
  have announced := dispatch_announces host.sha256 s.dispatcher change
  simp only [step, act]
  rw [announcedSince_push, ← List.any_filter]
  have events : (s.dispatcher.dispatch host.sha256 now (s.config host).maxFileSize.toNat
      content).events.filter isAnnouncement = _ := announced
  rw [events]
  cases remembered : s.dispatcher.remembers host.sha256 change with
  | true => simp [announces, change, remembered]
  | false =>
    cases found : change.announcement? host.sha256 with
    | none => simp [announces, change, remembered, found]
    | some event =>
      have kind : eventKind event = some (contentKind content) := by
        obtain ⟨_, _, own, rfl⟩ | ⟨_, _, own, rfl⟩ | ⟨_, _, _, own, rfl⟩ :=
          announcement?_cases host.sha256 found <;>
        rw [show content = _ from own] <;> rfl
      rw [Bool.and_comm]
      simp [announces, change, remembered, found, kind]

theorem announcedSince_recoverPush (host : Host) (text : Option String) (k : Kind) :
    s.announcedSince (s.step host ⟨now, .recoverPush text⟩) k =
      (decide (Kind.text = k) && text.isSome && decide (s.peers.recipients ≠ [])) := by
  simp only [step, act]
  rw [announcedSince_push]
  cases text with
  | none => simp [Dispatcher.handleClipboardRecoverPush]
  | some text =>
    rw [Bool.and_comm]
    simp [Dispatcher.handleClipboardRecoverPush, Dispatcher.pushText, isAnnouncement, eventKind]

/-- Nothing else the service does announces anything. -/
theorem announcedSince_other (host : Host) {action : Action} (other : action.needsPoller = false)
    (k : Kind) : s.announcedSince (s.step host ⟨now, action⟩) k = false := by
  have quiet {s' : State} (sent : s'.sent = s.sent) : s.announcedSince s' k = false := by
    rw [announcedSince, sent, List.drop_length]
    rfl
  cases action with
  | dispatch | recoverPush => cases other
  | inbound addr event a => exact quiet (sent_inbound s now addr event a)
  | forward h e =>
    rw [announcedSince_of_sent (show _ = s.sent ++ [(.outgoing h, .input e)] from rfl)]
    rfl
  | imageTurn i a =>
    obtain ⟨imageTasks, imagesApplied, written, eq, -⟩ := s.imageTurn_eq host i a
    refine quiet ?_
    simp only [step, act, eq]
  | imageApplied =>
    refine quiet ?_
    simp only [step, act]
    split
    · rfl
    · next result rest _ =>
      obtain ⟨dispatcher, eq⟩ := imageApplied_eq { s with imagesApplied := rest } now result
      rw [eq]
  | fileApplied reply =>
    refine quiet ?_
    simp only [step, act]
    split
    · rfl
    · next rest _ => exact sent_fileApplied { s with filesApplied := rest } now _ reply
  | _ => exact quiet rfl

end State

/-- The local user made the change, and it has not been announced. -/
def IsNew (announced : List Stamp) (stamp : Stamp) : Prop :=
  stamp.origin = .copied ∧ stamp.number ∉ announced.map (·.number)

/-- Every announcement was for a new change. -/
def OnlyNew (announced : List Stamp) : Prop :=
  (∀ stamp ∈ announced, stamp.origin = .copied) ∧ (announced.map (·.number)).Nodup

/-- The service wrote it to apply an image of a peer. -/
def Origin.appliesImage : Origin → Bool
  | .written (.setImage ..) | .written (.setDibImage _) => true
  | _ => false

def NoAppliedImage (announced : List Stamp) : Prop :=
  ∀ stamp ∈ announced, stamp.origin.appliesImage = false

instance (announced : List Stamp) (stamp : Stamp) : Decidable (IsNew announced stamp) :=
  inferInstanceAs (Decidable (_ ∧ _))

instance (announced : List Stamp) : Decidable (OnlyNew announced) :=
  inferInstanceAs (Decidable (_ ∧ _))

instance (announced : List Stamp) : Decidable (NoAppliedImage announced) :=
  inferInstanceAs (Decidable (∀ stamp ∈ announced, stamp.origin.appliesImage = false))

theorem onlyNew_nil : OnlyNew [] :=
  ⟨fun _ mem => absurd mem List.not_mem_nil, List.nodup_nil⟩

theorem noAppliedImage_nil : NoAppliedImage [] := fun _ mem => absurd mem List.not_mem_nil

theorem onlyNew_snoc (announced : List Stamp) (stamp : Stamp) :
    OnlyNew (announced ++ [stamp]) ↔ OnlyNew announced ∧ IsNew announced stamp := by
  simp only [OnlyNew, IsNew, List.forall_mem_append, List.forall_mem_singleton, List.map_append,
    List.map_cons, List.map_nil, List.nodup_append, List.nodup_singleton]
  aesop

theorem isNew_snoc (announced : List Stamp) (last stamp : Stamp) :
    IsNew (announced ++ [last]) stamp ↔ IsNew announced stamp ∧ stamp.number ≠ last.number := by
  simp only [IsNew, List.map_append, List.map_cons, List.map_nil, List.mem_append,
    List.mem_singleton, not_or, and_assoc]

theorem noAppliedImage_snoc (announced : List Stamp) (stamp : Stamp) :
    NoAppliedImage (announced ++ [stamp]) ↔
      NoAppliedImage announced ∧ stamp.origin.appliesImage = false := by
  rw [NoAppliedImage, List.forall_mem_append, List.forall_mem_singleton, NoAppliedImage]

/-- The kind of content that a move may announce. -/
def Move.kind? : Move → Option Kind
  | .text | .recover _ => some .text
  | .image => some .image
  | .files .. => some .files
  | _ => none

namespace Desktop

variable {host : Host} {d : Desktop}

/-! ### One move -/

/-- A round leaves a property of the announcements as it is, unless it makes one that must not be
made. -/
theorem round_iff {good : List Stamp → Prop} {allowed : List Stamp → Stamp → Prop}
    (snoc : ∀ announced stamp, good (announced ++ [stamp]) ↔ good announced ∧
      allowed announced stamp) (action : Action) (stamp : Stamp) (left : Contents) (k : Kind) :
    good ((d.round host action stamp left).announced k) ↔ good (d.announced k) ∧
      (d.service.announcedSince (d.service.step host ⟨d.clock, action⟩) k = true →
        allowed (d.announced k) stamp) := by
  rw [announced_round]
  split
  · next announced =>
    rw [snoc]
    exact and_congr_right fun _ => (imp_iff_right announced).symm
  · next silent => simp [silent]

theorem needsPoller_answer (action : Action) :
    (d.answer action).needsPoller = action.needsPoller := by
  cases action <;> rfl

theorem announces_text_iff (marked : d.Marked) (text : String) :
    d.service.announces host d.clock (.text text) = true ↔
      d.service.peers.recipients ≠ [] ∧ some text ≠ d.service.dispatcher.clipboardLastText ∧
        ¬ Recent.Lately LruFingerprints.defaultCapacity LruFingerprints.defaultTtl d.clock
          d.textMarks (host.sha256 (asBytes text)) := by
  rw [← State.ListsKeep.texts marked |>.contains_iff]
  simp only [State.announces, Dispatcher.remembers, Change.announcement?, Content.announcement?,
    Option.isSome_some, Bool.and_true, Bool.and_eq_true, Bool.not_eq_true', ← Bool.not_eq_true,
    Bool.or_eq_true, not_or, decide_eq_true_eq]
  tauto

theorem announces_image_iff (marked : d.Marked) (image : ImageBytes) :
    d.service.announces host d.clock (.image image) = true ↔
      d.service.peers.recipients ≠ [] ∧
        some (host.sha256 image.data) ≠ d.service.dispatcher.lastOutboundImageSha ∧
        ¬ Recent.Lately imageLoopbackCapacity imageLoopbackTtl d.clock d.imageMarks
          (host.sha256 image.data) := by
  rw [← State.ListsKeep.images marked |>.contains_iff]
  simp only [State.announces, Dispatcher.remembers, Change.announcement?, Content.announcement?,
    Option.isSome_some, Bool.and_true, Bool.and_eq_true, Bool.not_eq_true', ← Bool.not_eq_true,
    Bool.or_eq_true, not_or, decide_eq_true_eq]
  tauto

theorem announced_round_of_silent {action : Action} {stamp : Stamp} {left : Contents} {k : Kind}
    (silent : d.service.announcedSince (d.service.step host ⟨d.clock, action⟩) k = false) :
    (d.round host action stamp left).announced k = d.announced k := by
  rw [announced_round, silent, if_neg Bool.false_ne_true]

theorem announced_round_dispatch_other {content : Content} {k : Kind}
    (other : contentKind content ≠ k) (filled : Snapshot) (stamp : Stamp) (left : Contents) :
    (d.round host (.dispatch content filled) stamp left).announced k = d.announced k := by
  refine announced_round_of_silent ?_
  rw [State.announcedSince_dispatch, decide_eq_false other, Bool.false_and]

/-- A move only announces its own kind. -/
theorem announced_step_other {k : Kind} {move : Move} (other : move.kind? ≠ some k) :
    (d.step host move).announced k = d.announced k := by
  cases move with
  | wait | copy => rfl
  | tick readable beforeText beforeFiles => exact congrFun (aside_tick ..).announced k
  | text | image | files =>
    simp only [step]
    split
    · rfl
    · refine announced_round_dispatch_other ?_ _ _ _
      rintro rfl
      exact other rfl
  | recover answered =>
    refine announced_round_of_silent ?_
    rw [State.announcedSince_recoverPush,
      decide_eq_false fun own => other (congrArg some own), Bool.false_and, Bool.false_and]
  | serve action left =>
    simp only [step]
    split
    · rfl
    · next own =>
      refine announced_round_of_silent (State.announcedSince_other host ?_ k)
      rw [needsPoller_answer]
      exact Bool.eq_false_iff.mpr own

theorem announced_iff_of_other {good : List Stamp → Prop} {caught : Prop} {k : Kind} {move : Move}
    (other : move.kind? ≠ some k) (free : caught) :
    good ((d.step host move).announced k) ↔ good (d.announced k) ∧ caught := by
  rw [announced_step_other other, and_iff_left free]

/-- A property of the announcements of a kind that every move either keeps or, by an announcement
that was to be held back, loses. -/
theorem always_announced_iff {good : List Stamp → Prop} {caught : Desktop → Move → Prop} {k : Kind}
    (nil : good [])
    (step_iff : ∀ d : Desktop, d.Marked → ∀ move,
      good ((d.step host move).announced k) ↔ good (d.announced k) ∧ caught d move)
    (toml : Option TomlClipboard) (files : Disk) (contents : Contents) (moves : List Move) :
    Always (step host) (fun d => good (d.announced k)) (start toml files contents) moves ↔
      AllMeet (step host) caught (start toml files contents) moves := by
  refine always_iff_allMeet (fun d => d.Marked ∧ good (d.announced k)) ?_ ?_ ?_
    ⟨marked_start toml files contents, nil⟩ moves
  · rintro d move ⟨marked, holds⟩ held
    exact ⟨marked.step move, (step_iff d marked move).mpr ⟨holds, held⟩⟩
  · rintro d ⟨-, holds⟩
    exact holds
  · rintro d move ⟨marked, -⟩ holds
    exact ((step_iff d marked move).mp holds).2

/-! ### Texts -/

/-- A text that is taken up or sent to a peer that has connected is new, or is held back: it is the
last one that was taken up, or its hash was marked lately. -/
def CatchesTexts (host : Host) (d : Desktop) : Move → Prop
  | .text => ∀ look ∈ d.textRx.head?, d.service.peers.recipients = [] ∨
      IsNew (d.announced .text) look.stamp ∨
      some look.value = d.service.dispatcher.clipboardLastText ∨
      Recent.Lately LruFingerprints.defaultCapacity LruFingerprints.defaultTtl d.clock d.textMarks
        (host.sha256 (asBytes look.value))
  | .recover answered => answered = true → d.contents.text.isSome = true →
      d.service.peers.recipients = [] ∨ IsNew (d.announced .text) d.stamp
  | _ => True

theorem onlyNew_texts_step_iff (marked : d.Marked) (move : Move) :
    OnlyNew ((d.step host move).announced .text) ↔
      OnlyNew (d.announced .text) ∧ d.CatchesTexts host move := by
  cases move with
  | text =>
    cases queue : d.textRx with
    | nil => simp [step, CatchesTexts, queue]
    | cons look rest =>
      simp only [step, CatchesTexts, queue, List.head?_cons, Option.mem_some_iff, forall_eq']
      rw [round_iff onlyNew_snoc, State.announcedSince_dispatch]
      refine and_congr_right fun _ => ?_
      simp only [contentKind, decide_true, Bool.true_and, announces_text_iff marked]
      tauto
  | recover answered =>
    simp only [step, CatchesTexts]
    rw [round_iff onlyNew_snoc, State.announcedSince_recoverPush]
    refine and_congr_right fun _ => ?_
    cases answered <;> simp [or_iff_not_imp_left]
  | _ => exact announced_iff_of_other (by simp [Move.kind?]) trivial

/-- Whatever the order in which the user copies, the poller looks and the service does its rounds,
only texts that the local user has just copied are announced, and no copy is announced twice, just
if every text that is taken up, or sent to a peer that has connected, is new or is held back. -/
theorem texts_announced_new_iff (host : Host) (toml : Option TomlClipboard) (files : Disk)
    (contents : Contents) (moves : List Move) :
    Always (step host) (fun d => OnlyNew (d.announced .text)) (start toml files contents) moves ↔
      AllMeet (step host) (CatchesTexts host) (start toml files contents) moves :=
  always_announced_iff onlyNew_nil (fun _ marked move => onlyNew_texts_step_iff marked move) toml
    files contents moves

/-- A text that was copied a minute ago goes out again when a text of a peer is written before the
last look at it is taken up. A text of a peer that does not have the hash it comes with goes back to
the peer. -/
theorem texts_announced_again :
    let host : Host := ⟨fun bytes => Vector.replicate 32 (bytes.headD 0), []⟩
    let addr : SocketAddr := ⟨.v4 #v[192, 168, 0, 2], 2268⟩
    let connected : List Move :=
      [.serve (.links (fun _ => true) fun _ => none) {}, .serve (.connected addr) {}]
    let tick : Move := .tick {} none none
    let arrives (hash : UInt8) : Move := .serve (.inbound addr (.clipboardText
      ⟨Vector.replicate 32 hash, Vector.replicate 32 hash, 1, some [98]⟩) {}) { text := some "b" }
    let final (moves : List Move) : Desktop :=
      run (step host) (start none .empty {}) (connected ++ moves)
    (final [.copy { text := some "a" }, tick, .text, tick, .wait (seconds 61), arrives 98,
        .text]).announced .text = [⟨1, .copied⟩, ⟨1, .copied⟩] ∧
      (final [arrives 0, tick, .text]).announced .text = [⟨1, .written (.setText "b")⟩] ∧
      ¬ OnlyNew [⟨1, .copied⟩, ⟨1, .copied⟩] ∧ ¬ OnlyNew [⟨1, .written (.setText "b")⟩] := by
  decide +kernel

/-! ### Images -/

/-- An image that was applied for a peer is held back when it is taken up: it is the last one that
was announced, or its hash was marked lately. -/
def CatchesImages (host : Host) (d : Desktop) : Move → Prop
  | .image => ∀ look ∈ d.imageRx.head?, d.service.peers.recipients = [] ∨
      look.stamp.origin.appliesImage = false ∨
      some (host.sha256 look.value.data) = d.service.dispatcher.lastOutboundImageSha ∨
      Recent.Lately imageLoopbackCapacity imageLoopbackTtl d.clock d.imageMarks
        (host.sha256 look.value.data)
  | _ => True

theorem noAppliedImage_step_iff (marked : d.Marked) (move : Move) :
    NoAppliedImage ((d.step host move).announced .image) ↔
      NoAppliedImage (d.announced .image) ∧ d.CatchesImages host move := by
  cases move with
  | image =>
    cases queue : d.imageRx with
    | nil => simp [step, CatchesImages, queue]
    | cons look rest =>
      simp only [step, CatchesImages, queue, List.head?_cons, Option.mem_some_iff, forall_eq']
      rw [round_iff noAppliedImage_snoc, State.announcedSince_dispatch]
      refine and_congr_right fun _ => ?_
      simp only [contentKind, decide_true, Bool.true_and, announces_image_iff marked]
      tauto
  | _ => exact announced_iff_of_other (by simp [Move.kind?]) trivial

/-- Whatever the order of the rounds, the looks and the turns of the tasks, no image that was
applied for a peer is announced as a local copy, just if every such image is held back when it is
taken up. -/
theorem applied_images_not_announced_iff (host : Host) (toml : Option TomlClipboard) (files : Disk)
    (contents : Contents) (moves : List Move) :
    Always (step host) (fun d => NoAppliedImage (d.announced .image)) (start toml files contents)
        moves ↔
      AllMeet (step host) (CatchesImages host) (start toml files contents) moves :=
  always_announced_iff noAppliedImage_nil (fun _ marked move => noAppliedImage_step_iff marked move)
    toml files contents moves

/-- The image of a peer goes back to it when the poller has seen it and the service takes this up
before the report of the task; and when the image is still on the clipboard a minute later. -/
theorem applied_image_announced :
    let host : Host := ⟨fun bytes => Vector.replicate 32 (bytes.headD 0), []⟩
    let addr : SocketAddr := ⟨.v4 #v[192, 168, 0, 2], 2268⟩
    let tick : Move := .tick {} none none
    let turn (a : ImageAnswers) : Move :=
      .serve (.imageTurn 0 a) { image := some ⟨"image/png", [7]⟩ }
    let written : List Move :=
      [.serve (.links (fun _ => true) fun _ => none) {}, .serve (.connected addr) {},
        .serve (.inbound addr (.clipboardImage
          ⟨Vector.replicate 32 7, "image/png", Vector.replicate 32 7, 1⟩) {}) {},
        turn { fetch := some (.ok (200, [7])) }, turn {}]
    let final (moves : List Move) : Desktop :=
      run (step host) (start none .empty {}) (written ++ moves)
    let reported : List Move := [turn { current := some [] }, .serve .imageApplied {}]
    let early := final ([tick, .image] ++ reported)
    let late := final (reported ++ [tick, .image, .wait (seconds 61), tick, .image])
    early.announced .image = [⟨1, .written (.setImage [7] .png)⟩] ∧
      late.announced .image = [⟨1, .written (.setImage [7] .png)⟩] ∧
      (final (reported ++ [tick, .image])).announced .image = [] ∧
      ¬ NoAppliedImage [⟨1, .written (.setImage [7] .png)⟩] := by
  decide +kernel

end Desktop

end LanMouse.Sync
