import LanMouse.Clipboard.Loopback
import LanMouse.Lib.Transition

/-!
# The last announcement

Local clipboard changes are dispatched one after another. A change that the dispatcher takes for one
it has dealt with already is not announced, and a selection that is empty, holds a directory, cannot
be read or is above the size limit never is.

What the dispatcher remembers can be read off the changes that came before (`Desk.Tracks`): a change
is taken for an old one just if it repeats the latest change of its kind, or is a text whose hash
was announced lately (`Change.Repeats`). So the peers stay up to date exactly as long as only the
change right before is repeated.
-/
namespace LanMouse.Clipboard

open Proto UnixPath Client Transition

/-- A local change, with the time, the size limit and the peers at its dispatch. The files of a
selection are looked at again when the cache is filled. -/
structure Change where
  content : Content
  now : Nat
  maxSize : Nat
  peers : Peers
  filled : Snapshot := fun _ => .error ""

/-- The event that describes a content; some selections have none. -/
def Content.announcement? (sha256 : List UInt8 → Hash) (maxSize : Nat) :
    Content → Option ProtoEvent
  | .text t =>
    some (.clipboardText (.fromContent (sha256 (asBytes t)) (sha256 (asBytes t)) (asBytes t)))
  | .image i => some (.clipboardImage
      ⟨sha256 i.data, i.mime, sha256 i.data, UInt64.ofNat i.data.length⟩)
  | .files paths collected =>
    if paths = [] then none
    else
      match collectFilesBlocking sha256 collected maxSize paths with
      | .ok entries => some (.clipboardFiles ⟨fileSelectionFingerprint sha256 paths, entries⟩)
      | .error _ => none

def Change.announcement? (sha256 : List UInt8 → Hash) (c : Change) : Option ProtoEvent :=
  c.content.announcement? sha256 c.maxSize

namespace Dispatcher

variable (sha256 : List UInt8 → Hash)

/-- The dispatcher takes the change for one it has dealt with already. -/
def remembers (d : Dispatcher) (c : Change) : Bool :=
  match c.content with
  | .text t =>
    some t = d.clipboardLastText || (d.clipboardLru.contains c.now (sha256 (asBytes t))).1
  | .image i =>
    (d.imageLruFingerprints.contains c.now (sha256 i.data)).1 ||
      some (sha256 i.data) = d.lastOutboundImageSha
  | .files paths _ => d.lastOutboundFilesFingerprint = some (fileSelectionFingerprint sha256 paths)

end Dispatcher

/-- `history` is not in the source: the changes that were dispatched, the latest first. -/
structure Desk where
  dispatcher : Dispatcher := .new
  sent : List (Recipient × ProtoEvent) := []
  history : List Change := []

/-- The whole dispatch of one change. -/
def Desk.process (sha256 : List UInt8 → Hash) (s : Desk) (c : Change) : Desk :=
  let out := s.dispatcher.dispatch sha256 c.now c.maxSize c.content
  { dispatcher :=
      match out.fill with
      | some fill => out.dispatcher.complete c.now c.filled fill
      | none => out.dispatcher
    sent := s.sent ++ out.events.flatMap (broadcastClipboardEvent c.peers)
    history := c :: s.history }

def isAnnouncement : ProtoEvent → Bool
  | .clipboardText _ | .clipboardImage _ | .clipboardFiles _ => true
  | _ => false

/-- The last announcement that was handed to `p`. -/
def lastAnnouncement (p : Recipient) (sent : List (Recipient × ProtoEvent)) : Option ProtoEvent :=
  ((sent.filter fun m => m.1 = p && isAnnouncement m.2).map (·.2)).getLast?

/-! ### What a dispatch announces -/

section Dispatch

variable (sha256 : List UInt8 → Hash)

/-- The cancels that go out before the announcement of a content. -/
def Dispatcher.cancels (d : Dispatcher) : Content → List ProtoEvent
  | .text _ | .image _ => []
  | .files .. => (Dispatcher.dispatchFilesBuildCancelEvents d.lastOutboundFilesSha d.fileCache).1

/-- A dispatch announces a change that is new to it and can be announced. -/
theorem events_dispatch (d : Dispatcher) (c : Change) :
    (d.dispatch sha256 c.now c.maxSize c.content).events =
      if d.remembers sha256 c then []
      else (c.announcement? sha256).elim [] fun event => d.cancels c.content ++ [event] := by
  obtain ⟨content, now, maxSize, peers, filled⟩ := c
  cases content with
  | text t =>
    simp only [Dispatcher.dispatch, Dispatcher.dispatchText, Dispatcher.remembers,
      Change.announcement?, Content.announcement?]
    by_cases same : some t = d.clipboardLastText
    · simp [same]
    · by_cases seen : (d.clipboardLru.contains now (sha256 (asBytes t))).1 = true
      · simp [same, seen]
      · simp [same, seen, Dispatcher.pushText, Dispatcher.cancels]
  | image i =>
    simp only [Dispatcher.dispatch, Dispatcher.dispatchImage, Dispatcher.remembers,
      Change.announcement?, Content.announcement?]
    by_cases seen : (d.imageLruFingerprints.contains now (sha256 i.data)).1 = true
    · simp [seen]
    · by_cases same : some (sha256 i.data) = d.lastOutboundImageSha
      · simp [seen, same]
      · simp [seen, same, Dispatcher.cancels]
  | files paths collected =>
    simp only [Dispatcher.dispatch, Dispatcher.dispatchFiles, Dispatcher.remembers,
      Change.announcement?, Content.announcement?, dispatchFilesDecide]
    by_cases none_ : paths = []
    · simp [none_]
    · by_cases same :
        d.lastOutboundFilesFingerprint = some (fileSelectionFingerprint sha256 paths)
      · simp [none_, same]
      · simp only [none_, same, if_false, decide_false, Bool.false_eq_true]
        cases collectFilesBlocking sha256 collected maxSize paths with
        | ok entries => rfl
        | error e => cases e <;> rfl

/-- The announcement is of the kind of the content. -/
theorem announcement?_cases {maxSize : Nat} {content : Content} {event : ProtoEvent}
    (announced : content.announcement? sha256 maxSize = some event) :
    (∃ t ct, content = .text t ∧ event = .clipboardText ct) ∨
      (∃ i ci, content = .image i ∧ event = .clipboardImage ci) ∨
      ∃ paths collected cf, content = .files paths collected ∧ event = .clipboardFiles cf := by
  cases content with
  | text t =>
    cases announced
    exact .inl ⟨_, _, rfl, rfl⟩
  | image i =>
    cases announced
    exact .inr (.inl ⟨_, _, rfl, rfl⟩)
  | files paths collected =>
    simp only [Content.announcement?] at announced
    split at announced
    · cases announced
    · split at announced
      · cases announced
        exact .inr (.inr ⟨_, _, _, rfl, rfl⟩)
      · cases announced

theorem dispatch_announces (d : Dispatcher) (c : Change) :
    (d.dispatch sha256 c.now c.maxSize c.content).events.filter isAnnouncement =
      if d.remembers sha256 c then [] else (c.announcement? sha256).toList := by
  have cancels : (d.cancels c.content).filter isAnnouncement = [] := by
    cases c.content <;>
      simp [Dispatcher.cancels, Dispatcher.dispatchFilesBuildCancelEvents, isAnnouncement]
  rw [events_dispatch]
  split
  · rfl
  · cases announced : c.announcement? sha256 with
    | none => rfl
    | some event =>
      have announces : isAnnouncement event := by
        obtain ⟨_, _, -, rfl⟩ | ⟨_, _, -, rfl⟩ | ⟨_, _, _, -, rfl⟩ :=
          announcement?_cases sha256 announced <;> rfl
      simp [cancels, announces]

theorem lastAnnouncement_append (p : Recipient) (sent more : List (Recipient × ProtoEvent)) :
    lastAnnouncement p (sent ++ more) =
      (lastAnnouncement p more).or (lastAnnouncement p sent) := by
  simp [lastAnnouncement, List.getLast?_append]

theorem lastAnnouncement_one {peers : Peers} {p : Recipient} (reached : p ∈ peers.recipients)
    (e : ProtoEvent) :
    lastAnnouncement p (broadcastClipboardEvent peers e) =
      if isAnnouncement e then some e else none := by
  have only : ∀ x ∈ (((broadcastClipboardEvent peers e).filter fun m =>
      m.1 = p && isAnnouncement m.2).map (·.2)), x = e ∧ isAnnouncement e := by
    intro x mem
    simp only [broadcastClipboardEvent, List.mem_map, List.mem_filter, Bool.and_eq_true] at mem
    obtain ⟨m, ⟨⟨q, -, rfl⟩, -, announces⟩, rfl⟩ := mem
    exact ⟨rfl, announces⟩
  unfold lastAnnouncement
  split
  · next announces =>
    cases last : (((broadcastClipboardEvent peers e).filter fun m =>
        m.1 = p && isAnnouncement m.2).map (·.2)).getLast? with
    | some x => rw [(only x (List.mem_of_getLast? last)).1]
    | none =>
      rw [List.getLast?_eq_none_iff, List.map_eq_nil_iff, List.filter_eq_nil_iff] at last
      exact absurd (by simp [announces]) (last (p, e) (List.mem_map_of_mem reached))
  · next silent =>
    rw [List.getLast?_eq_none_iff, List.eq_nil_iff_forall_not_mem]
    exact fun x mem => silent (only x mem).2

/-- What reaches a recipient of a broadcast. -/
theorem lastAnnouncement_broadcast {peers : Peers} {p : Recipient} (reached : p ∈ peers.recipients)
    (events : List ProtoEvent) :
    lastAnnouncement p (events.flatMap (broadcastClipboardEvent peers)) =
      (events.filter isAnnouncement).getLast? := by
  induction events with
  | nil => rfl
  | cons e events ih =>
    rw [List.flatMap_cons, lastAnnouncement_append, ih, lastAnnouncement_one reached]
    cases announces : isAnnouncement e with
    | true =>
      rw [List.filter_cons_of_pos announces, List.getLast?_cons]
      cases (events.filter isAnnouncement).getLast? <;> rfl
    | false =>
      rw [List.filter_cons_of_neg (by simp [announces])]
      simp

end Dispatch

/-- A dispatch announces the change unless it takes it for an old one or cannot. -/
theorem Desk.lastAnnouncement_process (sha256 : List UInt8 → Hash) {p : Recipient} (s : Desk)
    {c : Change} (reached : p ∈ c.peers.recipients) :
    lastAnnouncement p (s.process sha256 c).sent =
      if s.dispatcher.remembers sha256 c then lastAnnouncement p s.sent
      else (c.announcement? sha256).or (lastAnnouncement p s.sent) := by
  simp only [Desk.process]
  rw [lastAnnouncement_append, lastAnnouncement_broadcast reached, dispatch_announces]
  split
  · rfl
  · cases c.announcement? sha256 <;> rfl

/-! ### What was copied before -/

section History

variable (sha256 : List UInt8 → Hash)

def Change.text? (c : Change) : Option String :=
  match c.content with
  | .text t => some t
  | _ => none

def Change.imageSha? (c : Change) : Option Hash :=
  match c.content with
  | .image i => some (sha256 i.data)
  | _ => none

def Change.selection? (c : Change) : Option Hash :=
  match c.content with
  | .files paths _ => some (fileSelectionFingerprint sha256 paths)
  | _ => none

/-- The change repeats the latest one of its kind, or it is a text whose hash was announced lately.
`earlier` has the latest change first; `told` are the texts that were announced, the oldest first.
-/
def Change.Repeats (earlier : List Change) (told : List (Nat × Hash)) (c : Change) : Prop :=
  match c.content with
  | .text t => earlier.findSome? Change.text? = some t ∨
    Recent.Lately LruFingerprints.defaultCapacity LruFingerprints.defaultTtl c.now told
      (sha256 (asBytes t))
  | .image i => earlier.findSome? (Change.imageSha? sha256) = some (sha256 i.data)
  | .files paths _ =>
    earlier.findSome? (Change.selection? sha256) = some (fileSelectionFingerprint sha256 paths)

instance (earlier : List Change) (told : List (Nat × Hash)) (c : Change) :
    Decidable (c.Repeats sha256 earlier told) := by
  unfold Change.Repeats
  split <;> infer_instance

/-- The texts of a history that were announced: those that did not repeat an earlier one. -/
def toldTexts : List Change → List (Nat × Hash)
  | [] => []
  | c :: earlier =>
    match c.content with
    | .text t =>
      if c.Repeats sha256 earlier (toldTexts earlier) then toldTexts earlier
      else toldTexts earlier ++ [(c.now, sha256 (asBytes t))]
    | _ => toldTexts earlier

/-- The change can be announced, and if it repeats an earlier one, then the change right before it
has the same announcement. -/
def Change.NewTo (earlier : List Change) (c : Change) : Prop :=
  (c.announcement? sha256).isSome ∧
    (c.Repeats sha256 earlier (toldTexts sha256 earlier) →
      (earlier.head?.bind (Change.announcement? sha256)) = c.announcement? sha256)

instance (earlier : List Change) (c : Change) : Decidable (c.NewTo sha256 earlier) :=
  inferInstanceAs (Decidable (_ ∧ (_ → _)))

namespace Desk

/-- What is on the clipboard is described by the last announcement to `p`. -/
def Described (p : Recipient) (s : Desk) : Prop :=
  match s.history with
  | [] => lastAnnouncement p s.sent = none
  | c :: _ =>
    (c.announcement? sha256).isSome ∧ lastAnnouncement p s.sent = c.announcement? sha256

/-- What the dispatcher remembers, in terms of the changes that came before. All of them could be
announced. -/
structure Tracks (s : Desk) : Prop where
  announceable : ∀ c ∈ s.history, (c.announcement? sha256).isSome
  text : s.dispatcher.clipboardLastText = s.history.findSome? Change.text?
  texts : ∀ now, (∀ c ∈ s.history, c.now ≤ now) →
    s.dispatcher.clipboardLru.Keeps LruFingerprints.defaultCapacity LruFingerprints.defaultTtl now
      (toldTexts sha256 s.history)
  images : s.dispatcher.imageLruFingerprints.items = []
  image : s.dispatcher.lastOutboundImageSha = s.history.findSome? (Change.imageSha? sha256)
  selection : s.dispatcher.lastOutboundFilesFingerprint =
    s.history.findSome? (Change.selection? sha256)

variable {sha256} {s : Desk} {c : Change} {p : Recipient}

theorem Tracks.start : Tracks sha256 {} where
  announceable := nofun
  text := rfl
  texts now _ := LruFingerprints.keeps_withCapacityAndTtl _ _ now
  images := rfl
  image := rfl
  selection := rfl

/-- A change is taken for an old one just if it repeats one of the changes before. -/
theorem Tracks.remembers_iff (tracks : s.Tracks sha256) (later : ∀ x ∈ s.history, x.now ≤ c.now) :
    s.dispatcher.remembers sha256 c = true ↔
      c.Repeats sha256 s.history (toldTexts sha256 s.history) := by
  unfold Dispatcher.remembers Change.Repeats
  cases c.content with
  | text t =>
    simp only [Bool.or_eq_true, decide_eq_true_eq, tracks.text,
      (tracks.texts c.now later).contains_iff]
    exact or_congr_left eq_comm
  | image i =>
    simp only [LruFingerprints.contains, tracks.images, List.dropWhile_nil, List.any_nil,
      Bool.false_or, decide_eq_true_eq, tracks.image]
    exact eq_comm
  | files paths collected => simp only [decide_eq_true_eq, tracks.selection]

/-- What a change leaves in the memories: what is its own, and of the other kinds what was there. -/
structure Updates (sha256 : List UInt8 → Hash) (c : Change) (d d' : Dispatcher) : Prop where
  text : d'.clipboardLastText = c.text?.or d.clipboardLastText
  images : d'.imageLruFingerprints.items = []
  image : d'.lastOutboundImageSha = (c.imageSha? sha256).or d.lastOutboundImageSha
  selection : d'.lastOutboundFilesFingerprint =
    (c.selection? sha256).or d.lastOutboundFilesFingerprint

theorem Tracks.updates (tracks : s.Tracks sha256) (can : (c.announcement? sha256).isSome) :
    Updates sha256 c s.dispatcher (s.process sha256 c).dispatcher := by
  obtain ⟨content, now, maxSize, peers, filled⟩ := c
  have images := tracks.images
  cases content with
  | text t =>
    simp only [process, Dispatcher.dispatch, Dispatcher.dispatchText]
    by_cases same : some t = s.dispatcher.clipboardLastText
    · rw [if_pos same]
      exact ⟨same.symm, images, rfl, rfl⟩
    · rw [if_neg same]
      split_ifs <;> exact ⟨rfl, images, rfl, rfl⟩
  | image i =>
    have unseen : s.dispatcher.imageLruFingerprints.contains now (sha256 i.data) =
        (false, { s.dispatcher.imageLruFingerprints with items := [] }) := by
      simp only [LruFingerprints.contains, images, List.dropWhile_nil, List.any_nil]
    simp only [process, Dispatcher.dispatch, Dispatcher.dispatchImage, unseen, Bool.false_eq_true,
      if_false]
    by_cases same : some (sha256 i.data) = s.dispatcher.lastOutboundImageSha
    · rw [if_pos same]
      exact ⟨rfl, rfl, same.symm, rfl⟩
    · rw [if_neg same]
      exact ⟨rfl, rfl, rfl, rfl⟩
  | files paths collected =>
    simp only [Change.announcement?, Content.announcement?] at can
    have some_ : paths ≠ [] := by
      rintro rfl
      simp at can
    rw [if_neg some_] at can
    simp only [process, Dispatcher.dispatch, Dispatcher.dispatchFiles, dispatchFilesDecide,
      if_neg some_]
    by_cases same : s.dispatcher.lastOutboundFilesFingerprint =
        some (fileSelectionFingerprint sha256 paths)
    · rw [if_pos same]
      exact ⟨rfl, images, rfl, same⟩
    · rw [if_neg same]
      cases read : collectFilesBlocking sha256 collected maxSize paths with
      | error e => simp [read] at can
      | ok entries => exact ⟨rfl, images, rfl, rfl⟩

/-- The fingerprints of the texts are those of the texts that were announced. -/
theorem Tracks.texts_process (tracks : s.Tracks sha256)
    (later : ∀ x ∈ s.history, x.now ≤ c.now) :
    (s.process sha256 c).dispatcher.clipboardLru.Keeps LruFingerprints.defaultCapacity
      LruFingerprints.defaultTtl c.now (toldTexts sha256 (c :: s.history)) := by
  have repeats := tracks.remembers_iff later
  have keeps := tracks.texts c.now later
  obtain ⟨content, now, maxSize, peers, filled⟩ := c
  cases content with
  | text t =>
    simp only [Dispatcher.remembers, Bool.or_eq_true, decide_eq_true_eq] at repeats
    simp only [process, Dispatcher.dispatch, Dispatcher.dispatchText, toldTexts]
    by_cases same : some t = s.dispatcher.clipboardLastText
    · rw [if_pos same, if_pos (repeats.mp (.inl same))]
      exact keeps
    · rw [if_neg same]
      by_cases seen : (s.dispatcher.clipboardLru.contains now (sha256 (asBytes t))).1 = true
      · rw [if_pos seen, if_pos (repeats.mp (.inr seen))]
        exact keeps.contains (sha256 (asBytes t))
      · rw [if_neg seen, if_neg fun old => (repeats.mpr old).elim same seen]
        exact (keeps.contains (sha256 (asBytes t))).push (by decide) (sha256 (asBytes t))
  | image i =>
    simp only [process, Dispatcher.dispatch, Dispatcher.dispatchImage]
    split_ifs <;> exact keeps
  | files paths collected =>
    simp only [process, Dispatcher.dispatch, Dispatcher.dispatchFiles]
    cases dispatchFilesDecide sha256 collected paths s.dispatcher.lastOutboundFilesFingerprint
      maxSize <;> exact keeps

theorem findSome?_cons_eq {α β : Type} (f : α → Option β) (a : α) (l : List α) :
    (a :: l).findSome? f = (f a).or (l.findSome? f) := by
  cases found : f a <;> simp [found]

/-- One dispatch keeps the memories in step with the history. -/
theorem Tracks.process (tracks : s.Tracks sha256) (later : ∀ x ∈ s.history, x.now ≤ c.now)
    (can : (c.announcement? sha256).isSome) : (s.process sha256 c).Tracks sha256 where
  announceable := List.forall_mem_cons.mpr ⟨can, tracks.announceable⟩
  text := by
    rw [(tracks.updates can).text, tracks.text]
    exact (findSome?_cons_eq ..).symm
  texts _ past := (tracks.texts_process later).later (past c List.mem_cons_self)
  images := (tracks.updates can).images
  image := by
    rw [(tracks.updates can).image, tracks.image]
    exact (findSome?_cons_eq ..).symm
  selection := by
    rw [(tracks.updates can).selection, tracks.selection]
    exact (findSome?_cons_eq ..).symm

/-- While the clipboard has been described so far, a change keeps it so exactly if it is new. -/
theorem Tracks.described_process_iff (tracks : s.Tracks sha256) (described : s.Described sha256 p)
    (reached : p ∈ c.peers.recipients) (later : ∀ x ∈ s.history, x.now ≤ c.now) :
    (s.process sha256 c).Described sha256 p ↔ c.NewTo sha256 s.history := by
  have before : lastAnnouncement p s.sent =
      s.history.head?.bind (Change.announcement? sha256) := by
    unfold Described at described
    cases history : s.history with
    | nil => simpa [history] using described
    | cons x rest =>
      simp only [history] at described
      exact described.2
  have after : (s.process sha256 c).Described sha256 p ↔ (c.announcement? sha256).isSome ∧
      lastAnnouncement p (s.process sha256 c).sent = c.announcement? sha256 := Iff.rfl
  rw [after, Change.NewTo, s.lastAnnouncement_process sha256 reached, ← before,
    ← tracks.remembers_iff later]
  refine and_congr_right fun can => ?_
  split
  · next old => simp [old]
  · next new => simp [new, Option.or_of_isSome can]

end Desk

end History

/-- The changes come in order and all of them reach `p`. -/
def Desk.Timely (p : Recipient) (s : Desk) (c : Change) : Prop :=
  p ∈ c.peers.recipients ∧ ∀ x ∈ s.history, x.now ≤ c.now

theorem Desk.allMeet_timely (sha256 : List UInt8 → Hash) {p : Recipient} {changes : List Change}
    (reached : ∀ c ∈ changes, p ∈ c.peers.recipients)
    (inOrder : changes.Pairwise fun a b => a.now ≤ b.now) {s : Desk}
    (later : ∀ x ∈ s.history, ∀ c ∈ changes, x.now ≤ c.now) :
    AllMeet (Desk.process sha256) (Desk.Timely p) s changes := by
  induction changes generalizing s with
  | nil => trivial
  | cons c changes ih =>
    rw [List.pairwise_cons] at inOrder
    refine ⟨⟨reached c List.mem_cons_self, fun x mem => later x mem c List.mem_cons_self⟩,
      ih (fun x mem => reached x (List.mem_cons_of_mem _ mem)) inOrder.2 ?_⟩
    intro x mem y behind
    obtain rfl | mem := List.mem_cons.mp mem
    · exact inOrder.1 y behind
    · exact later x mem y (List.mem_cons_of_mem _ behind)

/-- After every change the last announcement describes the clipboard, exactly when every change can
be announced and repeats none but the change right before it. -/
theorem last_announcement_describes_iff (sha256 : List UInt8 → Hash) (p : Recipient)
    (changes : List Change) (reached : ∀ c ∈ changes, p ∈ c.peers.recipients)
    (inOrder : changes.Pairwise fun a b => a.now ≤ b.now) :
    Always (Desk.process sha256) (Desk.Described sha256 p) {} changes ↔
      AllMeet (Desk.process sha256) (fun s c => c.NewTo sha256 s.history) {} changes := by
  have timely := Desk.allMeet_timely sha256 (s := {}) reached inOrder nofun
  have exact_ : Always (Desk.process sha256) (Desk.Described sha256 p) {} changes ∧
        AllMeet (Desk.process sha256) (Desk.Timely p) {} changes ↔
      AllMeet (Desk.process sha256) (fun s c => s.Timely p c ∧ c.NewTo sha256 s.history) {}
        changes := by
    refine always_and_allMeet_iff (fun s : Desk => s.Tracks sha256 ∧ s.Described sha256 p) ?_
      (fun _ inv => inv.2) ?_ ?_ ⟨.start, rfl⟩ changes
    · rintro s c ⟨tracks, described⟩ ⟨⟨reached, later⟩, new⟩
      exact ⟨tracks.process later new.1,
        (tracks.described_process_iff described reached later).mpr new⟩
    · exact fun _ _ _ meets => meets.1
    · rintro s c ⟨tracks, described⟩ after ⟨reached, later⟩
      exact ⟨⟨reached, later⟩, (tracks.described_process_iff described reached later).mp after⟩
  constructor
  · intro always
    exact allMeet_mono (fun _ => True) (fun _ _ _ _ => trivial) (fun _ _ _ meets => meets.2) trivial
      (exact_.mp ⟨always, timely⟩)
  · intro meets
    exact (exact_.mpr (timely.and meets)).1

/-- A text that is copied twice, another one, and the first one again after a minute. -/
theorem last_announcement_describes_iff_again :
    let sha256 : List UInt8 → Hash := fun bytes => Vector.replicate 32 (bytes.headD 0)
    let addr : SocketAddr := ⟨.v4 #v[192, 168, 0, 2], 2268⟩
    let change (content : Content) (now : Nat) : Change :=
      { content, now := seconds now, maxSize := 4
        peers := ⟨.empty, [(addr, true)], fun _ => true⟩ }
    let changes := [change (.text "a") 0, change (.text "a") 1, change (.text "b") 2,
      change (.text "a") 60]
    Always (Desk.process sha256) (Desk.Described sha256 (.incoming addr)) {} changes := by
  intro sha256 addr change changes
  exact (last_announcement_describes_iff sha256 (.incoming addr) changes (by decide +kernel)
    (by decide +kernel)).mpr (by decide +kernel)

/-- The last announcement does not describe the clipboard: after a text that was copied again within
a minute; after an image that was copied again; after a selection whose file has changed. -/
theorem last_announcement_outdated :
    let sha256 : List UInt8 → Hash := fun bytes => Vector.replicate 32 (bytes.headD 0)
    let addr : SocketAddr := ⟨.v4 #v[192, 168, 0, 2], 2268⟩
    let change (content : Content) (now : Nat) : Change :=
      { content, now := seconds now, maxSize := 4
        peers := ⟨.empty, [(addr, true)], fun _ => true⟩ }
    let selection (bytes : List UInt8) : Content :=
      .files ["/x".toList] fun _ => .ok { bytes }
    let image : Content := .image ⟨"image/png", [1]⟩
    let last (contents : List Content) : Option ProtoEvent :=
      lastAnnouncement (.incoming addr) (run (Desk.process sha256) {}
        (contents.zipIdx.map fun (content, now) => change content now)).sent
    last [.text "a", .text "b", .text "a"] = (Content.text "b").announcement? sha256 4 ∧
      last [image, .text "a", image] = (Content.text "a").announcement? sha256 4 ∧
      last [selection [1], selection [2]] = (selection [1]).announcement? sha256 4 ∧
      (selection [1]).announcement? sha256 4 ≠ (selection [2]).announcement? sha256 4 ∧
      (Content.text "a").announcement? sha256 4 ≠ (Content.text "b").announcement? sha256 4 := by
  decide +kernel

end LanMouse.Clipboard
