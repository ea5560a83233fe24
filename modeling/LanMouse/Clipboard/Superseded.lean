import LanMouse.Clipboard.Serving

/-!
# Superseded payloads

A push takes the payload of the push before it out of the cache, separately for texts, images and
files, each by what it remembers of its own last push. At every moment the caches hold payloads of
the last announcements only, also while a push is under way and whatever the peers fetch meanwhile.
-/
namespace LanMouse.Clipboard

open BudgetCache Proto UnixPath Transition

/-! ### The last announcement of each kind -/

def latest {β : Type} (of : ProtoEvent → Option β) (sent : List ProtoEvent) : Option β :=
  (sent.filterMap of).getLast?

def textOf : ProtoEvent → Option Hash
  | .clipboardText t => some t.sha256
  | _ => none

def imageOf : ProtoEvent → Option Hash
  | .clipboardImage i => some i.sha256
  | _ => none

/-- The files of a selection that a peer may fetch. -/
def selectionOf : ProtoEvent → Option (List Hash)
  | .clipboardFiles f => some (outboundShas f.entries)
  | _ => none

def announcedText (sent : List ProtoEvent) : Option Hash := latest textOf sent

def announcedImage (sent : List ProtoEvent) : Option Hash := latest imageOf sent

def announcedFiles (sent : List ProtoEvent) : List Hash := (latest selectionOf sent).getD []

namespace Server

/-- The caches hold, and the peers can get, payloads of the last announcements only. -/
structure Current (s : Server) : Prop where
  clipboard : ∀ sha ∈ s.dispatcher.clipboardCache.entries,
    announcedText s.sent = some sha ∨ announcedImage s.sent = some sha
  file : ∀ sha ∈ s.dispatcher.fileCache.entries, sha ∈ announcedFiles s.sent
  retrieved : ∀ later sha bytes route, (s.dispatcher.get later sha route).1 = some bytes →
    match route with
    | .text | .image => announcedText s.sent = some sha ∨ announcedImage s.sent = some sha
    | .file => sha ∈ announcedFiles s.sent

end Server

/-! ### The keys of a cache -/

section Keys

variable {c : Cache Hash UInt8} {sha : Hash}

theorem mem_of_mem_insert {now : Nat} {k : Hash} {bytes : List UInt8}
    (stored : sha ∈ (c.insert now k bytes).2.entries) : sha = k ∨ sha ∈ c.entries := by
  by_cases fits : bytes.length ≤ c.byteBudget
  · obtain ⟨-, -, -, kept⟩ := Store.insert_spec c.valid fits now k
    have found := AList.lookup_isSome.mpr stored
    rw [Cache.insert, kept] at found
    split_ifs at found
    · exact (AList.mem_insert _).mp (AList.lookup_isSome.mp found)
    · cases found
  · rw [c.insert_rejected (Nat.lt_of_not_le fits)] at stored
    exact .inr stored

theorem mem_of_mem_remove {k : Hash} (stored : sha ∈ (c.remove k).2.entries) :
    sha ≠ k ∧ sha ∈ c.entries := by
  have eq : (c.remove k).2.toStore = (c.toStore.remove k).2 := rfl
  rw [eq, Store.remove_eq] at stored
  split_ifs at stored with present
  · exact AList.mem_erase.mp stored
  · refine ⟨?_, stored⟩
    rintro rfl
    exact present (AList.lookup_isSome.mpr stored)

theorem mem_of_mem_lookup {now : Nat} {k : Hash} (stored : sha ∈ (c.lookup now k).2.entries) :
    sha ∈ c.entries := by
  have eq : (c.lookup now k).2.toStore = (c.toStore.lookup now k).2 := rfl
  obtain same | without := c.toStore.lookup_eq now k
  · rw [eq, same] at stored
    exact stored
  · rw [eq, without] at stored
    exact (AList.mem_erase.mp stored).2

theorem mem_of_found {now : Nat} {bytes : List UInt8} (found : (c.lookup now sha).1 = some bytes) :
    sha ∈ c.entries := by
  have eq : (c.lookup now sha).1 = (c.toStore.lookup now sha).1 := rfl
  rw [eq, Store.lookup] at found
  cases stored : c.entries.lookup sha with
  | none => simp [stored] at found
  | some e => exact AList.lookup_isSome.mp (stored ▸ rfl)

theorem mem_of_mem_evictPrev {prev : Option Hash}
    (stored : sha ∈ (evictPrevOutboundClipboardCache c prev).entries) :
    prev ≠ some sha ∧ sha ∈ c.entries := by
  cases prev with
  | none => exact ⟨nofun, stored⟩
  | some k =>
    obtain ⟨other, stored⟩ := mem_of_mem_remove stored
    exact ⟨fun same => other (Option.some_inj.mp same).symm, stored⟩

theorem mem_of_mem_foldl_remove {shas : List Hash}
    (stored : sha ∈ (shas.foldl (fun cache k => (Cache.remove cache k).2) c).entries) :
    sha ∉ shas ∧ sha ∈ c.entries := by
  induction shas generalizing c with
  | nil => exact ⟨List.not_mem_nil, stored⟩
  | cons first rest ih =>
    obtain ⟨others, stored⟩ := ih stored
    obtain ⟨other, stored⟩ := mem_of_mem_remove stored
    exact ⟨List.not_mem_cons_of_ne_of_not_mem other others, stored⟩

theorem mem_of_mem_insertFiles {now : Nat} {snapshot : Snapshot} {files : List (FileEntry × Path)}
    (stored : sha ∈ (Dispatcher.insertFiles now snapshot files c).entries) :
    sha ∈ outboundShas (files.map (·.1)) ∨ sha ∈ c.entries := by
  induction files generalizing c with
  | nil => exact .inr stored
  | cons file rest ih =>
    obtain ⟨entry, path⟩ := file
    unfold Dispatcher.insertFiles at stored
    split_ifs at stored with large
    · simpa [outboundShas, large] using ih stored
    · have named : outboundShas (((entry, path) :: rest).map (·.1)) =
          entry.sha256 :: outboundShas (rest.map (·.1)) := by
        simp [outboundShas, large]
      rw [named]
      cases read : (snapshot path).bind (·.read) with
      | error e =>
        rw [read] at stored
        exact .inr stored
      | ok bytes =>
        rw [read] at stored
        rcases ih stored with later | now
        · exact .inl (List.mem_cons_of_mem _ later)
        · rcases mem_of_mem_insert now with rfl | before
          · exact .inl List.mem_cons_self
          · exact .inr before

end Keys

/-! ### What a push does -/

/-- The dispatcher remembers the same pushes, and its caches are the same. -/
structure Remains (d d' : Dispatcher) : Prop where
  text : d'.lastOutboundTextSha = d.lastOutboundTextSha
  image : d'.lastOutboundImageSha = d.lastOutboundImageSha
  files : d'.lastOutboundFilesSha = d.lastOutboundFilesSha
  clipboardCache : d'.clipboardCache = d.clipboardCache
  fileCache : d'.fileCache = d.fileCache

/-- What a dispatch or a recover push announces, and what it takes back. -/
inductive Pushed (d : Dispatcher) : Outcome → Prop
  | idle {d' : Dispatcher} (same : Remains d d') : Pushed d { dispatcher := d' }
  | text {d' : Dispatcher} {t : ClipboardText} {bytes : List UInt8}
      (same : Remains { d with
        clipboardCache :=
          evictPrevOutboundClipboardCache d.clipboardCache d.lastOutboundTextSha } d') :
      Pushed d ⟨d', [.clipboardText t], some (.text t.sha256 bytes)⟩
  | image {d' : Dispatcher} {i : ClipboardImage} {now : Nat} {bytes : List UInt8}
      (same : Remains { d with
        clipboardCache :=
          ((evictPrevOutboundClipboardCache d.clipboardCache d.lastOutboundImageSha).insert now
            i.sha256 bytes).2 } d') :
      Pushed d ⟨d', [.clipboardImage i], some (.image i.sha256)⟩
  | files {d' : Dispatcher} {f : ClipboardFiles} {paths : List Path}
      (same : Remains { d with
        lastOutboundFilesSha := []
        fileCache :=
          d.lastOutboundFilesSha.foldl (fun cache k => (Cache.remove cache k).2) d.fileCache } d') :
      Pushed d ⟨d', d.lastOutboundFilesSha.map (fun sha => .fileTransferCancel ⟨sha⟩) ++
        [.clipboardFiles f], some (.files f.fingerprint f.entries paths)⟩

section Push

variable (sha256 : List UInt8 → Hash) (d : Dispatcher) (now : Nat)

theorem pushText_pushed (t : String) : Pushed d (d.pushText sha256 now t) :=
  .text ⟨rfl, rfl, rfl, rfl, rfl⟩

theorem recoverPush_pushed (text : Option String) :
    Pushed d (d.handleClipboardRecoverPush sha256 now text) := by
  cases text with
  | none => exact .idle ⟨rfl, rfl, rfl, rfl, rfl⟩
  | some t => exact pushText_pushed sha256 d now t

theorem dispatchText_pushed (t : String) : Pushed d (d.dispatchText sha256 now t) := by
  unfold Dispatcher.dispatchText
  split_ifs
  · exact .idle ⟨rfl, rfl, rfl, rfl, rfl⟩
  · dsimp only
    split_ifs
    · exact .idle ⟨rfl, rfl, rfl, rfl, rfl⟩
    · exact .text ⟨rfl, rfl, rfl, rfl, rfl⟩

theorem dispatchImage_pushed (i : ImageBytes) : Pushed d (d.dispatchImage sha256 now i) := by
  unfold Dispatcher.dispatchImage
  dsimp only
  split_ifs
  · exact .idle ⟨rfl, rfl, rfl, rfl, rfl⟩
  · exact .idle ⟨rfl, rfl, rfl, rfl, rfl⟩
  · exact .image ⟨rfl, rfl, rfl, rfl, rfl⟩

theorem dispatchFiles_pushed (collected : Snapshot) (maxSize : Nat) (paths : List Path) :
    Pushed d (d.dispatchFiles sha256 collected maxSize paths) := by
  unfold Dispatcher.dispatchFiles
  cases dispatchFilesDecide sha256 collected paths d.lastOutboundFilesFingerprint maxSize with
  | ok fingerprint entries paths => exact .files ⟨rfl, rfl, rfl, rfl, rfl⟩
  | _ => exact .idle ⟨rfl, rfl, rfl, rfl, rfl⟩

theorem dispatch_pushed (maxSize : Nat) (content : Content) :
    Pushed d (d.dispatch sha256 now maxSize content) := by
  cases content with
  | text t => exact dispatchText_pushed sha256 d now t
  | image i => exact dispatchImage_pushed sha256 d now i
  | files paths collected => exact dispatchFiles_pushed sha256 d collected maxSize paths

end Push

/-! ### What the dispatcher remembers is what was announced -/

theorem latest_append {β : Type} (of : ProtoEvent → Option β) (sent more : List ProtoEvent) :
    latest of (sent ++ more) = (latest of more).or (latest of sent) := by
  rw [latest, List.filterMap_append, List.getLast?_append]
  rfl

/-- The cancels before an announcement are of no kind. -/
theorem latest_cancels {β : Type} {of : ProtoEvent → Option β}
    (silent : ∀ c, of (.fileTransferCancel c) = none) (shas : List Hash) (e : ProtoEvent) :
    latest of (shas.map (fun sha => .fileTransferCancel ⟨sha⟩) ++ [e]) = of e := by
  have none_ : (shas.map fun sha => ProtoEvent.fileTransferCancel ⟨sha⟩).filterMap of = [] := by
    simp [silent]
  rw [latest, List.filterMap_append, none_, List.nil_append, List.filterMap_cons]
  cases of e <;> rfl

namespace Server

/-- The text that was announced last: its push is under way, or it is the one remembered. -/
def textSha (s : Server) : Option Hash :=
  match s.pending with
  | some (.text sha _) => some sha
  | _ => s.dispatcher.lastOutboundTextSha

def imageSha (s : Server) : Option Hash :=
  match s.pending with
  | some (.image sha) => some sha
  | _ => s.dispatcher.lastOutboundImageSha

def filesSha (s : Server) : List Hash :=
  match s.pending with
  | some (.files _ entries _) => outboundShas entries
  | _ => s.dispatcher.lastOutboundFilesSha

/-- The caches hold the payloads of the last pushes only. -/
structure Tidy (s : Server) : Prop where
  text : announcedText s.sent = s.textSha
  image : announcedImage s.sent = s.imageSha
  files : announcedFiles s.sent = s.filesSha
  clipboardCache : ∀ sha ∈ s.dispatcher.clipboardCache.entries,
    s.textSha = some sha ∨ s.imageSha = some sha
  fileCache : ∀ sha ∈ s.dispatcher.fileCache.entries, sha ∈ s.filesSha

theorem Tidy.current {s : Server} (tidy : s.Tidy) : s.Current := by
  have clipboard : ∀ sha ∈ s.dispatcher.clipboardCache.entries,
      announcedText s.sent = some sha ∨ announcedImage s.sent = some sha := by
    rw [tidy.text, tidy.image]
    exact tidy.clipboardCache
  have file : ∀ sha ∈ s.dispatcher.fileCache.entries, sha ∈ announcedFiles s.sent := by
    rw [tidy.files]
    exact tidy.fileCache
  refine ⟨clipboard, file, fun later sha bytes route found => ?_⟩
  cases route with
  | text => exact clipboard sha (mem_of_found found)
  | image => exact clipboard sha (mem_of_found found)
  | file => exact file sha (mem_of_found found)

theorem announce_fields (sha256 : List UInt8 → Hash) (s : Server) (content : Content)
    {out : Outcome} (silent : out.fill = none → out.events = []) :
    (s.announce sha256 content out).dispatcher = out.dispatcher ∧
      (s.announce sha256 content out).sent = s.sent ++ out.events ∧
      (s.announce sha256 content out).pending = out.fill.or s.pending := by
  unfold Server.announce
  cases fill : out.fill with
  | none => exact ⟨rfl, by simp [silent fill], rfl⟩
  | some f => cases content <;> exact ⟨rfl, rfl, rfl⟩

/-- A push takes back the payload of the push before it, and no other. -/
theorem Tidy.push {s s' : Server} (tidy : s.Tidy) (idle : s.pending = none) {out : Outcome}
    (pushed : Pushed s.dispatcher out) (dispatcher : s'.dispatcher = out.dispatcher)
    (sent : s'.sent = s.sent ++ out.events) (pending : s'.pending = out.fill) : s'.Tidy := by
  obtain ⟨text, image, files, clipboardCache, fileCache⟩ := tidy
  simp only [textSha, imageSha, filesSha, idle] at text image files clipboardCache fileCache
  cases pushed with
  | idle same =>
    simp only [List.append_nil] at sent
    constructor <;>
      simp only [textSha, imageSha, filesSha, pending, sent, dispatcher, same.text, same.image,
        same.files, same.clipboardCache, same.fileCache] <;> assumption
  | text same =>
    constructor <;>
      simp only [textSha, imageSha, filesSha, pending, sent, dispatcher, same.image, same.files,
        same.clipboardCache, same.fileCache]
    · rw [announcedText, latest_append]
      rfl
    · rw [← image, announcedImage, latest_append]
      rfl
    · rw [← files, announcedFiles, latest_append]
      rfl
    · intro sha stored
      obtain ⟨other, stored⟩ := mem_of_mem_evictPrev stored
      exact .inr ((clipboardCache sha stored).resolve_left other)
    · exact fileCache
  | image same =>
    constructor <;>
      simp only [textSha, imageSha, filesSha, pending, sent, dispatcher, same.text, same.files,
        same.clipboardCache, same.fileCache]
    · rw [← text, announcedText, latest_append]
      rfl
    · rw [announcedImage, latest_append]
      rfl
    · rw [← files, announcedFiles, latest_append]
      rfl
    · intro sha stored
      rcases mem_of_mem_insert stored with rfl | stored
      · exact .inr rfl
      · obtain ⟨other, stored⟩ := mem_of_mem_evictPrev stored
        exact .inl ((clipboardCache sha stored).resolve_right other)
    · exact fileCache
  | files same =>
    constructor <;>
      simp only [textSha, imageSha, filesSha, pending, sent, dispatcher, same.text, same.image,
        same.clipboardCache, same.fileCache]
    · rw [← text, announcedText, latest_append, latest_cancels fun _ => rfl]
      rfl
    · rw [← image, announcedImage, latest_append, latest_cancels fun _ => rfl]
      rfl
    · rw [announcedFiles, latest_append, latest_cancels fun _ => rfl]
      rfl
    · exact clipboardCache
    · intro sha stored
      obtain ⟨other, stored⟩ := mem_of_mem_foldl_remove stored
      exact absurd (fileCache sha stored) other

theorem Tidy.announce {sha256 : List UInt8 → Hash} {s : Server} (tidy : s.Tidy)
    (idle : s.pending = none) (content : Content) {out : Outcome}
    (pushed : Pushed s.dispatcher out) : (s.announce sha256 content out).Tidy := by
  have silent : out.fill = none → out.events = [] := by
    cases pushed with
    | idle same => exact fun _ => rfl
    | _ => exact nofun
  obtain ⟨dispatcher, sent, pending⟩ := announce_fields sha256 s content silent
  rw [idle, Option.or_none] at pending
  exact tidy.push idle pushed dispatcher sent pending

/-- What is left of a push puts the announced payloads into the cache. -/
theorem Tidy.complete {s : Server} (tidy : s.Tidy) {fill : Fill} (pending : s.pending = some fill)
    (filled : Snapshot) : (s.complete filled fill).Tidy := by
  obtain ⟨text, image, files, clipboardCache, fileCache⟩ := tidy
  cases fill with
  | text sha bytes =>
    simp only [textSha, imageSha, filesSha, pending] at text image files clipboardCache fileCache
    have caches : ∀ k ∈ (if bytes.length > clipboardTextInlineLimit then
        (s.dispatcher.clipboardCache.insert s.clock sha bytes).2
        else s.dispatcher.clipboardCache).entries,
        some sha = some k ∨ s.dispatcher.lastOutboundImageSha = some k := by
      intro k stored
      split_ifs at stored
      · rcases mem_of_mem_insert stored with rfl | stored
        · exact .inl rfl
        · exact clipboardCache k stored
      · exact clipboardCache k stored
    unfold Server.complete
    dsimp only
    split_ifs <;> exact ⟨text, image, files, caches, fileCache⟩
  | image sha =>
    simp only [textSha, imageSha, filesSha, pending] at text image files clipboardCache fileCache
    exact ⟨text, image, files, clipboardCache, fileCache⟩
  | files fingerprint entries paths =>
    simp only [textSha, imageSha, filesSha, pending] at text image files clipboardCache fileCache
    refine ⟨text, image, files, clipboardCache, fun sha stored => ?_⟩
    rcases mem_of_mem_insertFiles stored with named | stored
    · obtain ⟨entry, mem, rfl⟩ := List.mem_map.mp named
      obtain ⟨mem, small⟩ := List.mem_filter.mp mem
      obtain ⟨file, zipped, rfl⟩ := List.mem_map.mp mem
      exact List.mem_map_of_mem (List.mem_filter.mpr ⟨(List.of_mem_zip zipped).1, small⟩)
    · exact fileCache sha stored

theorem Tidy.get {s : Server} (tidy : s.Tidy) (route : Route) (sha : Hash) :
    { s with dispatcher := (s.dispatcher.get s.clock sha route).2 }.Tidy := by
  obtain ⟨text, image, files, clipboardCache, fileCache⟩ := tidy
  cases route with
  | text =>
    exact ⟨text, image, files, fun k stored => clipboardCache k (mem_of_mem_lookup stored),
      fileCache⟩
  | image =>
    exact ⟨text, image, files, fun k stored => clipboardCache k (mem_of_mem_lookup stored),
      fileCache⟩
  | file =>
    exact ⟨text, image, files, clipboardCache,
      fun k stored => fileCache k (mem_of_mem_lookup stored)⟩

theorem Tidy.act {sha256 : List UInt8 → Hash} {s : Server} (tidy : s.Tidy) (action : Action) :
    (s.act sha256 action).Tidy := by
  cases action with
  | take content maxSize =>
    unfold Server.act
    split_ifs with busy
    · exact tidy
    · have idle : s.pending = none := by simpa using busy
      exact tidy.announce idle content (dispatch_pushed sha256 ..)
  | recover text =>
    unfold Server.act
    split_ifs with busy
    · exact tidy
    · have idle : s.pending = none := by simpa using busy
      exact tidy.announce idle _ (recoverPush_pushed sha256 ..)
  | complete filled =>
    unfold Server.act
    cases pending : s.pending with
    | none => exact tidy
    | some fill => exact tidy.complete pending filled
  | get route sha => exact tidy.get route sha

theorem Tidy.step {sha256 : List UInt8 → Hash} {s : Server} (tidy : s.Tidy) (e : Event) :
    (s.step sha256 e).Tidy := by
  have ticked : { s with clock := s.clock + e.elapsed }.Tidy :=
    ⟨tidy.text, tidy.image, tidy.files, tidy.clipboardCache, tidy.fileCache⟩
  exact ticked.act e.action

theorem tidy_new : Tidy {} :=
  ⟨rfl, rfl, rfl, fun sha stored => absurd stored (AList.notMem_empty sha),
    fun sha stored => absurd stored (AList.notMem_empty sha)⟩

end Server

/-- In every run the caches hold payloads of the last announced text, image and selection only. -/
theorem caches_hold_last_announced (sha256 : List UInt8 → Hash) (events : List Event) :
    Always (Server.step sha256) Server.Current {} events :=
  always_of_inv Server.Tidy (fun _ e tidy => tidy.step e) (fun _ tidy => tidy.current)
    Server.tidy_new events

/-- The second image takes the place of the first, and the selection stays. -/
example :
    let sha256 : List UInt8 → Hash := fun bytes => Vector.replicate 32 (UInt8.ofNat bytes.length)
    let disk : Snapshot := fun _ => .ok { bytes := [1, 2, 3] }
    let push (content : Content) : List Event := [⟨1, .take content 4⟩, ⟨1, .complete disk⟩]
    let s := run (Server.step sha256) {}
      (push (.image ⟨"image/png", [1]⟩) ++ push (.files ["/x".toList] disk) ++
        push (.image ⟨"image/png", [1, 2]⟩))
    s.dispatcher.clipboardCache.entries.keys = [Vector.replicate 32 2] ∧
      s.dispatcher.fileCache.entries.keys = [Vector.replicate 32 3] := by
  decide +kernel

end LanMouse.Clipboard
