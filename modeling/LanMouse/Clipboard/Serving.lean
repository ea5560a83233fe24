import LanMouse.Clipboard.Dispatch
import LanMouse.Lib.CacheOffers
import LanMouse.Lib.Transition

/-!
# Serving what was announced

The peers fetch announced payloads by their SHA-256 while the service loop goes on. A push hands out
its announcement and fills the cache later, and requests come in between and at any time after. An
image is in the cache before its announcement is handed out; a text or a file is not.

Beside the dispatcher, the server has a ledger of what was announced: for each cache, the payloads
the peers were told of and what became of them. A payload is withdrawn when a later push takes it
back, and dropped when the byte budget or another payload under its key costs it its place.

`announced_payloads_served` is about the runs in which no request comes before its payload is
stored, the files are read as they were announced and the caches have room: there every payload that
is announced is stored when its push is complete, and until it is withdrawn or its time is over,
every request for it is answered with the announced bytes.
-/
namespace LanMouse.Clipboard

open BudgetCache Proto UnixPath Transition

/-! ### Requests -/

inductive Route where
  | text
  | image
  | file
  deriving DecidableEq, Repr

def Route.ttl : Route → Nat
  | .text | .image => clipboardCacheTtl
  | .file => fileCacheTtl

/-- The body of the answer to a GET, `none` for a 404. The text and the image route look into the
same cache. -/
def Dispatcher.get (d : Dispatcher) (now : Nat) (sha : Hash) :
    Route → Option (List UInt8) × Dispatcher
  | .text | .image =>
    let (found, clipboardCache) := d.clipboardCache.lookup now sha
    (found, { d with clipboardCache })
  | .file =>
    let (found, fileCache) := d.fileCache.lookup now sha
    (found, { d with fileCache })

/-! ### The server -/

abbrev Payload := Offer Hash UInt8

/-- The dispatcher with what it has handed out, and a ledger for each cache. -/
structure Server where
  clock : Nat := 0
  dispatcher : Dispatcher := .new
  pending : Option Fill := none
  sent : List ProtoEvent := []
  payloads : List Payload := []
  files : List Payload := []

def Server.offers (s : Server) : Route → List Payload
  | .text | .image => s.payloads
  | .file => s.files

/-- `take` is a local change, `recover` a push to a peer that connects. `complete` is what is left
of a push when its announcement is handed out; the files are read again then. -/
inductive Action where
  | take (content : Content) (maxSize : Nat)
  | recover (text : Option String)
  | complete (filled : Snapshot)
  | get (route : Route) (sha : Hash)

structure Event where
  elapsed : Nat := 0
  action : Action

/-- The payloads a peer that got the event has to ask for. -/
def fetchable : Route → ProtoEvent → List Hash
  | .text, .clipboardText t => if t.contentInline.isNone then [t.sha256] else []
  | .image, .clipboardImage i => [i.sha256]
  | .file, .clipboardFiles f => outboundShas f.entries
  | _, _ => []

def Content.route : Content → Route
  | .text _ => .text
  | .image _ => .image
  | .files .. => .file

/-- The payloads that an announcement leaves to be fetched, with the bytes it was made for. -/
def Content.offers (sha256 : List UInt8 → Hash) : Content → List Payload
  | .text t =>
    let bytes := asBytes t
    if bytes.length > clipboardTextInlineLimit then [⟨sha256 bytes, bytes, .announced⟩] else []
  | .image i => [⟨sha256 i.data, i.data, .announced⟩]
  | .files paths collected =>
    paths.filterMap fun path =>
      match collected path with
      | .ok stat =>
        if shouldMarkTooLarge stat.bytes.length then none
        else some ⟨sha256 stat.bytes, stat.bytes, .announced⟩
      | .error _ => none

namespace Server

variable (sha256 : List UInt8 → Hash)

/-- An announcement of `content` is handed out, if there is one. -/
def announce (s : Server) (content : Content) (out : Outcome) : Server :=
  let d := s.dispatcher
  match out.fill with
  | none => { s with dispatcher := out.dispatcher }
  | some fill =>
    let s := { s with
      dispatcher := out.dispatcher, pending := some fill, sent := s.sent ++ out.events }
    let fresh := content.offers sha256
    match content with
    | .text _ => { s with payloads := withdraw d.lastOutboundTextSha.toList s.payloads ++ fresh }
    | .image i =>
      let cache := evictPrevOutboundClipboardCache d.clipboardCache d.lastOutboundImageSha
      let payloads := withdraw d.lastOutboundImageSha.toList s.payloads ++ fresh
      { s with payloads := payloads.map (Offer.afterInsert cache s.clock (sha256 i.data) i.data) }
    | .files .. => { s with files := withdraw d.lastOutboundFilesSha s.files ++ fresh }

/-- The ledger's side of `insertFiles`. -/
def storeFiles (now : Nat) (snapshot : Snapshot) :
    List (FileEntry × Path) → FileCache → List Payload → List Payload
  | [], _, offers => offers
  | (entry, path) :: rest, cache, offers =>
    if entry.mime = mimeTooLarge then storeFiles now snapshot rest cache offers
    else
      match (snapshot path).bind (·.read) with
      | .ok bytes =>
        storeFiles now snapshot rest (cache.insertOwned now entry.sha256 bytes)
          (offers.map (Offer.afterInsert cache now entry.sha256 bytes))
      | .error _ => offers

def complete (s : Server) (filled : Snapshot) (fill : Fill) : Server :=
  let d := s.dispatcher
  let s := { s with dispatcher := d.complete s.clock filled fill, pending := none }
  match fill with
  | .text sha bytes =>
    if bytes.length > clipboardTextInlineLimit then
      { s with payloads := s.payloads.map (Offer.afterInsert d.clipboardCache s.clock sha bytes) }
    else s
  | .image _ => s
  | .files _ entries paths =>
    { s with files := storeFiles s.clock filled (entries.zip paths) d.fileCache s.files }

/-- The service loop does not turn to another push before the pending one is complete. -/
def act (s : Server) : Action → Server
  | .take content maxSize =>
    if s.pending.isSome then s
    else s.announce sha256 content (s.dispatcher.dispatch sha256 s.clock maxSize content)
  | .recover text =>
    if s.pending.isSome then s
    else
      let out := s.dispatcher.handleClipboardRecoverPush sha256 s.clock text
      s.announce sha256 (.text (text.getD "")) out
  | .complete filled =>
    match s.pending with
    | some fill => s.complete filled fill
    | none => s
  | .get route sha => { s with dispatcher := (s.dispatcher.get s.clock sha route).2 }

def step (s : Server) (e : Event) : Server :=
  { s with clock := s.clock + e.elapsed }.act sha256 e.action

/-- The ledger has every payload the peers were told of. -/
def Listed (s : Server) : Prop :=
  ∀ route, ∀ e ∈ s.sent, ∀ sha ∈ fetchable route e, sha ∈ (s.offers route).map (·.key)

/-- A request for a payload that was announced, not taken back and is not too old is answered with
the announced bytes. -/
def Answers (s : Server) (e : Event) : Prop :=
  match e.action with
  | .get route sha => ∀ o ∈ s.offers route, o.key = sha → o.status ≠ .withdrawn →
    (∀ since, o.status = .stored since → s.clock + e.elapsed - since < route.ttl) →
      (s.dispatcher.get (s.clock + e.elapsed) sha route).1 = some o.bytes
  | _ => True

end Server

/-! ### The condition -/

/-- What the rest of a push stores. -/
def Fill.shas (fill : Fill) : Route → List Hash
  | .text | .image =>
    match fill with
    | .text sha bytes => if bytes.length > clipboardTextInlineLimit then [sha] else []
    | _ => []
  | .file =>
    match fill with
    | .files _ entries paths => outboundShas ((entries.zip paths).map (·.1))
    | _ => []

/-- The cache has room for the payload, and the ledger has no other bytes under its hash. -/
def Takes (cache : Cache Hash UInt8) (offers : List Payload) (sha : Hash) (bytes : List UInt8) :
    Prop :=
  cache.bytesUsed + bytes.length ≤ cache.byteBudget ∧ ∀ o ∈ offers, o.key = sha → o.bytes = bytes

instance (cache : Cache Hash UInt8) (offers : List Payload) (sha : Hash) (bytes : List UInt8) :
    Decidable (Takes cache offers sha bytes) := inferInstanceAs (Decidable (_ ∧ _))

/-- Every file of the announcement can be read, with the bytes it was announced with, and the cache
takes it. -/
def TakesFiles (now : Nat) (snapshot : Snapshot) (offers : List Payload) :
    List (FileEntry × Path) → FileCache → Prop
  | [], _ => True
  | (entry, path) :: rest, cache =>
    if entry.mime = mimeTooLarge then TakesFiles now snapshot offers rest cache
    else
      match (snapshot path).bind (·.read) with
      | .ok bytes => Takes cache offers entry.sha256 bytes ∧
        TakesFiles now snapshot offers rest (cache.insertOwned now entry.sha256 bytes)
      | .error _ => False

instance decidableTakesFiles (now : Nat) (snapshot : Snapshot) (offers : List Payload) :
    ∀ files cache, Decidable (TakesFiles now snapshot offers files cache)
  | [], _ => isTrue trivial
  | (entry, path) :: rest, cache => by
    have rest_ := decidableTakesFiles now snapshot offers rest
    unfold TakesFiles
    split
    · exact rest_ cache
    · split <;> infer_instance

namespace Server

/-- The payloads that the pending push has yet to store. -/
def awaited (s : Server) (route : Route) : List Hash := s.pending.elim [] (·.shas route)

/-- The caches take what the rest of a push stores. -/
def TakesFill (s : Server) (now : Nat) (filled : Snapshot) : Fill → Prop
  | .text sha bytes => bytes.length > clipboardTextInlineLimit →
    Takes s.dispatcher.clipboardCache s.payloads sha bytes
  | .image _ => True
  | .files _ entries paths =>
    TakesFiles now filled s.files (entries.zip paths) s.dispatcher.fileCache

instance (s : Server) (now : Nat) (filled : Snapshot) :
    ∀ fill, Decidable (s.TakesFill now filled fill)
  | .text .. => inferInstanceAs (Decidable (_ → Takes ..))
  | .image _ => isTrue trivial
  | .files .. => inferInstanceAs (Decidable (TakesFiles ..))

/-- No request is for a payload that the pending push has yet to store; and where a push stores its
payloads, the cache takes them. -/
def Orderly (sha256 : List UInt8 → Hash) (s : Server) (e : Event) : Prop :=
  match e.action with
  | .get route sha => sha ∉ s.awaited route
  | .take (.image i) _ => Takes s.dispatcher.clipboardCache s.payloads (sha256 i.data) i.data
  | .complete filled => ∀ fill ∈ s.pending, s.TakesFill (s.clock + e.elapsed) filled fill
  | _ => True

instance (sha256 : List UInt8 → Hash) (s : Server) (e : Event) :
    Decidable (s.Orderly sha256 e) := by
  unfold Orderly
  split <;> infer_instance

end Server

/-! ### What a push does to the caches -/

section Push

variable (sha256 : List UInt8 → Hash)

/-- The clipboard cache when the announcement is handed out. -/
def clipboardCacheAtPush (d : Dispatcher) (now : Nat) : Content → ClipboardCache
  | .text _ => evictPrevOutboundClipboardCache d.clipboardCache d.lastOutboundTextSha
  | .image i =>
    ((evictPrevOutboundClipboardCache d.clipboardCache d.lastOutboundImageSha).insert now
      (sha256 i.data) i.data).2
  | .files .. => d.clipboardCache

/-- The file cache when the announcement is handed out. -/
def fileCacheAtPush (d : Dispatcher) : Content → FileCache
  | .text _ | .image _ => d.fileCache
  | .files .. => d.lastOutboundFilesSha.foldl (fun c k => (Cache.remove c k).2) d.fileCache

/-- What a push of `content` hands out, and what it leaves of the caches. -/
structure Pushes (d : Dispatcher) (now : Nat) (content : Content) (out : Outcome) : Prop where
  idle : out.fill = none →
    out.dispatcher.clipboardCache = d.clipboardCache ∧ out.dispatcher.fileCache = d.fileCache
  named : ∀ route, ∀ e ∈ out.events, ∀ sha ∈ fetchable route e,
    route = content.route ∧ sha ∈ (content.offers sha256).map (·.key)
  clipboard : out.fill.isSome →
    out.dispatcher.clipboardCache = clipboardCacheAtPush sha256 d now content
  file : out.fill.isSome → out.dispatcher.fileCache = fileCacheAtPush d content
  filled : ∀ fill ∈ out.fill, content.route ≠ .image →
    ∀ o ∈ content.offers sha256, o.key ∈ fill.shas content.route

variable {sha256}

theorem Pushes.of_idle {d : Dispatcher} {now : Nat} {content : Content} {d' : Dispatcher}
    (clipboard : d'.clipboardCache = d.clipboardCache) (file : d'.fileCache = d.fileCache) :
    Pushes sha256 d now content { dispatcher := d' } where
  idle _ := ⟨clipboard, file⟩
  named := nofun
  clipboard := nofun
  file := nofun
  filled := nofun

variable (sha256)

theorem pushText_pushes (d : Dispatcher) (now : Nat) (t : String) :
    Pushes sha256 d now (.text t) (d.pushText sha256 now t) where
  idle := nofun
  named route e mem sha told := by
    obtain rfl := List.mem_singleton.mp mem
    cases route with
    | text =>
      refine ⟨rfl, ?_⟩
      by_cases short : (asBytes t).length ≤ clipboardTextInlineLimit
      · simp [fetchable, ClipboardText.fromContent, short] at told
      · have long : clipboardTextInlineLimit < (asBytes t).length := Nat.lt_of_not_le short
        simpa [fetchable, ClipboardText.fromContent, short, Content.offers, long] using told
    | image => cases told
    | file => cases told
  clipboard _ := rfl
  file _ := rfl
  filled fill made _ o mem := by
    obtain rfl : _ = fill := Option.some_inj.mp made
    simp only [Content.offers] at mem
    split_ifs at mem with long
    · simp [Fill.shas, Content.route, long, List.mem_singleton.mp mem]
    · cases mem

theorem dispatchText_pushes (d : Dispatcher) (now : Nat) (t : String) :
    Pushes sha256 d now (.text t) (d.dispatchText sha256 now t) := by
  unfold Dispatcher.dispatchText
  by_cases same : some t = d.clipboardLastText
  · rw [if_pos same]
    exact .of_idle rfl rfl
  · rw [if_neg same]
    by_cases seen : (d.clipboardLru.contains now (sha256 (asBytes t))).1 = true
    · simp only [seen, if_true]
      exact .of_idle rfl rfl
    · simp only [seen, Bool.false_eq_true, if_false]
      have pushes := pushText_pushes sha256 d now t
      exact ⟨nofun, pushes.named, fun _ => rfl, fun _ => rfl, pushes.filled⟩

theorem dispatchImage_pushes (d : Dispatcher) (now : Nat) (i : ImageBytes) :
    Pushes sha256 d now (.image i) (d.dispatchImage sha256 now i) := by
  unfold Dispatcher.dispatchImage
  by_cases seen : (d.imageLruFingerprints.contains now (sha256 i.data)).1 = true
  · simp only [seen, if_true]
    exact .of_idle rfl rfl
  · simp only [seen, Bool.false_eq_true, if_false]
    by_cases same : some (sha256 i.data) = d.lastOutboundImageSha
    · simp only [same, if_true]
      exact .of_idle rfl rfl
    · simp only [same, if_false]
      refine ⟨nofun, ?_, fun _ => rfl, fun _ => rfl, fun _ _ other => absurd rfl other⟩
      intro route e mem sha told
      obtain rfl := List.mem_singleton.mp mem
      cases route with
      | text => cases told
      | image => exact ⟨rfl, told⟩
      | file => cases told

/-- The files that an announcement names are those of the ledger. -/
theorem outboundShas_mem_offers {collected : Snapshot} {maxSize : Nat} {paths : List Path}
    {entries : List FileEntry}
    (ok : collectFilesBlocking sha256 collected maxSize paths = .ok entries) {sha : Hash}
    (told : sha ∈ outboundShas entries) :
    sha ∈ ((Content.files paths collected).offers sha256).map (·.key) := by
  obtain ⟨entry, mem, rfl⟩ := List.mem_map.mp told
  obtain ⟨mem, small⟩ := List.mem_filter.mp mem
  obtain ⟨path, selected, made⟩ := mem_collectFilesBlocking ok mem
  obtain ⟨stat, found, fits, hash⟩ := collectFile_sha256 made (by simpa using small)
  refine List.mem_map.mpr ⟨⟨sha256 stat.bytes, stat.bytes, .announced⟩, ?_, hash.symm⟩
  exact List.mem_filterMap.mpr ⟨path, selected, by simp [found, fits]⟩

/-- The files of the ledger are those that the push stores. -/
theorem offers_mem_outboundShas {collected : Snapshot} {maxSize : Nat} {paths : List Path}
    {entries : List FileEntry}
    (ok : collectFilesBlocking sha256 collected maxSize paths = .ok entries) {o : Payload}
    (mem : o ∈ (Content.files paths collected).offers sha256) :
    o.key ∈ outboundShas ((entries.zip paths).map (·.1)) := by
  obtain ⟨path, selected, offered⟩ := List.mem_filterMap.mp mem
  obtain ⟨entry, both, made⟩ := Batch.exists_zip_of_mapM ok selected
  refine List.mem_map.mpr ⟨entry, List.mem_filter.mpr ⟨List.mem_map.mpr ⟨_, both, rfl⟩, ?_⟩, ?_⟩
  all_goals
    unfold collectFile at made
    cases found : collected path with
    | error e => simp [found] at made
    | ok stat =>
      simp only [found] at made offered
      split_ifs at made offered
      unfold streamSha256Blocking FileStat.read at made
      cases unreadable : stat.readError with
      | some e => simp [unreadable] at made
      | none =>
        simp only [unreadable] at made
        cases made
        cases offered
        simp [detectMime_ne]

theorem dispatchFiles_pushes (d : Dispatcher) (now : Nat) (collected : Snapshot) (maxSize : Nat)
    (paths : List Path) :
    Pushes sha256 d now (.files paths collected)
      (d.dispatchFiles sha256 collected maxSize paths) := by
  unfold Dispatcher.dispatchFiles dispatchFilesDecide
  by_cases none_ : paths = []
  · simp only [none_, if_true]
    exact .of_idle rfl rfl
  · by_cases same : d.lastOutboundFilesFingerprint = some (fileSelectionFingerprint sha256 paths)
    · simp only [none_, same, if_true, if_false]
      exact .of_idle rfl rfl
    · simp only [none_, same, if_false]
      cases ok : collectFilesBlocking sha256 collected maxSize paths with
      | error e => cases e <;> exact .of_idle rfl rfl
      | ok entries =>
        refine ⟨nofun, ?_, fun _ => rfl, fun _ => rfl, ?_⟩
        · intro route e mem sha told
          obtain cancel | rfl := List.mem_append.mp mem |>.imp_right List.mem_singleton.mp
          · obtain ⟨prev, -, rfl⟩ := List.mem_map.mp cancel
            cases route <;> cases told
          · cases route with
            | text => cases told
            | image => cases told
            | file => exact ⟨rfl, outboundShas_mem_offers sha256 ok told⟩
        · rintro fill made - o mem
          obtain rfl : _ = fill := Option.some_inj.mp made
          exact offers_mem_outboundShas sha256 ok mem

theorem dispatch_pushes (d : Dispatcher) (now maxSize : Nat) (content : Content) :
    Pushes sha256 d now content (d.dispatch sha256 now maxSize content) := by
  cases content with
  | text t => exact dispatchText_pushes sha256 d now t
  | image i => exact dispatchImage_pushes sha256 d now i
  | files paths collected => exact dispatchFiles_pushes sha256 d now collected maxSize paths

theorem recoverPush_pushes (d : Dispatcher) (now : Nat) (text : Option String) :
    Pushes sha256 d now (.text (text.getD ""))
      (d.handleClipboardRecoverPush sha256 now text) := by
  cases text with
  | none => exact .of_idle rfl rfl
  | some t => exact pushText_pushes sha256 d now t

end Push

/-! ### The ledger is right -/

namespace Server

structure Sound (s : Server) : Prop where
  payloads : Backed clipboardCacheTtl s.dispatcher.clipboardCache s.clock s.payloads
  files : Backed fileCacheTtl s.dispatcher.fileCache s.clock s.files
  listed : s.Listed

/-- What is stored is found until its time is over. -/
theorem Sound.serves {s : Server} (sound : s.Sound) {route : Route} {o : Payload}
    (mem : o ∈ s.offers route) {since later : Nat} (stored : o.status = .stored since)
    (after : s.clock ≤ later) (fresh : later - since < route.ttl) :
    (s.dispatcher.get later o.key route).1 = some o.bytes := by
  cases route with
  | text => exact sound.payloads.serves mem stored after fresh
  | image => exact sound.payloads.serves mem stored after fresh
  | file => exact sound.files.serves mem stored after fresh

variable {sha256 : List UInt8 → Hash}

theorem Sound.tick {s : Server} (sound : s.Sound) (elapsed : Nat) :
    { s with clock := s.clock + elapsed }.Sound where
  payloads := sound.payloads.mono (Nat.le_add_right ..)
  files := sound.files.mono (Nat.le_add_right ..)
  listed := sound.listed

theorem announced_offers (content : Content) :
    ∀ o ∈ content.offers sha256, o.status = .announced := by
  intro o mem
  cases content with
  | text t =>
    simp only [Content.offers] at mem
    split_ifs at mem
    · rw [List.mem_singleton.mp mem]
    · cases mem
  | image i => rw [List.mem_singleton.mp mem]
  | files paths collected =>
    obtain ⟨path, -, made⟩ := List.mem_filterMap.mp mem
    split at made
    · split_ifs at made
      cases made
      rfl
    · cases made

theorem Listed.push {s s' : Server} (listed : s.Listed) {content : Content} {out : Outcome}
    (pushes : Pushes sha256 s.dispatcher s.clock content out)
    (sent : s'.sent = s.sent ++ out.events)
    (old : ∀ route, (s.offers route).map (·.key) ⊆ (s'.offers route).map (·.key))
    (new : (content.offers sha256).map (·.key) ⊆ (s'.offers content.route).map (·.key)) :
    s'.Listed := by
  intro route e mem sha told
  rw [sent] at mem
  obtain before | now := List.mem_append.mp mem
  · exact old route (listed route e before sha told)
  · obtain ⟨rfl, offered⟩ := pushes.named route e now sha told
    exact new offered

theorem backed_evictPrev {cache : ClipboardCache} {ttl now : Nat} {offers : List Payload}
    (backed : Backed ttl cache now offers) (prev : Option Hash) :
    Backed ttl (evictPrevOutboundClipboardCache cache prev) now (withdraw prev.toList offers) := by
  cases prev with
  | none => exact backed
  | some sha => exact backed.remove sha

theorem Sound.announce {s : Server} (sound : s.Sound) {content : Content} {out : Outcome}
    (pushes : Pushes sha256 s.dispatcher s.clock content out) :
    (s.announce sha256 content out).Sound := by
  unfold Server.announce
  cases fill : out.fill with
  | none =>
    obtain ⟨clipboard, file⟩ := pushes.idle fill
    exact ⟨clipboard ▸ sound.payloads, file ▸ sound.files, sound.listed⟩
  | some fill' =>
    have pushed : out.fill.isSome := by simp [fill]
    have clipboard := pushes.clipboard pushed
    have file := pushes.file pushed
    cases content with
    | text t =>
      refine ⟨?_, file ▸ sound.files, sound.listed.push pushes rfl ?_ ?_⟩
      · rw [clipboard]
        exact (backed_evictPrev sound.payloads _).announce (announced_offers (.text t))
      · intro route
        cases route <;> simp [Server.offers]
      · simp [Server.offers, Content.route]
    | image i =>
      refine ⟨?_, file ▸ sound.files, sound.listed.push pushes rfl ?_ ?_⟩
      · rw [clipboard]
        have backed := backed_evictPrev sound.payloads s.dispatcher.lastOutboundImageSha
        exact (backed.announce (announced_offers (.image i))).insert _ _
      · intro route
        cases route <;> simp [Server.offers, Function.comp_def]
      · simp [Server.offers, Content.route, Function.comp_def]
    | files paths collected =>
      refine ⟨clipboard ▸ sound.payloads, ?_, sound.listed.push pushes rfl ?_ ?_⟩
      · rw [file]
        exact (sound.files.withdraw _).announce (announced_offers (.files paths collected))
      · intro route
        cases route <;> simp [Server.offers]
      · simp [Server.offers, Content.route]

theorem Listed.of_keys {s s' : Server} (listed : s.Listed) (sent : s'.sent = s.sent)
    (keys : ∀ route, (s'.offers route).map (·.key) = (s.offers route).map (·.key)) : s'.Listed := by
  intro route e mem sha told
  rw [keys]
  exact listed route e (sent ▸ mem) sha told

theorem keys_storeFiles (now : Nat) (snapshot : Snapshot) (files : List (FileEntry × Path))
    (cache : FileCache) (offers : List Payload) :
    (storeFiles now snapshot files cache offers).map (·.key) = offers.map (·.key) := by
  fun_induction storeFiles now snapshot files cache offers with
  | case1 => rfl
  | case2 _ _ _ _ _ _ ih => exact ih
  | case3 _ _ _ _ _ _ _ _ ih => simpa [Function.comp_def] using ih
  | case4 => rfl

theorem backed_storeFiles {now : Nat} {cache : FileCache} {offers : List Payload}
    (backed : Backed fileCacheTtl cache now offers) (snapshot : Snapshot)
    (files : List (FileEntry × Path)) :
    Backed fileCacheTtl (Dispatcher.insertFiles now snapshot files cache) now
      (storeFiles now snapshot files cache offers) := by
  induction files generalizing cache offers with
  | nil => exact backed
  | cons file rest ih =>
    obtain ⟨entry, path⟩ := file
    unfold storeFiles Dispatcher.insertFiles
    split_ifs with large
    · exact ih backed
    · cases (snapshot path).bind (·.read) with
      | ok bytes => exact ih (backed.insert entry.sha256 bytes)
      | error e => exact backed

theorem Sound.complete {s : Server} (sound : s.Sound) (filled : Snapshot) (fill : Fill) :
    (s.complete filled fill).Sound := by
  cases fill with
  | text sha bytes =>
    unfold Server.complete
    simp only [Dispatcher.complete]
    split_ifs with long
    · refine ⟨sound.payloads.insert sha bytes, sound.files, sound.listed.of_keys rfl ?_⟩
      intro route
      cases route <;> simp [Server.offers, Function.comp_def]
    · exact ⟨sound.payloads, sound.files, sound.listed⟩
  | image sha => exact ⟨sound.payloads, sound.files, sound.listed⟩
  | files fingerprint entries paths =>
    refine ⟨sound.payloads, backed_storeFiles sound.files filled _, sound.listed.of_keys rfl ?_⟩
    intro route
    cases route with
    | text => rfl
    | image => rfl
    | file => exact keys_storeFiles ..

theorem Sound.get {s : Server} (sound : s.Sound) (route : Route) (sha : Hash) :
    { s with dispatcher := (s.dispatcher.get s.clock sha route).2 }.Sound := by
  cases route with
  | text => exact ⟨sound.payloads.lookup sha, sound.files, sound.listed⟩
  | image => exact ⟨sound.payloads.lookup sha, sound.files, sound.listed⟩
  | file => exact ⟨sound.payloads, sound.files.lookup sha, sound.listed⟩

theorem Sound.act {s : Server} (sound : s.Sound) (action : Action) :
    (s.act sha256 action).Sound := by
  cases action with
  | take content maxSize =>
    unfold Server.act
    split_ifs
    · exact sound
    · exact sound.announce (dispatch_pushes sha256 ..)
  | recover text =>
    unfold Server.act
    split_ifs
    · exact sound
    · exact sound.announce (recoverPush_pushes sha256 ..)
  | complete filled =>
    unfold Server.act
    cases s.pending with
    | none => exact sound
    | some fill => exact sound.complete filled fill
  | get route sha => exact sound.get route sha

theorem Sound.step {s : Server} (sound : s.Sound) (e : Event) : (s.step sha256 e).Sound :=
  (sound.tick e.elapsed).act e.action

end Server

/-! ### Nothing is lost -/

namespace Server

variable {sha256 : List UInt8 → Hash} {s : Server}

/-- Every payload of the ledger is stored, withdrawn, or one that the pending push has yet to
store. -/
structure Ready (s : Server) : Prop where
  payloads : ∀ o ∈ s.payloads, o.Placed (s.awaited .text)
  files : ∀ o ∈ s.files, o.Placed (s.awaited .file)

theorem placed_announced {o : Payload} {waited : List Hash} (announced : o.status = .announced)
    (waits : o.key ∈ waited) : o.Placed waited := by
  simpa only [Offer.Placed, announced] using waits

theorem bytesUsed_evictPrev_le (cache : ClipboardCache) (prev : Option Hash) :
    (evictPrevOutboundClipboardCache cache prev).bytesUsed ≤ cache.bytesUsed ∧
      (evictPrevOutboundClipboardCache cache prev).byteBudget = cache.byteBudget := by
  cases prev with
  | none => exact ⟨Nat.le_refl _, rfl⟩
  | some sha =>
    refine ⟨?_, (Cache.limits_apply cache (.remove sha)).1⟩
    simp only [evictPrevOutboundClipboardCache, ClipboardCache.remove, Cache.remove,
      Store.remove_eq]
    split_ifs
    · exact Nat.sub_le ..
    · exact Nat.le_refl _

/-- A text or a selection is waited for from its announcement on; an image is stored with it. -/
theorem Ready.announce (ready : s.Ready) (idle : s.pending = none) {content : Content}
    {out : Outcome} (pushes : Pushes sha256 s.dispatcher s.clock content out)
    (takes : ∀ i, content = .image i →
      Takes s.dispatcher.clipboardCache s.payloads (sha256 i.data) i.data) :
    (s.announce sha256 content out).Ready := by
  have none_ : ∀ route, s.awaited route = [] := fun route => by rw [awaited, idle]; rfl
  have payloads : ∀ waited, ∀ o ∈ s.payloads, o.Placed waited := fun waited o mem =>
    (none_ .text ▸ ready.payloads o mem).mono (List.nil_subset _)
  have files : ∀ waited, ∀ o ∈ s.files, o.Placed waited := fun waited o mem =>
    (none_ .file ▸ ready.files o mem).mono (List.nil_subset _)
  have withdrawn : ∀ {offers : List Payload}, (∀ waited, ∀ o ∈ offers, o.Placed waited) →
      ∀ keys waited, ∀ o ∈ withdraw keys offers, o.Placed waited := fun all keys waited =>
    forall_withdraw _ (fun _ k placed => placed.afterRemove k) (all waited) keys
  unfold Server.announce
  cases fill : out.fill with
  | none => exact ⟨payloads _, files _⟩
  | some fill' =>
    have new : content.route ≠ .image → ∀ o ∈ content.offers sha256,
        o.Placed (fill'.shas content.route) := fun other o mem =>
      placed_announced (announced_offers content o mem) (pushes.filled fill' fill other o mem)
    cases content with
    | text t =>
      exact ⟨List.forall_mem_append.mpr ⟨withdrawn payloads _ _, new nofun⟩, files _⟩
    | files paths collected =>
      exact ⟨payloads _, List.forall_mem_append.mpr ⟨withdrawn files _ _, new nofun⟩⟩
    | image i =>
      obtain ⟨room, agrees⟩ := takes i rfl
      obtain ⟨less, budget⟩ := bytesUsed_evictPrev_le s.dispatcher.clipboardCache
        s.dispatcher.lastOutboundImageSha
      refine ⟨List.forall_mem_map.mpr fun o mem => ?_, files _⟩
      obtain before | own := List.mem_append.mp mem
      · refine (withdrawn payloads _ _ o before).afterInsert (by omega) ?_
        refine forall_withdraw (fun o => o.key = sha256 i.data → o.bytes = i.data)
          (fun o k same => ?_) agrees _ o before
        unfold Offer.afterRemove
        split_ifs <;> exact same
      · obtain rfl := List.mem_singleton.mp own
        exact (placed_announced rfl List.mem_cons_self).afterInsert (by omega) fun _ => rfl

/-- The rest of a push stores every file that was waited for. -/
theorem placed_storeFiles {now : Nat} {snapshot : Snapshot} {files : List (FileEntry × Path)}
    {cache : FileCache} {offers offers' : List Payload}
    (takes : TakesFiles now snapshot offers' files cache)
    (same : ∀ o ∈ offers, ∃ o' ∈ offers', o'.key = o.key ∧ o'.bytes = o.bytes)
    (placed : ∀ o ∈ offers, o.Placed (outboundShas (files.map (·.1)))) :
    ∀ o ∈ storeFiles now snapshot files cache offers, o.Placed [] := by
  induction files generalizing cache offers with
  | nil => exact placed
  | cons file rest ih =>
    obtain ⟨entry, path⟩ := file
    unfold storeFiles
    unfold TakesFiles at takes
    by_cases large : entry.mime = mimeTooLarge
    · rw [if_pos large] at takes ⊢
      exact ih takes same (by simpa [outboundShas, large] using placed)
    · rw [if_neg large] at takes ⊢
      cases read : (snapshot path).bind (·.read) with
      | error e => simp [read] at takes
      | ok bytes =>
        simp only [read] at takes ⊢
        obtain ⟨⟨room, agrees⟩, takes⟩ := takes
        refine ih takes (List.forall_mem_map.mpr fun o mem => ?_)
          (List.forall_mem_map.mpr fun o mem => ?_)
        · obtain ⟨o', there, key, bytes'⟩ := same o mem
          exact ⟨o', there, by simpa using key, by rw [Offer.bytes_afterInsert]; exact bytes'⟩
        · obtain ⟨o', there, key, bytes'⟩ := same o mem
          have waits : o.Placed (entry.sha256 :: outboundShas (rest.map (·.1))) := by
            simpa [outboundShas, large] using placed o mem
          exact waits.afterInsert room fun own => bytes' ▸ agrees o' there (key.trans own)

theorem Ready.complete (ready : s.Ready) {filled : Snapshot} {fill : Fill}
    (pending : s.pending = some fill) (takes : s.TakesFill s.clock filled fill) :
    (s.complete filled fill).Ready := by
  have waits : ∀ route, s.awaited route = fill.shas route := fun route => by
    rw [awaited, pending]
    rfl
  have payloads : ∀ o ∈ s.payloads, o.Placed (fill.shas .text) := waits .text ▸ ready.payloads
  have files : ∀ o ∈ s.files, o.Placed (fill.shas .file) := waits .file ▸ ready.files
  cases fill with
  | text sha bytes =>
    unfold Server.complete
    by_cases long : bytes.length > clipboardTextInlineLimit
    · simp only [Fill.shas, if_pos long] at payloads ⊢
      exact ⟨List.forall_mem_map.mpr fun o mem =>
        (payloads o mem).afterInsert (takes long).1 ((takes long).2 o mem), files⟩
    · simp only [Fill.shas, if_neg long] at payloads ⊢
      exact ⟨payloads, files⟩
  | image sha => exact ⟨payloads, files⟩
  | files fingerprint entries paths =>
    exact ⟨payloads, placed_storeFiles takes (fun o mem => ⟨o, mem, rfl, rfl⟩) files⟩

theorem Ready.step (ready : s.Ready) {e : Event} (orderly : s.Orderly sha256 e) :
    (s.step sha256 e).Ready := by
  obtain ⟨elapsed, action⟩ := e
  have ticked : { s with clock := s.clock + elapsed }.Ready := ⟨ready.payloads, ready.files⟩
  unfold Server.step Server.act
  cases action with
  | take content maxSize =>
    simp only
    split_ifs with busy
    · exact ticked
    · refine ticked.announce (Option.not_isSome_iff_eq_none.mp busy) (dispatch_pushes sha256 ..) ?_
      rintro i rfl
      exact orderly
  | recover text =>
    simp only
    split_ifs with busy
    · exact ticked
    · exact ticked.announce (Option.not_isSome_iff_eq_none.mp busy) (recoverPush_pushes sha256 ..)
        nofun
  | complete filled =>
    simp only
    split
    · next fill pending => exact ticked.complete pending (orderly fill pending)
    · exact ticked
  | get route sha => exact ⟨ready.payloads, ready.files⟩

/-- Where all payloads are in their place, every request that does not come too early is
answered. -/
theorem Sound.answers (sound : s.Sound) (ready : s.Ready) {e : Event}
    (orderly : s.Orderly sha256 e) : s.Answers e := by
  obtain ⟨elapsed, action⟩ := e
  cases action with
  | get route sha =>
    intro o mem own live fresh
    obtain rfl : o.key = sha := own
    have placed : o.Placed (s.awaited route) := by
      cases route with
      | text => exact ready.payloads o mem
      | image => exact ready.payloads o mem
      | file => exact ready.files o mem
    unfold Offer.Placed at placed
    cases status : o.status with
    | announced =>
      rw [status] at placed
      exact absurd placed orderly
    | stored since => exact sound.serves mem status (Nat.le_add_right ..) (fresh since status)
    | withdrawn => exact absurd status live
    | dropped => simp [status] at placed
  | _ => trivial

end Server

end LanMouse.Clipboard
