import LanMouse.Client.Manager
import LanMouse.Clipboard.FileMeta

/-!
# The outbound clipboard dispatcher

A local clipboard change is taken up by `dispatch_text`, `dispatch_image` or `dispatch_files`; a
peer that connects gets the current text by `handle_clipboard_recover_push`. Each first consults
what it remembers of earlier pushes, then hands the announcement to the peers and fills the cache
that serves the payload. What comes before the first wait of a push, the hand-over included, and
what comes after it are separate functions: requests of the peers are answered in between.
-/
namespace LanMouse.Clipboard

open Proto UnixPath Client

/-- Recent fingerprints with the time they were pushed, the oldest first. -/
structure LruFingerprints where
  capacity : Nat
  ttl : Nat
  items : List (Nat × Hash)

namespace LruFingerprints

def defaultCapacity : Nat := 128

def defaultTtl : Nat := seconds 60

def withCapacityAndTtl (capacity ttl : Nat) : LruFingerprints := ⟨capacity, ttl, []⟩

def new : LruFingerprints := withCapacityAndTtl defaultCapacity defaultTtl

def contains (l : LruFingerprints) (now : Nat) (fp : Hash) : Bool × LruFingerprints :=
  let items := l.items.dropWhile fun item => now - item.1 ≥ l.ttl
  (items.any (·.2 = fp), { l with items })

def push (l : LruFingerprints) (now : Nat) (fp : Hash) : LruFingerprints :=
  let items := if l.items.length ≥ l.capacity then l.items.drop 1 else l.items
  { l with items := items ++ [(now, fp)] }

end LruFingerprints

def imageLoopbackCapacity : Nat := 32

def imageLoopbackTtl : Nat := seconds 60

structure ImageBytes where
  mime : String
  data : List UInt8
  deriving DecidableEq, Repr

/-- What the local user copied. The files of a selection are looked at when it is dispatched. -/
inductive Content where
  | text (t : String)
  | image (i : ImageBytes)
  | files (paths : List Path) (collected : Snapshot)

/-- The fields of the service that the outbound clipboard works with. -/
structure Dispatcher where
  clipboardLastText : Option String
  clipboardLru : LruFingerprints
  lastOutboundTextSha : Option Hash
  imageLruFingerprints : LruFingerprints
  lastOutboundImageSha : Option Hash
  lastOutboundFilesFingerprint : Option Hash
  lastOutboundFilesSha : List Hash
  clipboardCache : ClipboardCache
  fileCache : FileCache

/-- What a push still does after its broadcast. -/
inductive Fill where
  | text (sha : Hash) (bytes : List UInt8)
  | image (sha : Hash)
  | files (fingerprint : Hash) (entries : List FileEntry) (paths : List Path)

/-- The events a dispatch broadcasts, and what is left to do then. -/
structure Outcome where
  dispatcher : Dispatcher
  events : List ProtoEvent := []
  fill : Option Fill := none

def evictPrevOutboundClipboardCache (cache : ClipboardCache) (lastOutbound : Option Hash) :
    ClipboardCache :=
  match lastOutbound with
  | some prev => (cache.remove prev).2
  | none => cache

inductive DispatchFilesOutcome where
  | empty
  | fingerprintMatch
  | ok (fingerprint : Hash) (entries : List FileEntry) (paths : List Path)
  | exceedsLimit (fingerprint : Hash) (offending : Path) (size limit : Nat)
  | isDirectory (p : Path)
  | io (e : String)

def dispatchFilesDecide (sha256 : List UInt8 → Hash) (snapshot : Snapshot) (paths : List Path)
    (lastOutboundFilesFingerprint : Option Hash) (maxSize : Nat) : DispatchFilesOutcome :=
  let fingerprint := fileSelectionFingerprint sha256 paths
  if paths = [] then .empty
  else if lastOutboundFilesFingerprint = some fingerprint then .fingerprintMatch
  else
    match collectFilesBlocking sha256 snapshot maxSize paths with
    | .ok entries => .ok fingerprint entries paths
    | .error (.exceedsLimit offending size limit) => .exceedsLimit fingerprint offending size limit
    | .error (.isDirectory p) => .isDirectory p
    | .error (.io e) => .io e

/-- The files of an announcement that a peer may fetch. -/
def outboundShas (entries : List FileEntry) : List Hash :=
  (entries.filter fun e => e.mime ≠ mimeTooLarge).map (·.sha256)

namespace Dispatcher

def new : Dispatcher where
  clipboardLastText := none
  clipboardLru := .new
  lastOutboundTextSha := none
  imageLruFingerprints := .withCapacityAndTtl imageLoopbackCapacity imageLoopbackTtl
  lastOutboundImageSha := none
  lastOutboundFilesFingerprint := none
  lastOutboundFilesSha := []
  clipboardCache := .new
  fileCache := .new

variable (sha256 : List UInt8 → Hash)

/-- Announce a text, whatever is remembered of it: the part that `dispatch_text` and the recover
push have in common. -/
def pushText (d : Dispatcher) (now : Nat) (text : String) : Outcome :=
  let sha := sha256 (asBytes text)
  { dispatcher := { d with
      clipboardLru := d.clipboardLru.push now sha
      clipboardLastText := some text
      clipboardCache := evictPrevOutboundClipboardCache d.clipboardCache d.lastOutboundTextSha }
    events := [.clipboardText (.fromContent sha sha (asBytes text))]
    fill := some (.text sha (asBytes text)) }

def dispatchText (d : Dispatcher) (now : Nat) (text : String) : Outcome :=
  if some text = d.clipboardLastText then { dispatcher := d }
  else
    let (seen, lru) := d.clipboardLru.contains now (sha256 (asBytes text))
    let d := { d with clipboardLru := lru }
    if seen then { dispatcher := { d with clipboardLastText := some text } }
    else d.pushText sha256 now text

/-- The text is the one that the clipboard backend reports for `CurrentText`, if it has one. -/
def handleClipboardRecoverPush (d : Dispatcher) (now : Nat) (text : Option String) : Outcome :=
  match text with
  | some text => d.pushText sha256 now text
  | none => { dispatcher := d }

/-- An image is in the cache before it is announced. -/
def dispatchImage (d : Dispatcher) (now : Nat) (image : ImageBytes) : Outcome :=
  let sha := sha256 image.data
  let (seen, lru) := d.imageLruFingerprints.contains now sha
  let d := { d with imageLruFingerprints := lru }
  if seen then { dispatcher := d }
  else if some sha = d.lastOutboundImageSha then { dispatcher := d }
  else
    let cache := evictPrevOutboundClipboardCache d.clipboardCache d.lastOutboundImageSha
    { dispatcher := { d with clipboardCache := (cache.insert now sha image.data).2 }
      events := [.clipboardImage ⟨sha, image.mime, sha, UInt64.ofNat image.data.length⟩]
      fill := some (.image sha) }

/-- The selection before is taken back first, file by file. -/
def dispatchFilesBuildCancelEvents (prevShas : List Hash) (fileCache : FileCache) :
    List ProtoEvent × FileCache :=
  (prevShas.map fun sha => .fileTransferCancel ⟨sha⟩,
    prevShas.foldl (fun cache sha => (cache.remove sha).2) fileCache)

def dispatchFiles (d : Dispatcher) (snapshot : Snapshot) (maxSize : Nat) (paths : List Path) :
    Outcome :=
  match dispatchFilesDecide sha256 snapshot paths d.lastOutboundFilesFingerprint maxSize with
  | .empty | .fingerprintMatch | .isDirectory _ | .io _ => { dispatcher := d }
  | .exceedsLimit fingerprint _ _ _ =>
    { dispatcher := { d with lastOutboundFilesFingerprint := some fingerprint } }
  | .ok fingerprint entries paths =>
    let (cancels, fileCache) := dispatchFilesBuildCancelEvents d.lastOutboundFilesSha d.fileCache
    { dispatcher := { d with lastOutboundFilesSha := [], fileCache }
      events := cancels ++ [.clipboardFiles ⟨fingerprint, entries⟩]
      fill := some (.files fingerprint entries paths) }

def dispatch (d : Dispatcher) (now maxSize : Nat) : Content → Outcome
  | .text t => d.dispatchText sha256 now t
  | .image i => d.dispatchImage sha256 now i
  | .files paths collected => d.dispatchFiles sha256 collected maxSize paths

/-- Read the announced files into the cache; the first that cannot be read ends this. -/
def insertFiles (now : Nat) (snapshot : Snapshot) : List (FileEntry × Path) → FileCache → FileCache
  | [], cache => cache
  | (entry, path) :: rest, cache =>
    if entry.mime = mimeTooLarge then insertFiles now snapshot rest cache
    else
      match (snapshot path).bind (·.read) with
      | .ok bytes => insertFiles now snapshot rest (cache.insertOwned now entry.sha256 bytes)
      | .error _ => cache

def complete (d : Dispatcher) (now : Nat) (snapshot : Snapshot) : Fill → Dispatcher
  | .text sha bytes =>
    { d with
      clipboardCache :=
        if bytes.length > clipboardTextInlineLimit then (d.clipboardCache.insert now sha bytes).2
        else d.clipboardCache
      lastOutboundTextSha := some sha }
  | .image sha => { d with lastOutboundImageSha := some sha }
  | .files fingerprint entries paths =>
    { d with
      fileCache := insertFiles now snapshot (entries.zip paths) d.fileCache
      lastOutboundFilesFingerprint := some fingerprint
      lastOutboundFilesSha := outboundShas entries }

end Dispatcher

/-! ### Who gets an event -/

inductive Recipient where
  | outgoing (h : ClientHandle)
  | incoming (addr : SocketAddr)
  deriving DecidableEq, Repr

/-- The clients, the accepted connections with their `enable_clipboard_to`, and which of these can
be reached. -/
structure Peers where
  clientManager : ClientManager
  incomingClipboard : List (SocketAddr × Bool)
  sendToIncoming : SocketAddr → Bool

def Peers.recipients (peers : Peers) : List Recipient :=
  (peers.clientManager.getClientStates.filter fun (_, cfg, state) =>
      cfg.enableClipboardTo && state.active && state.activeAddr.isSome).map (.outgoing ·.1) ++
    (peers.incomingClipboard.filter fun (addr, enabled) =>
      enabled && peers.sendToIncoming addr).map (.incoming ·.1)

def broadcastClipboardEvent (peers : Peers) (event : ProtoEvent) : List (Recipient × ProtoEvent) :=
  peers.recipients.map fun recipient => (recipient, event)

end LanMouse.Clipboard
