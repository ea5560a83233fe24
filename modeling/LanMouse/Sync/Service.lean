import LanMouse.Clipboard.Announce
import LanMouse.Clipboard.Serving
import LanMouse.Files.Cancel

/-!
# The clipboard side of the service

The service loop takes up local clipboard changes, clipboard events of the peers and the reports of
the tasks it has spawned, one after another. What it tells the peers, what it asks of them and what
it writes to the local clipboard is listed in the order in which it happens.

An event of the model is one round of the loop, one turn of a spawned task, or one request of a peer
that is answered from the caches. A push hands out its announcement and fills the cache in one
round; what peers are answered in between is the subject of `LanMouse.Clipboard.Serving`. What the
world answers (fetches, the clipboard backend, the file system) comes with the event.
-/
namespace LanMouse.Sync

open Proto UnixPath Client Clipboard Files

/-- What the service is run with: SHA-256, and the accept directory for a configuration that has
none. -/
structure Host where
  sha256 : List UInt8 → Hash
  defaultAcceptDir : Path

/-! ### The configuration -/

def defaultMaxFileSize : UInt64 := 50 * 1024 * 1024

structure ClipboardConfig where
  enabled : Bool := true
  acceptDir : Path
  ignoreText : Bool := false
  ignoreImages : Bool := false
  ignoreFiles : Bool := false
  maxFileSize : UInt64 := defaultMaxFileSize
  keepPartial : Bool := false
  injectToClipboard : Bool := true
  deriving DecidableEq, Repr

/-- The section `[clipboard]` of the configuration file. -/
structure TomlClipboard where
  enabled : Option Bool := none
  acceptDir : Option Path := none
  ignoreText : Option Bool := none
  ignoreImages : Option Bool := none
  ignoreFiles : Option Bool := none
  maxFileSize : Option UInt64 := none
  keepPartial : Option Bool := none
  injectToClipboard : Option Bool := none
  deriving DecidableEq, Repr

/-- The configuration in force. -/
def clipboardConfig (host : Host) : Option TomlClipboard → ClipboardConfig
  | none => { acceptDir := host.defaultAcceptDir }
  | some cb =>
    { enabled := cb.enabled.getD true
      acceptDir := cb.acceptDir.getD host.defaultAcceptDir
      ignoreText := cb.ignoreText.getD false
      ignoreImages := cb.ignoreImages.getD false
      ignoreFiles := cb.ignoreFiles.getD false
      maxFileSize := cb.maxFileSize.getD defaultMaxFileSize
      keepPartial := cb.keepPartial.getD false
      injectToClipboard := cb.injectToClipboard.getD true }

/-- `true` is written as nothing, for every switch. -/
def tomlSwitch (on : Bool) : Option Bool := if on then none else some false

def setClipboardConfig (cfg : ClipboardConfig) : TomlClipboard where
  enabled := tomlSwitch cfg.enabled
  acceptDir := some cfg.acceptDir
  ignoreText := tomlSwitch cfg.ignoreText
  ignoreImages := tomlSwitch cfg.ignoreImages
  ignoreFiles := tomlSwitch cfg.ignoreFiles
  maxFileSize := if cfg.maxFileSize = defaultMaxFileSize then none else some cfg.maxFileSize
  keepPartial := tomlSwitch cfg.keepPartial
  injectToClipboard := tomlSwitch cfg.injectToClipboard

/-! ### The local clipboard -/

inductive Mime where
  | png
  | jpeg
  | bmp
  deriving DecidableEq, Repr

def Mime.fromLabel : String → Option Mime
  | "image/png" => some .png
  | "image/jpeg" => some .jpeg
  | "image/bmp" => some .bmp
  | _ => none

def mimeDib : String := "application/x-dib"

/-- What is written to the local clipboard. -/
inductive BackendCmd where
  | setText (text : String)
  | setImage (bytes : List UInt8) (mime : Mime)
  | setDibImage (bytes : List UInt8)
  | setFiles (files : List Path)
  deriving DecidableEq, Repr

/-- What comes of a command to the clipboard poller: the poller is gone, drops the command, or says
that the backend has failed or has done it. -/
inductive CmdReply where
  | gone
  | closed
  | failed (e : String)
  | done
  deriving DecidableEq, Repr

/-! ### Inbound texts -/

/-- How many bytes follow the first byte of a character, and between which bounds the first of these
lies. -/
def utf8Lead (b : UInt8) : Option (Nat × UInt8 × UInt8) :=
  if 0xC2 ≤ b && b ≤ 0xDF then some (1, 0x80, 0xBF)
  else if b = 0xE0 then some (2, 0xA0, 0xBF)
  else if b = 0xED then some (2, 0x80, 0x9F)
  else if 0xE1 ≤ b && b ≤ 0xEF then some (2, 0x80, 0xBF)
  else if b = 0xF0 then some (3, 0x90, 0xBF)
  else if 0xF1 ≤ b && b ≤ 0xF3 then some (3, 0x80, 0xBF)
  else if b = 0xF4 then some (3, 0x80, 0x8F)
  else none

def replacementCharacter : Char := Char.ofNat 0xFFFD

/-- The first character, and how many of the bytes after `b` belong to it. Bytes that start a
character but do not complete it are replaced together. -/
def nextLossy (b : UInt8) (rest : List UInt8) : Char × Nat :=
  if b < 0x80 then (Char.ofNat b.toNat, 0)
  else
    match utf8Lead b with
    | none => (replacementCharacter, 0)
    | some (count, lower, upper) =>
      let follows :=
        match rest with
        | [] => []
        | c :: others =>
          if lower ≤ c && c ≤ upper then
            c :: (others.take (count - 1)).takeWhile fun c => 0x80 ≤ c && c ≤ 0xBF
          else []
      if follows.length = count then
        (Char.ofNat (follows.foldl (fun code c => code * 64 + c.toNat % 64)
          (b.toNat % 2 ^ (6 - count))), count)
      else (replacementCharacter, follows.length)

def lossyChars : Nat → List UInt8 → List Char
  | fuel + 1, b :: rest =>
    let (c, used) := nextLossy b rest
    c :: lossyChars fuel (rest.drop used)
  | _, _ => []

def fromUtf8Lossy (bytes : List UInt8) : String := String.ofList (lossyChars bytes.length bytes)

/-! ### Inbound images -/

def fullHex (sha : Hash) : String := String.ofList (sha.toList.flatMap hexByte)

structure InboundImageApplyResult where
  inboundSha : Hash
  source : SocketAddr
  mime : String
  bytesLen : Nat
  success : Bool
  postWriteSha : Option Hash
  errorMsg : Option String
  deriving DecidableEq, Repr

inductive ImagePhase where
  | fetching
  | setting (bytes : List UInt8)
  | reading (bytesLen : Nat)
  | ended
  deriving DecidableEq, Repr

/-- A task `apply_inbound_image_task`. -/
structure ImageTask where
  inboundSha : Hash
  mime : String
  source : SocketAddr
  phase : ImagePhase := .fetching
  deriving DecidableEq, Repr

/-- What the world answers in one turn of an image task: the fetch (if it is done), the reply to the
write, and the image that is on the clipboard after it; `gone` if the poller is. -/
structure ImageAnswers where
  fetch : Option (Except String (UInt16 × List UInt8)) := none
  set : CmdReply := .done
  current : Option (List UInt8) := none
  gone : Bool := false

namespace ImageTask

def failed (t : ImageTask) (bytesLen : Nat) (msg : String) : InboundImageApplyResult :=
  { inboundSha := t.inboundSha, source := t.source, mime := t.mime, bytesLen, success := false
    postWriteSha := none, errorMsg := some msg }

def applied (t : ImageTask) (bytesLen : Nat) (postWriteSha : Option Hash) (msg : Option String) :
    InboundImageApplyResult :=
  { inboundSha := t.inboundSha, source := t.source, mime := t.mime, bytesLen, success := true
    postWriteSha, errorMsg := msg }

def command (t : ImageTask) (bytes : List UInt8) : BackendCmd :=
  if t.mime = mimeDib then .setDibImage bytes
  else .setImage bytes ((Mime.fromLabel t.mime).getD .png)

/-- The next turn of the task: its phase, what it writes and what it reports. -/
def turn (sha256 : List UInt8 → Hash) (t : ImageTask) (a : ImageAnswers) :
    ImagePhase × Option BackendCmd × Option InboundImageApplyResult :=
  match t.phase with
  | .fetching =>
    match a.fetch with
    | none => (.fetching, none, none)
    | some (.ok (status, body)) =>
      if status = 200 then (.setting body, none, none)
      else (.ended, none, some (t.failed 0 ("HTTP/3 GET /clipboard/image/" ++ fullHex t.inboundSha
        ++ " returned " ++ toString status)))
    | some (.error e) => (.ended, none, some (t.failed 0 ("HTTP/3 GET /clipboard/image/" ++
        fullHex t.inboundSha ++ " failed: " ++ e)))
  | .setting bytes =>
    match a.set with
    | .gone =>
      (.ended, none, some (t.failed bytes.length "poller task is gone (panic or shutdown)"))
    | .closed => (.ended, none, some (t.failed bytes.length "set_image reply channel closed"))
    | .failed e => (.ended, none, some (t.failed bytes.length ("set_image: " ++ e)))
    | .done => (.reading bytes.length, some (t.command bytes), none)
  | .reading bytesLen =>
    if a.gone then
      (.ended, none, some (t.applied bytesLen none (some ("set_image succeeded but post-write " ++
        "re-read cmd send failed (poller gone); LRU will only hold inbound SHA"))))
    else (.ended, none, some (t.applied bytesLen (a.current.map sha256) none))
  | .ended => (.ended, none, none)

end ImageTask

/-! ### The state -/

/-- What has come in of a selection. The number `batch` is not in the source: it tells for which
selection the collector was inserted. -/
structure FileSetCollector where
  expected : Nat
  received : List InboundFileApplyResult := []
  batch : Nat
  deriving DecidableEq, Repr

abbrev Collectors := AList (fun _ : Hash => FileSetCollector)

/-- The tasks of a selection: the number of the first one, and how many there are. -/
structure Batch where
  first : Nat
  count : Nat
  deriving DecidableEq, Repr

/-- `sessions` are the connections that were dialed, with the client each was dialed for. `sent`
are the events handed to the peers, `requests` the GETs of the service, which are counted when they
are set off, `answers` the bodies its peers got, and `clipboard` what was written to the local
clipboard. `batches` and `injections` are not in the source: the selections that were taken up, and
the selections that were written to the clipboard with the number of the batch. -/
structure State where
  toml : Option TomlClipboard := none
  peers : Peers
  sessions : SocketAddr → Option ClientHandle := fun _ => none
  dispatcher : Dispatcher := .new
  fileLruFingerprints : LruFingerprints
  pendingFileCollectors : Collectors := ∅
  world : World
  filesApplied : List (Nat × InboundFileApplyResult) := []
  imageTasks : List ImageTask := []
  imagesApplied : List InboundImageApplyResult := []
  sent : List (Recipient × ProtoEvent) := []
  requests : List (Recipient × Route × Hash) := []
  answers : List (Recipient × Option (List UInt8)) := []
  clipboard : List BackendCmd := []
  batches : List Batch := []
  injections : List (Nat × List Path) := []

def fileLoopbackCapacity : Nat := 64

def fileLoopbackTtl : Nat := seconds 60

/-- The service as it starts, with the files that are there. -/
def State.start (toml : Option TomlClipboard) (files : Disk) : State where
  toml := toml
  peers := ⟨.empty, [], fun _ => false⟩
  fileLruFingerprints := .withCapacityAndTtl fileLoopbackCapacity fileLoopbackTtl
  world := .start [] files

/-- What the world answers to an inbound event: the GET for a text that is not inline, the reply to
the write, and whether the accept directory could be created. -/
structure InboundAnswers where
  get : Except String (UInt16 × List UInt8) := .error ""
  set : CmdReply := .done
  dirCreated : Bool := true

/-- `clients` and `links` stand for what the other handlers of the service do to the clients and to
the connections, `forward` for the events that the capture task sends to a client. -/
inductive Action where
  | setConfig (cfg : ClipboardConfig)
  | configChange (toml : Option TomlClipboard)
  | clients (m : ClientManager)
  | links (sendToIncoming : SocketAddr → Bool) (sessions : SocketAddr → Option ClientHandle)
  | connected (addr : SocketAddr)
  | disconnected (addr : SocketAddr)
  | forward (h : ClientHandle) (e : InputEvent)
  | dispatch (content : Content) (filled : Snapshot)
  | recoverPush (text : Option String)
  | inbound (addr : SocketAddr) (event : ProtoEvent) (a : InboundAnswers)
  | imageTurn (i : Nat) (a : ImageAnswers)
  | imageApplied
  | fileTurn (i : Nat) (a : Answers)
  | fileApplied (reply : CmdReply)
  | get (who : Recipient) (route : Route) (sha : Hash)

structure Event where
  now : Nat := 0
  action : Action

inductive ReinjectSkipReason where
  | disabled
  | optOut
  | loopback
  | entryFailed
  deriving DecidableEq, Repr

def decideReinjectSkip (clipboardEnabled injectToClipboard : Bool)
    (lastOutboundFilesFingerprint : Option Hash) (batchFingerprint : Hash)
    (received : List InboundFileApplyResult) : Option ReinjectSkipReason :=
  if !clipboardEnabled then some .disabled
  else if !injectToClipboard then some .optOut
  else if lastOutboundFilesFingerprint = some batchFingerprint then some .loopback
  else if received.any fun r => !r.success then some .entryFailed
  else none

/-- The dispatcher when the rest of a push is done. -/
def settle (now : Nat) (filled : Snapshot) (out : Outcome) : Dispatcher :=
  match out.fill with
  | some fill => out.dispatcher.complete now filled fill
  | none => out.dispatcher

/-- The reports that a task has added. -/
def newReports (before after : Option Task) : List InboundFileApplyResult :=
  ((after.map (·.reports)).getD []).drop ((before.map (·.reports)).getD []).length

namespace State

variable (host : Host)

def config (s : State) : ClipboardConfig := clipboardConfig host s.toml

/-- The accepted connection of an address, or else the dialed one. -/
def peerConnectionForAddr (s : State) (addr : SocketAddr) : Option Recipient :=
  if s.peers.sendToIncoming addr then some (.incoming addr)
  else (s.sessions addr).map .outgoing

def push (s : State) (now : Nat) (filled : Snapshot) (out : Outcome) : State :=
  { s with
    dispatcher := settle now filled out
    sent := s.sent ++ out.events.flatMap (broadcastClipboardEvent s.peers) }

/-- The loopback list has the text before it is written. -/
def applyInboundClipboardText (s : State) (now : Nat) (sha : Hash) (bytes : List UInt8)
    (reply : CmdReply) : State :=
  let d := { s.dispatcher with clipboardLru := s.dispatcher.clipboardLru.push now sha }
  match reply with
  | .done =>
    { s with
      dispatcher := { d with clipboardLastText := none }
      clipboard := s.clipboard ++ [.setText (fromUtf8Lossy bytes)] }
  | _ => { s with dispatcher := d }

def handleClipboardInboundText (s : State) (now : Nat) (ct : ClipboardText) (addr : SocketAddr)
    (a : InboundAnswers) : State :=
  let (seen, clipboardLru) := s.dispatcher.clipboardLru.contains now ct.sha256
  let s := { s with dispatcher := { s.dispatcher with clipboardLru } }
  if seen then s
  else
    match ct.contentInline with
    | some content => s.applyInboundClipboardText now ct.sha256 content a.set
    | none =>
      match s.peerConnectionForAddr addr with
      | none => s
      | some conn =>
        let s := { s with requests := s.requests ++ [(conn, .text, ct.sha256)] }
        match a.get with
        | .ok (status, body) =>
          if status = 200 then s.applyInboundClipboardText now ct.sha256 body a.set else s
        | .error _ => s

def handleClipboardInboundImage (s : State) (now : Nat) (ci : ClipboardImage) (addr : SocketAddr) :
    State :=
  let (seen, imageLruFingerprints) := s.dispatcher.imageLruFingerprints.contains now ci.sha256
  let s := { s with dispatcher := { s.dispatcher with imageLruFingerprints } }
  if seen then s
  else
    match s.peerConnectionForAddr addr with
    | none => s
    | some conn =>
      { s with
        imageTasks := s.imageTasks ++ [{ inboundSha := ci.sha256, mime := ci.mime, source := addr }]
        requests := s.requests ++ [(conn, .image, ci.sha256)] }

/-- Spawn the tasks of a selection and insert its collector, in place of one that is there. -/
def spawnFiles (s : State) (cf : ClipboardFiles) (jobs : List Job) (conn : Recipient) : State :=
  { s with
    pendingFileCollectors := s.pendingFileCollectors.insert cf.fingerprint
      { expected := jobs.length, batch := s.batches.length }
    batches := s.batches ++ [⟨s.world.tasks.length, jobs.length⟩]
    world := { s.world with tasks := s.world.tasks ++ jobs.map fun job => { job } }
    requests := s.requests ++ jobs.map fun job => (conn, .file, job.inboundSha) }

def handleClipboardInboundFiles (s : State) (now : Nat) (cf : ClipboardFiles) (addr : SocketAddr)
    (a : InboundAnswers) : State :=
  let (seen, fileLruFingerprints) := s.fileLruFingerprints.contains now cf.fingerprint
  let s := { s with fileLruFingerprints }
  let cfg := s.config host
  let jobs := Files.handleClipboardInboundFiles cf addr cfg.acceptDir cfg.keepPartial
  if seen then s
  else if jobs = [] then s
  else
    match s.peerConnectionForAddr addr with
    | none => s
    | some conn => if a.dirCreated then s.spawnFiles cf jobs conn else s

def handleClipboardInboundCancel (s : State) (cancel : FileTransferCancel) (addr : SocketAddr) :
    State :=
  { s with world := s.world.receive host.sha256 (.cancel cancel addr) }

def handleClipboardInbound (s : State) (now : Nat) (addr : SocketAddr) (event : ProtoEvent)
    (a : InboundAnswers) : State :=
  match event with
  | .clipboardText ct => s.handleClipboardInboundText now ct addr a
  | .clipboardImage ci => s.handleClipboardInboundImage now ci addr
  | .clipboardFiles cf => s.handleClipboardInboundFiles host now cf addr a
  | .fileTransferCancel cancel => s.handleClipboardInboundCancel host cancel addr
  | _ => s

def handleInboundImageApplied (s : State) (now : Nat) (result : InboundImageApplyResult) : State :=
  if result.success then
    let lru := s.dispatcher.imageLruFingerprints.push now result.inboundSha
    let imageLruFingerprints :=
      match result.postWriteSha with
      | some sha => lru.push now sha
      | none => lru
    { s with dispatcher := { s.dispatcher with imageLruFingerprints } }
  else s

/-- The paths are written in the order in which the reports came in. -/
def maybeInjectFilesToClipboard (s : State) (batchFingerprint : Hash) (c : FileSetCollector)
    (reply : CmdReply) : State :=
  let cfg := s.config host
  match decideReinjectSkip cfg.enabled cfg.injectToClipboard
      s.dispatcher.lastOutboundFilesFingerprint batchFingerprint c.received with
  | some _ => s
  | none =>
    let paths := c.received.filterMap (·.landedPath)
    if paths = [] then s
    else
      let d := { s.dispatcher with
        lastOutboundFilesFingerprint := some (fileSelectionFingerprint host.sha256 paths) }
      match reply with
      | .done =>
        { s with
          dispatcher := d
          clipboard := s.clipboard ++ [.setFiles paths]
          injections := s.injections ++ [(c.batch, paths)] }
      | _ => { s with dispatcher := d }

/-- A report goes to the collector of its fingerprint, if there is one. -/
def collect (s : State) (result : InboundFileApplyResult) (reply : CmdReply) : State :=
  match s.pendingFileCollectors.lookup result.batchFingerprint with
  | none => s
  | some c =>
    let c := { c with received := c.received ++ [result] }
    if c.received.length ≠ c.expected then
      { s with
        pendingFileCollectors := s.pendingFileCollectors.insert result.batchFingerprint c }
    else
      { s with
        pendingFileCollectors :=
          s.pendingFileCollectors.erase result.batchFingerprint }.maybeInjectFilesToClipboard host
        result.batchFingerprint c reply

def handleInboundFilesApplied (s : State) (now : Nat) (result : InboundFileApplyResult)
    (reply : CmdReply) : State :=
  if result.success then
    { s with
      fileLruFingerprints := s.fileLruFingerprints.push now result.inboundSha }.collect host result
      reply
  else s.collect host result reply

def imageTurn (s : State) (i : Nat) (a : ImageAnswers) : State :=
  match s.imageTasks[i]? with
  | none => s
  | some t =>
    let (phase, cmd, result) := t.turn host.sha256 a
    { s with
      imageTasks := s.imageTasks.set i { t with phase }
      clipboard := s.clipboard ++ cmd.toList
      imagesApplied := s.imagesApplied ++ result.toList }

def fileTurn (s : State) (i : Nat) (a : Answers) : State :=
  let world := s.world.receive host.sha256 (.turn i a)
  { s with
    world
    filesApplied := s.filesApplied ++
      (newReports s.world.tasks[i]? world.tasks[i]?).map fun result => (i, result) }

def act (s : State) (now : Nat) : Action → State
  | .setConfig cfg => { s with toml := some (setClipboardConfig cfg) }
  | .configChange toml => { s with toml }
  | .clients m => { s with peers := { s.peers with clientManager := m } }
  | .links sendToIncoming sessions =>
    { s with peers := { s.peers with sendToIncoming }, sessions }
  | .connected addr =>
    { s with peers := { s.peers with
      incomingClipboard := s.peers.incomingClipboard.filter (·.1 ≠ addr) ++ [(addr, true)] } }
  | .disconnected addr =>
    { s with peers := { s.peers with
      incomingClipboard := s.peers.incomingClipboard.filter (·.1 ≠ addr) } }
  | .forward h e => { s with sent := s.sent ++ [(.outgoing h, .input e)] }
  | .dispatch content filled =>
    s.push now filled
      (s.dispatcher.dispatch host.sha256 now (s.config host).maxFileSize.toNat content)
  | .recoverPush text =>
    s.push now (fun _ => .error "")
      (s.dispatcher.handleClipboardRecoverPush host.sha256 now text)
  | .inbound addr event a => s.handleClipboardInbound host now addr event a
  | .imageTurn i a => s.imageTurn host i a
  | .imageApplied =>
    match s.imagesApplied with
    | [] => s
    | result :: rest => { s with imagesApplied := rest }.handleInboundImageApplied now result
  | .fileTurn i a => s.fileTurn host i a
  | .fileApplied reply =>
    match s.filesApplied with
    | [] => s
    | (_, result) :: rest =>
      { s with filesApplied := rest }.handleInboundFilesApplied host now result reply
  | .get who route sha =>
    let (body, dispatcher) := s.dispatcher.get now sha route
    { s with dispatcher, answers := s.answers ++ [(who, body)] }

def step (s : State) (e : Event) : State := s.act host e.now e.action

end State

end LanMouse.Sync
