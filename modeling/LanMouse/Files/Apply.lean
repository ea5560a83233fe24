import LanMouse.Client.Manager
import LanMouse.Clipboard.FileMeta
import LanMouse.Files.Path
import LanMouse.Lib.FileStore
import LanMouse.Lib.Transition

/-!
# The inbound file tasks

Every entry of an inbound file selection gets a task, `apply_inbound_files_task`: it fetches the
bytes over HTTP/3, writes them to a `.partial` file on a blocking thread, checks their SHA-256 and
renames the file to a name that was free, and reports the outcome to the service. The tasks share
the cancel registry and the accept directory.

A turn of a task is a poll on the `LocalSet`, up to the next point where the task waits, or one
file-system call of its blocking thread. Turns of different tasks interleave in any order.
-/
namespace LanMouse.Files

open Proto Client Clipboard UnixPath FileStore

abbrev Disk := FileSystem Path UInt8

inductive InboundFilesDecision where
  | apply (entries : List FileEntry)
  | allMimeTooLarge
  | empty
  deriving DecidableEq, Repr

def actionable (entries : List FileEntry) : List FileEntry :=
  entries.filter fun e => e.mime != mimeTooLarge

def handleClipboardInboundFilesDecide (entries : List FileEntry) : InboundFilesDecision :=
  if entries = [] then .empty
  else if actionable entries = [] then .allMimeTooLarge
  else .apply (actionable entries)

/-- The kinds of an I/O error that are told apart. -/
inductive ErrorKind where
  | connectionAborted
  | connectionReset
  | unexpectedEof
  | timedOut
  | other
  deriving DecidableEq, Repr

structure IoError where
  kind : ErrorKind
  text : String
  deriving DecidableEq, Repr

inductive FileFetchErrorKind where
  | connectionLost
  | timeout
  | peerCancelled
  | ioError
  deriving DecidableEq, Repr

def FileFetchErrorKind.asReason : FileFetchErrorKind → String
  | .connectionLost => "connection lost"
  | .timeout => "timeout"
  | .peerCancelled => "peer cancelled"
  | .ioError => "io error"

def classifyIoErrKind (e : IoError) : FileFetchErrorKind :=
  match e.kind with
  | .connectionAborted | .connectionReset | .unexpectedEof => .connectionLost
  | .timedOut => .timeout
  | .other => .ioError

inductive InboundFileError where
  | sha256Mismatch
  | ioError
  | mimeTooLarge
  | exceedsLimit
  | canceled
  | partialResidue
  deriving DecidableEq, Repr

structure InboundFileApplyResult where
  inboundSha : Hash
  batchFingerprint : Hash
  source : SocketAddr
  name : Path
  size : UInt64
  mime : String
  success : Bool
  error : Option InboundFileError
  streamFailure : Option (String × Nat)
  landedPath : Option Path
  bytesLen : Nat
  errorMsg : Option String
  deriving DecidableEq, Repr

def hexByte (b : UInt8) : List Char :=
  [Nat.digitChar (b.toNat / 16), Nat.digitChar (b.toNat % 16)]

def shortHex (sha256 : Hash) : String := String.ofList ((sha256.toList.take 4).flatMap hexByte)

def keepPartialPath (p : Path) : Path := p ++ ".partial".toList

/-- What `apply_inbound_files_task` is called with. -/
structure Job where
  batchFingerprint : Hash
  inboundSha : Hash
  name : Path
  size : UInt64
  mime : String
  source : SocketAddr
  acceptDir : Path
  keepPartial : Bool
  deriving DecidableEq, Repr

/-- The tasks that `handle_clipboard_inbound_files` spawns for a selection it does not skip. -/
def handleClipboardInboundFiles (cf : ClipboardFiles) (addr : SocketAddr) (acceptDir : Path)
    (keepPartial : Bool) : List Job :=
  match handleClipboardInboundFilesDecide cf.entries with
  | .apply entries => entries.map fun entry =>
      { batchFingerprint := cf.fingerprint
        inboundSha := entry.sha256
        name := entry.name.toList
        size := entry.size
        mime := entry.mime
        source := addr
        acceptDir
        keepPartial }
  | .allMimeTooLarge | .empty => []

/-- Why the blocking thread has no path to show. -/
inductive Failure where
  | blocking (msg : String)
  | join (text : String)
  deriving DecidableEq, Repr

namespace Job

def failed (job : Job) (bytesLen : Nat) (error : InboundFileError) (errorMsg : String)
    (streamFailure : Option (String × Nat)) : InboundFileApplyResult :=
  { inboundSha := job.inboundSha, batchFingerprint := job.batchFingerprint, source := job.source
    name := job.name, size := job.size, mime := job.mime, success := false, error := some error
    streamFailure, landedPath := none, bytesLen, errorMsg := some errorMsg }

def landed (job : Job) (bytesLen : Nat) (path : Path) : InboundFileApplyResult :=
  { inboundSha := job.inboundSha, batchFingerprint := job.batchFingerprint, source := job.source
    name := job.name, size := job.size, mime := job.mime, success := true, error := none
    streamFailure := none, landedPath := some path, bytesLen, errorMsg := none }

def refused (job : Job) (status : UInt16) : InboundFileApplyResult :=
  job.failed 0 .ioError ("HTTP/3 GET /clipboard/file/" ++ shortHex job.inboundSha ++ " returned " ++
    toString status) none

def lost (job : Job) (e : IoError) (now : Nat) : InboundFileApplyResult :=
  job.failed 0 .ioError ("HTTP/3 GET /clipboard/file/" ++ shortHex job.inboundSha ++ " failed: " ++
    e.text) (some ((classifyIoErrKind e).asReason, now))

/-- The report on what came of the blocking thread. -/
def applied (job : Job) (bytesLen : Nat) : Except Failure Path → InboundFileApplyResult
  | .ok path => job.landed bytesLen path
  | .error (.blocking msg) =>
    job.failed bytesLen (if msg.startsWith "sha256 mismatch" then .sha256Mismatch else .ioError) msg
      none
  | .error (.join text) =>
    job.failed bytesLen .ioError ("spawn_blocking join error: " ++ text) none

end Job

/-- What a task is about to do. `probing` to `verified` are the calls of the blocking thread;
`joined` is its result, waiting for the task. -/
inductive Phase where
  | spawned
  | fetching
  | probing (bytes : List UInt8) (tried : Nat)
  | creating (bytes : List UInt8) (path : Path)
  | writing (bytes : List UInt8) (path : Path) (inode written : Nat)
  | removing (bytes : List UInt8) (path : Path)
  | verified (bytes : List UInt8) (path : Path)
  | joined (bytesLen : Nat) (result : Except Failure Path)
  | ended (landed : Option Path)

/-- The bytes that the blocking thread holds. -/
def Phase.payload? : Phase → Option (List UInt8)
  | .probing bytes _ | .creating bytes _ | .writing bytes _ _ _ | .removing bytes _
  | .verified bytes _ => some bytes
  | _ => none

/-- What the world answers in one turn: the fetch (if it is done), whether a file-system call
succeeds, how far a write gets, the text of an error, the time, and the panic of the blocking
thread. -/
structure Answers where
  fetch : Option (Except IoError (UInt16 × List UInt8)) := none
  ok : Bool := true
  chunk : Nat := 0
  text : String := ""
  now : Nat := 0
  panicked : Option String := none

def bufWriterCapacity : Nat := 8192

namespace Job

/-- The path that `resolve_unique_path` looks at after `tried` paths that exist. -/
def candidate (job : Job) (tried now : Nat) : Path :=
  let name := sanitizeFilename job.name
  join job.acceptDir
    (if tried = 0 then name
     else if tried ≤ 9999 then numberedName name tried else numberedName name now)

/-- One round of `resolve_unique_path`: the path after the last number is taken unseen. -/
def probe (job : Job) (bytes : List UInt8) (tried : Nat) (files : Disk) (a : Answers) : Phase :=
  let path := job.candidate tried a.now
  if tried ≤ 9999 ∧ files.exists? path then .probing bytes (tried + 1) else .creating bytes path

def failedPartial (bytes : List UInt8) (verb : String) (path : Path) (text : String) : Phase :=
  .joined bytes.length (.error (.blocking
    (verb ++ " partial " ++ String.ofList (keepPartialPath path) ++ ": " ++ text)))

def createPartial (bytes : List UInt8) (path : Path) (files : Disk) (a : Answers) :
    Phase × Disk :=
  match if a.ok then files.create (keepPartialPath path) else none with
  | some (files, inode) => (.writing bytes path inode 0, files)
  | none => (failedPartial bytes "create" path a.text, files)

variable (sha256 : List UInt8 → Hash)

def mismatch (job : Job) (bytes : List UInt8) : Phase :=
  .joined bytes.length (.error (.blocking ("sha256 mismatch: expected="
    ++ shortHex job.inboundSha ++ ", got=" ++ shortHex (sha256 bytes))))

def verify (job : Job) (bytes : List UInt8) (path : Path) : Phase :=
  if sha256 bytes ≠ job.inboundSha then
    if job.keepPartial then job.mismatch sha256 bytes else .removing bytes path
  else .verified bytes path

/-- The next `write` of the bytes, or `sync_all` when all are written. A payload that fits the
buffer reaches the file when the buffer is flushed; after a failed flush, dropping the writer tries
once more. -/
def writePartial (job : Job) (bytes : List UInt8) (path : Path) (inode written : Nat)
    (files : Disk) (a : Answers) : Phase × Disk :=
  let rest := bytes.drop written
  if rest ≠ [] then
    if a.ok then
      let chunk := rest.take (a.chunk + 1)
      (.writing bytes path inode (written + chunk.length), files.writeAt inode written chunk)
    else if bytes.length < bufWriterCapacity then
      (failedPartial bytes "flush" path a.text, files.writeAt inode written (rest.take a.chunk))
    else (failedPartial bytes "write" path a.text, files)
  else if a.ok then (job.verify sha256 bytes path, files)
  else (failedPartial bytes "fsync" path a.text, files)

def removePartial (job : Job) (bytes : List UInt8) (path : Path) (files : Disk) (a : Answers) :
    Phase × Disk :=
  (job.mismatch sha256 bytes,
    if a.ok then (files.removeFile (keepPartialPath path)).getD files else files)

def renamePartial (bytes : List UInt8) (path : Path) (files : Disk) (a : Answers) :
    Phase × Disk :=
  match if a.ok then files.rename (keepPartialPath path) path else none with
  | some files => (.joined bytes.length (.ok path), files)
  | none => (.joined bytes.length (.error (.blocking ("rename partial " ++
      String.ofList (keepPartialPath path) ++ " to " ++ String.ofList path ++ ": " ++ a.text))),
      files)

/-- One call of the closure given to `spawn_blocking`. -/
def blockingCall (job : Job) (phase : Phase) (files : Disk) (a : Answers) : Phase × Disk :=
  match phase with
  | .probing bytes tried => (job.probe bytes tried files a, files)
  | .creating bytes path => createPartial bytes path files a
  | .writing bytes path inode written => job.writePartial sha256 bytes path inode written files a
  | .removing bytes path => job.removePartial sha256 bytes path files a
  | .verified bytes path => renamePartial bytes path files a
  | phase => (phase, files)

def blockingTurn (job : Job) (phase : Phase) (files : Disk) (a : Answers) : Phase × Disk :=
  match phase.payload?, a.panicked with
  | some bytes, some text => (.joined bytes.length (.error (.join text)), files)
  | _, _ => job.blockingCall sha256 phase files a

end Job

/-- The cancel registry. The sender of a task's cancel channel lives here under the task's SHA-256;
the sender is told by the number of its task. -/
abbrev Registry := AList (fun _ : Hash => Nat)

structure Task where
  job : Job
  phase : Phase := .spawned
  reports : List InboundFileApplyResult := []
  removals : List Path := []

structure Turned where
  task : Task
  registry : Registry
  files : Disk

namespace Task

/-- The cancel receiver of task `i` is ready: a cancel was sent, or the sender was dropped. -/
def cancelled (t : Task) (i : Nat) (registry : Registry) : Bool :=
  registry.lookup t.job.inboundSha ≠ some i

def finish (t : Task) (landed : Option Path) : Task := { t with phase := .ended landed }

def report (t : Task) (result : InboundFileApplyResult) : Task :=
  { t with reports := t.reports ++ [result] }

/-- The `select!` between the cancel receiver and the fetch, and what follows without waiting. -/
def race (t : Task) (i : Nat) (registry : Registry) (files : Disk) (a : Answers) : Turned :=
  if t.cancelled i registry then ⟨t.finish none, registry, files⟩
  else match a.fetch with
    | none => ⟨{ t with phase := .fetching }, registry, files⟩
    | some (.ok (status, body)) =>
      if status = 200 then
        if t.cancelled i registry then ⟨t.finish none, registry.erase t.job.inboundSha, files⟩
        else ⟨{ t with phase := .probing body 0 }, registry, files⟩
      else ⟨(t.report (t.job.refused status)).finish none, registry.erase t.job.inboundSha, files⟩
    | some (.error e) =>
      if t.cancelled i registry then ⟨t.finish none, registry, files⟩
      else ⟨(t.report (t.job.lost e a.now)).finish none, registry.erase t.job.inboundSha, files⟩

/-- A cancel that is pending after the file has landed takes the file away again. -/
def conclude (t : Task) (i bytesLen : Nat) (result : Except Failure Path) (registry : Registry)
    (files : Disk) (a : Answers) : Turned :=
  let t := t.report (t.job.applied bytesLen result)
  let registry' := registry.erase t.job.inboundSha
  match result with
  | .error _ => ⟨t.finish none, registry', files⟩
  | .ok path =>
    if t.cancelled i registry then
      let t := { t with removals := t.removals ++ [path] }
      match if a.ok then files.removeFile path else none with
      | some files => ⟨t.finish none, registry', files⟩
      | none => ⟨t.finish (some path), registry', files⟩
    else ⟨t.finish (some path), registry', files⟩

/-- The next turn of task `i`. -/
def turn (sha256 : List UInt8 → Hash) (t : Task) (i : Nat) (registry : Registry) (files : Disk)
    (a : Answers) : Turned :=
  match t.phase with
  | .spawned => t.race i (registry.insert t.job.inboundSha i) files a
  | .fetching => t.race i registry files a
  | .joined bytesLen result => t.conclude i bytesLen result registry files a
  | .ended _ => ⟨t, registry, files⟩
  | phase =>
    let (phase, files) := t.job.blockingTurn sha256 phase files a
    ⟨{ t with phase }, registry, files⟩

end Task

structure World where
  tasks : List Task
  registry : Registry
  files : Disk

/-- `cancel` is a `FileTransferCancel` that arrives; it takes the sender out of the registry. -/
inductive Event where
  | turn (i : Nat) (a : Answers)
  | cancel (sha256 : Hash)

namespace World

def start (jobs : List Job) (files : Disk) : World :=
  ⟨jobs.map fun job => { job }, ∅, files⟩

def put (w : World) (i : Nat) (r : Turned) : World :=
  ⟨w.tasks.set i r.task, r.registry, r.files⟩

def step (sha256 : List UInt8 → Hash) (w : World) : Event → World
  | .turn i a =>
    match w.tasks[i]? with
    | some t => w.put i (t.turn sha256 i w.registry w.files a)
    | none => w
  | .cancel sha => { w with registry := w.registry.erase sha }

end World

end LanMouse.Files
