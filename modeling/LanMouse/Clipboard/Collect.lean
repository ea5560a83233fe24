import LanMouse.Clipboard.Fingerprint
import LanMouse.Lib.Digest

/-!
# Collecting the entries of a file selection

`collect_files` and `collect_files_blocking` go through the selected paths and stop at the first
that cannot be announced. They read the files by different calls, and so see them in different
pieces. The pieces do not matter: what comes of a path is what `offence` and `Describes` say.

The model of `FileMeta` takes a file as a whole. `collectWhole_eq` says that it loses nothing.
-/
namespace LanMouse.Clipboard.Collect

open Proto UnixPath Digest

variable {P : Type}

structure Metadata where
  isDir : Bool
  len : UInt64
  deriving DecidableEq, Repr

/-- The files at one moment: the metadata of a path, and what opening it gives. -/
structure Disk (P : Type) where
  metadata : P → Except String Metadata
  opened : P → Except String (Source String UInt8)

inductive FileMetaError (P : Type) where
  | isDirectory (p : P)
  | io (e : String)
  | exceedsLimit (offending : P) (size limit : UInt64)
  deriving DecidableEq, Repr

/-- What the text of a path contributes to its entry. -/
structure Naming (P : Type) where
  name : P → String
  mime : P → String

/-- How many bytes reads give beyond the first, by the place of the file among the paths and the
offset in the file. -/
abbrev Chunks := Nat → Nat → Nat

def bufferSize : Nat := 64 * 1024

/-- Hash a file in the pieces that reading it gives. -/
def streamPieces (H : Hasher UInt8 Hash) (disk : Disk P) (chunk : Nat → Nat) (path : P) :
    Except (FileMetaError P) Hash :=
  match disk.opened path with
  | .error e => .error (.io e)
  | .ok file => (file.digest H bufferSize chunk).mapError .io

/-- One turn of the loop over the paths. -/
def entryOf (naming : Naming P) (disk : Disk P) (maxSize : UInt64)
    (stream : P → Except (FileMetaError P) Hash) (path : P) :
    Except (FileMetaError P) FileEntry :=
  match disk.metadata path with
  | .error e => .error (.io e)
  | .ok data =>
    let size := data.len
    if data.isDir then .error (.isDirectory path)
    else if maxSize > 0 ∧ size > maxSize then .error (.exceedsLimit path size maxSize)
    else if shouldMarkTooLarge size.toNat then
      .ok ⟨naming.name path, size, mimeTooLarge, Vector.replicate 32 0⟩
    else
      match stream path with
      | .error e => .error e
      | .ok sha256 => .ok ⟨naming.name path, size, naming.mime path, sha256⟩

def collectWith (naming : Naming P) (disk : Disk P) (maxSize : UInt64)
    (stream : Nat → P → Except (FileMetaError P) Hash) (paths : List P) :
    Except (FileMetaError P) (List FileEntry) :=
  Batch.collect (fun i => entryOf naming disk maxSize (stream i)) [] paths

section Source

/-- Paths are made of bytes. The rules for their parts only look for slashes and dots, so that each
byte may stand as a character. -/
def widen (p : OsPath) : Path := p.map fun b => Char.ofNat b.toNat

def narrow (p : Path) : OsPath := p.map fun c => UInt8.ofNat c.toNat

/-- A part of a path that is not UTF-8 counts as empty. -/
def osNaming : Naming OsPath where
  name p := (((fileName (widen p)).map narrow).bind fromUtf8).getD ""
  mime p := mimeOfExtension ((((extension (widen p)).map narrow).bind fromUtf8).getD "")

variable (H : Hasher UInt8 Hash) (disk : Disk OsPath)

def streamSha256 (chunk : Nat → Nat) : OsPath → Except (FileMetaError OsPath) Hash :=
  streamPieces H disk chunk

def streamSha256Blocking (chunk : Nat → Nat) : OsPath → Except (FileMetaError OsPath) Hash :=
  streamPieces H disk chunk

def collectFiles (chunks : Chunks) (paths : List OsPath) (maxSize : UInt64) :
    Except (FileMetaError OsPath) (List FileEntry) :=
  collectWith osNaming disk maxSize (fun i => streamSha256 H disk (chunks i)) paths

def collectFilesBlocking (chunks : Chunks) (paths : List OsPath) (maxSize : UInt64) :
    Except (FileMetaError OsPath) (List FileEntry) :=
  collectWith osNaming disk maxSize (fun i => streamSha256Blocking H disk (chunks i)) paths

end Source

/-! ### What comes of a path -/

/-- What keeps a file from being read to its end. -/
def Disk.unreadable (disk : Disk P) (path : P) : Option String :=
  match disk.opened path with
  | .error e => some e
  | .ok file => file.failure

/-- Why a path cannot be announced, if it cannot. -/
def offence (disk : Disk P) (maxSize : UInt64) (path : P) : Option (FileMetaError P) :=
  match disk.metadata path with
  | .error e => some (.io e)
  | .ok data =>
    if data.isDir then some (.isDirectory path)
    else if maxSize ≠ 0 ∧ maxSize < data.len then some (.exceedsLimit path data.len maxSize)
    else if data.len.toNat ≤ fourGib then (disk.unreadable path).map .io
    else none

/-- What the entry of a path tells of it. -/
structure Describes (H : Hasher UInt8 Hash) (naming : Naming P) (disk : Disk P) (maxSize : UInt64)
    (path : P) (entry : FileEntry) : Prop where
  file : disk.metadata path = .ok ⟨false, entry.size⟩
  name : entry.name = naming.name path
  capped : maxSize ≠ 0 → entry.size ≤ maxSize
  hashed : entry.size.toNat ≤ fourGib → entry.mime = naming.mime path ∧
    ∃ file, disk.opened path = .ok file ∧ file.failure = none ∧
      entry.sha256 = H.hash file.content
  marked : fourGib < entry.size.toNat →
    entry.mime = mimeTooLarge ∧ entry.sha256 = Vector.replicate 32 0

variable (H : Hasher UInt8 Hash)

/-- The pieces in which a file is read do not matter. -/
theorem streamPieces_eq (disk : Disk P) (chunk : Nat → Nat) (path : P) :
    streamPieces H disk chunk path = streamPieces H disk (fun _ => 0) path := by
  have room : 0 < bufferSize := by decide
  unfold streamPieces
  cases disk.opened path with
  | error e => rfl
  | ok file =>
    dsimp only
    rw [file.digest_eq H room, file.digest_eq H room]

theorem streamPieces_cases (disk : Disk P) (chunk : Nat → Nat) (path : P) :
    (∃ e, disk.unreadable path = some e ∧ streamPieces H disk chunk path = .error (.io e)) ∨
      (disk.unreadable path = none ∧ ∃ file, disk.opened path = .ok file ∧ file.failure = none ∧
        streamPieces H disk chunk path = .ok (H.hash file.content)) := by
  have room : 0 < bufferSize := by decide
  unfold streamPieces Disk.unreadable
  cases disk.opened path with
  | error e => exact .inl ⟨e, rfl, rfl⟩
  | ok file =>
    dsimp only
    rw [file.digest_eq H room]
    cases failure : file.failure with
    | some e => exact .inl ⟨e, rfl, rfl⟩
    | none => exact .inr ⟨rfl, file, rfl, failure, rfl⟩

theorem entryOf_cases (naming : Naming P) (disk : Disk P) (maxSize : UInt64) (chunk : Nat → Nat)
    (path : P) :
    (∃ e, offence disk maxSize path = some e ∧
      entryOf naming disk maxSize (streamPieces H disk chunk) path = .error e) ∨
    (offence disk maxSize path = none ∧ ∃ entry, Describes H naming disk maxSize path entry ∧
      entryOf naming disk maxSize (streamPieces H disk chunk) path = .ok entry) := by
  unfold offence entryOf
  cases found : disk.metadata path with
  | error e => exact .inl ⟨.io e, rfl, rfl⟩
  | ok data =>
    obtain ⟨isDir, len⟩ := data
    cases isDir with
    | true => exact .inl ⟨.isDirectory path, rfl, rfl⟩
    | false =>
      dsimp only
      rw [if_neg Bool.false_ne_true, if_neg Bool.false_ne_true]
      have cap : (maxSize > 0 ∧ len > maxSize) ↔ (maxSize ≠ 0 ∧ maxSize < len) := by
        rw [gt_iff_lt, gt_iff_lt, UInt64.pos_iff_ne_zero]
      by_cases exceeded : maxSize ≠ 0 ∧ maxSize < len
      · rw [if_pos exceeded, if_pos (cap.mpr exceeded)]
        exact .inl ⟨_, rfl, rfl⟩
      rw [if_neg exceeded, if_neg (fun large => exceeded (cap.mp large))]
      have capped : maxSize ≠ 0 → len ≤ maxSize := fun limited =>
        UInt64.not_lt.mp fun large => exceeded ⟨limited, large⟩
      by_cases small : len.toNat ≤ fourGib
      · have unmarked : ¬ shouldMarkTooLarge len.toNat = true := by
          simpa [shouldMarkTooLarge] using small
        rw [if_pos small, if_neg unmarked]
        obtain ⟨e, bad, failed⟩ | ⟨sound, file, opened, whole, done⟩ :=
          streamPieces_cases H disk chunk path
        · rw [bad, failed]
          exact .inl ⟨.io e, rfl, rfl⟩
        · rw [sound, done]
          exact .inr ⟨rfl, _, ⟨found, rfl, capped, fun _ => ⟨rfl, file, opened, whole, rfl⟩,
            fun large => absurd small (Nat.not_le.mpr large)⟩, rfl⟩
      · have marked : shouldMarkTooLarge len.toNat = true := by
          simpa [shouldMarkTooLarge] using small
        rw [if_neg small, if_pos marked]
        exact .inr ⟨rfl, _, ⟨found, rfl, capped, fun least => absurd least small,
          fun _ => ⟨rfl, rfl⟩⟩, rfl⟩

/-- Both functions give what a traversal with one kind of reading gives. -/
theorem collectWith_eq (naming : Naming P) (disk : Disk P) (maxSize : UInt64) (chunks : Chunks)
    (paths : List P) :
    collectWith naming disk maxSize (fun i => streamPieces H disk (chunks i)) paths =
      paths.mapM (entryOf naming disk maxSize (streamPieces H disk fun _ => 0)) := by
  have same : ∀ i path, entryOf naming disk maxSize (streamPieces H disk (chunks i)) path =
      entryOf naming disk maxSize (streamPieces H disk fun _ => 0) path := by
    intro i path
    rw [funext (streamPieces_eq H disk (chunks i))]
  rw [collectWith, Batch.collect_eq_mapM same]
  exact id_map _

/-- However the files are read, the two functions agree: they give one entry for each path, which
describes it, or the error of the first path that offends. -/
theorem collectFiles_spec (H : Hasher UInt8 Hash) (disk : Disk OsPath)
    (paths : List OsPath) (maxSize : UInt64) (chunks chunks' : Chunks) :
    collectFiles H disk chunks paths maxSize = collectFilesBlocking H disk chunks' paths maxSize ∧
      (∀ entries, collectFiles H disk chunks paths maxSize = .ok entries →
        List.Forall₂ (Describes H osNaming disk maxSize) paths entries ∧
          ∀ path ∈ paths, offence disk maxSize path = none) ∧
      ∀ e, collectFiles H disk chunks paths maxSize = .error e →
        ∃ before path after, paths = before ++ path :: after ∧
          (∀ p ∈ before, offence disk maxSize p = none) ∧ offence disk maxSize path = some e := by
  have whole : ∀ chunks, collectFiles H disk chunks paths maxSize = _ := fun chunks =>
    collectWith_eq H osNaming disk maxSize chunks paths
  have blocking : collectFilesBlocking H disk chunks' paths maxSize = _ :=
    collectWith_eq H osNaming disk maxSize chunks' paths
  rw [whole, blocking]
  refine ⟨rfl, ?_⟩
  obtain ⟨before, path, after, e, split, sound, bad, failed⟩ | ⟨sound, entries, all, done⟩ :=
    Batch.mapM_cases (entryOf_cases H osNaming disk maxSize fun _ => 0) paths
  · rw [failed]
    refine ⟨nofun, fun e' same => ?_⟩
    cases same
    exact ⟨before, path, after, split, sound, bad⟩
  · rw [done]
    refine ⟨fun entries' same => ?_, nofun⟩
    cases same
    exact ⟨all, sound⟩

/-! ### Files as a whole -/

/-- Paths that are text. -/
def textNaming : Naming Path where
  name p := String.ofList ((fileName p).getD [])
  mime := detectMime

def wholeFiles (snapshot : Snapshot) : Disk Path where
  metadata p := (fun stat => ⟨stat.isDir, UInt64.ofNat stat.bytes.length⟩) <$> snapshot p
  opened p := (fun stat => ⟨stat.bytes, stat.readError.map fun e => (0, e)⟩) <$> snapshot p

def FileMetaError.whole : FileMetaError Path → Clipboard.FileMetaError
  | .isDirectory p => .isDirectory p
  | .io e => .io e
  | .exceedsLimit offending size limit => .exceedsLimit offending size.toNat limit.toNat

theorem streamPieces_whole {snapshot : Snapshot} (chunk : Nat → Nat) {path : Path}
    {stat : FileStat} (found : snapshot path = .ok stat) :
    (streamPieces H (wholeFiles snapshot) chunk path).mapError FileMetaError.whole =
      Clipboard.streamSha256Blocking H.hash stat := by
  have room : 0 < bufferSize := by decide
  have opened : (wholeFiles snapshot).opened path =
      .ok ⟨stat.bytes, stat.readError.map fun e => (0, e)⟩ := by
    simp only [wholeFiles, found]
    rfl
  simp only [streamPieces, opened, Source.digest_eq H _ room, Clipboard.streamSha256Blocking,
    FileStat.read]
  cases stat.readError <;> rfl

theorem entryOf_whole {snapshot : Snapshot} (maxSize : UInt64) (chunk : Nat → Nat) (path : Path)
    (fits : ∀ stat, snapshot path = .ok stat → stat.bytes.length < 2 ^ 64) :
    (entryOf textNaming (wholeFiles snapshot) maxSize
      (streamPieces H (wholeFiles snapshot) chunk) path).mapError FileMetaError.whole =
      collectFile H.hash snapshot maxSize.toNat path := by
  unfold entryOf collectFile
  cases found : snapshot path with
  | error e =>
    have missing : (wholeFiles snapshot).metadata path = .error e := by
      simp only [wholeFiles, found]
      rfl
    rw [missing]
    rfl
  | ok stat =>
    have data : (wholeFiles snapshot).metadata path =
        .ok ⟨stat.isDir, UInt64.ofNat stat.bytes.length⟩ := by
      simp only [wholeFiles, found]
      rfl
    have len : (UInt64.ofNat stat.bytes.length).toNat = stat.bytes.length :=
      UInt64.toNat_ofNat_of_lt' (fits stat found)
    rw [data]
    dsimp only
    simp only [gt_iff_lt, UInt64.lt_iff_toNat_lt, len, UInt64.toNat_zero]
    have streamed := streamPieces_whole H chunk found
    split_ifs
    · rfl
    · simp only [Except.mapError, FileMetaError.whole, len]
    · rfl
    · rw [← streamed]
      cases streamPieces H (wholeFiles snapshot) chunk path <;> rfl

/-- Files can be taken as a whole where they have the length that their metadata tell. -/
theorem collectWhole_eq (snapshot : Snapshot) (maxSize : UInt64) (chunks : Chunks)
    (paths : List Path)
    (fits : ∀ path stat, snapshot path = .ok stat → stat.bytes.length < 2 ^ 64) :
    (collectWith textNaming (wholeFiles snapshot) maxSize
      (fun i => streamPieces H (wholeFiles snapshot) (chunks i)) paths).mapError
        FileMetaError.whole =
      Clipboard.collectFilesBlocking H.hash snapshot maxSize.toNat paths := by
  rw [collectWith_eq, Batch.mapError_mapM, Clipboard.collectFilesBlocking]
  congr 1
  funext path
  exact entryOf_whole H maxSize _ path (fits path)

end LanMouse.Clipboard.Collect
