import LanMouse.Clipboard.Cache
import LanMouse.Lib.Batch
import LanMouse.Lib.UnixPath
import LanMouse.Proto.Codec
import Mathlib.Data.List.Sort

/-!
# What a file selection is announced with

`collect_files_blocking` looks at the selected files and gives the entries of the announcement, or
the reason why the selection cannot be announced. SHA-256 is a parameter throughout.
-/
namespace LanMouse.Clipboard

open Proto UnixPath

def fourGib : Nat := 4 * 1024 * 1024 * 1024

def mimeTooLarge : String := "application/x-too-large"

/-- What a path leads to: a directory, or a file with its bytes, which may not be readable. -/
structure FileStat where
  isDir : Bool := false
  bytes : List UInt8 := []
  readError : Option String := none
  deriving DecidableEq, Repr

/-- The files as they are at one moment; no metadata for a path is an error too. -/
abbrev Snapshot := Path → Except String FileStat

inductive FileMetaError where
  | isDirectory (p : Path)
  | io (e : String)
  | exceedsLimit (offending : Path) (size limit : Nat)
  deriving DecidableEq, Repr

def shouldMarkTooLarge (size : Nat) : Bool := size > fourGib

def mimeOfExtension (ext : String) : String :=
  match String.ofList (ext.toList.map Char.toLower) with
  | "png" => "image/png"
  | "jpg" | "jpeg" => "image/jpeg"
  | "bmp" => "image/bmp"
  | "pdf" => "application/pdf"
  | "txt" | "md" => "text/plain"
  | _ => "application/octet-stream"

def detectMime (path : Path) : String :=
  mimeOfExtension (String.ofList ((extension path).getD []))

theorem detectMime_ne (path : Path) : detectMime path ≠ mimeTooLarge := by
  unfold detectMime mimeOfExtension mimeTooLarge
  split <;> decide

def FileStat.read (stat : FileStat) : Except String (List UInt8) :=
  match stat.readError with
  | some e => .error e
  | none => .ok stat.bytes

variable (sha256 : List UInt8 → Hash)

def streamSha256Blocking (stat : FileStat) : Except FileMetaError Hash :=
  match stat.read with
  | .ok bytes => .ok (sha256 bytes)
  | .error e => .error (.io e)

/-- The entry of one selected file. -/
def collectFile (snapshot : Snapshot) (maxSize : Nat) (path : Path) :
    Except FileMetaError FileEntry :=
  match snapshot path with
  | .error e => .error (.io e)
  | .ok stat =>
    let size := stat.bytes.length
    if stat.isDir then .error (.isDirectory path)
    else if maxSize > 0 ∧ size > maxSize then .error (.exceedsLimit path size maxSize)
    else
      let name := String.ofList ((fileName path).getD [])
      if shouldMarkTooLarge size then
        .ok ⟨name, UInt64.ofNat size, mimeTooLarge, Vector.replicate 32 0⟩
      else
        match streamSha256Blocking sha256 stat with
        | .ok sha => .ok ⟨name, UInt64.ofNat size, detectMime path, sha⟩
        | .error e => .error e

def collectFilesBlocking (snapshot : Snapshot) (maxSize : Nat) (paths : List Path) :
    Except FileMetaError (List FileEntry) :=
  paths.mapM (collectFile sha256 snapshot maxSize)

def pathBytes (p : Path) : List UInt8 := asBytes (String.ofList p)

/-- Shorter paths first, paths of one length by their bytes. -/
def pathLe (a b : List UInt8) : Prop := a.length < b.length ∨ a.length = b.length ∧ a ≤ b

instance : DecidableRel pathLe := fun _ _ => inferInstanceAs (Decidable (_ ∨ _))

def fileSelectionFingerprint (paths : List Path) : Hash :=
  sha256 (((paths.map pathBytes).insertionSort pathLe).flatMap (· ++ [10]))

variable {sha256}

/-- An entry that is not marked too large has the hash of the bytes that were there. -/
theorem collectFile_sha256 {snapshot : Snapshot} {maxSize : Nat} {path : Path} {entry : FileEntry}
    (collected : collectFile sha256 snapshot maxSize path = .ok entry)
    (small : entry.mime ≠ mimeTooLarge) :
    ∃ stat, snapshot path = .ok stat ∧ shouldMarkTooLarge stat.bytes.length = false ∧
      entry.sha256 = sha256 stat.bytes := by
  unfold collectFile at collected
  cases found : snapshot path with
  | error e => simp [found] at collected
  | ok stat =>
    refine ⟨stat, rfl, ?_⟩
    simp only [found] at collected
    split_ifs at collected with dir limit large
    · cases collected
      exact absurd rfl small
    · unfold streamSha256Blocking FileStat.read at collected
      cases unreadable : stat.readError with
      | some e => simp [unreadable] at collected
      | none =>
        simp only [unreadable] at collected
        cases collected
        exact ⟨by simpa using large, rfl⟩

theorem mem_collectFilesBlocking {snapshot : Snapshot} {maxSize : Nat} {paths : List Path}
    {entries : List FileEntry}
    (collected : collectFilesBlocking sha256 snapshot maxSize paths = .ok entries)
    {entry : FileEntry} (mem : entry ∈ entries) :
    ∃ path ∈ paths, collectFile sha256 snapshot maxSize path = .ok entry :=
  Batch.exists_of_mem_mapM collected mem

end LanMouse.Clipboard
