import Mathlib.Logic.Function.Basic

/-!
# Files behind names

A file system maps paths to nodes, and the inode of a file to its bytes. An open file is its inode:
it can be written whatever happens to the names that lead to it.

`Above base fs` is what a program may make of the file system `base` it found: the names of `base`
still lead to the same files with the same bytes, and every other name has a file of its own. Each
operation at a name that `base` does not have keeps this, and changes nothing at any other name.
-/
namespace FileStore

inductive Node where
  | file (inode : Nat)
  | directory
  deriving DecidableEq, Repr

structure FileSystem (Path Byte : Type) where
  entry : Path → Option Node
  content : Nat → List Byte
  fresh : Nat
  below : ∀ p i, entry p = some (.file i) → i < fresh

variable {Path Byte : Type}

/-- The bytes of a file after `chunk` is written at `offset`; a gap is filled up. -/
def overwrite [Inhabited Byte] (old : List Byte) (offset : Nat) (chunk : List Byte) :
    List Byte :=
  (old.take offset).rightpad offset default ++ chunk ++ old.drop (offset + chunk.length)

theorem overwrite_append [Inhabited Byte] {old : List Byte} (chunk : List Byte) :
    overwrite old old.length chunk = old ++ chunk := by
  simp [overwrite, List.rightpad]

namespace FileSystem

def empty : FileSystem Path Byte := ⟨fun _ => none, fun _ => [], 0, nofun⟩

def exists? (fs : FileSystem Path Byte) (p : Path) : Bool := (fs.entry p).isSome

def read (fs : FileSystem Path Byte) (p : Path) : Option (List Byte) :=
  match fs.entry p with
  | some (.file i) => some (fs.content i)
  | _ => none

def setContent (fs : FileSystem Path Byte) (i : Nat) (bytes : List Byte) : FileSystem Path Byte :=
  { fs with content := Function.update fs.content i bytes }

def writeAt [Inhabited Byte] (fs : FileSystem Path Byte) (i offset : Nat) (chunk : List Byte) :
    FileSystem Path Byte :=
  fs.setContent i (overwrite (fs.content i) offset chunk)

/-! ### What an operation leaves alone -/

/-- Nothing but the names in `touched` changed. -/
def SameOutside (touched : List Path) (fs fs' : FileSystem Path Byte) : Prop :=
  ∀ p, p ∉ touched → fs'.entry p = fs.entry p ∧ fs'.read p = fs.read p

structure Above (base fs : FileSystem Path Byte) : Prop where
  kept : ∀ p, base.entry p ≠ none → fs.entry p = base.entry p
  content : ∀ i < base.fresh, fs.content i = base.content i
  fresh : base.fresh ≤ fs.fresh
  new : ∀ p i, base.entry p = none → fs.entry p = some (.file i) → base.fresh ≤ i
  sole : ∀ p q i, base.fresh ≤ i → fs.entry p = some (.file i) → fs.entry q = some (.file i) →
    p = q

variable {base fs fs' : FileSystem Path Byte} {p src dst : Path} {i : Nat}

theorem read_eq (found : fs.entry p = some (.file i)) : fs.read p = some (fs.content i) := by
  simp [read, found]

theorem read_congr (entry : fs'.entry p = fs.entry p)
    (content : ∀ i, fs.entry p = some (.file i) → fs'.content i = fs.content i) :
    fs'.read p = fs.read p := by
  unfold read
  rw [entry]
  cases found : fs.entry p with
  | none => rfl
  | some node =>
    cases node with
    | file i => simp [content i found]
    | directory => rfl

namespace SameOutside

theorem refl (touched : List Path) (fs : FileSystem Path Byte) : SameOutside touched fs fs :=
  fun _ _ => ⟨rfl, rfl⟩

theorem mono {touched more : List Path} (same : SameOutside touched fs fs')
    (sub : ∀ p ∈ touched, p ∈ more) : SameOutside more fs fs' :=
  fun p out => same p fun mem => out (sub p mem)

end SameOutside

namespace Above

theorem refl (fs : FileSystem Path Byte) : Above fs fs where
  kept _ _ := rfl
  content _ _ := rfl
  fresh := Nat.le_refl _
  new p i absent found := by simp [absent] at found
  sole p q i new found _ := absurd (fs.below p i found) (Nat.not_lt.mpr new)

theorem read (above : Above base fs) (there : base.entry p ≠ none) : fs.read p = base.read p :=
  read_congr (above.kept p there) fun i found => above.content i (base.below p i found)

/-- A file that has a name of its own is not the file of any other name. -/
theorem ne_inode (above : Above base fs) (new : base.entry p = none)
    (found : fs.entry p = some (.file i)) {q : Path} (other : q ≠ p) {j : Nat}
    (foundOther : fs.entry q = some (.file j)) : j ≠ i := by
  rintro rfl
  exact other (above.sole q p j (above.new p j new found) foundOther found)

theorem setContent (above : Above base fs) (new : base.entry p = none)
    (found : fs.entry p = some (.file i)) (bytes : List Byte) :
    Above base (fs.setContent i bytes) ∧ SameOutside [p] fs (fs.setContent i bytes) ∧
      (fs.setContent i bytes).read p = some bytes := by
  have high := above.new p i new found
  refine ⟨⟨above.kept, fun j low => ?_, above.fresh, above.new, above.sole⟩, fun q out => ?_, ?_⟩
  · rw [← above.content j low]
    exact Function.update_of_ne (by omega) ..
  · have other : q ≠ p := by simpa using out
    refine ⟨rfl, read_congr rfl fun j foundOther => ?_⟩
    exact Function.update_of_ne (above.ne_inode new found other foundOther) ..
  · have found' : (fs.setContent i bytes).entry p = some (.file i) := found
    rw [read_eq found']
    simp [FileSystem.setContent]

theorem writeAt [Inhabited Byte] (above : Above base fs) (new : base.entry p = none)
    (found : fs.entry p = some (.file i)) {old : List Byte} (read : fs.read p = some old)
    (chunk : List Byte) :
    Above base (fs.writeAt i old.length chunk) ∧
      SameOutside [p] fs (fs.writeAt i old.length chunk) ∧
      (fs.writeAt i old.length chunk).entry p = some (.file i) ∧
      (fs.writeAt i old.length chunk).read p = some (old ++ chunk) := by
  obtain ⟨above', same, read'⟩ :=
    above.setContent new found (overwrite (fs.content i) old.length chunk)
  refine ⟨above', same, found, read'.trans ?_⟩
  rw [read_eq found, Option.some_inj] at read
  rw [read, overwrite_append]

end Above

/-! ### What was written to one file -/

/-- The names are as in `fs`, and so are the files but for the one with the inode `i`. -/
structure Wrote (fs : FileSystem Path Byte) (i : Nat) (bytes : List Byte)
    (fs' : FileSystem Path Byte) : Prop where
  entry : fs'.entry = fs.entry
  content : fs'.content i = bytes
  others : ∀ j ≠ i, fs'.content j = fs.content j

theorem Wrote.writeAt [Inhabited Byte] {bytes : List Byte} (wrote : Wrote fs i bytes fs')
    (chunk : List Byte) : Wrote fs i (bytes ++ chunk) (fs'.writeAt i bytes.length chunk) := by
  refine ⟨wrote.entry, ?_, fun j other => ?_⟩
  · rw [FileSystem.writeAt, setContent, wrote.content]
    exact (Function.update_self ..).trans (overwrite_append chunk)
  · exact (Function.update_of_ne other ..).trans (wrote.others j other)

theorem Wrote.read_of_ne {bytes : List Byte} (wrote : Wrote fs i bytes fs')
    (other : fs.entry p ≠ some (.file i)) : fs'.read p = fs.read p := by
  refine read_congr (congrFun wrote.entry p) fun j found => wrote.others j ?_
  rintro rfl
  exact other found

/-! ### Operations on names -/

variable [DecidableEq Path]

/-- Open a file for writing; a file that exists is truncated. -/
def create (fs : FileSystem Path Byte) (p : Path) : Option (FileSystem Path Byte × Nat) :=
  match fs.entry p with
  | some .directory => none
  | some (.file i) => some (fs.setContent i [], i)
  | none => some
      ({ entry := Function.update fs.entry p (some (.file fs.fresh))
         content := Function.update fs.content fs.fresh []
         fresh := fs.fresh + 1
         below := fun q i h => by
           by_cases same : q = p
           · subst same
             rw [Function.update_self] at h
             cases h
             exact Nat.lt_succ_self _
           · rw [Function.update_of_ne same] at h
             exact Nat.lt_succ_of_lt (fs.below q i h) }, fs.fresh)

def removeFile (fs : FileSystem Path Byte) (p : Path) : Option (FileSystem Path Byte) :=
  match fs.entry p with
  | some (.file _) => some
      { fs with
        entry := Function.update fs.entry p none
        below := fun q i h => by
          by_cases same : q = p
          · subst same
            simp at h
          · rw [Function.update_of_ne same] at h
            exact fs.below q i h }
  | _ => none

theorem read_of_removeFile {fs fs' : FileSystem Path Byte} {p q : Path} {bytes : List Byte}
    (removed : fs.removeFile p = some fs') (there : fs'.read q = some bytes) :
    fs.read q = some bytes := by
  unfold removeFile at removed
  split at removed
  · cases removed
    by_cases same : q = p
    · subst same
      simp [read] at there
    · simpa only [read, Function.update_of_ne same] using there
  · cases removed

/-- Give the file at `src` the name `dst` instead. Two names of one file are left as they are. -/
def rename (fs : FileSystem Path Byte) (src dst : Path) : Option (FileSystem Path Byte) :=
  match found : fs.entry src with
  | some (.file i) =>
    if fs.entry dst = some .directory then none
    else if fs.entry dst = some (.file i) then some fs
    else some
      { fs with
        entry := Function.update (Function.update fs.entry dst (some (.file i))) src none
        below := fun q j h => by
          by_cases atSrc : q = src
          · subst atSrc
            simp at h
          · rw [Function.update_of_ne atSrc] at h
            by_cases atDst : q = dst
            · subst atDst
              rw [Function.update_self] at h
              cases h
              exact fs.below src i found
            · rw [Function.update_of_ne atDst] at h
              exact fs.below q j h }
  | _ => none

/-! ### What an operation makes of any file system -/

theorem create_eq_none : fs.create p = none ↔ fs.entry p = some .directory := by
  unfold create
  split <;> simp_all

theorem create_spec (created : fs.create p = some (fs', i)) :
    fs'.entry p = some (.file i) ∧ (∀ q ≠ p, fs'.entry q = fs.entry q) ∧ fs'.content i = [] ∧
      (∀ j ≠ i, fs'.content j = fs.content j) ∧
      (fs.entry p = some (.file i) ∨ fs.entry p = none ∧ i = fs.fresh) := by
  unfold create at created
  split at created
  · cases created
  · next found =>
    cases created
    exact ⟨found, fun _ _ => rfl, Function.update_self .., fun _ other =>
      Function.update_of_ne other .., .inl found⟩
  · next absent =>
    cases created
    exact ⟨Function.update_self .., fun _ other => Function.update_of_ne other ..,
      Function.update_self .., fun _ other => Function.update_of_ne other .., .inr ⟨absent, rfl⟩⟩

theorem removeFile_of_file (found : fs.entry p = some (.file i)) :
    ∃ fs', fs.removeFile p = some fs' ∧ fs'.entry = Function.update fs.entry p none ∧
      fs'.content = fs.content := by
  unfold removeFile
  split
  · exact ⟨_, rfl, rfl, rfl⟩
  · next other => exact absurd found (other i)

theorem rename_of_directory (blocked : fs.entry dst = some .directory) :
    fs.rename src dst = none := by
  unfold rename
  split
  · rw [if_pos blocked]
  · rfl

theorem rename_of_file (found : fs.entry src = some (.file i)) (apart : src ≠ dst)
    (free : fs.entry dst ≠ some .directory) :
    ∃ fs', fs.rename src dst = some fs' ∧ fs'.entry dst = some (.file i) ∧
      fs'.content = fs.content := by
  unfold rename
  split
  · next j found' =>
    cases found'.symm.trans found
    rw [if_neg free]
    by_cases same : fs.entry dst = some (.file i)
    · rw [if_pos same]
      exact ⟨fs, rfl, same, rfl⟩
    · rw [if_neg same]
      refine ⟨_, rfl, ?_, rfl⟩
      exact (Function.update_of_ne apart.symm ..).trans (Function.update_self ..)
  · next other => exact absurd found (other i)

namespace Above

theorem create (above : Above base fs) (new : base.entry p = none)
    (done : fs.create p = some (fs', i)) :
    Above base fs' ∧ SameOutside [p] fs fs' ∧ fs'.entry p = some (.file i) ∧
      fs'.read p = some [] := by
  unfold FileSystem.create at done
  split at done
  · cases done
  · next found =>
    cases done
    obtain ⟨above', same, read⟩ := above.setContent new found []
    exact ⟨above', same, found, read⟩
  · next absent =>
    cases done
    have others : ∀ q, q ≠ p → Function.update fs.entry p (some (.file fs.fresh)) q = fs.entry q :=
      fun q other => Function.update_of_ne other ..
    have back : ∀ q j, Function.update fs.entry p (some (.file fs.fresh)) q = some (.file j) →
        q = p ∧ j = fs.fresh ∨ fs.entry q = some (.file j) ∧ j < fs.fresh := by
      intro q j found
      by_cases same : q = p
      · subst same
        rw [Function.update_self] at found
        cases found
        exact .inl ⟨rfl, rfl⟩
      · rw [others q same] at found
        exact .inr ⟨found, fs.below q j found⟩
    have fresh := above.fresh
    refine ⟨⟨fun q there => ?_, fun j low => ?_, ?_, fun q j absent' found => ?_, ?_⟩, ?_, ?_, ?_⟩
    · refine (others q ?_).trans (above.kept q there)
      rintro rfl
      exact there new
    · exact (Function.update_of_ne (by omega) ..).trans (above.content j low)
    · exact Nat.le_succ_of_le above.fresh
    · obtain ⟨-, rfl⟩ | ⟨found, -⟩ := back q j found
      · exact above.fresh
      · exact above.new q j absent' found
    · intro q r j high atQ atR
      obtain ⟨rfl, isFresh⟩ | ⟨atQ, old⟩ := back q j atQ <;>
        obtain ⟨rfl, isFresh'⟩ | ⟨atR, old'⟩ := back r j atR
      · rfl
      · omega
      · omega
      · exact above.sole q r j high atQ atR
    · intro q out
      have other : q ≠ p := by simpa using out
      refine ⟨others q other, read_congr (others q other) fun j found => ?_⟩
      exact Function.update_of_ne (Nat.ne_of_lt (fs.below q j found)) ..
    · exact Function.update_self ..
    · simp [FileSystem.read]

/-- Taking a name away that `base` does not have. -/
theorem removeFile (above : Above base fs) (new : base.entry p = none)
    (done : fs.removeFile p = some fs') : Above base fs' ∧ SameOutside [p] fs fs' := by
  unfold FileSystem.removeFile at done
  split at done
  · cases done
    have sub : ∀ q j, Function.update fs.entry p none q = some (.file j) →
        fs.entry q = some (.file j) := by
      intro q j found
      by_cases same : q = p
      · subst same
        simp at found
      · rwa [Function.update_of_ne same] at found
    refine ⟨⟨fun q there => ?_, above.content, above.fresh, fun q j absent found => ?_, ?_⟩, ?_⟩
    · have other : q ≠ p := by
        rintro rfl
        exact there new
      exact (Function.update_of_ne other ..).trans (above.kept q there)
    · exact above.new q j absent (sub q j found)
    · exact fun q r j high atQ atR => above.sole q r j high (sub q j atQ) (sub r j atR)
    · intro q out
      have other : q ≠ p := by simpa using out
      have entry : Function.update fs.entry p none q = fs.entry q := Function.update_of_ne other ..
      exact ⟨entry, read_congr entry fun _ _ => rfl⟩
  · cases done

theorem renamed_dst {entry : Path → Option Node} {node : Option Node} (apart : src ≠ dst) :
    Function.update (Function.update entry dst node) src none dst = node := by
  rw [Function.update_of_ne apart.symm, Function.update_self]

theorem renamed_of_ne {entry : Path → Option Node} {node : Option Node} {q : Path}
    (noSrc : q ≠ src) (noDst : q ≠ dst) :
    Function.update (Function.update entry dst node) src none q = entry q := by
  rw [Function.update_of_ne noSrc, Function.update_of_ne noDst]

/-- Every name left leads where a name other than `dst` led. -/
theorem renamed_eq_file (entry : Path → Option Node) {q : Path} {j : Nat} (apart : src ≠ dst)
    (leads : Function.update (Function.update entry dst (entry src)) src none q =
      some (.file j)) :
    q ≠ src ∧ entry (if q = dst then src else q) = some (.file j) := by
  have noSrc : q ≠ src := by
    rintro rfl
    simp at leads
  refine ⟨noSrc, ?_⟩
  by_cases isDst : q = dst
  · subst isDst
    rw [renamed_dst apart] at leads
    rwa [if_pos rfl]
  · rw [renamed_of_ne noSrc isDst] at leads
    rwa [if_neg isDst]

theorem rename (above : Above base fs) (newSrc : base.entry src = none)
    (newDst : base.entry dst = none) (apart : src ≠ dst)
    (done : fs.rename src dst = some fs') :
    Above base fs' ∧ SameOutside [src, dst] fs fs' ∧ fs'.read dst = fs.read src := by
  unfold FileSystem.rename at done
  split at done
  · next i found =>
    have alone : fs.entry dst ≠ some (.file i) := fun foundDst =>
      apart (above.sole src dst i (above.new src i newSrc found) found foundDst)
    rw [if_neg alone] at done
    split at done
    · cases done
    cases done
    have back {q : Path} {j : Nat} := renamed_eq_file fs.entry (q := q) (j := j) apart
    rw [found] at back
    refine
      ⟨⟨fun q there => ?_, above.content, above.fresh, fun q j absent foundQ => ?_,
        fun q r j high atQ atR => ?_⟩, fun q out => ?_, ?_⟩
    · have noSrc : q ≠ src := fun same => there (same ▸ newSrc)
      have noDst : q ≠ dst := fun same => there (same ▸ newDst)
      exact (renamed_of_ne noSrc noDst).trans (above.kept q there)
    · refine above.new _ j ?_ (back foundQ).2
      split
      · exact newSrc
      · exact absent
    · obtain ⟨noSrc, fromQ⟩ := back atQ
      obtain ⟨noSrc', fromR⟩ := back atR
      have same := above.sole _ _ j high fromQ fromR
      grind
    · obtain ⟨noSrc, noDst⟩ : q ≠ src ∧ q ≠ dst := by simpa using out
      exact ⟨renamed_of_ne noSrc noDst, read_congr (renamed_of_ne noSrc noDst) fun _ _ => rfl⟩
    · rw [read_eq found]
      exact read_eq (renamed_dst apart)
  · cases done

end Above

end FileSystem

end FileStore
