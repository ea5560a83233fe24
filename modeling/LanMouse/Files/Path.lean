import LanMouse.Lib.UnixPath

/-!
# Where an inbound file lands

`resolve_unique_path` picks a path in the accept directory for a file name a peer supplied. The name
is reduced to one component first; a name that is taken gets a number, and after 9999 numbers the
time of day.
-/
namespace LanMouse.Files

open UnixPath

def sanitizedFallbackName : Path := "untitled".toList

def normal? : Component → Option Path
  | .normal s => some s
  | _ => none

/-- Keep the normal components of a name and glue them together with underscores. -/
def sanitizeFilename (name : Path) : Path :=
  let segments := (components name).filterMap normal?
  if segments = [] then sanitizedFallbackName else ['_'].intercalate segments

/-- `{stem} ({n}).{ext}`, or `{stem} ({n})` when there is no extension. -/
def suffixedName (stem : Path) (ext : Option Path) (n : Nat) : Path :=
  match ext with
  | some e => stem ++ " (".toList ++ Nat.toDigits 10 n ++ ").".toList ++ e
  | none => stem ++ " (".toList ++ Nat.toDigits 10 n ++ ")".toList

/-- The name tried with number `n`, for a sanitized `name`. -/
def numberedName (name : Path) (n : Nat) : Path :=
  suffixedName ((fileStem name).getD name) (extension name) n

/-- `taken` tells which paths exist; `timestamp` is the time of day in milliseconds. -/
def resolveUniquePath (acceptDir name : Path) (taken : Path → Bool) (timestamp : Nat) : Path :=
  let name := sanitizeFilename name
  let candidate := join acceptDir name
  if !taken candidate then candidate
  else match (List.range' 1 9999).find? fun n => !taken (join acceptDir (numberedName name n)) with
    | some n => join acceptDir (numberedName name n)
    | none => join acceptDir (numberedName name timestamp)

/-! ### The sanitized name -/

theorem isPlain_of_component? {piece name : Path} (noSlash : '/' ∉ piece)
    (h : component? piece = some (.normal name)) : IsPlain name := by
  unfold component? at h
  split at h
  · cases h
  · cases h
  · cases h
  · obtain rfl : piece = name := by simpa using h
    exact ⟨by assumption, noSlash, by assumption, by assumption⟩

theorem isPlain_of_normal {p name : Path} (mem : .normal name ∈ components p) : IsPlain name := by
  obtain first | piece := List.mem_append.mp mem
  · unfold start at first
    split_ifs at first <;> simp at first
  · obtain ⟨piece, mem, h⟩ := List.mem_filterMap.mp piece
    exact isPlain_of_component? (not_slash_of_mem_pieces mem) h

theorem isPlain_of_long {name : Path} (noSlash : '/' ∉ name) {c : Char} (mem : c ∈ name)
    (notDot : c ≠ '.') : IsPlain name where
  nonempty := List.ne_nil_of_mem mem
  noSlash := noSlash
  notDot h := by simp [h, notDot] at mem
  notDots h := by simp [h, notDot] at mem

theorem not_mem_intercalate {c : Char} {sep : Path} (other : c ∉ sep) {segments : List Path}
    (none_ : ∀ s ∈ segments, c ∉ s) : c ∉ sep.intercalate segments := by
  induction segments with
  | nil => simp
  | cons s rest ih =>
    have tail := ih fun x mem => none_ x (List.mem_cons_of_mem _ mem)
    cases rest with
    | nil => simpa using none_ s
    | cons s' rest =>
      rw [List.intercalate_cons_cons]
      simp [none_ s, other, tail]

theorem isPlain_sanitizeFilename (name : Path) : IsPlain (sanitizeFilename name) := by
  have plain : ∀ s ∈ (components name).filterMap normal?, IsPlain s := by
    intro s mem
    obtain ⟨c, mem, h⟩ := List.mem_filterMap.mp mem
    cases c <;> simp [normal?] at h
    exact isPlain_of_normal (h ▸ mem)
  unfold sanitizeFilename
  generalize (components name).filterMap normal? = segments at plain
  match segments with
  | [] => exact ⟨by decide, by decide, by decide, by decide⟩
  | [s] => simpa [List.intercalate] using plain s (by simp)
  | s :: s' :: rest =>
    rw [if_neg (by simp), List.intercalate_cons_cons]
    refine isPlain_of_long ?_ (c := '_') (by simp) (by decide)
    have joined : '/' ∉ ['_'].intercalate (s' :: rest) :=
      not_mem_intercalate (by decide) fun x mem => (plain x (List.mem_cons_of_mem _ mem)).noSlash
    simp [(plain s (by simp)).noSlash, joined]

/-! ### The numbered names -/

theorem mem_of_mem_rsplitAtDot {file part : Path} {c : Char} (mem : c ∈ part)
    (h : (rsplitAtDot file).1 = some part ∨ (rsplitAtDot file).2 = some part) : c ∈ file := by
  have after (x : Char) (mem : x ∈ (file.reverse.takeWhile (· ≠ '.')).reverse) : x ∈ file := by
    have tail := (List.takeWhile_sublist (· ≠ '.')).subset (List.mem_reverse.mp mem)
    exact List.mem_reverse.mp tail
  simp only [rsplitAtDot] at h
  split_ifs at h <;> grind [List.mem_of_mem_take]

theorem noSlash_suffixedName {stem : Path} {ext : Option Path} (stem_ : '/' ∉ stem)
    (ext_ : ∀ e ∈ ext, '/' ∉ e) (n : Nat) : '/' ∉ suffixedName stem ext n := by
  have digits : '/' ∉ Nat.toDigits 10 n := fun mem => by
    simpa using Nat.isDigit_of_mem_toDigits (by decide) (by decide) mem
  cases ext with
  | none => simp [suffixedName, stem_, digits]
  | some e => simp [suffixedName, stem_, digits, ext_ e rfl]

theorem space_mem_suffixedName (stem : Path) (ext : Option Path) (n : Nat) :
    ' ' ∈ suffixedName stem ext n := by
  cases ext <;> simp [suffixedName]

theorem isPlain_numberedName {name : Path} (plain : IsPlain name) (n : Nat) :
    IsPlain (numberedName name n) := by
  have file := fileName_plain plain
  have stem : '/' ∉ (fileStem name).getD name := by
    intro mem
    simp only [fileStem, file, Option.bind_some] at mem
    cases before : (rsplitAtDot name).1 with
    | some part =>
      rw [before] at mem
      exact plain.noSlash (mem_of_mem_rsplitAtDot mem (.inl before))
    | none =>
      cases after : (rsplitAtDot name).2 with
      | some part =>
        rw [before, after] at mem
        exact plain.noSlash (mem_of_mem_rsplitAtDot mem (.inr after))
      | none =>
        rw [before, after] at mem
        exact plain.noSlash mem
  have ext : ∀ e ∈ extension name, '/' ∉ e := by
    intro e h mem
    simp only [extension, file, Option.bind_some, Option.mem_def, Option.bind_eq_some_iff] at h
    obtain ⟨_, -, after⟩ := h
    exact plain.noSlash (mem_of_mem_rsplitAtDot mem (.inr after))
  exact isPlain_of_long (noSlash_suffixedName stem ext n) (space_mem_suffixedName ..) (by decide)

/-- Whatever the name and whatever exists, the path is the accept directory and one component. -/
theorem resolveUniquePath_contained (acceptDir name : Path) (taken : Path → Bool)
    (timestamp : Nat) :
    ∃ file, IsPlain file ∧ resolveUniquePath acceptDir name taken timestamp = join acceptDir file ∧
      components (resolveUniquePath acceptDir name taken timestamp)
        = components acceptDir ++ [.normal file] := by
  have plain := isPlain_sanitizeFilename name
  obtain ⟨file, isPlain, path⟩ : ∃ file, IsPlain file ∧
      resolveUniquePath acceptDir name taken timestamp = join acceptDir file := by
    unfold resolveUniquePath
    by_cases free : taken (join acceptDir (sanitizeFilename name)) = true
    · simp only [free, Bool.not_true, Bool.false_eq_true, if_false]
      split
      · exact ⟨_, isPlain_numberedName plain _, rfl⟩
      · exact ⟨_, isPlain_numberedName plain _, rfl⟩
    · exact ⟨_, plain, by simp [free]⟩
  exact ⟨file, isPlain, path, path ▸ components_join acceptDir isPlain⟩

end LanMouse.Files
