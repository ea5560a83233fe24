import Mathlib.Data.List.Basic

/-!
# Unix paths

Paths as strings of characters, with the rules of the Rust standard library for their components,
for joining them and for the stem and extension of a file name.

`components_join` says that joining a directory with one plain name adds exactly that component.
-/
namespace UnixPath

abbrev Path := List Char

/-- The pieces of a path between its slashes. -/
def pieces (p : Path) : List Path := p.splitOn '/'

inductive Component where
  | rootDir
  | curDir
  | parentDir
  | normal (name : Path)
  deriving DecidableEq, Repr

/-- A piece as a component; empty pieces and inner dots are dropped. -/
def component? : Path → Option Component
  | [] => none
  | ['.'] => none
  | ['.', '.'] => some .parentDir
  | name => some (.normal name)

/-- What a path starts with: the root, or a leading dot. -/
def start (p : Path) : List Component :=
  if p.head? = some '/' then [.rootDir]
  else if (pieces p).head? = some ['.'] then [.curDir]
  else []

def components (p : Path) : List Component := start p ++ (pieces p).filterMap component?

/-- An absolute path replaces the directory; otherwise a slash is put in where one is needed. -/
def join (dir p : Path) : Path :=
  if p.head? = some '/' then p
  else if dir = [] ∨ dir.getLast? = some '/' then dir ++ p
  else dir ++ '/' :: p

def fileName (p : Path) : Option Path :=
  match (components p).getLast? with
  | some (.normal name) => some name
  | _ => none

/-- Split a file name at its last dot; a name that only starts with one is not split. -/
def rsplitAtDot (file : Path) : Option Path × Option Path :=
  if file = ['.', '.'] then (some file, none)
  else
    let after := (file.reverse.takeWhile (· ≠ '.')).reverse
    if '.' ∉ file then (none, some after)
    else
      let before := file.take (file.length - after.length - 1)
      if before = [] then (some file, none) else (some before, some after)

def fileStem (p : Path) : Option Path :=
  (fileName p).bind fun file => (rsplitAtDot file).1.or (rsplitAtDot file).2

def extension (p : Path) : Option Path :=
  (fileName p).bind fun file => (rsplitAtDot file).1.bind fun _ => (rsplitAtDot file).2

/-- A name that is a single component wherever it is put. -/
structure IsPlain (name : Path) : Prop where
  nonempty : name ≠ []
  noSlash : '/' ∉ name
  notDot : name ≠ ['.']
  notDots : name ≠ ['.', '.']

theorem pieces_ne_nil (p : Path) : pieces p ≠ [] := List.splitOn_ne_nil '/' p

@[simp] theorem pieces_nil : pieces [] = [[]] := rfl

theorem pieces_of_noSlash {p : Path} (plain : '/' ∉ p) : pieces p = [p] :=
  List.splitOn_eq_singleton plain

theorem pieces_append (dir p : Path) :
    pieces (dir ++ '/' :: p) = pieces dir ++ pieces p := List.splitOn_append_cons_self ..

theorem not_slash_of_mem_pieces {p piece : Path} (mem : piece ∈ pieces p) : '/' ∉ piece := by
  induction p generalizing piece with
  | nil =>
    obtain rfl : piece = [] := by simpa [pieces] using mem
    simp
  | cons c cs ih =>
    obtain ⟨first, rest, split⟩ := List.exists_cons_of_ne_nil (pieces_ne_nil cs)
    have step : pieces (c :: cs) = if c = '/' then [] :: first :: rest
        else (c :: first) :: rest := by
      rw [pieces] at split ⊢
      rw [List.splitOn_cons_eq_if_modifyHead, split]
      simp
    grind

theorem IsPlain.component {name : Path} (plain : IsPlain name) :
    component? name = some (.normal name) := by
  unfold component?
  split
  · exact absurd rfl plain.nonempty
  · exact absurd rfl plain.notDot
  · exact absurd rfl plain.notDots
  · rfl

theorem IsPlain.head_ne {name : Path} (plain : IsPlain name) : name.head? ≠ some '/' := by
  intro head
  exact plain.noSlash (List.mem_of_mem_head? head)

@[simp] theorem component?_nil : component? [] = none := rfl

theorem start_append {dir : Path} (some_ : dir ≠ []) (p : Path) :
    start (dir ++ '/' :: p) = start dir := by
  obtain ⟨c, cs, rfl⟩ := List.exists_cons_of_ne_nil some_
  obtain ⟨first, rest, split⟩ := List.exists_cons_of_ne_nil (pieces_ne_nil (c :: cs))
  rw [start, start, pieces_append, split]
  rfl

theorem components_slash {dir : Path} (some_ : dir ≠ []) :
    components (dir ++ ['/']) = components dir := by
  simp [components, start_append some_, pieces_append]

theorem components_slash_plain (dir : Path) {name : Path} (plain : IsPlain name) :
    components (dir ++ '/' :: name) = components (dir ++ ['/']) ++ [.normal name] := by
  have same : start (dir ++ '/' :: name) = start (dir ++ ['/']) := by
    by_cases empty : dir = []
    · simp [empty, start]
    · rw [start_append empty, start_append empty]
  rw [components, components, same, pieces_append, pieces_append, pieces_of_noSlash plain.noSlash]
  simp [plain.component]

theorem components_plain {name : Path} (plain : IsPlain name) :
    components name = [.normal name] := by
  simp [components, start, pieces_of_noSlash plain.noSlash, plain.head_ne, plain.notDot,
    plain.component]

/-- Joining with a plain name adds one component and changes no other. -/
theorem components_join (dir : Path) {name : Path} (plain : IsPlain name) :
    components (join dir name) = components dir ++ [.normal name] := by
  rw [join, if_neg plain.head_ne]
  by_cases empty : dir = []
  · have nothing : components [] = [] := rfl
    simp [empty, nothing, components_plain plain]
  by_cases slash : dir.getLast? = some '/'
  · rw [if_pos (.inr slash)]
    obtain ⟨d, rfl⟩ := List.getLast?_eq_some_iff.mp slash
    rw [List.append_assoc, List.singleton_append, components_slash_plain d plain]
  · rw [if_neg (by simp [empty, slash]), components_slash_plain dir plain, components_slash empty]

theorem fileName_plain {name : Path} (plain : IsPlain name) : fileName name = some name := by
  simp [fileName, components_plain plain]

end UnixPath
