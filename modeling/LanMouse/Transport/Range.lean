import LanMouse.Lib.Text
import LanMouse.Transport.Response

/-!
# Ranges of a file

A request for a file can ask for a part of it, in a query behind its path: `range=N-M` with the
first and the last byte, or `range=N-`. `IsRange` is that grammar. `parseRangeQuery` takes somewhat
more: its numbers are read by the integer parser of the standard library, which allows a plus sign,
and an open range is stripped of one hyphen more than it should be. `Lenient` is the grammar it
reads.
-/
namespace LanMouse.Transport.Http3

open Bytes Proto Text

/-- `usize::MAX` on a machine with 64-bit words. -/
def usizeMax : Nat := 2 ^ 64 - 1

def parseUsize (text : List Char) : Option Nat := parse (usizeMax + 1) text

inductive RangeParse where
  | none
  | valid (start last : Nat)
  | invalid
  deriving DecidableEq, Repr

/-- One turn of the loop over the pairs of a query. -/
def noteRange (found : Option (List Char)) (pair : List Char) : Option (List Char) :=
  match splitOnce '=' pair with
  | some (key, value) => if key = "range".toList then some value else found
  | none => found

def foundRange (query : List Char) : Option (List Char) :=
  (query.splitOn '&').foldl noteRange none

/-- An open range, from what stands in front of its hyphen. -/
def parseOpened (stripped : List Char) : RangeParse :=
  let stripped := (stripLast '-' stripped).getD stripped
  if stripped.isEmpty then .invalid
  else match parseUsize stripped with
    | some start => .valid start usizeMax
    | none => .invalid

def parseClosed (startS endS : List Char) : RangeParse :=
  match parseUsize startS with
  | none => .invalid
  | some start =>
    match parseUsize endS with
    | none => .invalid
    | some last => if start > last then .invalid else .valid start last

def parseRangeValue (value : List Char) : RangeParse :=
  if value.isEmpty then .invalid
  else match stripLast '-' value with
    | some stripped => parseOpened stripped
    | none =>
      match splitOnce '-' value with
      | none => .invalid
      | some (startS, endS) => parseClosed startS endS

def parseRangeQuery (query : List Char) : RangeParse :=
  match foundRange query with
  | none => .none
  | some value => parseRangeValue value

/-! ### The grammar -/

/-- `N-M` or `N-`, in decimal digits, the numbers in order and within `usize`. -/
inductive IsRange : List Char → Nat → Nat → Prop
  | closed {a b : List Char} {n m : Nat} (first : Denotes a n) (last : Denotes b m) (le : n ≤ m)
      (fits : m ≤ usizeMax) : IsRange (a ++ '-' :: b) n m
  | opened {a : List Char} {n : Nat} (first : Denotes a n) (fits : n ≤ usizeMax) :
      IsRange (a ++ ['-']) n usizeMax

/-- The same with a plus sign allowed in front of each number, and a second hyphen at the end. -/
inductive Lenient : List Char → Nat → Nat → Prop
  | closed {a b : List Char} {n m : Nat} (first : DenotesSigned a n) (last : DenotesSigned b m)
      (le : n ≤ m) (fits : m ≤ usizeMax) : Lenient (a ++ '-' :: b) n m
  | opened {a : List Char} {n : Nat} (first : DenotesSigned a n) (fits : n ≤ usizeMax) :
      Lenient (a ++ ['-']) n usizeMax
  | doubled {a : List Char} {n : Nat} (first : DenotesSigned a n) (fits : n ≤ usizeMax) :
      Lenient (a ++ ['-', '-']) n usizeMax

/-- The value of a pair `range=value`. -/
def rangeValue (pair : List Char) : Option (List Char) :=
  "range=".toList.isPrefixOf? pair

/-- The values a query gives to `range`, in order. -/
def rangeValues (query : List Char) : List (List Char) := (query.splitOn '&').filterMap rangeValue

variable {text value a b : List Char} {n m start last : Nat}

theorem parseUsize_eq_some_iff :
    parseUsize text = some n ↔ DenotesSigned text n ∧ n ≤ usizeMax := by
  rw [parseUsize, parse_eq_some_iff (Nat.succ_pos _), Nat.lt_succ_iff]

theorem hyphen_not_mem (denotes : DenotesSigned text n) :
    '-' ∉ text := denotes.not_mem (by decide) (by decide)

theorem stripLast_hyphen (denotes : DenotesSigned text n) (front : List Char) :
    stripLast '-' (front ++ text) = none :=
  denotes.stripLast_append (by decide) (by decide) front

theorem parseClosed_eq_valid_iff :
    parseClosed a b = .valid start last ↔
      DenotesSigned a start ∧ DenotesSigned b last ∧ start ≤ last ∧ last ≤ usizeMax := by
  rw [parseClosed]
  constructor
  · intro valid
    split at valid
    · cases valid
    next n first =>
    split at valid
    · cases valid
    next m final =>
    split at valid
    · cases valid
    next le =>
    cases valid
    obtain ⟨second, fits⟩ := parseUsize_eq_some_iff.mp final
    exact ⟨(parseUsize_eq_some_iff.mp first).1, second, Nat.le_of_not_lt le, fits⟩
  · rintro ⟨first, second, le, fits⟩
    rw [parseUsize_eq_some_iff.mpr ⟨first, Nat.le_trans le fits⟩]
    dsimp only
    rw [parseUsize_eq_some_iff.mpr ⟨second, fits⟩]
    exact if_neg (Nat.not_lt.mpr le)

theorem parseOpened_eq_valid_iff {stripped : List Char} :
    parseOpened stripped = .valid start last ↔
      last = usizeMax ∧ start ≤ usizeMax ∧
        (DenotesSigned stripped start ∨ ∃ a, stripped = a ++ ['-'] ∧ DenotesSigned a start) := by
  rw [parseOpened]
  constructor
  · intro valid
    split at valid
    · cases valid
    split at valid
    · next n parsed =>
      cases valid
      obtain ⟨denotes, fits⟩ := parseUsize_eq_some_iff.mp parsed
      cases again : stripLast '-' stripped with
      | none =>
        rw [again] at denotes
        exact ⟨rfl, fits, .inl denotes⟩
      | some a =>
        rw [again] at denotes
        exact ⟨rfl, fits, .inr ⟨a, stripLast_eq_some_iff.mp again, denotes⟩⟩
    · cases valid
  · rintro ⟨rfl, fits, denotes⟩
    obtain ⟨a, kept, denotes⟩ : ∃ a, (stripLast '-' stripped).getD stripped = a ∧
        DenotesSigned a start := by
      rcases denotes with denotes | ⟨a, rfl, denotes⟩
      · exact ⟨stripped, by rw [← List.nil_append stripped, stripLast_hyphen denotes []]; rfl,
          denotes⟩
      · exact ⟨a, by rw [stripLast_eq_some_iff.mpr rfl]; rfl, denotes⟩
    rw [kept, if_neg (by simpa using denotes.nonempty), parseUsize_eq_some_iff.mpr ⟨denotes, fits⟩]

theorem lenient_of_parseRangeValue (valid : parseRangeValue value = .valid start last) :
    Lenient value start last := by
  rw [parseRangeValue] at valid
  split at valid
  · cases valid
  split at valid
  · next stripped whole =>
    obtain rfl := stripLast_eq_some_iff.mp whole
    obtain ⟨rfl, fits, denotes | ⟨a, rfl, denotes⟩⟩ := parseOpened_eq_valid_iff.mp valid
    · exact .opened denotes fits
    · rw [List.append_assoc]
      exact .doubled denotes fits
  · split at valid
    · cases valid
    next a b cut =>
    obtain ⟨rfl, -⟩ := splitOnce_eq_some_iff.mp cut
    obtain ⟨first, second, le, fits⟩ := parseClosed_eq_valid_iff.mp valid
    exact .closed first second le fits

theorem parseRangeValue_append_hyphen (stripped : List Char) :
    parseRangeValue (stripped ++ ['-']) = parseOpened stripped := by
  rw [parseRangeValue, if_neg (by simp), stripLast_eq_some_iff.mpr rfl]

theorem parseRangeValue_closed (first : DenotesSigned a n) (last : DenotesSigned b m) :
    parseRangeValue (a ++ '-' :: b) = parseClosed a b := by
  have whole : stripLast '-' (a ++ '-' :: b) = none := by
    simpa using stripLast_hyphen last (a ++ ['-'])
  have cut : splitOnce '-' (a ++ '-' :: b) = some (a, b) :=
    splitOnce_eq_some_iff.mpr ⟨rfl, hyphen_not_mem first⟩
  rw [parseRangeValue, if_neg (by simp), whole]
  dsimp only
  rw [cut]

theorem parseRangeValue_eq_valid_iff :
    parseRangeValue value = .valid start last ↔ Lenient value start last := by
  refine ⟨lenient_of_parseRangeValue, ?_⟩
  rintro (⟨first, second, le, fits⟩ | ⟨first, fits⟩ | ⟨first, fits⟩)
  · rw [parseRangeValue_closed first second]
    exact parseClosed_eq_valid_iff.mpr ⟨first, second, le, fits⟩
  · rw [parseRangeValue_append_hyphen]
    exact parseOpened_eq_valid_iff.mpr ⟨rfl, fits, .inl first⟩
  · rw [← List.singleton_append, ← List.append_assoc, parseRangeValue_append_hyphen]
    exact parseOpened_eq_valid_iff.mpr ⟨rfl, fits, .inr ⟨_, rfl, first⟩⟩

theorem not_doubled_of_closed (last : DenotesSigned b m) : ¬ ['-', '-'] <:+ a ++ '-' :: b := by
  rintro ⟨front, eq⟩
  have whole : stripLast '-' (a ++ '-' :: b) = none := by
    simpa using stripLast_hyphen last (a ++ ['-'])
  have stripped : stripLast '-' (a ++ '-' :: b) = some (front ++ ['-']) :=
    stripLast_eq_some_iff.mpr (by simp [← eq])
  cases whole.symm.trans stripped

theorem not_doubled_of_opened (first : DenotesSigned a n) : ¬ ['-', '-'] <:+ a ++ ['-'] := by
  rintro ⟨front, eq⟩
  have shorter : front ++ ['-'] = a := List.append_cancel_right (by simpa using eq)
  exact hyphen_not_mem first (by simp [← shorter])

theorem denotes_of_unsigned (denotes : DenotesSigned text n) (unsigned : '+' ∉ text) :
    Denotes text n := by
  rcases denotes with plain | ⟨rest, rfl, -⟩
  · exact plain
  · simp at unsigned

/-- A range is what the parser takes, without plus signs and without a doubled hyphen at the end. -/
theorem isRange_iff :
    IsRange value start last ↔
      Lenient value start last ∧ '+' ∉ value ∧ ¬ ['-', '-'] <:+ value := by
  constructor
  · rintro (⟨first, second, le, fits⟩ | ⟨first, fits⟩)
    · have unsignedFirst := first.not_mem (c := '+') (by decide)
      have unsignedSecond := second.not_mem (c := '+') (by decide)
      exact ⟨.closed (.inl first) (.inl second) le fits, by simp [unsignedFirst, unsignedSecond],
        not_doubled_of_closed (.inl second)⟩
    · have unsigned := first.not_mem (c := '+') (by decide)
      exact ⟨.opened (.inl first) fits, by simp [unsigned], not_doubled_of_opened (.inl first)⟩
  · rintro ⟨⟨first, second, le, fits⟩ | ⟨first, fits⟩ | ⟨first, fits⟩, unsigned, single⟩
    · simp only [List.mem_append, List.mem_cons, not_or] at unsigned
      exact .closed (denotes_of_unsigned first unsigned.1)
        (denotes_of_unsigned second unsigned.2.2) le fits
    · simp only [List.mem_append, not_or] at unsigned
      exact .opened (denotes_of_unsigned first unsigned.1) fits
    · exact absurd (List.suffix_append ..) single

theorem rangeValue_eq_some_iff {pair value : List Char} :
    rangeValue pair = some value ↔ pair = "range".toList ++ '=' :: value := by
  rw [rangeValue, List.isPrefixOf?_eq_some_iff_append_eq, eq_comm]
  rfl

theorem noteRange_eq (found : Option (List Char)) (pair : List Char) :
    noteRange found pair = (rangeValue pair).or found := by
  unfold noteRange
  split
  · next key value cut =>
    obtain ⟨rfl, -⟩ := splitOnce_eq_some_iff.mp cut
    split
    · next isRange =>
      rw [rangeValue_eq_some_iff.mpr (by rw [isRange])]
      rfl
    · next other =>
      cases range : rangeValue (key ++ '=' :: value) with
      | none => rfl
      | some v =>
        have same := splitOnce_eq_some_iff.mpr
          ⟨rangeValue_eq_some_iff.mp range, by decide⟩
        rw [cut] at same
        cases same
        exact absurd rfl other
  · next cut =>
    cases range : rangeValue pair with
    | none => rfl
    | some v =>
      have absent := splitOnce_eq_none_iff.mp cut
      rw [rangeValue_eq_some_iff.mp range] at absent
      simp at absent

theorem foldl_noteRange (pairs : List (List Char)) (found : Option (List Char)) :
    pairs.foldl noteRange found = ((pairs.filterMap rangeValue).getLast?).or found := by
  induction pairs generalizing found with
  | nil => rfl
  | cons pair pairs ih =>
    rw [List.foldl_cons, ih, noteRange_eq, List.filterMap_cons]
    cases rangeValue pair with
    | none => rfl
    | some value =>
      rw [List.getLast?_cons]
      cases (pairs.filterMap rangeValue).getLast? <;> rfl

theorem foundRange_eq (query : List Char) : foundRange query = (rangeValues query).getLast? := by
  rw [foundRange, foldl_noteRange, Option.or_none, rangeValues]

/-- The query is read as it is written: the last value under `range` decides, and it has to be a
range. -/
structure ReadAsWritten (query : List Char) : Prop where
  none_iff : parseRangeQuery query = .none ↔ rangeValues query = []
  valid_iff (start last : Nat) : parseRangeQuery query = .valid start last ↔
    ∃ value, (rangeValues query).getLast? = some value ∧ IsRange value start last
  invalid_iff : parseRangeQuery query = .invalid ↔
    ∃ value, (rangeValues query).getLast? = some value ∧ ∀ start last, ¬ IsRange value start last

theorem parseOpened_ne_none (stripped : List Char) : parseOpened stripped ≠ .none := by
  unfold parseOpened
  dsimp only
  split
  · simp
  · split <;> simp

theorem parseClosed_ne_none (startS endS : List Char) : parseClosed startS endS ≠ .none := by
  unfold parseClosed
  split
  · simp
  split
  · simp
  split <;> simp

theorem parseRangeValue_ne_none (value : List Char) : parseRangeValue value ≠ .none := by
  unfold parseRangeValue
  split
  · simp
  split
  · exact parseOpened_ne_none _
  split
  · simp
  · exact parseClosed_ne_none _ _

theorem parseRangeQuery_eq (query : List Char) :
    parseRangeQuery query =
      match (rangeValues query).getLast? with
      | none => .none
      | some value => parseRangeValue value := by
  rw [parseRangeQuery, foundRange_eq]

/-- A query is read as it is written exactly when its last range is free of what only the parser
takes: a number with a plus sign, and a second hyphen behind an open range. -/
theorem range_query_read_iff (query : List Char) :
    ReadAsWritten query ↔ ∀ value, (rangeValues query).getLast? = some value →
      ∀ start last, Lenient value start last → '+' ∉ value ∧ ¬ ['-', '-'] <:+ value := by
  have parsed := parseRangeQuery_eq query
  constructor
  · intro read value final start last lenient
    rw [final] at parsed
    obtain ⟨_, same, isRange⟩ := (read.valid_iff start last).mp
      (parsed.trans (parseRangeValue_eq_valid_iff.mpr lenient))
    cases final.symm.trans same
    exact (isRange_iff.mp isRange).2
  · intro strict
    cases final : (rangeValues query).getLast? with
    | none =>
      rw [final] at parsed
      have empty := List.getLast?_eq_none_iff.mp final
      exact ⟨by simp [parsed, empty], by simp [parsed, final], by simp [parsed, final]⟩
    | some value =>
      rw [final] at parsed
      have nonempty : rangeValues query ≠ [] := fun empty => by simp [empty] at final
      have valid : ∀ start last,
          parseRangeValue value = .valid start last ↔ IsRange value start last := by
        intro start last
        rw [parseRangeValue_eq_valid_iff, isRange_iff]
        exact ⟨fun lenient => ⟨lenient, strict value final start last lenient⟩, And.left⟩
      refine ⟨by simp [parsed, parseRangeValue_ne_none, nonempty],
        by simp [parsed, final, valid], ?_⟩
      simp only [parsed, final, Option.some.injEq, exists_eq_left', ← valid]
      cases outcome : parseRangeValue value with
      | none => exact absurd outcome (parseRangeValue_ne_none value)
      | valid start last => simp
      | invalid => simp

/-- `5--` is read as the open range from 5, and `+5-7` as `5-7`. -/
theorem loose_ranges_read :
    ¬ ReadAsWritten "range=5--".toList ∧ ¬ ReadAsWritten "range=+5-7".toList := by
  constructor
  · intro read
    obtain ⟨value, final, isRange⟩ := (read.valid_iff 5 usizeMax).mp (by decide)
    cases final
    exact (isRange_iff.mp isRange).2.2 ⟨['5'], rfl⟩
  · intro read
    obtain ⟨value, final, isRange⟩ := (read.valid_iff 5 7).mp (by decide)
    cases final
    exact (isRange_iff.mp isRange).2.1 (by decide)

end LanMouse.Transport.Http3
