import Mathlib.Data.List.Basic

/-!
# Splitting text and reading numerals

`splitOnce` cuts a text at the first occurrence of a character and `stripLast` takes a character off
its end.

A numeral is the text of a natural number: one decimal digit or more. `parse` reads one into a
machine word the way a checked parser does, digit by digit and with every partial value compared
with the limit; it also takes a plus sign in front.
-/
namespace Text

/-! ### Splitting -/

def splitOnce (sep : Char) : List Char → Option (List Char × List Char)
  | [] => none
  | c :: text =>
    if c = sep then some ([], text)
    else (splitOnce sep text).map fun (before, after) => (c :: before, after)

def stripLast (c : Char) (text : List Char) : Option (List Char) :=
  if text.getLast? = some c then some text.dropLast else none

variable {sep c : Char} {text : List Char} {limit n : Nat}

theorem splitOnce_eq_some_iff {text before after : List Char} :
    splitOnce sep text = some (before, after) ↔ text = before ++ sep :: after ∧ sep ∉ before := by
  induction text generalizing before with
  | nil => simp [splitOnce]
  | cons c text ih =>
    by_cases found : c = sep
    · subst found
      cases before with
      | nil => simp [splitOnce, eq_comm]
      | cons d before =>
        simp only [splitOnce, if_true, Option.some.injEq, Prod.mk.injEq, reduceCtorEq, false_and,
          false_iff, List.cons_append, List.cons.injEq, List.mem_cons, not_or]
        rintro ⟨⟨rfl, -⟩, differs, -⟩
        exact differs rfl
    · cases before with
      | nil => simp [splitOnce, found]
      | cons d before =>
        simp only [splitOnce, if_neg found, Option.map_eq_some_iff, Prod.exists, Prod.mk.injEq,
          List.cons.injEq, List.cons_append, List.mem_cons, not_or]
        constructor
        · rintro ⟨_, _, split, ⟨rfl, rfl⟩, rfl⟩
          obtain ⟨rfl, absent⟩ := ih.mp split
          exact ⟨⟨rfl, rfl⟩, fun eq => found eq.symm, absent⟩
        · rintro ⟨⟨rfl, rfl⟩, -, absent⟩
          exact ⟨before, after, ih.mpr ⟨rfl, absent⟩, ⟨rfl, rfl⟩, rfl⟩

theorem splitOnce_eq_none_iff : splitOnce sep text = none ↔ sep ∉ text := by
  induction text with
  | nil => simp [splitOnce]
  | cons c text ih =>
    by_cases found : c = sep
    · simp [splitOnce, found]
    · simp [splitOnce, found, ih, Ne.symm found]

theorem stripLast_eq_some_iff {text rest : List Char} :
    stripLast c text = some rest ↔ text = rest ++ [c] := by
  unfold stripLast
  constructor
  · intro stripped
    split at stripped
    · next last =>
      cases stripped
      exact (List.dropLast_append_getLast? c last).symm
    · cases stripped
  · rintro rfl
    simp

theorem stripLast_eq_none_iff : stripLast c text = none ↔ text.getLast? ≠ some c := by
  unfold stripLast
  split <;> simp_all

/-! ### Numerals -/

/-- `text` is a numeral without a sign, and its value is `n`. -/
structure Denotes (text : List Char) (n : Nat) : Prop where
  nonempty : text ≠ []
  digits : ∀ c ∈ text, c.isDigit
  value : Nat.ofDigitChars 10 text 0 = n

/-- A numeral with at most one plus sign in front. -/
def DenotesSigned (text : List Char) (n : Nat) : Prop :=
  Denotes text n ∨ ∃ rest, text = '+' :: rest ∧ Denotes rest n

theorem Denotes.not_mem (denotes : Denotes text n) (sign : c.isDigit = false) :
    c ∉ text := fun mem => by
  have digit := denotes.digits c mem
  rw [sign] at digit
  exact absurd digit (by decide)

def parseDigits (limit : Nat) : List Char → Nat → Option Nat
  | [], n => some n
  | c :: text, n =>
    if c.isDigit then
      let n := 10 * n + (c.toNat - '0'.toNat)
      if n < limit then parseDigits limit text n else none
    else none

def parse (limit : Nat) : List Char → Option Nat
  | [] => none
  | '+' :: rest => if rest.isEmpty then none else parseDigits limit rest 0
  | text => parseDigits limit text 0

theorem le_ofDigitChars (text : List Char) (n : Nat) : n ≤ Nat.ofDigitChars 10 text n := by
  induction text generalizing n with
  | nil => exact Nat.le_refl n
  | cons c text ih =>
    have more := ih (10 * n + (c.toNat - '0'.toNat))
    rw [Nat.ofDigitChars_cons]
    omega

theorem parseDigits_eq_some_iff {n m : Nat} (small : n < limit) :
    parseDigits limit text n = some m ↔
      (∀ c ∈ text, c.isDigit) ∧ Nat.ofDigitChars 10 text n = m ∧ m < limit := by
  induction text generalizing n with
  | nil =>
    rw [parseDigits, Nat.ofDigitChars_nil]
    constructor
    · rintro ⟨⟩
      exact ⟨by simp, rfl, small⟩
    · rintro ⟨-, rfl, -⟩
      rfl
  | cons c text ih =>
    simp only [parseDigits, Nat.ofDigitChars_cons, List.forall_mem_cons]
    by_cases digit : c.isDigit
    · rw [if_pos digit]
      by_cases fits : 10 * n + (c.toNat - '0'.toNat) < limit
      · rw [if_pos fits, ih fits]
        simp [digit]
      · rw [if_neg fits]
        have least := le_ofDigitChars text (10 * n + (c.toNat - '0'.toNat))
        constructor
        · nofun
        · rintro ⟨-, rfl, below⟩
          omega
    · rw [if_neg digit]
      simp [digit]

theorem parseDigits_zero_eq_some_iff (pos : 0 < limit) (nonempty : text ≠ []) :
    parseDigits limit text 0 = some n ↔ Denotes text n ∧ n < limit := by
  rw [parseDigits_eq_some_iff pos]
  constructor
  · rintro ⟨digits, value, fits⟩
    exact ⟨⟨nonempty, digits, value⟩, fits⟩
  · rintro ⟨⟨-, digits, value⟩, fits⟩
    exact ⟨digits, value, fits⟩

theorem parse_eq_some_iff (pos : 0 < limit) :
    parse limit text = some n ↔ DenotesSigned text n ∧ n < limit := by
  unfold parse DenotesSigned
  split
  · simp only [reduceCtorEq, false_iff, not_and_or]
    exact .inl fun signed => by
      rcases signed with plain | ⟨rest, eq, -⟩
      · exact plain.nonempty rfl
      · cases eq
  · next rest =>
    have plain : ¬ Denotes ('+' :: rest) n := fun denotes =>
      denotes.not_mem (c := '+') (by decide) (by simp)
    by_cases empty : rest = []
    · subst empty
      simp only [List.isEmpty_nil, if_true, reduceCtorEq, false_iff]
      rintro ⟨signed | ⟨_, ⟨⟩, denotes⟩, -⟩
      · exact plain signed
      · exact denotes.nonempty rfl
    · rw [if_neg (by simpa using empty), parseDigits_zero_eq_some_iff pos empty]
      simp [plain]
  · next nonempty unsigned =>
    rw [parseDigits_zero_eq_some_iff pos nonempty]
    constructor
    · rintro ⟨denotes, fits⟩
      exact ⟨.inl denotes, fits⟩
    · rintro ⟨denotes | ⟨rest, rfl, -⟩, fits⟩
      · exact ⟨denotes, fits⟩
      · exact absurd rfl (unsigned rest)

theorem DenotesSigned.nonempty (denotes : DenotesSigned text n) : text ≠ [] := by
  rcases denotes with plain | ⟨rest, rfl, -⟩
  · exact plain.nonempty
  · exact List.cons_ne_nil '+' rest

theorem DenotesSigned.not_mem (denotes : DenotesSigned text n) (sign : c.isDigit = false)
    (notPlus : c ≠ '+') : c ∉ text := by
  rcases denotes with plain | ⟨rest, rfl, plain⟩
  · exact plain.not_mem sign
  · have absent := plain.not_mem sign
    simp [notPlus, absent]

/-- A numeral does not end in a sign. -/
theorem DenotesSigned.stripLast_append (denotes : DenotesSigned text n) (sign : c.isDigit = false)
    (notPlus : c ≠ '+') (front : List Char) : stripLast c (front ++ text) = none := by
  rw [stripLast_eq_none_iff, List.getLast?_append,
    List.getLast?_eq_some_getLast denotes.nonempty, Option.some_or, Ne, Option.some.injEq]
  rintro rfl
  exact denotes.not_mem sign notPlus (List.getLast_mem denotes.nonempty)

theorem denotes_toDigits (n : Nat) : Denotes (Nat.toDigits 10 n) n where
  nonempty := Nat.toDigits_ne_nil
  digits _ mem := Nat.isDigit_of_mem_toDigits (by decide) (by decide) mem
  value := Nat.ofDigitChars_ten_toDigits

end Text
