import LanMouse.Sync.Service
import LanMouse.Transport.Http3

/-!
# Hashes in a path

A payload is asked for by its SHA-256 in 64 hexadecimal digits. The server takes digits of either
case, so a suffix stands for a hash exactly when its lower case is the text a receiver writes
(`shaOfSuffix_eq_some_iff`).
-/
namespace LanMouse.Transport.Http3

open Bytes Proto

def hexNibble (b : UInt8) : Option UInt8 :=
  if 0x30 ≤ b ∧ b ≤ 0x39 then some (b - 0x30)
  else if 0x61 ≤ b ∧ b ≤ 0x66 then some (b - 0x61 + 10)
  else if 0x41 ≤ b ∧ b ≤ 0x46 then some (b - 0x41 + 10)
  else none

def isAsciiHexdigit (b : UInt8) : Bool :=
  (0x30 ≤ b && b ≤ 0x39) || (0x61 ≤ b && b ≤ 0x66) || (0x41 ≤ b && b ≤ 0x46)

/-- The loop of `decode_hex_32`, two digits in every turn. -/
def decodeHexPairs : List UInt8 → Option (List UInt8)
  | hi :: lo :: bytes => do
    let hi ← hexNibble hi
    let lo ← hexNibble lo
    let out ← decodeHexPairs bytes
    return (hi <<< 4 ||| lo) :: out
  | _ => some []

def decodeHex32 (bytes : List UInt8) : Option Hash :=
  if bytes.length ≠ 64 then none else padTo 32 <$> decodeHexPairs bytes

/-- The checks in front of `decode_hex_32`, which both lookups make. -/
def shaOfSuffix (suffix : List Char) : Option Hash :=
  let bytes := asBytes (String.ofList suffix)
  if bytes.length ≠ 64 || !bytes.all isAsciiHexdigit then none else decodeHex32 bytes

/-! ### What spells a hash -/

theorem asBytes_ofList (cs : List Char) :
    asBytes (String.ofList cs) = cs.flatMap String.utf8EncodeChar := by
  simp [asBytes, List.utf8Encode]

theorem hexNibble_lt {b h : UInt8} (nibble : hexNibble b = some h) : h.toNat < 16 := by
  have all : ∀ n < 256, (hexNibble (UInt8.ofNat n)).all (·.toNat < 16) = true := by decide +kernel
  have own := all b.toNat b.toNat_lt
  rw [UInt8.ofNat_toNat, nibble] at own
  simpa using own

theorem isAsciiHexdigit_eq (b : UInt8) : isAsciiHexdigit b = (hexNibble b).isSome := by
  have all : ∀ n < 256,
      isAsciiHexdigit (UInt8.ofNat n) = (hexNibble (UInt8.ofNat n)).isSome := by decide +kernel
  simpa using all b.toNat b.toNat_lt

/-- An ASCII character is a digit with some value when its lower case is that digit. -/
theorem hexNibble_char {c : Char} (ascii : c.toNat < 128) {k : Nat} (small : k < 16) :
    hexNibble (UInt8.ofNat c.toNat) = some (UInt8.ofNat k) ↔ c.toLower = Nat.digitChar k := by
  have all : ∀ n < 128, ∀ k < 16, hexNibble (UInt8.ofNat n) = some (UInt8.ofNat k) ↔
      (Char.ofNat n).toLower = Nat.digitChar k := by decide +kernel
  simpa using all c.toNat ascii k small

theorem ascii_of_toLower {c : Char} {k : Nat} (small : k < 16)
    (lower : c.toLower = Nat.digitChar k) : c.toNat < 128 := by
  have digits : ∀ k < 16, (Nat.digitChar k).toNat < 128 := by decide
  have digit := digits k small
  rw [← lower] at digit
  by_contra large
  have same : c.toLower = c := by
    have upper : ¬ (c.val ≥ 'A'.val ∧ c.val ≤ 'Z'.val) := by
      rintro ⟨-, le⟩
      exact large (Nat.lt_of_le_of_lt (UInt32.le_iff_toNat_le.mp le) (by decide))
    unfold Char.toLower
    exact dif_neg upper
  rw [same] at digit
  exact large digit

/-- The two halves of a byte put together again. -/
theorem toNat_join {hi lo : Nat} (high : hi < 16) (low : lo < 16) :
    (UInt8.ofNat hi <<< 4 ||| UInt8.ofNat lo).toNat = 16 * hi + lo := by
  have all : ∀ hi < 16, ∀ lo < 16,
      (UInt8.ofNat hi <<< 4 ||| UInt8.ofNat lo).toNat = 16 * hi + lo := by decide +kernel
  exact all hi high lo low

theorem hexByte_join {hi lo : Nat} (high : hi < 16) (low : lo < 16) :
    Files.hexByte (UInt8.ofNat hi <<< 4 ||| UInt8.ofNat lo) =
      [Nat.digitChar hi, Nat.digitChar lo] := by
  have upper : (16 * hi + lo) / 16 = hi := by omega
  have lower : (16 * hi + lo) % 16 = lo := by omega
  rw [Files.hexByte, toNat_join high low, upper, lower]

theorem join_halves (b : UInt8) :
    UInt8.ofNat (b.toNat / 16) <<< 4 ||| UInt8.ofNat (b.toNat % 16) = b := by
  have small := b.toNat_lt
  refine UInt8.toNat_inj.mp ?_
  rw [toNat_join (by omega) (by omega)]
  omega

theorem decodeHexPairs_cons {c d : Char} (ascii : c.toNat < 128) (ascii' : d.toNat < 128)
    {bytes : List UInt8} {b : UInt8} {out : List UInt8} :
    decodeHexPairs (UInt8.ofNat c.toNat :: UInt8.ofNat d.toNat :: bytes) = some (b :: out) ↔
      [c.toLower, d.toLower] = Files.hexByte b ∧ decodeHexPairs bytes = some out := by
  have small := b.toNat_lt
  simp only [decodeHexPairs, Option.bind_eq_bind, Option.bind_eq_some_iff, Option.pure_def,
    Option.some.injEq, List.cons.injEq]
  constructor
  · rintro ⟨hi, first, lo, second, _, decoded, rfl, rfl⟩
    have high := hexNibble_lt first
    have low := hexNibble_lt second
    rw [← UInt8.ofNat_toNat (x := hi), hexNibble_char ascii high] at first
    rw [← UInt8.ofNat_toNat (x := lo), hexNibble_char ascii' low] at second
    refine ⟨?_, decoded⟩
    have halves := hexByte_join high low
    rw [UInt8.ofNat_toNat, UInt8.ofNat_toNat] at halves
    rw [halves, first, second]
  · rintro ⟨halves, decoded⟩
    rw [Files.hexByte, List.cons.injEq, List.cons.injEq] at halves
    exact ⟨_, (hexNibble_char ascii (by omega)).mpr halves.1, _,
      (hexNibble_char ascii' (by omega)).mpr halves.2.1, out, decoded, join_halves b, rfl⟩

theorem decodeHexPairs_eq_some_iff {n : Nat} : ∀ {cs : List Char} {out : List UInt8},
    cs.length = 2 * n → (∀ c ∈ cs, c.toNat < 128) →
    (decodeHexPairs (cs.map fun c => UInt8.ofNat c.toNat) = some out ↔
      cs.map Char.toLower = out.flatMap Files.hexByte) := by
  induction n with
  | zero =>
    intro cs out length ascii
    obtain rfl := List.length_eq_zero_iff.mp length
    cases out with
    | nil => simp [decodeHexPairs]
    | cons b out => simp [decodeHexPairs, Files.hexByte]
  | succ n ih =>
    rintro (_ | ⟨c, _ | ⟨d, cs⟩⟩) out length ascii
    · simp at length
    · simp at length
      omega
    · simp only [List.forall_mem_cons] at ascii
      obtain ⟨first, second, rest⟩ := ascii
      have shorter : cs.length = 2 * n := by simp only [List.length_cons] at length; omega
      cases out with
      | nil =>
        simp [decodeHexPairs, Option.bind_eq_some_iff]
      | cons b out =>
        rw [List.map_cons, List.map_cons, decodeHexPairs_cons first second, ih shorter rest]
        simp [Files.hexByte, and_assoc]

theorem utf8EncodeChar_ascii {c : Char} (ascii : c.toNat < 128) :
    String.utf8EncodeChar c = [UInt8.ofNat c.toNat] := if_pos (Nat.le_of_lt_succ ascii)

theorem flatMap_utf8EncodeChar {cs : List Char} (ascii : ∀ c ∈ cs, c.toNat < 128) :
    cs.flatMap String.utf8EncodeChar = cs.map fun c => UInt8.ofNat c.toNat := by
  induction cs with
  | nil => rfl
  | cons c cs ih =>
    obtain ⟨first, rest⟩ := List.forall_mem_cons.mp ascii
    rw [List.flatMap_cons, List.map_cons, utf8EncodeChar_ascii first, ih rest]
    rfl

/-- The first byte of a longer encoding is not a digit. -/
theorem ascii_of_hexdigits {c : Char}
    (digits : ∀ b ∈ String.utf8EncodeChar c, isAsciiHexdigit b) : c.toNat < 128 := by
  have large : ∀ n < 256, 128 ≤ n → isAsciiHexdigit (UInt8.ofNat n) = false := by decide +kernel
  have absurdFirst : ∀ n < 256, 128 ≤ n → isAsciiHexdigit (UInt8.ofNat n) → False := by
    intro n byte high digit
    rw [large n byte high] at digit
    cases digit
  unfold String.utf8EncodeChar at digits
  dsimp only at digits
  split at digits
  · next small => exact Nat.lt_succ_of_le small
  split at digits
  · exact absurd (digits _ List.mem_cons_self) (absurdFirst _ (by omega) (by omega))
  split at digits
  · exact absurd (digits _ List.mem_cons_self) (absurdFirst _ (by omega) (by omega))
  · exact absurd (digits _ List.mem_cons_self) (absurdFirst _ (by omega) (by omega))

theorem length_flatMap_hexByte (bytes : List UInt8) :
    (bytes.flatMap Files.hexByte).length = 2 * bytes.length := by
  induction bytes with
  | nil => rfl
  | cons b bytes ih =>
    rw [List.flatMap_cons, List.length_append, ih, List.length_cons]
    have two : (Files.hexByte b).length = 2 := rfl
    omega

theorem digit_of_mem_hexByte {b : UInt8} {c : Char} (mem : c ∈ Files.hexByte b) :
    ∃ k < 16, c = Nat.digitChar k := by
  have small := b.toNat_lt
  simp only [Files.hexByte, List.mem_cons, List.not_mem_nil, or_false] at mem
  rcases mem with rfl | rfl
  · exact ⟨_, by omega, rfl⟩
  · exact ⟨_, by omega, rfl⟩

/-- What is the hexadecimal form of some bytes but for its case is 7-bit text made of digits. -/
theorem hexdigits_of_toLower {cs : List Char} {bytes : List UInt8}
    (lower : cs.map Char.toLower = bytes.flatMap Files.hexByte) {c : Char} (mem : c ∈ cs) :
    c.toNat < 128 ∧ isAsciiHexdigit (UInt8.ofNat c.toNat) := by
  have among : c.toLower ∈ bytes.flatMap Files.hexByte := lower ▸ List.mem_map_of_mem mem
  obtain ⟨b, -, inByte⟩ := List.mem_flatMap.mp among
  obtain ⟨k, small, digit⟩ := digit_of_mem_hexByte inByte
  have ascii := ascii_of_toLower small digit
  rw [isAsciiHexdigit_eq, (hexNibble_char ascii small).mpr digit]
  exact ⟨ascii, rfl⟩

theorem fullHex_toList (sha : Hash) :
    (Sync.fullHex sha).toList = sha.toList.flatMap Files.hexByte := String.toList_ofList

theorem shaOfSuffix_ascii {suffix : List Char} (ascii : ∀ c ∈ suffix, c.toNat < 128)
    (digits : ∀ c ∈ suffix, isAsciiHexdigit (UInt8.ofNat c.toNat))
    (length : suffix.length = 64) :
    shaOfSuffix suffix = padTo 32 <$> decodeHexPairs (suffix.map fun c => UInt8.ofNat c.toNat) := by
  rw [shaOfSuffix, asBytes_ofList, flatMap_utf8EncodeChar ascii,
    if_neg (by simpa [length] using digits), decodeHex32, if_neg (by simp [length])]

theorem shaOfSuffix_eq_some_iff {suffix : List Char} {sha : Hash} :
    shaOfSuffix suffix = some sha ↔ suffix.map Char.toLower = (Sync.fullHex sha).toList := by
  rw [fullHex_toList]
  constructor
  · intro found
    by_cases accepted : (asBytes (String.ofList suffix)).length = 64 ∧
        ∀ b ∈ asBytes (String.ofList suffix), isAsciiHexdigit b
    · rw [asBytes_ofList] at accepted
      obtain ⟨length, digits⟩ := accepted
      have ascii : ∀ c ∈ suffix, c.toNat < 128 := fun c mem =>
        ascii_of_hexdigits fun b inByte => digits b (List.mem_flatMap.mpr ⟨c, mem, inByte⟩)
      rw [flatMap_utf8EncodeChar ascii] at length digits
      rw [List.length_map] at length
      rw [shaOfSuffix_ascii ascii (by simpa using digits) length, Option.map_eq_map,
        Option.map_eq_some_iff] at found
      obtain ⟨out, decoded, rfl⟩ := found
      rw [decodeHexPairs_eq_some_iff (n := 32) length ascii] at decoded
      have size := congrArg List.length decoded
      rw [List.length_map, length, length_flatMap_hexByte] at size
      have full : out.length = 32 := by omega
      rw [decoded, toList_padTo (by omega), full]
      simp
    · rw [shaOfSuffix, if_pos (by simpa [imp_iff_not_or] using accepted)] at found
      cases found
  · intro lower
    have length : suffix.length = 64 := by
      have size := congrArg List.length lower
      rw [List.length_map, length_flatMap_hexByte, Vector.length_toList] at size
      exact size
    rw [shaOfSuffix_ascii (fun c mem => (hexdigits_of_toLower lower mem).1)
      (fun c mem => (hexdigits_of_toLower lower mem).2) length,
      (decodeHexPairs_eq_some_iff (n := 32) length
        fun c mem => (hexdigits_of_toLower lower mem).1).mpr lower]
    exact congrArg some (Vector.toList_inj.mp (by rw [toList_padTo (by simp)]; simp))

end LanMouse.Transport.Http3
