import LanMouse.Files.Apply
import LanMouse.Lib.FirstUse
import LanMouse.Lib.Transition
import Mathlib.Data.List.DropRight

/-!
# Pinned server certificates

The dialing side trusts the certificate a peer presents first: its fingerprint goes into a file
named after the peer's key, and later checks compare with that file. File names hold fewer
characters than keys do, so `sanitizePeerKey` can give two peers one file.
-/
namespace LanMouse.Tls

open Proto Transition FirstUse

def generateFingerprint (sha256 : List UInt8 → Hash) (cert : List UInt8) : String :=
  String.ofList
    ((List.intercalate [':'] ((sha256 cert).toList.map Files.hexByte)).map Char.toLower)

def sanitizePeerKey (peerKey : String) : String :=
  let safe := peerKey.toList.map fun c =>
    if c.isAlphanum ∨ c = '.' ∨ c = '-' ∨ c = '_' then c else '_'
  if safe.isEmpty ∨ safe.all (· = '.') then "unnamed-peer" else String.ofList safe

/-- The characters with the Unicode property `White_Space`. -/
def isWhitespace (c : Char) : Bool :=
  (9 ≤ c.toNat ∧ c.toNat ≤ 13) ∨ c.toNat ∈ [0x20, 0x85, 0xA0, 0x1680, 0x2028, 0x2029, 0x202F,
    0x205F, 0x3000] ∨ (0x2000 ≤ c.toNat ∧ c.toNat ≤ 0x200A)

def trim (s : String) : String :=
  String.ofList ((s.toList.dropWhile isWhitespace).rdropWhile isWhitespace)

/-- The contents of the files, under their paths. -/
abbrev PinFiles := String → Option String

structure TofuVerifier where
  pinsDir : String
  peerKey : String
  deriving DecidableEq, Repr

namespace TofuVerifier

def pinPath (v : TofuVerifier) : String := v.pinsDir ++ "/" ++ sanitizePeerKey v.peerKey ++ ".pin"

def verifyServerCert (sha256 : List UInt8 → Hash) (v : TofuVerifier) (endEntity : List UInt8)
    (files : PinFiles) : Except String Unit × PinFiles :=
  let fp := generateFingerprint sha256 endEntity
  let pin := v.pinPath
  match files pin with
  | some pinned =>
    if trim pinned = fp then (.ok (), files)
    else
      (.error ("TOFU mismatch for peer " ++ v.peerKey ++ ": presented fingerprint " ++ fp ++
        ", pinned " ++ trim pinned ++ " (delete " ++ pin ++ " to re-pair)"), files)
  | none => (.ok (), Function.update files pin (some (fp ++ "\n")))

variable {sha256 : List UInt8 → Hash} {v : TofuVerifier} {files : PinFiles}

theorem verifyServerCert_unpinned (endEntity : List UInt8) (absent : files v.pinPath = none) :
    v.verifyServerCert sha256 endEntity files = (.ok (), Function.update files v.pinPath
      (some (generateFingerprint sha256 endEntity ++ "\n"))) := by
  simp only [verifyServerCert, absent]

theorem verifyServerCert_pinned (endEntity : List UInt8) {pinned : String}
    (present : files v.pinPath = some pinned) :
    (v.verifyServerCert sha256 endEntity files).1.isOk =
        decide (trim pinned = generateFingerprint sha256 endEntity) ∧
      (v.verifyServerCert sha256 endEntity files).2 = files := by
  simp only [verifyServerCert, present]
  split_ifs with same
  · exact ⟨(decide_eq_true same).symm, rfl⟩
  · exact ⟨(decide_eq_false same).symm, rfl⟩

end TofuVerifier

/-- One handshake of the dialing side: the peer it dials and the certificate it is shown. -/
structure Check where
  peerKey : String
  cert : List UInt8
  deriving DecidableEq, Repr

section Checks

variable (sha256 : List UInt8 → Hash) (pinsDir : String)

def Check.verdict (c : Check) (files : PinFiles) : Bool :=
  (TofuVerifier.verifyServerCert sha256 ⟨pinsDir, c.peerKey⟩ c.cert files).1.isOk

def check (files : PinFiles) (c : Check) : PinFiles :=
  (TofuVerifier.verifyServerCert sha256 ⟨pinsDir, c.peerKey⟩ c.cert files).2

/-- What the checks leave on a disk that had no pin. -/
def pinsAfter (checks : List Check) : PinFiles := run (check sha256 pinsDir) (fun _ => none) checks

def Check.presented (c : Check) : String × String := (c.peerKey, generateFingerprint sha256 c.cert)

def firstFingerprint (checks : List Check) (peerKey : String) : Option String :=
  first (checks.map (Check.presented sha256)) peerKey

/-- At every point of the run, the pin of each peer checked so far is the fingerprint that peer
presented first, and the next check is decided by what its own peer presented first. -/
def PinsOwnFirst (checks : List Check) : Prop :=
  ∀ done, done <+: checks →
    (∀ c ∈ done, pinsAfter sha256 pinsDir done (TofuVerifier.pinPath ⟨pinsDir, c.peerKey⟩) =
      (firstFingerprint sha256 done c.peerKey).map (· ++ "\n")) ∧
    ∀ next, done ++ [next] <+: checks →
      next.verdict sha256 pinsDir (pinsAfter sha256 pinsDir done) =
        (firstFingerprint sha256 done next.peerKey).all
          (· = generateFingerprint sha256 next.cert)

end Checks

theorem hexByte_not_whitespace {b : UInt8} {c : Char} (mem : c ∈ Files.hexByte b) :
    isWhitespace c.toLower = false := by
  have digit : ∀ n < 16, isWhitespace (Nat.digitChar n).toLower = false := by decide
  have small := b.toNat_lt
  simp only [Files.hexByte, List.mem_cons, List.not_mem_nil, or_false] at mem
  rcases mem with rfl | rfl
  · exact digit _ (by omega)
  · exact digit _ (by omega)

theorem mem_joined {c : Char} {parts : List (List Char)}
    (mem : c ∈ List.intercalate [':'] parts) : c = ':' ∨ ∃ part ∈ parts, c ∈ part := by
  induction parts with
  | nil => simp [List.intercalate] at mem
  | cons first rest ih =>
    cases rest with
    | nil =>
      have here : c ∈ first := by simpa [List.intercalate] using mem
      exact .inr ⟨first, List.mem_cons_self, here⟩
    | cons second rest =>
      rw [List.intercalate_cons_cons, List.mem_append, List.mem_append] at mem
      rcases mem with (here | colon) | later
      · exact .inr ⟨first, List.mem_cons_self, here⟩
      · exact .inl (List.mem_singleton.mp colon)
      · refine (ih later).imp id ?_
        rintro ⟨part, mem, here⟩
        exact ⟨part, List.mem_cons_of_mem _ mem, here⟩

theorem fingerprint_not_whitespace (sha256 : List UInt8 → Hash) (cert : List UInt8) :
    ∀ c ∈ (generateFingerprint sha256 cert).toList, isWhitespace c = false := by
  intro c mem
  simp only [generateFingerprint, String.toList_ofList, List.mem_map] at mem
  obtain ⟨d, mem, rfl⟩ := mem
  rcases mem_joined mem with rfl | ⟨part, isPart, mem⟩
  · decide
  · obtain ⟨b, -, rfl⟩ := List.mem_map.mp isPart
    exact hexByte_not_whitespace mem

theorem trim_line {s : String} (solid : ∀ c ∈ s.toList, isWhitespace c = false) :
    trim (s ++ "\n") = s := by
  have back : s.toList.rdropWhile isWhitespace = s.toList :=
    List.rdropWhile_eq_self_iff.mpr fun nonempty => by simp [solid _ (List.getLast_mem nonempty)]
  have front : (s.toList ++ ['\n']).dropWhile isWhitespace = s.toList ++ ['\n'] ∨
      s.toList = [] := by
    cases letters : s.toList with
    | nil => exact .inr rfl
    | cons c rest => exact .inl (by simp [solid c (by simp [letters])])
  have newline : "\n".toList = ['\n'] := rfl
  unfold trim
  rw [String.toList_append, newline]
  rcases front with stays | empty
  · rw [stays, List.rdropWhile_concat_pos _ _ _ (by decide), back, String.ofList_toList]
  · rw [empty, ← String.ofList_toList (s := s), empty]
    rfl

section Refinement

variable (sha256 : List UInt8 → Hash) (pinsDir : String)

def pinSlot (peerKey : String) : String := TofuVerifier.pinPath ⟨pinsDir, peerKey⟩

theorem pinSlot_eq_iff (a b : String) :
    pinSlot pinsDir a = pinSlot pinsDir b ↔ sanitizePeerKey a = sanitizePeerKey b := by
  simp [pinSlot, TofuVerifier.pinPath, String.append_left_inj, String.append_right_inj]

/-- The fingerprints presented so far, each under the path its check looks at. -/
def uses (checks : List Check) : List (String × String) :=
  slotted (pinSlot pinsDir) (checks.map (Check.presented sha256))

theorem uses_snoc (done : List Check) (c : Check) :
    uses sha256 pinsDir (done ++ [c]) = uses sha256 pinsDir done ++
      [(pinSlot pinsDir c.peerKey, generateFingerprint sha256 c.cert)] := by
  rw [uses, List.map_append, List.map_singleton, slotted_snoc]
  rfl

variable {sha256 pinsDir}

theorem trim_of_first_uses {done : List Check} {path fp : String}
    (found : first (uses sha256 pinsDir done) path = some fp) : trim (fp ++ "\n") = fp := by
  obtain ⟨a, -, -, trusts⟩ := exists_of_first_slotted found
  obtain ⟨c, -, same⟩ := List.mem_map.mp (mem_of_first trusts)
  obtain rfl : generateFingerprint sha256 c.cert = fp := congrArg Prod.snd same
  exact trim_line (fingerprint_not_whitespace sha256 c.cert)

variable (sha256 pinsDir) in
/-- The pin files hold the first use of every path. -/
theorem pinsAfter_eq (done : List Check) (path : String) :
    pinsAfter sha256 pinsDir done path =
      (first (uses sha256 pinsDir done) path).map (· ++ "\n") := by
  induction done using List.reverseRecOn generalizing path with
  | nil => rfl
  | append_singleton done c ih =>
    have step : pinsAfter sha256 pinsDir (done ++ [c]) =
        check sha256 pinsDir (pinsAfter sha256 pinsDir done) c := run_snoc _ done c
    rw [step, uses_snoc, first_snoc, check]
    cases held : first (uses sha256 pinsDir done) (pinSlot pinsDir c.peerKey) with
    | none =>
      have absent := ih (pinSlot pinsDir c.peerKey)
      rw [held] at absent
      rw [TofuVerifier.verifyServerCert_unpinned c.cert absent]
      by_cases here : path = pinSlot pinsDir c.peerKey
      · rw [here, held, if_pos rfl]
        exact Function.update_self _ _ _
      · rw [if_neg here, Option.or_none, ← ih]
        exact Function.update_of_ne here _ _
    | some fp =>
      have present := ih (pinSlot pinsDir c.peerKey)
      rw [held] at present
      rw [(TofuVerifier.verifyServerCert_pinned c.cert present).2, ih]
      by_cases here : path = pinSlot pinsDir c.peerKey
      · rw [here, held, Option.some_or]
      · rw [if_neg here, Option.or_none]

theorem verdict_pinsAfter (done : List Check) (c : Check) :
    c.verdict sha256 pinsDir (pinsAfter sha256 pinsDir done) = accepts (uses sha256 pinsDir done)
      (pinSlot pinsDir c.peerKey, generateFingerprint sha256 c.cert) := by
  have content := pinsAfter_eq sha256 pinsDir done (pinSlot pinsDir c.peerKey)
  unfold Check.verdict accepts
  cases held : first (uses sha256 pinsDir done) (pinSlot pinsDir c.peerKey) with
  | none =>
    rw [held] at content
    rw [TofuVerifier.verifyServerCert_unpinned c.cert content]
    rfl
  | some fp =>
    rw [held] at content
    rw [(TofuVerifier.verifyServerCert_pinned c.cert content).1, trim_of_first_uses held]
    rfl

theorem pinsOwnFirst_of_agree {checks : List Check}
    (agree : Agree (pinSlot pinsDir) (checks.map (Check.presented sha256))) :
    PinsOwnFirst sha256 pinsDir checks := by
  intro done begins
  refine ⟨fun c mem => ?_, fun next begins => ?_⟩
  · have kept := (first_slotted_iff _ _).mpr (agree.of_isPrefix (begins.map _)) _
      (List.mem_map_of_mem mem)
    exact (pinsAfter_eq sha256 pinsDir done _).trans (congrArg _ kept)
  · have shared := agree.of_isPrefix (begins.map (Check.presented sha256))
    rw [List.map_append, List.map_singleton] at shared
    have decided := accepts_slotted shared
    exact (verdict_pinsAfter done next).trans decided

theorem agree_of_pinsOwnFirst {checks : List Check} (own : PinsOwnFirst sha256 pinsDir checks) :
    Agree (pinSlot pinsDir) (checks.map (Check.presented sha256)) := by
  refine (first_slotted_iff _ _).mp fun use mem => ?_
  obtain ⟨c, checked, rfl⟩ := List.mem_map.mp mem
  have kept := (own checks List.prefix_rfl).1 c checked
  rw [pinsAfter_eq] at kept
  exact Option.map_injective (fun _ _ => (String.append_left_inj _).mp) kept

end Refinement

/-- The pins follow each peer's own history exactly when the peers that share a file name have
presented the same fingerprint first. -/
theorem pins_own_first_iff (sha256 : List UInt8 → Hash) (pinsDir : String) (checks : List Check) :
    PinsOwnFirst sha256 pinsDir checks ↔
      ∀ a ∈ checks, ∀ b ∈ checks, sanitizePeerKey a.peerKey = sanitizePeerKey b.peerKey →
        firstFingerprint sha256 checks a.peerKey = firstFingerprint sha256 checks b.peerKey := by
  constructor
  · intro own a a_mem b b_mem same
    exact agree_of_pinsOwnFirst own _ (List.mem_map_of_mem a_mem) _ (List.mem_map_of_mem b_mem)
      ((pinSlot_eq_iff pinsDir _ _).mpr same)
  · intro agree
    refine pinsOwnFirst_of_agree fun a a_mem b b_mem same => ?_
    obtain ⟨c, c_mem, rfl⟩ := List.mem_map.mp a_mem
    obtain ⟨d, d_mem, rfl⟩ := List.mem_map.mp b_mem
    exact agree c c_mem d d_mem ((pinSlot_eq_iff pinsDir _ _).mp same)

theorem second_peer_rejected :
    let sha256 : List UInt8 → Hash := fun cert => Vector.replicate 32 (cert.headD 0)
    let first : Check := ⟨"客厅", [1]⟩
    let second : Check := ⟨"书房", [2]⟩
    second.verdict sha256 "known_peers" (pinsAfter sha256 "known_peers" [first]) = false ∧
      ¬ PinsOwnFirst sha256 "known_peers" [first, second] := by
  intro sha256 first second
  have rejected :
      second.verdict sha256 "known_peers" (pinsAfter sha256 "known_peers" [first]) = false := by
    decide +kernel
  refine ⟨rejected, fun own => ?_⟩
  have accepted := (own [first] ⟨[second], rfl⟩).2 second List.prefix_rfl
  rw [rejected] at accepted
  revert accepted
  decide +kernel

end LanMouse.Tls
