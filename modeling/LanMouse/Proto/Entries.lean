import LanMouse.Lib.Attempts
import LanMouse.Proto.Allocation
import LanMouse.Proto.Delimited

/-!
# Reading a list of file entries

A list of file entries is a block of bytes with its length in front. `read_vec_var` decodes entries
from the block until nothing of it is left, or until an entry does not decode. An entry takes at
least 48 bytes: two lengths, a size and a hash.
-/
namespace LanMouse.Proto

open Bytes VarCodec

/-- What comes of reading a list of entries: the outcome, the block, and the entry decodes in it. -/
structure EntriesRead where
  outcome : Outcome (List FileEntry × List UInt8)
  block : List UInt8
  attempts : List (Attempt ProtocolError FileEntry)

/-- `readVecVar FileEntry` with a note of every entry it tries to decode. -/
def readEntries (buf : List UInt8) : EntriesRead :=
  match readBlock buf with
  | .error f => ⟨.error f, [], []⟩
  | .ok (block, after) =>
    let (result, attempts) := readItemsTraced decodeVarBody block.length block
    ⟨(·, after) <$> result, block, attempts⟩

theorem readVecVar_eq (buf : List UInt8) :
    readVecVar FileEntry buf = (readBlock buf >>= fun p =>
      (·, p.2) <$> readItems (decodeVarBody : Decode FileEntry) p.1.length p.1) := by
  have step : readVecVar FileEntry = (readBlock >>= fun body =>
      ((readItems decodeVarBody body.length body : Except (Fault ProtocolError) (List FileEntry)) :
        Decode (List FileEntry))) := by
    rw [readVecVar, readBlock, bind_assoc]
  rw [step]
  rfl

theorem readEntries_outcome (buf : List UInt8) :
    (readEntries buf).outcome = readVecVar FileEntry buf := by
  rw [readVecVar_eq, readEntries]
  cases readBlock buf with
  | error f => rfl
  | ok p =>
    dsimp only
    rw [readItemsTraced_fst]
    rfl

theorem fileEntry_local : Local (decodeVarBody : Decode FileEntry) :=
  readString_local.bind fun _ => readU64Be_local.bind fun _ => readString_local.bind fun _ =>
    readHash_local.bind fun _ => .pure _

/-- The block has its length in front of it. -/
theorem readBlock_ok {buf block after : List UInt8} (read : readBlock buf = .ok (block, after)) :
    buf = toBE 4 block.length ++ block ++ after := by
  obtain ⟨len, mid, word, taken⟩ := bind_ok_iff.mp read
  obtain ⟨rfl, -⟩ := word_ok word
  obtain ⟨rfl, rfl⟩ := take_ok taken
  rw [List.append_assoc]

theorem readEntries_attempts (buf : List UInt8) :
    (readEntries buf).attempts =
      (readItemsTraced decodeVarBody (readEntries buf).block.length (readEntries buf).block).2 := by
  unfold readEntries
  cases readBlock buf with
  | error f => rfl
  | ok p => rfl

/-- How reading a list of entries goes. -/
structure EntriesRead.Bounded (buf : List UInt8) (r : EntriesRead) : Prop where
  outcome : r.outcome = readVecVar FileEntry buf
  ends : r.outcome ≠ .error .hang ∧ r.outcome ≠ .error .panic
  successes : r.attempts.countP Attempt.succeeds ≤ r.block.length / 48
  failures : r.attempts.countP (fun a => !a.succeeds) ≤ 1
  inside : ∀ a ∈ r.attempts, a.result = decodeVarBody a.before ∧ a.before <:+ r.block
  takes : ∀ a ∈ r.attempts, ∀ e rest, a.result = .ok (e, rest) →
    a.before = a.used ++ rest ∧ 48 ≤ a.used.length ∧ Reads decodeVarBody a.used e
  whole : ∀ entries rest, r.outcome = .ok (entries, rest) →
    r.attempts.flatMap Attempt.used = r.block ∧ buf = toBE 4 r.block.length ++ r.block ++ rest

theorem readEntries_ends (buf : List UInt8) :
    (readEntries buf).outcome ≠ .error .hang ∧ (readEntries buf).outcome ≠ .error .panic := by
  rw [readEntries_outcome]
  obtain ⟨entries, rest, ok, -⟩ | ⟨e, failed⟩ := readVecVar_takes buf
  · rw [ok]
    exact ⟨nofun, nofun⟩
  · rw [failed]
    exact ⟨nofun, nofun⟩

/-- A list that is read takes its block and nothing else. -/
theorem readEntries_whole {buf rest : List UInt8} {entries : List FileEntry}
    (done : (readEntries buf).outcome = .ok (entries, rest)) :
    (readEntries buf).attempts.flatMap Attempt.used = (readEntries buf).block ∧
      buf = toBE 4 (readEntries buf).block.length ++ (readEntries buf).block ++ rest := by
  rw [readEntries_attempts]
  unfold readEntries at done ⊢
  cases read : readBlock buf with
  | error f =>
    rw [read] at done
    cases done
  | ok p =>
    rw [read] at done
    dsimp only at done ⊢
    cases all : (readItemsTraced (decodeVarBody : Decode FileEntry) p.1.length p.1).1 with
    | error f =>
      rw [all] at done
      cases done
    | ok xs =>
      rw [all] at done
      cases done
      exact ⟨flatMap_used_of_ok fileEntry_local entries all, readBlock_ok read⟩

/-- At most one entry in 48 bytes of the block is decoded, each from bytes of its own, and at most
one is tried in vain. -/
theorem readEntries_bounded (buf : List UInt8) : (readEntries buf).Bounded buf := by
  have calls := readEntries_attempts buf
  refine ⟨readEntries_outcome buf, readEntries_ends buf, ?_, ?_, ?_, ?_,
    fun entries rest => readEntries_whole⟩
  · rw [calls, Nat.le_div_iff_mul_le (by decide), Nat.mul_comm]
    exact count_succeeds_le fileEntry_takes
  · rw [calls]
    exact count_fails_le
  · rw [calls]
    exact attempt_of_mem fileEntry_local
  · rw [calls]
    intro a mem e rest
    exact a.taken fileEntry_local fileEntry_takes (attempt_of_mem fileEntry_local a mem).1

end LanMouse.Proto
