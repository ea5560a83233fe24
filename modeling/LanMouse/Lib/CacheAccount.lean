import LanMouse.Lib.BudgetCache
import Mathlib.Data.List.Perm.Subperm

/-!
# The account of a cache

Two things can go wrong in the operations of a cache: the counter of the bytes can fall below zero,
and an eviction can come to the end of the queue with the budget still exceeded. The operations are
stated once more with these as faults, and on a valid cache they meet none: `runChecked_eq`.

The queue holds a place for every stored key. It holds no other exactly as long as no entry leaves
the cache but by an eviction: `inSync_apply_iff`.
-/
namespace BudgetCache

variable {κ α : Type} [DecidableEq κ]

inductive Fault where
  | underflow
  | emptyQueue
  deriving DecidableEq, Repr

def subtract (a b : Nat) : Except Fault Nat := if b ≤ a then .ok (a - b) else .error .underflow

def evictChecked (byteBudget : Nat) :
    List κ → Entries κ α → Nat → Except Fault (List κ × Entries κ α × Nat)
  | [], entries, bytesUsed =>
    if bytesUsed > byteBudget then .error .emptyQueue else .ok ([], entries, bytesUsed)
  | oldest :: lru, entries, bytesUsed =>
    if bytesUsed > byteBudget then
      match entries.lookup oldest with
      | some removed => do
        let bytesUsed ← subtract bytesUsed removed.bytes.length
        evictChecked byteBudget lru (entries.erase oldest) bytesUsed
      | none => evictChecked byteBudget lru entries bytesUsed
    else .ok (oldest :: lru, entries, bytesUsed)

namespace Store

def replaceChecked (c : Store κ α) (k : κ) : Except Fault (List κ × Nat) :=
  match c.entries.lookup k with
  | some prev => do
    let bytesUsed ← subtract c.bytesUsed prev.bytes.length
    return (c.lru, bytesUsed)
  | none => .ok (c.lru ++ [k], c.bytesUsed)

def insertChecked (c : Store κ α) (now : Nat) (k : κ) (bytes : List α) :
    Except Fault (Option (List α) × Store κ α) :=
  if bytes.length > c.byteBudget then .ok (none, c)
  else do
    let entries := c.entries.insert k ⟨bytes, now⟩
    let (lru, used) ← c.replaceChecked k
    let (lru, entries, used) ← evictChecked c.byteBudget lru entries (used + bytes.length)
    return ((c.entries.lookup k).map (·.bytes),
      { c with entries := entries, lru := lru, bytesUsed := used })

def lookupChecked (c : Store κ α) (now : Nat) (k : κ) :
    Except Fault (Option (List α) × Store κ α) :=
  match c.entries.lookup k with
  | some entry =>
    if now - entry.insertedAt < c.ttl then .ok (some entry.bytes, c)
    else do
      let bytesUsed ← subtract c.bytesUsed entry.bytes.length
      return (none, { c with entries := c.entries.erase k, bytesUsed := bytesUsed })
  | none => .ok (none, c)

def removeChecked (c : Store κ α) (k : κ) : Except Fault (Bool × Store κ α) :=
  match c.entries.lookup k with
  | some entry => do
    let bytesUsed ← subtract c.bytesUsed entry.bytes.length
    return (true, { c with entries := c.entries.erase k, bytesUsed := bytesUsed })
  | none => .ok (false, c)

def applyChecked (c : Store κ α) : Cache.Op κ α → Except Fault (Store κ α)
  | .insert now k bytes => Prod.snd <$> c.insertChecked now k bytes
  | .lookup now k => Prod.snd <$> c.lookupChecked now k
  | .remove k => Prod.snd <$> c.removeChecked k

def runChecked (c : Store κ α) (ops : List (Cache.Op κ α)) : Except Fault (Store κ α) :=
  ops.foldlM applyChecked c

end Store

/-! ### No operation faults -/

theorem subtract_of_le {a b : Nat} (le : b ≤ a) : subtract a b = .ok (a - b) := if_pos le

/-- A stored entry is part of the sum. -/
theorem length_le_weight {m : Entries κ α} {k : κ} {e : Entry α} (stored : m.lookup k = some e) :
    e.bytes.length ≤ weight m [] := by
  rw [weight_of_lookup_some stored List.not_mem_nil]
  exact Nat.le_add_right ..

theorem evictChecked_eq {byteBudget : Nat} {lru : List κ} {entries : Entries κ α} {used : Nat}
    (counted : used = weight entries []) (queued : ∀ k ∈ entries, k ∈ lru) :
    evictChecked byteBudget lru entries used = .ok (evict byteBudget lru entries used) := by
  induction lru generalizing entries used with
  | nil =>
    have nothing : weight entries [] = 0 := weight_eq_zero queued
    rw [evictChecked, evict, if_neg (by omega)]
  | cons oldest lru ih =>
    rw [evictChecked, evict]
    split_ifs with above
    · have left : ∀ k ∈ entries.erase oldest, k ∈ lru := by
        intro k mem
        obtain ⟨other, mem⟩ := AList.mem_erase.mp mem
        exact (List.mem_cons.mp (queued k mem)).resolve_left other
      cases stored : entries.lookup oldest with
      | none =>
        rw [erase_of_lookup_none stored] at left
        exact ih counted left
      | some removed =>
        have part : removed.bytes.length ≤ used := counted ▸ length_le_weight stored
        have rest : used - removed.bytes.length = weight (entries.erase oldest) [] := by
          rw [weight_erase, counted, weight_of_lookup_some stored List.not_mem_nil]
          omega
        dsimp only
        rw [subtract_of_le part]
        exact ih rest left
    · rfl

namespace Store

theorem Valid.length_le {c : Store κ α} (valid : c.Valid) {k : κ} {e : Entry α}
    (stored : c.entries.lookup k = some e) : e.bytes.length ≤ c.bytesUsed := by
  rw [valid.used]
  exact length_le_weight stored

theorem replaceChecked_eq {c : Store κ α} (valid : c.Valid) (k : κ) :
    c.replaceChecked k = .ok (c.replace k) := by
  unfold replaceChecked replace
  cases stored : c.entries.lookup k with
  | none => rfl
  | some prev =>
    dsimp only
    rw [subtract_of_le (valid.length_le stored)]
    rfl

theorem insertChecked_eq {c : Store κ α} (valid : c.Valid) (now : Nat) (k : κ) (bytes : List α) :
    c.insertChecked now k bytes = .ok (c.insert now k bytes) := by
  unfold insertChecked insert
  split_ifs
  · rfl
  · obtain ⟨lru, used, replaced⟩ : ∃ lru used, c.replace k = (lru, used) := ⟨_, _, rfl⟩
    obtain ⟨counted, places⟩ := replace_spec valid replaced ⟨bytes, now⟩
    have evicted : evictChecked c.byteBudget lru (c.entries.insert k ⟨bytes, now⟩)
        (used + bytes.length) = _ :=
      evictChecked_eq counted fun j inserted => (places j inserted).1
    simp only [replaceChecked_eq valid, replaced, bind, Except.bind, evicted]
    rfl

theorem lookupChecked_eq {c : Store κ α} (valid : c.Valid) (now : Nat) (k : κ) :
    c.lookupChecked now k = .ok (c.lookup now k) := by
  unfold lookupChecked lookup
  cases stored : c.entries.lookup k with
  | none => rfl
  | some entry =>
    dsimp only
    split_ifs
    · rfl
    · rw [subtract_of_le (valid.length_le stored)]
      rfl

theorem removeChecked_eq {c : Store κ α} (valid : c.Valid) (k : κ) :
    c.removeChecked k = .ok (c.remove k) := by
  unfold removeChecked remove
  cases stored : c.entries.lookup k with
  | none => rfl
  | some entry =>
    dsimp only
    rw [subtract_of_le (valid.length_le stored)]
    rfl

end Store

namespace Cache

theorem applyChecked_eq (c : Cache κ α) (op : Op κ α) :
    c.toStore.applyChecked op = .ok (c.apply op).toStore := by
  cases op with
  | insert now k bytes => rw [Store.applyChecked, Store.insertChecked_eq c.valid]; rfl
  | lookup now k => rw [Store.applyChecked, Store.lookupChecked_eq c.valid]; rfl
  | remove k => rw [Store.applyChecked, Store.removeChecked_eq c.valid]; rfl

/-- A run meets no fault. -/
theorem runChecked_eq (c : Cache κ α) (ops : List (Op κ α)) :
    c.toStore.runChecked ops = .ok (c.run ops).toStore := by
  induction ops generalizing c with
  | nil => rfl
  | cons op ops ih =>
    rw [Store.runChecked, List.foldlM_cons, applyChecked_eq]
    exact ih (c.apply op)

end Cache

/-! ### Places in the queue -/

/-- The queue holds exactly the stored keys, each of them once. -/
def Store.InSync (c : Store κ α) : Prop := c.lru.Perm c.entries.keys

theorem Store.Valid.inSync_iff {c : Store κ α} (valid : c.Valid) :
    c.InSync ↔ c.lru.length ≤ c.entries.keys.length := by
  refine ⟨fun sync => sync.length_eq.le, fun short => ?_⟩
  have places : c.entries.keys.Subperm c.lru :=
    c.entries.keys_nodup.subperm fun k stored => valid.queued k stored
  exact (places.perm_of_length_le short).symm

theorem evict_of_le {byteBudget used : Nat} (fits : used ≤ byteBudget) (lru : List κ)
    (entries : Entries κ α) : evict byteBudget lru entries used = (lru, entries, used) := by
  cases lru with
  | nil => rfl
  | cons oldest lru => rw [evict, if_neg (Nat.not_lt.mpr fits)]

theorem evict_perm {byteBudget : Nat} {lru : List κ} {entries : Entries κ α} {used : Nat}
    (sync : lru.Perm entries.keys) :
    (evict byteBudget lru entries used).1.Perm (evict byteBudget lru entries used).2.1.keys := by
  induction lru generalizing entries used with
  | nil => exact sync
  | cons oldest lru ih =>
    rw [evict]
    split_ifs
    · have stored : oldest ∈ entries.keys := sync.subset List.mem_cons_self
      obtain ⟨removed, found⟩ := Option.isSome_iff_exists.mp (AList.lookup_isSome.mpr stored)
      simp only [found]
      refine ih ?_
      rw [AList.keys_erase]
      simpa using sync.erase oldest
    · exact sync

theorem Store.inSync_insert {c : Store κ α} (sync : c.InSync) (now : Nat) (k : κ)
    (bytes : List α) : (c.insert now k bytes).2.InSync := by
  unfold Store.insert
  split_ifs
  · exact sync
  · refine evict_perm ?_
    rw [AList.keys_insert]
    unfold Store.replace
    cases stored : c.entries.lookup k with
    | some prev =>
      have mem : k ∈ c.entries.keys := AList.lookup_isSome.mp (stored ▸ rfl)
      exact sync.trans (List.perm_cons_erase mem)
    | none =>
      have fresh : k ∉ c.entries.keys := AList.lookup_eq_none.mp stored
      rw [List.erase_of_not_mem fresh]
      exact (List.perm_append_singleton k c.lru).trans (sync.cons k)

/-- An entry that is taken out leaves its place behind. -/
theorem Store.not_inSync_without {c : Store κ α} (sync : c.InSync) {k : κ}
    (stored : k ∈ c.entries) : ¬ (c.without k).InSync := by
  intro sync'
  have size : c.lru.length = (c.entries.erase k).keys.length := sync'.length_eq
  have before : c.lru.length = c.entries.keys.length := sync.length_eq
  have mem : k ∈ c.entries.keys := stored
  have some_ := List.length_pos_of_mem mem
  rw [AList.keys_erase, List.length_erase_of_mem mem] at size
  omega

/-- No entry is taken out but by an eviction. -/
def Cache.Op.Keeps (c : Cache κ α) : Cache.Op κ α → Prop
  | .insert _ _ _ => True
  | .lookup now k => ∀ e, c.entries.lookup k = some e → now - e.insertedAt < c.ttl
  | .remove k => k ∉ c.entries

theorem Cache.inSync_apply_iff {c : Cache κ α} (sync : c.InSync) (op : Cache.Op κ α) :
    (c.apply op).InSync ↔ op.Keeps c := by
  cases op with
  | insert now k bytes => exact iff_of_true (Store.inSync_insert sync now k bytes) trivial
  | lookup now k =>
    have done : (c.apply (.lookup now k)).toStore = (c.toStore.lookup now k).2 := rfl
    rw [done, Store.lookup]
    cases stored : c.entries.lookup k with
    | none => exact iff_of_true sync fun e found => by cases stored.symm.trans found
    | some e =>
      by_cases fresh : now - e.insertedAt < c.ttl
      · refine iff_of_true (by simpa [fresh] using sync) fun e' found => ?_
        cases stored.symm.trans found
        exact fresh
      · have mem : k ∈ c.entries := AList.lookup_isSome.mp (stored ▸ rfl)
        have left := Store.not_inSync_without sync mem
        refine iff_of_false ?_ fun keeps => fresh (keeps e stored)
        simpa [fresh, Store.without, stored] using left
  | remove k =>
    have done : (c.apply (.remove k)).toStore = (c.toStore.remove k).2 := rfl
    rw [done, Store.remove_eq]
    by_cases mem : k ∈ c.entries
    · rw [if_pos (AList.lookup_isSome.mpr mem)]
      exact iff_of_false (Store.not_inSync_without sync mem) fun keeps => keeps mem
    · rw [if_neg fun stored => mem (AList.lookup_isSome.mp stored)]
      exact iff_of_true sync mem

end BudgetCache
