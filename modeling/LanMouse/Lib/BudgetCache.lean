import Mathlib.Algebra.Ring.Nat
import Mathlib.Data.List.AList
import Mathlib.Data.List.TakeWhile
import Mathlib.Tactic.SplitIfs

/-!
# A cache with a byte budget and a time to live

A map from keys to payloads with a queue of keys in the order they were first stored. Storing a
payload evicts from the front of the queue until the sizes fit the budget; a payload older than the
time to live is dropped when it is looked up. Removing a key leaves its place in the queue, so a
queue can hold keys that are not stored and places older than the payload now stored there.

`evict_spec` says which entries an eviction spares: those for which the entries that are not queued
ahead of them fit the budget.
-/
namespace BudgetCache

variable {κ α : Type} [DecidableEq κ]

structure Entry (α : Type) where
  bytes : List α
  insertedAt : Nat
  deriving DecidableEq, Repr

abbrev Entries (κ α : Type) := AList (fun _ : κ => Entry α)

/-- The size of the entries whose key is not in `gone`. -/
def weight (m : Entries κ α) (gone : List κ) : Nat :=
  ((m.entries.filter fun e => e.1 ∉ gone).map fun e => e.2.bytes.length).sum

theorem kerase_eq_filter {l : List (Σ _ : κ, Entry α)} (nodup : l.NodupKeys) (k : κ) :
    l.kerase k = l.filter fun e => e.1 ≠ k := by
  induction l with
  | nil => rfl
  | cons e l ih =>
    rw [List.nodupKeys_cons] at nodup
    by_cases same : k = e.1
    · have others : ∀ x ∈ l, x.1 ≠ k := by
        rintro x mem rfl
        exact nodup.1 (same ▸ List.mem_map_of_mem mem)
      rw [List.kerase_cons_eq same, List.filter_cons_of_neg (by simp [same]),
        List.filter_eq_self.mpr (by simpa using others)]
    · rw [List.kerase_cons_ne same, ih nodup.2,
        List.filter_cons_of_pos (by simpa using Ne.symm same)]

theorem entries_erase (m : Entries κ α) (k : κ) : (m.erase k).entries = m.entries.kerase k := rfl

theorem weight_erase (m : Entries κ α) (k : κ) (gone : List κ) :
    weight (m.erase k) gone = weight m (k :: gone) := by
  have entries : (m.erase k).entries = m.entries.filter fun e => e.1 ≠ k :=
    kerase_eq_filter m.nodupKeys k
  simp only [weight, entries, List.filter_filter, List.mem_cons, not_or]
  congr 3
  funext e
  simp [Bool.and_comm]

theorem weight_insert (m : Entries κ α) (k : κ) (gone : List κ) (e : Entry α) :
    weight (m.insert k e) gone =
      (if k ∈ gone then 0 else e.bytes.length) + weight m (k :: gone) := by
  rw [← weight_erase]
  by_cases gone_ : k ∈ gone <;> simp [weight, AList.entries_insert, entries_erase, gone_]

theorem weight_of_lookup_none {m : Entries κ α} {k : κ} (absent : m.lookup k = none)
    (gone : List κ) : weight m (k :: gone) = weight m gone := by
  have missing : k ∉ m.entries.keys := AList.lookup_eq_none.mp absent
  rw [← weight_erase]
  simp [weight, entries_erase, List.kerase_of_notMem_keys missing]

theorem weight_of_lookup_some {m : Entries κ α} {k : κ} {e : Entry α} {gone : List κ}
    (stored : m.lookup k = some e) (kept : k ∉ gone) :
    weight m gone = e.bytes.length + weight m (k :: gone) := by
  have mem : k ∈ m.entries.keys := AList.lookup_isSome.mp (by simp [stored])
  obtain ⟨e', front, back, -, split, erased⟩ := List.exists_of_kerase mem
  have same : e' = e := by
    have found : ⟨k, e'⟩ ∈ m.entries := by simp [split]
    rw [← AList.mem_lookup_iff, stored] at found
    exact (Option.some.inj found).symm
  have rest : (m.erase k).entries = front ++ back := erased
  rw [← weight_erase, weight, weight, rest, split, same]
  simp [kept]
  omega

theorem weight_le (m : Entries κ α) (gone : List κ) : weight m gone ≤ weight m [] := by
  unfold weight
  induction m.entries with
  | nil => simp
  | cons e l ih =>
    by_cases mem : e.1 ∈ gone <;> simp [mem] at ih ⊢ <;> omega

theorem weight_eq_zero {m : Entries κ α} {gone : List κ} (all : ∀ k ∈ m, k ∈ gone) :
    weight m gone = 0 := by
  have none_ : (m.entries.filter fun e => e.1 ∉ gone) = [] :=
    List.filter_eq_nil_iff.mpr fun e mem => by
      simpa using all e.1 (List.mem_map_of_mem mem)
  rw [weight, none_]
  rfl

/-! ### The operations -/

structure Store (κ α : Type) where
  byteBudget : Nat
  ttl : Nat
  entries : Entries κ α
  lru : List κ
  bytesUsed : Nat

def Store.empty (byteBudget ttl : Nat) : Store κ α := ⟨byteBudget, ttl, ∅, [], 0⟩

/-- Drop the oldest keys until the sizes fit; an empty queue ends the loop too. -/
def evict (byteBudget : Nat) : List κ → Entries κ α → Nat → List κ × Entries κ α × Nat
  | [], entries, bytesUsed => ([], entries, bytesUsed)
  | oldest :: lru, entries, bytesUsed =>
    if bytesUsed > byteBudget then
      match entries.lookup oldest with
      | some removed =>
        evict byteBudget lru (entries.erase oldest) (bytesUsed - removed.bytes.length)
      | none => evict byteBudget lru entries bytesUsed
    else (oldest :: lru, entries, bytesUsed)

/-- The queue and the counter once the payload now under `k` is taken out: a key that is stored
keeps its place, any other goes to the back. -/
def Store.replace (c : Store κ α) (k : κ) : List κ × Nat :=
  match c.entries.lookup k with
  | some prev => (c.lru, c.bytesUsed - prev.bytes.length)
  | none => (c.lru ++ [k], c.bytesUsed)

/-- Store a payload, and return the one it replaces. A payload above the budget is rejected. -/
def Store.insert (c : Store κ α) (now : Nat) (k : κ) (bytes : List α) :
    Option (List α) × Store κ α :=
  if bytes.length > c.byteBudget then (none, c)
  else
    let entries := c.entries.insert k ⟨bytes, now⟩
    let (lru, used) := c.replace k
    let (lru, entries, used) := evict c.byteBudget lru entries (used + bytes.length)
    ((c.entries.lookup k).map (·.bytes),
      { c with entries := entries, lru := lru, bytesUsed := used })

def Store.lookup (c : Store κ α) (now : Nat) (k : κ) : Option (List α) × Store κ α :=
  match c.entries.lookup k with
  | some entry =>
    if now - entry.insertedAt < c.ttl then (some entry.bytes, c)
    else (none, { c with
      entries := c.entries.erase k, bytesUsed := c.bytesUsed - entry.bytes.length })
  | none => (none, c)

def Store.remove (c : Store κ α) (k : κ) : Bool × Store κ α :=
  match c.entries.lookup k with
  | some entry =>
    (true, { c with entries := c.entries.erase k, bytesUsed := c.bytesUsed - entry.bytes.length })
  | none => (false, c)

/-! ### The invariant -/

/-- The counter is the size of what is stored, fits the budget, and every stored key is queued. -/
structure Store.Valid (c : Store κ α) : Prop where
  used : c.bytesUsed = weight c.entries []
  fits : c.bytesUsed ≤ c.byteBudget
  queued : ∀ k ∈ c.entries, k ∈ c.lru

theorem erase_of_lookup_none {m : Entries κ α} {k : κ} (absent : m.lookup k = none) :
    m.erase k = m :=
  AList.ext (List.kerase_of_notMem_keys (AList.lookup_eq_none.mp absent))

theorem evict_over {byteBudget : Nat} {oldest : κ} {lru : List κ} {entries : Entries κ α}
    {used : Nat} (counted : used = weight entries []) (above : used > byteBudget) :
    evict byteBudget (oldest :: lru) entries used =
      evict byteBudget lru (entries.erase oldest) (weight (entries.erase oldest) []) := by
  rw [evict, if_pos above]
  cases stored : entries.lookup oldest with
  | none => simp only [erase_of_lookup_none stored, counted]
  | some removed =>
    have rest : used - removed.bytes.length = weight (entries.erase oldest) [] := by
      rw [weight_erase, counted, weight_of_lookup_some stored (by simp)]
      omega
    simp only [rest]

/-- An eviction brings the sizes within the budget, keeps the queue complete, and spares an entry
exactly when what is not queued ahead of it fits. -/
theorem evict_spec {byteBudget : Nat} {lru : List κ} {entries : Entries κ α} {used : Nat}
    (counted : used = weight entries []) (queued : ∀ k ∈ entries, k ∈ lru)
    {lru' : List κ} {entries' : Entries κ α} {used' : Nat}
    (run : evict byteBudget lru entries used = (lru', entries', used')) :
    used' = weight entries' [] ∧ used' ≤ byteBudget ∧ (∀ k ∈ entries', k ∈ lru') ∧
      ∀ k, entries'.lookup k =
        if weight entries (lru.takeWhile (· ≠ k)) ≤ byteBudget then entries.lookup k else none := by
  induction lru generalizing entries used with
  | nil =>
    obtain ⟨rfl, rfl, rfl⟩ : [] = lru' ∧ entries = entries' ∧ used = used' := by
      simpa [evict] using run
    have nothing : weight entries [] = 0 := weight_eq_zero queued
    exact ⟨counted, by omega, queued, fun k => by simp [nothing]⟩
  | cons oldest lru ih =>
    by_cases above : used > byteBudget
    · rw [evict_over counted above] at run
      have left : ∀ k ∈ entries.erase oldest, k ∈ lru := by
        intro k mem
        obtain ⟨other, mem⟩ := AList.mem_erase.mp mem
        exact (List.mem_cons.mp (queued k mem)).resolve_left other
      obtain ⟨counted', fits, queued', spared⟩ := ih rfl left run
      refine ⟨counted', fits, queued', fun k => ?_⟩
      rw [spared k]
      by_cases same : oldest = k
      · have heavy : ¬ weight entries [] ≤ byteBudget := by omega
        simp [same, heavy]
      · rw [weight_erase, AList.lookup_erase_ne (Ne.symm same),
          List.takeWhile_cons_of_pos (by simpa using same)]
    · obtain ⟨rfl, rfl, rfl⟩ : oldest :: lru = lru' ∧ entries = entries' ∧ used = used' := by
        simpa [evict, above] using run
      refine ⟨counted, by omega, queued, fun k => ?_⟩
      have light : weight entries ((oldest :: lru).takeWhile (· ≠ k)) ≤ byteBudget :=
        Nat.le_trans (weight_le entries _) (by omega)
      rw [if_pos light]

theorem Store.valid_empty (byteBudget ttl : Nat) : (Store.empty byteBudget ttl : Store κ α).Valid :=
  ⟨rfl, Nat.zero_le _, fun _ mem => absurd mem (AList.notMem_empty _)⟩

/-- The entries that an insertion of `bytes` under `k` spares: with the places in the queue as they
are before it, the entries not queued ahead of `j` and the new payload fit the budget. -/
def Store.Spares (c : Store κ α) (k : κ) (bytes : List α) (j : κ) : Prop :=
  (if k ∈ c.lru.takeWhile (· ≠ j) then 0 else bytes.length)
    + weight c.entries (k :: c.lru.takeWhile (· ≠ j)) ≤ c.byteBudget

instance (c : Store κ α) (k : κ) (bytes : List α) (j : κ) : Decidable (c.Spares k bytes j) :=
  Nat.decLe ..

theorem takeWhile_append_queued {lru : List κ} {k j : κ} (h : j ∈ lru ∨ j = k) :
    (lru ++ [k]).takeWhile (· ≠ j) = lru.takeWhile (· ≠ j) := by
  induction lru with
  | nil =>
    obtain rfl : j = k := by simpa using h
    simp
  | cons i lru ih =>
    by_cases same : i = j
    · simp [same]
    · have rest := ih (h.imp_left fun mem => (List.mem_cons.mp mem).resolve_left (Ne.symm same))
      simpa [same] using rest

theorem Store.replace_spec {c : Store κ α} (valid : c.Valid) {k : κ} {lru : List κ} {used : Nat}
    (replaced : c.replace k = (lru, used)) (e : Entry α) :
    used + e.bytes.length = weight (c.entries.insert k e) [] ∧
      ∀ j ∈ c.entries.insert k e, j ∈ lru ∧ lru.takeWhile (· ≠ j) = c.lru.takeWhile (· ≠ j) := by
  rw [weight_insert]
  unfold Store.replace at replaced
  cases stored : c.entries.lookup k with
  | some prev =>
    obtain ⟨rfl, rfl⟩ : c.lru = lru ∧ c.bytesUsed - prev.bytes.length = used := by
      simpa [stored] using replaced
    refine ⟨?_, fun j inserted => ⟨?_, rfl⟩⟩
    · rw [valid.used, weight_of_lookup_some stored (by simp)]
      simp
      omega
    · obtain rfl | old := (AList.mem_insert _).mp inserted
      · exact valid.queued _ (AList.lookup_isSome.mp (by simp [stored]))
      · exact valid.queued _ old
  | none =>
    obtain ⟨rfl, rfl⟩ : c.lru ++ [k] = lru ∧ c.bytesUsed = used := by
      simpa [stored] using replaced
    refine ⟨?_, fun j inserted => ?_⟩
    · rw [valid.used, weight_of_lookup_none stored]
      simp
      omega
    · have place : j ∈ c.lru ∨ j = k :=
        ((AList.mem_insert _).mp inserted).symm.imp_left (valid.queued j)
      exact ⟨by simpa using place, takeWhile_append_queued place⟩

/-- What an accepted insertion does: the cache stays valid, and the entries it spares are kept. -/
theorem Store.insert_spec {c : Store κ α} (valid : c.Valid) {bytes : List α}
    (fits : bytes.length ≤ c.byteBudget) (now : Nat) (k : κ) :
    (c.insert now k bytes).2.Valid ∧
      (c.insert now k bytes).2.byteBudget = c.byteBudget ∧ (c.insert now k bytes).2.ttl = c.ttl ∧
      ∀ j, (c.insert now k bytes).2.entries.lookup j =
        if c.Spares k bytes j then (c.entries.insert k ⟨bytes, now⟩).lookup j else none := by
  obtain ⟨lru, used, replaced⟩ : ∃ lru used, c.replace k = (lru, used) := ⟨_, _, rfl⟩
  obtain ⟨counted, places⟩ := Store.replace_spec valid replaced ⟨bytes, now⟩
  obtain ⟨lru', entries', used', run⟩ : ∃ lru' entries' used', evict c.byteBudget lru
      (c.entries.insert k ⟨bytes, now⟩) (used + bytes.length) = (lru', entries', used') :=
    ⟨_, _, _, rfl⟩
  have result : (c.insert now k bytes).2
      = { c with entries := entries', lru := lru', bytesUsed := used' } := by
    simp only [Store.insert, if_neg (Nat.not_lt.mpr fits), replaced, run]
  obtain ⟨counted', fits', queued', spared⟩ :=
    evict_spec counted (fun j inserted => (places j inserted).1) run
  rw [result]
  refine ⟨⟨counted', fits', queued'⟩, rfl, rfl, fun j => ?_⟩
  rw [spared j]
  by_cases inserted : j ∈ c.entries.insert k ⟨bytes, now⟩
  · rw [(places j inserted).2, weight_insert]
    rfl
  · simp [AList.lookup_eq_none.mpr inserted]

theorem Store.insert_rejected {c : Store κ α} {bytes : List α} (large : bytes.length > c.byteBudget)
    (now : Nat) (k : κ) : c.insert now k bytes = (none, c) := if_pos large

/-- The cache without the entry under `k`. -/
def Store.without (c : Store κ α) (k : κ) : Store κ α :=
  { c with
    entries := c.entries.erase k
    bytesUsed := c.bytesUsed - ((c.entries.lookup k).elim 0 fun e => e.bytes.length) }

theorem Store.valid_without {c : Store κ α} (valid : c.Valid) (k : κ) : (c.without k).Valid where
  used := by
    simp only [Store.without]
    rw [weight_erase, valid.used]
    cases stored : c.entries.lookup k with
    | none => simp [weight_of_lookup_none stored]
    | some e =>
      rw [weight_of_lookup_some stored (by simp)]
      simp
  fits := Nat.le_trans (Nat.sub_le ..) valid.fits
  queued j mem := valid.queued j (AList.mem_erase.mp mem).2

theorem Store.remove_eq (c : Store κ α) (k : κ) :
    (c.remove k).2 = if (c.entries.lookup k).isSome then c.without k else c := by
  unfold Store.remove Store.without
  cases c.entries.lookup k <;> rfl

theorem Store.lookup_eq (c : Store κ α) (now : Nat) (k : κ) :
    (c.lookup now k).2 = c ∨ (c.lookup now k).2 = c.without k := by
  unfold Store.lookup
  cases stored : c.entries.lookup k with
  | none => exact .inl rfl
  | some e =>
    by_cases fresh : now - e.insertedAt < c.ttl
    · exact .inl (by simp [fresh])
    · exact .inr (by simp [fresh, Store.without, stored])

/-! ### Caches that keep the invariant -/

structure Cache (κ α : Type) [DecidableEq κ] extends Store κ α where
  valid : toStore.Valid

namespace Cache

def empty (byteBudget ttl : Nat) : Cache κ α := ⟨Store.empty byteBudget ttl, Store.valid_empty ..⟩

theorem valid_insert (c : Cache κ α) (now : Nat) (k : κ) (bytes : List α) :
    (c.toStore.insert now k bytes).2.Valid := by
  by_cases fits : bytes.length ≤ c.byteBudget
  · exact (Store.insert_spec c.valid fits now k).1
  · rw [Store.insert_rejected (Nat.lt_of_not_le fits)]
    exact c.valid

theorem valid_lookup (c : Cache κ α) (now : Nat) (k : κ) : (c.toStore.lookup now k).2.Valid := by
  obtain same | without := c.toStore.lookup_eq now k
  · rw [same]
    exact c.valid
  · rw [without]
    exact Store.valid_without c.valid k

theorem valid_remove (c : Cache κ α) (k : κ) : (c.toStore.remove k).2.Valid := by
  rw [Store.remove_eq]
  split_ifs
  · exact Store.valid_without c.valid k
  · exact c.valid

def insert (c : Cache κ α) (now : Nat) (k : κ) (bytes : List α) : Option (List α) × Cache κ α :=
  ((c.toStore.insert now k bytes).1, ⟨_, c.valid_insert now k bytes⟩)

def lookup (c : Cache κ α) (now : Nat) (k : κ) : Option (List α) × Cache κ α :=
  ((c.toStore.lookup now k).1, ⟨_, c.valid_lookup now k⟩)

def remove (c : Cache κ α) (k : κ) : Bool × Cache κ α :=
  ((c.toStore.remove k).1, ⟨_, c.valid_remove k⟩)

theorem insert_rejected (c : Cache κ α) {bytes : List α} (large : bytes.length > c.byteBudget)
    (now : Nat) (k : κ) : (c.insert now k bytes).2 = c := by
  simp [Cache.insert, Store.insert_rejected large]

inductive Op (κ α : Type) where
  | insert (now : Nat) (k : κ) (bytes : List α)
  | lookup (now : Nat) (k : κ)
  | remove (k : κ)

def apply (c : Cache κ α) : Op κ α → Cache κ α
  | .insert now k bytes => (c.insert now k bytes).2
  | .lookup now k => (c.lookup now k).2
  | .remove k => (c.remove k).2

def run (c : Cache κ α) (ops : List (Op κ α)) : Cache κ α := ops.foldl apply c

theorem limits_apply (c : Cache κ α) (op : Op κ α) :
    (c.apply op).byteBudget = c.byteBudget ∧ (c.apply op).ttl = c.ttl := by
  cases op with
  | insert now k bytes =>
    by_cases fits : bytes.length ≤ c.byteBudget
    · obtain ⟨-, budget, ttl, -⟩ := Store.insert_spec c.valid fits now k
      exact ⟨budget, ttl⟩
    · simp [apply, c.insert_rejected (Nat.lt_of_not_le fits)]
  | lookup now k =>
    obtain same | without := c.toStore.lookup_eq now k
    · simp [apply, Cache.lookup, same]
    · simp [apply, Cache.lookup, without, Store.without]
  | remove k =>
    simp only [apply, Cache.remove, Store.remove_eq]
    split_ifs <;> exact ⟨rfl, rfl⟩

theorem limits_run (c : Cache κ α) (ops : List (Op κ α)) :
    (c.run ops).byteBudget = c.byteBudget ∧ (c.run ops).ttl = c.ttl := by
  induction ops generalizing c with
  | nil => exact ⟨rfl, rfl⟩
  | cons op ops ih =>
    obtain ⟨budget, ttl⟩ := ih (c.apply op)
    obtain ⟨budget', ttl'⟩ := c.limits_apply op
    exact ⟨budget.trans budget', ttl.trans ttl'⟩

/-- A lookup right after an insertion finds the payload exactly when the insertion spares it. -/
theorem lookup_insert_iff (c : Cache κ α) {bytes : List α} (fits : bytes.length ≤ c.byteBudget)
    {now later : Nat} (fresh : later - now < c.ttl) (k : κ) :
    ((c.insert now k bytes).2.lookup later k).1 = some bytes ↔ c.Spares k bytes k := by
  obtain ⟨-, -, ttl, kept⟩ := Store.insert_spec c.valid fits now k
  have stored := kept k
  rw [AList.lookup_insert] at stored
  by_cases spared : c.Spares k bytes k
  · rw [if_pos spared] at stored
    simp [Cache.lookup, Cache.insert, Store.lookup, stored, ttl, fresh, spared]
  · rw [if_neg spared] at stored
    simp [Cache.lookup, Cache.insert, Store.lookup, stored, spared]

/-- An insertion for which there is room spares everything. -/
theorem spares_of_room (c : Cache κ α) {bytes : List α}
    (room : c.bytesUsed + bytes.length ≤ c.byteBudget) (k j : κ) : c.Spares k bytes j := by
  have light : weight c.entries (k :: c.lru.takeWhile (· ≠ j)) ≤ c.bytesUsed :=
    (weight_le ..).trans_eq c.valid.used.symm
  unfold Store.Spares
  split_ifs <;> omega

end Cache

end BudgetCache
