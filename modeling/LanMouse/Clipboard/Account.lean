import LanMouse.Clipboard.Cache
import LanMouse.Lib.CacheAccount
import LanMouse.Lib.Transition

/-!
# The account of the clipboard cache and of the file cache

Both caches count the bytes they hold and queue their keys for eviction. The count is exact after
any sequence of operations, and no operation faults.

The queue is only shortened by evictions. A payload that is removed, or that a lookup finds expired,
leaves its place behind, so a cache whose payloads are superseded one after another holds one place
for each of them.
-/
namespace LanMouse.Clipboard

open BudgetCache Proto Transition

/-- What a cache reached by some operations has in order. -/
structure Accounted (byteBudget ttl : Nat) (ops : List (Cache.Op Hash UInt8))
    (c : Cache Hash UInt8) : Prop where
  used : c.bytesUsed = (c.entries.entries.map fun e => e.2.bytes.length).sum
  fits : c.bytesUsed ≤ byteBudget
  queued : ∀ sha256 ∈ c.entries, sha256 ∈ c.lru
  faultless : (Store.empty byteBudget ttl).runChecked ops = .ok c.toStore

theorem accounted_run (byteBudget ttl : Nat) (ops : List (Cache.Op Hash UInt8)) :
    Accounted byteBudget ttl ops (Cache.run (Cache.empty byteBudget ttl) ops) where
  used := by
    rw [(Cache.run (Cache.empty byteBudget ttl) ops).valid.used, weight]
    simp
  fits := by
    have fits := (Cache.run (Cache.empty byteBudget ttl) ops).valid.fits
    rw [(Cache.limits_run (Cache.empty byteBudget ttl) ops).1] at fits
    exact fits
  queued := (Cache.run (Cache.empty byteBudget ttl) ops).valid.queued
  faultless := Cache.runChecked_eq (Cache.empty byteBudget ttl) ops

/-- After any operations both caches have counted their bytes right, are within their budget and
queue all they hold, and no subtraction has wrapped on the way. -/
theorem caches_accounted (byteBudget ttl : Nat) (ops : List (Cache.Op Hash UInt8))
    (fileOps : List FileCache.Op) :
    Accounted byteBudget ttl ops (ClipboardCache.after byteBudget ttl ops) ∧
      Accounted byteBudget ttl (fileOps.map FileCache.Op.toCache)
        (FileCache.after byteBudget ttl fileOps) := by
  rw [FileCache.after_eq]
  exact ⟨accounted_run byteBudget ttl ops, accounted_run byteBudget ttl _⟩

/-! ### The length of the queue -/

/-- The queue is not longer than the entries are many. -/
def Short (c : Cache Hash UInt8) : Prop := c.lru.length ≤ c.entries.keys.length

theorem short_iff_inSync (c : Cache Hash UInt8) : Short c ↔ c.InSync := c.valid.inSync_iff.symm

/-- The queues never get longer than the entries are many exactly when no lookup meets an expired
payload and none that is there is removed. -/
theorem queue_short_iff (byteBudget ttl : Nat) (ops : List (Cache.Op Hash UInt8))
    (fileOps : List FileCache.Op) :
    (Always Cache.apply Short (ClipboardCache.withByteBudgetAndTtl byteBudget ttl) ops ↔
      AllMeet Cache.apply (fun c op => op.Keeps c)
        (ClipboardCache.withByteBudgetAndTtl byteBudget ttl) ops) ∧
    (Always FileCache.apply Short (FileCache.withByteBudgetAndTtl byteBudget ttl) fileOps ↔
      AllMeet FileCache.apply (fun c op => op.toCache.Keeps c)
        (FileCache.withByteBudgetAndTtl byteBudget ttl) fileOps) := by
  have start : (Cache.empty byteBudget ttl : Cache Hash UInt8).InSync := List.Perm.refl _
  have step (c : Cache Hash UInt8) (op : Cache.Op Hash UInt8) (sync : c.InSync) :
      Short (Cache.apply c op) ↔ op.Keeps c := by
    rw [short_iff_inSync]
    exact Cache.inSync_apply_iff sync op
  constructor
  · exact always_iff_allMeet (fun c => c.InSync)
      (fun c op sync keeps => (Cache.inSync_apply_iff sync op).mpr keeps)
      (fun c => (short_iff_inSync c).mpr) (fun c op sync => (step c op sync).mp) start ops
  · refine always_iff_allMeet (fun c => c.InSync) (fun c op sync keeps => ?_)
      (fun c => (short_iff_inSync c).mpr) (fun c op sync short => ?_) start fileOps
    · rw [FileCache.apply_eq]
      exact (Cache.inSync_apply_iff sync op.toCache).mpr keeps
    · rw [FileCache.apply_eq] at short
      exact (step c op.toCache sync).mp short

/-- A payload is announced and then superseded, `n` times. -/
def rounds (n : Nat) (sha256 : Hash) (bytes : List UInt8) : List (Cache.Op Hash UInt8) :=
  (List.replicate n [.insert 0 sha256 bytes, .remove sha256]).flatten

/-- One round leaves a place in the queue and nothing else. -/
theorem lru_round {c : Cache Hash UInt8} (empty : c.entries = ∅) (sha256 : Hash)
    (bytes : List UInt8) (fits : bytes.length ≤ c.byteBudget) :
    let c' := Cache.run c [.insert 0 sha256 bytes, .remove sha256]
    c'.lru = c.lru ++ [sha256] ∧ c'.entries = ∅ := by
  have used : c.bytesUsed = 0 := by
    rw [c.valid.used, empty]
    rfl
  have absent : c.entries.lookup sha256 = none := by rw [empty]; rfl
  have inserted : (c.toStore.insert 0 sha256 bytes).2 =
      { c.toStore with
        entries := c.entries.insert sha256 ⟨bytes, 0⟩
        lru := c.lru ++ [sha256]
        bytesUsed := bytes.length } := by
    simp only [Store.insert, if_neg (Nat.not_lt.mpr fits), Store.replace, absent, used,
      Nat.zero_add, evict_of_le fits]
  have removed : (Cache.run c [.insert 0 sha256 bytes, .remove sha256]).toStore =
      ((c.toStore.insert 0 sha256 bytes).2.remove sha256).2 := rfl
  rw [inserted, Store.remove_eq] at removed
  simp only [AList.lookup_insert, Option.isSome_some, if_true, Store.without] at removed
  refine ⟨congrArg (·.lru) removed, (congrArg (·.entries) removed).trans ?_⟩
  rw [empty]
  refine AList.ext ?_
  rw [entries_erase, AList.entries_insert]
  exact List.kerase_cons_eq rfl

/-- Nothing is stored, and the queue is as long as the copies were many. -/
theorem lru_rounds (byteBudget ttl : Nat) (sha256 : Hash) (bytes : List UInt8)
    (fits : bytes.length ≤ byteBudget) (n : Nat) :
    (ClipboardCache.after byteBudget ttl (rounds n sha256 bytes)).lru = List.replicate n sha256 ∧
      (ClipboardCache.after byteBudget ttl (rounds n sha256 bytes)).entries = ∅ := by
  induction n with
  | zero => exact ⟨rfl, rfl⟩
  | succ n ih =>
    have split : rounds (n + 1) sha256 bytes =
        rounds n sha256 bytes ++ [.insert 0 sha256 bytes, .remove sha256] := by
      simp [rounds, List.replicate_succ']
    have budget := (Cache.limits_run (Cache.empty byteBudget ttl) (rounds n sha256 bytes)).1
    have last := lru_round ih.2 sha256 bytes (budget ▸ fits)
    rw [ClipboardCache.after, Cache.run, split, List.foldl_append]
    rw [ih.1] at last
    exact ⟨last.1.trans List.replicate_succ'.symm, last.2⟩

theorem not_short_rounds (byteBudget ttl : Nat) (sha256 : Hash) (bytes : List UInt8)
    (fits : bytes.length ≤ byteBudget) {n : Nat} (some_ : 0 < n) :
    (ClipboardCache.after byteBudget ttl (rounds n sha256 bytes)).lru.length = n ∧
      (ClipboardCache.after byteBudget ttl (rounds n sha256 bytes)).entries.keys.length = 0 ∧
      ¬ Short (ClipboardCache.after byteBudget ttl (rounds n sha256 bytes)) := by
  obtain ⟨lru, entries⟩ := lru_rounds byteBudget ttl sha256 bytes fits n
  rw [Short, lru, entries, List.length_replicate]
  exact ⟨rfl, rfl, Nat.not_le.mpr some_⟩

/-- A thousand copies of one text, each superseded by the next. -/
theorem queue_outgrows_entries :
    let sha256 : Hash := Vector.replicate 32 1
    let cache := ClipboardCache.after clipboardCacheByteBudget clipboardCacheTtl
      (rounds 1000 sha256 [7])
    cache.lru.length = 1000 ∧ cache.entries.keys.length = 0 ∧ ¬ Short cache :=
  not_short_rounds _ _ _ [7] (by decide) (by decide)

end LanMouse.Clipboard
