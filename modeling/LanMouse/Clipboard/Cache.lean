import LanMouse.Lib.BudgetCache
import LanMouse.Proto.Event

/-!
# The clipboard cache and the file cache

The payloads a peer can fetch after a metadata-only announcement, by their SHA-256. Both caches are
the same code with different budgets. Instants and durations are in nanoseconds.
-/
namespace LanMouse.Clipboard

open BudgetCache Proto

def seconds (n : Nat) : Nat := n * 1000000000

def clipboardCacheByteBudget : Nat := 200 * 1024 * 1024

def clipboardCacheTtl : Nat := seconds (5 * 60)

def fileCacheByteBudget : Nat := 1024 * 1024 * 1024

def fileCacheTtl : Nat := seconds (5 * 60)

abbrev ClipboardCache := Cache Hash UInt8

namespace ClipboardCache

def withByteBudgetAndTtl (byteBudget ttl : Nat) : ClipboardCache := Cache.empty byteBudget ttl

def new : ClipboardCache := withByteBudgetAndTtl clipboardCacheByteBudget clipboardCacheTtl

def insert (c : ClipboardCache) (now : Nat) (sha256 : Hash) (bytes : List UInt8) :
    Option (List UInt8) × ClipboardCache := Cache.insert c now sha256 bytes

def lookup (c : ClipboardCache) (now : Nat) (sha256 : Hash) :
    Option (List UInt8) × ClipboardCache := Cache.lookup c now sha256

def remove (c : ClipboardCache) (sha256 : Hash) : Bool × ClipboardCache := Cache.remove c sha256

/-- Any sequence of operations on a new cache. -/
def after (byteBudget ttl : Nat) (ops : List (Cache.Op Hash UInt8)) : ClipboardCache :=
  Cache.run (withByteBudgetAndTtl byteBudget ttl) ops

/-- The payload and the stored entries that are not queued ahead of the first place of `sha256` fit
the budget together. -/
def RoomFor (c : ClipboardCache) (sha256 : Hash) (bytes : List UInt8) : Prop :=
  bytes.length + weight c.entries (sha256 :: c.lru.takeWhile (· ≠ sha256)) ≤ c.byteBudget

instance (c : ClipboardCache) (sha256 : Hash) (bytes : List UInt8) :
    Decidable (RoomFor c sha256 bytes) := Nat.decLe ..

theorem roomFor_iff_spares (c : ClipboardCache) (sha256 : Hash) (bytes : List UInt8) :
    RoomFor c sha256 bytes ↔ c.Spares sha256 bytes sha256 := by
  have self : sha256 ∉ c.lru.takeWhile (· ≠ sha256) := fun mem => by
    simpa using List.mem_takeWhile_imp mem
  simp only [RoomFor, Store.Spares, self, if_false]

/-- Directly after an insertion, a lookup within the TTL returns the payload exactly when there is
room for it at the place its key has in the queue. -/
theorem lookup_after_insert_iff (byteBudget ttl : Nat) (ops : List (Cache.Op Hash UInt8))
    (sha256 : Hash) (bytes : List UInt8) (now later : Nat) (fits : bytes.length ≤ byteBudget)
    (fresh : later - now < ttl) :
    (((after byteBudget ttl ops).insert now sha256 bytes).2.lookup later sha256).1 = some bytes ↔
      RoomFor (after byteBudget ttl ops) sha256 bytes := by
  obtain ⟨budget, life⟩ := Cache.limits_run (withByteBudgetAndTtl byteBudget ttl) ops
  rw [roomFor_iff_spares]
  exact Cache.lookup_insert_iff _ (by rw [after, budget]; exact fits)
    (by rw [after, life]; exact fresh) _

/-- The insertion evicts the older payload. -/
theorem lookup_after_insert_evicting :
    let a : Hash := Vector.replicate 32 1
    let b : Hash := Vector.replicate 32 2
    let ops : List (Cache.Op Hash UInt8) := [.insert 0 a [1, 2, 3, 4, 5, 6]]
    let cache := ((after 10 5 ops).insert 1 b [1, 2, 3, 4, 5]).2
    (cache.lookup 3 b).1 = some [1, 2, 3, 4, 5] ∧ (cache.lookup 3 a).1 = none := by
  intro a b ops cache
  have room : RoomFor (after 10 5 ops) b [1, 2, 3, 4, 5] := by decide
  exact ⟨(lookup_after_insert_iff 10 5 ops b [1, 2, 3, 4, 5] 1 3 (by decide) (by decide)).mpr room,
    by decide⟩

/-- A removed payload leaves its place in the queue. Inserted again behind another payload, it is
evicted at that old place by its own insertion. -/
theorem lookup_after_insert_evicted :
    let a : Hash := Vector.replicate 32 1
    let b : Hash := Vector.replicate 32 2
    let cache := after 10 5
      [.insert 0 a [1, 2, 3, 4, 5, 6], .remove a, .insert 1 b [1, 2, 3, 4, 5]]
    ((cache.insert 2 a [1, 2, 3, 4, 5, 6]).2.lookup 2 a).1 = none := by
  decide

end ClipboardCache

abbrev FileCache := Cache Hash UInt8

namespace FileCache

def withByteBudgetAndTtl (byteBudget ttl : Nat) : FileCache := Cache.empty byteBudget ttl

def new : FileCache := withByteBudgetAndTtl fileCacheByteBudget fileCacheTtl

def insertOwned (c : FileCache) (now : Nat) (sha256 : Hash) (bytes : List UInt8) : FileCache :=
  (Cache.insert c now sha256 bytes).2

def insertReturningPrev (c : FileCache) (now : Nat) (sha256 : Hash) (bytes : List UInt8) :
    Option (List UInt8) × FileCache := Cache.insert c now sha256 bytes

def lookup (c : FileCache) (now : Nat) (sha256 : Hash) : Option (List UInt8) × FileCache :=
  Cache.lookup c now sha256

def remove (c : FileCache) (sha256 : Hash) : Bool × FileCache := Cache.remove c sha256

inductive Op where
  | insertOwned (now : Nat) (sha256 : Hash) (bytes : List UInt8)
  | insertReturningPrev (now : Nat) (sha256 : Hash) (bytes : List UInt8)
  | lookup (now : Nat) (sha256 : Hash)
  | remove (sha256 : Hash)

def apply (c : FileCache) : Op → FileCache
  | .insertOwned now sha256 bytes => insertOwned c now sha256 bytes
  | .insertReturningPrev now sha256 bytes => (insertReturningPrev c now sha256 bytes).2
  | .lookup now sha256 => (lookup c now sha256).2
  | .remove sha256 => (remove c sha256).2

/-- Any sequence of operations on a new cache. -/
def after (byteBudget ttl : Nat) (ops : List Op) : FileCache :=
  ops.foldl apply (withByteBudgetAndTtl byteBudget ttl)

def Op.toCache : Op → Cache.Op Hash UInt8
  | insertOwned now sha256 bytes | insertReturningPrev now sha256 bytes =>
    .insert now sha256 bytes
  | lookup now sha256 => .lookup now sha256
  | remove sha256 => .remove sha256

theorem apply_eq (c : FileCache) (op : Op) : apply c op = Cache.apply c op.toCache := by
  cases op <;> rfl

theorem after_eq (byteBudget ttl : Nat) (ops : List Op) :
    after byteBudget ttl ops =
      Cache.run (withByteBudgetAndTtl byteBudget ttl) (ops.map Op.toCache) := by
  rw [after, Cache.run, List.foldl_map]
  exact congrArg (List.foldl · _ ops) (funext fun c => funext (apply_eq c))

end FileCache

end LanMouse.Clipboard
