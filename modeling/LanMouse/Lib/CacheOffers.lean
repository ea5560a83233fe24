import LanMouse.Lib.BudgetCache

/-!
# Payloads offered from a cache

An offer names a key and the bytes that are meant to be found under it. A ledger of offers is kept
beside the cache: an offer is stored when its bytes are inserted and stay, withdrawn when its key is
removed, and dropped when an insertion does not spare it or gives its key other bytes. Whether an
insertion spares an entry is told by the sizes and the queue before it, not by looking at the cache
afterwards.

`Offer.Kept` is what the ledger promises for one offer, `Backed` for all of them. Every operation of
the cache keeps it, and `Backed.serves` cashes it in: an offer that is stored and not older than the
time to live is found. `Offer.Placed` says that none is lost: each is stored, withdrawn or still
waited for; an insertion that has room stores what was waited for under its key.
-/
namespace BudgetCache

variable {κ α : Type}

inductive Status where
  | announced
  | stored (since : Nat)
  | withdrawn
  | dropped
  deriving DecidableEq, Repr

def Status.drop : Status → Status
  | .stored _ => .dropped
  | status => status

structure Offer (κ α : Type) where
  key : κ
  bytes : List α
  status : Status := .announced
  deriving DecidableEq, Repr

namespace Offer

def drop (o : Offer κ α) : Offer κ α := { o with status := o.status.drop }

/-- The offer is in the cache, was taken back, or its key is one of those waited for. -/
def Placed (waited : List κ) (o : Offer κ α) : Prop :=
  match o.status with
  | .announced => o.key ∈ waited
  | .stored _ | .withdrawn => True
  | .dropped => False

theorem Placed.mono {o : Offer κ α} {waited waited' : List κ} (placed : o.Placed waited)
    (more : waited ⊆ waited') : o.Placed waited' := by
  unfold Placed at *
  cases status : o.status <;> simp only [status] at placed ⊢
  exact more placed

variable [DecidableEq κ]

/-- The offer after `bytes` were inserted under `k`. -/
def afterInsert [DecidableEq α] (c : Cache κ α) (now : Nat) (k : κ) (bytes : List α)
    (o : Offer κ α) : Offer κ α :=
  if bytes.length > c.byteBudget then o
  else if o.key = k then
    { o with status := if o.bytes = bytes ∧ c.Spares k bytes k then .stored now else .dropped }
  else if c.Spares k bytes o.key then o else o.drop

def afterRemove (k : κ) (o : Offer κ α) : Offer κ α :=
  if o.key = k then { o with status := .withdrawn } else o

@[simp]
theorem key_afterInsert [DecidableEq α] (c : Cache κ α) (now : Nat) (k : κ) (bytes : List α)
    (o : Offer κ α) : (o.afterInsert c now k bytes).key = o.key := by
  unfold afterInsert
  split_ifs <;> rfl

theorem bytes_afterInsert [DecidableEq α] (c : Cache κ α) (now : Nat) (k : κ) (bytes : List α)
    (o : Offer κ α) : (o.afterInsert c now k bytes).bytes = o.bytes := by
  unfold afterInsert
  split_ifs <;> rfl

@[simp]
theorem key_afterRemove (k : κ) (o : Offer κ α) : (o.afterRemove k).key = o.key := by
  unfold afterRemove
  split_ifs <;> rfl

/-- A stored offer is in the cache, unless it is too old. -/
def Kept (c : Cache κ α) (now : Nat) (o : Offer κ α) : Prop :=
  ∀ since, o.status = .stored since →
    c.ttl ≤ now - since ∨ c.entries.lookup o.key = some ⟨o.bytes, since⟩

variable {c : Cache κ α} {now : Nat} {o : Offer κ α}

theorem kept_of_announced (announced : o.status = .announced) : o.Kept c now := by
  intro since stored
  rw [announced] at stored
  cases stored

theorem kept_drop (c : Cache κ α) (now : Nat) (o : Offer κ α) : o.drop.Kept c now := by
  intro since stored
  obtain ⟨key, bytes, status⟩ := o
  cases status <;> cases stored

/-- A stored offer is found until its time is over. -/
theorem kept_lookup (kept : o.Kept c now) {since later : Nat} (stored : o.status = .stored since)
    (after : now ≤ later) (fresh : later - since < c.ttl) :
    (c.lookup later o.key).1 = some o.bytes := by
  obtain old | found := kept since stored
  · omega
  · simp [Cache.lookup, Store.lookup, found, fresh]

theorem Kept.mono (kept : o.Kept c now) {later : Nat} (after : now ≤ later) : o.Kept c later := by
  intro since stored
  obtain old | found := kept since stored
  · exact .inl (by omega)
  · exact .inr found

theorem Kept.congr {c' : Cache κ α} (kept : o.Kept c now) (ttl : c'.ttl = c.ttl)
    (entry : c'.entries.lookup o.key = c.entries.lookup o.key) : o.Kept c' now := by
  intro since stored
  rw [ttl, entry]
  exact kept since stored

theorem Kept.afterInsert [DecidableEq α] (kept : o.Kept c now) (k : κ) (bytes : List α) :
    (o.afterInsert c now k bytes).Kept (c.insert now k bytes).2 now := by
  unfold Offer.afterInsert
  by_cases large : bytes.length > c.byteBudget
  · rw [if_pos large, c.insert_rejected large]
    exact kept
  · rw [if_neg large]
    obtain ⟨-, -, ttl, lookup⟩ := Store.insert_spec c.valid (Nat.le_of_not_lt large) now k
    by_cases own : o.key = k
    · rw [if_pos own]
      intro since stored
      by_cases stays : o.bytes = bytes ∧ c.Spares k bytes k
      · obtain rfl : now = since := by simpa [stays] using stored
        refine .inr ((lookup o.key).trans ?_)
        rw [own, if_pos stays.2, AList.lookup_insert, stays.1]
      · simp [stays] at stored
    · rw [if_neg own]
      by_cases spared : c.Spares k bytes o.key
      · rw [if_pos spared]
        intro since stored
        obtain old | found := kept since stored
        · exact .inl (ttl ▸ old)
        · refine .inr ((lookup o.key).trans ?_)
          rw [if_pos spared, AList.lookup_insert_ne own, found]
      · rw [if_neg spared]
        exact kept_drop _ _ _

theorem Kept.afterRemove (kept : o.Kept c now) (k : κ) :
    (o.afterRemove k).Kept (c.remove k).2 now := by
  unfold Offer.afterRemove
  by_cases own : o.key = k
  · rw [if_pos own]
    exact nofun
  · rw [if_neg own]
    refine kept.congr (c.limits_apply (.remove k)).2 ?_
    simp only [Cache.remove, Store.remove]
    split
    · exact AList.lookup_erase_ne own
    · rfl

/-- Looking something up does not harm an offer: what it drops is too old. -/
theorem Kept.lookup (kept : o.Kept c now) (k : κ) : o.Kept (c.lookup now k).2 now := by
  have ttl := (c.limits_apply (.lookup now k)).2
  by_cases own : o.key = k
  · subst own
    intro since stored
    obtain old | found := kept since stored
    · exact .inl (ttl.le.trans old)
    · by_cases fresh : now - since < c.ttl
      · refine .inr ?_
        simp [Cache.lookup, Store.lookup, found, fresh]
      · exact .inl (ttl.le.trans (Nat.le_of_not_lt fresh))
  · refine kept.congr ttl ?_
    simp only [Cache.lookup, Store.lookup]
    split
    · split
      · rfl
      · exact AList.lookup_erase_ne own
    · rfl

variable {waited : List κ}

theorem Placed.afterRemove (placed : o.Placed waited) (k : κ) :
    (o.afterRemove k).Placed waited := by
  unfold Offer.afterRemove
  split_ifs
  · trivial
  · exact placed

/-- Where there is room for the payload, all offers that wait for it are stored, and the others are
left as they are. -/
theorem Placed.afterInsert [DecidableEq α] {k : κ} (placed : o.Placed (k :: waited))
    {bytes : List α} (room : c.bytesUsed + bytes.length ≤ c.byteBudget)
    (agrees : o.key = k → o.bytes = bytes) : (o.afterInsert c now k bytes).Placed waited := by
  have spared := c.spares_of_room room k
  unfold Offer.afterInsert
  rw [if_neg (by omega)]
  by_cases own : o.key = k
  · simp only [own, agrees own, spared, Placed, and_self, if_true]
  · rw [if_neg own, if_pos (spared _)]
    unfold Placed at *
    cases status : o.status <;> simp only [status] at placed ⊢
    exact (List.mem_cons.mp placed).resolve_left own

end Offer

/-! ### Ledgers -/

variable [DecidableEq κ]

/-- The cache has the time to live `ttl` and keeps every offer of the ledger. -/
structure Backed (ttl : Nat) (c : Cache κ α) (now : Nat) (offers : List (Offer κ α)) : Prop where
  life : c.ttl = ttl
  kept : ∀ o ∈ offers, o.Kept c now

/-- The ledger after `keys` were removed, one after another. -/
def withdraw (keys : List κ) (offers : List (Offer κ α)) : List (Offer κ α) :=
  keys.foldl (fun offers k => offers.map (Offer.afterRemove k)) offers

@[simp]
theorem keys_withdraw (keys : List κ) (offers : List (Offer κ α)) :
    (withdraw keys offers).map (·.key) = offers.map (·.key) := by
  induction keys generalizing offers with
  | nil => rfl
  | cons k keys ih =>
    refine (ih _).trans ?_
    simp [Function.comp_def]

theorem forall_withdraw (good : Offer κ α → Prop) {offers : List (Offer κ α)}
    (kept : ∀ o k, good o → good (o.afterRemove k)) (all : ∀ o ∈ offers, good o) (keys : List κ) :
    ∀ o ∈ withdraw keys offers, good o := by
  induction keys generalizing offers with
  | nil => exact all
  | cons k keys ih =>
    exact ih (List.forall_mem_map.mpr fun o mem => kept o k (all o mem))

namespace Backed

variable {ttl : Nat} {c : Cache κ α} {now : Nat} {offers : List (Offer κ α)}

theorem empty (byteBudget ttl now : Nat) :
    Backed ttl (Cache.empty byteBudget ttl : Cache κ α) now [] where
  life := rfl
  kept _ mem := by cases mem

theorem mono (backed : Backed ttl c now offers) {later : Nat} (after : now ≤ later) :
    Backed ttl c later offers where
  life := backed.life
  kept o mem := (backed.kept o mem).mono after

theorem announce (backed : Backed ttl c now offers) {fresh : List (Offer κ α)}
    (announced : ∀ o ∈ fresh, o.status = .announced) : Backed ttl c now (offers ++ fresh) where
  life := backed.life
  kept o mem := by
    obtain old | new := List.mem_append.mp mem
    · exact backed.kept o old
    · exact Offer.kept_of_announced (announced o new)

theorem insert [DecidableEq α] (backed : Backed ttl c now offers) (k : κ) (bytes : List α) :
    Backed ttl (c.insert now k bytes).2 now (offers.map (Offer.afterInsert c now k bytes)) where
  life := (c.limits_apply (.insert now k bytes)).2.trans backed.life
  kept o mem := by
    obtain ⟨o, old, rfl⟩ := List.mem_map.mp mem
    exact (backed.kept o old).afterInsert k bytes

theorem remove (backed : Backed ttl c now offers) (k : κ) :
    Backed ttl (c.remove k).2 now (offers.map (Offer.afterRemove k)) where
  life := (c.limits_apply (.remove k)).2.trans backed.life
  kept o mem := by
    obtain ⟨o, old, rfl⟩ := List.mem_map.mp mem
    exact (backed.kept o old).afterRemove k

theorem withdraw (backed : Backed ttl c now offers) (keys : List κ) :
    Backed ttl (keys.foldl (fun c k => (c.remove k).2) c) now
      (BudgetCache.withdraw keys offers) := by
  induction keys generalizing c offers with
  | nil => exact backed
  | cons k keys ih => exact ih (backed.remove k)

theorem lookup (backed : Backed ttl c now offers) (k : κ) :
    Backed ttl (c.lookup now k).2 now offers where
  life := (c.limits_apply (.lookup now k)).2.trans backed.life
  kept o mem := (backed.kept o mem).lookup k

theorem serves (backed : Backed ttl c now offers) {o : Offer κ α} (mem : o ∈ offers)
    {since later : Nat} (stored : o.status = .stored since) (after : now ≤ later)
    (fresh : later - since < ttl) : (c.lookup later o.key).1 = some o.bytes :=
  Offer.kept_lookup (backed.kept o mem) stored after (by rwa [backed.life])

end Backed

end BudgetCache
