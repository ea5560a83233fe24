import Mathlib.Data.List.Basic
import Mathlib.Tactic.Ring

/-!
# Byte cursors and big-endian words

A cursor reads a value from the front of a byte string and keeps the unread rest. It ends with
the value, with an error it reports, with a panic, or without ending at all; the last two are
kept apart so that their absence can be stated.

`Reads r bs a` says that `r` turns exactly the bytes `bs` into `a`, whatever follows them. Round
trips are assembled from it: `Reads.bind` follows the sequencing of a decoder, `Reads.word` and
`Reads.array` settle its leaves, and `readItems_flatMap` its loops.
-/
namespace Bytes

/-- How a computation can fail to deliver a value. `hang` marks a loop that makes no progress. -/
inductive Fault (ε : Type) where
  | err (e : ε)
  | panic
  | hang
  deriving DecidableEq, Repr

abbrev Cursor (ε α : Type) := StateT (List UInt8) (Except (Fault ε)) α

variable {ε α β : Type}

def fail (f : Fault ε) : Cursor ε α := fun _ => .error f

/-- Split off `n` bytes when that many are left, and fail with `f` otherwise. -/
def take (n : Nat) (f : Fault ε) : Cursor ε (List UInt8) := fun buf =>
  if buf.length < n then .error f else .ok (buf.take n, buf.drop n)

/-- Split off an array of `n` bytes. -/
def array (n : Nat) (f : Fault ε) : Cursor ε (Vector UInt8 n) := fun buf =>
  if h : buf.length < n then .error f
  else .ok (⟨(buf.take n).toArray, by simp; omega⟩, buf.drop n)

/-- The first `n` bytes of `bs` in an array that was zeroed before. -/
def padTo (n : Nat) (bs : List UInt8) : Vector UInt8 n :=
  ⟨(bs.take n ++ List.replicate (n - bs.length) 0).toArray, by simp; omega⟩

/-- The `w` low bytes of `n`, the most significant first. -/
def toBE : Nat → Nat → List UInt8
  | 0, _ => []
  | w + 1, n => UInt8.ofNat (n / 256 ^ w) :: toBE w n

def ofBE (bs : List UInt8) : Nat := bs.foldl (fun n b => n * 256 + b.toNat) 0

@[simp] theorem length_toBE (w n : Nat) : (toBE w n).length = w := by
  induction w with
  | zero => rfl
  | succ w ih => simp [toBE, ih]

theorem foldl_ofBE (bs : List UInt8) (n : Nat) :
    bs.foldl (fun n b => n * 256 + b.toNat) n = n * 256 ^ bs.length + ofBE bs := by
  induction bs generalizing n with
  | nil => simp [ofBE]
  | cons b bs ih =>
    have start := ih b.toNat
    simp only [ofBE, List.foldl_cons, List.length_cons] at *
    rw [ih, Nat.zero_mul, Nat.zero_add, start]
    ring

theorem ofBE_cons (b : UInt8) (bs : List UInt8) :
    ofBE (b :: bs) = b.toNat * 256 ^ bs.length + ofBE bs := by
  rw [ofBE, List.foldl_cons, Nat.zero_mul, Nat.zero_add, foldl_ofBE]

theorem ofBE_toBE (w n : Nat) : ofBE (toBE w n) = n % 256 ^ w := by
  induction w with
  | zero => simp [toBE, ofBE, Nat.mod_one]
  | succ w ih =>
    have digits : n % (256 ^ w * 256) = n % 256 ^ w + 256 ^ w * (n / 256 ^ w % 256) :=
      Nat.mod_mul
    have digit : (UInt8.ofNat (n / 256 ^ w)).toNat = n / 256 ^ w % 256 := UInt8.toNat_ofNat'
    rw [toBE, ofBE_cons, ih, length_toBE, Nat.pow_succ, digits, digit]
    ring

theorem ofBE_lt (bs : List UInt8) : ofBE bs < 256 ^ bs.length := by
  induction bs with
  | nil => exact Nat.one_pos
  | cons b bs ih =>
    have digit : (b.toNat + 1) * 256 ^ bs.length ≤ 256 * 256 ^ bs.length :=
      Nat.mul_le_mul_right _ b.toNat_lt
    rw [ofBE_cons, List.length_cons, Nat.pow_succ, Nat.mul_comm _ 256]
    rw [Nat.add_mul] at digit
    omega

theorem toBE_add_mul (w n k : Nat) : toBE w (n + k * 256 ^ w) = toBE w n := by
  induction w generalizing k with
  | zero => rfl
  | succ w ih =>
    have split : n + k * 256 ^ (w + 1) = n + k * 256 * 256 ^ w := by ring
    have digit : UInt8.ofNat (n / 256 ^ w + k * 256) = UInt8.ofNat (n / 256 ^ w) :=
      UInt8.toNat_inj.mp (by simp)
    rw [split, toBE, toBE, ih, Nat.add_mul_div_right _ _ (Nat.pow_pos (by decide)), digit]

theorem toBE_mod (w n : Nat) : toBE w (n % 256 ^ w) = toBE w n := by
  conv_rhs => rw [← Nat.mod_add_div n (256 ^ w), Nat.mul_comm, toBE_add_mul]

theorem toBE_ofBE (bs : List UInt8) : toBE bs.length (ofBE bs) = bs := by
  induction bs with
  | nil => rfl
  | cons b bs ih =>
    have digit : (b.toNat * 256 ^ bs.length + ofBE bs) / 256 ^ bs.length = b.toNat := by
      rw [Nat.add_comm, Nat.add_mul_div_right _ _ (Nat.pow_pos (by decide)),
        Nat.div_eq_of_lt (ofBE_lt bs), Nat.zero_add]
    rw [List.length_cons, toBE, ofBE_cons, digit, UInt8.ofNat_toNat, Nat.add_comm, toBE_add_mul, ih]

variable {r : Cursor ε α} {k : α → Cursor ε β} {bs : List UInt8} {a : α}

theorem bind_ok_iff {buf rest : List UInt8} {b : β} :
    (r >>= k) buf = .ok (b, rest) ↔ ∃ a mid, r buf = .ok (a, mid) ∧ k a mid = .ok (b, rest) := by
  have step : (r >>= k) buf = (r buf >>= fun p => k p.1 p.2) := rfl
  rw [step]
  cases r buf with
  | error f => simp [bind, Except.bind]
  | ok p =>
    obtain ⟨a, mid⟩ := p
    simp [bind, Except.bind]

theorem map_ok_iff {f : α → β} {buf rest : List UInt8} {b : β} :
    (f <$> r) buf = .ok (b, rest) ↔ ∃ a, r buf = .ok (a, rest) ∧ f a = b := by
  have step : (f <$> r) buf = ((fun p => (f p.1, p.2)) <$> r buf) := rfl
  rw [step]
  cases r buf with
  | error f => simp [Functor.map, Except.map]
  | ok p =>
    simp only [Functor.map, Except.map, Except.ok.injEq, Prod.ext_iff]
    constructor
    · rintro ⟨rfl, rfl⟩
      exact ⟨p.1, ⟨rfl, rfl⟩, rfl⟩
    · rintro ⟨_, ⟨rfl, rfl⟩, rfl⟩
      exact ⟨rfl, rfl⟩

/-- `r` reads exactly `bs`, as `a`, and leaves whatever follows. -/
def Reads (r : Cursor ε α) (bs : List UInt8) (a : α) : Prop :=
  ∀ rest, r (bs ++ rest) = .ok (a, rest)

theorem Reads.pure (a : α) : Reads (pure a : Cursor ε α) [] a := fun _ => rfl

theorem Reads.bind {bs cs : List UInt8} {b : β} (first : Reads r bs a) (then_ : Reads (k a) cs b) :
    Reads (r >>= k) (bs ++ cs) b := by
  intro rest
  change (r (bs ++ cs ++ rest) >>= fun p => k p.1 p.2) = _
  rw [List.append_assoc, first]
  exact then_ rest

theorem Reads.map {f : α → β} (h : Reads r bs a) : Reads (f <$> r) bs (f a) := by
  intro rest
  change ((fun p => (f p.1, p.2)) <$> r (bs ++ rest)) = _
  rw [h]
  rfl

theorem Reads.take {n : Nat} {f : Fault ε} (h : bs.length = n) : Reads (take n f) bs bs := by
  intro rest
  simp [Bytes.take, ← h]

theorem Reads.congr {bs cs : List UInt8} (h : Reads r bs a) (same : bs = cs) :
    Reads r cs a := same ▸ h

theorem Reads.array {n : Nat} {f : Fault ε} (v : Vector UInt8 n) :
    Reads (array n f) v.toList v := by
  intro rest
  obtain ⟨bytes, size⟩ := v
  subst size
  simp [Bytes.array]

/-- Read a big-endian word of `w` bytes. -/
def word (w : Nat) (f : Fault ε) : Cursor ε Nat := ofBE <$> take w f

theorem Reads.word {w n : Nat} {f : Fault ε} (h : n < 256 ^ w) : Reads (word w f) (toBE w n) n := by
  have bytes : Reads (Bytes.take w f) (toBE w n) (toBE w n) := Reads.take (length_toBE w n)
  have value : Reads (Bytes.word w f) (toBE w n) (ofBE (toBE w n)) := bytes.map
  rwa [ofBE_toBE, Nat.mod_eq_of_lt h] at value

/-- A word read back as the value of type `α` it was written for. -/
theorem Reads.wordAs {w n : Nat} {f : Fault ε} {g : Nat → α} (h : n < 256 ^ w) (value : g n = a) :
    Reads (g <$> Bytes.word w f) (toBE w n) a := by
  subst value
  exact (Reads.word h).map

@[simp] theorem toList_padTo {n : Nat} (h : bs.length ≤ n) :
    (padTo n bs).toList = bs ++ List.replicate (n - bs.length) 0 := by
  simp [padTo, List.take_of_length_le h]

theorem toList_padTo_succ {n : Nat} (bs : List UInt8) :
    (padTo (n + 1) bs).toList = bs.headD 0 :: (padTo n bs.tail).toList := by
  cases bs with
  | nil => simp [padTo, List.replicate_succ]
  | cons b bs => simp [padTo]

theorem padTo_take (n : Nat) (bs : List UInt8) : padTo n (bs.take n) = padTo n bs := by
  have room : n - min n bs.length = n - bs.length := by omega
  simp [padTo, room, List.take_take]

theorem padTo_zero {n : Nat} (bs : List UInt8) : (padTo (n + 1) bs)[0] = bs.headD 0 := by
  cases bs <;> rfl

/-- Read items one after another until the block is used up. `fuel` bounds the number of items;
a block that outlasts it is one whose items consumed nothing. -/
def readItems (item : Cursor ε α) : Nat → List UInt8 → Except (Fault ε) (List α)
  | _, [] => .ok []
  | 0, _ :: _ => .error .hang
  | fuel + 1, body@(_ :: _) =>
    match item body with
    | .error f => .error f
    | .ok (a, rest) => (a :: ·) <$> readItems item fuel rest

theorem readItems_flatMap (item : Cursor ε α) (enc : α → List UInt8) (xs : List α)
    (reads : ∀ x ∈ xs, Reads item (enc x) x) (some_ : ∀ x ∈ xs, enc x ≠ []) :
    ∀ fuel, xs.length ≤ fuel → readItems item fuel (xs.flatMap enc) = .ok xs := by
  induction xs with
  | nil => intro fuel _; cases fuel <;> rfl
  | cons x xs ih =>
    intro fuel enough
    obtain ⟨fuel, rfl⟩ : ∃ n, fuel = n + 1 := ⟨fuel - 1, by simp at enough; omega⟩
    have head := reads x List.mem_cons_self (xs.flatMap enc)
    have tail := ih (fun y hy => reads y (List.mem_cons_of_mem _ hy))
      (fun y hy => some_ y (List.mem_cons_of_mem _ hy)) fuel (by simp at enough; omega)
    obtain ⟨b, bs, split⟩ := List.exists_cons_of_ne_nil (some_ x List.mem_cons_self)
    rw [List.flatMap_cons]
    rw [split, List.cons_append] at head ⊢
    simp only [readItems, head, tail]
    rfl

theorem length_le_flatMap {enc : α → List UInt8} {xs : List α}
    (some_ : ∀ x ∈ xs, enc x ≠ []) : xs.length ≤ (xs.flatMap enc).length := by
  induction xs with
  | nil => simp
  | cons x xs ih =>
    have head := List.length_pos_iff.mpr (some_ x List.mem_cons_self)
    have tail := ih fun y hy => some_ y (List.mem_cons_of_mem _ hy)
    simp only [List.flatMap_cons, List.length_cons, List.length_append]
    omega

/-! ### Cursors that cannot panic -/

/-- What `r` reads, if it reads something, is as `P` says. -/
def Yields (P : α → Prop) (r : Cursor ε α) : Prop := ∀ buf a rest, r buf = .ok (a, rest) → P a

theorem Yields.pure {P : α → Prop} (h : P a) : Yields P (pure a : Cursor ε α) := by
  rintro buf _ _ ⟨⟩
  exact h

theorem Yields.fail {P : α → Prop} (f : Fault ε) : Yields P (fail f : Cursor ε α) := nofun

theorem Yields.bind {P : β → Prop} (then_ : ∀ a, Yields P (k a)) : Yields P (r >>= k) := by
  intro buf b rest ok
  obtain ⟨a, mid, -, later⟩ := bind_ok_iff.mp ok
  exact then_ a mid b rest later

theorem Yields.map {P : β → Prop} {f : α → β} (h : ∀ a, P (f a)) : Yields P (f <$> r) := by
  intro buf b rest ok
  obtain ⟨a, -, rfl⟩ := map_ok_iff.mp ok
  exact h a

/-- Given `n` bytes, `r` takes exactly those. -/
def Fills (n : Nat) (r : Cursor ε α) : Prop :=
  ∀ buf, n ≤ buf.length → ∃ a, r buf = .ok (a, buf.drop n)

theorem Fills.pure (a : α) : Fills 0 (pure a : Cursor ε α) := fun _ _ => ⟨a, rfl⟩

theorem Fills.bind {n m : Nat} (first : Fills n r) (then_ : ∀ a, Fills m (k a)) :
    Fills (n + m) (r >>= k) := by
  intro buf room
  have step : (r >>= k) buf = (r buf >>= fun p => k p.1 p.2) := rfl
  obtain ⟨a, ok⟩ := first buf (by omega)
  have rest := then_ a (buf.drop n) (by simp; omega)
  rw [step, ok]
  rwa [List.drop_drop] at rest

theorem Fills.map {n : Nat} {f : α → β} (h : Fills n r) : Fills n (f <$> r) := by
  intro buf room
  have step : (f <$> r) buf = ((fun p => (f p.1, p.2)) <$> r buf) := rfl
  obtain ⟨a, ok⟩ := h buf room
  exact ⟨f a, by rw [step, ok]; rfl⟩

theorem Fills.take (n : Nat) (f : Fault ε) : Fills n (take n f) := fun buf room =>
  ⟨buf.take n, by simp [Bytes.take, Nat.not_lt.mpr room]⟩

theorem Fills.array (n : Nat) (f : Fault ε) : Fills n (array n f) := fun _ room =>
  ⟨_, dif_neg (Nat.not_lt.mpr room)⟩

theorem Fills.word (w : Nat) (f : Fault ε) : Fills w (word w f) := (Fills.take w f).map

/-- On any bytes, `r` takes at least `n` of them or reports an error. -/
def TakesAtLeast (n : Nat) (r : Cursor ε α) : Prop :=
  ∀ buf, (∃ a rest, r buf = .ok (a, rest) ∧ rest.length + n ≤ buf.length) ∨
    ∃ e, r buf = .error (.err e)

theorem TakesAtLeast.pure (a : α) : TakesAtLeast 0 (pure a : Cursor ε α) :=
  fun buf => .inl ⟨a, buf, rfl, Nat.le_refl _⟩

theorem TakesAtLeast.fail (n : Nat) (e : ε) : TakesAtLeast n (fail (.err e) : Cursor ε α) :=
  fun _ => .inr ⟨e, rfl⟩

theorem TakesAtLeast.bind {n m : Nat} (first : TakesAtLeast n r)
    (then_ : ∀ a, TakesAtLeast m (k a)) : TakesAtLeast (n + m) (r >>= k) := by
  intro buf
  have step : (r >>= k) buf = (r buf >>= fun p => k p.1 p.2) := rfl
  rw [step]
  obtain ⟨a, rest, ok, used⟩ | ⟨e, err⟩ := first buf
  · rw [ok]
    obtain ⟨b, rest', ok', used'⟩ | ⟨e, err⟩ := then_ a rest
    · exact .inl ⟨b, rest', ok', by omega⟩
    · exact .inr ⟨e, err⟩
  · exact .inr ⟨e, by rw [err]; rfl⟩

theorem TakesAtLeast.map {n : Nat} {f : α → β} (h : TakesAtLeast n r) :
    TakesAtLeast n (f <$> r) := by
  intro buf
  have step : (f <$> r) buf = ((fun p => (f p.1, p.2)) <$> r buf) := rfl
  rw [step]
  obtain ⟨a, rest, ok, used⟩ | ⟨e, err⟩ := h buf
  · exact .inl ⟨f a, rest, by rw [ok]; rfl, used⟩
  · exact .inr ⟨e, by rw [err]; rfl⟩

theorem TakesAtLeast.mono {n m : Nat} (h : TakesAtLeast n r) (le : m ≤ n) : TakesAtLeast m r := by
  intro buf
  obtain ⟨a, rest, ok, used⟩ | err := h buf
  · exact .inl ⟨a, rest, ok, by omega⟩
  · exact .inr err

theorem TakesAtLeast.of_fills {n : Nat} (fills : Fills n r)
    (short : ∀ buf, buf.length < n → ∃ e, r buf = .error (.err e)) : TakesAtLeast n r := by
  intro buf
  by_cases room : n ≤ buf.length
  · obtain ⟨a, ok⟩ := fills buf room
    exact .inl ⟨a, buf.drop n, ok, by simp; omega⟩
  · exact .inr (short buf (by omega))

theorem TakesAtLeast.take (n : Nat) (e : ε) : TakesAtLeast n (take n (.err e)) :=
  .of_fills (.take n _) fun _ short => ⟨e, if_pos short⟩

theorem TakesAtLeast.array (n : Nat) (e : ε) : TakesAtLeast n (array n (.err e)) :=
  .of_fills (.array n _) fun _ short => ⟨e, dif_pos short⟩

theorem TakesAtLeast.word (w : Nat) (e : ε) : TakesAtLeast w (word w (.err e)) :=
  (TakesAtLeast.take w e).map

/-- A loop over items that each take something neither panics nor hangs. -/
theorem readItems_safe {item : Cursor ε α} (takes : TakesAtLeast 1 item) :
    ∀ fuel body, body.length ≤ fuel →
      (∃ xs, readItems item fuel body = .ok xs) ∨
        ∃ e, readItems item fuel body = .error (.err e) := by
  intro fuel
  induction fuel with
  | zero =>
    intro body room
    obtain rfl := List.length_eq_zero_iff.mp (Nat.le_zero.mp room)
    exact .inl ⟨[], rfl⟩
  | succ fuel ih =>
    intro body room
    cases body with
    | nil => exact .inl ⟨[], rfl⟩
    | cons b bs =>
      obtain ⟨a, rest, ok, used⟩ | ⟨e, err⟩ := takes (b :: bs)
      · obtain ⟨xs, more⟩ | ⟨e, err⟩ := ih rest (by simp at used room; omega)
        · exact .inl ⟨a :: xs, by simp only [readItems, ok, more]; rfl⟩
        · exact .inr ⟨e, by simp only [readItems, ok, err]; rfl⟩
      · exact .inr ⟨e, by simp only [readItems, err]⟩

end Bytes
