import LanMouse.Lib.Bytes

/-!
# Verdicts that later bytes do not change

A cursor is local if what it reads depends on the bytes it takes alone. The strings a local cursor
accepts, those it reads to their end, are then no prefix of each other: `Alone r bs` says that no
string shorter or longer than `bs` along it is accepted.

To settle `Alone` for given bytes, follow the cursor over them. If it reads them all, or rejects
them whatever follows, they are alone; if it reads some of them and leaves others, they are not.
-/
namespace Bytes

variable {ε α β : Type} {r : Cursor ε α} {k : α → Cursor ε β} {bs : List UInt8} {a : α}

/-- What `r` reads, it reads from the bytes it takes, whatever follows them. -/
def Local (r : Cursor ε α) : Prop :=
  ∀ buf a rest, r buf = .ok (a, rest) → ∃ used, buf = used ++ rest ∧ Reads r used a

theorem Local.pure (a : α) : Local (pure a : Cursor ε α) := by
  rintro buf _ _ ⟨⟩
  exact ⟨[], rfl, Reads.pure a⟩

theorem Local.fail (f : Fault ε) : Local (fail f : Cursor ε α) := nofun

theorem Local.bind (first : Local r) (then_ : ∀ a, Local (k a)) : Local (r >>= k) := by
  intro buf b rest ok
  obtain ⟨a, mid, read, later⟩ := bind_ok_iff.mp ok
  obtain ⟨front, rfl, readsFront⟩ := first buf a mid read
  obtain ⟨back, rfl, readsBack⟩ := then_ a mid b rest later
  exact ⟨front ++ back, (List.append_assoc ..).symm, readsFront.bind readsBack⟩

theorem Local.map {f : α → β} (h : Local r) : Local (f <$> r) := by
  intro buf b rest ok
  obtain ⟨a, read, rfl⟩ := map_ok_iff.mp ok
  obtain ⟨used, split, reads⟩ := h buf a rest read
  exact ⟨used, split, reads.map⟩

theorem take_ok {n : Nat} {f : Fault ε} {buf bs rest : List UInt8}
    (ok : take n f buf = .ok (bs, rest)) : bs.length = n ∧ buf = bs ++ rest := by
  rw [take] at ok
  split_ifs at ok with short
  obtain ⟨rfl, rfl⟩ := Prod.mk.inj (Except.ok.inj ok)
  exact ⟨by simp; omega, (List.take_append_drop n buf).symm⟩

theorem array_ok {n : Nat} {f : Fault ε} {buf rest : List UInt8} {v : Vector UInt8 n}
    (ok : array n f buf = .ok (v, rest)) : buf = v.toList ++ rest := by
  rw [array] at ok
  split_ifs at ok with short
  obtain ⟨rfl, rfl⟩ := Prod.mk.inj (Except.ok.inj ok)
  exact (List.take_append_drop n buf).symm

theorem word_ok {w n : Nat} {f : Fault ε} {buf rest : List UInt8}
    (ok : word w f buf = .ok (n, rest)) : buf = toBE w n ++ rest ∧ n < 256 ^ w := by
  obtain ⟨bs, read, rfl⟩ := map_ok_iff.mp ok
  obtain ⟨rfl, rfl⟩ := take_ok read
  exact ⟨by rw [toBE_ofBE], ofBE_lt bs⟩

theorem Local.take (n : Nat) (f : Fault ε) : Local (take n f) := by
  intro buf bs rest ok
  obtain ⟨length, split⟩ := take_ok ok
  exact ⟨bs, split, Reads.take length⟩

theorem Local.array (n : Nat) (f : Fault ε) : Local (array n f) := by
  intro buf v rest ok
  exact ⟨v.toList, array_ok ok, Reads.array v⟩

theorem Local.word (w : Nat) (f : Fault ε) : Local (word w f) := (Local.take w f).map

/-- `r` fails on `bs`, whatever follows. -/
def Rejects (r : Cursor ε α) (bs : List UInt8) : Prop := ∀ rest, ∃ f, r (bs ++ rest) = .error f

theorem Rejects.fail (f : Fault ε) : Rejects (fail f : Cursor ε α) [] := fun _ => ⟨f, rfl⟩

theorem Rejects.append (h : Rejects r bs) (cs : List UInt8) : Rejects r (bs ++ cs) := by
  intro rest
  rw [List.append_assoc]
  exact h (cs ++ rest)

theorem Rejects.congr {bs cs : List UInt8} (h : Rejects r bs) (same : bs = cs) :
    Rejects r cs := same ▸ h

theorem Rejects.first (h : Rejects r bs) (k : α → Cursor ε β) : Rejects (r >>= k) bs := by
  intro rest
  have step : (r >>= k) (bs ++ rest) = (r (bs ++ rest) >>= fun p => k p.1 p.2) := rfl
  obtain ⟨f, error⟩ := h rest
  exact ⟨f, by rw [step, error]; rfl⟩

theorem Rejects.after {bs cs : List UInt8} (first : Reads r bs a) (then_ : Rejects (k a) cs) :
    Rejects (r >>= k) (bs ++ cs) := by
  intro rest
  have step : (r >>= k) (bs ++ (cs ++ rest)) = (r (bs ++ (cs ++ rest)) >>= fun p => k p.1 p.2) :=
    rfl
  rw [List.append_assoc, step, first]
  exact then_ rest

theorem Rejects.map (h : Rejects r bs) (f : α → β) : Rejects (f <$> r) bs := by
  intro rest
  have step : (f <$> r) (bs ++ rest) = ((fun p => (f p.1, p.2)) <$> r (bs ++ rest)) := rfl
  obtain ⟨e, error⟩ := h rest
  exact ⟨e, by rw [step, error]; rfl⟩

/-- A block that is read item by item is made of what its items are read from. -/
theorem readItems_ok {item : Cursor ε α} {enc : α → List UInt8}
    (canonical : ∀ buf a rest, item buf = .ok (a, rest) → buf = enc a ++ rest) {fuel : Nat} :
    ∀ {body : List UInt8} {xs : List α}, readItems item fuel body = .ok xs →
      body = xs.flatMap enc := by
  induction fuel with
  | zero =>
    intro body xs ok
    cases body with
    | nil =>
      cases ok
      rfl
    | cons b body => cases ok
  | succ fuel ih =>
    intro body xs ok
    cases body with
    | nil =>
      cases ok
      rfl
    | cons b body =>
      rw [readItems] at ok
      cases read : item (b :: body) with
      | error f => simp [read] at ok
      | ok p =>
        simp only [read] at ok
        cases later : readItems item fuel p.2 with
        | error f =>
          rw [later] at ok
          cases ok
        | ok ys =>
          rw [later] at ok
          obtain rfl : p.1 :: ys = xs := Except.ok.inj ok
          rw [canonical _ p.1 p.2 read, ih later, List.flatMap_cons]

/-! ### Accepted strings -/

/-- `r` reads `bs` to the end. -/
def Accepts (r : Cursor ε α) (bs : List UInt8) : Prop := ∃ a, r bs = .ok (a, [])

theorem Reads.accepts (h : Reads r bs a) : Accepts r bs := by
  have whole := h []
  rw [List.append_nil] at whole
  exact ⟨a, whole⟩

theorem Local.reads (h : Local r) (accepts : Accepts r bs) : ∃ a, Reads r bs a := by
  obtain ⟨a, ok⟩ := accepts
  obtain ⟨used, split, reads⟩ := h bs a [] ok
  rw [List.append_nil] at split
  exact ⟨a, split ▸ reads⟩

/-- No string that is shorter or longer than `bs` along it is accepted. -/
def Alone (r : Cursor ε α) (bs : List UInt8) : Prop :=
  ∀ w, w <+: bs ∨ bs <+: w → w ≠ bs → ¬ Accepts r w

/-- What a cursor reads all of has nothing accepted in front of its end. -/
theorem Reads.eq_nil {bs more : List UInt8} (reads : Reads r bs a)
    (accepts : Accepts r (bs ++ more)) : more = [] := by
  obtain ⟨b, ok⟩ := accepts
  rw [reads more] at ok
  exact (Prod.mk.inj (Except.ok.inj ok)).2

theorem Reads.alone (steady : Local r) (reads : Reads r bs a) : Alone r bs := by
  rintro w (⟨more, rfl⟩ | ⟨more, rfl⟩) other accepts
  · obtain ⟨b, readsShort⟩ := steady.reads accepts
    obtain rfl := readsShort.eq_nil reads.accepts
    exact other (List.append_nil w).symm
  · obtain rfl := reads.eq_nil accepts
    exact other (List.append_nil bs)

theorem Rejects.alone (steady : Local r) (rejects : Rejects r bs) : Alone r bs := by
  rintro w (⟨more, rfl⟩ | ⟨more, rfl⟩) - accepts
  · obtain ⟨a, reads⟩ := steady.reads accepts
    obtain ⟨f, error⟩ := rejects []
    rw [List.append_nil, reads more] at error
    cases error
  · obtain ⟨a, ok⟩ := accepts
    obtain ⟨f, error⟩ := rejects more
    rw [ok] at error
    cases error

theorem Reads.not_alone {bs rest : List UInt8} (reads : Reads r bs a) (left : rest ≠ []) :
    ¬ Alone r (bs ++ rest) := by
  intro alone
  refine alone bs (.inl (List.prefix_append bs rest)) ?_ reads.accepts
  intro same
  exact left (List.append_cancel_left ((List.append_nil bs).trans same)).symm

end Bytes
