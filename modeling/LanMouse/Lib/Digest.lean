import Mathlib.Data.List.Basic

/-!
# Digests of streams

A hasher is fed piece by piece, and a file is read in pieces whose lengths are not the reader's to
choose. `Source.digest_eq` says that the pieces do not matter: what comes out is the hash of the
whole content, or the fault of the file.
-/
namespace Digest

variable {ε α β : Type}

/-- A hasher ends with the hash of all that it was fed. -/
structure Hasher (α β : Type) where
  State : Type
  init : State
  update : State → List α → State
  finalize : State → β
  hash : List α → β
  finalize_updates : ∀ pieces : List (List α),
    finalize (pieces.foldl update init) = hash pieces.flatten

/-- The hasher that keeps its input until the end. -/
def Hasher.buffered (hash : List α → β) : Hasher α β where
  State := List α
  init := []
  update := (· ++ ·)
  finalize := hash
  hash := hash
  finalize_updates := by
    intro pieces
    have joined : pieces.foldl (· ++ ·) [] = [] ++ (pieces.map fun piece => piece).flatten :=
      List.foldl_append_eq_append
    rw [joined, List.nil_append, List.map_id']

example (hash : List α → β) : ∃ H : Hasher α β, H.hash = hash := ⟨.buffered hash, rfl⟩

/-- An open file: its content, and where reading it fails, if it does. -/
structure Source (ε α : Type) where
  content : List α
  fault : Option (Nat × ε) := none

namespace Source

/-- Read into a buffer. At least one element is read before the end of the content and before the
fault, and `chunk` tells how many more. -/
def read (s : Source ε α) (buffer : Nat) (chunk : Nat → Nat) (offset : Nat) :
    Except ε (List α) :=
  let wanted := min buffer (chunk offset + 1)
  match s.fault with
  | none => .ok ((s.content.drop offset).take wanted)
  | some (at_, e) =>
    if at_ ≤ offset then .error e
    else .ok ((s.content.drop offset).take (min wanted (at_ - offset)))

/-- The fault that a reader of the whole content meets. -/
def failure (s : Source ε α) : Option ε :=
  s.fault.bind fun (at_, e) => if at_ ≤ s.content.length then some e else none

theorem isPrefix_of_read {s : Source ε α} {buffer offset : Nat} {chunk : Nat → Nat} {piece : List α}
    (got : s.read buffer chunk offset = .ok piece) : piece <+: s.content.drop offset := by
  unfold read at got
  dsimp only at got
  split at got
  · cases got
    exact List.take_prefix ..
  · split_ifs at got
    cases got
    exact List.take_prefix ..

/-- Feed a hasher with what is read from `offset` on. -/
def feed (H : Hasher α β) (s : Source ε α) (buffer : Nat) (chunk : Nat → Nat) (offset : Nat)
    (state : H.State) : Except ε H.State :=
  match _got : s.read buffer chunk offset with
  | .error e => .error e
  | .ok [] => .ok state
  | .ok (a :: piece) =>
    s.feed H buffer chunk (offset + (a :: piece).length) (H.update state (a :: piece))
termination_by s.content.length - offset
decreasing_by
  have inside := (isPrefix_of_read _got).length_le
  rw [List.length_drop, List.length_cons] at inside
  rw [List.length_cons]
  omega

def digest (H : Hasher α β) (s : Source ε α) (buffer : Nat) (chunk : Nat → Nat) : Except ε β :=
  H.finalize <$> s.feed H buffer chunk 0 H.init

variable {s : Source ε α} {buffer offset : Nat} {chunk : Nat → Nat}

theorem read_error {e : ε} (reached : offset ≤ s.content.length)
    (got : s.read buffer chunk offset = .error e) : s.failure = some e := by
  unfold read at got
  dsimp only at got
  split at got
  · cases got
  · rename_i at_ e' fault
    split_ifs at got with beyond
    cases got
    rw [failure, fault]
    exact if_pos (Nat.le_trans beyond reached)

theorem read_nil (room : 0 < buffer) (reached : offset ≤ s.content.length)
    (got : s.read buffer chunk offset = .ok []) :
    s.failure = none ∧ s.content.drop offset = [] := by
  unfold read at got
  dsimp only at got
  split at got
  · rename_i fault
    simp only [Except.ok.injEq, List.take_eq_nil_iff] at got
    refine ⟨by rw [failure, fault]; rfl, got.resolve_left ?_⟩
    omega
  · rename_i at_ e fault
    split_ifs at got with beyond
    simp only [Except.ok.injEq, List.take_eq_nil_iff] at got
    have done : s.content.drop offset = [] := got.resolve_left (by omega)
    refine ⟨?_, done⟩
    rw [failure, fault]
    exact if_neg (by rw [List.drop_eq_nil_iff] at done; omega)

/-- The hasher is fed the content from `offset` on, unless the fault comes first. -/
theorem feed_cases (H : Hasher α β) (s : Source ε α) (room : 0 < buffer) (chunk : Nat → Nat)
    (state : H.State) (reached : offset ≤ s.content.length) :
    (∃ e, s.failure = some e ∧ s.feed H buffer chunk offset state = .error e) ∨
      (s.failure = none ∧ ∃ pieces : List (List α), pieces.flatten = s.content.drop offset ∧
        s.feed H buffer chunk offset state = .ok (pieces.foldl H.update state)) := by
  fun_induction feed H s buffer chunk offset state with
  | case1 offset state e got => exact .inl ⟨e, read_error reached got, rfl⟩
  | case2 offset state got =>
    obtain ⟨sound, done⟩ := read_nil room reached got
    exact .inr ⟨sound, [], done.symm, rfl⟩
  | case3 offset state a piece got ih =>
    -- what is read here stands in front of what the rest of the loop reads
    obtain ⟨rest, split⟩ := isPrefix_of_read got
    have inside := congrArg List.length split
    rw [List.length_append, List.length_drop] at inside
    have later : rest = s.content.drop (offset + (a :: piece).length) := by
      rw [← List.drop_drop, ← split, List.drop_left]
    obtain failed | ⟨sound, pieces, whole, fed⟩ := ih (by omega)
    · exact .inl failed
    · refine .inr ⟨sound, (a :: piece) :: pieces, ?_, fed⟩
      rw [List.flatten_cons, whole, ← later, split]

theorem digest_eq (H : Hasher α β) (s : Source ε α) (room : 0 < buffer) (chunk : Nat → Nat) :
    s.digest H buffer chunk =
      match s.failure with
      | some e => .error e
      | none => .ok (H.hash s.content) := by
  unfold digest
  obtain ⟨e, failed, fed⟩ | ⟨sound, pieces, whole, fed⟩ :=
    s.feed_cases H room chunk H.init (Nat.zero_le _)
  · rw [failed, fed]
    rfl
  · rw [sound, fed]
    change Except.ok (H.finalize (pieces.foldl H.update H.init)) = _
    rw [H.finalize_updates, whole, List.drop_zero]

end Source

end Digest
