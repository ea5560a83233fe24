import LanMouse.Lib.Metered
import LanMouse.Proto.Panic

/-!
# Memory of the variable-length decoder

The decoder copies the texts and byte strings of a frame out of it, and collects the entries of a
file list in a vector that grows by doubling. The metered decoders below take the same steps and
note what is allocated; `tryFromSliceMetered` allocates at most sixteen bytes for each byte of the
frame.
-/
namespace LanMouse.Proto

open Bytes Metered VarCodec

abbrev MeteredDecode (α : Type) := Metered (List UInt8) (Fault ProtocolError) α

def readBytesMetered : MeteredDecode (List UInt8) := do
  let bytes ← lift readBytes
  allocate List.length bytes.length
  pure bytes

def readStringMetered : MeteredDecode String := do
  let bytes ← lift readBytes
  allocate List.length bytes.length
  match fromUtf8 bytes with
  | some s => pure s
  | none => Metered.fail (.err .frameTooShort)

/-- `size_of::<FileEntry>()`: two strings of three words each, a size and a hash. -/
def fileEntrySize : Nat := 24 + 8 + 24 + 32

/-- `Vec::push` of an item on `len` others: a full vector is moved to one of twice its capacity, and
of four items at least. -/
def push (itemSize len cap : Nat) : MeteredDecode Nat :=
  if len < cap then pure cap
  else
    let cap := max 4 (2 * cap)
    grow List.length cap (cap * itemSize)

def readItemsMetered {α : Type} (item : MeteredDecode α) (itemSize : Nat) :
    Nat → Nat → Nat → MeteredDecode (List α)
  | 0, _, _ => fun body n =>
    if body.isEmpty then Metered.pure [] body n else Metered.fail .hang body n
  | fuel + 1, len, cap => fun body n =>
    if body.isEmpty then Metered.pure [] body n
    else (do
      let a ← item
      let cap ← push itemSize len cap
      (a :: ·) <$> readItemsMetered item itemSize fuel (len + 1) cap) body n

def readBlock : Decode (List UInt8) := do
  let totalLen ← word 4 (.err .frameTooShort)
  take totalLen (.err .frameTooShort)

def readVecVarMetered {α : Type} (item : MeteredDecode α) (itemSize : Nat) :
    MeteredDecode (List α) := do
  let body ← lift readBlock
  onBlock body (readItemsMetered item itemSize body.length 0 0)

def readInlineMetered : MeteredDecode (Option (List UInt8)) := do
  let hasInline ← lift readBool
  if hasInline then some <$> readBytesMetered else pure none

def clipboardTextMetered : MeteredDecode ClipboardText := do
  let fingerprint ← lift readHash
  let sha256 ← lift readHash
  let size ← lift readU64Be
  let contentInline ← readInlineMetered
  pure { fingerprint, sha256, size, contentInline }

def clipboardImageMetered : MeteredDecode ClipboardImage := do
  let fingerprint ← lift readHash
  let mime ← readStringMetered
  let sha256 ← lift readHash
  let size ← lift readU64Be
  pure { fingerprint, mime, sha256, size }

def fileEntryMetered : MeteredDecode FileEntry := do
  let name ← readStringMetered
  let size ← lift readU64Be
  let mime ← readStringMetered
  let sha256 ← lift readHash
  pure { name, size, mime, sha256 }

def clipboardFilesMetered : MeteredDecode ClipboardFiles := do
  let fingerprint ← lift readHash
  let entries ← readVecVarMetered fileEntryMetered fileEntrySize
  pure { fingerprint, entries }

def fileTransferOfferMetered : MeteredDecode FileTransferOffer := do
  let sha256 ← lift readHash
  let name ← readStringMetered
  let size ← lift readU64Be
  let mime ← readStringMetered
  pure { sha256, name, size, mime }

/-- The types without a text or a list allocate nothing. -/
def decodeVarMetered : EventType → MeteredDecode ProtoEvent
  | .clipboardText => .clipboardText <$> clipboardTextMetered
  | .clipboardImage => .clipboardImage <$> clipboardImageMetered
  | .clipboardFiles => .clipboardFiles <$> clipboardFilesMetered
  | .fileTransferOffer => .fileTransferOffer <$> fileTransferOfferMetered
  | eventType => lift (decodeVar eventType)

/-- `TryFrom<&[u8]> for ProtoEvent`, with the memory it allocates. -/
def ProtoEvent.tryFromSliceMetered : List UInt8 → Outcome ProtoEvent × Nat
  | [] => (.error (.err .emptyInput), 0)
  | ty :: body =>
    match EventType.tryFrom ty with
    | .error e => (.error (.err e), 0)
    | .ok eventType =>
      if eventType.isFixed then
        (ProtoEvent.tryFromFixed (padTo maxEventSize (ty :: body.take (maxEventSize - 1))), 0)
      else
        let run := decodeVarMetered eventType body 0
        (do
          let (result, rest) ← run.outcome
          if rest.isEmpty then .ok result else .error (.err .frameTooShort), run.allocated)

/-! ### The same decoder -/

theorem runs_readBytes : Runs readBytesMetered readBytes := by
  have runs := (Runs.lift readBytes).bind fun bytes =>
    Runs.allocate_bind List.length bytes.length (Runs.pure bytes)
  rwa [bind_pure] at runs

theorem runs_readString : Runs readStringMetered readString := by
  refine (Runs.lift readBytes).bind fun bytes => Runs.allocate_bind _ _ ?_
  cases fromUtf8 bytes with
  | some s => exact .pure s
  | none => exact fun _ _ => rfl

theorem runs_readInline : Runs readInlineMetered readInline := by
  refine (Runs.lift readBool).bind fun hasInline => ?_
  cases hasInline with
  | true => exact runs_readBytes.map some
  | false => exact .pure none

theorem runs_push {α : Type} (itemSize len cap : Nat) {m : Nat → MeteredDecode α} {r : Decode α}
    (runs : ∀ cap, Runs (m cap) r) : Runs (push itemSize len cap >>= m) r := by
  unfold push
  split
  · exact runs cap
  · exact Runs.grow_bind (runs _)

theorem runs_readItems {α : Type} {item : MeteredDecode α} {r : Decode α} (runs : Runs item r)
    {itemSize fuel : Nat} : ∀ len cap, Runs (readItemsMetered item itemSize fuel len cap)
      (fun body => (·, []) <$> readItems r fuel body) := by
  induction fuel with
  | zero =>
    intro len cap body n
    cases body <;> rfl
  | succ fuel ih =>
    intro len cap body n
    cases body with
    | nil => rfl
    | cons b body =>
      have turn := (runs.bind fun a => runs_push itemSize len cap
        fun cap => (ih (len + 1) cap).map (a :: ·)) (b :: body) n
      refine turn.trans ?_
      have step : ∀ (g : α → Decode (List α)), (r >>= g) (b :: body) =
        (r (b :: body) >>= fun p => g p.1 p.2) := fun _ => rfl
      dsimp only
      rw [step, readItems.eq_def]
      dsimp only
      rcases r (b :: body) with e | ⟨a, rest⟩
      · rfl
      · change (fun p => (a :: p.1, p.2)) <$> ((·, []) <$> readItems r fuel rest) =
          (·, []) <$> ((a :: ·) <$> readItems r fuel rest)
        cases readItems r fuel rest <;> rfl

theorem runs_fileEntry : Runs fileEntryMetered (decodeVarBody : Decode FileEntry) :=
  runs_readString.bind fun _ => (Runs.lift readU64Be).bind fun _ => runs_readString.bind fun _ =>
    (Runs.lift readHash).bind fun _ => .pure _

theorem runs_readVecVar :
    Runs (readVecVarMetered fileEntryMetered fileEntrySize) (readVecVar FileEntry) := by
  have block := Runs.block readBlock
    (m := fun body => readItemsMetered fileEntryMetered fileEntrySize body.length 0 0)
    (r := fun body => readItems (decodeVarBody : Decode FileEntry) body.length body) ?_
  · rwa [readBlock, bind_assoc] at block
  · intro body n
    rw [runs_readItems runs_fileEntry 0 0 body n]
    dsimp only
    cases readItems (decodeVarBody : Decode FileEntry) body.length body <;> rfl

theorem runs_decodeVar (t : EventType) : Runs (decodeVarMetered t) (decodeVar t) := by
  cases t with
  | clipboardText =>
    exact ((Runs.lift readHash).bind fun _ => (Runs.lift readHash).bind fun _ =>
      (Runs.lift readU64Be).bind fun _ => runs_readInline.bind fun _ => .pure _).map _
  | clipboardImage =>
    exact ((Runs.lift readHash).bind fun _ => runs_readString.bind fun _ =>
      (Runs.lift readHash).bind fun _ => (Runs.lift readU64Be).bind fun _ => .pure _).map _
  | clipboardFiles =>
    exact ((Runs.lift readHash).bind fun _ => runs_readVecVar.bind fun _ => .pure _).map _
  | fileTransferOffer =>
    exact ((Runs.lift readHash).bind fun _ => runs_readString.bind fun _ =>
      (Runs.lift readU64Be).bind fun _ => runs_readString.bind fun _ => .pure _).map _
  | _ => exact .lift _

theorem tryFromSliceMetered_outcome (body : List UInt8) :
    (ProtoEvent.tryFromSliceMetered body).1 = ProtoEvent.tryFromSlice body := by
  cases body with
  | nil => rfl
  | cons ty body =>
    rw [ProtoEvent.tryFromSliceMetered, ProtoEvent.tryFromSlice]
    cases EventType.tryFrom ty with
    | error e => rfl
    | ok t =>
      dsimp only
      split
      · rfl
      · rw [runs_decodeVar t body 0]

/-! ### The bound -/

theorem within_lift {α : Type} {k n : Nat} {r : Decode α} (takes : TakesAtLeast n r) :
    Within List.length 0 k (lift r) := by
  refine .lift fun s a s' read => ?_
  obtain ⟨_, _, ok, less⟩ | ⟨e, error⟩ := takes s
  · cases ok.symm.trans read
    omega
  · cases error.symm.trans read

/-- A byte string is copied from as many bytes, and four more for its length. -/
theorem readBytes_length {s rest bytes : List UInt8} (read : readBytes s = .ok (bytes, rest)) :
    bytes.length + rest.length ≤ s.length := by
  obtain ⟨len, mid, first, second⟩ := bind_ok_iff.mp read
  obtain ⟨_, _, ok, less⟩ | ⟨e, error⟩ := TakesAtLeast.word 4 ProtocolError.frameTooShort s
  · cases ok.symm.trans first
    unfold Bytes.take at second
    split at second
    · cases second
    · cases second
      rw [List.length_take, List.length_drop]
      omega
  · cases error.symm.trans first

theorem readBytes_pays {k : Nat} (pos : 1 ≤ k) {s rest bytes : List UInt8}
    (read : readBytes s = .ok (bytes, rest)) :
    bytes.length + k * rest.length ≤ k * s.length := by
  have whole := Nat.mul_le_mul_left k (readBytes_length read)
  have own := Nat.mul_le_mul_right bytes.length pos
  rw [Nat.mul_add] at whole
  omega

section

variable {k : Nat} (pos : 1 ≤ k)
include pos

theorem within_readString : Within List.length 0 k readStringMetered := by
  refine Within.charge (fun s bytes s' read => readBytes_pays pos read) fun bytes => ?_
  cases fromUtf8 bytes with
  | some s => exact .pure s
  | none => exact .fail _

theorem within_readInline : Within List.length 0 k readInlineMetered := by
  refine (within_lift readBool_takes).seq fun hasInline => ?_
  cases hasInline with
  | true =>
    have copied : Within List.length 0 k readBytesMetered :=
      Within.charge (fun s bytes s' read => readBytes_pays pos read) fun bytes => .pure bytes
    exact copied.map some
  | false => exact .pure none

theorem within_fileEntry : Within List.length 0 k fileEntryMetered :=
  (within_readString pos).seq fun _ => (within_lift readU64Be_takes).seq fun _ =>
    (within_readString pos).seq fun _ => (within_lift readHash_takes).seq fun _ => .pure _

end

/-- A push on a vector. What it costs is made up for by the credit in the room of the new one. -/
theorem bounded_push {α : Type} {len cap n limit : Nat} {rest : List UInt8}
    {m : Nat → MeteredDecode α} (room : cap ≤ 4 * len)
    (fits : n + (704 * len + 704) + 16 * rest.length ≤ limit + 176 * cap)
    (next : ∀ cap n, cap ≤ 4 * (len + 1) →
      n + (704 * len + 704) + 16 * rest.length ≤ limit + 176 * cap →
        (m cap rest n).Bounded List.length 16 limit) :
    ((push fileEntrySize len cap >>= m) rest n).Bounded List.length 16 limit := by
  unfold push
  split
  · exact next cap n (by omega) fits
  · next full =>
    generalize larger : max 4 (2 * cap) = cap'
    have small : cap' ≤ 4 * (len + 1) := by omega
    have double : 2 * cap ≤ cap' := by omega
    have cost : cap' * fileEntrySize = 88 * cap' := Nat.mul_comm cap' 88
    dsimp only
    generalize cap' * fileEntrySize = bytes at cost ⊢
    have grown : n + bytes + (704 * len + 704) + 16 * rest.length ≤ limit + 176 * cap' := by
      grind
    exact .grow (by omega) (next cap' _ small grown)

/-- Every entry is read from 48 bytes or more, which pay for its place in the vector. -/
theorem bounded_readItems {fuel : Nat} : ∀ {len cap n limit : Nat} {body : List UInt8},
    cap ≤ 4 * len → n + 704 * len + 16 * body.length ≤ limit + 176 * cap →
    (readItemsMetered fileEntryMetered fileEntrySize fuel len cap body n).Bounded
      List.length 16 limit := by
  induction fuel with
  | zero =>
    intro len cap n limit body room fits
    unfold readItemsMetered
    split
    · exact (Within.pure [] body n).mono (by omega)
    · exact (Within.fail _ body n).mono (by omega)
  | succ fuel ih =>
    intro len cap n limit body room fits
    unfold readItemsMetered
    split
    · exact (Within.pure [] body n).mono (by omega)
    · have costs := within_fileEntry (k := 16) (by decide) body n
      refine (costs.mono (show _ ≤ limit by omega)).bind (Nat.le_refl _) fun a rest read _ => ?_
      have own := (within_fileEntry (k := 1) (by decide) body n).ok a rest read
      rw [runs_fileEntry body n] at read
      obtain ⟨_, _, ok, less⟩ | ⟨e, error⟩ := fileEntry_takes body
      · cases ok.symm.trans read
        refine bounded_push room (by omega) fun cap n room fits => ?_
        refine (ih room (by rwa [Nat.mul_succ])).bind (Nat.le_refl _) fun items rest' _ spent => ?_
        exact (Within.pure _ rest' _).mono (by omega)
      · cases error.symm.trans read

theorem within_readVecVar :
    Within List.length 0 16 (readVecVarMetered fileEntryMetered fileEntrySize) := by
  refine Within.block (fun s block s' read => readBytes_length read) fun block body n => ?_
  exact bounded_readItems (Nat.zero_le _) (by omega)

theorem within_decodeVar (t : EventType) (var : t.isFixed = false) :
    Within List.length 0 16 (decodeVarMetered t) := by
  have one : 1 ≤ 16 := by decide
  have hash : Within List.length 0 16 (lift readHash) := within_lift readHash_takes
  have word : Within List.length 0 16 (lift readU64Be) := within_lift readU64Be_takes
  cases t with
  | clipboardText =>
    exact (hash.seq fun _ => hash.seq fun _ => word.seq fun _ =>
      (within_readInline one).seq fun _ => .pure _).map _
  | clipboardImage =>
    exact (hash.seq fun _ => (within_readString one).seq fun _ => hash.seq fun _ =>
      word.seq fun _ => .pure _).map _
  | clipboardFiles => exact (hash.seq fun _ => within_readVecVar.seq fun _ => .pure _).map _
  | fileTransferOffer =>
    exact (hash.seq fun _ => (within_readString one).seq fun _ => word.seq fun _ =>
      (within_readString one).seq fun _ => .pure _).map _
  | _ => exact within_lift (decodeVar_takes var)

theorem tryFromSliceMetered_le (body : List UInt8) :
    (ProtoEvent.tryFromSliceMetered body).2 ≤ 16 * body.length := by
  cases body with
  | nil => exact Nat.le_refl _
  | cons ty body =>
    rw [ProtoEvent.tryFromSliceMetered]
    cases EventType.tryFrom ty with
    | error e => exact Nat.zero_le _
    | ok t =>
      dsimp only
      split
      · exact Nat.zero_le _
      · next var =>
        have bound := (within_decodeVar t (by simpa using var) body 0).final
        rw [List.length_cons]
        dsimp only
        omega

end LanMouse.Proto
