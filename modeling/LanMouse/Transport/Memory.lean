import LanMouse.Proto.Allocation
import LanMouse.Transport.Http3

/-!
# Memory of the readers

What the request reader and the stream C reader allocate for what a peer sends. The request reader
makes room for one chunk at a time, in a vector that grows by doubling. The stream C reader
allocates a whole frame when it has its length, whatever that is: `MAX_FRAME_SIZE` is documented as
the cap of a frame, and nothing enforces it. Its memory is bounded by the cap and a multiple of what
it has read exactly as long as no length exceeds that bound when it is read.

A moment is counted in bytes unread, so the bytes received are at least those that are read.
-/
namespace LanMouse.Transport

open Bytes Proto Metered

def RecvStream.size (recv : RecvStream) : Nat := recv.bytes.length

namespace Http3

abbrev MeteredReading (α : Type) := Metered RecvStream (Fault IoError) α

/-- `Vec::resize` to `needed` bytes: a vector without the room is moved to one of twice its
capacity, or of `needed` bytes if that is more. -/
def resize (needed cap : Nat) : MeteredReading Nat :=
  if needed ≤ cap then pure cap
  else
    let cap := max (2 * cap) needed
    grow RecvStream.size cap cap

def readChunksMetered : Nat → Nat → List UInt8 → Nat → MeteredReading (List UInt8)
  | 0, remaining, out, _ => if remaining = 0 then pure out else Metered.fail .hang
  | fuel + 1, remaining, out, cap =>
    if remaining = 0 then pure out
    else do
      let want := min remaining chunkSize
      let cap ← resize (out.length + want) cap
      let bytes ← lift (readExact want)
      readChunksMetered fuel (remaining - want) (out ++ bytes) cap

def readBytesMetered (len : Nat) : MeteredReading (List UInt8) := do
  let cap := min len (chunkSize * 4)
  allocate RecvStream.size cap
  readChunksMetered len len [] cap

def readRequestMetered : MeteredReading Request := do
  let methodLen ← lift readU16
  let method ← readBytesMetered methodLen
  let method ← lift (readText method)
  let pathLen ← lift readU16
  let path ← readBytesMetered pathLen
  let path ← lift (readText path)
  let bodyLen ← lift readU32
  let body ← readBytesMetered bodyLen
  pure ⟨method, path, body⟩

/-! ### The same reader -/

theorem runs_resize {α : Type} {needed cap : Nat} {m : Nat → MeteredReading α} {r : Reading α}
    (runs : ∀ cap, Runs (m cap) r) : Runs (resize needed cap >>= m) r := by
  unfold resize
  split
  · exact runs cap
  · exact Runs.grow_bind (runs _)

theorem runs_readChunks {fuel : Nat} : ∀ remaining out cap,
    Runs (readChunksMetered fuel remaining out cap) (readChunks fuel remaining out) := by
  induction fuel with
  | zero =>
    intro remaining out cap
    unfold readChunksMetered readChunks
    split
    · exact .pure out
    · exact fun _ _ => rfl
  | succ fuel ih =>
    intro remaining out cap
    unfold readChunksMetered readChunks
    split
    · exact .pure out
    · exact runs_resize fun cap => (Runs.lift _).bind fun bytes => ih _ _ cap

theorem runs_readBytes (len : Nat) : Runs (readBytesMetered len) (readBytes len) :=
  Runs.allocate_bind _ _ (runs_readChunks len [] _)

theorem runs_readRequest : Runs readRequestMetered readRequest :=
  (Runs.lift readU16).bind fun methodLen => (runs_readBytes methodLen).bind fun method =>
    (Runs.lift (readText method)).bind fun _ => (Runs.lift readU16).bind fun pathLen =>
      (runs_readBytes pathLen).bind fun path => (Runs.lift (readText path)).bind fun _ =>
        (Runs.lift readU32).bind fun bodyLen => (runs_readBytes bodyLen).bind fun _ => .pure _

/-! ### The bound -/

theorem readExact_size {n : Nat} {recv rest : RecvStream} {bytes : List UInt8}
    (read : readExact n recv = .ok (bytes, rest)) :
    bytes.length = n ∧ rest.size + n = recv.size := by
  unfold readExact RecvStream.readExact at read
  split_ifs at read with fits
  · cases read
    rw [RecvStream.size, RecvStream.size, RecvStream.advance, List.length_take, List.length_drop]
    omega

/-- Making room for a chunk. What it costs is made up for by the credit in the room. -/
theorem bounded_resize {α : Type} {start want cap n limit : Nat} {recv : RecvStream}
    {m : Nat → MeteredReading α} (small : want ≤ chunkSize)
    (room : 2 * cap ≤ 4 * start + 8 * chunkSize)
    (fits : n + 4 * start + 8 * chunkSize + 4 * recv.size ≤ limit + 2 * cap)
    (next : ∀ cap n, 2 * cap ≤ 4 * start + 8 * chunkSize →
      n + 4 * start + 8 * chunkSize + 4 * recv.size ≤ limit + 2 * cap →
        (m cap recv n).Bounded RecvStream.size 4 limit) :
    ((resize (start + want) cap >>= m) recv n).Bounded RecvStream.size 4 limit := by
  unfold resize
  generalize chunkSize = chunk at small room fits next
  split
  · exact next cap n room fits
  · next tight =>
    generalize larger : max (2 * cap) (start + want) = cap'
    have double : 2 * cap ≤ cap' := by omega
    have half : cap' ≤ 2 * (start + want) := by omega
    exact .grow (by omega) (next cap' _ (by omega) (by omega))

theorem bounded_readChunks {fuel : Nat} : ∀ {remaining cap n limit : Nat} {out : List UInt8}
    {recv : RecvStream}, 2 * cap ≤ 4 * out.length + 8 * chunkSize →
      n + 4 * out.length + 8 * chunkSize + 4 * recv.size ≤ limit + 2 * cap →
      (readChunksMetered fuel remaining out cap recv n).Bounded RecvStream.size 4 limit := by
  induction fuel with
  | zero =>
    intro remaining cap n limit out recv room fits
    unfold readChunksMetered
    split
    · exact (Within.pure out recv n).mono (by omega)
    · exact (Within.fail _ recv n).mono (by omega)
  | succ fuel ih =>
    intro remaining cap n limit out recv room fits
    unfold readChunksMetered
    split
    · exact (Within.pure out recv n).mono (by omega)
    refine bounded_resize (Nat.min_le_right ..) room fits fun cap n room fits => ?_
    have shrinks : Within RecvStream.size 0 4 (lift (readExact (min remaining chunkSize))) :=
      .lift fun s bytes s' read => by
        have := (readExact_size read).2
        omega
    have plain := shrinks recv n
    refine (plain.mono (show _ ≤ limit by omega)).bind (Nat.le_refl _)
      fun bytes rest read _ => ?_
    obtain ⟨length, left⟩ := readExact_size read
    change (readChunksMetered fuel _ (out ++ bytes) cap rest n).Bounded RecvStream.size 4 limit
    refine ih ?_ ?_
    · rw [List.length_append]
      omega
    · rw [List.length_append]
      omega

theorem within_readBytes (len : Nat) :
    Within RecvStream.size (8 * chunkSize) 4 (readBytesMetered len) := fun recv n => by
  have allocated : (allocate RecvStream.size (min len (chunkSize * 4)) recv n :
      Run RecvStream (Fault IoError) Unit).Bounded RecvStream.size 4
        (n + 8 * chunkSize + 4 * recv.size) := .allocate (by omega)
  refine allocated.bind (Nat.le_refl _) fun _ rest same _ => ?_
  cases same
  refine bounded_readChunks ?_ ?_
  · rw [List.length_nil]
    omega
  · change n + min len (chunkSize * 4) + _ + _ + _ ≤ _
    rw [List.length_nil]
    omega

theorem within_readWord (n : Nat) : Within RecvStream.size 0 4 (lift (ofBE <$> readExact n)) := by
  refine .lift fun recv len rest read => ?_
  have step : (ofBE <$> readExact n) recv = (fun p => (ofBE p.1, p.2)) <$> readExact n recv := rfl
  rw [step] at read
  cases taken : readExact n recv with
  | error e =>
    rw [taken] at read
    cases read
  | ok p =>
    rw [taken] at read
    cases read
    have := (readExact_size taken).2
    omega

theorem within_readText (bytes : List UInt8) :
    Within RecvStream.size 0 4 (lift (readText bytes)) := by
  refine .lift fun recv decoded rest read => ?_
  unfold readText text at read
  cases utf8 : fromUtf8 bytes with
  | none =>
    rw [utf8] at read
    cases read
  | some decoded =>
    rw [utf8] at read
    cases read
    exact Nat.le_refl _

theorem within_readRequest : Within RecvStream.size (24 * chunkSize) 4 readRequestMetered := by
  refine Within.mono (c := 0 + (8 * chunkSize + (0 + (0 + (8 * chunkSize + (0 + (0 +
    (8 * chunkSize + 0)))))))) ?_ (by omega)
  exact (within_readWord 2).bind fun methodLen => (within_readBytes methodLen).bind fun method =>
    (within_readText method).bind fun _ => (within_readWord 2).bind fun pathLen =>
      (within_readBytes pathLen).bind fun path => (within_readText path).bind fun _ =>
        (within_readWord 4).bind fun bodyLen => (within_readBytes bodyLen).bind fun _ => .pure _

end Http3

/-! ### Stream C -/

def maxFrameSize : Nat := 16 * 1024

abbrev FrameReading (α : Type) := StateT RecvStream (Except (Fault Error)) α

def readStreamCLength : FrameReading Nat := fun recv =>
  match recv.readExact 4 with
  | .error e => .error (.err (.helloFailed ("read stream C length: " ++ e.lengthText)))
  | .ok length => .ok (ofBE length, recv.advance 4)

def readStreamCBody (len : Nat) : FrameReading (List UInt8) := fun recv =>
  match recv.readExact len with
  | .error .eof => .error (.err .truncated)
  | .error e =>
    .error (.err (.helloFailed ("read stream C body (" ++ toString len ++ " bytes): " ++ e.text)))
  | .ok body => .ok (body, recv.advance len)

def decodeStreamCMetered (body : List UInt8) : Metered RecvStream (Fault Error) ProtoEvent := do
  let decoded := ProtoEvent.tryFromSliceMetered body
  allocate RecvStream.size decoded.2
  lift fun recv => (·, recv) <$>
    mapErr (fun e => Error.helloFailed ("decode stream C frame: " ++ e.toText)) decoded.1

def readStreamCFrameMetered : Metered RecvStream (Fault Error) ProtoEvent := do
  let len ← lift readStreamCLength
  allocate RecvStream.size len
  let body ← lift (readStreamCBody len)
  decodeStreamCMetered body

def decodeStreamC (body : List UInt8) : FrameReading ProtoEvent := fun recv => (·, recv) <$>
  mapErr (fun e => Error.helloFailed ("decode stream C frame: " ++ e.toText))
    (ProtoEvent.tryFromSlice body)

theorem runs_decodeStreamC (body : List UInt8) :
    Runs (decodeStreamCMetered body) (decodeStreamC body) := by
  refine Runs.allocate_bind _ _ fun recv n => ?_
  rw [tryFromSliceMetered_outcome]
  rfl

theorem readStreamCFrameMetered_outcome (recv : RecvStream) (n : Nat) :
    (readStreamCFrameMetered recv n).outcome =
      (·, (readStreamCFrame recv).2) <$> (readStreamCFrame recv).1 := by
  have runs : Runs readStreamCFrameMetered (readStreamCLength >>= fun len =>
      readStreamCBody len >>= decodeStreamC) :=
    (Runs.lift _).bind fun len =>
      Runs.allocate_bind _ _ ((Runs.lift _).bind runs_decodeStreamC)
  rw [runs recv n]
  change (readStreamCLength recv >>= fun p => readStreamCBody p.1 p.2 >>= fun q =>
    decodeStreamC q.1 q.2) = _
  rw [readStreamCLength, readStreamCFrame]
  cases recv.readExact 4 with
  | error e => rfl
  | ok length =>
    change (readStreamCBody (ofBE length) (recv.advance 4) >>= fun q =>
      decodeStreamC q.1 q.2) = _
    rw [readStreamCBody]
    dsimp only
    cases (recv.advance 4).readExact (ofBE length) with
    | error e => cases e <;> rfl
    | ok body => rfl

theorem readStreamCLength_size {recv rest : RecvStream} {len : Nat}
    (read : readStreamCLength recv = .ok (len, rest)) : rest.size ≤ recv.size := by
  unfold readStreamCLength RecvStream.readExact at read
  split_ifs at read with fits
  · cases read
    rw [RecvStream.size, RecvStream.size, RecvStream.advance, List.length_drop]
    omega

theorem readStreamCBody_size {recv rest : RecvStream} {len : Nat} {body : List UInt8}
    (read : readStreamCBody len recv = .ok (body, rest)) :
    body.length = len ∧ rest.size + len = recv.size := by
  unfold readStreamCBody RecvStream.readExact at read
  split_ifs at read with fits
  · cases read
    rw [RecvStream.size, RecvStream.size, RecvStream.advance, List.length_take, List.length_drop]
    omega
  · cases ending : recv.ending <;> rw [ending] at read <;> cases read

theorem bounded_decodeStreamC {body : List UInt8} {recv : RecvStream} {n limit : Nat}
    (fits : n + 16 * body.length + 17 * recv.size ≤ limit) :
    (decodeStreamCMetered body recv n).Bounded RecvStream.size 17 limit := by
  have cost := tryFromSliceMetered_le body
  have copied : (allocate RecvStream.size (ProtoEvent.tryFromSliceMetered body).2 recv n :
      Run RecvStream (Fault Error) Unit).Bounded RecvStream.size 17 limit := .allocate (by omega)
  refine copied.bind (Nat.le_refl _) fun _ rest _ spent => ?_
  exact (Within.outcome _ rest _).mono (by omega)

/-- Seventeen times what was read, for the frame and what decoding it allocates, as long as its
length is below the limit when it is read. -/
theorem bounded_readStreamCFrame {recv : RecvStream} {limit : Nat} (total : 17 * recv.size ≤ limit)
    (declared : ∀ len rest, readStreamCLength recv = .ok (len, rest) →
      len + 17 * rest.size ≤ limit) :
    (readStreamCFrameMetered recv 0).Bounded RecvStream.size 17 limit := by
  have length : Within RecvStream.size 0 17 (lift readStreamCLength) :=
    .lift fun s len s' read => readStreamCLength_size read
  refine ((length recv 0).mono (show _ ≤ limit by omega)).bind (Nat.le_refl _)
    fun len rest read _ => ?_
  have small := declared len rest read
  have left := readStreamCLength_size read
  have allocated : (allocate RecvStream.size len rest 0 :
      Run RecvStream (Fault Error) Unit).Bounded RecvStream.size 17 limit := .allocate (by omega)
  refine allocated.bind (Nat.le_refl _) fun _ _ same _ => ?_
  cases same
  have whole : Within RecvStream.size 0 17 (lift (readStreamCBody len)) :=
    .lift fun s body s' read => by
      have := (readStreamCBody_size read).2
      omega
  have waiting := (whole rest (0 + len)).mono (show _ ≤ limit by omega)
  refine waiting.bind (Nat.le_refl _) fun body rest' read _ => ?_
  obtain ⟨full, left'⟩ := readStreamCBody_size read
  exact bounded_decodeStreamC (by change 0 + len + _ + _ ≤ _; omega)

/-- Where the reader task goes on after a frame, if it does. -/
def afterFrame (recv : RecvStream) : Option RecvStream :=
  match readStreamCFrame recv with
  | (.ok _, rest) => some rest
  | (.error (.err e), rest) => if isDecodeError "decode stream C frame" e then some rest else none
  | (.error _, _) => none

/-- The moments of a stream C reader task. What one frame took is free again for the next. -/
def streamCMoments : Nat → RecvStream → List Moment
  | 0, _ => []
  | fuel + 1, recv =>
    (readStreamCFrameMetered recv 0).moments ++ (afterFrame recv).elim [] (streamCMoments fuel)

/-- The length a peer declares for the next frame, with what is unread behind it. -/
def declaredLength (recv : RecvStream) : List (Nat × Nat) :=
  match readStreamCLength recv with
  | .error _ => []
  | .ok (len, rest) => [(len, rest.size)]

def declaredLengths : Nat → RecvStream → List (Nat × Nat)
  | 0, _ => []
  | fuel + 1, recv => declaredLength recv ++ (afterFrame recv).elim [] (declaredLengths fuel)

theorem mem_declaredLength {recv : RecvStream} {d : Nat × Nat} :
    d ∈ declaredLength recv ↔ ∃ rest, readStreamCLength recv = .ok (d.1, rest) ∧
      d.2 = rest.size := by
  unfold declaredLength
  cases readStreamCLength recv with
  | error e => simp
  | ok p =>
    refine ⟨fun mem => ?_, ?_⟩
    · cases List.mem_singleton.mp mem
      exact ⟨_, rfl, rfl⟩
    · rintro ⟨rest, read, size⟩
      cases read
      exact List.mem_singleton.mpr (Prod.ext rfl size)

theorem mem_afterFrame {α : Type} {recv : RecvStream} {f : RecvStream → List α} {a : α} :
    a ∈ (afterFrame recv).elim [] f ↔ ∃ rest, afterFrame recv = some rest ∧ a ∈ f rest := by
  cases afterFrame recv <;> simp

theorem readStreamCFrame_size (recv : RecvStream) : (readStreamCFrame recv).2.size ≤ recv.size := by
  have advanced : ∀ (recv : RecvStream) (n : Nat), (recv.advance n).size ≤ recv.size := by
    intro recv n
    rw [RecvStream.size, RecvStream.size, RecvStream.advance, List.length_drop]
    omega
  have first := advanced recv 4
  unfold readStreamCFrame
  cases recv.readExact 4 with
  | error e => exact Nat.zero_le _
  | ok length =>
    dsimp only
    cases (recv.advance 4).readExact (ofBE length) with
    | error e => cases e <;> exact Nat.zero_le _
    | ok body => exact Nat.le_trans (advanced _ _) first

theorem afterFrame_size {recv rest : RecvStream} (next : afterFrame recv = some rest) :
    rest.size ≤ recv.size := by
  have shorter := readStreamCFrame_size recv
  unfold afterFrame at next
  split at next
  · next read =>
    cases next
    rwa [read] at shorter
  · next read =>
    split_ifs at next
    cases next
    rwa [read] at shorter
  · cases next

/-- No more is unread behind a length than there was at first. -/
theorem declaredLengths_unread {fuel : Nat} : ∀ {recv : RecvStream},
    ∀ d ∈ declaredLengths fuel recv, d.2 ≤ recv.size := by
  induction fuel with
  | zero => exact fun _ mem => absurd mem List.not_mem_nil
  | succ fuel ih =>
    intro recv d mem
    rcases List.mem_append.mp mem with first | later
    · obtain ⟨rest, read, size⟩ := mem_declaredLength.mp first
      exact size ▸ readStreamCLength_size read
    · obtain ⟨rest, next, mem⟩ := mem_afterFrame.mp later
      exact Nat.le_trans (ih d mem) (afterFrame_size next)

theorem streamCMoments_le {fuel limit : Nat} : ∀ {recv : RecvStream}, 17 * recv.size ≤ limit →
    (∀ d ∈ declaredLengths fuel recv, d.1 + 17 * d.2 ≤ limit) →
    ∀ v ∈ streamCMoments fuel recv, v.allocated + 17 * v.unread ≤ limit := by
  induction fuel with
  | zero => exact fun _ _ _ mem => absurd mem List.not_mem_nil
  | succ fuel ih =>
    intro recv total declared v mem
    rcases List.mem_append.mp mem with first | later
    · refine (bounded_readStreamCFrame total fun len rest read => ?_).moments v first
      exact declared (len, rest.size)
        (List.mem_append_left _ (mem_declaredLength.mpr ⟨rest, read, rfl⟩))
    · obtain ⟨rest, next, mem⟩ := mem_afterFrame.mp later
      have shorter := afterFrame_size next
      exact ih (by omega) (fun d mem => declared d
        (List.mem_append_right _ (mem_afterFrame.mpr ⟨rest, next, mem⟩))) v mem

/-- A frame is allocated as soon as its length is read. -/
theorem declared_mem_moments {fuel : Nat} : ∀ {recv : RecvStream}, ∀ d ∈ declaredLengths fuel recv,
    ⟨d.2, d.1⟩ ∈ streamCMoments fuel recv := by
  induction fuel with
  | zero => exact fun _ mem => absurd mem List.not_mem_nil
  | succ fuel ih =>
    intro recv d mem
    rcases List.mem_append.mp mem with first | later
    · obtain ⟨rest, read, size⟩ := mem_declaredLength.mp first
      have lifted : lift readStreamCLength recv 0 = ⟨.ok (d.1, rest), [], 0⟩ := by
        rw [lift, read]
      have allocated : (allocate RecvStream.size d.1 rest 0 : Run RecvStream (Fault Error) Unit) =
          ⟨.ok ((), rest), [⟨rest.size, 0 + d.1⟩], 0 + d.1⟩ := rfl
      refine List.mem_append_left _ ?_
      rw [readStreamCFrameMetered, bind_of_ok lifted, bind_of_ok allocated, Nat.zero_add, size]
      exact List.mem_append_right _ (List.mem_append_left _ (List.mem_singleton.mpr rfl))
    · obtain ⟨rest, next, mem⟩ := mem_afterFrame.mp later
      exact List.mem_append_right _ (mem_afterFrame.mpr ⟨rest, next, ih d mem⟩)

/-- What the readers have allocated at every moment is at most a constant and a multiple of the
bytes they have read: for a request 24 chunks and four times those bytes; on stream C the documented
cap of a frame and seventeen times those bytes. -/
def MemoryBounded (bytes : List UInt8) (ending : Ending) : Prop :=
  (∀ v ∈ (Http3.readRequestMetered ⟨bytes, ending⟩ 0).moments,
    v.allocated ≤ 24 * Http3.chunkSize + 4 * (bytes.length - v.unread)) ∧
  ∀ fuel, ∀ v ∈ streamCMoments fuel ⟨bytes, ending⟩,
    v.allocated ≤ maxFrameSize + 17 * (bytes.length - v.unread)

/-- The memory of the readers is bounded exactly when no length that a peer declares on stream C is
above the cap and seventeen times the bytes up to and with that length. -/
theorem reader_memory_bounded_iff (bytes : List UInt8) (ending : Ending) :
    MemoryBounded bytes ending ↔ ∀ fuel, ∀ d ∈ declaredLengths fuel ⟨bytes, ending⟩,
      d.1 ≤ maxFrameSize + 17 * (bytes.length - d.2) := by
  constructor
  · rintro ⟨-, bounded⟩ fuel d mem
    exact bounded fuel ⟨d.2, d.1⟩ (declared_mem_moments d mem)
  · refine fun declared => ⟨fun v mem => ?_, fun fuel v mem => ?_⟩
    · have bound := (Http3.within_readRequest ⟨bytes, ending⟩ 0).moments v mem
      change _ ≤ 0 + _ + 4 * bytes.length at bound
      omega
    · have total : 17 * RecvStream.size ⟨bytes, ending⟩ ≤ maxFrameSize + 17 * bytes.length :=
        Nat.le_add_left ..
      have bound := streamCMoments_le total (fun d mem => ?_) v mem
      · omega
      · have below := declared fuel d mem
        have unread : d.2 ≤ bytes.length := declaredLengths_unread d mem
        omega

/-- A length that nothing follows makes the stream C reader allocate 4 GiB. -/
theorem reader_memory_exceeds_cap :
    ⟨0, 2 ^ 32 - 1⟩ ∈ streamCMoments 1 ⟨[0xff, 0xff, 0xff, 0xff], .eof⟩ ∧
      maxFrameSize + 17 * 4 < 2 ^ 32 - 1 :=
  ⟨declared_mem_moments (2 ^ 32 - 1, 0) (by decide +kernel), by decide⟩

end LanMouse.Transport
