import LanMouse.Transport.Http3

/-!
# Responses

The answer to a request is its status, the length of its body and the body. The server writes it
with one write for each part of the header and one for each chunk of the body; the client takes the
header and then chunk after chunk, as many bytes as the header announces. `encodeResponse` and
`decodeResponse` say in one piece what the two ends exchange.

`Writes w bytes` says what a writer puts on a stream: the bytes, cut in some way, or the error the
stream was going to answer with.
-/
namespace LanMouse.Transport.Http3

open Bytes Proto

def responseHeaderLenBytes : Nat := 2 + 4

structure Response where
  status : UInt16
  body : List UInt8
  deriving DecidableEq, Repr

def encodeResponse (status : UInt16) (body : List UInt8) : List UInt8 :=
  let buf := toBE 2 status.toNat
  let buf := buf ++ toBE 4 body.length
  buf ++ body

def decodeResponse (buf : List UInt8) : IoResult (Response × Nat) := do
  if buf.length < responseHeaderLenBytes then truncated "response header truncated"
  else
    let status ← ofBE <$> index buf 0 2
    let bodyLen ← ofBE <$> index buf 2 6
    let bodyStart := responseHeaderLenBytes
    let total := bodyStart + bodyLen
    if buf.length < total then truncated "response body truncated"
    else
      let body ← index buf bodyStart total
      .ok (⟨UInt16.ofNat status, body⟩, total)

/-! ### Writing to a stream -/

/-- `quinn::WriteError`. -/
inductive WriteError where
  | stopped (code : Nat)
  | connectionLost (text : String)
  | closedStream
  | zeroRttRejected
  deriving DecidableEq, Repr

/-- An I/O error of a stream: one of the kinds of `IoError`, or `ConnectionAborted`. -/
inductive StreamError where
  | io (e : IoError)
  | connectionAborted (text : String)
  deriving DecidableEq, Repr

def writeErrToIo : WriteError → StreamError
  | .stopped _ => .connectionAborted "peer STOP_SENDING"
  | .connectionLost inner => .connectionAborted inner
  | .closedStream => .connectionAborted "stream closed"
  | .zeroRttRejected => .connectionAborted "0-RTT rejected (server rejected 0-RTT data)"

/-- The pieces a stream has taken, and how many more it takes before it fails, if it does. -/
structure SendStream where
  written : List (List UInt8)
  failure : Option (Nat × WriteError)
  deriving DecidableEq, Repr

abbrev Writing := StateT SendStream (Except (Fault StreamError)) Unit

def writeAll (piece : List UInt8) : Writing := fun send =>
  match send.failure with
  | none => .ok ((), ⟨send.written ++ [piece], none⟩)
  | some (0, e) => .error (.err (writeErrToIo e))
  | some (n + 1, e) => .ok ((), ⟨send.written ++ [piece], some (n, e)⟩)

def writeSlice (buf : List UInt8) (i j : Nat) : Writing := fun send =>
  match index buf i j with
  | .ok piece => writeAll piece send
  | .error _ => .error .panic

def writeResponseHeader (status : UInt16) (bodyLen : Nat) : Writing := do
  writeAll (toBE 2 status.toNat)
  writeAll (toBE 4 bodyLen)

/-- The loop of `write_response_streaming`, which comes closer to the end with every turn. -/
def writeChunks (body : List UInt8) : Nat → Nat → Writing
  | 0, offset => if offset < body.length then fun _ => .error .hang else pure ()
  | fuel + 1, offset =>
    if offset < body.length then do
      let stop := min (offset + chunkSize) body.length
      writeSlice body offset stop
      writeChunks body fuel stop
    else pure ()

def writeResponseStreaming (response : Response) : Writing := do
  writeResponseHeader response.status response.body.length
  if response.body.isEmpty then pure ()
  else writeChunks response.body response.body.length 0

/-! ### Reading from a stream -/

/-- `quinn::ReadExactError`. -/
inductive ReadExactError where
  | readError (text : String)
  | finishedEarly (n : Nat)
  deriving DecidableEq, Repr

def readExactErr : ReadExactError → StreamError
  | .readError inner => .connectionAborted inner
  | .finishedEarly n =>
    .io (.unexpectedEof ("stream closed mid-body (got " ++ toString n ++ " bytes)"))

abbrev Getting (α : Type) := StateT RecvStream (Except (Fault StreamError)) α

def readResponseHeader : Reading (UInt16 × Nat) := do
  let status ← readU16
  let bodyLen ← readU32
  pure (UInt16.ofNat status, bodyLen)

def getHeader : Getting (UInt16 × Nat) := fun recv => mapErr .io (readResponseHeader recv)

/-- `quinn::RecvStream::read_exact`, which says how much there was of what it could not fill. -/
def getExact (n : Nat) : Getting (List UInt8) := fun recv =>
  match recv.readExact n, recv.ending with
  | .ok bytes, _ => .ok (bytes, recv.advance n)
  | .error _, .eof => .error (.err (readExactErr (.finishedEarly recv.bytes.length)))
  | .error _, .ioError text => .error (.err (readExactErr (.readError text)))

/-- The loop of `get_bytes`, with what it has given to its sink. -/
def getChunks : Nat → Nat → List UInt8 → Getting (List UInt8)
  | 0, remaining, out => if remaining = 0 then pure out else fun _ => .error .hang
  | fuel + 1, remaining, out =>
    if remaining = 0 then pure out
    else do
      let want := min remaining chunkSize
      let chunk ← getExact want
      getChunks fuel (remaining - want) (out ++ chunk)

/-- What `get_bytes` does once its request is out: the answer arrives on the same stream. -/
def getBytes : Getting (UInt16 × List UInt8) := do
  let (status, bodyLen) ← getHeader
  let out ← getChunks bodyLen bodyLen []
  pure (status, out)

/-! ### What a writer writes -/

def Writes (w : Writing) (bytes : List UInt8) : Prop :=
  ∀ send, (∃ pieces failure, w send = .ok ((), ⟨send.written ++ pieces, failure⟩) ∧
      pieces.flatten = bytes ∧ failure.map Prod.snd = send.failure.map Prod.snd) ∨
    ∃ e, send.failure.map Prod.snd = some e ∧ w send = .error (.err (writeErrToIo e))

theorem Writes.nothing : Writes (pure ()) [] := by
  intro send
  exact .inl ⟨[], send.failure, by rw [List.append_nil]; rfl, rfl, rfl⟩

theorem Writes.writeAll (piece : List UInt8) : Writes (writeAll piece) piece := by
  intro send
  obtain ⟨written, failure⟩ := send
  match failure with
  | none => exact .inl ⟨[piece], none, rfl, List.append_nil piece, rfl⟩
  | some (0, e) => exact .inr ⟨e, rfl, rfl⟩
  | some (n + 1, e) => exact .inl ⟨[piece], some (n, e), rfl, List.append_nil piece, rfl⟩

theorem Writes.writeSlice {buf : List UInt8} {i j : Nat} (le : i ≤ j) (fits : j ≤ buf.length) :
    Writes (writeSlice buf i j) (slice buf i j) := by
  have same : Http3.writeSlice buf i j = Http3.writeAll (slice buf i j) := by
    funext send
    simp only [Http3.writeSlice, index_eq le fits]
  rw [same]
  exact .writeAll _

theorem Writes.bind {w v : Writing} {front back : List UInt8} (first : Writes w front)
    (second : Writes v back) : Writes (w >>= fun _ => v) (front ++ back) := by
  intro send
  have step : (w >>= fun _ => v) send = (w send >>= fun p => v p.2) := rfl
  rw [step]
  obtain ⟨pieces, failure, ok, flat, same⟩ | ⟨e, fails, error⟩ := first send
  · rw [ok]
    obtain ⟨later, failure', ok', flat', same'⟩ | ⟨e, fails, error⟩ :=
      second ⟨send.written ++ pieces, failure⟩
    · refine .inl ⟨pieces ++ later, failure', ?_, ?_, same'.trans same⟩
      · rw [← List.append_assoc]
        exact ok'
      · rw [List.flatten_append, flat, flat']
    · exact .inr ⟨e, same.symm.trans fails, error⟩
  · rw [error]
    exact .inr ⟨e, fails, rfl⟩

theorem writes_writeChunks {body : List UInt8} {fuel : Nat} :
    ∀ {offset : Nat}, offset ≤ body.length → body.length ≤ offset + fuel →
      Writes (writeChunks body fuel offset) (body.drop offset) := by
  induction fuel with
  | zero =>
    intro offset within enough
    rw [writeChunks, if_neg (by omega), List.drop_of_length_le (by omega)]
    exact .nothing
  | succ fuel ih =>
    intro offset within enough
    rw [writeChunks]
    by_cases more : offset < body.length
    · have chunk : 0 < chunkSize := by decide
      rw [if_pos more]
      generalize stop_eq : min (offset + chunkSize) body.length = stop
      have pieces : slice body offset stop ++ body.drop stop = body.drop offset := by
        have ahead : offset + (stop - offset) = stop := by omega
        rw [slice, ← ahead, Nat.add_sub_cancel_left, ← List.drop_drop, List.take_append_drop]
      rw [← pieces]
      exact (Writes.writeSlice (by omega) (by omega)).bind (ih (by omega) (by omega))
    · rw [if_neg more, List.drop_of_length_le (Nat.le_of_not_lt more)]
      exact .nothing

theorem writes_writeResponseStreaming (response : Response) :
    Writes (writeResponseStreaming response) (encodeResponse response.status response.body) := by
  refine ((Writes.writeAll _).bind (.writeAll _)).bind ?_
  by_cases empty : response.body = []
  · rw [empty]
    exact .nothing
  · rw [if_neg (by simpa using empty)]
    exact writes_writeChunks (Nat.zero_le _) (by omega)

/-! ### What the client reads -/

theorem getChunks_append {fuel : Nat} : ∀ (body out more : List UInt8) (ending : Ending),
    body.length ≤ fuel →
      getChunks fuel body.length out ⟨body ++ more, ending⟩ =
        .ok (out ++ body, ⟨more, ending⟩) := by
  induction fuel with
  | zero =>
    intro body out more ending enough
    obtain rfl := List.length_eq_zero_iff.mp (Nat.le_zero.mp enough)
    rw [List.append_nil]
    rfl
  | succ fuel ih =>
    intro body out more ending enough
    rw [getChunks]
    by_cases done : body.length = 0
    · obtain rfl := List.length_eq_zero_iff.mp done
      rw [List.append_nil]
      rfl
    have chunk : 0 < chunkSize := by decide
    rw [if_neg done]
    generalize want_eq : min body.length chunkSize = want
    have least : want ≤ body.length := by omega
    have step : (getExact want >>= fun bytes =>
        getChunks fuel (body.length - want) (out ++ bytes)) ⟨body ++ more, ending⟩ =
        (getExact want ⟨body ++ more, ending⟩ >>= fun p =>
          getChunks fuel (body.length - want) (out ++ p.1) p.2) := rfl
    have read : getExact want ⟨body ++ more, ending⟩ =
        .ok (body.take want, ⟨body.drop want ++ more, ending⟩) := by
      have room : want ≤ (body ++ more).length := by simp; omega
      simp only [getExact, RecvStream.readExact, if_pos room, RecvStream.advance,
        List.take_append_of_le_length least, List.drop_append_of_le_length least]
    have rest := ih (body.drop want) (out ++ body.take want) more ending (by simp; omega)
    rw [List.length_drop, List.append_assoc, List.take_append_drop] at rest
    rw [step, read]
    exact rest

theorem readResponseHeader_append (status : UInt16) {len : Nat} (small : len < 2 ^ 32)
    (more : List UInt8) (ending : Ending) :
    readResponseHeader ⟨toBE 2 status.toNat ++ (toBE 4 len ++ more), ending⟩ =
      .ok ((status, len), ⟨more, ending⟩) := by
  generalize whole : toBE 2 status.toNat ++ (toBE 4 len ++ more) = buf
  have statusWord : slice buf 0 2 = toBE 2 status.toNat :=
    slice_of_append [] _ (toBE 4 len ++ more) whole.symm rfl (by simp)
  have lenWord : slice buf 2 6 = toBE 4 len :=
    slice_of_append (toBE 2 status.toNat) _ more whole.symm (by simp) (by simp)
  have rest : buf.drop 6 = more := by
    simp [← whole, List.drop_append]
  have long : 6 ≤ buf.length := by
    simp [← whole]
    omega
  have value : ofBE (toBE 2 status.toNat) = status.toNat := ofBE_word status.toNat_lt
  have first : readU16 ⟨buf, ending⟩ = .ok (status.toNat, after buf ending 2) :=
    (word_ok_iff (Nat.zero_le _)).mpr ⟨by omega, by rw [statusWord, value], rfl⟩
  have second : readU32 (after buf ending 2) = .ok (len, after buf ending 6) :=
    (word_ok_iff (by omega)).mpr ⟨by omega, by rw [lenWord, ofBE_word small], rfl⟩
  refine reading_bind_ok_iff.mpr ⟨_, _, first, reading_bind_ok_iff.mpr ⟨_, _, second, ?_⟩⟩
  rw [UInt16.ofNat_toNat, after, rest]
  rfl

theorem getBytes_encodeResponse {response : Response} (small : response.body.length < 2 ^ 32)
    (more : List UInt8) (ending : Ending) :
    getBytes ⟨encodeResponse response.status response.body ++ more, ending⟩ =
      .ok ((response.status, response.body), ⟨more, ending⟩) := by
  have header := readResponseHeader_append response.status small (response.body ++ more) ending
  have body := getChunks_append response.body [] more ending (Nat.le_refl _)
  have step : ∀ recv, getBytes recv = (getHeader recv >>= fun p =>
      getChunks p.1.2 p.1.2 [] p.2 >>= fun q => .ok ((p.1.1, q.1), q.2)) := fun _ => rfl
  rw [step, encodeResponse, getHeader, List.append_assoc, List.append_assoc, header, mapErr]
  change (getChunks response.body.length response.body.length [] ⟨response.body ++ more, ending⟩
    >>= fun q => .ok ((response.status, q.1), q.2)) = _
  rw [body]
  rfl

theorem decodeResponse_encodeResponse {response : Response}
    (small : response.body.length < 2 ^ 32) (more : List UInt8) :
    decodeResponse (encodeResponse response.status response.body ++ more) =
      .ok (response, (encodeResponse response.status response.body).length) := by
  generalize whole : encodeResponse response.status response.body ++ more = buf
  let s := toBE 2 response.status.toNat
  let b := toBE 4 response.body.length
  have split : buf = s ++ b ++ response.body ++ more := whole.symm
  have length : (encodeResponse response.status response.body).length =
      6 + response.body.length := by
    simp [encodeResponse]
    omega
  have fits : 6 + response.body.length ≤ buf.length := by
    simp [← whole, length]
  have statusWord : slice buf 0 2 = s :=
    slice_of_append [] s (b ++ response.body ++ more) (by simp [split]) rfl (by simp [s])
  have lenWord : slice buf 2 6 = b :=
    slice_of_append s b (response.body ++ more) (by simp [split]) (by simp [s]) (by simp [b])
  have bodyBytes : slice buf 6 (6 + response.body.length) = response.body :=
    slice_of_append (s ++ b) response.body more (by simp [split]) (by simp [s, b]) rfl
  have six : responseHeaderLenBytes = 6 := rfl
  rw [decodeResponse]
  dsimp only
  rw [six, if_neg (by omega), ofBE_index (by omega) (by omega), ok_bind,
    ofBE_index (by omega) (by omega), ok_bind, statusWord, lenWord, ofBE_word small,
    ofBE_word response.status.toNat_lt, if_neg (by omega), index_eq (by omega) fits, bodyBytes,
    UInt16.ofNat_toNat, length]
  rfl

/-- The chunked writer puts the encoded response on the stream, which is decoded whatever follows
it, and which the chunked reader takes off the stream again. -/
theorem response_writer_reader (response : Response) (small : response.body.length < 2 ^ 32) :
    (∀ send, (∃ pieces failure,
        writeResponseStreaming response send = .ok ((), ⟨send.written ++ pieces, failure⟩) ∧
          pieces.flatten = encodeResponse response.status response.body) ∨
        ∃ n e, send.failure = some (n, e) ∧
          writeResponseStreaming response send = .error (.err (writeErrToIo e))) ∧
      (∀ more, decodeResponse (encodeResponse response.status response.body ++ more) =
        .ok (response, (encodeResponse response.status response.body).length)) ∧
      ∀ more ending,
        getBytes ⟨encodeResponse response.status response.body ++ more, ending⟩ =
          .ok ((response.status, response.body), ⟨more, ending⟩) := by
  refine ⟨?_, decodeResponse_encodeResponse small, getBytes_encodeResponse small⟩
  intro send
  obtain ⟨pieces, failure, ok, flat, -⟩ | ⟨e, fails, error⟩ :=
    writes_writeResponseStreaming response send
  · exact .inl ⟨pieces, failure, ok, flat⟩
  · obtain ⟨⟨n, e'⟩, some, rfl⟩ := Option.map_eq_some_iff.mp fails
    exact .inr ⟨n, e', some, error⟩

theorem response_writer_reader_found :
    ([1, 2] : List UInt8).length < 2 ^ 32 ∧
      (∀ more, decodeResponse (encodeResponse 200 [1, 2] ++ more) = .ok (⟨200, [1, 2]⟩, 8)) ∧
      getBytes ⟨[0, 200, 0, 0, 0, 2, 1, 2], .eof⟩ = .ok ((200, [1, 2]), ⟨[], .eof⟩) :=
  have small : ([1, 2] : List UInt8).length < 2 ^ 32 := by decide
  have both := (response_writer_reader ⟨200, [1, 2]⟩ small).2
  ⟨small, both.1, both.2 [] .eof⟩

end LanMouse.Transport.Http3
