import LanMouse.Transport.Writer

/-!
# Requests

A request on a stream of its own is its method, its path and its body, each with its length in
front: two bytes for the texts, four for the body. `decodeRequest` takes it from a buffer by offset
arithmetic and checks the texts last; `readRequest` takes it from a stream piece by piece, the long
pieces in chunks, and checks each text as soon as it is read.

`IsRequest` says where in a buffer a request lies. Both parsers succeed on exactly the buffers that
start with one, with that request.
-/
namespace LanMouse.Transport.Http3

open Bytes Proto

def headerLenBytes : Nat := 2 + 2 + 4

def chunkSize : Nat := 64 * 1024

structure Request where
  method : String
  path : String
  body : List UInt8
  deriving DecidableEq, Repr

/-- `std::io::Error`, by kind. Text that is not UTF-8 is reported with its bytes. -/
inductive IoError where
  | unexpectedEof (text : String)
  | invalidData (bytes : List UInt8)
  | other (text : String)
  deriving DecidableEq, Repr

abbrev IoResult (α : Type) := Except (Fault IoError) α

/-- The bytes from `i` up to `j`. -/
def slice (buf : List UInt8) (i j : Nat) : List UInt8 := (buf.drop i).take (j - i)

/-- Indexing with a range, which panics out of bounds. -/
def index (buf : List UInt8) (i j : Nat) : IoResult (List UInt8) :=
  if i ≤ j ∧ j ≤ buf.length then .ok (slice buf i j) else .error .panic

def text (bytes : List UInt8) : IoResult String :=
  match fromUtf8 bytes with
  | some s => .ok s
  | none => .error (.err (.invalidData bytes))

def truncated {α : Type} (what : String) : IoResult α := .error (.err (.unexpectedEof what))

def decodeRequest (buf : List UInt8) : IoResult (Request × Nat) := do
  if buf.length < headerLenBytes then truncated "request header truncated"
  else
    let methodLen ← ofBE <$> index buf 0 2
    let pathStart := 2 + methodLen
    if buf.length < pathStart + 2 then truncated "path_len missing"
    else
      let pathLen ← ofBE <$> index buf pathStart (pathStart + 2)
      let bodyLenStart := pathStart + 2 + pathLen
      if buf.length < bodyLenStart + 4 then truncated "body_len missing"
      else
        let bodyLen ← ofBE <$> index buf bodyLenStart (bodyLenStart + 4)
        let bodyStart := bodyLenStart + 4
        let total := bodyStart + bodyLen
        if buf.length < total then truncated "body truncated"
        else
          let method ← index buf 2 pathStart >>= text
          let path ← index buf (pathStart + 2) bodyLenStart >>= text
          let body ← index buf bodyStart total
          .ok (⟨method, path, body⟩, total)

/-! ### Reading from a stream -/

abbrev Reading (α : Type) := StateT RecvStream (Except (Fault IoError)) α

def ioError : Ending → IoError
  | .eof => .unexpectedEof "early eof"
  | .ioError text => .other text

def readExact (n : Nat) : Reading (List UInt8) := fun recv =>
  match recv.readExact n with
  | .ok bytes => .ok (bytes, recv.advance n)
  | .error ending => .error (.err (ioError ending))

def readU16 : Reading Nat := ofBE <$> readExact 2

def readU32 : Reading Nat := ofBE <$> readExact 4

/-- The loop of `read_bytes`. Every turn takes something off `remaining`, so `remaining` turns are
enough. -/
def readChunks : Nat → Nat → List UInt8 → Reading (List UInt8)
  | 0, remaining, out => if remaining = 0 then pure out else fun _ => .error .hang
  | fuel + 1, remaining, out =>
    if remaining = 0 then pure out
    else do
      let want := min remaining chunkSize
      let bytes ← readExact want
      readChunks fuel (remaining - want) (out ++ bytes)

def readBytes (len : Nat) : Reading (List UInt8) := readChunks len len []

def readText (bytes : List UInt8) : Reading String := fun recv => (·, recv) <$> text bytes

def readRequest : Reading Request := do
  let methodLen ← readU16
  let method ← readBytes methodLen
  let method ← readText method
  let pathLen ← readU16
  let path ← readBytes pathLen
  let path ← readText path
  let bodyLen ← readU32
  let body ← readBytes bodyLen
  pure ⟨method, path, body⟩

/-! ### Where a request lies -/

section Layout

variable (buf : List UInt8)

def pathStart : Nat := 2 + ofBE (slice buf 0 2)

def bodyLenStart : Nat :=
  pathStart buf + 2 + ofBE (slice buf (pathStart buf) (pathStart buf + 2))

def bodyStart : Nat := bodyLenStart buf + 4

def requestEnd : Nat := bodyStart buf + ofBE (slice buf (bodyLenStart buf) (bodyStart buf))

theorem pathStart_eq : 2 + ofBE (slice buf 0 2) = pathStart buf := rfl

theorem bodyLenStart_eq :
    pathStart buf + 2 + ofBE (slice buf (pathStart buf) (pathStart buf + 2)) = bodyLenStart buf :=
  rfl

theorem bodyStart_eq : bodyLenStart buf + 4 = bodyStart buf := rfl

theorem requestEnd_eq :
    bodyStart buf + ofBE (slice buf (bodyLenStart buf) (bodyStart buf)) = requestEnd buf := rfl

end Layout

/-- The first `total` bytes of `buf` are this request. -/
structure IsRequest (buf : List UInt8) (request : Request) (total : Nat) : Prop where
  total_eq : total = requestEnd buf
  fits : total ≤ buf.length
  method : fromUtf8 (slice buf 2 (pathStart buf)) = some request.method
  path : fromUtf8 (slice buf (pathStart buf + 2) (bodyLenStart buf)) = some request.path
  body : slice buf (bodyStart buf) total = request.body

theorem text_ok_iff {bytes : List UInt8} {s : String} :
    text bytes = .ok s ↔ fromUtf8 bytes = some s := by
  rw [text]
  cases fromUtf8 bytes with
  | none => simp
  | some t => simp

theorem index_eq {buf : List UInt8} {i j : Nat} (le : i ≤ j) (fits : j ≤ buf.length) :
    index buf i j = .ok (slice buf i j) := if_pos ⟨le, fits⟩

theorem ofBE_index {buf : List UInt8} {i j : Nat} (le : i ≤ j) (fits : j ≤ buf.length) :
    ofBE <$> index buf i j = .ok (ofBE (slice buf i j)) := by
  rw [index_eq le fits]
  rfl

theorem index_text {buf : List UInt8} {i j : Nat} (le : i ≤ j) (fits : j ≤ buf.length) :
    index buf i j >>= text = text (slice buf i j) := by
  rw [index_eq le fits]
  rfl

theorem ok_bind {α β : Type} (a : α) (f : α → IoResult β) : (Except.ok a >>= f) = f a := rfl

theorem headerLenBytes_le_bodyStart (buf : List UInt8) : headerLenBytes ≤ bodyStart buf := by
  have path := pathStart_eq buf
  have bodyLen := bodyLenStart_eq buf
  have start := bodyStart_eq buf
  rw [headerLenBytes]
  omega

/-- With the four bytes of the body's length there, only the end of the body is still checked. -/
theorem decodeRequest_of_header {buf : List UInt8} (header : bodyStart buf ≤ buf.length) :
    decodeRequest buf =
      if buf.length < requestEnd buf then truncated "body truncated"
      else
        text (slice buf 2 (pathStart buf)) >>= fun method =>
          text (slice buf (pathStart buf + 2) (bodyLenStart buf)) >>= fun path =>
            .ok (⟨method, path, slice buf (bodyStart buf) (requestEnd buf)⟩, requestEnd buf) := by
  have least := headerLenBytes_le_bodyStart buf
  have start := bodyStart_eq buf
  have bodyLen := bodyLenStart_eq buf
  have path := pathStart_eq buf
  have total := requestEnd_eq buf
  have eight : headerLenBytes = 8 := rfl
  rw [decodeRequest]
  dsimp only
  rw [if_neg (by omega), ofBE_index (by omega) (by omega), ok_bind, path,
    if_neg (by omega), ofBE_index (by omega) (by omega), ok_bind, bodyLen, start,
    if_neg (by omega), ofBE_index (by omega) header, ok_bind, total]
  by_cases short : buf.length < requestEnd buf
  · rw [if_pos short, if_pos short]
  rw [if_neg short, if_neg short, index_text (by omega) (by omega),
    index_text (by omega) (by omega), index_eq (by omega) (Nat.le_of_not_lt short)]
  rfl

theorem decodeRequest_of_short {buf : List UInt8} (short : buf.length < bodyStart buf) :
    ∃ what, decodeRequest buf = truncated what := by
  have start := bodyStart_eq buf
  have bodyLen := bodyLenStart_eq buf
  have path := pathStart_eq buf
  have eight : headerLenBytes = 8 := rfl
  rw [decodeRequest]
  dsimp only
  by_cases header : buf.length < headerLenBytes
  · exact ⟨_, if_pos header⟩
  rw [if_neg header, ofBE_index (by omega) (by omega), ok_bind, path]
  by_cases noPath : buf.length < pathStart buf + 2
  · exact ⟨_, if_pos noPath⟩
  rw [if_neg noPath, ofBE_index (by omega) (by omega), ok_bind, bodyLen, start]
  exact ⟨_, if_pos short⟩

theorem bind_ok_iff {α β : Type} {x : IoResult α} {f : α → IoResult β} {b : β} :
    x >>= f = .ok b ↔ ∃ a, x = .ok a ∧ f a = .ok b := by
  cases x with
  | error e => simp [bind, Except.bind]
  | ok a => simp [bind, Except.bind]

theorem decodeRequest_ok_iff {buf : List UInt8} {request : Request} {total : Nat} :
    decodeRequest buf = .ok (request, total) ↔ IsRequest buf request total := by
  have reaches := requestEnd_eq buf
  constructor
  · intro ok
    by_cases header : buf.length < bodyStart buf
    · obtain ⟨what, short⟩ := decodeRequest_of_short header
      cases short.symm.trans ok
    rw [decodeRequest_of_header (Nat.le_of_not_lt header)] at ok
    by_cases short : buf.length < requestEnd buf
    · rw [if_pos short] at ok
      cases ok
    rw [if_neg short] at ok
    obtain ⟨method, methodOk, ok⟩ := bind_ok_iff.mp ok
    obtain ⟨path, pathOk, ok⟩ := bind_ok_iff.mp ok
    cases ok
    exact ⟨rfl, Nat.le_of_not_lt short, text_ok_iff.mp methodOk, text_ok_iff.mp pathOk, rfl⟩
  · rintro ⟨rfl, fits, method, path, body⟩
    rw [decodeRequest_of_header (by omega), if_neg (by omega), text_ok_iff.mpr method, ok_bind,
      text_ok_iff.mpr path, ok_bind, body]

/-! ### Pieces of a stream -/

theorem reading_bind_ok_iff {α β : Type} {x : Reading α} {f : α → Reading β}
    {recv rest : RecvStream} {b : β} :
    (x >>= f) recv = .ok (b, rest) ↔ ∃ a mid, x recv = .ok (a, mid) ∧ f a mid = .ok (b, rest) := by
  have step : (x >>= f) recv = (x recv >>= fun p => f p.1 p.2) := rfl
  rw [step, bind_ok_iff, Prod.exists]

section Pieces

variable {buf : List UInt8} {ending : Ending}

/-- What is left of the stream after `k` bytes. -/
def after (buf : List UInt8) (ending : Ending) (k : Nat) : RecvStream := ⟨buf.drop k, ending⟩

theorem readExact_after {k : Nat} (within : k ≤ buf.length) (n : Nat) :
    readExact n (after buf ending k) =
      if k + n ≤ buf.length then .ok (slice buf k (k + n), after buf ending (k + n))
      else .error (.err (ioError ending)) := by
  have room : n ≤ (buf.drop k).length ↔ k + n ≤ buf.length := by
    rw [List.length_drop]
    omega
  have piece : (buf.drop k).take n = slice buf k (k + n) := by
    rw [slice, Nat.add_sub_cancel_left]
  simp only [readExact, RecvStream.readExact, after, room, piece]
  split_ifs with fits
  · simp only [RecvStream.advance, List.drop_drop]
  · rfl

theorem slice_append {i j k : Nat} (first : i ≤ j) (second : j ≤ k) :
    slice buf i j ++ slice buf j k = slice buf i k := by
  have split : k - i = (j - i) + (k - j) := by omega
  have start : j = i + (j - i) := by omega
  simp only [slice]
  rw [split, List.take_add, List.drop_drop, ← start]

theorem readChunks_after {fuel remaining : Nat} (enough : remaining ≤ fuel) :
    ∀ {k : Nat} (out : List UInt8), k ≤ buf.length →
      readChunks fuel remaining out (after buf ending k) =
        if k + remaining ≤ buf.length then
          .ok (out ++ slice buf k (k + remaining), after buf ending (k + remaining))
        else .error (.err (ioError ending)) := by
  induction fuel generalizing remaining with
  | zero =>
    intro k out within
    obtain rfl : remaining = 0 := by omega
    simp [readChunks, within, slice]
    rfl
  | succ fuel ih =>
    intro k out within
    rw [readChunks]
    by_cases done : remaining = 0
    · simp [done, within, slice]
      rfl
    have chunk : 0 < min remaining chunkSize := by
      have : 0 < chunkSize := by decide
      omega
    have least : min remaining chunkSize ≤ remaining := Nat.min_le_left ..
    rw [if_neg done]
    generalize min remaining chunkSize = want at chunk least ⊢
    have step : ((readExact want >>= fun bytes => readChunks fuel (remaining - want) (out ++ bytes))
        (after buf ending k)) = (readExact want (after buf ending k) >>= fun p =>
          readChunks fuel (remaining - want) (out ++ p.1) p.2) := rfl
    rw [step, readExact_after within]
    by_cases fits : k + want ≤ buf.length
    · have ahead : k + want + (remaining - want) = k + remaining := by omega
      rw [if_pos fits, ok_bind, ih (by omega) _ fits, ahead, List.append_assoc,
        slice_append (by omega) (by omega)]
    · rw [if_neg fits, if_neg (by omega)]
      rfl

theorem readBytes_after {k : Nat} (within : k ≤ buf.length) (len : Nat) :
    readBytes len (after buf ending k) =
      if k + len ≤ buf.length then .ok (slice buf k (k + len), after buf ending (k + len))
      else .error (.err (ioError ending)) := by
  rw [readBytes, readChunks_after (Nat.le_refl len) [] within, List.nil_append]

/-- A piece of `n` bytes is read exactly when that many are left. -/
theorem readBytes_ok_iff {k len : Nat} (within : k ≤ buf.length) {bytes : List UInt8}
    {rest : RecvStream} :
    readBytes len (after buf ending k) = .ok (bytes, rest) ↔
      k + len ≤ buf.length ∧ slice buf k (k + len) = bytes ∧
        after buf ending (k + len) = rest := by
  rw [readBytes_after within]
  split_ifs with fits <;> simp [fits]

theorem word_ok_iff {k w n : Nat} (within : k ≤ buf.length) {rest : RecvStream} :
    (ofBE <$> readExact w : Reading Nat) (after buf ending k) = .ok (n, rest) ↔
      k + w ≤ buf.length ∧ ofBE (slice buf k (k + w)) = n ∧ after buf ending (k + w) = rest := by
  have step : (ofBE <$> readExact w : Reading Nat) (after buf ending k) =
    (fun p => (ofBE p.1, p.2)) <$> readExact w (after buf ending k) := rfl
  rw [step, readExact_after within]
  split_ifs with fits <;> simp [fits]

theorem readText_ok_iff {bytes : List UInt8} {recv rest : RecvStream} {s : String} :
    readText bytes recv = .ok (s, rest) ↔ fromUtf8 bytes = some s ∧ recv = rest := by
  rw [← text_ok_iff, readText]
  cases text bytes with
  | error e => simp
  | ok t => simp

theorem readRequest_ok_iff {request : Request} {rest : RecvStream} :
    readRequest ⟨buf, ending⟩ = .ok (request, rest) ↔
      ∃ total, IsRequest buf request total ∧ rest = after buf ending total := by
  have whole : (⟨buf, ending⟩ : RecvStream) = after buf ending 0 := rfl
  have path := pathStart_eq buf
  have bodyLen := bodyLenStart_eq buf
  have start := bodyStart_eq buf
  have total := requestEnd_eq buf
  rw [whole, readRequest]
  simp only [reading_bind_ok_iff, readU16, readU32]
  constructor
  · rintro ⟨_, _, read, ok⟩
    obtain ⟨fits, rfl, rfl⟩ := (word_ok_iff (Nat.zero_le _)).mp read
    obtain ⟨_, _, read, ok⟩ := ok
    obtain ⟨fits, rfl, rfl⟩ := (readBytes_ok_iff fits).mp read
    obtain ⟨_, _, read, ok⟩ := ok
    obtain ⟨methodOk, rfl⟩ := readText_ok_iff.mp read
    obtain ⟨_, _, read, ok⟩ := ok
    obtain ⟨fits, rfl, rfl⟩ := (word_ok_iff fits).mp read
    obtain ⟨_, _, read, ok⟩ := ok
    obtain ⟨fits, rfl, rfl⟩ := (readBytes_ok_iff fits).mp read
    obtain ⟨_, _, read, ok⟩ := ok
    obtain ⟨pathOk, rfl⟩ := readText_ok_iff.mp read
    obtain ⟨_, _, read, ok⟩ := ok
    obtain ⟨fits, rfl, rfl⟩ := (word_ok_iff fits).mp read
    obtain ⟨_, _, read, ok⟩ := ok
    obtain ⟨fits, rfl, rfl⟩ := (readBytes_ok_iff fits).mp read
    cases ok
    exact ⟨_, ⟨rfl, fits, methodOk, pathOk, rfl⟩, rfl⟩
  · rintro ⟨_, ⟨rfl, fits, methodOk, pathOk, body⟩, rfl⟩
    have methodLenRead : (ofBE <$> readExact 2 : Reading Nat) (after buf ending 0) =
      .ok (ofBE (slice buf 0 2), after buf ending 2) :=
        (word_ok_iff (Nat.zero_le _)).mpr ⟨by omega, rfl, rfl⟩
    have methodRead : readBytes (ofBE (slice buf 0 2)) (after buf ending 2) =
      .ok (slice buf 2 (pathStart buf), after buf ending (pathStart buf)) :=
        (readBytes_ok_iff (by omega)).mpr ⟨by omega, rfl, rfl⟩
    have pathLenRead : (ofBE <$> readExact 2 : Reading Nat) (after buf ending (pathStart buf)) =
      .ok (ofBE (slice buf (pathStart buf) (pathStart buf + 2)),
        after buf ending (pathStart buf + 2)) :=
        (word_ok_iff (by omega)).mpr ⟨by omega, rfl, rfl⟩
    have pathRead : readBytes (ofBE (slice buf (pathStart buf) (pathStart buf + 2)))
      (after buf ending (pathStart buf + 2)) =
        .ok (slice buf (pathStart buf + 2) (bodyLenStart buf),
          after buf ending (bodyLenStart buf)) :=
        (readBytes_ok_iff (by omega)).mpr ⟨by omega, rfl, rfl⟩
    have bodyLenRead : (ofBE <$> readExact 4 : Reading Nat)
      (after buf ending (bodyLenStart buf)) =
        .ok (ofBE (slice buf (bodyLenStart buf) (bodyStart buf)),
          after buf ending (bodyStart buf)) :=
        (word_ok_iff (by omega)).mpr ⟨by omega, rfl, rfl⟩
    have bodyRead : readBytes (ofBE (slice buf (bodyLenStart buf) (bodyStart buf)))
      (after buf ending (bodyStart buf)) =
        .ok (request.body, after buf ending (requestEnd buf)) :=
        (readBytes_ok_iff (by omega)).mpr ⟨by omega, body, rfl⟩
    exact ⟨_, _, methodLenRead, _, _, methodRead, _, _, readText_ok_iff.mpr ⟨methodOk, rfl⟩,
      _, _, pathLenRead, _, _, pathRead, _, _, readText_ok_iff.mpr ⟨pathOk, rfl⟩,
      _, _, bodyLenRead, _, _, bodyRead, rfl⟩

end Pieces

/-! ### Round trip -/

/-- A slice that starts at the end of what is in front of it. -/
theorem slice_of_append {buf : List UInt8} (front piece back : List UInt8) {i j : Nat}
    (split : buf = front ++ (piece ++ back)) (start : front.length = i)
    (stop : i + piece.length = j) : slice buf i j = piece := by
  subst split start stop
  simp [slice]

theorem ofBE_word {w n : Nat} (small : n < 256 ^ w) : ofBE (toBE w n) = n := by
  rw [ofBE_toBE, Nat.mod_eq_of_lt small]

theorem isRequest_encodeRequest {method path : String} {body : List UInt8}
    (methodFits : (asBytes method).length < 2 ^ 16) (pathFits : (asBytes path).length < 2 ^ 16)
    (bodyFits : body.length < 2 ^ 32) (more : List UInt8) :
    IsRequest (encodeRequest method path body ++ more) ⟨method, path, body⟩
      (encodeRequest method path body).length := by
  generalize whole : encodeRequest method path body ++ more = buf
  let m := toBE 2 (asBytes method).length
  let p := toBE 2 (asBytes path).length
  let b := toBE 4 body.length
  have split : buf = m ++ asBytes method ++ p ++ asBytes path ++ b ++ body ++ more := whole.symm
  have length : (encodeRequest method path body).length =
      2 + (asBytes method).length + 2 + (asBytes path).length + 4 + body.length := by
    simp [encodeRequest, Nat.add_assoc]
  have methodLen : slice buf 0 2 = m :=
    slice_of_append [] m (asBytes method ++ p ++ asBytes path ++ b ++ body ++ more)
      (by simp [split]) rfl (by simp [m])
  have pathAt : pathStart buf = 2 + (asBytes method).length := by
    rw [pathStart, methodLen, ofBE_word methodFits]
  have pathLen : slice buf (pathStart buf) (pathStart buf + 2) = p :=
    slice_of_append (m ++ asBytes method) p (asBytes path ++ b ++ body ++ more)
      (by simp [split]) (by simp [pathAt, m]) (by simp [p])
  have bodyLenAt : bodyLenStart buf = 2 + (asBytes method).length + 2 + (asBytes path).length := by
    rw [bodyLenStart, pathLen, pathAt, ofBE_word pathFits]
  have bodyLen : slice buf (bodyLenStart buf) (bodyStart buf) = b :=
    slice_of_append (m ++ asBytes method ++ p ++ asBytes path) b (body ++ more)
      (by simp [split]) (by simp [bodyLenAt, m, p, Nat.add_assoc]) (by simp [bodyStart, b])
  have endAt : requestEnd buf = (encodeRequest method path body).length := by
    rw [requestEnd, bodyLen, bodyStart, bodyLenAt, ofBE_word bodyFits, length]
  have methodText : slice buf 2 (pathStart buf) = asBytes method :=
    slice_of_append m (asBytes method) (p ++ asBytes path ++ b ++ body ++ more)
      (by simp [split]) (by simp [m]) pathAt.symm
  have pathText : slice buf (pathStart buf + 2) (bodyLenStart buf) = asBytes path :=
    slice_of_append (m ++ asBytes method ++ p) (asBytes path) (b ++ body ++ more)
      (by simp [split]) (by simp [pathAt, m, p, Nat.add_assoc]) (by rw [pathAt, bodyLenAt])
  have bodyBytes : slice buf (bodyStart buf) (encodeRequest method path body).length = body :=
    slice_of_append (m ++ asBytes method ++ p ++ asBytes path ++ b) body more (by simp [split])
      (by simp [bodyStart, bodyLenAt, m, p, b, Nat.add_assoc])
      (by rw [bodyStart, bodyLenAt, length])
  refine ⟨endAt.symm, by simp [← whole], ?_, ?_, bodyBytes⟩
  · rw [methodText, fromUtf8_asBytes]
  · rw [pathText, fromUtf8_asBytes]

/-- A request that was encoded is decoded, whatever follows it; and the two parsers agree on every
byte string. -/
theorem decodeRequest_readRequest :
    (∀ (method path : String) (body more : List UInt8), (asBytes method).length < 2 ^ 16 →
      (asBytes path).length < 2 ^ 16 → body.length < 2 ^ 32 →
        decodeRequest (encodeRequest method path body ++ more) =
          .ok (⟨method, path, body⟩, (encodeRequest method path body).length)) ∧
    ∀ (buf : List UInt8) (ending : Ending) (request : Request),
      (∃ rest, readRequest ⟨buf, ending⟩ = .ok (request, rest)) ↔
        ∃ total, decodeRequest buf = .ok (request, total) := by
  constructor
  · intro method path body more methodFits pathFits bodyFits
    exact decodeRequest_ok_iff.mpr (isRequest_encodeRequest methodFits pathFits bodyFits more)
  · intro buf ending request
    simp only [readRequest_ok_iff, decodeRequest_ok_iff]
    constructor
    · rintro ⟨_, total, is, -⟩
      exact ⟨total, is⟩
    · rintro ⟨total, is⟩
      exact ⟨_, total, is, rfl⟩

theorem decodeRequest_readRequest_get :
    (asBytes "GET").length < 2 ^ 16 ∧ (asBytes "/files/1").length < 2 ^ 16 ∧
      decodeRequest (encodeRequest "GET" "/files/1" [1, 2] ++ [9]) =
        .ok (⟨"GET", "/files/1", [1, 2]⟩, 21) :=
  ⟨by decide, by decide,
    decodeRequest_readRequest.1 "GET" "/files/1" [1, 2] [9] (by decide) (by decide) (by decide)⟩

end LanMouse.Transport.Http3
