import LanMouse.Proto.Panic
import LanMouse.Transport.Reader

/-!
# Which bytes make a reader panic

`headFrame` and `frames` say where the frames of a byte string lie, without the readers. A reader
task ends in a panic exactly when a frame it comes to starts with the type byte of a variable-length
event. On the control stream of a session, where an unfinished read can be dropped after any number
of bytes, every position of the byte string is one it can come to.
-/
namespace LanMouse.Transport

open Bytes Proto

/-- The body of the frame at the front of `bytes`, if it is complete and not oversized. -/
def headFrame (bytes : List UInt8) : Option (List UInt8) :=
  let len := ofBE (bytes.take 4)
  if len ≤ maxEventSize ∧ 4 + len ≤ bytes.length then some ((bytes.drop 4).take len) else none

def framesUpTo : Nat → List UInt8 → List (List UInt8)
  | 0, _ => []
  | n + 1, bytes =>
    match headFrame bytes with
    | none => []
    | some body => body :: framesUpTo n (bytes.drop (4 + body.length))

/-- The bodies of the frames in `bytes`, up to the first that is oversized or cut short. -/
def frames (bytes : List UInt8) : List (List UInt8) := framesUpTo (bytes.length + 1) bytes

/-- The body starts with the type byte of a variable-length event. -/
def startsVar (body : List UInt8) : Bool := isVarByte (body.headD 0)

/-- A reader that ends, and not by a panic. -/
def ReaderEnd.Quiet (final : ReaderEnd) : Prop := final ≠ .panic ∧ final ≠ .hang

/-- An error after which nothing more is read from the stream. -/
def Error.IsFatal : Error → Prop
  | .frameTooLarge _ => True
  | .truncated => True
  | .helloFailed msg => startsWith msg "read frame" = true

theorem startsWith_append {start head : String} (h : startsWith head start = true)
    (rest : String) : startsWith (head ++ rest) start = true := by
  rw [startsWith, List.isPrefixOf_iff_prefix] at *
  rw [String.toList_append]
  exact h.trans (List.prefix_append ..)

theorem startsWith_apart {msg a b : String} (hit : startsWith msg a = true)
    (apart : startsWith a b = false ∧ startsWith b a = false) : startsWith msg b = false := by
  by_contra both
  rw [Bool.not_eq_false, startsWith, List.isPrefixOf_iff_prefix] at both
  rw [startsWith, List.isPrefixOf_iff_prefix] at hit
  obtain first | second := List.prefix_or_prefix_of_prefix hit both
  · rw [← List.isPrefixOf_iff_prefix] at first
    simp [startsWith, first] at apart
  · rw [← List.isPrefixOf_iff_prefix] at second
    simp [startsWith, second] at apart

theorem length_of_headFrame {bytes body : List UInt8} (h : headFrame bytes = some body) :
    4 + body.length ≤ bytes.length := by
  simp only [headFrame] at h
  split_ifs at h with fits
  obtain rfl := Option.some.inj h
  simp
  omega

theorem readFrame_cases (recv : RecvStream) :
    (∃ body, headFrame recv.bytes = some body ∧
      readFrame recv = (mapErr (fun e => .helloFailed ("decode frame: " ++ e.toText))
        (ProtoEvent.tryFromFixed (padTo maxEventSize body)), recv.advance (4 + body.length))) ∨
      (headFrame recv.bytes = none ∧
        ∃ e rest, readFrame recv = (.error (.err e), rest) ∧ e.IsFatal) := by
  unfold readFrame
  by_cases short : recv.bytes.length < 4
  · have length : recv.readExact 4 = .error recv.ending := if_neg (by omega)
    rw [length]
    exact .inr ⟨if_neg (by omega), _, _, rfl, startsWith_append rfl _⟩
  have length : recv.readExact 4 = .ok (recv.bytes.take 4) := if_pos (by omega)
  rw [length]
  by_cases large : ofBE (recv.bytes.take 4) > maxEventSize
  · exact .inr ⟨if_neg (by omega), _, _, if_pos large, trivial⟩
  by_cases cut : recv.bytes.length < 4 + ofBE (recv.bytes.take 4)
  · have body : (recv.advance 4).readExact (ofBE (recv.bytes.take 4)) = .error recv.ending :=
      if_neg (by simp [RecvStream.advance]; omega)
    refine .inr ⟨if_neg (by omega), ?_⟩
    simp only [if_neg large, body]
    cases recv.ending with
    | eof => exact ⟨_, _, rfl, trivial⟩
    | ioError text =>
      exact ⟨_, _, rfl, startsWith_append (startsWith_append (startsWith_append rfl _) _) _⟩
  · have body : (recv.advance 4).readExact (ofBE (recv.bytes.take 4))
        = .ok ((recv.bytes.drop 4).take (ofBE (recv.bytes.take 4))) :=
      if_pos (by simp [RecvStream.advance]; omega)
    refine .inl ⟨_, if_pos (by omega), ?_⟩
    simp only [if_neg large, body]
    congr 1
    simp [RecvStream.advance]
    omega

/-- A complete body panics the decoder, or is decoded, or reported as undecodable. -/
theorem tryFromFixed_body_cases (body : List UInt8) :
    (startsVar body = true ∧
      ProtoEvent.tryFromFixed (padTo maxEventSize body) = .error .panic) ∨
    (startsVar body = false ∧
      ((∃ event, ProtoEvent.tryFromFixed (padTo maxEventSize body) = .ok event) ∨
      ∃ e, ProtoEvent.tryFromFixed (padTo maxEventSize body) = .error (.err e))) := by
  have first : (padTo maxEventSize body)[0] = body.headD 0 := padTo_zero body
  have decoded := tryFromFixed_cases (padTo maxEventSize body)
  rwa [first] at decoded

theorem decodeFrame_cases (body : List UInt8) :
    (startsVar body = true ∧ mapErr (fun e => Error.helloFailed ("decode frame: " ++ e.toText))
      (ProtoEvent.tryFromFixed (padTo maxEventSize body)) = .error .panic) ∨
    (startsVar body = false ∧
      ((∃ event, mapErr (fun e => Error.helloFailed ("decode frame: " ++ e.toText))
        (ProtoEvent.tryFromFixed (padTo maxEventSize body)) = .ok event) ∨
      ∃ text, mapErr (fun e => Error.helloFailed ("decode frame: " ++ e.toText))
        (ProtoEvent.tryFromFixed (padTo maxEventSize body))
          = .error (.err (.helloFailed ("decode frame: " ++ text))))) := by
  obtain ⟨var, panics⟩ | ⟨fixed, ⟨event, ok⟩ | ⟨e, err⟩⟩ := tryFromFixed_body_cases body
  · exact .inl ⟨var, by rw [panics]; rfl⟩
  · exact .inr ⟨fixed, .inl ⟨event, by rw [ok]; rfl⟩⟩
  · exact .inr ⟨fixed, .inr ⟨e.toText, by rw [err]; rfl⟩⟩

/-- The errors a loop goes on after are those of a frame that was read but does not decode. -/
structure SkipsBadFrames (skips : Error → Bool) : Prop where
  decode (text : String) : skips (.helloFailed ("decode frame: " ++ text)) = true
  fatal (e : Error) : e.IsFatal → skips e = false

theorem skipsBadFrames_isDecodeError : SkipsBadFrames (isDecodeError "decode frame") where
  decode text := startsWith_append rfl text
  fatal e fatal := by
    cases e with
    | helloFailed msg => exact startsWith_apart fatal (by decide)
    | _ => rfl

theorem skipsBadFrames_sessionSkips : SkipsBadFrames sessionSkips where
  decode text := by
    have own : startsWith ("decode frame: " ++ text) "decode frame" = true :=
      startsWith_append rfl text
    have other : startsWith ("decode frame: " ++ text) "read frame" = false :=
      startsWith_apart own (by decide)
    simp [sessionSkips, other]
  fatal e fatal := by
    cases e with
    | helloFailed msg => simpa [sessionSkips, Error.IsFatal] using fatal
    | _ => rfl

theorem readLoop_quiet_iff {skips : Error → Bool} (bad : SkipsBadFrames skips) :
    ∀ fuel (recv : RecvStream), recv.bytes.length < fuel →
      ((∀ sink, (readLoop readFrame skips fuel sink recv).2.Quiet) ↔
        ∀ body ∈ framesUpTo fuel recv.bytes, startsVar body = false) := by
  intro fuel
  induction fuel with
  | zero => intro recv room; omega
  | succ fuel ih =>
    intro recv room
    obtain ⟨body, head, read⟩ | ⟨none_, e, rest, read, fatal⟩ := readFrame_cases recv
    · have size := length_of_headFrame head
      have next := ih (recv.advance (4 + body.length)) (by simp [RecvStream.advance]; omega)
      simp only [RecvStream.advance] at next read
      simp only [framesUpTo, head, List.forall_mem_cons, ← next]
      obtain ⟨var, panics⟩ | ⟨fixed, ⟨event, ok⟩ | ⟨text, err⟩⟩ := decodeFrame_cases body
      · have ends : (readLoop readFrame skips (fuel + 1) [] recv).2 = .panic := by
          simp only [readLoop, read, panics]
        constructor
        · intro quiet
          exact absurd ends (quiet []).1
        · rintro ⟨fixed, -⟩
          simp [var] at fixed
      · simp only [fixed, true_and, readLoop, read, ok]
        constructor
        · intro quiet sink
          exact quiet (.sent :: sink)
        · intro quiet sink
          cases sink.headD .sent with
          | sent => exact quiet sink.tail
          | discarded => exact quiet sink.tail
          | closed => exact ⟨nofun, nofun⟩
      · simp only [fixed, true_and, readLoop, read, err, bad.decode, if_true]
    · have stops (sink) : (readLoop readFrame skips (fuel + 1) sink recv).2 = .stopped e := by
        simp [readLoop, read, bad.fatal e fatal]
      simp only [framesUpTo, none_, stops]
      exact ⟨fun _ => nofun, fun _ _ => ⟨nofun, nofun⟩⟩

/-! ### The stream for large frames -/

/-! ### A session's control stream -/

/-- No position of the bytes is the start of a complete frame that the decoder panics on. -/
def NoVarFrameAnywhere (bytes : List UInt8) : Prop :=
  ∀ rest, rest <:+ bytes → ∀ body ∈ headFrame rest, startsVar body = false

theorem NoVarFrameAnywhere.advance {recv : RecvStream} (h : NoVarFrameAnywhere recv.bytes)
    (n : Nat) :
    NoVarFrameAnywhere (recv.advance n).bytes :=
  fun _ tail => h _ (tail.trans (List.drop_suffix ..))

theorem sessionStreamA_quiet {schedule : List (Option Nat)} {recv : RecvStream}
    (clean : NoVarFrameAnywhere recv.bytes) : (sessionStreamA schedule recv).2.Quiet := by
  induction schedule generalizing recv with
  | nil => exact ⟨nofun, nofun⟩
  | cons attempt schedule ih =>
    cases attempt with
    | some k => exact ih (clean.advance _)
    | none =>
      obtain ⟨body, head, read⟩ | ⟨-, e, rest, read, fatal⟩ := readFrame_cases recv
      · have fixed := clean _ (List.suffix_refl _) body head
        have next := ih (clean.advance (4 + body.length))
        obtain ⟨var, -⟩ | ⟨-, ⟨event, ok⟩ | ⟨text, err⟩⟩ := decodeFrame_cases body
        · simp [fixed] at var
        · simpa only [sessionStreamA, read, ok] using next
        · simpa only [sessionStreamA, read, err, skipsBadFrames_sessionSkips.decode, if_true]
            using next
      · simp only [sessionStreamA, read, skipsBadFrames_sessionSkips.fatal e fatal]
        exact ⟨nofun, nofun⟩

/-- Reads dropped after one byte each bring a session to any position. -/
theorem sessionStreamA_dropped (schedule : List (Option Nat)) (n : Nat) (recv : RecvStream) :
    sessionStreamA (List.replicate n (some 1) ++ schedule) recv
      = sessionStreamA schedule (recv.advance n) := by
  induction n generalizing recv with
  | zero => simp [RecvStream.advance]
  | succ n ih =>
    have one : min 1 (frameNeed recv.bytes - 1) = 1 := by
      unfold frameNeed
      split_ifs <;> omega
    rw [List.replicate_succ, List.cons_append, sessionStreamA, one, ih]
    simp [RecvStream.advance]

theorem sessionStreamA_quiet_iff (recv : RecvStream) :
    (∀ schedule, (sessionStreamA schedule recv).2.Quiet) ↔ NoVarFrameAnywhere recv.bytes := by
  constructor
  · rintro quiet rest ⟨skipped, split⟩ body head
    have quiet := quiet (List.replicate skipped.length (some 1) ++ [none])
    have there : (recv.advance skipped.length).bytes = rest := by
      simp [RecvStream.advance, ← split]
    rw [sessionStreamA_dropped] at quiet
    obtain ⟨body', head', read⟩ | ⟨none_, -⟩ := readFrame_cases (recv.advance skipped.length)
    · obtain rfl : body' = body := by
        rw [there, head] at head'
        exact (Option.some.inj head').symm
      obtain ⟨-, panics⟩ | ⟨fixed, -⟩ := decodeFrame_cases body'
      · simp only [sessionStreamA, read, panics] at quiet
        exact absurd rfl quiet.1
      · exact fixed
    · rw [there] at none_
      simp [none_] at head
  · exact fun clean schedule => sessionStreamA_quiet clean

/-! ### First frames and datagrams -/

theorem ofBE_of_looksLikeHttp3Request {length : List UInt8}
    (h : looksLikeHttp3Request length = true) : ofBE length > maxEventSize := by
  unfold looksLikeHttp3Request at h
  split at h
  · rename_i b0 b1 b2 b3
    simp [ofBE, maxEventSize] at *
    omega
  · simp at h

def Accepted.Quiet (accepted : Accepted) : Prop := accepted ≠ .panic ∧ accepted ≠ .hang

theorem acceptStreamC_quiet (len : Nat) (recv : RecvStream) : (acceptStreamC len recv).Quiet := by
  unfold acceptStreamC
  cases recv.readExact len with
  | error e => exact ⟨nofun, nofun⟩
  | ok body =>
    obtain ⟨e, ok⟩ | ⟨e, err⟩ := tryFromSlice_cases body
    · simp [ok, acceptDecoded, Accepted.Quiet]
    · simp [err, acceptDecoded, Accepted.Quiet]

theorem acceptDecoded_quiet_iff {stream : ProtoEvent → Accepted} {onError : Accepted}
    (goesOn : ∀ event, (stream event).Quiet) (stops : onError.Quiet) (body : List UInt8) :
    (acceptDecoded stream onError (ProtoEvent.tryFromFixed (padTo maxEventSize body))).Quiet ↔
      startsVar body = false := by
  obtain ⟨var, panics⟩ | ⟨fixed, ⟨event, ok⟩ | ⟨e, err⟩⟩ := tryFromFixed_body_cases body
  · simp [panics, acceptDecoded, Accepted.Quiet, var]
  · simpa [ok, acceptDecoded, fixed] using goesOn event
  · simpa [err, acceptDecoded, fixed] using stops

/-- The front of a stream: too short, oversized, cut short, or a whole frame. -/
theorem headFrame_cases (recv : RecvStream) :
    (headFrame recv.bytes = none ∧ recv.readExact 4 = .error recv.ending) ∨
    (recv.readExact 4 = .ok (recv.bytes.take 4) ∧
      ((headFrame recv.bytes = none ∧ ofBE (recv.bytes.take 4) > maxEventSize) ∨
      (headFrame recv.bytes = none ∧ ¬ ofBE (recv.bytes.take 4) > maxEventSize ∧
        (recv.advance 4).readExact (ofBE (recv.bytes.take 4)) = .error recv.ending) ∨
      ∃ body, headFrame recv.bytes = some body ∧ ofBE (recv.bytes.take 4) = body.length ∧
        ¬ body.length > maxEventSize ∧ (recv.advance 4).readExact body.length = .ok body)) := by
  by_cases short : recv.bytes.length < 4
  · exact .inl ⟨if_neg (by omega), if_neg (by omega)⟩
  refine .inr ⟨if_pos (by omega), ?_⟩
  by_cases large : ofBE (recv.bytes.take 4) > maxEventSize
  · exact .inl ⟨if_neg (by omega), large⟩
  by_cases cut : recv.bytes.length < 4 + ofBE (recv.bytes.take 4)
  · exact .inr (.inl ⟨if_neg (by omega), large, if_neg (by simp [RecvStream.advance]; omega)⟩)
  · have size : ((recv.bytes.drop 4).take (ofBE (recv.bytes.take 4))).length
        = ofBE (recv.bytes.take 4) := by simp; omega
    refine .inr (.inr ⟨_, if_pos (by omega), size.symm, by omega, ?_⟩)
    rw [size]
    exact if_pos (by simp [RecvStream.advance]; omega)

/-- The first bytes of an HTTP/3 request are no length of a frame. -/
theorem headFrame_of_looksLikeHttp3Request {recv : RecvStream}
    (http3 : looksLikeHttp3Request (recv.bytes.take 4) = true) : headFrame recv.bytes = none := by
  have large := ofBE_of_looksLikeHttp3Request http3
  obtain ⟨none_, -⟩ | ⟨-, ⟨none_, -⟩ | ⟨-, small, -⟩ | ⟨_, -, len, small, -⟩⟩ :=
    headFrame_cases recv
  · exact none_
  · exact none_
  · exact absurd large small
  · exact absurd large (len ▸ small)

theorem serverAcceptBi_quiet_iff (recv : RecvStream) :
    (serverAcceptBi recv).Quiet ↔ ∀ body ∈ headFrame recv.bytes, startsVar body = false := by
  unfold serverAcceptBi
  obtain ⟨none_, parked⟩ | ⟨length, whole⟩ := headFrame_cases recv
  · simp [none_, parked, Accepted.Quiet]
  simp only [length]
  by_cases http3 : looksLikeHttp3Request (recv.bytes.take 4) = true
  · simp [http3, headFrame_of_looksLikeHttp3Request http3, Accepted.Quiet]
  simp only [http3, Bool.false_eq_true, if_false]
  obtain ⟨none_, large⟩ | ⟨none_, small, cut⟩ | ⟨body, some_, len, small, read⟩ := whole
  · simpa [none_, large] using acceptStreamC_quiet _ _
  · simp [none_, small, cut, Accepted.Quiet]
  · simp only [some_, len, small, read, Option.mem_some_iff, forall_eq', if_false]
    refine acceptDecoded_quiet_iff (fun _ => ?_) ?_ body <;> exact ⟨nofun, nofun⟩

theorem clientAcceptBi_quiet_iff (recv : RecvStream) :
    (clientAcceptBi recv).Quiet ↔
      ∀ body ∈ headFrame recv.bytes, body.length = maxEventSize → startsVar body = false := by
  unfold clientAcceptBi
  obtain ⟨none_, parked⟩ | ⟨length, whole⟩ := headFrame_cases recv
  · simp [none_, parked, Accepted.Quiet]
  simp only [length]
  by_cases http3 : looksLikeHttp3Request (recv.bytes.take 4) = true
  · simp [http3, headFrame_of_looksLikeHttp3Request http3, Accepted.Quiet]
  simp only [http3, Bool.false_eq_true, if_false]
  obtain ⟨none_, large⟩ | ⟨none_, small, cut⟩ | ⟨body, some_, len, small, read⟩ := whole
  · simpa [none_, large] using acceptStreamC_quiet _ _
  · by_cases exact_ : ofBE (recv.bytes.take 4) = maxEventSize
    · rw [exact_] at cut
      simp [none_, exact_, cut, Accepted.Quiet]
    · simp [none_, small, exact_, Accepted.Quiet]
  · simp only [some_, small, len, Option.mem_some_iff, forall_eq', if_false]
    by_cases exact_ : body.length = maxEventSize
    · simp only [exact_, ne_eq, not_true_eq_false, if_false, forall_const]
      rw [exact_] at read
      simp only [read]
      refine acceptDecoded_quiet_iff (fun _ => ?_) ?_ body <;> exact ⟨nofun, nofun⟩
    · simp [exact_, Accepted.Quiet]

/-- A single read that returns an event or an error. -/
def Returns (read : Except (Fault Error) ProtoEvent) : Prop :=
  read ≠ .error .panic ∧ read ≠ .error .hang

theorem readHelloFrame_returns_iff (recv : RecvStream) :
    Returns (readHelloFrame recv).1 ↔ ∀ body ∈ headFrame recv.bytes, startsVar body = false := by
  unfold readHelloFrame
  obtain ⟨none_, parked⟩ | ⟨length, whole⟩ := headFrame_cases recv
  · simp [none_, parked, Returns]
  simp only [length]
  obtain ⟨none_, large⟩ | ⟨none_, small, cut⟩ | ⟨body, some_, len, small, read⟩ := whole
  · simp [none_, large, Returns]
  · simp [none_, small, cut, Returns]
  · simp only [some_, small, len, read, Option.mem_some_iff, forall_eq', if_false]
    obtain ⟨var, panics⟩ | ⟨fixed, ⟨event, ok⟩ | ⟨e, err⟩⟩ := tryFromFixed_body_cases body
    · simp [panics, mapErr, Returns, var]
    · simp [ok, mapErr, Returns, fixed]
    · simp [err, mapErr, Returns, fixed]

/-- A datagram the decoder is given and panics on. -/
def isVarDatagram (datagram : List UInt8) : Bool :=
  datagram.length == maxEventSize && startsVar datagram

theorem readDatagram_cases (datagram : List UInt8) :
    (isVarDatagram datagram = true ∧ readDatagram datagram = .error .panic) ∨
      (isVarDatagram datagram = false ∧ ∃ event, readDatagram datagram = .ok event) := by
  unfold readDatagram isVarDatagram
  by_cases size : datagram.length = maxEventSize
  · obtain ⟨var, panics⟩ | ⟨fixed, ⟨event, ok⟩ | ⟨e, err⟩⟩ := tryFromFixed_body_cases datagram
    · exact .inl ⟨by simp [size, var], by simp [size, panics]⟩
    · exact .inr ⟨by simp [fixed], some event, by simp [size, ok]⟩
    · exact .inr ⟨by simp [fixed], none, by simp [size, err]⟩
  · exact .inr ⟨by simp [size], none, by simp [size]⟩

theorem datagramLoop_quiet {datagrams : List (List UInt8 × Delivery)}
    (clean : ∀ d ∈ datagrams, isVarDatagram d.1 = false) : (datagramLoop datagrams).2.Quiet := by
  induction datagrams with
  | nil => exact ⟨nofun, nofun⟩
  | cons d rest ih =>
    obtain ⟨datagram, delivery⟩ := d
    rw [List.forall_mem_cons] at clean
    have next := ih clean.2
    obtain ⟨var, -⟩ | ⟨-, _ | event, ok⟩ := readDatagram_cases datagram
    · simp [clean.1] at var
    · simpa only [datagramLoop, ok] using next
    · cases delivery with
      | sent => simpa only [datagramLoop, ok] using next
      | discarded => simpa only [datagramLoop, ok] using next
      | closed =>
        simp only [datagramLoop, ok]
        exact ⟨nofun, nofun⟩

theorem datagramLoop_panics {datagrams : List (List UInt8)}
    (var : ¬ ∀ d ∈ datagrams, isVarDatagram d = false) :
    (datagramLoop (datagrams.map fun d => (d, .sent))).2 = .panic := by
  induction datagrams with
  | nil => simp at var
  | cons d rest ih =>
    rw [List.map_cons]
    obtain ⟨-, panics⟩ | ⟨fixed, event, ok⟩ := readDatagram_cases d
    · simp only [datagramLoop, panics]
    · have next := ih (by simpa [fixed] using var)
      cases event <;> simpa only [datagramLoop, ok] using next

theorem datagramReaderTask_quiet_iff (datagrams : List (List UInt8)) :
    (∀ arrivals, arrivals.map Prod.fst = datagrams → (datagramReaderTask arrivals).2.Quiet) ↔
      ∀ d ∈ datagrams, isVarDatagram d = false := by
  constructor
  · intro quiet
    by_contra var
    have sent := quiet (datagrams.map fun d => (d, .sent)) (by simp [Function.comp_def])
    exact sent.1 (datagramLoop_panics var)
  · rintro clean arrivals rfl
    exact datagramLoop_quiet fun d mem => clean d.1 (List.mem_map_of_mem mem)

theorem serverDatagramReaderTask_quiet_iff (datagrams : List (List UInt8)) :
    (∀ arrivals, arrivals.map Prod.fst = datagrams → (serverDatagramReaderTask arrivals).2.Quiet) ↔
      ∀ d ∈ datagrams, isVarDatagram d = false := by
  constructor
  · intro quiet
    by_contra var
    have open_ := quiet (datagrams.map fun d => (d, true)) (by simp [Function.comp_def])
    rw [serverDatagramReaderTask, List.map_map] at open_
    exact open_.1 (datagramLoop_panics var)
  · rintro clean arrivals rfl
    refine datagramLoop_quiet fun d mem => ?_
    obtain ⟨arrival, arrived, rfl⟩ := List.mem_map.mp mem
    exact clean arrival.1 (List.mem_map_of_mem arrived)

/-! ### All readers -/

/-- On the fixed-size streams and in datagrams, each reader is free of panics exactly when the bytes
it is given hold no frame, at a place it can come to, that starts with a variable-length type. -/
theorem readers_quiet_iff (recv : RecvStream) (datagrams : List (List UInt8)) :
    (Returns (readHelloFrame recv).1 ↔ ∀ body ∈ headFrame recv.bytes, startsVar body = false) ∧
    ((∀ sink, (supervisorStreamA sink recv).2.Quiet) ↔
      ∀ body ∈ frames recv.bytes, startsVar body = false) ∧
    ((∀ schedule, (sessionStreamA schedule recv).2.Quiet) ↔ NoVarFrameAnywhere recv.bytes) ∧
    ((∀ sink, (readStreamBLoop sink recv).2.Quiet) ↔
      ∀ body ∈ frames recv.bytes, startsVar body = false) ∧
    ((∀ sink, (serverStreamReaderTask sink recv).2.Quiet) ↔
      ∀ body ∈ frames recv.bytes, startsVar body = false) ∧
    ((∀ sink, (clientStreamBReaderTask sink recv).2.Quiet) ↔
      ∀ body ∈ frames recv.bytes, startsVar body = false) ∧
    ((serverAcceptBi recv).Quiet ↔ ∀ body ∈ headFrame recv.bytes, startsVar body = false) ∧
    ((clientAcceptBi recv).Quiet ↔
      ∀ body ∈ headFrame recv.bytes, body.length = maxEventSize → startsVar body = false) ∧
    ((∀ arrivals, arrivals.map Prod.fst = datagrams → (datagramReaderTask arrivals).2.Quiet) ↔
      ∀ d ∈ datagrams, isVarDatagram d = false) ∧
    ((∀ arrivals, arrivals.map Prod.fst = datagrams →
        (serverDatagramReaderTask arrivals).2.Quiet) ↔
      ∀ d ∈ datagrams, isVarDatagram d = false) := by
  have loop := readLoop_quiet_iff skipsBadFrames_isDecodeError recv.fuel recv (Nat.lt_succ_self _)
  exact ⟨readHelloFrame_returns_iff recv, loop, sessionStreamA_quiet_iff recv, loop, loop, loop,
    serverAcceptBi_quiet_iff recv, clientAcceptBi_quiet_iff recv,
    datagramReaderTask_quiet_iff datagrams, serverDatagramReaderTask_quiet_iff datagrams⟩

/-- One frame of one byte, the type of `ClipboardText`, and a datagram that starts with it. -/
theorem readers_panic_on_clipboardText :
    let recv : RecvStream := ⟨[0, 0, 0, 1, 12], .eof⟩
    let datagram : List UInt8 := 12 :: List.replicate 20 0
    (readHelloFrame recv).1 = .error .panic ∧ (supervisorStreamA [] recv).2 = .panic ∧
      (sessionStreamA [none] recv).2 = .panic ∧ (readStreamBLoop [] recv).2 = .panic ∧
      serverAcceptBi recv = .panic ∧ (datagramReaderTask [(datagram, .sent)]).2 = .panic ∧
      (serverDatagramReaderTask [(datagram, true)]).2 = .panic := by
  decide

end LanMouse.Transport
