import LanMouse.Proto.Codec

/-!
# Frame and datagram readers

The tasks that turn what a peer puts on a stream or in a datagram into events. A frame is a
big-endian `u32` length and that many bytes; on the control stream (A) and the input stream (B) the
length is at most `maxEventSize` and the body goes to the fixed-size decoder.

A receive stream is the bytes the peer delivered and what a read beyond them meets. A loop runs with
fuel: each frame it goes past takes at least the four bytes of its length.
-/
namespace LanMouse.Transport

open Bytes Proto

inductive Error where
  | frameTooLarge (len : Nat)
  | truncated
  | helloFailed (msg : String)
  deriving DecidableEq, Repr

/-- What a read past the delivered bytes meets: the end of the stream, or another I/O error. -/
inductive Ending where
  | eof
  | ioError (text : String)
  deriving DecidableEq, Repr

def Ending.text : Ending → String
  | eof => "early eof"
  | ioError text => text

/-- A length that is cut off is reported in other words than a body. -/
def Ending.lengthText : Ending → String
  | eof => "unexpected end of file"
  | ioError text => text

structure RecvStream where
  bytes : List UInt8
  ending : Ending
  deriving DecidableEq, Repr

def RecvStream.advance (recv : RecvStream) (n : Nat) : RecvStream :=
  { recv with bytes := recv.bytes.drop n }

def RecvStream.readExact (recv : RecvStream) (n : Nat) : Except Ending (List UInt8) :=
  if n ≤ recv.bytes.length then .ok (recv.bytes.take n) else .error recv.ending

/-- `Result::map_err` on the errors a decoder reports. -/
def mapErr {ε ε' α : Type} (f : ε → ε') : Except (Fault ε) α → Except (Fault ε') α
  | .ok a => .ok a
  | .error (.err e) => .error (.err (f e))
  | .error .panic => .error .panic
  | .error .hang => .error .hang

abbrev FrameRead := Except (Fault Error) ProtoEvent × RecvStream

def readHelloFrame (recv : RecvStream) : FrameRead :=
  match recv.readExact 4 with
  | .error e =>
    (.error (.err (.helloFailed ("read Hello frame length: " ++ e.lengthText))),
      { recv with bytes := [] })
  | .ok length =>
    let recv := recv.advance 4
    let len := ofBE length
    if len > maxEventSize then
      (.error (.err (.helloFailed ("Hello frame too large: " ++ toString len ++ " bytes (max "
        ++ toString maxEventSize ++ ")"))), recv)
    else match recv.readExact len with
      | .error e =>
        (.error (.err (.helloFailed ("read Hello frame body (" ++ toString len ++ " bytes): "
          ++ e.text))), { recv with bytes := [] })
      | .ok body =>
        (mapErr (fun e => .helloFailed ("decode Hello frame: " ++ e.toText))
          (ProtoEvent.tryFromFixed (padTo maxEventSize body)), recv.advance len)

def readFrame (recv : RecvStream) : FrameRead :=
  match recv.readExact 4 with
  | .error e =>
    (.error (.err (.helloFailed ("read frame length: " ++ e.lengthText))),
      { recv with bytes := [] })
  | .ok length =>
    let recv := recv.advance 4
    let len := ofBE length
    if len > maxEventSize then (.error (.err (.frameTooLarge len)), recv)
    else match recv.readExact len with
      | .error .eof => (.error (.err .truncated), { recv with bytes := [] })
      | .error e =>
        (.error (.err (.helloFailed ("read frame body (" ++ toString len ++ " bytes): "
          ++ e.text))), { recv with bytes := [] })
      | .ok body =>
        (mapErr (fun e => .helloFailed ("decode frame: " ++ e.toText))
          (ProtoEvent.tryFromFixed (padTo maxEventSize body)), recv.advance len)

def readStreamCFrame (recv : RecvStream) : FrameRead :=
  match recv.readExact 4 with
  | .error e =>
    (.error (.err (.helloFailed ("read stream C length: " ++ e.lengthText))),
      { recv with bytes := [] })
  | .ok length =>
    let recv := recv.advance 4
    let len := ofBE length
    match recv.readExact len with
    | .error .eof => (.error (.err .truncated), { recv with bytes := [] })
    | .error e =>
      (.error (.err (.helloFailed ("read stream C body (" ++ toString len ++ " bytes): "
        ++ e.text))), { recv with bytes := [] })
    | .ok body =>
      (mapErr (fun e => .helloFailed ("decode stream C frame: " ++ e.toText))
        (ProtoEvent.tryFromSlice body), recv.advance len)

def startsWith (msg start : String) : Bool := start.toList.isPrefixOf msg.toList

/-- What becomes of an event handed to the channel behind a reader. -/
inductive Delivery where
  | sent
  | discarded
  | closed
  deriving DecidableEq, Repr

inductive ReaderEnd where
  | receiverDropped
  | stopped (e : Error)
  | panic
  | hang
  deriving DecidableEq, Repr

/-- A reader task: read frames, deliver their events, go on after an error in `skips` and stop at
any other. `sink` says what becomes of the events, one after another; when it is used up they are
sent. -/
def readLoop (read : RecvStream → FrameRead) (skips : Error → Bool) :
    Nat → List Delivery → RecvStream → List ProtoEvent × ReaderEnd
  | 0, _, _ => ([], .hang)
  | fuel + 1, sink, recv =>
    match read recv with
    | (.ok event, recv) =>
      match sink.headD .sent with
      | .sent =>
        let (events, final) := readLoop read skips fuel sink.tail recv
        (event :: events, final)
      | .discarded => readLoop read skips fuel sink.tail recv
      | .closed => ([], .receiverDropped)
    | (.error (.err e), recv) =>
      if skips e then readLoop read skips fuel sink recv else ([], .stopped e)
    | (.error .panic, _) => ([], .panic)
    | (.error .hang, _) => ([], .hang)

def RecvStream.fuel (recv : RecvStream) : Nat := recv.bytes.length + 1

def isDecodeError (start : String) : Error → Bool
  | .helloFailed msg => startsWith msg start
  | _ => false

def readStreamBLoop (sink : List Delivery) (recv : RecvStream) : List ProtoEvent × ReaderEnd :=
  readLoop readFrame (isDecodeError "decode frame") recv.fuel sink recv

def serverStreamReaderTask (sink : List Delivery) (recv : RecvStream) :
    List ProtoEvent × ReaderEnd :=
  readLoop readFrame (isDecodeError "decode frame") recv.fuel sink recv

def clientStreamBReaderTask (sink : List Delivery) (recv : RecvStream) :
    List ProtoEvent × ReaderEnd :=
  readLoop readFrame (isDecodeError "decode frame") recv.fuel sink recv

/-- The control-stream loop of `handle_quic_peer_supervisor` on the listening side. -/
def supervisorStreamA (sink : List Delivery) (recv : RecvStream) : List ProtoEvent × ReaderEnd :=
  readLoop readFrame (isDecodeError "decode frame") recv.fuel sink recv

def readStreamCLoop (sink : List Delivery) (recv : RecvStream) : List ProtoEvent × ReaderEnd :=
  readLoop readStreamCFrame (isDecodeError "decode stream C frame") recv.fuel sink recv

/-- The control-stream arm of `PeerSession::run` takes every error as a bad frame to skip, apart
from those that end the stream. -/
def sessionSkips : Error → Bool
  | .frameTooLarge _ => false
  | .truncated => false
  | .helloFailed msg => !startsWith msg "read frame"

/-- How many bytes `readFrame` consumes of a frame before it returns. -/
def frameNeed (bytes : List UInt8) : Nat :=
  if bytes.length < 4 ∨ ofBE (bytes.take 4) > maxEventSize then 4 else 4 + ofBE (bytes.take 4)

/-- The control-stream arm of `PeerSession::run`. Whenever another arm of the `select!` is ready
first, the unfinished read is dropped and the bytes it has consumed are lost: `some k` is a read
dropped after `k` bytes, `none` one that runs to its end. When the schedule is used up another arm
has left the loop. Delivery errors are only logged. -/
def sessionStreamA : List (Option Nat) → RecvStream → List ProtoEvent × ReaderEnd
  | [], _ => ([], .receiverDropped)
  | some k :: schedule, recv =>
    sessionStreamA schedule (recv.advance (min k (frameNeed recv.bytes - 1)))
  | none :: schedule, recv =>
    match readFrame recv with
    | (.ok event, recv) =>
      let (events, final) := sessionStreamA schedule recv
      (event :: events, final)
    | (.error (.err e), recv) =>
      if sessionSkips e then sessionStreamA schedule recv else ([], .stopped e)
    | (.error .panic, _) => ([], .panic)
    | (.error .hang, _) => ([], .hang)

/-! ### Accepted streams -/

def isAsciiAlphabetic (b : UInt8) : Bool :=
  (0x41 ≤ b.toNat && b.toNat ≤ 0x5a) || (0x61 ≤ b.toNat && b.toNat ≤ 0x7a)

def looksLikeHttp3Request : List UInt8 → Bool
  | [b0, b1, b2, b3] =>
    b0 == 0 && (3 ≤ b1.toNat && b1.toNat ≤ 7) && isAsciiAlphabetic b2 && isAsciiAlphabetic b3
  | _ => false

/-- What the accept loop does with one stream a peer opened. -/
inductive Accepted where
  | parked
  | http3
  | skipped
  | taskEnds
  | streamC (first : ProtoEvent) (rest : RecvStream)
  | streamB (first : ProtoEvent) (rest : RecvStream)
  | panic
  | hang
  deriving DecidableEq, Repr

/-- A first body went through a decoder: on to a reader task, or to `onError`. -/
def acceptDecoded (stream : ProtoEvent → Accepted) (onError : Accepted) :
    Outcome ProtoEvent → Accepted
  | .ok event => stream event
  | .error (.err _) => onError
  | .error .panic => .panic
  | .error .hang => .hang

/-- A first frame longer than `maxEventSize` opens stream C. -/
def acceptStreamC (len : Nat) (recv : RecvStream) : Accepted :=
  match recv.readExact len with
  | .error _ => .skipped
  | .ok body =>
    acceptDecoded (.streamC · (recv.advance len)) .skipped (ProtoEvent.tryFromSlice body)

def serverAcceptBi (recv : RecvStream) : Accepted :=
  match recv.readExact 4 with
  | .error _ => .parked
  | .ok length =>
    if looksLikeHttp3Request length then .http3
    else
      let recv := recv.advance 4
      let len := ofBE length
      if len > maxEventSize then acceptStreamC len recv
      else match recv.readExact len with
        | .error _ => .taskEnds
        | .ok body =>
          acceptDecoded (.streamB · (recv.advance len)) .taskEnds
            (ProtoEvent.tryFromFixed (padTo maxEventSize body))

/-- The dialing side takes a short first frame only when it has exactly `maxEventSize` bytes. -/
def clientAcceptBi (recv : RecvStream) : Accepted :=
  match recv.readExact 4 with
  | .error _ => .parked
  | .ok length =>
    if looksLikeHttp3Request length then .http3
    else
      let recv := recv.advance 4
      let len := ofBE length
      if len > maxEventSize then acceptStreamC len recv
      else if len ≠ maxEventSize then .skipped
      else match recv.readExact len with
        | .error _ => .skipped
        | .ok body =>
          acceptDecoded (.streamB · (recv.advance len)) .skipped
            (ProtoEvent.tryFromFixed (padTo maxEventSize body))

/-! ### Datagrams -/

/-- One datagram: skipped when it does not have `maxEventSize` bytes or does not decode. -/
def readDatagram (datagram : List UInt8) : Except (Fault ProtocolError) (Option ProtoEvent) :=
  if datagram.length ≠ maxEventSize then .ok none
  else match ProtoEvent.tryFromFixed (padTo maxEventSize datagram) with
    | .ok event => .ok (some event)
    | .error (.err _) => .ok none
    | .error .panic => .error .panic
    | .error .hang => .error .hang

/-- A datagram task on the datagrams of a connection, in order, each with what the channel would do
with its event; a full channel discards it. -/
def datagramLoop : List (List UInt8 × Delivery) → List ProtoEvent × ReaderEnd
  | [] => ([], .receiverDropped)
  | (datagram, delivery) :: rest =>
    match readDatagram datagram with
    | .ok none => datagramLoop rest
    | .ok (some event) =>
      match delivery with
      | .sent =>
        let (events, final) := datagramLoop rest
        (event :: events, final)
      | .discarded => datagramLoop rest
      | .closed => ([], .receiverDropped)
    | .error .panic => ([], .panic)
    | .error _ => ([], .hang)

def datagramReaderTask : List (List UInt8 × Delivery) → List ProtoEvent × ReaderEnd :=
  datagramLoop

/-- The listening side's channel is unbounded: it is closed or it takes the event. -/
def serverDatagramReaderTask (datagrams : List (List UInt8 × Bool)) :
    List ProtoEvent × ReaderEnd :=
  datagramLoop (datagrams.map fun (bytes, isOpen) => (bytes, if isOpen then .sent else .closed))

end LanMouse.Transport
