import LanMouse.Lib.Bytes

/-!
# Protocol events

The events two peers exchange, their type bytes and the errors of the decoders. An `f64` field is
its eight-byte pattern, so that events can be compared.
-/
namespace LanMouse.Proto

/-- One type byte and the largest fixed body: a `u32` and two `f64`. -/
def maxEventSize : Nat := 1 + 4 + 2 * 8

def clipboardTextInlineLimit : Nat := 1024

/-- The eight letters `LANMOUSE`. -/
def protocolMagic : Vector UInt8 8 := #v[0x4c, 0x41, 0x4e, 0x4d, 0x4f, 0x55, 0x53, 0x45]

abbrev F64 := UInt64

abbrev Hash := Vector UInt8 32

inductive ProtocolError where
  | invalidEventId (number : UInt8)
  | invalidPosition (number : UInt8)
  | frameTooShort
  | emptyInput
  deriving DecidableEq, Repr

def ProtocolError.toText : ProtocolError → String
  | invalidEventId n =>
    "invalid event id: `No discriminant in enum `EventType` matches the value `"
      ++ toString n.toNat ++ "``"
  | invalidPosition n =>
    "invalid event id: `No discriminant in enum `Position` matches the value `"
      ++ toString n.toNat ++ "``"
  | frameTooShort => "frame body too short or truncated"
  | emptyInput => "empty input (no type byte)"

inductive Position where
  | left
  | right
  | top
  | bottom
  deriving DecidableEq, Repr

def Position.toByte : Position → UInt8
  | left => 0
  | right => 1
  | top => 2
  | bottom => 3

def Position.tryFrom (b : UInt8) : Except ProtocolError Position :=
  match b.toNat with
  | 0 => .ok .left
  | 1 => .ok .right
  | 2 => .ok .top
  | 3 => .ok .bottom
  | _ => .error (.invalidPosition b)

inductive PointerEvent where
  | motion (time : UInt32) (dx dy : F64)
  | button (time button state : UInt32)
  | axis (time : UInt32) (axis : UInt8) (value : F64)
  | axisDiscrete120 (axis : UInt8) (value : Int32)
  deriving DecidableEq, Repr

inductive KeyboardEvent where
  | key (time key : UInt32) (state : UInt8)
  | modifiers (depressed latched locked group : UInt32)
  deriving DecidableEq, Repr

inductive InputEvent where
  | pointer (e : PointerEvent)
  | keyboard (e : KeyboardEvent)
  deriving DecidableEq, Repr

structure FileEntry where
  name : String
  size : UInt64
  mime : String
  sha256 : Hash
  deriving DecidableEq, Repr

structure ClipboardText where
  fingerprint : Hash
  sha256 : Hash
  size : UInt64
  contentInline : Option (List UInt8)
  deriving DecidableEq, Repr

/-- Texts of at most `clipboardTextInlineLimit` bytes travel in the event itself. -/
def ClipboardText.fromContent (fingerprint sha256 : Hash) (content : List UInt8) :
    ClipboardText where
  fingerprint := fingerprint
  sha256 := sha256
  size := UInt64.ofNat content.length
  contentInline := if content.length ≤ clipboardTextInlineLimit then some content else none

structure ClipboardImage where
  fingerprint : Hash
  mime : String
  sha256 : Hash
  size : UInt64
  deriving DecidableEq, Repr

structure ClipboardFiles where
  fingerprint : Hash
  entries : List FileEntry
  deriving DecidableEq, Repr

structure FileTransferOffer where
  sha256 : Hash
  name : String
  size : UInt64
  mime : String
  deriving DecidableEq, Repr

structure FileTransferResponse where
  sha256 : Hash
  accept : Bool
  deriving DecidableEq, Repr

structure FileTransferCancel where
  sha256 : Hash
  deriving DecidableEq, Repr

structure ClipboardRequest where
  sha256 : Hash
  deriving DecidableEq, Repr

inductive ProtoEvent where
  | enter (pos : Position)
  | leave (serial : UInt32)
  | ack (serial : UInt32)
  | input (e : InputEvent)
  | ping
  | pong (alive : Bool)
  | hello (magic commit : Vector UInt8 8)
  | clipboardText (ct : ClipboardText)
  | clipboardImage (ci : ClipboardImage)
  | clipboardFiles (cf : ClipboardFiles)
  | fileTransferOffer (o : FileTransferOffer)
  | fileTransferResponse (r : FileTransferResponse)
  | fileTransferCancel (c : FileTransferCancel)
  | clipboardRequest (r : ClipboardRequest)
  deriving DecidableEq, Repr

inductive EventType where
  | pointerMotion
  | pointerButton
  | pointerAxis
  | pointerAxisValue120
  | keyboardKey
  | keyboardModifiers
  | ping
  | pong
  | enter
  | leave
  | ack
  | hello
  | clipboardText
  | clipboardImage
  | clipboardFiles
  | fileTransferOffer
  | fileTransferResponse
  | fileTransferCancel
  | clipboardRequest
  deriving DecidableEq, Repr

def EventType.toByte (t : EventType) : UInt8 := UInt8.ofNat t.ctorIdx

/-- The type bytes in the order the enumeration declares them. -/
def EventType.all : List EventType :=
  [pointerMotion, pointerButton, pointerAxis, pointerAxisValue120, keyboardKey, keyboardModifiers,
    ping, pong, enter, leave, ack, hello, clipboardText, clipboardImage, clipboardFiles,
    fileTransferOffer, fileTransferResponse, fileTransferCancel, clipboardRequest]

def EventType.tryFrom (b : UInt8) : Except ProtocolError EventType :=
  match EventType.all[b.toNat]? with
  | some t => .ok t
  | none => .error (.invalidEventId b)

/-- The types whose body has a fixed size and fits the `maxEventSize` buffer. -/
def EventType.isFixed : EventType → Bool
  | pointerMotion | pointerButton | pointerAxis | pointerAxisValue120 | keyboardKey
  | keyboardModifiers | ping | pong | enter | leave | ack | hello => true
  | _ => false

def ProtoEvent.eventType : ProtoEvent → EventType
  | .input (.pointer (.motion ..)) => .pointerMotion
  | .input (.pointer (.button ..)) => .pointerButton
  | .input (.pointer (.axis ..)) => .pointerAxis
  | .input (.pointer (.axisDiscrete120 ..)) => .pointerAxisValue120
  | .input (.keyboard (.key ..)) => .keyboardKey
  | .input (.keyboard (.modifiers ..)) => .keyboardModifiers
  | .ping => .ping
  | .pong _ => .pong
  | .enter _ => .enter
  | .leave _ => .leave
  | .ack _ => .ack
  | .hello .. => .hello
  | .clipboardText _ => .clipboardText
  | .clipboardImage _ => .clipboardImage
  | .clipboardFiles _ => .clipboardFiles
  | .fileTransferOffer _ => .fileTransferOffer
  | .fileTransferResponse _ => .fileTransferResponse
  | .fileTransferCancel _ => .fileTransferCancel
  | .clipboardRequest _ => .clipboardRequest

@[simp] theorem EventType.tryFrom_toByte (t : EventType) : EventType.tryFrom t.toByte = .ok t := by
  cases t <;> rfl

end LanMouse.Proto
