import LanMouse.Proto.Event

/-!
# The two codecs

Events of a fixed-size type are packed into a zeroed buffer of `maxEventSize` bytes; clipboard and
file-transfer events are appended field by field to a vector. `ProtoEvent.toVec` and
`ProtoEvent.tryFromSlice` choose the codec by the type byte.

A panic of the source (a slice split past its end, an `unreachable!` arm) is `Fault.panic`.
-/
namespace LanMouse.Proto

open Bytes

abbrev Decode (α : Type) := Cursor ProtocolError α

abbrev Outcome (α : Type) := Except (Fault ProtocolError) α

/-! ### The fixed-size codec -/

def decodeU8 : Decode UInt8 := UInt8.ofNat <$> word 1 .panic

def decodeU32 : Decode UInt32 := UInt32.ofNat <$> word 4 .panic

def decodeI32 : Decode Int32 := (fun n => (UInt32.ofNat n).toInt32) <$> word 4 .panic

def decodeF64 : Decode F64 := UInt64.ofNat <$> word 8 .panic

def beU8 (n : UInt8) : List UInt8 := toBE 1 n.toNat

def beU32 (n : UInt32) : List UInt8 := toBE 4 n.toNat

def beI32 (n : Int32) : List UInt8 := toBE 4 n.toUInt32.toNat

def beF64 (n : F64) : List UInt8 := toBE 8 n.toNat

/-- The bytes that `FixedCodec::encode_fixed_body` writes from the front of its buffer. -/
def InputEvent.encodeFixedBody : InputEvent → List UInt8
  | .pointer (.motion time dx dy) => beU32 time ++ beF64 dx ++ beF64 dy
  | .pointer (.button time button state) => beU32 time ++ beU32 button ++ beU32 state
  | .pointer (.axis time axis value) => beU32 time ++ beU8 axis ++ beF64 value
  | .pointer (.axisDiscrete120 axis value) => beU8 axis ++ beI32 value
  | .keyboard (.key time key state) => beU32 time ++ beU32 key ++ beU8 state
  | .keyboard (.modifiers depressed latched locked group) =>
    beU32 depressed ++ beU32 latched ++ beU32 locked ++ beU32 group

/-- The zeroed `maxEventSize` buffer after `bytes` were written to its front, and how many were.
Writing past the end is a panic. -/
def intoBuffer (bytes : List UInt8) : Outcome (Vector UInt8 maxEventSize × Nat) :=
  if bytes.length ≤ maxEventSize then .ok (padTo maxEventSize bytes, bytes.length)
  else .error .panic

/-- `From<ProtoEvent> for ([u8; MAX_EVENT_SIZE], usize)`. -/
def ProtoEvent.toFixed (event : ProtoEvent) : Outcome (Vector UInt8 maxEventSize × Nat) :=
  let ty := event.eventType.toByte
  match event with
  | .input e => intoBuffer (beU8 ty ++ e.encodeFixedBody)
  | .ping => intoBuffer (beU8 ty)
  | .pong alive => intoBuffer (beU8 ty ++ beU8 (if alive then 1 else 0))
  | .enter pos => intoBuffer (beU8 ty ++ beU8 pos.toByte)
  | .leave serial => intoBuffer (beU8 ty ++ beU32 serial)
  | .ack serial => intoBuffer (beU8 ty ++ beU32 serial)
  | .hello magic commit => intoBuffer (beU8 ty ++ magic.toList ++ commit.toList)
  | .clipboardText _ | .clipboardImage _ | .clipboardFiles _ | .fileTransferOffer _
  | .fileTransferResponse _ | .fileTransferCancel _ | .clipboardRequest _ => .error .panic

/-- The body of an event of type `ty` in the fixed-size buffer. The decoder has no body for the
variable-length types: that arm is `unreachable!`. -/
def decodeFixedBody : EventType → Decode ProtoEvent
  | .pointerMotion => do
    let time ← decodeU32
    let dx ← decodeF64
    let dy ← decodeF64
    pure (.input (.pointer (.motion time dx dy)))
  | .pointerButton => do
    let time ← decodeU32
    let button ← decodeU32
    let state ← decodeU32
    pure (.input (.pointer (.button time button state)))
  | .pointerAxis => do
    let time ← decodeU32
    let axis ← decodeU8
    let value ← decodeF64
    pure (.input (.pointer (.axis time axis value)))
  | .pointerAxisValue120 => do
    let axis ← decodeU8
    let value ← decodeI32
    pure (.input (.pointer (.axisDiscrete120 axis value)))
  | .keyboardKey => do
    let time ← decodeU32
    let key ← decodeU32
    let state ← decodeU8
    pure (.input (.keyboard (.key time key state)))
  | .keyboardModifiers => do
    let depressed ← decodeU32
    let latched ← decodeU32
    let locked ← decodeU32
    let group ← decodeU32
    pure (.input (.keyboard (.modifiers depressed latched locked group)))
  | .ping => pure .ping
  | .pong => do
    let alive ← decodeU8
    pure (.pong (alive != 0))
  | .enter => do
    let pos ← decodeU8
    match Position.tryFrom pos with
    | .ok pos => pure (.enter pos)
    | .error e => fail (.err e)
  | .leave => do
    let serial ← decodeU32
    pure (.leave serial)
  | .ack => do
    let serial ← decodeU32
    pure (.ack serial)
  | .hello => do
    let magic ← array 8 .panic
    let commit ← array 8 .panic
    pure (.hello magic commit)
  | .clipboardText | .clipboardImage | .clipboardFiles | .fileTransferOffer
  | .fileTransferResponse | .fileTransferCancel | .clipboardRequest => fail .panic

def decodeFixed : Decode ProtoEvent := do
  let ty ← decodeU8
  match EventType.tryFrom ty with
  | .ok ty => decodeFixedBody ty
  | .error e => fail (.err e)

/-- `TryFrom<[u8; MAX_EVENT_SIZE]> for ProtoEvent`; what the event leaves of the buffer is
ignored. -/
def ProtoEvent.tryFromFixed (buf : Vector UInt8 maxEventSize) : Outcome ProtoEvent :=
  Prod.fst <$> decodeFixed buf.toList

/-! ### The variable-length codec -/

def writeHash (buf : List UInt8) (h : Hash) : List UInt8 := buf ++ h.toList

def readHash : Decode Hash := array 32 (.err .frameTooShort)

def writeU64Be (buf : List UInt8) (n : UInt64) : List UInt8 := buf ++ toBE 8 n.toNat

def readU64Be : Decode UInt64 := UInt64.ofNat <$> word 8 (.err .frameTooShort)

def writeBool (buf : List UInt8) (b : Bool) : List UInt8 := buf ++ [if b then 1 else 0]

def readBool : Decode Bool := do
  let b ← word 1 (.err .frameTooShort)
  pure (b != 0)

/-- A length is written as a `u32`, so one of `2 ^ 32` or more is cut to its low four bytes. -/
def writeBytes (buf : List UInt8) (b : List UInt8) : List UInt8 := buf ++ toBE 4 b.length ++ b

def readBytes : Decode (List UInt8) := do
  let len ← word 4 (.err .frameTooShort)
  take len (.err .frameTooShort)

def asBytes (s : String) : List UInt8 := s.toUTF8.data.toList

def fromUtf8 (bs : List UInt8) : Option String := String.fromUTF8? ⟨bs.toArray⟩

def writeString (buf : List UInt8) (s : String) : List UInt8 := writeBytes buf (asBytes s)

def readString : Decode String := do
  let bytes ← readBytes
  match fromUtf8 bytes with
  | some s => pure s
  | none => fail (.err .frameTooShort)

class VarCodec (α : Type) where
  encodeVarBody : α → List UInt8 → List UInt8
  decodeVarBody : Decode α

open VarCodec

/-- Overwrite the bytes of `buf` from position `pos` on. -/
def patch (buf : List UInt8) (pos : Nat) (bytes : List UInt8) : List UInt8 :=
  buf.take pos ++ bytes ++ buf.drop (pos + bytes.length)

/-- The total length of the items is known only once they are written, and goes into four bytes
kept free for it. -/
def writeVecVar {α : Type} [VarCodec α] (buf : List UInt8) (items : List α) : List UInt8 :=
  let lenPos := buf.length
  let buf := buf ++ [0, 0, 0, 0]
  let bodyStart := buf.length
  let buf := items.foldl (fun buf item => encodeVarBody item buf) buf
  patch buf lenPos (toBE 4 (buf.length - bodyStart))

def readVecVar (α : Type) [VarCodec α] : Decode (List α) := do
  let totalLen ← word 4 (.err .frameTooShort)
  let body ← take totalLen (.err .frameTooShort)
  (readItems decodeVarBody body.length body : Except (Fault ProtocolError) (List α))

/-- The `has_inline` byte of a text and the content it announces. -/
def readInline : Decode (Option (List UInt8)) := do
  let hasInline ← readBool
  if hasInline then some <$> readBytes else pure none

instance : VarCodec ClipboardText where
  encodeVarBody ct buf :=
    let buf := writeHash buf ct.fingerprint
    let buf := writeHash buf ct.sha256
    let buf := writeU64Be buf ct.size
    match ct.contentInline with
    | some bytes => writeBytes (buf ++ [1]) bytes
    | none => buf ++ [0]
  decodeVarBody := do
    let fingerprint ← readHash
    let sha256 ← readHash
    let size ← readU64Be
    let contentInline ← readInline
    pure { fingerprint, sha256, size, contentInline }

instance : VarCodec ClipboardImage where
  encodeVarBody ci buf :=
    let buf := writeHash buf ci.fingerprint
    let buf := writeString buf ci.mime
    let buf := writeHash buf ci.sha256
    writeU64Be buf ci.size
  decodeVarBody := do
    let fingerprint ← readHash
    let mime ← readString
    let sha256 ← readHash
    let size ← readU64Be
    pure { fingerprint, mime, sha256, size }

instance : VarCodec FileEntry where
  encodeVarBody e buf :=
    let buf := writeString buf e.name
    let buf := writeU64Be buf e.size
    let buf := writeString buf e.mime
    writeHash buf e.sha256
  decodeVarBody := do
    let name ← readString
    let size ← readU64Be
    let mime ← readString
    let sha256 ← readHash
    pure { name, size, mime, sha256 }

instance : VarCodec ClipboardFiles where
  encodeVarBody cf buf :=
    let buf := writeHash buf cf.fingerprint
    writeVecVar buf cf.entries
  decodeVarBody := do
    let fingerprint ← readHash
    let entries ← readVecVar FileEntry
    pure { fingerprint, entries }

instance : VarCodec FileTransferOffer where
  encodeVarBody o buf :=
    let buf := writeHash buf o.sha256
    let buf := writeString buf o.name
    let buf := writeU64Be buf o.size
    writeString buf o.mime
  decodeVarBody := do
    let sha256 ← readHash
    let name ← readString
    let size ← readU64Be
    let mime ← readString
    pure { sha256, name, size, mime }

instance : VarCodec FileTransferResponse where
  encodeVarBody r buf :=
    let buf := writeHash buf r.sha256
    writeBool buf r.accept
  decodeVarBody := do
    let sha256 ← readHash
    let accept ← readBool
    pure { sha256, accept }

instance : VarCodec FileTransferCancel where
  encodeVarBody c buf := writeHash buf c.sha256
  decodeVarBody := do
    let sha256 ← readHash
    pure { sha256 }

instance : VarCodec ClipboardRequest where
  encodeVarBody r buf := writeHash buf r.sha256
  decodeVarBody := do
    let sha256 ← readHash
    pure { sha256 }

/-! ### Dispatch on the type byte -/

/-- `From<ProtoEvent> for Vec<u8>`. -/
def ProtoEvent.toVec (event : ProtoEvent) : Outcome (List UInt8) :=
  let buf := [event.eventType.toByte]
  match event with
  | .clipboardText ct => .ok (encodeVarBody ct buf)
  | .clipboardImage ci => .ok (encodeVarBody ci buf)
  | .clipboardFiles cf => .ok (encodeVarBody cf buf)
  | .fileTransferOffer o => .ok (encodeVarBody o buf)
  | .fileTransferResponse r => .ok (encodeVarBody r buf)
  | .fileTransferCancel c => .ok (encodeVarBody c buf)
  | .clipboardRequest r => .ok (encodeVarBody r buf)
  | fixed => do
    let (arr, len) ← fixed.toFixed
    .ok (buf ++ (arr.toList.take len).drop 1)

def decodeVar : EventType → Decode ProtoEvent
  | .clipboardText => .clipboardText <$> decodeVarBody
  | .clipboardImage => .clipboardImage <$> decodeVarBody
  | .clipboardFiles => .clipboardFiles <$> decodeVarBody
  | .fileTransferOffer => .fileTransferOffer <$> decodeVarBody
  | .fileTransferResponse => .fileTransferResponse <$> decodeVarBody
  | .fileTransferCancel => .fileTransferCancel <$> decodeVarBody
  | .clipboardRequest => .clipboardRequest <$> decodeVarBody
  | _ => fail .panic

/-- `TryFrom<&[u8]> for ProtoEvent`. -/
def ProtoEvent.tryFromSlice : List UInt8 → Outcome ProtoEvent
  | [] => .error (.err .emptyInput)
  | ty :: body =>
    match EventType.tryFrom ty with
    | .error e => .error (.err e)
    | .ok eventType =>
      if eventType.isFixed then
        ProtoEvent.tryFromFixed (padTo maxEventSize (ty :: body.take (maxEventSize - 1)))
      else do
        let (result, rest) ← decodeVar eventType body
        if rest.isEmpty then .ok result else .error (.err .frameTooShort)

end LanMouse.Proto
