import LanMouse.Client.Manager
import LanMouse.Lib.Outbox
import LanMouse.Lib.Transition
import LanMouse.Transport.Accepting
import Mathlib.Data.List.Induction

/-!
# The sending half of a session

The dialing side sends input events, control events and clipboard events through one call. The event
and the configuration of the client decide the channel: a datagram, the control stream (A) that the
handshake left open, or the streams B and C, which are opened with their first frame. A failed write
drops a stream B or C, and the next event opens another one; the control stream is kept.

The events whose calls return `Ok` are those the channels carry, each once and in order, wherever
the writes of the other calls broke off.
-/
namespace LanMouse.Transport

open Bytes Proto Client Outbox

inductive Channel where
  | datagram
  | streamA
  | streamB
  | streamC
  deriving DecidableEq, Repr

def ChannelMode.channel : ChannelMode → Channel
  | .datagram => .datagram
  | .stream => .streamB

def routeInput (cfg : InputChannelConfig) : ProtoEvent → Channel
  | .input (.pointer (.motion ..)) | .input (.pointer (.axis ..))
  | .input (.pointer (.axisDiscrete120 ..)) => .datagram
  | .input (.pointer (.button ..)) => ChannelMode.channel cfg.mouseButton
  | .input (.keyboard (.key ..)) | .input (.keyboard (.modifiers ..)) =>
    ChannelMode.channel cfg.keyboard
  | .enter _ | .leave _ | .ack _ | .hello _ _ | .ping | .pong _ => .streamA
  | .clipboardText _ | .clipboardImage _ | .clipboardFiles _ | .fileTransferOffer _
  | .fileTransferResponse _ | .fileTransferCancel _ | .clipboardRequest _ => .streamC

/-! ### Calls -/

def maxSafeDatagram : Nat := 1162

/-- What `send_datagram` says: `refused` stands for a datagram that is too large, disabled, or not
supported by the peer. -/
inductive DatagramAnswer where
  | sent
  | connectionLost
  | refused
  deriving DecidableEq, Repr

/-- How the connection meets one call. -/
structure Link where
  maxDatagramSize : Option Nat := none
  datagram : DatagramAnswer := .sent
  openError : Option String := none
  /-- The bytes a stream takes before it breaks, if it does. -/
  room : Option Nat := none
  writeError : String := ""
  finishError : Option String := none
  deriving DecidableEq, Repr

inductive SendError where
  | helloFailed (msg : String)
  | streamB (msg : String)
  | connectionLost
  deriving DecidableEq, Repr

abbrev SendResult := Except (Fault SendError) Unit

structure Sender where
  helloOk : Bool := false
  cachedSendA : Option (Outbox.Stream UInt8) := none
  /-- The streams of control frames that found no control stream. -/
  finishedA : List (Outbox.Stream UInt8) := []
  slotB : Slot UInt8 := {}
  slotC : Slot UInt8 := {}
  datagrams : List (List UInt8) := []
  deriving DecidableEq, Repr

namespace Sender

/-- A write that broke off, under the name of the place where it did. -/
def brokenOff (error : String → SendError) (atLength atBody : String) (link : Link) :
    Written → SendResult
  | .done => .ok ()
  | .atHeader => .error (.err (error (atLength ++ link.writeError)))
  | .atBody => .error (.err (error (atBody ++ link.writeError)))

def sendStreamA (sender : Sender) (bytes : List UInt8) (link : Link) : SendResult × Sender :=
  match sender.cachedSendA with
  | some s =>
    let (written, s) := s.writeMessage link.room (toBE 4 bytes.length) bytes
    (brokenOff .helloFailed "send_stream_a cached length: " "send_stream_a cached body: " link
      written, { sender with cachedSendA := some s })
  | none =>
    match link.openError with
    | some e => (.error (.err (.helloFailed ("send_stream_a open_bi: " ++ e))), sender)
    | none =>
      let (written, s) :=
        ({} : Outbox.Stream UInt8).writeMessage link.room (toBE 4 bytes.length) bytes
      let sender := { sender with finishedA := sender.finishedA ++ [s] }
      match brokenOff .helloFailed "send_stream_a length: " "send_stream_a body: " link written with
      | .error e => (.error e, sender)
      | .ok () =>
        match link.finishError with
        | some e => (.error (.err (.helloFailed ("send_stream_a finish: " ++ e))), sender)
        | none => (.ok (), sender)

/-- Send on the stream of a slot, which is opened if there is none and dropped if a write fails. -/
def sendCached (slot : Slot UInt8) (error : String → SendError)
    (atOpen atLength atBody : String) (bytes : List UInt8) (link : Link) :
    SendResult × Slot UInt8 :=
  match slot.send link.openError.isNone link.room (toBE 4 bytes.length) bytes with
  | (.done, slot) => (.ok (), slot)
  | (.notOpened, slot) => (.error (.err (error (atOpen ++ link.openError.getD ""))), slot)
  | (.atHeader, slot) => (.error (.err (error (atLength ++ link.writeError))), slot)
  | (.atBody, slot) => (.error (.err (error (atBody ++ link.writeError))), slot)

def sendStreamB (sender : Sender) (bytes : List UInt8) (link : Link) : SendResult × Sender :=
  let (result, slot) := sendCached sender.slotB .streamB "open_bi: " "write frame length: "
    "write frame body: " bytes link
  (result, { sender with slotB := slot })

def sendStreamC (sender : Sender) (event : ProtoEvent) (link : Link) : SendResult × Sender :=
  match event.toVec with
  | .error _ => (.error .panic, sender)
  | .ok body =>
    let (result, slot) := sendCached sender.slotC .helloFailed "open stream C: "
      "write_stream_c_frame: hello handshake failed: write stream C length: "
      "write_stream_c_frame: hello handshake failed: write stream C body: " body link
    (result, { sender with slotC := slot })

def sendDatagramOrStreamB (sender : Sender) (bytes : List UInt8) (link : Link) :
    SendResult × Sender :=
  match link.maxDatagramSize.map (min · maxSafeDatagram) with
  | some limit =>
    if bytes.length ≤ limit then
      match link.datagram with
      | .sent => (.ok (), { sender with datagrams := sender.datagrams ++ [bytes] })
      | .connectionLost => (.error (.err .connectionLost), sender)
      | .refused => sender.sendStreamB bytes link
    else sender.sendStreamB bytes link
  | none => sender.sendStreamB bytes link

/-- Encode by the fixed-size codec, which panics on an event of variable length. -/
def withFixed (sender : Sender) (event : ProtoEvent)
    (send : Vector UInt8 maxEventSize → Nat → SendResult × Sender) : SendResult × Sender :=
  match event.toFixed with
  | .ok (buf, len) => send buf len
  | .error _ => (.error .panic, sender)

/-- The whole buffer goes out, whatever the length of the event. -/
def sendMotion (sender : Sender) (event : ProtoEvent) (link : Link) : SendResult × Sender :=
  if sender.helloOk then
    sender.withFixed event fun buf _ => sender.sendDatagramOrStreamB buf.toList link
  else (.error (.err (.helloFailed "hello not complete")), sender)

def sendInput (sender : Sender) (event : ProtoEvent) (cfg : InputChannelConfig) (link : Link) :
    SendResult × Sender :=
  match routeInput cfg event with
  | .datagram => sender.sendMotion event link
  | .streamA =>
    sender.withFixed event fun buf len => sender.sendStreamA (buf.toList.take len) link
  | .streamB =>
    sender.withFixed event fun buf len => sender.sendStreamB (buf.toList.take len) link
  | .streamC => sender.sendStreamC event link

end Sender

/-- A call of `send_input`, and how the connection meets it. -/
structure SendCall where
  event : ProtoEvent
  cfg : InputChannelConfig := {}
  link : Link := {}
  deriving DecidableEq, Repr

namespace SendCall

/-- The connection has room for a datagram of this size and does not refuse it. -/
def takesDatagram (call : SendCall) : Bool :=
  match call.link.maxDatagramSize with
  | some size => maxEventSize ≤ min size maxSafeDatagram && call.link.datagram != .refused
  | none => false

/-- Where the event goes: one for a datagram goes to stream B when there is none to be had. -/
def channel (call : SendCall) : Channel :=
  match routeInput call.cfg call.event with
  | .datagram => if call.takesDatagram then .datagram else .streamB
  | channel => channel

end SendCall

namespace Sender

def send (sender : Sender) (call : SendCall) : SendResult × Sender :=
  sender.sendInput call.event call.cfg call.link

def step (sender : Sender) (call : SendCall) : Sender := (sender.send call).2

/-- The event of a call on a channel that returns `Ok`. -/
def accepts (channel : Channel) (sender : Sender) (call : SendCall) : Option ProtoEvent :=
  if (sender.send call).1 = .ok () ∧ call.channel = channel then some call.event else none

/-- The events of a channel whose calls return `Ok`. -/
def accepted (channel : Channel) (sender : Sender) (calls : List SendCall) : List ProtoEvent :=
  Transition.collect step (accepts channel) sender calls

/-- The session as the handshake leaves it, with nothing on the control stream behind it. -/
def afterHello : Sender := { helloOk := true, cachedSendA := some {} }

def datagramEvent (datagram : List UInt8) : Option ProtoEvent :=
  match readDatagram datagram with
  | .ok event => event
  | .error _ => none

/-- What the listening side makes of a stream that it accepts. -/
def takenUp (ending : Ending) (s : Outbox.Stream UInt8) : List ProtoEvent :=
  (acceptBi .listening ⟨s.bytes, ending⟩).delivered .listening true

end Sender

/-! ### Messages -/

def message (body : List UInt8) : List UInt8 := toBE 4 body.length ++ body

/-- A body for the readers of the fixed-size codec. -/
def FixedBody (body : List UInt8) : Prop := body.length ≤ maxEventSize ∧ (eventB body).isSome

/-- A body that makes a stream a stream C when it comes first. -/
def LongBody (body : List UInt8) : Prop :=
  maxEventSize < body.length ∧ body.length < 2 ^ 32 ∧
    looksLikeHttp3Request (toBE 4 body.length) = false ∧ (eventC body).isSome

def Framed (good : List UInt8 → Prop) (whole : List UInt8) : Prop :=
  ∃ body, good body ∧ whole = message body

section Messages

variable {good : List UInt8 → Prop} {body torn : List UInt8} {messages : List (List UInt8)}
  {s : Outbox.Stream UInt8}

theorem FixedBody.lt (fits : FixedBody body) : body.length < 2 ^ 32 := fits.1.trans_lt (by decide)

theorem length_message (body : List UInt8) : (message body).length = 4 + body.length := by
  simp [message]

theorem drop_message (body : List UInt8) : (message body).drop 4 = body := by
  simp [message]

theorem take_message (body rest : List UInt8) :
    (message body ++ rest).take 4 = toBE 4 body.length := by
  simp [message]

theorem ofBE_message (short : body.length < 2 ^ 32) (rest : List UInt8) :
    ofBE ((message body ++ rest).take 4) = body.length := by
  rw [take_message, ofBE_toBE_four short]

/-- A torn message is shorter than its length says, if it says one. -/
theorem length_of_torn (short : ∀ body, good body → body.length < 2 ^ 32)
    (cut : Stream.Torn (Framed good) torn) :
    torn.length < 4 + ofBE (torn.take 4) ∧
      (4 ≤ torn.length → ∃ body, good body ∧ torn.take 4 = toBE 4 body.length) := by
  obtain ⟨_, ⟨body, fits, rfl⟩, ⟨more, split⟩, ne⟩ := cut
  have length (enough : 4 ≤ torn.length) : torn.take 4 = toBE 4 body.length := by
    rw [← take_message body [], List.append_nil, ← split, List.take_append_of_le_length enough]
  refine ⟨Nat.lt_of_not_le fun whole => ne ?_, fun enough => ⟨body, fits, length enough⟩⟩
  rw [length (by omega), ofBE_toBE_four (short body fits)] at whole
  have sizes := congrArg List.length split
  rw [List.length_append, length_message] at sizes
  have none_ : more = [] := List.length_eq_zero_iff.mp (by omega)
  rwa [none_, List.append_nil] at split

/-- Whole messages, and a remainder that is no frame. -/
theorem carries_shape (short : ∀ body, good body → body.length < 2 ^ 32)
    (carries : s.Carries (Framed good) messages) :
    ∃ torn, s.bytes = messages.flatten ++ torn ∧ torn.length < 4 + ofBE (torn.take 4) := by
  obtain bytes | ⟨-, torn, bytes, cut⟩ := carries.bytes
  · exact ⟨[], by rw [bytes, List.append_nil], by simp⟩
  · exact ⟨torn, bytes, (length_of_torn short cut).1⟩

/-- A stream starts with its first message, or it has none and ends within it. -/
theorem carries_first (short : ∀ body, good body → body.length < 2 ^ 32)
    (carries : s.Carries (Framed good) messages) :
    (∃ body more, good body ∧ s.bytes = message body ++ more) ∨
    (messages = [] ∧ s.bytes.length < 4 + ofBE (s.bytes.take 4) ∧
      (4 ≤ s.bytes.length → ∃ body, good body ∧ s.bytes.take 4 = toBE 4 body.length)) := by
  cases messages with
  | nil =>
    obtain bytes | ⟨-, torn, bytes, cut⟩ := carries.bytes
    · exact .inr ⟨rfl, by simp [bytes]⟩
    · rw [List.flatten_nil, List.nil_append] at bytes
      exact .inr ⟨rfl, bytes ▸ length_of_torn short cut⟩
  | cons first rest =>
    obtain ⟨torn, bytes, -⟩ := carries_shape short carries
    obtain ⟨body, fits, rfl⟩ := carries.each _ List.mem_cons_self
    rw [List.flatten_cons, List.append_assoc] at bytes
    exact .inl ⟨body, _, fits, bytes⟩

/-- A way to find the first frame: it finds a message with a good body, and nothing in bytes that
end before the frame does. -/
structure Finds (head : List UInt8 → Option (List UInt8)) (good : List UInt8 → Prop) : Prop where
  whole : ∀ body rest, good body → head (message body ++ rest) = some body
  torn : ∀ bytes, bytes.length < 4 + ofBE (bytes.take 4) → head bytes = none

theorem finds_headFrame : Finds headFrame FixedBody where
  whole body rest fits := by
    rw [headFrame, ofBE_message fits.lt, if_pos ⟨fits.1, by simp [message]⟩]
    simp [message]
  torn _ cut := if_neg fun whole => Nat.not_le.mpr cut whole.2

theorem finds_headFrameC : Finds headFrameC LongBody where
  whole body rest fits := by
    rw [headFrameC, ofBE_message fits.2.1, if_pos (by simp [message])]
    simp [message]
  torn _ cut := if_neg (Nat.not_le.mpr cut)

theorem cutInto_messages {head : List UInt8 → Option (List UInt8)} (finds : Finds head good)
    (each : ∀ whole ∈ messages, Framed good whole)
    (cut : torn.length < 4 + ofBE (torn.take 4)) {n : Nat}
    (enough : (messages.flatten ++ torn).length < n) :
    cutInto head n (messages.flatten ++ torn) = messages.map (·.drop 4) := by
  induction messages generalizing n with
  | nil =>
    obtain ⟨n, rfl⟩ : ∃ m, n = m + 1 := ⟨n - 1, by omega⟩
    simp [cutInto, finds.torn torn cut]
  | cons whole messages ih =>
    obtain ⟨n, rfl⟩ : ∃ m, n = m + 1 := ⟨n - 1, by omega⟩
    obtain ⟨body, fits, rfl⟩ := each _ List.mem_cons_self
    rw [List.flatten_cons, List.append_assoc] at enough ⊢
    rw [List.length_append, length_message] at enough
    have rest := ih (fun whole mem => each whole (List.mem_cons_of_mem _ mem))
      (n := n) (by omega)
    rw [cutInto, finds.whole body _ fits]
    dsimp only
    rw [← length_message, List.drop_left, rest, List.map_cons, drop_message]

/-- The frames of a stream are the bodies of its messages, whatever torn one stands behind them. -/
theorem cutInto_carries {head : List UInt8 → Option (List UInt8)} (finds : Finds head good)
    (short : ∀ body, good body → body.length < 2 ^ 32)
    (carries : s.Carries (Framed good) messages) :
    cutInto head (s.bytes.length + 1) s.bytes = messages.map (·.drop 4) := by
  obtain ⟨torn, bytes, cut⟩ := carries_shape short carries
  rw [bytes]
  exact cutInto_messages finds carries.each cut (Nat.lt_succ_self _)

end Messages

/-! ### What the listening side reads -/

/-- A stream that arrived whole, and then was finished or reset. -/
def arrived (ending : Ending) (s : Outbox.Stream UInt8) : Opened where
  bytes := s.bytes
  ending := some ending

@[simp] theorem arrived_bytes (ending : Ending) (s : Outbox.Stream UInt8) :
    (arrived ending s).bytes = s.bytes := rfl

section Reading

variable {messages : List (List UInt8)} {s : Outbox.Stream UInt8}

def decodeB (whole : List UInt8) : Option ProtoEvent := eventB (whole.drop 4)

def decodeC (whole : List UInt8) : Option ProtoEvent := eventC (whole.drop 4)

theorem startsVar_of_mem (each : ∀ whole ∈ messages, Framed FixedBody whole) :
    ∀ body ∈ messages.map (·.drop 4), startsVar body = false := by
  intro body mem
  obtain ⟨whole, isMessage, rfl⟩ := List.mem_map.mp mem
  obtain ⟨body, fits, rfl⟩ := each whole isMessage
  rw [drop_message]
  by_contra var
  have none_ := Opened.eventB_of_startsVar (by simpa using var)
  have some_ := fits.2
  rw [none_] at some_
  cases some_

theorem expected_torn {o : Opened} (cut : o.bytes.length < 4 + ofBE (o.bytes.take 4)) :
    o.expected = [] := by
  rw [Opened.expected, framesC, frames, framesUpTo, cutInto, finds_headFrameC.torn _ cut,
    finds_headFrame.torn _ cut]
  simp

/-- A stream whose first message starts it delivers the events of its messages. -/
theorem takenUp_eq {good : List UInt8 → Prop} {decode : List UInt8 → Option ProtoEvent}
    (short : ∀ body, good body → body.length < 2 ^ 32)
    (carries : s.Carries (Framed good) messages) (ending : Ending)
    (taken : ∀ body more, good body → s.bytes = message body ++ more →
      (arrived ending s).expected = messages.filterMap decode ∧
      (arrived ending s).Taken .listening) :
    Sender.takenUp ending s = messages.filterMap decode := by
  have delivers : Sender.takenUp ending s = (arrived ending s).expected ↔ _ :=
    Opened.delivered_eq_expected_iff .listening (arrived ending s) ending
  obtain ⟨body, more, fits, first⟩ | ⟨none_, cut, -⟩ := carries_first short carries
  · obtain ⟨full, taken⟩ := taken body more fits first
    rw [delivers.mpr taken, full]
  · have nothing : (arrived ending s).expected = [] := expected_torn cut
    rw [none_, delivers.mpr (Opened.taken_of_silent nothing), nothing]
    rfl

theorem takenUp_fixed (carries : s.Carries (Framed FixedBody) messages) (ending : Ending) :
    Sender.takenUp ending s = messages.filterMap decodeB := by
  refine takenUp_eq (fun _ => FixedBody.lt) carries ending fun body more fits first => ?_
  have frames_ : frames s.bytes = messages.map (·.drop 4) := by
    rw [frames, framesUpTo_eq_cutInto]
    exact cutInto_carries finds_headFrame (fun _ => FixedBody.lt) carries
  have small : ¬ (arrived ending s).len > maxEventSize := by
    rw [Opened.len, arrived_bytes, first, ofBE_message fits.lt]
    exact Nat.not_lt.mpr fits.1
  constructor
  · rw [Opened.expected, if_neg small, arrived_bytes, frames_, List.filterMap_map]
    rfl
  · refine fun _ => ⟨⟨Opened.isRequest_short (Nat.not_lt.mp small), ?_, by simp⟩, fun _ => ?_⟩
    · rw [Opened.firstEvent, if_neg small, arrived_bytes, first,
        finds_headFrame.whole body more fits]
      exact fits.2
    · rw [arrived_bytes, frames_]
      refine List.pairwise_of_forall_mem_list fun ahead mem _ _ var => ?_
      rw [startsVar_of_mem carries.each ahead mem] at var
      cases var

end Reading

/-! ### What a call does -/

/-- A clipboard event that stream C can carry: its lengths fit their fields, and the length of its
frame does not read as the start of a request. -/
def Streamable (event : ProtoEvent) : Prop :=
  event.LengthsFit ∧ (encoded event).length < 2 ^ 32 ∧
    looksLikeHttp3Request (toBE 4 (encoded event).length) = false

/-- Every event but those of stream C has its place on its channel. -/
def SendCall.Sendable (call : SendCall) : Prop :=
  routeInput call.cfg call.event = .streamC → Streamable call.event

theorem isFixed_iff_routeInput (cfg : InputChannelConfig) (event : ProtoEvent) :
    event.eventType.isFixed = false ↔ routeInput cfg event = .streamC := by
  have mode (m : ChannelMode) : ChannelMode.channel m ≠ .streamC := by cases m <;> nofun
  cases event with
  | input e =>
    rw [isFixed_input]
    rcases e with (_ | _ | _ | _) | (_ | _) <;> simp [routeInput, mode]
  | _ => first
    | exact iff_of_true rfl rfl
    | exact iff_of_false nofun nofun

/-! Each part of a call either puts its event behind those a channel carries, or fails with an error
and leaves every channel as it was. -/

namespace Sender

def SlotCarries (good : List UInt8 → Prop) (decode : List UInt8 → Option ProtoEvent)
    (events : List ProtoEvent) (slot : Slot UInt8) : Prop :=
  ∃ messages, slot.Carries (Framed good) messages ∧ messages.filterMap decode = events

def Carries (sender : Sender) (events : List ProtoEvent) : Channel → Prop
  | .datagram => sender.datagrams.filterMap datagramEvent = events
  | .streamA => ∃ s messages, sender.cachedSendA = some s ∧ s.Carries (Framed FixedBody) messages ∧
    messages.filterMap decodeB = events
  | .streamB => SlotCarries FixedBody decodeB events sender.slotB
  | .streamC => SlotCarries LongBody decodeC events sender.slotC

/-- The channels carry the events in `sent`. -/
structure Carrying (sent : Channel → List ProtoEvent) (sender : Sender) : Prop where
  hello : sender.helloOk = true
  each : ∀ channel, sender.Carries (sent channel) channel

structure Accounts (sent : Channel → List ProtoEvent) (channel : Channel) (event : ProtoEvent)
    (r : SendResult × Sender) : Prop where
  hello : r.2.helloOk = true
  others : ∀ other ≠ channel, r.2.Carries (sent other) other
  own : (r.1 = .ok () ∧ r.2.Carries (sent channel ++ [event]) channel) ∨
    ((∃ e, r.1 = .error (.err e)) ∧ r.2.Carries (sent channel) channel)

variable {sent : Channel → List ProtoEvent} {sender : Sender} {event : ProtoEvent}
  {body : List UInt8}

theorem sendStreamA_accounts (carrying : sender.Carrying sent) (short : body.length ≤ maxEventSize)
    (decodes : eventB body = some event) (link : Link) :
    Accounts sent .streamA event (sender.sendStreamA body link) := by
  obtain ⟨s, messages, cached, carries, before⟩ := carrying.each .streamA
  have whole : Framed FixedBody (message body) := ⟨body, ⟨short, by rw [decodes]; rfl⟩, rfl⟩
  have wrote := carries.writeMessage whole link.room
  unfold sendStreamA
  rw [cached]
  dsimp only
  generalize s.writeMessage link.room (toBE 4 body.length) body = result at wrote
  obtain ⟨written, s'⟩ := result
  refine ⟨carrying.hello, fun other ne => ?_, ?_⟩
  · have kept := carrying.each other
    cases other <;> first | exact absurd rfl ne | exact kept
  obtain ⟨rfl, -, -, carries'⟩ | ⟨failed, -, carries'⟩ := wrote
  · refine .inl ⟨rfl, s', _, rfl, carries', ?_⟩
    rw [List.filterMap_append, before, ← message]
    simp [decodeB, drop_message, decodes]
  · refine .inr ⟨?_, s', messages, rfl, carries', before⟩
    cases written with
    | done => exact absurd rfl failed
    | _ => exact ⟨_, rfl⟩

/-- A slot takes an event behind those it carries, or fails and carries the same. -/
theorem sendCached_cases {slot : Slot UInt8} {good : List UInt8 → Prop}
    {decode : List UInt8 → Option ProtoEvent} {events : List ProtoEvent}
    (carries : SlotCarries good decode events slot) (fits : good body)
    (decodes : decode (message body) = some event) (error : String → SendError)
    (atOpen atLength atBody : String) (link : Link) :
    ((sendCached slot error atOpen atLength atBody body link).1 = .ok () ∧
      SlotCarries good decode (events ++ [event])
        (sendCached slot error atOpen atLength atBody body link).2) ∨
    ((∃ e, (sendCached slot error atOpen atLength atBody body link).1 = .error (.err e)) ∧
      SlotCarries good decode events
        (sendCached slot error atOpen atLength atBody body link).2) := by
  obtain ⟨messages, carries, rfl⟩ := carries
  have whole : Framed good (message body) := ⟨body, fits, rfl⟩
  have wrote := carries.send whole link.openError.isNone link.room
  unfold sendCached
  generalize slot.send link.openError.isNone link.room (toBE 4 body.length) body = result at wrote
  obtain ⟨outcome, slot'⟩ := result
  obtain ⟨rfl, carries'⟩ | ⟨failed, carries'⟩ := wrote
  · refine .inl ⟨rfl, _, carries', ?_⟩
    rw [← message]
    simp [decodes]
  · cases outcome with
    | done => exact absurd rfl failed
    | _ => exact .inr ⟨⟨_, rfl⟩, messages, carries', rfl⟩

theorem sendStreamB_accounts (carrying : sender.Carrying sent) (short : body.length ≤ maxEventSize)
    (decodes : eventB body = some event) (link : Link) :
    Accounts sent .streamB event (sender.sendStreamB body link) where
  hello := carrying.hello
  others other ne := by
    have kept := carrying.each other
    cases other <;> first | exact absurd rfl ne | exact kept
  own := sendCached_cases (carrying.each .streamB) ⟨short, by rw [decodes]; rfl⟩
    (by rwa [decodeB, drop_message]) .streamB "open_bi: " "write frame length: "
    "write frame body: " link

theorem sendStreamC_accounts (carrying : sender.Carrying sent)
    (var : event.eventType.isFixed = false) (streamable : Streamable event) (link : Link) :
    Accounts sent .streamC event (sender.sendStreamC event link) := by
  obtain ⟨lengths, short, frame⟩ := streamable
  have decodes : eventC (encoded event) = some event := by
    rw [eventC, encoded, ProtoEvent.tryFromSlice_bytes lengths]
    rfl
  have fits : LongBody (encoded event) :=
    ⟨length_encoded_of_var var, short, frame, by rw [decodes]; rfl⟩
  rw [sendStreamC, ProtoEvent.toVec_eq]
  refine ⟨carrying.hello, fun other ne => ?_, ?_⟩
  · have kept := carrying.each other
    cases other <;> first | exact absurd rfl ne | exact kept
  · exact sendCached_cases (carrying.each .streamC) fits (by rwa [decodeC, drop_message])
      .helloFailed "open stream C: "
      "write_stream_c_frame: hello handshake failed: write stream C length: "
      "write_stream_c_frame: hello handshake failed: write stream C body: " link

theorem eventB_encoded (fixed : event.eventType.isFixed = true) :
    eventB (encoded event) = some event := by
  rw [eventB, encoded, ProtoEvent.tryFromFixed_padTo fixed]
  rfl

/-- The whole buffer of an event decodes to it. -/
theorem eventB_padTo (fixed : event.eventType.isFixed = true) :
    eventB (padTo maxEventSize (encoded event)).toList = some event := by
  have same : padTo maxEventSize (padTo maxEventSize (encoded event)).toList =
      padTo maxEventSize (encoded event) := by
    apply Vector.toList_inj.mp
    rw [toList_padTo (by simp)]
    simp
  rw [eventB, same]
  exact eventB_encoded fixed

theorem datagramEvent_eq (size : body.length = maxEventSize) :
    datagramEvent body = eventB body := by
  rw [datagramEvent, readDatagram, if_neg (not_not.mpr size), eventB]
  rcases ProtoEvent.tryFromFixed (padTo maxEventSize body) with (_ | _ | _) | _ <;> rfl

theorem sendDatagramOrStreamB_accounts (carrying : sender.Carrying sent)
    (size : body.length = maxEventSize) (decodes : eventB body = some event) (call : SendCall) :
    Accounts sent (if call.takesDatagram then .datagram else .streamB) event
      (sender.sendDatagramOrStreamB body call.link) := by
  have onStream := sendStreamB_accounts carrying (Nat.le_of_eq size) decodes call.link
  unfold sendDatagramOrStreamB SendCall.takesDatagram
  cases call.link.maxDatagramSize with
  | none => exact onStream
  | some limit =>
    dsimp only [Option.map_some]
    rw [size]
    by_cases room : maxEventSize ≤ min limit maxSafeDatagram
    · simp only [if_pos room, decide_eq_true room, Bool.true_and]
      cases call.link.datagram with
      | refused => exact onStream
      | connectionLost =>
        exact ⟨carrying.hello, fun other _ => carrying.each other,
          .inr ⟨⟨_, rfl⟩, carrying.each .datagram⟩⟩
      | sent =>
        refine ⟨carrying.hello, fun other ne => ?_, .inl ⟨rfl, ?_⟩⟩
        · have kept := carrying.each other
          cases other <;> first | exact absurd rfl ne | exact kept
        · have before : sender.datagrams.filterMap datagramEvent = _ := carrying.each .datagram
          change (sender.datagrams ++ [body]).filterMap datagramEvent = _
          simp [before, datagramEvent_eq size, decodes]
    · simp only [if_neg room, decide_eq_false room, Bool.false_and]
      exact onStream

theorem withFixed_eq (fixed : event.eventType.isFixed = true)
    (send : Vector UInt8 maxEventSize → Nat → SendResult × Sender) :
    sender.withFixed event send =
      send (padTo maxEventSize (encoded event)) (encoded event).length := by
  unfold withFixed
  rw [ProtoEvent.toFixed_eq fixed]
  rfl

theorem isFixed_of_route {call : SendCall} {channel : Channel}
    (route : routeInput call.cfg call.event = channel) (other : channel ≠ .streamC) :
    call.event.eventType.isFixed = true := by
  by_contra var
  have onC := (isFixed_iff_routeInput call.cfg call.event).mp (by simpa using var)
  exact other (route.symm.trans onC)

theorem take_padTo (fixed : event.eventType.isFixed = true) :
    (padTo maxEventSize (encoded event)).toList.take (encoded event).length = encoded event := by
  rw [toList_padTo (length_encoded_of_isFixed fixed), List.take_left]

/-- The streams A and B are given the encoding of the event without the rest of the buffer. -/
theorem withFixed_taken (fixed : event.eventType.isFixed = true)
    (send : List UInt8 → SendResult × Sender) :
    sender.withFixed event (fun buf len => send (buf.toList.take len)) = send (encoded event) := by
  rw [withFixed_eq fixed, take_padTo fixed]

/-! What a call comes down to, channel by channel. -/

theorem send_datagram {call : SendCall} (route : routeInput call.cfg call.event = .datagram)
    (hello : sender.helloOk = true) :
    sender.send call = sender.sendDatagramOrStreamB
      (padTo maxEventSize (encoded call.event)).toList call.link := by
  rw [send, sendInput, route]
  dsimp only
  rw [sendMotion, if_pos hello, withFixed_eq (isFixed_of_route route nofun)]

theorem send_streamA {call : SendCall} (route : routeInput call.cfg call.event = .streamA) :
    sender.send call = sender.sendStreamA (encoded call.event) call.link := by
  rw [send, sendInput, route]
  exact withFixed_taken (isFixed_of_route route nofun) (sender.sendStreamA · call.link)

theorem send_streamB {call : SendCall} (route : routeInput call.cfg call.event = .streamB) :
    sender.send call = sender.sendStreamB (encoded call.event) call.link := by
  rw [send, sendInput, route]
  exact withFixed_taken (isFixed_of_route route nofun) (sender.sendStreamB · call.link)

theorem send_streamC {call : SendCall} (route : routeInput call.cfg call.event = .streamC) :
    sender.send call = sender.sendStreamC call.event call.link := by
  rw [send, sendInput, route]

/-- A call accounts for its event on its channel. -/
theorem send_accounts (carrying : sender.Carrying sent) (call : SendCall)
    (sendable : call.Sendable) :
    Accounts sent call.channel call.event (sender.send call) := by
  unfold SendCall.channel
  cases route : routeInput call.cfg call.event with
  | datagram =>
    have fixed := isFixed_of_route route nofun
    rw [send_datagram route carrying.hello]
    exact sendDatagramOrStreamB_accounts carrying (by simp) (eventB_padTo fixed) call
  | streamA =>
    have fixed := isFixed_of_route route nofun
    rw [send_streamA route]
    exact sendStreamA_accounts carrying (length_encoded_of_isFixed fixed) (eventB_encoded fixed)
      call.link
  | streamB =>
    have fixed := isFixed_of_route route nofun
    rw [send_streamB route]
    exact sendStreamB_accounts carrying (length_encoded_of_isFixed fixed) (eventB_encoded fixed)
      call.link
  | streamC =>
    rw [send_streamC route]
    exact sendStreamC_accounts carrying ((isFixed_iff_routeInput ..).mpr route) (sendable route)
      call.link

/-! ### Runs -/

theorem step_carrying (carrying : sender.Carrying sent) (call : SendCall)
    (sendable : call.Sendable) :
    (sender.step call).Carrying fun channel =>
      sent channel ++ (accepts channel sender call).toList := by
  obtain ⟨hello, others, own⟩ := send_accounts carrying call sendable
  refine ⟨hello, fun channel => ?_⟩
  unfold accepts
  by_cases on : channel = call.channel
  · rw [on]
    obtain ⟨ok, carries⟩ | ⟨⟨e, err⟩, carries⟩ := own
    · rw [if_pos ⟨ok, rfl⟩]
      exact carries
    · rw [if_neg (by rw [err]; nofun), Option.toList_none, List.append_nil]
      exact carries
  · rw [if_neg fun both => on both.2.symm, Option.toList_none, List.append_nil]
    exact others channel on

theorem afterHello_carrying : afterHello.Carrying fun _ => [] := by
  refine ⟨rfl, fun channel => ?_⟩
  cases channel with
  | datagram => rfl
  | streamA => exact ⟨{}, [], rfl, Stream.carries_empty, rfl⟩
  | _ => exact ⟨[], Slot.carries_empty, rfl⟩

theorem run_carrying {calls : List SendCall} (sendable : ∀ call ∈ calls, call.Sendable) :
    (Transition.run step afterHello calls).Carrying fun channel =>
      accepted channel afterHello calls := by
  induction calls using List.reverseRecOn with
  | nil => exact afterHello_carrying
  | append_singleton calls call ih =>
    have before := ih fun call mem => sendable call (List.mem_append_left _ mem)
    have next := step_carrying before call (sendable call (by simp))
    simp only [accepted, Transition.collect_snoc]
    rw [Transition.run_snoc]
    exact next

end Sender

end LanMouse.Transport
