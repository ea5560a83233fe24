import LanMouse.Transport.Sender

/-!
# The handshake

The dialing side opens the control stream and writes a `Hello` frame. The listening side accepts the
stream, reads the frame, and writes its own `Hello` when the magic is right. Either side gives up
when its frame has not come within the timeout; the listening side's clock starts with the stream.

Both sides leave the stream to the session that follows. The dialing side has its answer only from a
listening side that has finished as well, and the bytes behind the two frames are not touched.
-/
namespace LanMouse.Transport

open Bytes Proto Outbox

inductive HelloFault where
  | fault (f : Fault Error)
  | wrongMagic (magic : Vector UInt8 8)
  | notHello (event : ProtoEvent)
  | timeout
  deriving DecidableEq, Repr

inductive HelloPhase where
  | idle
  | reading
  | ok
  | failed (fault : HelloFault)
  deriving DecidableEq, Repr

/-- One side's end of the control stream. -/
structure HelloEnd where
  phase : HelloPhase := .idle
  /-- How many bytes of the other side it has read. -/
  read : Nat := 0
  written : Outbox.Stream UInt8 := {}
  deriving DecidableEq, Repr

def hello (commit : Vector UInt8 8) : ProtoEvent := .hello protocolMagic commit

/-- A frame read in place of a `Hello`: `none` if it is one with the right magic. -/
def helloFault : Except (Fault Error) ProtoEvent → Option HelloFault
  | .ok (.hello magic _) => if magic = protocolMagic then none else some (.wrongMagic magic)
  | .ok event => some (.notHello event)
  | .error f => some (.fault f)

def helloWritten (error : String) :
    Written × Outbox.Stream UInt8 → Option HelloFault × Outbox.Stream UInt8
  | (.done, s) => (none, s)
  | (.atHeader, s) =>
    (some (.fault (.err (.helloFailed ("write Hello frame length: " ++ error)))), s)
  | (.atBody, s) => (some (.fault (.err (.helloFailed ("write Hello frame body: " ++ error)))), s)

def writeHelloFrame (event : ProtoEvent) (s : Outbox.Stream UInt8) (room : Option Nat)
    (error : String) : Option HelloFault × Outbox.Stream UInt8 :=
  match event.toFixed with
  | .error _ => (some (.fault .panic), s)
  | .ok (buf, len) =>
    helloWritten error (s.writeMessage room (toBE 4 len) (buf.toList.take len))

/-- A read of a frame comes to an end with what has arrived. -/
def frameArrived (bytes : List UInt8) : Bool :=
  4 ≤ bytes.length &&
    (maxEventSize < ofBE (bytes.take 4) || 4 + ofBE (bytes.take 4) ≤ bytes.length)

namespace HelloEnd

/-- Write a `Hello`, and go on to the next phase. -/
def writeHello (commit : Vector UInt8 8) (room : Option Nat) (error : String) (next : HelloPhase)
    (e : HelloEnd) : HelloEnd :=
  match writeHelloFrame (hello commit) e.written room error with
  | (none, s) => { e with phase := next, written := s }
  | (some f, s) => { e with phase := .failed f, written := s }

/-- Read the frame of the other side once it has arrived, or once nothing more can come. -/
def readHello (e : HelloEnd) (arrived : List UInt8) (ending : Option Ending)
    (accept : HelloEnd → HelloEnd) : HelloEnd :=
  if e.phase = .reading ∧ (frameArrived arrived = true ∨ ending ≠ none) then
    let (result, rest) := readHelloFrame ⟨arrived, ending.getD .eof⟩
    match helloFault result with
    | some f => { e with phase := .failed f }
    | none => accept { e with read := arrived.length - rest.bytes.length }
  else e

def timeOut (e : HelloEnd) : HelloEnd :=
  if e.phase = .reading then { e with phase := .failed .timeout } else e

/-- A control frame of the session that follows. -/
def send (e : HelloEnd) (room : Option Nat) (body : List UInt8) : HelloEnd :=
  if e.phase = .ok then
    { e with written := (e.written.writeMessage room (toBE 4 body.length) body).2 }
  else e

end HelloEnd

/-- Both ends, and how much of what each wrote has come to the other one. -/
structure Exchange where
  dialer : HelloEnd := {}
  listener : HelloEnd := {}
  toListener : Nat := 0
  toDialer : Nat := 0
  deriving DecidableEq, Repr

inductive HelloEvent where
  | opened
  | accepted
  | toListener (n : Nat)
  | toDialer (n : Nat)
  | timeout (side : Side)
  | lost (text : String)
  | sends (side : Side) (body : List UInt8)
  deriving DecidableEq, Repr

/-- An event, and where what is written at it breaks off, if it does. -/
structure HelloStep where
  event : HelloEvent
  room : Option Nat := none
  error : String := ""
  deriving DecidableEq, Repr

namespace Exchange

def atListener (x : Exchange) : List UInt8 := x.dialer.written.bytes.take x.toListener

def atDialer (x : Exchange) : List UInt8 := x.listener.written.bytes.take x.toDialer

/-- The dialing side has what it waits for once it has read a `Hello`. -/
def dialerReads (x : Exchange) (ending : Option Ending) : Exchange :=
  { x with dialer := x.dialer.readHello x.atDialer ending fun e => { e with phase := .ok } }

variable (dials listens : Vector UInt8 8)

/-- The listening side answers with its own `Hello`. -/
def listenerReads (x : Exchange) (ending : Option Ending) (room : Option Nat) (error : String) :
    Exchange :=
  { x with
    listener := x.listener.readHello x.atListener ending
      (HelloEnd.writeHello listens room error .ok) }

def handle (x : Exchange) (i : HelloStep) : Exchange :=
  match i.event with
  | .opened =>
    if x.dialer.phase = .idle then
      { x with dialer := x.dialer.writeHello dials i.room i.error .reading }
    else x
  | .accepted =>
    if x.listener.phase = .idle ∧ x.dialer.phase ≠ .idle then
      { x with listener.phase := .reading }
    else x
  | .toListener n => { x with toListener := min (x.toListener + n) x.dialer.written.bytes.length }
  | .toDialer n => { x with toDialer := min (x.toDialer + n) x.listener.written.bytes.length }
  | .timeout .dialing => { x with dialer := x.dialer.timeOut }
  | .timeout .listening => { x with listener := x.listener.timeOut }
  | .lost text =>
    (x.dialerReads (some (.ioError text))).listenerReads listens (some (.ioError text)) (some 0)
      text
  | .sends .dialing body => { x with dialer := x.dialer.send i.room body }
  | .sends .listening body => { x with listener := x.listener.send i.room body }

/-- One event of an exchange between sides at the commits `dials` and `listens`. A side that has
what it waits for reads it at once. -/
def step (x : Exchange) (i : HelloStep) : Exchange :=
  ((x.handle dials listens i).listenerReads listens none i.room i.error).dialerReads none

end Exchange

/-! ### One end -/

section Frames

variable {commit : Vector UInt8 8} {bytes : List UInt8}

/-- The one frame of a side that speaks the protocol. -/
def helloFrame (commit : Vector UInt8 8) : List UInt8 := message (encoded (hello commit))

theorem isFixed_hello (commit : Vector UInt8 8) : (hello commit).eventType.isFixed = true := rfl

theorem length_hello (commit : Vector UInt8 8) : (encoded (hello commit)).length ≤ maxEventSize :=
  length_encoded_of_isFixed (isFixed_hello commit)

theorem ofBE_helloFrame (commit : Vector UInt8 8) (rest : List UInt8) :
    ofBE ((helloFrame commit ++ rest).take 4) = (encoded (hello commit)).length :=
  ofBE_message ((length_hello commit).trans_lt (by decide)) rest

theorem helloFrame_ne_nil (commit : Vector UInt8 8) : helloFrame commit ≠ [] := by
  intro none_
  have size := congrArg List.length none_
  rw [helloFrame, length_message] at size
  simp at size

/-- As far as it goes, `bytes` is a `Hello` frame and what follows it. -/
def Along (frame bytes : List UInt8) : Prop := bytes <+: frame ∨ frame <+: bytes

theorem Along.take {frame : List UInt8} (along : Along frame bytes) (n : Nat) :
    Along frame (bytes.take n) := by
  obtain short | long := along
  · exact .inl ((List.take_prefix n bytes).trans short)
  · exact List.prefix_or_prefix_of_prefix (List.take_prefix n bytes) long

theorem Along.torn (along : Along (helloFrame commit) bytes)
    (cut : ¬ helloFrame commit <+: bytes) :
    bytes.length < 4 + ofBE (bytes.take 4) ∧
      (4 ≤ bytes.length → ofBE (bytes.take 4) ≤ maxEventSize) := by
  have short : (encoded (hello commit)).length < 2 ^ 32 :=
    (length_hello commit).trans_lt (by decide)
  have torn : Stream.Torn (Framed (· = encoded (hello commit))) bytes :=
    ⟨helloFrame commit, ⟨_, rfl, rfl⟩, along.resolve_right cut, fun same =>
      cut (same ▸ List.prefix_rfl)⟩
  obtain ⟨ends, length⟩ := length_of_torn (by rintro _ rfl; exact short) torn
  refine ⟨ends, fun enough => ?_⟩
  obtain ⟨_, rfl, length⟩ := length enough
  rw [length, ofBE_toBE_four short]
  exact length_hello commit

theorem frameArrived_iff (along : Along (helloFrame commit) bytes) :
    frameArrived bytes = true ↔ helloFrame commit <+: bytes := by
  unfold frameArrived
  rw [Bool.and_eq_true, Bool.or_eq_true, decide_eq_true_iff, decide_eq_true_iff, decide_eq_true_iff]
  constructor
  · rintro ⟨enough, ends⟩
    by_contra cut
    have := along.torn cut
    omega
  · rintro ⟨rest, rfl⟩
    rw [ofBE_helloFrame, List.length_append, helloFrame, length_message]
    exact ⟨by omega, .inr (by omega)⟩

theorem readHelloFrame_helloFrame (commit : Vector UInt8 8) (rest : List UInt8) (ending : Ending) :
    readHelloFrame ⟨helloFrame commit ++ rest, ending⟩ = (.ok (hello commit), ⟨rest, ending⟩) := by
  have small : ¬ (encoded (hello commit)).length > maxEventSize :=
    Nat.not_lt.mpr (length_hello commit)
  have decoded : ProtoEvent.tryFromFixed (padTo maxEventSize (encoded (hello commit))) =
      .ok (hello commit) := ProtoEvent.tryFromFixed_padTo (isFixed_hello commit)
  rw [helloFrame, message, List.append_assoc]
  simp only [readHelloFrame, readExact_four, advance_four, ofBE_framed (isFixed_hello commit),
    small, if_false, readExact_append, advance_append, decoded, mapErr]

/-- A frame that is not whole is not read. -/
theorem readHelloFrame_cut (along : Along (helloFrame commit) bytes)
    (cut : ¬ helloFrame commit <+: bytes) (ending : Ending) :
    ∃ f rest, readHelloFrame ⟨bytes, ending⟩ = (.error f, rest) := by
  obtain ⟨short, -⟩ := along.torn cut
  unfold readHelloFrame
  by_cases enough : 4 ≤ bytes.length
  · have length : RecvStream.readExact ⟨bytes, ending⟩ 4 = .ok (bytes.take 4) := if_pos enough
    have body : RecvStream.readExact (RecvStream.advance ⟨bytes, ending⟩ 4)
        (ofBE (bytes.take 4)) = .error ending := if_neg (by simp [RecvStream.advance]; omega)
    rw [length]
    dsimp only
    split_ifs
    · exact ⟨_, _, rfl⟩
    · rw [body]
      exact ⟨_, _, rfl⟩
  · have length : RecvStream.readExact ⟨bytes, ending⟩ 4 = .error ending := if_neg enough
    rw [length]
    exact ⟨_, _, rfl⟩

theorem helloFault_hello (commit : Vector UInt8 8) : helloFault (.ok (hello commit)) = none := by
  simp [helloFault, hello]

theorem writeHelloFrame_hello (s : Outbox.Stream UInt8) (room : Option Nat) (error : String) :
    writeHelloFrame (hello commit) s room error = helloWritten error
      (s.writeMessage room (toBE 4 (encoded (hello commit)).length) (encoded (hello commit))) := by
  unfold writeHelloFrame
  rw [ProtoEvent.toFixed_eq (isFixed_hello commit)]
  exact congrArg (fun body => helloWritten error (s.writeMessage room _ body))
    (Sender.take_padTo (isFixed_hello commit))

end Frames

namespace HelloEnd

variable {commit : Vector UInt8 8} {e : HelloEnd} {arrived : List UInt8}

/-- A read waits, or it fails for want of a whole frame, or it has read the other side's `Hello`. -/
theorem readHello_cases (along : Along (helloFrame commit) arrived) (ending : Option Ending)
    (accept : HelloEnd → HelloEnd) :
    (e.readHello arrived ending accept = e ∧
      (e.phase = .reading → ¬ helloFrame commit <+: arrived)) ∨
    (e.phase = .reading ∧ ending ≠ none ∧
      ∃ f, e.readHello arrived ending accept = { e with phase := .failed f }) ∨
    (e.phase = .reading ∧ helloFrame commit <+: arrived ∧
      e.readHello arrived ending accept =
        accept { e with read := (helloFrame commit).length }) := by
  unfold readHello
  split_ifs with ready
  · obtain ⟨reading, ends⟩ := ready
    by_cases whole : helloFrame commit <+: arrived
    · obtain ⟨rest, rfl⟩ := whole
      refine .inr (.inr ⟨reading, List.prefix_append _ _, ?_⟩)
      rw [readHelloFrame_helloFrame]
      dsimp only
      rw [helloFault_hello, List.length_append, Nat.add_sub_cancel]
    · obtain ⟨f, rest, cut⟩ := readHelloFrame_cut along whole (ending.getD .eof)
      refine .inr (.inl ⟨reading, ?_, .fault f, by rw [cut]; rfl⟩)
      exact ends.resolve_left fun frame => whole ((frameArrived_iff along).mp frame)
  · refine .inl ⟨rfl, fun reading whole => ready ⟨reading, .inl ?_⟩⟩
    exact (frameArrived_iff along).mpr whole

/-- The `Hello` goes out whole, or a part of it does and the stream breaks. -/
theorem writeHello_cases (silent : e.written = {}) (room : Option Nat) (error : String)
    (next : HelloPhase) :
    e.writeHello commit room error next =
      { e with phase := next, written := ⟨helloFrame commit, false⟩ } ∨
    (room ≠ none ∧ ∃ f s, e.writeHello commit room error next =
      { e with phase := .failed f, written := s } ∧
      s.bytes <+: helloFrame commit ∧ s.bytes ≠ helloFrame commit) := by
  unfold writeHello
  rw [silent, writeHelloFrame_hello]
  obtain done | ⟨failed, s, write, ne, -, k, short, bytes⟩ :=
    Stream.writeMessage_cases (s := {}) rfl room (toBE 4 (encoded (hello commit)).length)
      (encoded (hello commit))
  · rw [done]
    exact .inl rfl
  · refine .inr ⟨?_, ?_⟩
    · rintro rfl
      have done := Stream.writeMessage_clear (s := {}) rfl (toBE 4 (encoded (hello commit)).length)
        (encoded (hello commit))
      rw [write] at done
      exact ne done
    · have front : s.bytes = (helloFrame commit).take k := bytes
      have shorter : s.bytes.length < (helloFrame commit).length := by
        rw [front, List.length_take]
        exact Nat.lt_of_le_of_lt (Nat.min_le_left ..) short
      have proper : s.bytes <+: helloFrame commit ∧ s.bytes ≠ helloFrame commit :=
        ⟨front ▸ List.take_prefix k _, fun same => Nat.ne_of_lt shorter (congrArg _ same)⟩
      rw [write]
      cases failed with
      | done => exact absurd rfl ne
      | _ => exact ⟨_, s, rfl, proper⟩

theorem prefix_send (e : HelloEnd) (room : Option Nat) (body : List UInt8) :
    e.written.bytes <+: (e.send room body).written.bytes := by
  unfold send
  split_ifs
  · exact Stream.prefix_writeMessage ..
  · exact List.prefix_rfl

theorem send_phase (e : HelloEnd) (room : Option Nat) (body : List UInt8) :
    (e.send room body).phase = e.phase := by
  unfold send
  split_ifs <;> rfl

end HelloEnd

/-! ### Both ends -/

/-- What the ends have written, phase by phase, and what an end that is done has read. -/
structure Exchange.Agreed (dials listens : Vector UInt8 8) (x : Exchange) : Prop where
  unopened : x.dialer.phase = .idle → x.dialer.written = {}
  opened : x.dialer.phase = .reading ∨ x.dialer.phase = .ok →
    helloFrame dials <+: x.dialer.written.bytes
  dialed : Along (helloFrame dials) x.dialer.written.bytes
  silent : x.listener.phase = .idle ∨ x.listener.phase = .reading → x.listener.written = {}
  answered : helloFrame listens <+: x.listener.written.bytes ↔ x.listener.phase = .ok
  listened : Along (helloFrame listens) x.listener.written.bytes
  listenerRead : x.listener.phase = .ok →
    helloFrame dials <+: x.dialer.written.bytes ∧ x.listener.read = (helloFrame dials).length
  dialerRead : x.dialer.phase = .ok →
    x.listener.phase = .ok ∧ x.dialer.read = (helloFrame listens).length

namespace Exchange

open HelloEnd

variable {dials listens : Vector UInt8 8} {x : Exchange}

theorem agreed_start : ({} : Exchange).Agreed dials listens where
  unopened _ := rfl
  opened := nofun
  dialed := .inl List.nil_prefix
  silent _ := rfl
  answered := iff_of_false (fun whole => helloFrame_ne_nil listens (List.prefix_nil.mp whole)) nofun
  listened := .inl List.nil_prefix
  listenerRead := nofun
  dialerRead := nofun

theorem Agreed.dialerFails (agreed : x.Agreed dials listens) (f : HelloFault) :
    Agreed dials listens { x with dialer.phase := .failed f } :=
  { agreed with unopened := nofun, opened := nofun, dialerRead := nofun }

/-- A listening side that fails before it has written has written nothing. -/
theorem Agreed.listenerFails (agreed : x.Agreed dials listens)
    (reading : x.listener.phase = .reading) (f : HelloFault) :
    Agreed dials listens { x with listener.phase := .failed f } :=
  { agreed with
    silent := nofun
    answered := by
      refine iff_of_false (fun whole => ?_) nofun
      exact HelloPhase.noConfusion (reading.symm.trans (agreed.answered.mp whole))
    listenerRead := nofun
    dialerRead ok := HelloPhase.noConfusion (reading.symm.trans (agreed.dialerRead ok).1) }

theorem Agreed.dialerReads (agreed : x.Agreed dials listens) (ending : Option Ending) :
    (x.dialerReads ending).Agreed dials listens := by
  have along : Along (helloFrame listens) x.atDialer := agreed.listened.take _
  unfold Exchange.dialerReads
  obtain ⟨same, -⟩ | ⟨-, -, f, fails⟩ | ⟨reading, whole, reads⟩ :=
    readHello_cases (e := x.dialer) along ending fun e => { e with phase := .ok }
  · rw [same]
    exact agreed
  · rw [fails]
    exact agreed.dialerFails f
  · rw [reads]
    have answered := agreed.answered.mp (whole.trans (List.take_prefix _ _))
    exact { agreed with
      unopened := nofun
      opened := fun _ => agreed.opened (.inl reading)
      dialerRead := fun _ => ⟨answered, rfl⟩ }

theorem Agreed.listenerReads (agreed : x.Agreed dials listens) (ending : Option Ending)
    (room : Option Nat) (error : String) :
    (x.listenerReads listens ending room error).Agreed dials listens := by
  have along : Along (helloFrame dials) x.atListener := agreed.dialed.take _
  unfold Exchange.listenerReads
  obtain ⟨same, -⟩ | ⟨reading, -, f, fails⟩ | ⟨reading, whole, reads⟩ :=
    readHello_cases (e := x.listener) along ending (writeHello listens room error .ok)
  · rw [same]
    exact agreed
  · rw [fails]
    exact agreed.listenerFails reading f
  · have silent := agreed.silent (.inr reading)
    have waits : x.dialer.phase ≠ .ok := fun ok =>
      HelloPhase.noConfusion (reading.symm.trans (agreed.dialerRead ok).1)
    rw [reads]
    obtain wrote | ⟨-, f, s, wrote, front, short⟩ := writeHello_cases
      (e := { x.listener with read := (helloFrame dials).length }) silent room error .ok
    · rw [wrote]
      exact { agreed with
        silent := nofun
        answered := iff_of_true List.prefix_rfl rfl
        listened := .inl List.prefix_rfl
        listenerRead := fun _ => ⟨whole.trans (List.take_prefix _ _), rfl⟩
        dialerRead := fun ok => absurd ok waits }
    · rw [wrote]
      exact { agreed with
        silent := nofun
        answered := iff_of_false (fun all => short (front.eq_of_length_le all.length_le)) nofun
        listened := .inl front
        listenerRead := nofun
        dialerRead := fun ok => absurd ok waits }

theorem Agreed.opens (agreed : x.Agreed dials listens) (idle : x.dialer.phase = .idle)
    (room : Option Nat) (error : String) :
    Agreed dials listens { x with dialer := x.dialer.writeHello dials room error .reading } := by
  have unread : x.listener.phase ≠ .ok := by
    intro ok
    have whole := (agreed.listenerRead ok).1
    rw [agreed.unopened idle] at whole
    exact helloFrame_ne_nil dials (List.prefix_nil.mp whole)
  obtain wrote | ⟨-, f, s, wrote, front, -⟩ :=
    writeHello_cases (agreed.unopened idle) room error .reading
  · rw [wrote]
    exact { agreed with
      unopened := nofun
      opened := fun _ => List.prefix_rfl
      dialed := .inl List.prefix_rfl
      listenerRead := fun ok => absurd ok unread
      dialerRead := nofun }
  · rw [wrote]
    exact { agreed with
      unopened := nofun
      opened := nofun
      dialed := .inl front
      listenerRead := fun ok => absurd ok unread
      dialerRead := nofun }

theorem Agreed.accepts (agreed : x.Agreed dials listens) (idle : x.listener.phase = .idle) :
    Agreed dials listens { x with listener.phase := .reading } :=
  have unanswered : x.listener.phase ≠ .ok := by simp [idle]
  { agreed with
    silent := fun _ => agreed.silent (.inl idle)
    answered := iff_of_false (fun whole => unanswered (agreed.answered.mp whole)) nofun
    listenerRead := nofun
    dialerRead := fun ok => absurd (agreed.dialerRead ok).1 unanswered }

/-- An end sends only when it is done, behind its `Hello`. -/
theorem Agreed.dialerSends (agreed : x.Agreed dials listens) (room : Option Nat)
    (body : List UInt8) : Agreed dials listens { x with dialer := x.dialer.send room body } := by
  unfold send
  split_ifs with ok
  · have grown := (agreed.opened (.inr ok)).trans
      (Stream.prefix_writeMessage x.dialer.written room (toBE 4 body.length) body)
    exact { agreed with
      unopened := fun idle => HelloPhase.noConfusion (ok.symm.trans idle)
      opened := fun _ => grown
      dialed := .inr grown
      listenerRead := fun read => ⟨grown, (agreed.listenerRead read).2⟩ }
  · exact agreed

theorem Agreed.listenerSends (agreed : x.Agreed dials listens) (room : Option Nat)
    (body : List UInt8) :
    Agreed dials listens { x with listener := x.listener.send room body } := by
  unfold send
  split_ifs with ok
  · have grown := (agreed.answered.mpr ok).trans
      (Stream.prefix_writeMessage x.listener.written room (toBE 4 body.length) body)
    exact { agreed with
      silent := by rintro (idle | reading) <;> simp_all
      answered := iff_of_true grown ok
      listened := .inr grown }
  · exact agreed

theorem Agreed.handle (agreed : x.Agreed dials listens) (i : HelloStep) :
    (x.handle dials listens i).Agreed dials listens := by
  obtain ⟨event, room, error⟩ := i
  cases event with
  | opened =>
    unfold Exchange.handle
    dsimp only
    split_ifs with idle
    · exact agreed.opens idle room error
    · exact agreed
  | accepted =>
    unfold Exchange.handle
    dsimp only
    split_ifs with idle
    · exact agreed.accepts idle.1
    · exact agreed
  | toListener n => exact { agreed with }
  | toDialer n => exact { agreed with }
  | timeout side =>
    cases side with
    | dialing =>
      unfold Exchange.handle timeOut
      dsimp only
      split_ifs
      · exact agreed.dialerFails .timeout
      · exact agreed
    | listening =>
      unfold Exchange.handle timeOut
      dsimp only
      split_ifs with reading
      · exact agreed.listenerFails reading .timeout
      · exact agreed
  | lost text => exact (agreed.dialerReads _).listenerReads _ _ _
  | sends side body =>
    cases side with
    | dialing => exact agreed.dialerSends room body
    | listening => exact agreed.listenerSends room body

/-- A step keeps the exchange in order. -/
theorem Agreed.step (agreed : x.Agreed dials listens) (i : HelloStep) :
    (x.step dials listens i).Agreed dials listens :=
  ((agreed.handle i).listenerReads none i.room i.error).dialerReads none

end Exchange

/-- The exchange after a sequence of steps. -/
def handshake (dials listens : Vector UInt8 8) (steps : List HelloStep) : Exchange :=
  Transition.run (Exchange.step dials listens) {} steps

/-- Whatever is written, delivered, delayed or lost, and in whatever order: the dialing side is done
only when the listening side is, and a side that is done has read just the other one's `Hello`, so
that it leaves to the session every byte behind it. -/
theorem hello_agreement (dials listens : Vector UInt8 8) (steps : List HelloStep) :
    ((handshake dials listens steps).dialer.phase = .ok →
      (handshake dials listens steps).listener.phase = .ok) ∧
    ((handshake dials listens steps).listener.phase = .ok →
      (handshake dials listens steps).dialer.written.bytes.take
        (handshake dials listens steps).listener.read = helloFrame dials) ∧
    ((handshake dials listens steps).dialer.phase = .ok →
      (handshake dials listens steps).listener.written.bytes.take
        (handshake dials listens steps).dialer.read = helloFrame listens) := by
  have agreed := Transition.inv_run_of_step (Exchange.Agreed dials listens)
    (fun _ i agreed => agreed.step i) Exchange.agreed_start steps
  refine ⟨fun ok => (agreed.dialerRead ok).1, fun ok => ?_, fun ok => ?_⟩
  · obtain ⟨whole, read⟩ := agreed.listenerRead ok
    rw [handshake, read, ← List.prefix_iff_eq_take.mp whole]
  · obtain ⟨answered, read⟩ := agreed.dialerRead ok
    rw [handshake, read, ← List.prefix_iff_eq_take.mp (agreed.answered.mpr answered)]

/-! ### Progress -/

/-- Nothing that is written breaks off, nobody runs out of time, and the connection holds. -/
def HelloStep.Faultless (i : HelloStep) : Prop :=
  i.room = none ∧ (∀ side, i.event ≠ .timeout side) ∧ ∀ text, i.event ≠ .lost text

namespace Exchange

open HelloEnd

/-- Neither end has failed, and none has what the other has not sent. -/
structure Unfailed (x : Exchange) : Prop where
  dialer : ∀ f, x.dialer.phase ≠ .failed f
  listener : ∀ f, x.listener.phase ≠ .failed f
  toListener : x.toListener ≤ x.dialer.written.bytes.length
  toDialer : x.toDialer ≤ x.listener.written.bytes.length

/-- An end does not wait for a frame that has arrived. -/
structure Going (dials listens : Vector UInt8 8) (x : Exchange) : Prop extends Unfailed x where
  dialerWaits : x.dialer.phase = .reading → ¬ helloFrame listens <+: x.atDialer
  listenerWaits : x.listener.phase = .reading → ¬ helloFrame dials <+: x.atListener

variable {dials listens : Vector UInt8 8} {x : Exchange}

theorem Unfailed.dialerReads (unfailed : x.Unfailed) (agreed : x.Agreed dials listens)
    (waits : x.listener.phase = .reading → ¬ helloFrame dials <+: x.atListener) :
    (x.dialerReads none).Going dials listens := by
  have along : Along (helloFrame listens) x.atDialer := agreed.listened.take _
  unfold Exchange.dialerReads
  obtain ⟨same, still⟩ | ⟨-, ended, -⟩ | ⟨-, -, reads⟩ :=
    readHello_cases (e := x.dialer) along none fun e => { e with phase := .ok }
  · rw [same]
    exact ⟨unfailed, still, waits⟩
  · exact absurd rfl ended
  · rw [reads]
    exact ⟨{ unfailed with dialer := nofun }, nofun, waits⟩

theorem Unfailed.listenerReads (unfailed : x.Unfailed) (agreed : x.Agreed dials listens)
    (error : String) :
    (x.listenerReads listens none none error).Unfailed ∧
      ((x.listenerReads listens none none error).listener.phase = .reading →
        ¬ helloFrame dials <+: x.atListener) := by
  have along : Along (helloFrame dials) x.atListener := agreed.dialed.take _
  unfold Exchange.listenerReads
  obtain ⟨same, still⟩ | ⟨-, ended, -⟩ | ⟨reading, -, reads⟩ :=
    readHello_cases (e := x.listener) along none (writeHello listens none error .ok)
  · rw [same]
    exact ⟨unfailed, still⟩
  · exact absurd rfl ended
  · have silent := agreed.silent (.inr reading)
    have none_ : x.toDialer = 0 := by simpa [silent] using unfailed.toDialer
    rw [reads]
    obtain wrote | ⟨broke, -⟩ := writeHello_cases
      (e := { x.listener with read := (helloFrame dials).length }) silent none error .ok
    · rw [wrote]
      exact ⟨{ unfailed with listener := nofun, toDialer := none_.trans_le (Nat.zero_le _) }, nofun⟩
    · exact absurd rfl broke

theorem Unfailed.opens (unfailed : x.Unfailed) (agreed : x.Agreed dials listens)
    (idle : x.dialer.phase = .idle) (error : String) :
    Unfailed { x with dialer := x.dialer.writeHello dials none error .reading } := by
  have unsent : x.toListener = 0 := by simpa [agreed.unopened idle] using unfailed.toListener
  obtain wrote | ⟨broke, -⟩ := writeHello_cases (agreed.unopened idle) none error .reading
  · rw [wrote]
    exact { unfailed with dialer := nofun, toListener := unsent.trans_le (Nat.zero_le _) }
  · exact absurd rfl broke

theorem Unfailed.handle (unfailed : x.Unfailed) (agreed : x.Agreed dials listens) {i : HelloStep}
    (faultless : i.Faultless) : (x.handle dials listens i).Unfailed := by
  obtain ⟨event, room, error⟩ := i
  obtain ⟨rfl, inTime, holds⟩ := faultless
  cases event with
  | opened =>
    unfold Exchange.handle
    dsimp only
    split_ifs with idle
    · exact unfailed.opens agreed idle error
    · exact unfailed
  | accepted =>
    unfold Exchange.handle
    dsimp only
    split_ifs
    · exact { unfailed with listener := nofun }
    · exact unfailed
  | toListener n => exact { unfailed with toListener := Nat.min_le_right _ _ }
  | toDialer n => exact { unfailed with toDialer := Nat.min_le_right _ _ }
  | timeout side => exact absurd rfl (inTime side)
  | lost text => exact absurd rfl (holds text)
  | sends side body =>
    cases side with
    | dialing =>
      exact { unfailed with
        dialer := send_phase x.dialer none body ▸ unfailed.dialer
        toListener := unfailed.toListener.trans (prefix_send x.dialer none body).length_le }
    | listening =>
      exact { unfailed with
        listener := send_phase x.listener none body ▸ unfailed.listener
        toDialer := unfailed.toDialer.trans (prefix_send x.listener none body).length_le }

/-- A faultless step leaves neither end waiting for what has arrived. -/
theorem Unfailed.step (unfailed : x.Unfailed) (agreed : x.Agreed dials listens) {i : HelloStep}
    (faultless : i.Faultless) : (x.step dials listens i).Going dials listens := by
  have handled := agreed.handle i
  obtain ⟨after, waits⟩ := (unfailed.handle agreed faultless).listenerReads handled i.error
  rw [Exchange.step, faultless.1]
  exact after.dialerReads (handled.listenerReads none none i.error) waits

end Exchange

/-- Without a fault the handshake cannot stick: once the stream is open at both ends and everything
written has been delivered, in whatever pieces and order, both sides are done. -/
theorem hello_completes (dials listens : Vector UInt8 8) (steps : List HelloStep)
    (faultless : ∀ i ∈ steps, i.Faultless) (x : Exchange)
    (reached : x = handshake dials listens steps)
    (opened : x.dialer.phase ≠ .idle) (accepted : x.listener.phase ≠ .idle)
    (atListener : x.toListener = x.dialer.written.bytes.length)
    (atDialer : x.toDialer = x.listener.written.bytes.length) :
    x.dialer.phase = .ok ∧ x.listener.phase = .ok := by
  have inv : x.Agreed dials listens ∧ x.Going dials listens := by
    have meets : Transition.AllMeet (Exchange.step dials listens)
        (fun _ i => i.Faultless) {} steps := Transition.allMeet_of_forall faultless
    have start : ({} : Exchange).Going dials listens :=
      ⟨⟨nofun, nofun, Nat.le_refl _, Nat.le_refl _⟩, nofun, nofun⟩
    rw [reached]
    exact Transition.inv_run (fun x => x.Agreed dials listens ∧ x.Going dials listens)
      (fun x i both faultless => ⟨both.1.step i, both.2.toUnfailed.step both.1 faultless⟩)
      ⟨Exchange.agreed_start, start⟩ meets
  obtain ⟨agreed, going⟩ := inv
  have cases_ (p : HelloPhase) (started : p ≠ .idle) (sound : ∀ f, p ≠ .failed f) :
      p = .reading ∨ p = .ok := by
    cases p <;> simp_all
  have whole := agreed.opened (cases_ _ opened going.dialer)
  have listenerOk : x.listener.phase = .ok := by
    refine (cases_ _ accepted going.listener).resolve_left fun reading => ?_
    refine going.listenerWaits reading ?_
    rwa [Exchange.atListener, atListener, List.take_length]
  refine ⟨(cases_ _ opened going.dialer).resolve_left fun reading => ?_, listenerOk⟩
  refine going.dialerWaits reading ?_
  rw [Exchange.atDialer, atDialer, List.take_length]
  exact agreed.answered.mpr listenerOk

/-- A `Ping` that follows the dialing side's `Hello` in one packet with the rest of it. -/
theorem hello_completes_with_ping :
    let zero : Vector UInt8 8 := Vector.replicate 8 0
    let steps : List HelloStep := List.map ({ event := · })
      [.opened, .toListener 7, .accepted, .toListener 14, .toDialer 30, .sends .dialing [6],
        .toListener 5]
    let x := handshake zero zero steps
    x.atListener.drop x.listener.read = [0, 0, 0, 1, 6] ∧
      x.dialer.phase = .ok ∧ x.listener.phase = .ok := by
  intro zero steps x
  have faultless : ∀ i ∈ steps, i.Faultless := by
    intro i mem
    obtain ⟨event, listed, rfl⟩ := List.mem_map.mp mem
    refine ⟨rfl, ?_, ?_⟩ <;> rintro _ rfl <;> simp at listed
  exact ⟨by decide +kernel, hello_completes zero zero steps faultless x rfl (by decide +kernel)
    (by decide +kernel) (by decide +kernel) (by decide +kernel)⟩

end LanMouse.Transport
