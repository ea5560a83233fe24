import Mathlib.Data.List.Forall2

/-!
# Streams that are opened anew after a failed write

A sender keeps a stream open and puts one message after another on it, each in two pieces. A write
can break the stream in the middle of a message. The sender then drops the stream, and the next
message opens another one.

Whatever breaks, a stream carries whole messages, with at most a torn one behind them. Over all the
streams of a slot the whole messages are those whose writes succeeded, in order.
-/
namespace Outbox

variable {β α : Type}

/-- What was put on a stream, and whether it has stopped taking more. -/
structure Stream (β : Type) where
  bytes : List β := []
  broken : Bool := false
  deriving DecidableEq, Repr

inductive Written where
  | done
  | atHeader
  | atBody
  deriving DecidableEq, Repr

namespace Stream

/-- Put a piece on the stream. With `some k` the stream breaks after `k` items. -/
def write (s : Stream β) (room : Option Nat) (piece : List β) : Bool × Stream β :=
  if s.broken then (false, s)
  else
    match room with
    | none => (true, { s with bytes := s.bytes ++ piece })
    | some k =>
      if piece.length ≤ k then (true, { s with bytes := s.bytes ++ piece })
      else (false, ⟨s.bytes ++ piece.take k, true⟩)

def writeMessage (s : Stream β) (room : Option Nat) (header body : List β) : Written × Stream β :=
  match s.write room header with
  | (false, s) => (.atHeader, s)
  | (true, s) =>
    match s.write (room.map (· - header.length)) body with
    | (false, s) => (.atBody, s)
    | (true, s) => (.done, s)

/-- A message that was cut off before its end. -/
def Torn (message : List β → Prop) (torn : List β) : Prop :=
  ∃ whole, message whole ∧ torn <+: whole ∧ torn ≠ whole

/-- The messages on the stream, and a torn one only where the stream broke. -/
structure Carries (message : List β → Prop) (messages : List (List β)) (s : Stream β) : Prop where
  each : ∀ whole ∈ messages, message whole
  bytes : s.bytes = messages.flatten ∨
    s.broken = true ∧ ∃ torn, s.bytes = messages.flatten ++ torn ∧ Torn message torn

variable {message : List β → Prop} {messages : List (List β)} {s s' : Stream β} {room : Option Nat}
  {header body piece : List β}

theorem write_cases (open_ : s.broken = false) (room : Option Nat) (piece : List β) :
    s.write room piece = (true, { s with bytes := s.bytes ++ piece }) ∨
    ∃ k < piece.length, s.write room piece = (false, ⟨s.bytes ++ piece.take k, true⟩) := by
  unfold write
  rw [open_, if_neg Bool.false_ne_true]
  cases room with
  | none => exact .inl rfl
  | some k =>
    dsimp only
    split_ifs with fits
    · exact .inl rfl
    · exact .inr ⟨k, by omega, rfl⟩

theorem torn_take {k : Nat} (whole : message piece) (short : k < piece.length) :
    Torn message (piece.take k) := by
  refine ⟨piece, whole, List.take_prefix k piece, fun same => ?_⟩
  have := congrArg List.length same
  simp at this
  omega

/-- What writing a message does to an open stream. -/
theorem writeMessage_cases (open_ : s.broken = false) (room : Option Nat) (header body : List β) :
    s.writeMessage room header body = (.done, { s with bytes := s.bytes ++ (header ++ body) }) ∨
    ∃ failed s', s.writeMessage room header body = (failed, s') ∧ failed ≠ .done ∧
      s'.broken = true ∧
      ∃ k < (header ++ body).length, s'.bytes = s.bytes ++ (header ++ body).take k := by
  unfold writeMessage
  obtain ok | ⟨k, short, failed⟩ := write_cases open_ room header
  · rw [ok]
    dsimp only
    have open' : ({ s with bytes := s.bytes ++ header } : Stream β).broken = false := open_
    obtain ok' | ⟨k, short, failed⟩ := write_cases open' (room.map (· - header.length)) body
    · rw [ok', List.append_assoc]
      exact .inl rfl
    · rw [failed]
      refine .inr ⟨.atBody, _, rfl, nofun, rfl, header.length + k, by simpa using short, ?_⟩
      rw [List.take_length_add_append, List.append_assoc]
  · rw [failed]
    refine .inr ⟨.atHeader, _, rfl, nofun, rfl, k, by simp; omega, ?_⟩
    rw [List.take_append_of_le_length (by omega)]

theorem writeMessage_broken (broken : s.broken = true) (room : Option Nat) (header body : List β) :
    s.writeMessage room header body = (.atHeader, s) := by
  simp [writeMessage, write, broken]

theorem carries_empty : ({} : Stream β).Carries message [] := ⟨nofun, .inl rfl⟩

/-- What stands on a stream stays there. -/
theorem prefix_writeMessage (s : Stream β) (room : Option Nat) (header body : List β) :
    s.bytes <+: (s.writeMessage room header body).2.bytes := by
  cases open_ : s.broken with
  | true => simp [writeMessage_broken open_]
  | false =>
    obtain done | ⟨failed, s', write, -, -, k, -, bytes⟩ :=
      writeMessage_cases open_ room header body
    · rw [done]
      exact List.prefix_append _ _
    · rw [write, bytes]
      exact List.prefix_append _ _

/-- A stream that does not break takes the message. -/
theorem writeMessage_clear (open_ : s.broken = false) (header body : List β) :
    (s.writeMessage none header body).1 = .done := by
  simp [writeMessage, write, open_]

theorem Carries.bytes_of_open (carries : s.Carries message messages) (open_ : s.broken = false) :
    s.bytes = messages.flatten := by
  obtain bytes | ⟨broken, -⟩ := carries.bytes
  · exact bytes
  · rw [open_] at broken
    cases broken

theorem Carries.append (carries : s.Carries message messages) (open_ : s.broken = false)
    {whole : List β} (holds : message whole) :
    ({ s with bytes := s.bytes ++ whole } : Stream β).Carries message (messages ++ [whole]) where
  each := List.forall_mem_append.mpr ⟨carries.each, List.forall_mem_singleton.mpr holds⟩
  bytes := .inl (by simp [carries.bytes_of_open open_])

theorem Carries.tear (carries : s.Carries message messages) (open_ : s.broken = false)
    {k : Nat} (whole : message piece) (short : k < piece.length) (broken : s'.broken = true)
    (bytes : s'.bytes = s.bytes ++ piece.take k) : s'.Carries message messages where
  each := carries.each
  bytes := .inr ⟨broken, _, by rw [bytes, carries.bytes_of_open open_], torn_take whole short⟩

/-- A message that is written stands behind the others; one that fails leaves them as they are and
the stream broken. -/
theorem Carries.writeMessage (carries : s.Carries message messages)
    (whole : message (header ++ body)) (room : Option Nat) :
    ((s.writeMessage room header body).1 = .done ∧ s.broken = false ∧
      (s.writeMessage room header body).2.broken = false ∧
      (s.writeMessage room header body).2.Carries message (messages ++ [header ++ body])) ∨
    ((s.writeMessage room header body).1 ≠ .done ∧
      (s.writeMessage room header body).2.broken = true ∧
      (s.writeMessage room header body).2.Carries message messages) := by
  cases open_ : s.broken with
  | true =>
    rw [writeMessage_broken open_]
    exact .inr ⟨nofun, open_, carries⟩
  | false =>
    obtain done | ⟨failed, s', write, ne, broken, k, short, bytes⟩ :=
      writeMessage_cases open_ room header body
    · rw [done]
      exact .inl ⟨rfl, rfl, open_, carries.append open_ whole⟩
    · rw [write]
      exact .inr ⟨ne, broken, carries.tear open_ whole short broken bytes⟩

end Stream

/-! ### Slots -/

inductive Sent where
  | done
  | notOpened
  | atHeader
  | atBody
  deriving DecidableEq, Repr

def Written.sent : Written → Sent
  | .done => .done
  | .atHeader => .atHeader
  | .atBody => .atBody

/-- The stream in use, and those that were dropped, oldest first. -/
structure Slot (β : Type) where
  cached : Option (Stream β) := none
  dropped : List (Stream β) := []
  deriving DecidableEq, Repr

namespace Slot

def streams (slot : Slot β) : List (Stream β) := slot.dropped ++ slot.cached.toList

/-- Keep the stream after a write, or drop it when the write has failed. -/
def keep (slot : Slot β) : Written × Stream β → Sent × Slot β
  | (.done, s) => (.done, { slot with cached := some s })
  | (failed, s) => (failed.sent, { cached := none, dropped := slot.dropped ++ [s] })

def send (slot : Slot β) (opens : Bool) (room : Option Nat) (header body : List β) :
    Sent × Slot β :=
  match slot.cached with
  | some s => slot.keep (s.writeMessage room header body)
  | none =>
    if opens then slot.keep (({} : Stream β).writeMessage room header body) else (.notOpened, slot)

/-- The streams of a slot carry the messages between them, and the one in use is open. -/
def Carries (message : List β → Prop) (messages : List (List β)) (slot : Slot β) : Prop :=
  (∀ s ∈ slot.cached, s.broken = false) ∧
    ∃ parts, parts.flatten = messages ∧
      List.Forall₂ (Stream.Carries message) parts slot.streams

variable {message : List β → Prop} {messages : List (List β)} {slot : Slot β}
  {header body : List β}

theorem carries_empty : ({} : Slot β).Carries message [] := ⟨nofun, [], rfl, .nil⟩

theorem forall₂_append_singleton {R : α → β → Prop} {as : List α} {bs : List β} {a : α} {b : β}
    (init : List.Forall₂ R as bs) (last : R a b) : List.Forall₂ R (as ++ [a]) (bs ++ [b]) :=
  List.rel_append init (.cons last .nil)

theorem forall₂_snoc {R : α → β → Prop} {as : List α} {bs : List β} {b : β}
    (each : List.Forall₂ R as (bs ++ [b])) :
    ∃ init last, as = init ++ [last] ∧ List.Forall₂ R init bs ∧ R last b := by
  have init := List.forall₂_take_append as bs [b] each
  have rest := List.forall₂_drop_append as bs [b] each
  obtain ⟨last, none, holds, empty, drop⟩ := List.forall₂_cons_right_iff.mp rest
  rw [List.forall₂_nil_right_iff] at empty
  refine ⟨_, last, ?_, init, holds⟩
  rw [← empty, ← drop, List.take_append_drop]

/-- A message on the stream in use, or on one that was just opened. -/
theorem keep_carries {parts : List (List (List β))} {last : List (List β)} {s : Stream β}
    (dropped : List.Forall₂ (Stream.Carries message) parts slot.dropped)
    (carries : s.Carries message last) (whole : message (header ++ body)) (room : Option Nat) :
    ((slot.keep (s.writeMessage room header body)).1 = .done ∧
      (slot.keep (s.writeMessage room header body)).2.Carries message
        (parts.flatten ++ last ++ [header ++ body])) ∨
    ((slot.keep (s.writeMessage room header body)).1 ≠ .done ∧
      (slot.keep (s.writeMessage room header body)).2.Carries message (parts.flatten ++ last)) := by
  have cases_ := carries.writeMessage whole room
  generalize s.writeMessage room header body = result at cases_
  obtain ⟨written, s'⟩ := result
  obtain ⟨rfl, -, open_, carries'⟩ | ⟨failed, -, carries'⟩ := cases_
  · refine .inl ⟨rfl, ?_, parts ++ [last ++ [header ++ body]], by simp, ?_⟩
    · rintro _ ⟨⟩
      exact open_
    · exact forall₂_append_singleton dropped carries'
  · cases written with
    | done => exact absurd rfl failed
    | _ =>
      refine .inr ⟨nofun, nofun, parts ++ [last], by simp, ?_⟩
      simpa [keep, streams] using forall₂_append_singleton dropped carries'

theorem Carries.send (carries : slot.Carries message messages) (whole : message (header ++ body))
    (opens : Bool) (room : Option Nat) :
    ((slot.send opens room header body).1 = .done ∧
      (slot.send opens room header body).2.Carries message (messages ++ [header ++ body])) ∨
    ((slot.send opens room header body).1 ≠ .done ∧
      (slot.send opens room header body).2.Carries message messages) := by
  obtain ⟨isOpen, parts, rfl, each⟩ := carries
  unfold Slot.send
  cases cached : slot.cached with
  | some s =>
    rw [streams, cached] at each
    obtain ⟨before, last, rfl, dropped, carries⟩ := forall₂_snoc each
    have kept := keep_carries dropped carries whole room
    simpa using kept
  | none =>
    dsimp only
    split_ifs
    · rw [streams, cached, Option.toList_none, List.append_nil] at each
      simpa using keep_carries each Stream.carries_empty whole room
    · exact .inr ⟨nofun, isOpen, parts, rfl, each⟩

theorem Carries.stream (carries : slot.Carries message messages) {s : Stream β}
    (mem : s ∈ slot.streams) : ∃ part, s.Carries message part := by
  obtain ⟨-, parts, -, each⟩ := carries
  generalize slot.streams = streams at each mem
  induction each with
  | nil => cases mem
  | cons first _ ih =>
    cases mem with
    | head => exact ⟨_, first⟩
    | tail _ mem => exact ih mem

/-- A reader that gives the whole messages of a stream gives those of a slot, stream by stream. -/
theorem Carries.read {read : Stream β → List α} {decode : List β → Option α}
    (reads : ∀ messages s, Stream.Carries message messages s →
      read s = messages.filterMap decode)
    (carries : slot.Carries message messages) :
    slot.streams.flatMap read = messages.filterMap decode := by
  obtain ⟨-, parts, rfl, each⟩ := carries
  generalize slot.streams = streams at each
  induction each with
  | nil => rfl
  | cons first _ ih => rw [List.flatMap_cons, reads _ _ first, ih, List.flatten_cons,
      List.filterMap_append]

end Slot

end Outbox
