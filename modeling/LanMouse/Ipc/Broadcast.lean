import LanMouse.Lib.Lines
import LanMouse.Lib.Transition
import Mathlib.Data.List.TakeDrop

/-!
# Events for the frontends

Every event is encoded as JSON, ended by a newline, and written to each frontend that is connected.
A socket may take only a part of what it is given. A frontend whose socket fails is dropped: flags
are gathered while the event is written and the frontends are selected by them afterwards.

`sent` lists the events that were broadcast since a frontend connected. It is only written.
-/
namespace LanMouse.Ipc

open Transition

def newline : UInt8 := 10

/-- The JSON text of an event. Control characters are escaped in it. -/
structure Json where
  bytes : List UInt8
  oneLine : newline ∉ bytes

def Json.line (json : Json) : List UInt8 := json.bytes ++ [newline]

/-- What a call of `write` returns: an error, or how much the socket has taken. -/
inductive WriteResult where
  | err
  | ok (n : Nat)
  deriving DecidableEq, Repr

structure Frontend where
  id : Nat
  received : List UInt8 := []
  sent : List Json := []

/-- The flag tells whether the frontend is kept. -/
def Frontend.write (tx : Frontend) (json : Json) : WriteResult → Bool × Frontend
  | .err => (false, { tx with sent := tx.sent ++ [json] })
  | .ok n =>
    (true, { tx with
      received := tx.received ++ json.line.take n
      sent := tx.sent ++ [json] })

/-- `Vec::retain` with one flag after another. It is a panic if they run out. -/
def retain {α : Type} : List α → List Bool → Option (List α)
  | [], _ => some []
  | _ :: _, [] => none
  | a :: rest, flag :: keep => (retain rest keep).map fun kept => if flag then a :: kept else kept

structure FrontendListener where
  accepted : Nat := 0
  txStreams : List Frontend := []

namespace FrontendListener

def accept (s : FrontendListener) : FrontendListener where
  accepted := s.accepted + 1
  txStreams := s.txStreams ++ [{ id := s.accepted }]

def broadcast (s : FrontendListener) (json : Json) (answers : Nat → WriteResult) :
    Option FrontendListener :=
  let written := s.txStreams.map fun tx => tx.write json (answers tx.id)
  let keep := written.map Prod.fst
  (retain (written.map Prod.snd) keep).map fun kept => { s with txStreams := kept }

inductive Event where
  | accept
  | broadcast (json : Json) (answers : Nat → WriteResult)

def step (s : Option FrontendListener) (e : Event) : Option FrontendListener :=
  s.bind fun s =>
    match e with
    | .accept => some s.accept
    | .broadcast json answers => s.broadcast json answers

end FrontendListener

/-! ### What a frontend reads -/

/-- Cut at the newlines, what a frontend has received is the events, one on each line, and nothing
that is still incomplete. -/
def Frontend.Complete (tx : Frontend) : Prop :=
  tx.received.splitOn newline = tx.sent.map Json.bytes ++ [[]]

theorem complete_iff {tx : Frontend} :
    tx.Complete ↔ tx.received = Lines.terminated newline (tx.sent.map Json.bytes) := by
  have free : ∀ item ∈ tx.sent.map Json.bytes, newline ∉ item := by
    intro item mem
    obtain ⟨json, -, rfl⟩ := List.mem_map.mp mem
    exact json.oneLine
  unfold Frontend.Complete
  rw [← Lines.splitOn_terminated_of_not_mem free, (Lines.splitOn_injective newline).eq_iff]

/-- A line that is written behind complete ones is complete if the socket takes all of it. -/
theorem complete_write_iff {tx : Frontend} (complete : tx.Complete) (json : Json) (n : Nat) :
    (tx.write json (.ok n)).2.Complete ↔ json.line.length ≤ n := by
  rw [complete_iff] at complete ⊢
  dsimp only [Frontend.write]
  rw [List.map_append, Lines.terminated_append, ← complete, List.append_right_inj]
  have line : Lines.terminated newline [json.bytes] = json.line := by
    rw [Lines.terminated_cons]
    rfl
  rw [List.map_singleton, line, List.take_eq_self_iff]

theorem retain_flags {α : Type} (flagged : List (Bool × α)) :
    retain (flagged.map Prod.snd) (flagged.map Prod.fst) =
      some ((flagged.filter Prod.fst).map Prod.snd) := by
  induction flagged with
  | nil => rfl
  | cons a rest ih =>
    obtain ⟨flag, a⟩ := a
    rw [List.map_cons, List.map_cons, retain, ih]
    cases flag <;> rfl

theorem write_fst (tx : Frontend) (json : Json) (answer : WriteResult) :
    (tx.write json answer).1 = decide (answer ≠ .err) := by
  cases answer <;> rfl

theorem write_id (tx : Frontend) (json : Json) (answer : WriteResult) :
    (tx.write json answer).2.id = tx.id := by
  cases answer <;> rfl

namespace FrontendListener

variable {s : FrontendListener}

/-- There is a flag for every frontend. -/
theorem broadcast_eq (s : FrontendListener) (json : Json) (answers : Nat → WriteResult) :
    s.broadcast json answers = some { s with
      txStreams := (s.txStreams.filter fun tx => answers tx.id ≠ .err).map fun tx =>
        (tx.write json (answers tx.id)).2 } := by
  unfold broadcast
  dsimp only
  rw [retain_flags, List.filter_map, List.map_map]
  simp only [Option.map_some, Function.comp_def, write_fst]

def Complete (s : FrontendListener) : Prop := ∀ tx ∈ s.txStreams, tx.Complete

/-- Of the frontends, those whose socket fails are dropped and the others are kept. -/
def DropsFailing (s : FrontendListener) : Event → Prop
  | .accept => True
  | .broadcast json answers => (s.broadcast json answers).map (·.txStreams.map Frontend.id) =
      some ((s.txStreams.map Frontend.id).filter fun id => answers id ≠ .err)

/-- Every socket that does not fail takes the whole line. -/
def WritesWhole (s : FrontendListener) : Event → Prop
  | .accept => True
  | .broadcast json answers =>
    ∀ tx ∈ s.txStreams, ∀ n, answers tx.id = .ok n → json.line.length ≤ n

theorem dropsFailing (s : FrontendListener) (e : Event) : s.DropsFailing e := by
  cases e with
  | accept => trivial
  | broadcast json answers =>
    dsimp only [DropsFailing]
    rw [broadcast_eq, Option.map_some, List.map_map, List.filter_map]
    congr 2
    funext tx
    exact write_id tx json _

theorem complete_accept (complete : s.Complete) : s.accept.Complete := by
  intro tx mem
  rcases List.mem_append.mp mem with before | new
  · exact complete tx before
  · rw [List.mem_singleton.mp new]
    rfl

theorem complete_broadcast_iff (complete : s.Complete) (json : Json)
    (answers : Nat → WriteResult) :
    (∃ s', s.broadcast json answers = some s' ∧ s'.Complete) ↔
      s.WritesWhole (.broadcast json answers) := by
  rw [broadcast_eq]
  simp only [Option.some_inj, exists_eq_left', Complete, List.forall_mem_map, List.mem_filter,
    decide_eq_true_eq, WritesWhole]
  constructor
  · intro after tx mem n answer
    have complete' := after tx ⟨mem, by rw [answer]; nofun⟩
    rw [answer] at complete'
    exact (complete_write_iff (complete tx mem) json n).mp complete'
  · rintro whole tx ⟨mem, kept⟩
    cases answer : answers tx.id with
    | err => exact absurd answer kept
    | ok n => exact (complete_write_iff (complete tx mem) json n).mpr (whole tx mem n answer)

/-- Every frontend reads each event as one line, and a frontend that fails drops out alone, exactly
when no socket takes a part of a line. -/
theorem events_read_whole_iff (events : List Event) :
    Always step (fun s => ∃ l, s = some l ∧ l.Complete) (some {}) events ∧
      AllMeet step (fun s e => ∀ l, s = some l → l.DropsFailing e) (some {}) events ↔
      AllMeet step (fun s e => ∀ l, s = some l → l.WritesWhole e) (some {}) events := by
  refine always_and_allMeet_iff (fun s => ∃ l, s = some l ∧ l.Complete) ?_ ?_ ?_ ?_ ?_ events
  · rintro s e ⟨l, rfl, complete⟩ whole
    cases e with
    | accept => exact ⟨l.accept, rfl, complete_accept complete⟩
    | broadcast json answers =>
      exact (complete_broadcast_iff complete json answers).mpr (whole l rfl)
  · exact fun _ holds => holds
  · exact fun _ e _ _ l _ => l.dropsFailing e
  · rintro _ e ⟨l, rfl, complete⟩ after - _ ⟨⟩
    cases e with
    | accept => trivial
    | broadcast json answers => exact (complete_broadcast_iff complete json answers).mp after
  · exact ⟨{}, rfl, nofun⟩

/-- A socket that is full takes three bytes of an event, and the rest is never written. The next
event is read as a part of the same line. -/
theorem event_cut_short :
    let first : Json := ⟨[0x22, 0x61, 0x62, 0x22], by decide⟩
    let second : Json := ⟨[0x22, 0x63, 0x22], by decide⟩
    let s := run step (some {}) [.accept, .broadcast first fun _ => .ok 3,
      .broadcast second fun _ => .ok 4]
    s.map (fun l => l.txStreams.map fun tx => tx.received.splitOn newline) =
      some [[[0x22, 0x61, 0x62, 0x22, 0x63, 0x22], []]] := by
  decide

end FrontendListener

end LanMouse.Ipc
