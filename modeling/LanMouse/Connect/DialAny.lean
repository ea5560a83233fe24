import LanMouse.Connect.Dialer
import LanMouse.Lib.JoinSet

/-!
# The race of a dial

`dial_any` starts with the primary address alone. When it fails, or has not won after the head
start, the other candidates are dialed all at once. The first connection wins, and there is none
only when every attempt has failed.

The race takes the results of its attempts in any order. It is polled again and again; a poll of the
head start finds the timer and a finished attempt ready at the same time, and may take either.
-/
namespace LanMouse.Connect

open Client Transition

def headStart : Nat := 200

inductive DialError where
  | tls (text : String)
  | clientConfig (text : String)
  | connect (text : String)
  | handshake (reason : ConnectionError)
  | endpointSetup (text : String)
  deriving DecidableEq, Repr

/-- How the task of an attempt ends. -/
inductive Outcome (Conn : Type) where
  | connected (conn : Conn)
  | failed (e : DialError)
  | panicked
  deriving DecidableEq, Repr

inductive RacePhase (Conn : Type) where
  | headStart
  | others
  | returned (result : Except DialError Conn)

/-- The time counts from the call, in milliseconds. `outcomes` are the attempts that have ended, in
that order. -/
structure Race (Conn : Type) where
  phase : RacePhase Conn := .headStart
  spawned : List SocketAddr := []
  joinset : JoinSet SocketAddr (Outcome Conn) := {}
  lastErr : Option DialError := none
  clock : Nat := 0
  outcomes : List (SocketAddr × Outcome Conn) := []

/-- `poll` with the arm that `select!` tries first and the finished task that would be joined. -/
inductive RaceEvent (Conn : Type) where
  | time (ms : Nat)
  | ends (addr : SocketAddr) (outcome : Outcome Conn)
  | poll (timerFirst : Bool) (choice : Nat)

/-- No task of an attempt panics. -/
def RaceEvent.Quiet {Conn : Type} : RaceEvent Conn → Prop
  | .ends _ .panicked => False
  | _ => True

/-- `display` writes an address. -/
def noDialResult (display : SocketAddr → String) (primary : SocketAddr) (all : List SocketAddr)
    (spawned : List SocketAddr) : DialError :=
  .endpointSetup ("dial_any: no dial result for primary " ++ display primary ++ " (" ++
    toString all.length ++ " candidate(s), " ++ toString spawned.length ++
    " spawned) — all tasks panicked or were aborted")

namespace Race

section Definitions

variable {Conn : Type} (display : SocketAddr → String) (primary : SocketAddr)
  (all : List SocketAddr)

def spawn (r : Race Conn) (addr : SocketAddr) : Race Conn :=
  if addr ∈ r.spawned then r
  else { r with spawned := r.spawned ++ [addr], joinset := r.joinset.spawn addr }

/-- `dial_any` up to where it waits; `config` is the result of `build_quic_client_config`. -/
def start (config : Except DialError Unit) : Race Conn :=
  match config with
  | .error e => { phase := .returned (.error e) }
  | .ok _ => ({} : Race Conn).spawn primary

/-- The head start is over. -/
def spawnOthers (r : Race Conn) : Race Conn := all.foldl spawn { r with phase := .others }

/-- A finished attempt was joined; the first connection aborts all other attempts. -/
def joined (r : Race Conn) (joinset : JoinSet SocketAddr (Outcome Conn)) :
    Outcome Conn → Race Conn
  | .connected conn => { r with phase := .returned (.ok conn), joinset := {} }
  | .failed e => { r with joinset, lastErr := some e }
  | .panicked => { r with joinset }

def poll (r : Race Conn) (timerFirst : Bool) (choice : Nat) : Race Conn :=
  match r.phase with
  | .headStart =>
    if timerFirst ∧ headStart ≤ r.clock then r.spawnOthers all
    else match r.joinset.joinNext choice with
      | .empty => r.spawnOthers all
      | .pending => if headStart ≤ r.clock then r.spawnOthers all else r
      | .task (_, outcome) joinset => r.joined joinset outcome
  | .others =>
    match r.joinset.joinNext choice with
    | .empty =>
      let e := r.lastErr.getD (noDialResult display primary all r.spawned)
      { r with phase := .returned (.error e) }
    | .pending => r
    | .task (_, outcome) joinset => r.joined joinset outcome
  | .returned _ => r

def step (r : Race Conn) : RaceEvent Conn → Race Conn
  | .time ms => { r with clock := r.clock + ms }
  | .ends addr outcome =>
    if addr ∈ r.joinset.running then
      { r with
        joinset := r.joinset.finish addr outcome
        outcomes := r.outcomes ++ [(addr, outcome)] }
    else r
  | .poll timerFirst choice => r.poll display primary all timerFirst choice

end Definitions

variable {Conn : Type} {display : SocketAddr → String} {primary : SocketAddr}
  {all : List SocketAddr} {r : Race Conn}

/-- Spawning a list of addresses adds those that were not spawned before, once each. -/
theorem foldl_spawn (addrs : List SocketAddr) (r : Race Conn) : ∃ new,
    addrs.foldl spawn r =
      { r with
        spawned := r.spawned ++ new
        joinset := { r.joinset with running := r.joinset.running ++ new } } ∧
      new.length ≤ addrs.length ∧ (∀ addr ∈ new, addr ∈ addrs) ∧
      (r.spawned.Nodup → (r.spawned ++ new).Nodup) ∧
      ∀ addr ∈ addrs, addr ∈ r.spawned ++ new := by
  induction addrs generalizing r with
  | nil => exact ⟨[], by simp⟩
  | cons addr addrs ih =>
    rw [List.foldl_cons]
    by_cases known : addr ∈ r.spawned
    · obtain ⟨new, same, short, from_, nodup, present⟩ := ih r
      rw [spawn, if_pos known]
      refine ⟨new, same, by simp; omega,
        fun j mem => List.mem_cons_of_mem _ (from_ j mem), nodup, ?_⟩
      simpa [known] using present
    · obtain ⟨new, same, short, from_, nodup, present⟩ := ih (r.spawn addr)
      have one : r.spawn addr =
          { r with spawned := r.spawned ++ [addr], joinset := r.joinset.spawn addr } := if_neg known
      rw [one] at same nodup present
      refine ⟨addr :: new, ?_, by simpa using short, ?_, fun before => ?_, ?_⟩
      · rw [one, same]
        simp [JoinSet.spawn]
      · simpa using fun j mem => .inr (from_ j mem)
      · have fresh : (r.spawned ++ [addr]).Nodup :=
          List.nodup_append.mpr ⟨before, List.nodup_singleton addr, by
            rintro a mem b one rfl
            exact known (List.mem_singleton.mp one ▸ mem)⟩
        simpa using nodup fresh
      · simpa using present

def Open (r : Race Conn) : Prop := ∀ result, r.phase ≠ .returned result

/-- What a poll does: nothing, unless an attempt has finished; spawn the others, when the time is up
or no attempt is left; give up when none of all is left; or join a finished attempt. -/
theorem poll_cases (display : SocketAddr → String) (primary : SocketAddr) (all : List SocketAddr)
    (r : Race Conn) (timerFirst : Bool) (choice : Nat) :
    ((r.joinset.finished = [] ∨ ¬ r.Open) ∧ r.poll display primary all timerFirst choice = r) ∨
    (r.phase = .headStart ∧ (headStart ≤ r.clock ∨
        (r.joinset.running = [] ∧ r.joinset.finished = [])) ∧
      r.poll display primary all timerFirst choice = r.spawnOthers all) ∨
    (r.phase = .others ∧ r.joinset.running = [] ∧ r.joinset.finished = [] ∧
      ∃ e, r.poll display primary all timerFirst choice =
        { r with phase := .returned (.error e) }) ∨
    (r.Open ∧ ∃ before result after, r.joinset.finished = before ++ result :: after ∧
      r.poll display primary all timerFirst choice =
        r.joined { r.joinset with finished := before ++ after } result.2) := by
  have next := r.joinset.joinNext_cases choice
  cases phase : r.phase with
  | headStart =>
    have isOpen : r.Open := fun _ => by simp [phase]
    by_cases timer : timerFirst ∧ headStart ≤ r.clock
    · exact .inr (.inl ⟨rfl, .inl timer.2, by simp only [poll, phase, timer, and_self, if_true]⟩)
    obtain ⟨finished, idle, joins⟩ | ⟨finished, -, joins⟩ |
        ⟨before, result, after, finished, joins⟩ := next
    · refine .inr (.inl ⟨rfl, .inr ⟨idle, finished⟩, ?_⟩)
      simp only [poll, phase, timer, joins, if_false]
    · by_cases elapsed : headStart ≤ r.clock
      · refine .inr (.inl ⟨rfl, .inl elapsed, ?_⟩)
        simp [poll, phase, joins, elapsed]
      · refine .inl ⟨.inl finished, ?_⟩
        simp [poll, phase, joins, elapsed]
    · refine .inr (.inr (.inr ⟨isOpen, before, result, after, finished, ?_⟩))
      simp only [poll, phase, timer, joins, if_false]
  | others =>
    have isOpen : r.Open := fun _ => by simp [phase]
    obtain ⟨finished, idle, joins⟩ | ⟨finished, -, joins⟩ |
        ⟨before, result, after, finished, joins⟩ := next
    · exact .inr (.inr (.inl ⟨rfl, idle, finished, _, by simp only [poll, phase, joins]; rfl⟩))
    · exact .inl ⟨.inl finished, by simp only [poll, phase, joins]⟩
    · refine .inr (.inr (.inr ⟨isOpen, before, result, after, finished, ?_⟩))
      simp only [poll, phase, joins]
  | returned result =>
    exact .inl ⟨.inr fun isOpen => isOpen result phase, by simp only [poll, phase]⟩

/-! ### What holds during a race -/

/-- The attempt has ended, and not with a connection. -/
def Failed (r : Race Conn) (addr : SocketAddr) : Prop :=
  addr ∈ r.spawned ∧ ∃ e, (addr, .failed e) ∈ r.outcomes

/-- The state of a race that has a configuration. -/
structure Sound (primary : SocketAddr) (all : List SocketAddr) (r : Race Conn) : Prop where
  once : r.spawned.Nodup
  first : primary ∈ r.spawned
  candidates : ∀ addr ∈ r.spawned, addr = primary ∨ addr ∈ all
  alone : r.phase = .headStart → r.spawned = [primary]
  everyone : r.phase = .others → ∀ addr ∈ all, addr ∈ r.spawned
  later : ∀ addr ∈ r.spawned, addr ≠ primary → headStart ≤ r.clock ∨ r.Failed primary
  runs : ∀ addr ∈ r.joinset.running, addr ∈ r.spawned
  known : ∀ x ∈ r.outcomes, x.1 ∈ r.spawned
  ended : ∀ x ∈ r.joinset.finished, x ∈ r.outcomes
  quiet : ∀ x ∈ r.outcomes, x.2 ≠ .panicked
  accounted : ∀ addr ∈ r.spawned, r.Open → addr ∈ r.joinset.running ∨ ∃ o, (addr, o) ∈ r.outcomes
  waits : ∀ addr conn, r.Open → (addr, .connected conn) ∈ r.outcomes →
    (addr, .connected conn) ∈ r.joinset.finished
  idle : ¬ r.Open → r.joinset.running = []
  won : ∀ conn, r.phase = .returned (.ok conn) → ∃ addr, (addr, .connected conn) ∈ r.outcomes
  lost : ∀ e, r.phase = .returned (.error e) →
    (∀ addr, addr = primary ∨ addr ∈ all → r.Failed addr) ∧
      ∀ addr conn, (addr, .connected conn) ∉ r.outcomes

theorem sound_start : Sound primary all (start primary (.ok ()) : Race Conn) := by
  constructor <;> simp [start, spawn, JoinSet.spawn, Open]

namespace Sound

/-- An attempt that is not in the set any more has failed. -/
theorem failed_of_idle (sound : Sound primary all r) (isOpen : r.Open)
    (idle : r.joinset.running = []) (joined : r.joinset.finished = []) {addr : SocketAddr}
    (spawned : addr ∈ r.spawned) : r.Failed addr := by
  obtain runs | ⟨outcome, ended⟩ := sound.accounted addr spawned isOpen
  · simp [idle] at runs
  · cases outcome with
    | connected conn => simpa [joined] using sound.waits addr conn isOpen ended
    | failed e => exact ⟨spawned, e, ended⟩
    | panicked => exact absurd rfl (sound.quiet _ ended)

theorem time (sound : Sound primary all r) (ms : Nat) :
    Sound primary all { r with clock := r.clock + ms } := by
  refine { sound with later := fun addr mem other => ?_ }
  exact (sound.later addr mem other).imp_left fun due => Nat.le_add_right_of_le due

theorem ends (sound : Sound primary all r) {addr : SocketAddr} {outcome : Outcome Conn}
    (runs : addr ∈ r.joinset.running) (noPanic : outcome ≠ .panicked) :
    Sound primary all
      { r with
        joinset := r.joinset.finish addr outcome
        outcomes := r.outcomes ++ [(addr, outcome)] } := by
  have isOpen : r.Open := by
    by_contra closed
    simp [sound.idle closed] at runs
  have started := sound.runs addr runs
  have more {j : SocketAddr} : r.Failed j →
      j ∈ r.spawned ∧ ∃ e, (j, .failed e) ∈ r.outcomes ++ [(addr, outcome)] :=
    fun ⟨spawned, e, ended⟩ => ⟨spawned, e, List.mem_append_left _ ended⟩
  refine { sound with
    later := fun j mem other => (sound.later j mem other).imp_right more
    runs := fun j mem => sound.runs j (List.mem_of_mem_erase mem)
    known := ?_, ended := ?_, quiet := ?_, accounted := ?_, waits := ?_
    idle := fun closed => absurd isOpen closed
    won := fun conn returned => absurd returned (isOpen _)
    lost := fun e returned => absurd returned (isOpen _) }
  · simp only [List.forall_mem_append, List.forall_mem_singleton]
    exact ⟨sound.known, started⟩
  · simp only [JoinSet.finish, List.forall_mem_append, List.forall_mem_singleton]
    exact ⟨fun x mem => List.mem_append_left _ (sound.ended x mem), by simp⟩
  · simp only [List.forall_mem_append, List.forall_mem_singleton]
    exact ⟨sound.quiet, noPanic⟩
  · intro j mem _
    by_cases own : j = addr
    · exact .inr ⟨outcome, by simp [own]⟩
    · obtain runs | ⟨o, ended⟩ := sound.accounted j mem isOpen
      · exact .inl ((List.mem_erase_of_ne own).mpr runs)
      · exact .inr ⟨o, List.mem_append_left _ ended⟩
  · intro j conn _ mem
    rw [List.mem_append] at mem
    exact List.mem_append.mpr (mem.imp_left (sound.waits j conn isOpen))

/-- The others are spawned once the time is up or the primary has failed. -/
theorem spawnOthers (sound : Sound primary all r) (isOpen : r.Open)
    (due : headStart ≤ r.clock ∨ r.Failed primary) : Sound primary all (r.spawnOthers all) := by
  obtain ⟨new, same, -, from_, nodup, present⟩ := foldl_spawn all { r with phase := .others }
  have more {j : SocketAddr} : r.Failed j →
      j ∈ r.spawned ++ new ∧ ∃ e, (j, .failed e) ∈ r.outcomes :=
    fun failed => ⟨List.mem_append_left _ failed.1, failed.2⟩
  rw [Race.spawnOthers, same]
  exact {
    once := nodup sound.once
    first := List.mem_append_left _ sound.first
    candidates := fun addr mem =>
      (List.mem_append.mp mem).elim (sound.candidates addr) fun added => .inr (from_ addr added)
    alone := nofun
    everyone := fun _ => present
    later := fun _ _ _ => due.imp_right more
    runs := fun addr mem => by
      rw [List.mem_append] at mem ⊢
      exact mem.imp_left (sound.runs addr)
    known := fun x mem => List.mem_append_left _ (sound.known x mem)
    ended := sound.ended
    quiet := sound.quiet
    accounted := fun addr mem _ => by
      obtain before | added := List.mem_append.mp mem
      · exact (sound.accounted addr before isOpen).imp_left (List.mem_append_left _)
      · exact .inl (List.mem_append_right _ added)
    waits := fun addr conn _ => sound.waits addr conn isOpen
    idle := fun closed => absurd (fun _ => nofun) closed
    won := nofun
    lost := nofun }

/-- A finished attempt is joined. -/
theorem joined (sound : Sound primary all r) (isOpen : r.Open)
    {before after : List (SocketAddr × Outcome Conn)} {result : SocketAddr × Outcome Conn}
    (finished : r.joinset.finished = before ++ result :: after) :
    Sound primary all
      (r.joined { r.joinset with finished := before ++ after } result.2) := by
  obtain ⟨addr, outcome⟩ := result
  have own : (addr, outcome) ∈ r.outcomes := sound.ended _ (by simp [finished])
  have others : ∀ x ∈ before ++ after, x ∈ r.outcomes := fun x mem =>
    sound.ended x (by rw [finished]; simp only [List.mem_append, List.mem_cons] at mem ⊢; tauto)
  cases outcome with
  | connected conn =>
    refine { sound with
      alone := nofun, everyone := nofun, lost := nofun
      runs := nofun, ended := nofun
      accounted := fun _ _ isOpen => absurd rfl (isOpen _)
      waits := fun _ _ isOpen => absurd rfl (isOpen _)
      idle := fun _ => rfl
      won := fun conn' returned => ⟨addr, ?_⟩ }
    cases returned
    exact own
  | failed e =>
    refine { sound with
      ended := others
      waits := fun j conn _ mem => ?_
      idle := fun closed => absurd isOpen closed }
    have there := sound.waits j conn isOpen mem
    rw [finished, List.mem_append, List.mem_cons] at there
    exact List.mem_append.mpr (by simpa using there)
  | panicked => exact absurd rfl (sound.quiet _ own)

/-- No attempt is left. -/
theorem giveUp (sound : Sound primary all r) (phase : r.phase = .others)
    (idle : r.joinset.running = []) (finished : r.joinset.finished = []) (e : DialError) :
    Sound primary all { r with phase := .returned (.error e) } := by
  have isOpen : r.Open := fun _ => by simp [phase]
  have failed {addr : SocketAddr} : addr ∈ r.spawned → r.Failed addr :=
    sound.failed_of_idle isOpen idle finished
  refine { sound with
    alone := nofun, everyone := nofun, won := nofun
    accounted := fun _ _ isOpen => absurd rfl (isOpen _)
    waits := fun _ _ isOpen => absurd rfl (isOpen _)
    idle := fun _ => idle
    lost := fun _ _ => ⟨?_, fun addr conn won => ?_⟩ }
  · rintro addr (rfl | candidate)
    · exact failed sound.first
    · exact failed (sound.everyone phase addr candidate)
  · simpa [finished] using sound.waits addr conn isOpen won

theorem poll (sound : Sound primary all r) (timerFirst : Bool) (choice : Nat) :
    Sound primary all (r.poll display primary all timerFirst choice) := by
  obtain ⟨-, same⟩ | ⟨phase, due, same⟩ | ⟨phase, idle, finished, e, same⟩ |
      ⟨isOpen, before, result, after, finished, same⟩ :=
    poll_cases display primary all r timerFirst choice
  · rwa [same]
  · have isOpen : r.Open := fun _ => by simp [phase]
    rw [same]
    refine sound.spawnOthers isOpen (due.imp_right fun ⟨idle, finished⟩ => ?_)
    exact sound.failed_of_idle isOpen idle finished sound.first
  · rw [same]
    exact sound.giveUp phase idle finished e
  · rw [same]
    exact sound.joined isOpen finished

theorem step (sound : Sound primary all r) {e : RaceEvent Conn} (quiet : e.Quiet) :
    Sound primary all (r.step display primary all e) := by
  cases e with
  | time ms => exact sound.time ms
  | ends addr outcome =>
    rw [Race.step]
    split_ifs with runs
    · refine sound.ends runs ?_
      rintro rfl
      exact quiet
    · exact sound
  | poll timerFirst choice => exact sound.poll timerFirst choice

end Sound

/-! ### A connection ends the race -/

/-- The work ahead of a race. -/
def rank (all : List SocketAddr) (r : Race Conn) : Nat :=
  match r.phase with
  | .headStart => 2 * all.length + 2 + r.joinset.work
  | .others => 1 + r.joinset.work
  | .returned _ => 0

def pollCost : RaceEvent Conn → Nat
  | .poll _ _ => 1
  | _ => 0

theorem rank_spawnOthers (phase : r.phase = .headStart) :
    (r.spawnOthers all).rank all < r.rank all := by
  obtain ⟨new, same, short, -⟩ := foldl_spawn all { r with phase := .others }
  rw [spawnOthers, same]
  simp [rank, phase, JoinSet.work]
  omega

theorem rank_joined (isOpen : r.Open) {before after : List (SocketAddr × Outcome Conn)}
    {result : SocketAddr × Outcome Conn}
    (finished : r.joinset.finished = before ++ result :: after) (outcome : Outcome Conn) :
    (r.joined { r.joinset with finished := before ++ after } outcome).rank all < r.rank all := by
  cases phase : r.phase with
  | returned result => exact absurd phase (isOpen result)
  | headStart | others => cases outcome <;> simp [joined, rank, phase, JoinSet.work, finished]

/-- A poll uses up some of the work, unless the race is over or no attempt has finished. -/
theorem rank_poll (timerFirst : Bool) (choice : Nat) :
    (r.poll display primary all timerFirst choice).rank all < r.rank all ∨
      ((r.joinset.finished = [] ∨ ¬ r.Open) ∧
        r.poll display primary all timerFirst choice = r) := by
  obtain idle | ⟨phase, -, same⟩ | ⟨phase, -, -, e, same⟩ |
      ⟨isOpen, before, result, after, finished, same⟩ :=
    poll_cases display primary all r timerFirst choice
  · exact .inr idle
  · rw [same]
    exact .inl (rank_spawnOthers phase)
  · rw [same]
    exact .inl (by simp [rank, phase])
  · rw [same]
    exact .inl (rank_joined isOpen finished result.2)

theorem rank_step_le (display : SocketAddr → String) (primary : SocketAddr)
    (all : List SocketAddr) (r : Race Conn) (e : RaceEvent Conn) :
    (r.step display primary all e).rank all ≤ r.rank all := by
  cases e with
  | time ms => exact Nat.le_refl _
  | ends addr outcome =>
    rw [step]
    split_ifs with runs
    · have less := JoinSet.work_finish runs outcome
      unfold rank
      dsimp only
      split <;> omega
    · exact Nat.le_refl _
  | poll timerFirst choice =>
    obtain less | ⟨-, same⟩ := rank_poll timerFirst choice
    · exact less.le
    · rw [step, same]

theorem rank_step (ready : r.Open → r.joinset.finished ≠ []) (e : RaceEvent Conn) :
    (r.step display primary all e).rank all ≤ r.rank all - pollCost e := by
  have le := rank_step_le display primary all r e
  cases e with
  | time ms => exact le
  | ends addr outcome => exact le
  | poll timerFirst choice =>
    obtain less | ⟨idle, same⟩ := rank_poll timerFirst choice
    · exact Nat.le_sub_one_of_lt less
    · have closed : ¬ r.Open := fun isOpen => idle.elim (ready isOpen) (absurd isOpen)
      obtain ⟨result, phase⟩ : ∃ result, r.phase = .returned result := by simpa [Open] using closed
      rw [step, same, rank, phase]
      exact Nat.zero_le _

theorem outcomes_step {x : SocketAddr × Outcome Conn} (mem : x ∈ r.outcomes)
    (e : RaceEvent Conn) : x ∈ (r.step display primary all e).outcomes := by
  cases e with
  | time ms => exact mem
  | ends addr outcome =>
    rw [step]
    split_ifs
    · exact List.mem_append_left _ mem
    · exact mem
  | poll timerFirst choice =>
    rw [step]
    obtain ⟨-, same⟩ | ⟨-, -, same⟩ | ⟨-, -, -, e, same⟩ | ⟨-, before, result, after, -, same⟩ :=
      poll_cases display primary all r timerFirst choice
    · rwa [same]
    · obtain ⟨new, spawned, -⟩ := foldl_spawn all { r with phase := .others }
      rw [same, spawnOthers, spawned]
      exact mem
    · rwa [same]
    · rw [same]
      cases result.2 <;> exact mem

/-- A race in which an attempt has connected. -/
def Decided (primary : SocketAddr) (all : List SocketAddr) (r : Race Conn) : Prop :=
  Sound primary all r ∧ ∃ addr conn, (addr, .connected conn) ∈ r.outcomes

theorem Decided.step (decided : Decided primary all r) {e : RaceEvent Conn} (quiet : e.Quiet) :
    Decided primary all (r.step display primary all e) := by
  obtain ⟨sound, addr, conn, won⟩ := decided
  exact ⟨sound.step quiet, addr, conn, outcomes_step won e⟩

/-- It returns a connection as soon as it has been polled often enough. -/
theorem Decided.returns (decided : Decided primary all r) {more : List (RaceEvent Conn)}
    (quiet : ∀ e ∈ more, e.Quiet) (polls : r.rank all ≤ (more.map pollCost).sum) :
    ∃ conn, (run (Race.step display primary all) r more).phase = .returned (.ok conn) := by
  have spent := rank_run_of_inv (Decided primary all) (Race.step display primary all) (rank all)
    pollCost (fun s e mem decided => decided.step (quiet e mem))
    (fun s e mem ⟨sound, addr, conn, won⟩ => rank_step (fun isOpen =>
      List.ne_nil_of_mem (sound.waits addr conn isOpen won)) e) decided
  obtain ⟨sound, addr, conn, won⟩ :
      Decided primary all (run (Race.step display primary all) r more) :=
    inv_run _ (fun s e decided quiet => decided.step quiet) decided (allMeet_of_forall quiet)
  cases phase : (run (Race.step display primary all) r more).phase with
  | headStart =>
    rw [rank, phase] at spent
    dsimp only at spent
    omega
  | others =>
    rw [rank, phase] at spent
    dsimp only at spent
    omega
  | returned result =>
    cases result with
    | ok conn => exact ⟨conn, rfl⟩
    | error e => exact absurd won ((sound.lost e phase).2 addr conn)

/-- A race without a configuration has returned, and nothing is spawned any more. -/
structure Stillborn (e : DialError) (r : Race Conn) : Prop where
  phase : r.phase = .returned (.error e)
  spawned : r.spawned = []
  running : r.joinset.running = []
  outcomes : r.outcomes = []

theorem Stillborn.step {e : DialError} (stillborn : Stillborn e r) (event : RaceEvent Conn) :
    Stillborn e (r.step display primary all event) := by
  cases event with
  | time ms => exact { stillborn with }
  | ends addr outcome =>
    rw [Race.step, if_neg (by simp [stillborn.running])]
    exact stillborn
  | poll timerFirst choice =>
    have same : r.poll display primary all timerFirst choice = r := by
      simp only [poll, stillborn.phase]
    rwa [Race.step, same]

end Race

open Race

/-- What a race over the addresses of a client returns is an answer its dial task can get: one of
the addresses, with a connection to it. -/
theorem race_answers_dial {Conn : Type} (display : SocketAddr → String) {primary : SocketAddr}
    {addrs : List SocketAddr} (first : addrs.head? = some primary)
    {events : List (RaceEvent Conn)} (quiet : ∀ e ∈ events, e.Quiet) {conn : Conn}
    (returned : (run (step display primary addrs) (start primary (.ok ())) events).phase =
      .returned (.ok conn)) :
    ∃ (n : Nat) (addr : SocketAddr), addrs[n]? = some addr ∧ (addr, .connected conn) ∈
      (run (step display primary addrs) (start primary (.ok ())) events).outcomes := by
  have sound : Sound primary addrs
      (run (step display primary addrs) (start primary (.ok ())) events) :=
    inv_run _ (fun _ _ sound quiet => sound.step quiet) sound_start (allMeet_of_forall quiet)
  obtain ⟨addr, won⟩ := sound.won conn returned
  have candidate : addr ∈ addrs := by
    obtain rfl | mem := sound.candidates addr (sound.known _ won)
    · exact List.mem_of_head? first
    · exact mem
  obtain ⟨n, at_⟩ := List.mem_iff_getElem?.mp candidate
  exact ⟨n, addr, at_, won⟩

/-- For every order and every outcome of the attempts: a race returns a connection when, and only
when, an attempt has connected. No address is dialed twice, the others only after the head start or
when the primary has failed; and a race that returns an error has no configuration and has dialed
nobody, or has dialed every address and every attempt has failed. -/
theorem dial_any_race {Conn : Type} (display : SocketAddr → String)
    (config : Except DialError Unit) (primary : SocketAddr) (all : List SocketAddr)
    (events : List (RaceEvent Conn)) (quiet : ∀ e ∈ events, e.Quiet) :
    let r := run (step display primary all) (start primary config) events
    (∀ conn, r.phase = .returned (.ok conn) →
      ∃ addr ∈ r.spawned, (addr, .connected conn) ∈ r.outcomes) ∧
    (∀ addr conn, (addr, .connected conn) ∈ r.outcomes → ∀ more : List (RaceEvent Conn),
      (∀ e ∈ more, e.Quiet) → 2 * all.length + 4 ≤ (more.map pollCost).sum →
        ∃ conn, (run (step display primary all) r more).phase = .returned (.ok conn)) ∧
    r.spawned.Nodup ∧
    (∀ addr ∈ r.spawned, addr ≠ primary → headStart ≤ r.clock ∨ r.Failed primary) ∧
    ∀ e, r.phase = .returned (.error e) →
      (config = .error e ∧ r.spawned = []) ∨
        ∀ addr, addr = primary ∨ addr ∈ all → r.Failed addr := by
  intro r
  cases config with
  | error e =>
    have dead : Stillborn e r :=
      inv_run_of_step _ (fun _ event dead => dead.step event) ⟨rfl, rfl, rfl, rfl⟩ events
    refine ⟨?_, ?_, ?_, ?_, ?_⟩
    · intro conn returned
      simp [dead.phase] at returned
    · simp [dead.outcomes]
    · simp [dead.spawned]
    · simp [dead.spawned]
    · intro e' returned
      obtain rfl : e = e' := by simpa [dead.phase] using returned
      exact .inl ⟨rfl, dead.spawned⟩
  | ok _ =>
    have sound : Sound primary all r :=
      inv_run _ (fun _ _ sound quiet => sound.step quiet) sound_start (allMeet_of_forall quiet)
    have rank : r.rank all ≤ 2 * all.length + 4 :=
      inv_run_of_step (fun r : Race Conn => r.rank all ≤ 2 * all.length + 4)
        (fun r e le => (rank_step_le display primary all r e).trans le)
        (by simp [Race.rank, start, spawn, JoinSet.spawn, JoinSet.work]) events
    refine ⟨fun conn returned => ?_, fun addr conn won more quiet polls => ?_, sound.once,
      sound.later, fun e returned => .inr (sound.lost e returned).1⟩
    · obtain ⟨addr, won⟩ := sound.won conn returned
      exact ⟨addr, sound.known _ won, won⟩
    · have decided : Decided primary all r := ⟨sound, addr, conn, won⟩
      exact decided.returns quiet (rank.trans polls)

/-- The primary fails before the head start is over, and the other candidate connects. -/
theorem dial_any_race_second :
    let primary : SocketAddr := ⟨.v4 #v[192, 168, 0, 2], 4242⟩
    let other : SocketAddr := ⟨.v4 #v[10, 0, 0, 2], 4242⟩
    let all := [primary, other, primary]
    let events : List (RaceEvent Nat) := [.time 50, .ends primary (.failed (.handshake .timedOut)),
      .poll false 0, .poll false 0, .ends other (.connected 7)]
    let r := run (step (fun _ => "") primary all) (start primary (.ok ())) events
    (∀ e ∈ events, e.Quiet) ∧ r.spawned = [primary, other] ∧ r.Failed primary ∧
      ∃ conn, (run (step (fun _ => "") primary all) r (List.replicate 10 (.poll false 0))).phase =
        .returned (.ok conn) := by
  intro primary other all events r
  have quiet : ∀ e ∈ events, e.Quiet := by simp [events, RaceEvent.Quiet]
  have spawned : r.spawned = [primary, other] := by decide +kernel
  have won : (other, .connected 7) ∈ r.outcomes := by decide +kernel
  have early : r.clock = 50 := by decide +kernel
  obtain ⟨-, returns, -, later, -⟩ := dial_any_race (fun _ => "") (.ok ()) primary all events quiet
  refine ⟨quiet, spawned, ?_, ?_⟩
  · have due : headStart ≤ r.clock ∨ r.Failed primary :=
      later other (by decide +kernel) (by decide)
    simpa [early, headStart] using due
  · exact returns other 7 won _ (by simp [RaceEvent.Quiet]) (by decide)

/-- Without a configuration nobody is dialed. -/
theorem dial_any_without_config :
    let primary : SocketAddr := ⟨.v4 #v[192, 168, 0, 2], 4242⟩
    let r : Race Nat := start primary (.error (.tls "invalid private key"))
    r.phase = .returned (.error (.tls "invalid private key")) ∧ primary ∉ r.spawned ∧
      ¬ ∀ addr, addr = primary ∨ addr ∈ [primary] → r.Failed addr := by
  intro primary r
  refine ⟨rfl, List.not_mem_nil, fun failed => ?_⟩
  exact List.not_mem_nil (failed primary (.inl rfl)).1

end LanMouse.Connect
