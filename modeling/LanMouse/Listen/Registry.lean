import LanMouse.Lib.Directory
import LanMouse.Listen.Authorized

/-!
# The connection registry

A supervisor that has announced its connection enters it in `quic_conns` under the remote address,
and a guard takes the address out again when the supervisor exits. The guard knows the address only.
When a peer connects again from the same address before the old supervisor has exited, the old
guard removes the entry of the new connection.
-/
namespace LanMouse.Listen

open Bytes Proto Client Transport Transition Directory

/-- A supervisor that has registered its connection. -/
structure Supervisor where
  conn : Nat
  addr : SocketAddr
  deriving DecidableEq, Repr

/-- The supervisors stand in the order in which they registered; the registry leads from an address
to the number of a supervisor. -/
structure Registry where
  listen : State
  supervisors : List Supervisor := []
  quicConns : AList (fun _ : SocketAddr => Nat) := ∅

namespace State

/-- The connection that is announced and registered. -/
def accepts? (s : State) : Event → Option (Nat × Conn)
  | .hello i true => (s.conns[i]?.filter (·.phase = .handshaken)).map (i, ·)
  | _ => none

/-- The connection whose supervisor exits and drops its guard. -/
def drops? (s : State) : Event → Option (Nat × Conn)
  | .control i read =>
    if loopExit read = none then none
    else (s.conns[i]?.filter (·.phase = .accepted)).map (i, ·)
  | _ => none

end State

namespace Registry

def step (sha256 : List UInt8 → Hash) (r : Registry) (e : Event) : Registry :=
  let listen := r.listen.step sha256 e
  match r.listen.accepts? e with
  | some (i, c) =>
    { listen
      supervisors := r.supervisors ++ [⟨i, c.addr⟩]
      quicConns := r.quicConns.insert c.addr r.supervisors.length }
  | none =>
    match r.listen.drops? e with
    | some (_, c) => { r with listen, quicConns := r.quicConns.erase c.addr }
    | none => { r with listen }

/-- The supervisor that registered last for an address. -/
def latestAt (r : Registry) (addr : SocketAddr) : Option Nat :=
  lastIdx (fun v => v.addr = addr) r.supervisors

def live (r : Registry) (n : Nat) : Bool :=
  (r.supervisors[n]?.bind fun v => r.listen.conns[v.conn]?).any (·.phase = .accepted)

/-- An address leads to the connection accepted from it last, while that one is live. -/
def Current (r : Registry) : Prop :=
  ∀ addr n, r.latestAt addr = some n → r.live n = true → r.quicConns.lookup addr = some n

/-- The entry of another connection outlasts the end of a supervisor. -/
def KeepsOthers (sha256 : List UInt8 → Hash) (r : Registry) (e : Event) : Prop :=
  ∀ i c, r.listen.drops? e = some (i, c) → ∀ addr n v, r.quicConns.lookup addr = some n →
    r.supervisors[n]? = some v → v.conn ≠ i → (r.step sha256 e).quicConns.lookup addr = some n

/-- A supervisor ends only while no connection accepted later from its address is live. -/
def EndsAlone (r : Registry) (e : Event) : Prop :=
  ∀ i c, r.listen.drops? e = some (i, c) → ∀ n v, r.latestAt c.addr = some n →
    r.live n = true → r.supervisors[n]? = some v → v.conn = i

end Registry

/-! ### What a step does to the connections -/

namespace State

variable {sha256 : List UInt8 → Hash} {s : State} {e : Event} {i j : Nat} {c d : Conn}

theorem getElem?_set_of_some {cs : List Conn} (found : cs[i]? = some c) :
    (cs.set i d)[j]? = if i = j then some d else cs[j]? := by
  obtain ⟨inside, -⟩ := List.getElem?_eq_some_iff.mp found
  rw [List.getElem?_set]
  split_ifs <;> rfl

theorem accepts?_eq_some (accepts : s.accepts? e = some (i, c)) :
    e = .hello i true ∧ s.conns[i]? = some c ∧ c.phase = .handshaken := by
  unfold accepts? at accepts
  split at accepts
  · obtain ⟨_, found, same⟩ := Option.map_eq_some_iff.mp accepts
    cases same
    obtain ⟨found, phase⟩ := Option.filter_eq_some_iff.mp found
    exact ⟨rfl, found, by simpa using phase⟩
  · cases accepts

theorem drops?_eq_some (drops : s.drops? e = some (i, c)) :
    ∃ read, e = .control i read ∧ loopExit read ≠ none ∧ s.conns[i]? = some c ∧
      c.phase = .accepted := by
  unfold drops? at drops
  split at drops
  · rename_i j read
    split_ifs at drops with goesOn
    obtain ⟨_, found, same⟩ := Option.map_eq_some_iff.mp drops
    cases same
    obtain ⟨found, phase⟩ := Option.filter_eq_some_iff.mp found
    exact ⟨read, rfl, goesOn, found, by simpa using phase⟩
  · cases drops

variable (sha256) in
theorem conns_of_accepts (accepts : s.accepts? e = some (i, c)) :
    (s.step sha256 e).conns = s.conns.set i { c with phase := .accepted } := by
  obtain ⟨rfl, found, phase⟩ := accepts?_eq_some accepts
  simp [step, found, phase, send, setPhase]

variable (sha256) in
theorem conns_of_drops (drops : s.drops? e = some (i, c)) :
    (s.step sha256 e).conns = s.conns.set i { c with phase := .exited } := by
  obtain ⟨read, rfl, exits, found, phase⟩ := drops?_eq_some drops
  simp only [step, found, phase, if_true]
  rcases read with (e | _ | _) | event
  · cases e with
    | truncated | frameTooLarge => rfl
    | helloFailed msg =>
      simp only [loopExit, ne_eq, ite_eq_left_iff, reduceCtorEq, imp_false, not_not] at exits
      simp [superviseRead, exits, setPhase]
  · rfl
  · rfl
  · exact absurd rfl exits

/-- Connections that are past their `Hello` stay as they are, and none is accepted. -/
structure Rests (cs cs' : List Conn) : Prop where
  stays : ∀ {j : Nat} {d : Conn}, cs[j]? = some d → d.phase ≠ .handshaken → cs'[j]? = some d
  starts : ∀ {j : Nat} {d : Conn}, cs'[j]? = some d → d.phase = .accepted → cs[j]? = some d

theorem Rests.of_eq {cs cs' : List Conn} (same : cs' = cs) : Rests cs cs' := by
  subst same
  exact ⟨fun found _ => found, fun found _ => found⟩

theorem Rests.append {cs : List Conn} (fresh : c.phase = .handshaken) : Rests cs (cs ++ [c]) := by
  refine ⟨fun {j d} found _ => ?_, fun {j d} found phase => ?_⟩
  · obtain ⟨inside, -⟩ := List.getElem?_eq_some_iff.mp found
    rwa [List.getElem?_append_left inside]
  · rw [List.getElem?_append] at found
    split_ifs at found with inside
    · exact found
    · obtain rfl := List.mem_singleton.mp (List.mem_of_getElem? found)
      rw [fresh] at phase
      cases phase

theorem Rests.refuse {cs : List Conn} (found : cs[i]? = some c) (fresh : c.phase = .handshaken) :
    Rests cs (cs.set i { c with phase := .refused }) := by
  refine ⟨fun {j d} at_ past => ?_, fun {j d} at_ phase => ?_⟩
  · rw [getElem?_set_of_some found, if_neg]
    · exact at_
    · rintro rfl
      rw [found] at at_
      cases at_
      exact past fresh
  · rw [getElem?_set_of_some found] at at_
    split_ifs at at_ with own
    · cases at_
      cases phase
    · exact at_

variable (sha256) in
/-- Any other step leaves the running supervisors alone, and starts none. -/
theorem conns_of_quiet (accepts : s.accepts? e = none) (drops : s.drops? e = none) :
    Rests s.conns (s.step sha256 e).conns := by
  have step := step_spec sha256 s e
  generalize s.step sha256 e = s' at step
  cases step with
  | idle | addKey | removeKey | reload | emulation | time | reject | read => exact .of_eq rfl
  | connect => exact .append rfl
  | accept found fresh => simp [accepts?, found, fresh] at accepts
  | refuse found fresh => exact .refuse found fresh
  | announce found runs exit | exit found runs exit => simp [drops?, found, runs, exit] at drops
  | deliver head rest => exact .of_eq (handled _ head).conns
  | tick => exact .of_eq (kept_foldl_expire s.stale s).1

end State

/-! ### The registry over a run -/

namespace Registry

variable {sha256 : List UInt8 → Hash} {r : Registry} {e : Event} {i n : Nat} {c : Conn}

/-- The registry is exact, and every supervisor is past the handshake of its connection. -/
structure Coherent (r : Registry) : Prop where
  exact : Exact (fun addr => r.quicConns.lookup addr) r.latestAt fun n => r.live n = true
  known : ∀ v ∈ r.supervisors, ∃ c, r.listen.conns[v.conn]? = some c ∧ c.addr = v.addr ∧
    c.phase ≠ .handshaken

theorem live_iff : r.live n = true ↔ ∃ v c, r.supervisors[n]? = some v ∧
    r.listen.conns[v.conn]? = some c ∧ c.phase = .accepted := by
  simp only [live, Option.any_eq_true, Option.bind_eq_some_iff, decide_eq_true_eq]
  constructor
  · rintro ⟨c, ⟨v, at_, found⟩, phase⟩
    exact ⟨v, c, at_, found, phase⟩
  · rintro ⟨v, c, at_, found, phase⟩
    exact ⟨c, ⟨v, at_, found⟩, phase⟩

theorem Coherent.current (coherent : r.Coherent) : r.Current :=
  fun addr n last live => (coherent.exact addr n).mpr ⟨last, live⟩

theorem latestAt_addr {addr : SocketAddr} (last : r.latestAt addr = some n) :
    ∃ v, r.supervisors[n]? = some v ∧ v.addr = addr := by
  obtain ⟨v, at_, here⟩ := getElem?_lastIdx last
  exact ⟨v, at_, of_decide_eq_true here⟩

theorem live_congr {r' : Registry} {v : Supervisor} (at_ : r.supervisors[n]? = some v)
    (at' : r'.supervisors[n]? = some v)
    (conn : r'.listen.conns[v.conn]? = r.listen.conns[v.conn]?) :
    r'.live n = true ↔ r.live n = true := by
  simp only [live, at_, at', Option.bind_some, conn]

theorem step_of_accepts (accepts : r.listen.accepts? e = some (i, c)) :
    r.step sha256 e =
      { listen := r.listen.step sha256 e
        supervisors := r.supervisors ++ [⟨i, c.addr⟩]
        quicConns := r.quicConns.insert c.addr r.supervisors.length } := by
  simp only [step, accepts]

theorem accepts?_of_drops (drops : r.listen.drops? e = some (i, c)) :
    r.listen.accepts? e = none := by
  obtain ⟨read, rfl, -⟩ := State.drops?_eq_some drops
  rfl

theorem step_of_drops (drops : r.listen.drops? e = some (i, c)) :
    r.step sha256 e =
      { r with
        listen := r.listen.step sha256 e
        quicConns := r.quicConns.erase c.addr } := by
  simp only [step, accepts?_of_drops drops, drops]

theorem Coherent.accept (coherent : r.Coherent) (accepts : r.listen.accepts? e = some (i, c)) :
    (r.step sha256 e).Coherent := by
  obtain ⟨-, found, phase⟩ := State.accepts?_eq_some accepts
  have conn : ∀ j, (r.listen.step sha256 e).conns[j]? =
      if i = j then some { c with phase := .accepted } else r.listen.conns[j]? := fun j => by
    rw [State.conns_of_accepts sha256 accepts, State.getElem?_set_of_some found]
  have other : ∀ v ∈ r.supervisors, i ≠ v.conn := by
    rintro v mem rfl
    obtain ⟨c', found', -, past⟩ := coherent.known v mem
    rw [found, Option.some_inj] at found'
    exact past (found' ▸ phase)
  rw [step_of_accepts accepts]
  refine ⟨coherent.exact.register c.addr r.supervisors.length (fun addr => ?_) (fun addr => ?_) ?_
    fun addr h apart last => ?_, fun v mem => ?_⟩
  · split_ifs with same
    · rw [same, AList.lookup_insert]
    · exact AList.lookup_insert_ne same
  · simp only [latestAt, lastIdx_concat, decide_eq_true_eq, @eq_comm _ c.addr addr]
  · exact live_iff.mpr ⟨⟨i, c.addr⟩, _, by simp, (conn i).trans (if_pos rfl), rfl⟩
  · obtain ⟨v, at_, -⟩ := latestAt_addr last
    obtain ⟨inside, -⟩ := List.getElem?_eq_some_iff.mp at_
    refine live_congr at_ ((List.getElem?_append_left inside).trans at_) ?_
    rw [conn, if_neg (other v (List.mem_of_getElem? at_))]
  · obtain old | new := List.mem_append.mp mem
    · obtain ⟨c', found', here, past⟩ := coherent.known v old
      exact ⟨c', by rw [conn, if_neg (other v old), found'], here, past⟩
    · obtain rfl := List.mem_singleton.mp new
      exact ⟨_, (conn i).trans (if_pos rfl), rfl, fun same => by cases same⟩

theorem Coherent.drop (coherent : r.Coherent) (drops : r.listen.drops? e = some (i, c))
    (alone : r.EndsAlone e) : (r.step sha256 e).Coherent := by
  obtain ⟨read, -, -, found, phase⟩ := State.drops?_eq_some drops
  have conn : ∀ j, (r.listen.step sha256 e).conns[j]? =
      if i = j then some { c with phase := .exited } else r.listen.conns[j]? := fun j => by
    rw [State.conns_of_drops sha256 drops, State.getElem?_set_of_some found]
  rw [step_of_drops drops]
  refine ⟨coherent.exact.leave c.addr (fun addr => ?_) (fun _ _ => rfl) (fun h last live => ?_)
    fun addr h apart last => ?_, fun v mem => ?_⟩
  · split_ifs with same
    · rw [same, AList.lookup_erase]
    · exact AList.lookup_erase_ne same
  · obtain ⟨v, c', at_, found', runs⟩ := live_iff.mp live
    have apart : i ≠ v.conn := by
      intro same
      rw [conn, if_pos same, Option.some_inj] at found'
      rw [← found'] at runs
      cases runs
    rw [conn, if_neg apart] at found'
    exact apart (alone i c drops h v last (live_iff.mpr ⟨v, c', at_, found', runs⟩) at_).symm
  · obtain ⟨v, at_, here⟩ := latestAt_addr last
    have other : i ≠ v.conn := by
      rintro rfl
      obtain ⟨c', found', here', -⟩ := coherent.known v (List.mem_of_getElem? at_)
      rw [found, Option.some_inj] at found'
      exact apart (here.symm.trans (here'.symm.trans (congrArg Conn.addr found'.symm)))
    refine live_congr at_ at_ ?_
    rw [conn, if_neg other]
  · obtain ⟨c', found', here, past⟩ := coherent.known v mem
    rw [conn]
    split_ifs with same
    · rw [← same, found, Option.some_inj] at found'
      exact ⟨_, rfl, by rw [← here, ← found'], fun same => by cases same⟩
    · exact ⟨c', found', here, past⟩

theorem Coherent.quiet (coherent : r.Coherent) (accepts : r.listen.accepts? e = none)
    (drops : r.listen.drops? e = none) : (r.step sha256 e).Coherent := by
  have step_ : r.step sha256 e = { r with listen := r.listen.step sha256 e } := by
    simp only [step, accepts, drops]
  have live_ : ∀ h, (r.step sha256 e).live h = true ↔ r.live h = true := by
    intro h
    rw [step_, live_iff, live_iff]
    constructor
    · rintro ⟨v, c, at_, found, phase⟩
      exact ⟨v, c, at_, (State.conns_of_quiet sha256 accepts drops).starts found phase, phase⟩
    · rintro ⟨v, c, at_, found, phase⟩
      have past : c.phase ≠ .handshaken := by simp [phase]
      exact ⟨v, c, at_, (State.conns_of_quiet sha256 accepts drops).stays found past, phase⟩
  refine ⟨fun addr h => ?_, fun v mem => ?_⟩
  · refine Iff.trans ?_ (and_congr_right fun _ => (live_ h).symm)
    rw [step_]
    exact coherent.exact addr h
  · rw [step_] at mem ⊢
    obtain ⟨c, found, here, past⟩ := coherent.known v mem
    exact ⟨c, (State.conns_of_quiet sha256 accepts drops).stays found past, here, past⟩

theorem Coherent.step (coherent : r.Coherent) (alone : r.EndsAlone e) :
    (r.step sha256 e).Coherent := by
  cases accepts : r.listen.accepts? e with
  | some a => exact coherent.accept accepts
  | none =>
    cases drops : r.listen.drops? e with
    | some a => exact coherent.drop drops alone
    | none => exact coherent.quiet accepts drops

theorem coherent_new (keys : AuthorizedKeys) :
    ({ listen := { authorizedKeys := keys } } : Registry).Coherent :=
  ⟨fun addr h => by simp [latestAt], by simp⟩

theorem endsAlone_of_current (current : (r.step sha256 e).Current) : r.EndsAlone e := by
  intro i c drops n v last live at_
  obtain ⟨read, -, -, found, -⟩ := State.drops?_eq_some drops
  by_contra apart
  have conn : (r.listen.step sha256 e).conns[v.conn]? = r.listen.conns[v.conn]? := by
    rw [State.conns_of_drops sha256 drops, State.getElem?_set_of_some found,
      if_neg (Ne.symm apart)]
  rw [step_of_drops drops] at current
  have entry := current c.addr n last ((live_congr at_ (by exact at_) conn).mpr live)
  rw [AList.lookup_erase] at entry
  cases entry

theorem Coherent.keepsOthers (coherent : r.Coherent) (alone : r.EndsAlone e) :
    r.KeepsOthers sha256 e := by
  intro i c drops addr n v entry at_ other
  rw [step_of_drops drops]
  have apart : addr ≠ c.addr := by
    rintro rfl
    obtain ⟨last, live⟩ := (coherent.exact c.addr n).mp entry
    exact other (alone i c drops n v last live at_)
  rw [AList.lookup_erase_ne apart, entry]

/-- The registry leads to the connection accepted last and to no stale one, over a whole run,
exactly when no supervisor ends while a later one runs for the same address. -/
theorem registry_current_iff (sha256 : List UInt8 → Hash) (keys : AuthorizedKeys)
    (events : List Event) :
    let start : Registry := { listen := { authorizedKeys := keys } }
    Always (step sha256) Current start events ∧
        AllMeet (step sha256) (KeepsOthers sha256) start events ↔
      AllMeet (step sha256) EndsAlone start events := by
  intro start
  exact always_and_allMeet_iff Coherent (fun _ _ coherent alone => coherent.step alone)
    (fun _ coherent => coherent.current) (fun _ _ coherent alone => coherent.keepsOthers alone)
    (fun _ _ _ current _ => endsAlone_of_current current) (coherent_new keys) events

/-- A peer connects again from its address; then the supervisor of the first connection exits. -/
theorem registry_forgets_newer :
    let sha256 : List UInt8 → Hash := fun cert => Vector.replicate 32 (cert.headD 0)
    let fp := Tls.generateFingerprint sha256 [7]
    let keys : AuthorizedKeys := (∅ : AuthorizedKeys).insert fp "a"
    let a : SocketAddr := ⟨.v4 #v[192, 168, 0, 2], 2268⟩
    let events : List Event := [.handshake a [7], .hello 0 true, .handshake a [7], .hello 1 true,
      .control 0 (.error (.err .truncated))]
    let r := run (step sha256) { listen := { authorizedKeys := keys } } events
    r.latestAt a = some 1 ∧ r.live 1 = true ∧ r.quicConns.lookup a = none := by
  decide +kernel

end Registry

end LanMouse.Listen
