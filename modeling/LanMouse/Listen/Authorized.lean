import LanMouse.Lib.Transition
import LanMouse.Listen.Task

/-!
# Who is let in

The authorized keys are asked once for each connection, in its handshake. What is later passed on to
the emulation or to the clipboard comes from a connection that was let in this way, and the keys are
not asked again. So it comes from an authorized peer as long as no key is taken away from a
connection that is there.
-/
namespace LanMouse.Listen

open Bytes Proto Client Transport Transition Tls

namespace State

variable {sha256 : List UInt8 → Hash} {s s' : State} {e : Event}

/-- What an event passes on comes from connections whose fingerprints are authorized. -/
def ForwardsAuthorized (sha256 : List UInt8 → Hash) (s : State) (e : Event) : Prop :=
  ∃ new, (s.step sha256 e).forwarded = s.forwarded ++ new ∧
    ∀ m ∈ new, ∃ c, s.conns[m.1]? = some c ∧ c.fingerprint ∈ s.authorizedKeys

/-- No key of a connection past its handshake is removed, by the user or with the configuration. -/
def KeepsKeys (s : State) : Event → Prop
  | .removeAuthorizedKey fp => ∀ c ∈ s.conns, c.fingerprint ≠ fp
  | .configChange authorizedFingerprints => ∀ c ∈ s.conns, c.fingerprint ∈ authorizedFingerprints
  | _ => True

instance (s : State) : ∀ e, Decidable (s.KeepsKeys e)
  | .removeAuthorizedKey _ => inferInstanceAs (Decidable (∀ c ∈ s.conns, _))
  | .configChange _ => inferInstanceAs (Decidable (∀ c ∈ s.conns, _))
  | .addAuthorizedKey .. | .emulation .. | .time .. | .handshake .. | .hello .. | .control ..
  | .reader .. | .deliver | .tick => isTrue trivial

/-! ### Where messages come from -/

/-- The connection has this address. -/
def HasAddr (s : State) (conn : Nat) (addr : SocketAddr) : Prop :=
  ∃ c, s.conns[conn]? = some c ∧ c.addr = addr

/-- Every message that is queued, and the last one of every address that is watched, was read from
one of the connections of the address. -/
structure Sourced (s : State) : Prop where
  queued : ∀ conn addr event, .msg conn addr event ∈ s.queue → s.HasAddr conn addr
  heard : ∀ addr heard, s.lastResponse.lookup addr = some heard → s.HasAddr heard.conn addr

theorem Sourced.mono (sourced : s.Sourced) (conns : ∀ i a, s.HasAddr i a → s'.HasAddr i a)
    (queue : s'.queue ⊆ s.queue) (heard : s'.lastResponse = s.lastResponse) : s'.Sourced where
  queued conn addr event mem := conns conn addr (sourced.queued conn addr event (queue mem))
  heard addr h found := conns h.conn addr (sourced.heard addr h (heard ▸ found))

theorem hasAddr_setPhase {i : Nat} {c : Conn} (found : s.conns[i]? = some c) (phase : Phase)
    (j : Nat) (addr : SocketAddr) (has : s.HasAddr j addr) :
    (s.setPhase i c phase).HasAddr j addr := by
  obtain ⟨d, at_, here⟩ := has
  obtain ⟨inside, -⟩ := List.getElem?_eq_some_iff.mp found
  by_cases same : i = j
  · subst same
    rw [found, Option.some_inj] at at_
    exact ⟨{ c with phase }, by simp [setPhase, inside], at_ ▸ here⟩
  · exact ⟨d, by rwa [setPhase, List.getElem?_set_ne same], here⟩

theorem Sourced.setPhase (sourced : s.Sourced) {i : Nat} {c : Conn} (found : s.conns[i]? = some c)
    (phase : Phase) : (s.setPhase i c phase).Sourced :=
  sourced.mono (hasAddr_setPhase found phase) (List.Subset.refl _) rfl

theorem Sourced.send (sourced : s.Sourced) {e : ListenEvent}
    (own : ∀ conn addr event, e = .msg conn addr event → s.HasAddr conn addr) :
    (s.send e).Sourced where
  queued conn addr event mem := by
    rcases List.mem_append.mp mem with old | new
    · exact sourced.queued conn addr event old
    · exact own conn addr event (List.mem_singleton.mp new).symm
  heard := sourced.heard

theorem Sourced.deliver (sourced : s.Sourced) {e : ListenEvent} {rest : List ListenEvent}
    (queue : s.queue = e :: rest) : ({ s with queue := rest }.handle e).Sourced := by
  have done := handled { s with queue := rest } e
  have has : ∀ {i a}, s.HasAddr i a → ({ s with queue := rest }.handle e).HasAddr i a := by
    simp only [HasAddr, done.conns]
    exact id
  refine ⟨fun conn addr event mem => has (sourced.queued conn addr event ?_),
    fun addr heard found => has ?_⟩
  · rw [done.queue] at mem
    exact queue ▸ List.mem_cons_of_mem _ mem
  · obtain old | ⟨event, rfl⟩ := done.heard addr heard found
    · exact sourced.heard addr heard old
    · exact sourced.queued heard.conn addr event (queue ▸ List.mem_cons_self)

theorem Sourced.expire (sourced : s.Sourced) (addr : SocketAddr) : (s.expire addr).Sourced := by
  unfold State.expire
  split
  · refine ⟨sourced.queued, fun other heard found => sourced.heard other heard ?_⟩
    obtain rfl | apart := eq_or_ne other addr
    · rw [report, AList.lookup_erase] at found
      cases found
    · rwa [report, AList.lookup_erase_ne apart] at found
  · exact sourced

theorem Sourced.foldl_expire (sourced : s.Sourced) (addrs : List SocketAddr) :
    (addrs.foldl State.expire s).Sourced := by
  induction addrs generalizing s with
  | nil => exact sourced
  | cons addr addrs ih => exact ih (sourced.expire addr)

theorem Sourced.step (sourced : s.Sourced) (step : Step sha256 s e s') : s'.Sourced := by
  cases step with
  | idle => exact sourced
  | addKey | removeKey | reload | emulation | time => exact ⟨sourced.queued, sourced.heard⟩
  | connect known =>
    refine sourced.mono (fun i addr has => ?_) (List.Subset.refl _) rfl
    obtain ⟨c, at_, here⟩ := has
    exact ⟨c, by rw [List.getElem?_append_left (List.getElem?_eq_some_iff.mp at_).1, at_], here⟩
  | reject => exact sourced.send (by simp)
  | accept found => exact (sourced.setPhase found _).send (by simp)
  | refuse found => exact sourced.setPhase found _
  | read found event =>
    refine sourced.send ?_
    rintro conn addr event ⟨⟩
    exact ⟨_, found, rfl⟩
  | announce found => exact (sourced.setPhase found _).send (by simp)
  | exit found => exact sourced.setPhase found _
  | deliver _ _ queue => exact sourced.deliver queue
  | tick => exact sourced.foldl_expire s.stale

/-! ### Whose messages are passed on -/

/-- Every connection has an authorized fingerprint. -/
def Vouched (s : State) : Prop := ∀ c ∈ s.conns, c.fingerprint ∈ s.authorizedKeys

theorem Vouched.setPhase (vouched : s.Vouched) {i : Nat} {c : Conn} (found : s.conns[i]? = some c)
    (phase : Phase) : (s.setPhase i c phase).Vouched := by
  intro d mem
  obtain old | rfl := List.mem_or_eq_of_mem_set mem
  · exact vouched d old
  · exact vouched c (List.mem_of_getElem? found)

theorem kept_foldl_expire (addrs : List SocketAddr) (s : State) :
    (addrs.foldl expire s).conns = s.conns ∧
      (addrs.foldl expire s).authorizedKeys = s.authorizedKeys ∧
      (addrs.foldl expire s).forwarded = s.forwarded := by
  induction addrs generalizing s with
  | nil => exact ⟨rfl, rfl, rfl⟩
  | cons addr addrs ih =>
    obtain ⟨conns, keys, forwarded⟩ := ih (s.expire addr)
    have one : (s.expire addr).conns = s.conns ∧
        (s.expire addr).authorizedKeys = s.authorizedKeys ∧
        (s.expire addr).forwarded = s.forwarded := by
      unfold expire
      split <;> exact ⟨rfl, rfl, rfl⟩
    exact ⟨conns.trans one.1, keys.trans one.2.1, forwarded.trans one.2.2⟩

theorem Vouched.step (vouched : s.Vouched) (keeps : s.KeepsKeys e) (step : Step sha256 s e s') :
    s'.Vouched := by
  cases step with
  | idle | emulation | time | reject | read => exact vouched
  | addKey desc fp => exact fun c mem => (AList.mem_insert _).mpr (.inr (vouched c mem))
  | removeKey fp => exact fun c mem => AList.mem_erase.mpr ⟨keeps c mem, vouched c mem⟩
  | reload keys => exact keeps
  | connect known =>
    intro c mem
    obtain old | new := List.mem_append.mp mem
    · exact vouched c old
    · rw [List.mem_singleton.mp new]
      exact known
  | accept found | refuse found | announce found | exit found => exact vouched.setPhase found _
  | deliver head rest queue =>
    have done := handled { s with queue := rest } head
    unfold Vouched
    rw [done.conns, done.keys]
    exact vouched
  | tick =>
    obtain ⟨conns, keys, -⟩ := kept_foldl_expire s.stale s
    unfold Vouched
    rw [conns, keys]
    exact vouched

theorem forwardsAuthorized_step (sourced : s.Sourced) (vouched : s.Vouched) (e : Event) :
    s.ForwardsAuthorized sha256 e := by
  have step := step_spec sha256 s e
  unfold ForwardsAuthorized
  generalize s.step sha256 e = s' at step
  have nothing : s'.forwarded = s.forwarded → ∃ new, s'.forwarded = s.forwarded ++ new ∧
      ∀ m ∈ new, ∃ c, s.conns[m.1]? = some c ∧ c.fingerprint ∈ s.authorizedKeys :=
    fun same => ⟨[], by simp [same], nofun⟩
  cases step with
  | deliver head rest queue =>
    obtain ⟨new, eq, own⟩ := (handled { s with queue := rest } head).forwarded
    refine ⟨new, eq, fun m mem => ?_⟩
    obtain ⟨addr, event, rfl⟩ := own m mem
    obtain ⟨c, found, -⟩ := sourced.queued m.1 addr event (queue ▸ List.mem_cons_self)
    exact ⟨c, found, vouched c (List.mem_of_getElem? found)⟩
  | tick => exact nothing (kept_foldl_expire s.stale s).2.2
  | _ => exact nothing rfl

end State

/-- In every run in which no key of a connection past its handshake is removed, every input or
clipboard event that is passed on comes from a connection whose fingerprint is among the authorized
keys at that point. -/
theorem forwarded_authorized (sha256 : List UInt8 → Hash) (keys : AuthorizedKeys)
    (events : List Event)
    (keeps : AllMeet (State.step sha256) State.KeepsKeys { authorizedKeys := keys } events) :
    AllMeet (State.step sha256) (State.ForwardsAuthorized sha256) { authorizedKeys := keys }
      events := by
  refine allMeet_mono (fun s => s.Sourced ∧ s.Vouched) ?_ ?_ ⟨⟨nofun, nofun⟩, nofun⟩ keeps
  · rintro s e ⟨sourced, vouched⟩ keeps
    exact ⟨sourced.step (step_spec sha256 s e), vouched.step keeps (step_spec sha256 s e)⟩
  · rintro s e ⟨sourced, vouched⟩ -
    exact State.forwardsAuthorized_step sourced vouched e

/-- A key is removed that no connection uses, and the configuration is loaded again. -/
theorem forwarded_authorized_input :
    let sha256 : List UInt8 → Hash := fun cert => Vector.replicate 32 (cert.headD 0)
    let fp := generateFingerprint sha256 [7]
    let keys : AuthorizedKeys := (∅ : AuthorizedKeys).insert fp "a"
    let a : SocketAddr := ⟨.v4 #v[192, 168, 0, 2], 2268⟩
    let key : ProtoEvent := .input (.keyboard (.key 0 30 1))
    let events : List Event := [.addAuthorizedKey "b" "other", .handshake a [7], .hello 0 true,
      .removeAuthorizedKey "other", .configChange keys, .emulation true, .reader 0 key, .deliver,
      .deliver]
    AllMeet (State.step sha256) (State.ForwardsAuthorized sha256) { authorizedKeys := keys }
        events ∧
      (run (State.step sha256) { authorizedKeys := keys } events).forwarded = [(0, key)] := by
  intro sha256 fp keys a key events
  exact ⟨forwarded_authorized sha256 keys events (by decide +kernel), by decide +kernel⟩

/-- A key is removed, by the user or with the configuration, and the connection it was used for
still delivers keystrokes and clipboard contents. -/
theorem forwarded_after_removal :
    let sha256 : List UInt8 → Hash := fun cert => Vector.replicate 32 (cert.headD 0)
    let fp := generateFingerprint sha256 [7]
    let a : SocketAddr := ⟨.v4 #v[192, 168, 0, 2], 2268⟩
    let key : ProtoEvent := .input (.keyboard (.key 0 30 1))
    let hash : Hash := Vector.replicate 32 1
    let text : ProtoEvent := .clipboardText ⟨hash, hash, 1, some [65]⟩
    let after (removal : Event) : State :=
      run (State.step sha256) { authorizedKeys := (∅ : AuthorizedKeys).insert fp "a" }
        [.handshake a [7], .hello 0 true, .deliver, .emulation true, removal, .reader 0 key,
          .reader 0 text]
    let removed := after (.removeAuthorizedKey fp)
    let reloaded := after (.configChange ∅)
    let delivered (s : State) : State := run (State.step sha256) s [.deliver, .deliver]
    (fp ∉ removed.authorizedKeys ∧ removed.conns.map (·.fingerprint) = [fp] ∧
      (delivered removed).forwarded = [(0, key), (0, text)]) ∧
    fp ∉ reloaded.authorizedKeys ∧ reloaded.conns.map (·.fingerprint) = [fp] ∧
      (delivered reloaded).forwarded = [(0, key), (0, text)] := by
  decide +kernel

end LanMouse.Listen
