import LanMouse.Emulation.InputEmulation
import LanMouse.Capture.Query
import LanMouse.Capture.Task
import LanMouse.Client.Manager

/-!
# Incoming connections

A peer that enters this machine gets a barrier of its own, at the edge it came from: when the
cursor runs into it, the peer is told to take the cursor back. The service keeps the addresses of
the peers that have entered, and for each barrier the peer it belongs to. A peer that enters at
another edge, or with another fingerprint, gets a new barrier; a disconnect leaves everything as it
is, since the peer may come back.

`requests` lists what the capture task is asked for on behalf of these peers.
-/
namespace LanMouse

open Proto Capture Client Emulation

structure Incoming where
  fingerprint : String
  addr : SocketAddr
  pos : Position
  deriving DecidableEq, Repr

/-- What the frontends are told about the peers. -/
inductive IncomingNotice where
  | deviceEntered (fingerprint : String) (addr : SocketAddr) (pos : Position)
  | incomingDisconnected (addr : SocketAddr)
  deriving DecidableEq, Repr

structure IncomingConns where
  incomingConns : Finset SocketAddr := ∅
  incomingConnInfo : AList fun _ : ClientHandle => Incoming := ∅
  nextTriggerHandle : Nat := 0
  requests : List CaptureRequest := []
  notices : List IncomingNotice := []

/-- `order` is the order in which the hash map is searched. -/
inductive IncomingEvent where
  | entered (order : Order ClientHandle) (addr : SocketAddr) (pos : Position) (fingerprint : String)
  | disconnected (addr : SocketAddr)

namespace IncomingConns

def enterHandleBegin : Nat := (2 ^ 64 - 1) / 2 + 1

def request (s : IncomingConns) (r : CaptureRequest) : IncomingConns :=
  { s with requests := s.requests ++ [r] }

def notifyFrontend (s : IncomingConns) (notice : IncomingNotice) : IncomingConns :=
  { s with notices := s.notices ++ [notice] }

def addIncoming (s : IncomingConns) (addr : SocketAddr) (pos : Position) (fingerprint : String) :
    IncomingConns :=
  let handle := (enterHandleBegin + s.nextTriggerHandle) % 2 ^ 64
  { s.request (.create handle (.fromPos pos) .enterOnly) with
    nextTriggerHandle := (s.nextTriggerHandle + 1) % 2 ^ 64
    incomingConns := insert addr s.incomingConns
    incomingConnInfo := s.incomingConnInfo.insert handle ⟨fingerprint, addr, pos⟩ }

/-- The first handle of the hash map that belongs to a peer. -/
def find (order : Order ClientHandle) (info : AList fun _ : ClientHandle => Incoming)
    (addr : SocketAddr) : Option ClientHandle :=
  (order.list info.keys.toFinset).find? fun h => (info.lookup h).any fun i => i.addr = addr

def removeIncoming (s : IncomingConns) (order : Order ClientHandle) (addr : SocketAddr) :
    IncomingConns :=
  match find order s.incomingConnInfo addr with
  | none => s
  | some handle =>
    { s.request (.destroy handle) with
      incomingConns := s.incomingConns.erase addr
      incomingConnInfo := s.incomingConnInfo.erase handle }

/-- The entry is changed in place before it is taken out. A peer without an entry is a panic. -/
def updateIncoming (s : IncomingConns) (order : Order ClientHandle) (addr : SocketAddr)
    (pos : Position) (fingerprint : String) : Option IncomingConns := do
  let handle ← find order s.incomingConnInfo addr
  let incoming ← s.incomingConnInfo.lookup handle
  if incoming.fingerprint ≠ fingerprint ∨ incoming.pos ≠ pos then
    let info := s.incomingConnInfo.insert handle { incoming with fingerprint, pos }
    let s := { s with incomingConnInfo := info }.removeIncoming order addr
    let s := s.addIncoming addr pos fingerprint
    let s := s.notifyFrontend (.incomingDisconnected addr)
    return s.notifyFrontend (.deviceEntered fingerprint addr pos)
  else
    return s

def handleEmulationEvent (s : IncomingConns) : IncomingEvent → Option IncomingConns
  | .entered order addr pos fingerprint =>
    if addr ∉ s.incomingConns then
      some ((s.addIncoming addr pos fingerprint).notifyFrontend
        (.deviceEntered fingerprint addr pos))
    else
      s.updateIncoming order addr pos fingerprint
  | .disconnected addr => some (s.notifyFrontend (.incomingDisconnected addr))

/-! ### What the structures should agree on -/

def addresses (s : IncomingConns) : List SocketAddr :=
  s.incomingConnInfo.entries.map fun entry => entry.2.addr

def capture (open_ : ClientHandle → Option BarrierKey) :
    CaptureRequest → ClientHandle → Option BarrierKey
  | .create h key .enterOnly => Function.update open_ h (some key)
  | .destroy h => Function.update open_ h none
  | _ => open_

/-- The barriers that were created for peers and not destroyed since. -/
def captures (requests : List CaptureRequest) : ClientHandle → Option BarrierKey :=
  requests.foldl capture fun _ => none

def createdHandle : CaptureRequest → Option ClientHandle
  | .create h _ _ => some h
  | _ => none

/-- The handles that were ever given out, in order. -/
def created (requests : List CaptureRequest) : List ClientHandle :=
  requests.filterMap createdHandle

def noteEntered (addr : SocketAddr) (last : Option Position) : IncomingEvent → Option Position
  | .entered _ a pos _ => if a = addr then some pos else last
  | .disconnected _ => last

def lastEntered (events : List IncomingEvent) (addr : SocketAddr) : Option Position :=
  events.foldl (noteEntered addr) none

/-- The three structures and the requests agree after the events. -/
structure Agrees (events : List IncomingEvent) (s : IncomingConns) : Prop where
  conns : ∀ addr, addr ∈ s.incomingConns ↔
    ∃ h i, s.incomingConnInfo.lookup h = some i ∧ i.addr = addr
  unique : ∀ h h' i i', s.incomingConnInfo.lookup h = some i →
    s.incomingConnInfo.lookup h' = some i' → i.addr = i'.addr → h = h'
  open_ : ∀ h, captures s.requests h =
    (s.incomingConnInfo.lookup h).map fun i => BarrierKey.fromPos i.pos
  last : ∀ h i, s.incomingConnInfo.lookup h = some i → lastEntered events i.addr = some i.pos
  listed : ∀ h i, s.incomingConnInfo.lookup h = some i → h ∈ created s.requests
  below : ∀ h ∈ created s.requests, h < enterHandleBegin + s.nextTriggerHandle
  nodup : (created s.requests).Nodup
  count : s.nextTriggerHandle ≤ events.length

variable {s : IncomingConns} {events : List IncomingEvent} {order : Order ClientHandle}
  {addr : SocketAddr} {pos : Position} {fingerprint : String}

theorem captures_snoc (requests : List CaptureRequest) (r : CaptureRequest) :
    captures (requests ++ [r]) = capture (captures requests) r := List.foldl_append

theorem lastEntered_snoc (events : List IncomingEvent) (e : IncomingEvent) (addr : SocketAddr) :
    lastEntered (events ++ [e]) addr = noteEntered addr (lastEntered events addr) e :=
  List.foldl_append

theorem Agrees.notify (agrees : Agrees events s) (notice : IncomingNotice) :
    Agrees events (s.notifyFrontend notice) :=
  ⟨agrees.conns, agrees.unique, agrees.open_, agrees.last, agrees.listed, agrees.below,
    agrees.nodup, agrees.count⟩

theorem created_snoc (requests : List CaptureRequest) (r : CaptureRequest) :
    created (requests ++ [r]) = created requests ++ (createdHandle r).toList := by
  unfold created
  rw [List.filterMap_append, List.filterMap_cons, List.filterMap_nil]
  cases createdHandle r <;> rfl

/-- Before the counter runs over, the arithmetic of `add_incoming` is exact. -/
theorem addIncoming_eq (room : s.nextTriggerHandle < enterHandleBegin) :
    let handle := enterHandleBegin + s.nextTriggerHandle
    s.addIncoming addr pos fingerprint =
      { s.request (.create handle (.fromPos pos) .enterOnly) with
        nextTriggerHandle := s.nextTriggerHandle + 1
        incomingConns := insert addr s.incomingConns
        incomingConnInfo := s.incomingConnInfo.insert handle ⟨fingerprint, addr, pos⟩ } := by
  unfold enterHandleBegin at room
  have handle : (enterHandleBegin + s.nextTriggerHandle) % 2 ^ 64 =
      enterHandleBegin + s.nextTriggerHandle := by
    unfold enterHandleBegin
    omega
  have counter : (s.nextTriggerHandle + 1) % 2 ^ 64 = s.nextTriggerHandle + 1 := by omega
  dsimp only [addIncoming]
  rw [handle, counter]

theorem lookup_insert_eq (info : AList fun _ : ClientHandle => Incoming) (h j : ClientHandle)
    (i : Incoming) : (info.insert h i).lookup j = if j = h then some i else info.lookup j := by
  split_ifs with own
  · rw [own, AList.lookup_insert]
  · rw [AList.lookup_insert_ne own]

theorem lookup_erase_eq (info : AList fun _ : ClientHandle => Incoming) (h j : ClientHandle) :
    (info.erase h).lookup j = if j = h then none else info.lookup j := by
  split_ifs with own
  · rw [own, AList.lookup_erase]
  · rw [AList.lookup_erase_ne own]

/-- A handle that is given out was never given out before. -/
theorem Agrees.fresh (agrees : Agrees events s) :
    enterHandleBegin + s.nextTriggerHandle ∉ created s.requests := fun mem =>
  absurd (agrees.below _ mem) (Nat.lt_irrefl _)

theorem Agrees.add (agrees : Agrees events s) (absent : addr ∉ s.incomingConns)
    (room : events.length < enterHandleBegin) (order : Order ClientHandle) (pos : Position)
    (fingerprint : String) : Agrees (events ++ [.entered order addr pos fingerprint])
      (s.addIncoming addr pos fingerprint) := by
  rw [addIncoming_eq (agrees.count.trans_lt room)]
  have others (h i) (entry : s.incomingConnInfo.lookup h = some i) :
      h ≠ enterHandleBegin + s.nextTriggerHandle ∧ i.addr ≠ addr := by
    refine ⟨?_, ?_⟩
    · rintro rfl
      exact agrees.fresh (agrees.listed _ i entry)
    · rintro rfl
      exact absent ((agrees.conns _).mpr ⟨h, i, entry, rfl⟩)
  constructor <;> dsimp only [request]
  case conns =>
    intro a
    rw [Finset.mem_insert, agrees.conns]
    simp only [lookup_insert_eq]
    constructor
    · rintro (rfl | ⟨h, i, entry, same⟩)
      · exact ⟨_, _, if_pos rfl, rfl⟩
      · exact ⟨h, i, by rw [if_neg (others h i entry).1, entry], same⟩
    · rintro ⟨h, i, entry, same⟩
      split_ifs at entry
      · cases entry
        exact .inl same.symm
      · exact .inr ⟨h, i, entry, same⟩
  case unique =>
    intro h h' i i' entry entry' same
    rw [lookup_insert_eq] at entry entry'
    split_ifs at entry entry' with own own' own'
    · exact own.trans own'.symm
    · cases entry
      exact absurd same.symm (others h' i' entry').2
    · cases entry'
      exact absurd same (others h i entry).2
    · exact agrees.unique h h' i i' entry entry' same
  case open_ =>
    intro h
    rw [captures_snoc, capture, Function.update_apply, lookup_insert_eq, agrees.open_]
    split_ifs <;> rfl
  case last =>
    intro h i entry
    rw [lookup_insert_eq] at entry
    rw [lastEntered_snoc, noteEntered]
    split_ifs at entry
    · cases entry
      exact if_pos rfl
    · rw [if_neg (Ne.symm (others h i entry).2)]
      exact agrees.last h i entry
  case listed =>
    intro h i entry
    rw [created_snoc, List.mem_append]
    rw [lookup_insert_eq] at entry
    split_ifs at entry with own
    · exact .inr (by simp [own, createdHandle])
    · exact .inl (agrees.listed h i entry)
  case below =>
    intro h mem
    rw [created_snoc, List.mem_append] at mem
    rcases mem with before | now
    · exact (agrees.below h before).trans (Nat.lt_succ_self _)
    · have own : h = enterHandleBegin + s.nextTriggerHandle := by
        simpa [createdHandle] using now
      exact own ▸ Nat.lt_succ_self _
  case nodup =>
    rw [created_snoc]
    exact List.nodup_append.mpr ⟨agrees.nodup, List.nodup_singleton _, by
      rintro h mem h' own rfl
      exact agrees.fresh ((List.mem_singleton.mp own) ▸ mem)⟩
  case count =>
    rw [List.length_append]
    exact Nat.add_le_add_right agrees.count 1

/-! ### Taking a peer out -/

theorem find_eq_some {info : AList fun _ : ClientHandle => Incoming} {h : ClientHandle}
    (found : find order info addr = some h) : ∃ i, info.lookup h = some i ∧ i.addr = addr := by
  have matches_ := List.find?_some found
  cases entry : info.lookup h with
  | none => simp [entry] at matches_
  | some i => exact ⟨i, rfl, by simpa [entry] using matches_⟩

theorem find_isSome (order : Order ClientHandle)
    {info : AList fun _ : ClientHandle => Incoming} {h : ClientHandle} {i : Incoming}
    (entry : info.lookup h = some i) (own : i.addr = addr) :
    ∃ j, find order info addr = some j := by
  refine Option.isSome_iff_exists.mp (List.find?_isSome.mpr ⟨h, ?_, by simp [entry, own]⟩)
  rw [order.mem_list, List.mem_toFinset]
  exact AList.lookup_isSome.mp (by simp [entry])

/-- The handle of a peer does not depend on the order of the search. -/
theorem Agrees.find_eq (agrees : Agrees events s) {h : ClientHandle} {i : Incoming}
    (entry : s.incomingConnInfo.lookup h = some i) (own : i.addr = addr) :
    find order s.incomingConnInfo addr = some h := by
  obtain ⟨j, found⟩ := find_isSome order entry own
  obtain ⟨i', entry', own'⟩ := find_eq_some found
  rw [found, agrees.unique h j i i' entry entry' (own.trans own'.symm)]

theorem Agrees.remove (agrees : Agrees events s) {h : ClientHandle} {i : Incoming}
    (entry : s.incomingConnInfo.lookup h = some i) (own : i.addr = addr) :
    Agrees events { s.request (.destroy h) with
      incomingConns := s.incomingConns.erase addr
      incomingConnInfo := s.incomingConnInfo.erase h } := by
  have same : created (s.requests ++ [.destroy h]) = created s.requests := by
    rw [created_snoc]
    exact List.append_nil _
  have kept (j i') (rest : (s.incomingConnInfo.erase h).lookup j = some i') :
      j ≠ h ∧ s.incomingConnInfo.lookup j = some i' := by
    rw [lookup_erase_eq] at rest
    split_ifs at rest with gone
    exact ⟨gone, rest⟩
  constructor <;> dsimp only [request]
  case conns =>
    intro a
    rw [Finset.mem_erase, agrees.conns]
    constructor
    · rintro ⟨other, j, i', rest, at_⟩
      refine ⟨j, i', ?_, at_⟩
      rw [lookup_erase_eq, if_neg ?_, rest]
      rintro rfl
      rw [entry] at rest
      cases rest
      exact other (at_.symm.trans own)
    · rintro ⟨j, i', rest, at_⟩
      obtain ⟨other, rest⟩ := kept j i' rest
      refine ⟨?_, j, i', rest, at_⟩
      rintro rfl
      exact other (agrees.unique j h i' i rest entry (at_.trans own.symm))
  case unique =>
    intro j j' i i' rest rest'
    exact agrees.unique j j' i i' (kept j i rest).2 (kept j' i' rest').2
  case open_ =>
    intro j
    rw [captures_snoc, capture, Function.update_apply, lookup_erase_eq, agrees.open_]
    split_ifs <;> rfl
  case last => exact fun j i' rest => agrees.last j i' (kept j i' rest).2
  case listed =>
    intro j i' rest
    rw [same]
    exact agrees.listed j i' (kept j i' rest).2
  case below =>
    rw [same]
    exact agrees.below
  case nodup =>
    rw [same]
    exact agrees.nodup
  case count => exact agrees.count

/-- An entry that is changed in place is found and taken out as before. -/
theorem find_insert {info : AList fun _ : ClientHandle => Incoming} {h : ClientHandle}
    {i i' : Incoming} (entry : info.lookup h = some i) (same : i'.addr = i.addr) :
    find order (info.insert h i') addr = find order info addr := by
  have listed : h ∈ info.keys := AList.lookup_isSome.mp (by simp [entry])
  have keys : (info.insert h i').keys.toFinset = info.keys.toFinset := by
    ext j
    rw [List.mem_toFinset, List.mem_toFinset, ← AList.mem_keys, AList.mem_insert, AList.mem_keys]
    exact or_iff_right_of_imp fun own => own ▸ listed
  unfold find
  rw [keys]
  congr 1
  funext j
  rw [lookup_insert_eq]
  split_ifs with own
  · subst own
    simp [entry, same]
  · rfl

theorem erase_insert (info : AList fun _ : ClientHandle => Incoming) (h : ClientHandle)
    (i : Incoming) : (info.insert h i).erase h = info.erase h := by
  refine AList.ext ?_
  change List.kerase h (info.insert h i).entries = List.kerase h info.entries
  rw [AList.entries_insert]
  exact List.kerase_cons_eq rfl

/-- The change in place does not matter for an entry that is taken out. -/
theorem removeIncoming_insert {h : ClientHandle} {i : Incoming}
    (entry : s.incomingConnInfo.lookup h = some i) (i' : Incoming) (same : i'.addr = i.addr)
    (found : find order s.incomingConnInfo addr = some h) :
    removeIncoming { s with incomingConnInfo := s.incomingConnInfo.insert h i' } order addr =
      { s.request (.destroy h) with
        incomingConns := s.incomingConns.erase addr
        incomingConnInfo := s.incomingConnInfo.erase h } := by
  unfold removeIncoming
  dsimp only
  rw [find_insert entry same, found]
  dsimp only
  rw [erase_insert]
  rfl

theorem Agrees.updateIncoming (agrees : Agrees events s) (mem : addr ∈ s.incomingConns)
    (room : events.length < enterHandleBegin) (order : Order ClientHandle) (pos : Position)
    (fingerprint : String) : ∃ s', s.updateIncoming order addr pos fingerprint = some s' ∧
      Agrees (events ++ [.entered order addr pos fingerprint]) s' := by
  obtain ⟨h, i, entry, own⟩ := (agrees.conns addr).mp mem
  have found : find order s.incomingConnInfo addr = some h := agrees.find_eq entry own
  unfold IncomingConns.updateIncoming
  simp only [found, entry, Option.bind_eq_bind, Option.bind_some]
  split_ifs with changed
  · have out := removeIncoming_insert entry { i with fingerprint, pos } rfl found
    refine ⟨_, rfl, Agrees.notify (Agrees.notify (Agrees.add ?_ ?_ room order pos fingerprint) _) _⟩
    · rw [out]
      exact agrees.remove entry own
    · rw [out]
      exact Finset.notMem_erase addr _
  · obtain ⟨-, samePos⟩ := not_or.mp changed
    refine ⟨s, rfl, { agrees with last := fun j i' rest => ?_, count := ?_ }⟩
    · rw [lastEntered_snoc, noteEntered]
      split_ifs with here
      · have same := agrees.unique h j i i' entry rest (own.trans here)
        subst same
        rw [entry] at rest
        cases rest
        rw [not_not.mp samePos]
      · exact agrees.last j i' rest
    · rw [List.length_append]
      exact agrees.count.trans (Nat.le_add_right _ _)

theorem Agrees.handleEmulationEvent (agrees : Agrees events s)
    (room : events.length < enterHandleBegin) (e : IncomingEvent) :
    ∃ s', s.handleEmulationEvent e = some s' ∧ Agrees (events ++ [e]) s' := by
  cases e with
  | entered order addr pos fingerprint =>
    dsimp only [IncomingConns.handleEmulationEvent]
    split_ifs with mem
    · exact agrees.updateIncoming mem room order pos fingerprint
    · exact ⟨_, rfl, (agrees.add mem room order pos fingerprint).notify _⟩
  | disconnected addr =>
    refine ⟨_, rfl, Agrees.notify { agrees with last := ?_, count := ?_ } _⟩
    · intro j i rest
      rw [lastEntered_snoc]
      exact agrees.last j i rest
    · rw [List.length_append]
      exact agrees.count.trans (Nat.le_add_right _ _)

theorem agrees_run (events : List IncomingEvent) (short : events.length ≤ enterHandleBegin) :
    ∃ s, events.foldlM IncomingConns.handleEmulationEvent {} = some s ∧ Agrees events s := by
  induction events using List.reverseRecOn with
  | nil => exact ⟨{}, rfl, by constructor <;> simp [captures, created]⟩
  | append_singleton events e ih =>
    rw [List.length_append, List.length_singleton] at short
    obtain ⟨s, run, agrees⟩ := ih (by omega)
    obtain ⟨s', step, agrees'⟩ := agrees.handleEmulationEvent (by omega) e
    refine ⟨s', ?_, agrees'⟩
    rw [List.foldlM_append, run]
    simpa using step

theorem Agrees.nodup_addresses (agrees : Agrees events s) : s.addresses.Nodup := by
  refine List.Nodup.map_on ?_ s.incomingConnInfo.nodupKeys.nodup
  rintro ⟨h, i⟩ mem ⟨h', i'⟩ mem' same
  have entry := AList.mem_lookup_iff.mpr mem
  have entry' := AList.mem_lookup_iff.mpr mem'
  obtain rfl := agrees.unique h h' i i' entry entry' same
  rw [Option.mem_def.mp entry] at entry'
  cases entry'
  rfl

theorem Agrees.conns_eq (agrees : Agrees events s) :
    s.incomingConns = s.addresses.toFinset := by
  ext addr
  rw [agrees.conns, List.mem_toFinset, addresses, List.mem_map]
  constructor
  · rintro ⟨h, i, entry, own⟩
    exact ⟨⟨h, i⟩, AList.mem_lookup_iff.mp entry, own⟩
  · rintro ⟨⟨h, i⟩, mem, own⟩
    exact ⟨h, i, AList.mem_lookup_iff.mpr mem, own⟩

/-- After any events the structures agree: each peer that has entered is listed once, under the one
handle whose barrier stands where the peer entered last. -/
theorem incoming_structures_agree (events : List IncomingEvent) (short : events.length < 2 ^ 63) :
    ∃ s, events.foldlM handleEmulationEvent {} = some s ∧
      s.incomingConns = s.addresses.toFinset ∧ s.addresses.Nodup ∧
      (∀ h key, captures s.requests h = some key ↔
        ∃ i, s.incomingConnInfo.lookup h = some i ∧
          (lastEntered events i.addr).map BarrierKey.fromPos = some key) ∧
      (created s.requests).Nodup := by
  have short : events.length ≤ enterHandleBegin := by
    unfold enterHandleBegin
    omega
  obtain ⟨s, run, agrees⟩ := agrees_run events short
  refine ⟨s, run, agrees.conns_eq, agrees.nodup_addresses, fun h key => ?_, agrees.nodup⟩
  rw [agrees.open_, Option.map_eq_some_iff]
  refine exists_congr fun i => and_congr_right fun entry => ?_
  rw [agrees.last h i entry, Option.map_some, Option.some_inj]

/-- A peer enters twice, at two edges. -/
theorem incoming_structures_agree_two :
    let events : List IncomingEvent :=
      [.entered (.any _) ⟨.v4 #v[10, 0, 0, 2], 4242⟩ .left "a",
        .disconnected ⟨.v4 #v[10, 0, 0, 2], 4242⟩,
        .entered (.any _) ⟨.v4 #v[10, 0, 0, 2], 4242⟩ .right "a"]
    events.length < 2 ^ 63 ∧ ∃ s, events.foldlM handleEmulationEvent {} = some s ∧
      s.incomingConns = s.addresses.toFinset ∧ s.addresses.Nodup ∧
      (∀ h key, captures s.requests h = some key ↔
        ∃ i, s.incomingConnInfo.lookup h = some i ∧
          (lastEntered events i.addr).map BarrierKey.fromPos = some key) ∧
      (created s.requests).Nodup :=
  ⟨by decide, incoming_structures_agree _ (by decide)⟩

end IncomingConns

end LanMouse
