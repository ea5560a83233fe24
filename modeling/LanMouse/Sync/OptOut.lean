import LanMouse.Sync.Handlers

/-!
# Clients that have opted out

A client with `enable_clipboard_to = false` gets no clipboard event over a connection that was
dialed to it. Two runs that differ only in what is on the local clipboard therefore push the same
events to it there: those of the capture task.

The flag of the client is not consulted for anything else. A connection that the same machine has
opened is a recipient in its own right, its requests are answered from the caches over any
connection, and whether the service asks it for a text depends on the texts that were copied last.
-/
namespace LanMouse.Sync

open Proto Client Clipboard Transition

/-- The action without what it says of the local clipboard. -/
def Action.visible : Action → Option Action
  | .dispatch .. | .recoverPush _ => none
  | .imageTurn i a => some (.imageTurn i { a with current := none })
  | action => some action

def Event.visible (e : Event) : Option Event := e.action.visible.map fun action => { e with action }

/-- Two runs that differ only in what is on the local clipboard, and when. -/
def DifferInClipboard (events events' : List Event) : Prop :=
  events.filterMap Event.visible = events'.filterMap Event.visible

def Action.forwardedTo (h : ClientHandle) : Action → List ProtoEvent
  | .forward h' e => if h' = h then [.input e] else []
  | _ => []

namespace State

/-- The client does not want to get the clipboard. -/
def optedOut (s : State) (h : ClientHandle) : Bool :=
  (s.peers.clientManager.get? h).all fun c => !c.1.enableClipboardTo

/-- The events that were pushed to a recipient. -/
def pushedTo (s : State) (recipient : Recipient) : List ProtoEvent :=
  (s.sent.filter (·.1 = recipient)).map (·.2)

def requestsTo (s : State) (recipient : Recipient) : List (Route × Hash) :=
  (s.requests.filter (·.1 = recipient)).map (·.2)

def answersTo (s : State) (recipient : Recipient) : List (Option (List UInt8)) :=
  (s.answers.filter (·.1 = recipient)).map (·.2)

end State

section Step

variable {host : Host} {s : State} {h : ClientHandle}

theorem not_mem_recipients (out : s.optedOut h) : .outgoing h ∉ s.peers.recipients := by
  intro mem
  obtain outgoing | incoming := List.mem_append.mp mem
  · obtain ⟨⟨handle, cfg, state⟩, reached, same⟩ := List.mem_map.mp outgoing
    obtain ⟨listed, enabled⟩ := List.mem_filter.mp reached
    obtain ⟨handle', -, found⟩ := List.mem_filterMap.mp listed
    obtain ⟨c, registered, eq⟩ := Option.map_eq_some_iff.mp found
    cases same
    cases eq
    simp only [State.optedOut, registered, Option.all_some] at out
    simp only [Bool.and_eq_true] at enabled
    simp [enabled.1.1] at out
  · obtain ⟨x, -, same⟩ := List.mem_map.mp incoming
    cases same

theorem pushedTo_push (out : s.optedOut h) (now : Nat) (filled : Snapshot) (outcome : Outcome) :
    (s.push now filled outcome).pushedTo (.outgoing h) = s.pushedTo (.outgoing h) := by
  have nothing : (outcome.events.flatMap (broadcastClipboardEvent s.peers)).filter
      (·.1 = Recipient.outgoing h) = [] := by
    rw [List.filter_eq_nil_iff]
    intro x mem own
    obtain ⟨e, -, broadcast⟩ := List.mem_flatMap.mp mem
    obtain ⟨recipient, reached, rfl⟩ := List.mem_map.mp broadcast
    have same : recipient = .outgoing h := of_decide_eq_true own
    rw [same] at reached
    exact not_mem_recipients out reached
  simp only [State.pushedTo, State.push, List.filter_append, nothing, List.append_nil]

theorem sent_inbound (s : State) (now : Nat) (addr : SocketAddr) (event : ProtoEvent)
    (a : InboundAnswers) : (s.handleClipboardInbound host now addr event a).sent = s.sent := by
  cases event with
  | clipboardText ct =>
    obtain ⟨dispatcher, requests, written, eq, -⟩ := s.inboundText_eq now ct addr a
    simp only [State.handleClipboardInbound, eq]
  | clipboardImage ci =>
    obtain ⟨dispatcher, imageTasks, requests, eq⟩ := s.inboundImage_eq now ci addr
    simp only [State.handleClipboardInbound, eq]
  | clipboardFiles cf =>
    obtain ⟨lru, eq | ⟨jobs, conn, -, -, eq⟩⟩ := s.inboundFiles_eq host now cf addr a
    · simp only [State.handleClipboardInbound, eq]
    · simp only [State.handleClipboardInbound, eq, State.spawnFiles]
  | _ => rfl

theorem sent_fileApplied (s : State) (now : Nat) (result : Files.InboundFileApplyResult)
    (reply : CmdReply) : (s.handleInboundFilesApplied host now result reply).sent = s.sent := by
  obtain ⟨lru, eq⟩ := s.filesApplied_eq host now result reply
  rw [eq]
  simp only [State.collect]
  split
  · rfl
  · split
    · rfl
    · obtain ⟨dispatcher, inject, eq', -⟩ := State.maybeInject_eq host _ _ _ reply
      rw [eq']

/-- One event pushes what the capture task forwards to the client, and nothing else. -/
theorem pushedTo_step (out : s.optedOut h) (e : Event) :
    (s.step host e).pushedTo (.outgoing h) =
      s.pushedTo (.outgoing h) ++ e.action.forwardedTo h := by
  have same : ∀ s' : State, s'.sent = s.sent →
      s'.pushedTo (.outgoing h) = s.pushedTo (.outgoing h) ++ [] := fun s' sent => by
    simp [State.pushedTo, sent]
  obtain ⟨now, action⟩ := e
  cases action with
  | dispatch content filled =>
    exact (pushedTo_push out now filled _).trans (List.append_nil _).symm
  | recoverPush text =>
    exact (pushedTo_push out now _ _).trans (List.append_nil _).symm
  | forward h' e =>
    by_cases own : h' = h <;> simp [State.step, State.act, State.pushedTo, Action.forwardedTo, own]
  | inbound addr event a => exact same _ (sent_inbound s now addr event a)
  | imageTurn i a =>
    obtain ⟨imageTasks, imagesApplied, written, eq, -⟩ := s.imageTurn_eq host i a
    refine same _ ?_
    simp only [State.step, State.act, eq]
  | imageApplied =>
    refine same _ ?_
    simp only [State.step, State.act]
    split
    · rfl
    · next result rest queue =>
      obtain ⟨dispatcher, eq⟩ := State.imageApplied_eq { s with imagesApplied := rest } now result
      rw [eq]
  | fileApplied reply =>
    refine same _ ?_
    simp only [State.step, State.act]
    split
    · rfl
    · exact sent_fileApplied _ now _ reply
  | _ => exact same _ rfl

/-- A run pushes what the capture task forwards to the client, and nothing else. -/
theorem pushedTo_run {events : List Event}
    (out : Always (State.step host) (·.optedOut h) s events) :
    (run (State.step host) s events).pushedTo (.outgoing h) =
      s.pushedTo (.outgoing h) ++ events.flatMap (·.action.forwardedTo h) := by
  induction events generalizing s with
  | nil => simp [run]
  | cons e events ih =>
    rw [run_cons, ih out.2, pushedTo_step out.1, List.flatMap_cons, List.append_assoc]

theorem forwardedTo_visible (h : ClientHandle) (e : Event) :
    (e.visible.map (·.action.forwardedTo h)).getD [] = e.action.forwardedTo h := by
  obtain ⟨now, action⟩ := e
  cases action <;> rfl

theorem flatMap_forwardedTo (h : ClientHandle) (events : List Event) :
    (events.filterMap Event.visible).flatMap (·.action.forwardedTo h) =
      events.flatMap (·.action.forwardedTo h) := by
  induction events with
  | nil => rfl
  | cons e events ih =>
    have own := forwardedTo_visible h e
    rw [List.flatMap_cons, ← ih, ← own]
    cases seen : e.visible with
    | none =>
      rw [List.filterMap_cons_none seen]
      rfl
    | some e' =>
      rw [List.filterMap_cons_some seen, List.flatMap_cons]
      rfl

end Step

/-- In two runs that differ only in what is on the local clipboard, a client that has opted out all
the time gets the same events over the connections that were dialed to it. -/
theorem opted_out_pushes_same (host : Host) (s : State) (events events' : List Event)
    (h : ClientHandle) (differ : DifferInClipboard events events')
    (out : Always (State.step host) (·.optedOut h) s events)
    (out' : Always (State.step host) (·.optedOut h) s events') :
    (run (State.step host) s events).pushedTo (.outgoing h) =
      (run (State.step host) s events').pushedTo (.outgoing h) := by
  rw [pushedTo_run out, pushedTo_run out', ← flatMap_forwardedTo h events,
    ← flatMap_forwardedTo h events', differ]

/-- A different text is copied, and the client gets the same key. -/
theorem opted_out_pushes_same_key :
    let host : Host := ⟨fun bytes => Vector.replicate 32 (bytes.headD 0), []⟩
    let addr : SocketAddr := ⟨.v4 #v[192, 168, 0, 2], 2268⟩
    let clients : ClientManager := ClientManager.setState
      (ClientManager.addWithConfig .empty { enableClipboardTo := false, active := true }).2 0
      { active := true, activeAddr := some addr }
    let start : State := { State.start none .empty with peers := ⟨clients, [], fun _ => false⟩ }
    let key : InputEvent := .keyboard (.key 0 30 1)
    let events (text : String) : List Event :=
      [{ action := .dispatch (.text text) fun _ => .error "" }, { action := .forward 0 key }]
    (run (State.step host) start (events "a")).pushedTo (.outgoing 0) =
        (run (State.step host) start (events "b")).pushedTo (.outgoing 0) ∧
      (run (State.step host) start (events "a")).pushedTo (.outgoing 0) = [.input key] := by
  intro host addr clients start key events
  exact ⟨opted_out_pushes_same host start (events "a") (events "b") 0 rfl (by decide +kernel)
    (by decide +kernel), by decide +kernel⟩

/-- The machine of a client that has opted out gets the text that is copied over the connection it
has opened itself. Over the dialed connection it is asked for a text only if that text was not
copied, and it gets an image that was copied when it asks for it. -/
theorem opted_out_learns :
    let host : Host := ⟨fun bytes => Vector.replicate 32 (bytes.headD 0), []⟩
    let dialed : SocketAddr := ⟨.v4 #v[192, 168, 0, 2], 2268⟩
    let accepted : SocketAddr := ⟨.v4 #v[192, 168, 0, 2], 50000⟩
    let clients : ClientManager := ClientManager.setState
      (ClientManager.addWithConfig .empty { enableClipboardTo := false, active := true }).2 0
      { active := true, activeAddr := some dialed }
    let start : State := { State.start none .empty with
      peers := ⟨clients, [], fun addr => addr = accepted⟩
      sessions := fun addr => if addr = dialed then some 0 else none }
    let copied (content : Content) : Event := { action := .dispatch content fun _ => .error "" }
    let hash (byte : UInt8) : Hash := Vector.replicate 32 byte
    let connected : Event := { action := .connected accepted }
    let announced : Action := .inbound dialed (.clipboardText ⟨hash 97, hash 97, 5000, none⟩) {}
    let get : Action := .get (.outgoing 0) .image (hash 1)
    let copying (c : Content) (last : Action) : List Event :=
      [connected, copied c, { action := last }]
    let idle (last : Action) : List Event := [connected, { action := last }]
    let final (events : List Event) : State := run (State.step host) start events
    let text := copying (.text "a") announced
    let image := copying (.image ⟨"image/png", [1]⟩) get
    (DifferInClipboard text (idle announced) ∧ DifferInClipboard image (idle get)) ∧
      (∀ events ∈ [text, idle announced, image, idle get],
        Always (State.step host) (·.optedOut 0) start events) ∧
      ((final text).pushedTo (.incoming accepted)).length = 1 ∧
      (final (idle announced)).pushedTo (.incoming accepted) = [] ∧
      (final text).requestsTo (.outgoing 0) = [] ∧
      (final (idle announced)).requestsTo (.outgoing 0) = [(.text, hash 97)] ∧
      (final image).answersTo (.outgoing 0) = [some [1]] ∧
      (final (idle get)).answersTo (.outgoing 0) = [none] := by
  intro host dialed accepted clients start copied hash connected announced get copying idle final
    text image
  exact ⟨⟨rfl, rfl⟩, by decide +kernel⟩

end LanMouse.Sync
