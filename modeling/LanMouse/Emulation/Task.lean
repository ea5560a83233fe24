import LanMouse.Client.Manager
import LanMouse.Emulation.Accepted

/-!
# The emulation task

`EmulationTask` takes the requests of the emulation proxy one after another and passes them on to
the emulation backend. It has to create the backend first, and creates it anew each time emulation
is enabled after a failure; the peers that have a handle get it back in the new backend.

Requests are taken in four places: while the backend is created, while the handles are created
again, in a session, and while emulation is disabled. A step of the task is what it does between two
points where it waits. The proxy may send any request at any time.
-/
namespace LanMouse.Emulation

open Proto Client

inductive ProxyRequest where
  | input (event : InputEvent) (addr : SocketAddr)
  | remove (addr : SocketAddr)
  | terminate
  | reenable
  deriving DecidableEq, Repr

/-- Where the task waits. `recreating` has the handles that are still to be created, `closing`
waits for the backend to terminate, `disabled` for a request to enable emulation again. -/
inductive Phase where
  | creating
  | recreating (emulation : InputEmulation) (rest : List (SocketAddr × EmulationHandle))
  | session (emulation : InputEmulation)
  | closing (emulation : InputEmulation)
  | disabled
  | ended

def Phase.emulation? : Phase → Option InputEmulation
  | .recreating emulation _ | .session emulation | .closing emulation => some emulation
  | .creating | .disabled | .ended => none

/-- What the backend answers to a request: whether it takes the event, how it releases keys, and
whether the creation of a handle that is given up had begun. -/
structure Answer where
  ok : Bool := true
  how : Release
  begun : Bool := false

/-- The task and its end of the channel. `dequeued` lists the requests it has taken, oldest first,
and `owner` tells for which peer a handle was created in the backend. -/
structure EmulationTask where
  exitRequested : Bool := false
  requestRx : List ProxyRequest := []
  handles : AList (fun _ : SocketAddr => EmulationHandle) := ∅
  nextId : EmulationHandle := 0
  phase : Phase := .creating
  dequeued : List ProxyRequest := []
  owner : EmulationHandle → Option SocketAddr := fun _ => none

namespace EmulationTask

/-- The end of `do_emulation`. -/
def leave (s : EmulationTask) : EmulationTask :=
  { s with phase := if s.exitRequested then .ended else .disabled }

/-- `EmulationProxy::terminate` sets the flag before it sends the request. -/
def send (s : EmulationTask) (r : ProxyRequest) : EmulationTask :=
  { s with
    exitRequested := s.exitRequested || decide (r = .terminate)
    requestRx := s.requestRx ++ [r] }

/-- Create a handle in the backend, for a peer. -/
def createFor (s : EmulationTask) (emulation : InputEmulation) (addr : SocketAddr)
    (handle : EmulationHandle) : InputEmulation × EmulationTask :=
  ((emulation.create handle).2,
    if handle ∈ emulation.handles then s
    else { s with owner := Function.update s.owner handle (some addr) })

/-- Go on with `create_clients`, or to the session when no handle is left. -/
def proceed (emulation : InputEmulation) : List (SocketAddr × EmulationHandle) → Phase
  | [] => .session emulation
  | client :: rest => .recreating emulation (client :: rest)

/-- `InputEmulation::new` returns a backend. The handles are created in the order of the hash map,
which is any order. -/
def created (s : EmulationTask) (order : List SocketAddr) : EmulationTask :=
  match s.phase with
  | .creating =>
    if order.Perm s.handles.keys then
      { s with phase := proceed .new (order.filterMap fun addr =>
        (s.handles.lookup addr).map fun handle => (addr, handle)) }
    else s
  | _ => s

def failed (s : EmulationTask) : EmulationTask :=
  match s.phase with
  | .creating => s.leave
  | _ => s

/-- One handle of `create_clients` is created. -/
def recreate (s : EmulationTask) : EmulationTask :=
  match s.phase with
  | .recreating emulation ((addr, handle) :: rest) =>
    let (emulation, s) := s.createFor emulation addr handle
    { s with phase := proceed emulation rest }
  | _ => s

/-- The handle that `create_clients` was about to create when it is told to terminate. -/
def abandon (s : EmulationTask) (emulation : InputEmulation)
    (rest : List (SocketAddr × EmulationHandle)) (begun : Bool) : EmulationTask :=
  match rest, begun with
  | (addr, handle) :: _, true =>
    let (emulation, s) := s.createFor emulation addr handle
    { s with phase := .session emulation }
  | _, _ => { s with phase := .session emulation }

/-- The handle of a peer; a peer without one gets a new one. -/
def handleOf (s : EmulationTask) (emulation : InputEmulation) (addr : SocketAddr) :
    EmulationHandle × InputEmulation × EmulationTask :=
  match s.handles.lookup addr with
  | some handle => (handle, emulation, s)
  | none =>
    let handle := s.nextId
    let (emulation, s) := { s with nextId := handle + 1 }.createFor emulation addr handle
    (handle, emulation, { s with handles := s.handles.insert addr handle })

/-- One round of `do_emulation_session`. -/
def doEmulationSession (s : EmulationTask) (emulation : InputEmulation) (r : ProxyRequest)
    (answer : Answer) : EmulationTask :=
  match r with
  | .input event addr =>
    let (handle, emulation, s) := s.handleOf emulation addr
    let (ok, emulation) := emulation.consume event handle answer.ok
    { s with phase := if ok then .session emulation else .closing emulation }
  | .remove addr =>
    match s.handles.lookup addr with
    | some handle =>
      { s with
        handles := s.handles.erase addr
        phase := .session (emulation.destroy handle answer.how) }
    | none => s
  | .terminate => { s with phase := .closing emulation }
  | .reenable => s

/-- The loop of `run` that waits for emulation to be enabled again. -/
def waitForReenable (s : EmulationTask) : ProxyRequest → EmulationTask
  | .reenable => { s with phase := .creating }
  | .terminate => { s with phase := .ended }
  | .input _ _ | .remove _ => s

def take (s : EmulationTask) (r : ProxyRequest) (rest : List ProxyRequest) : EmulationTask :=
  { s with requestRx := rest, dequeued := s.dequeued ++ [r] }

/-- Take the next request, if there is one and the task is waiting for it. `wait_for_termination`
drops all but one. -/
def dequeue (s : EmulationTask) (answer : Answer) : EmulationTask :=
  match s.requestRx with
  | [] => s
  | r :: rest =>
    match s.phase with
    | .creating => if r = .terminate then (s.take r rest).leave else s.take r rest
    | .recreating emulation clients =>
      if r = .terminate then (s.take r rest).abandon emulation clients answer.begun
      else s.take r rest
    | .session emulation => (s.take r rest).doEmulationSession emulation r answer
    | .disabled => (s.take r rest).waitForReenable r
    | .closing _ | .ended => s

/-- `InputEmulation::terminate` returns. -/
def closed (s : EmulationTask) : EmulationTask :=
  match s.phase with
  | .closing _ => s.leave
  | _ => s

end EmulationTask

inductive TaskEvent where
  | send (r : ProxyRequest)
  | created (order : List SocketAddr)
  | failed
  | recreate
  | dequeue (answer : Answer)
  | closed

def EmulationTask.step (s : EmulationTask) : TaskEvent → EmulationTask
  | .send r => s.send r
  | .created order => s.created order
  | .failed => s.failed
  | .recreate => s.recreate
  | .dequeue answer => s.dequeue answer
  | .closed => s.closed

end LanMouse.Emulation
