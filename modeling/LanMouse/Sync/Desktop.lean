import LanMouse.Clipboard.Loopback
import LanMouse.Sync.OptOut
import LanMouse.Sync.Switches

/-!
# The service and the clipboard it looks at

The clipboard changes when the local user copies something and when the service writes to it on
behalf of a peer. The poller looks at it twice a second and sends what it sees to the service, in a
channel for each kind of content; the service takes this up when it gets round to it. So what it
takes up may have left the clipboard long ago, and be the service's own writing.

A write is carried out by the poller between two ticks while the service waits for it. What the
poller sees before and after can be counted to the ticks before and after the round, since nothing
of it is taken up meanwhile; so a round of the service and the write in it are one move. What the
clipboard reports after a write is up to the operating system.
-/
namespace LanMouse.Sync

open Proto UnixPath Client Clipboard Files Transition

/-- What is on the clipboard, in up to three forms. -/
structure Contents where
  text : Option String := none
  image : Option ImageBytes := none
  files : Option (List Path) := none
  deriving DecidableEq, Repr

/-- Who put it there. -/
inductive Origin where
  | copied
  | written (cmd : BackendCmd)
  deriving DecidableEq, Repr

/-- The number of a change of the clipboard, and where it came from. -/
structure Stamp where
  number : Nat
  origin : Origin
  deriving DecidableEq, Repr

/-- What the poller saw, and which change of the clipboard it belongs to. -/
structure Look (α : Type) where
  value : α
  stamp : Stamp
  deriving DecidableEq, Repr

/-- `textRx`, `imageRx` and `filesRx` are the channels of the poller. The rest is not in the source:
the announcements of each kind that went out to somebody, by the change they are for; the hashes
that were marked in the text list and the image list; and the reports of the file tasks that were
taken up, with the number of the task; all of these with the time. -/
structure Desktop where
  service : State
  clock : Nat := 0
  contents : Contents := {}
  stamp : Stamp := ⟨0, .copied⟩
  textRx : List (Look String) := []
  imageRx : List (Look ImageBytes) := []
  filesRx : List (Look (List Path)) := []
  announced : Kind → List Stamp := fun _ => []
  textMarks : List (Nat × Hash) := []
  imageMarks : List (Nat × Hash) := []
  reports : List (Nat × Nat × InboundFileApplyResult) := []

/-- Which forms the backend can read; a form that it cannot read is not there for the poller. -/
structure Readable where
  text : Bool := true
  image : Bool := true
  files : Bool := true
  deriving DecidableEq, Repr

/-- In `tick` the user may copy something between the looks of the poller. In `serve` the service
does anything but take up what the poller has sent or ask it for the current text; `left` is what
the clipboard reports if this includes a write. -/
inductive Move where
  | wait (time : Nat)
  | copy (contents : Contents)
  | tick (readable : Readable) (beforeText beforeFiles : Option Contents)
  | text
  | image
  | files (collected filled : Snapshot)
  | recover (answered : Bool)
  | serve (action : Action) (left : Contents)

namespace State

variable (host : Host)

/-- The text is not one of the last ones, and its bytes are to be had. -/
def marksText (s : State) (now : Nat) (addr : SocketAddr) (ct : ClipboardText)
    (a : InboundAnswers) : Bool :=
  !(s.dispatcher.clipboardLru.contains now ct.sha256).1 &&
    (ct.contentInline.isSome || (s.peerConnectionForAddr addr).isSome &&
      (match a.get with
        | .ok (status, _) => status = 200
        | .error _ => false))

/-- What a round marks in the text list. -/
def textMarks (s : State) (now : Nat) : Action → List Hash
  | .dispatch (.text t) _ =>
    if (s.dispatcher.dispatchText host.sha256 now t).events.isEmpty then []
    else [host.sha256 (asBytes t)]
  | .recoverPush (some t) => [host.sha256 (asBytes t)]
  | .inbound addr (.clipboardText ct) a => if s.marksText now addr ct a then [ct.sha256] else []
  | _ => []

/-- What a round marks in the image list. -/
def imageMarks (s : State) : Action → List Hash
  | .imageApplied =>
    match s.imagesApplied with
    | [] => []
    | result :: _ => if result.success then result.inboundSha :: result.postWriteSha.toList else []
  | _ => []

/-- The report that a round takes up. -/
def takenUp (s : State) : Action → List (Nat × InboundFileApplyResult)
  | .fileApplied _ => s.filesApplied.take 1
  | _ => []

/-- Between two states an announcement of the kind went out. -/
def announcedSince (before after : State) (k : Kind) : Bool :=
  (after.sent.drop before.sent.length).any fun m => isAnnouncement m.2 && eventKind m.2 = some k

/-- What was written to the clipboard between two states. -/
def writtenSince (before after : State) : Option BackendCmd :=
  (after.clipboard.drop before.clipboard.length).getLast?

end State

namespace Desktop

variable (host : Host)

def put (d : Desktop) (contents : Contents) (origin : Origin) : Desktop :=
  { d with contents, stamp := ⟨d.stamp.number + 1, origin⟩ }

def copy (d : Desktop) (contents : Option Contents) : Desktop :=
  match contents with
  | some contents => d.put contents .copied
  | none => d

/-! ### The poller -/

def lookText (d : Desktop) (readable : Bool) : Desktop :=
  match d.contents.text with
  | some text => if readable then { d with textRx := d.textRx ++ [⟨text, d.stamp⟩] } else d
  | none => d

def lookImage (d : Desktop) (readable : Bool) : Desktop :=
  match d.contents.image with
  | some image => if readable then { d with imageRx := d.imageRx ++ [⟨image, d.stamp⟩] } else d
  | none => d

def lookFiles (d : Desktop) (readable : Bool) : Desktop :=
  match d.contents.files with
  | some paths => if readable then { d with filesRx := d.filesRx ++ [⟨paths, d.stamp⟩] } else d
  | none => d

/-- A tick of `clipboard_poller`: the text is only looked at if there was no image. -/
def tick (d : Desktop) (readable : Readable) (beforeText beforeFiles : Option Contents) : Desktop :=
  let imageHit := readable.image && d.contents.image.isSome
  let d := (d.lookImage readable.image).copy beforeText
  let d := (if imageHit then d else d.lookText readable.text).copy beforeFiles
  d.lookFiles readable.files

/-! ### The service -/

/-- One round of the service, which is about the change `stamp`. -/
def round (d : Desktop) (action : Action) (stamp : Stamp) (left : Contents) : Desktop :=
  let s := d.service.step host ⟨d.clock, action⟩
  let d' := { d with
    service := s
    announced := fun k =>
      if d.service.announcedSince s k then d.announced k ++ [stamp] else d.announced k
    textMarks := d.textMarks ++ (d.service.textMarks host d.clock action).map (d.clock, ·)
    imageMarks := d.imageMarks ++ (d.service.imageMarks action).map (d.clock, ·)
    reports := d.reports ++ (d.service.takenUp action).map (d.clock, ·) }
  match d.service.writtenSince s with
  | none => d'
  | some cmd => d'.put left (.written cmd)

/-- The poller answers `CurrentImage` with the image on the clipboard, if it answers. -/
def answer (d : Desktop) : Action → Action
  | .imageTurn i a =>
    .imageTurn i { a with current := a.current.bind fun _ => d.contents.image.map (·.data) }
  | action => action

end Desktop

/-- What the service only does with what it has from the poller. -/
def Action.needsPoller : Action → Bool
  | .dispatch .. | .recoverPush _ => true
  | _ => false

def Desktop.step (host : Host) (d : Desktop) : Move → Desktop
  | .wait time => { d with clock := d.clock + time }
  | .copy contents => d.copy (some contents)
  | .tick readable beforeText beforeFiles => d.tick readable beforeText beforeFiles
  | .text =>
    match d.textRx with
    | [] => d
    | look :: rest =>
      { d with textRx := rest }.round host (.dispatch (.text look.value) fun _ => .error "")
        look.stamp {}
  | .image =>
    match d.imageRx with
    | [] => d
    | look :: rest =>
      { d with imageRx := rest }.round host (.dispatch (.image look.value) fun _ => .error "")
        look.stamp {}
  | .files collected filled =>
    match d.filesRx with
    | [] => d
    | look :: rest =>
      { d with filesRx := rest }.round host (.dispatch (.files look.value collected) filled)
        look.stamp {}
  | .recover answered =>
    d.round host (.recoverPush (if answered then d.contents.text else none)) d.stamp {}
  | .serve action left =>
    if action.needsPoller then d else d.round host (d.answer action) d.stamp left

/-- The service as it starts, with what was copied before. -/
def Desktop.start (toml : Option TomlClipboard) (files : Disk) (contents : Contents) : Desktop where
  service := .start toml files
  contents := contents

end LanMouse.Sync
