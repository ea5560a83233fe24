import LanMouse.Files.Landing
import LanMouse.Lib.Gather
import LanMouse.Sync.Handlers

/-!
# One selection on the clipboard for each batch

The reports of the file tasks are collected by the fingerprint of the selection they belong to, in
the order in which they come in; the collector that is complete puts the landed paths on the local
clipboard. This goes wrong in three ways. A selection whose fingerprint is still being collected
takes the collector of the one before, so that reports of both get mixed. A task that is cancelled
ends without a report, so that the collector stays for ever, or takes its file away after it has
reported it. And tasks that land their files in another order than they were announced in put them
on the clipboard in that order.

In a run without these, the service does what `Gather.State` describes, and each batch is put on
the clipboard at most once, with its landed paths in the announced order.
-/
namespace LanMouse.Sync

open Proto UnixPath Client Clipboard Files Transition

def Batch.numbers (b : Batch) : List Nat := List.range' b.first b.count

def BackendCmd.files? : BackendCmd → Option (List Path)
  | .setFiles files => some files
  | _ => none

namespace State

def endedTask (s : State) (i : Nat) : Bool := s.world.tasks[i]?.any (·.phase.hasEnded)

/-- The paths of the files that the tasks of a batch have landed, in the order of the entries. -/
def landedPaths (s : State) (b : Batch) : List Path :=
  b.numbers.filterMap fun i => s.world.tasks[i]?.bind (·.phase.landed?)

def injectionsOf (s : State) (n : Nat) : List (Nat × List Path) := s.injections.filter (·.1 = n)

/-- Every selection on the clipboard is that of a batch, at most one for each, and its landed paths
in order; and a batch whose tasks have ended and whose reports have been handled has no
collector. -/
structure Gathered (s : State) : Prop where
  listed : s.clipboard.filterMap BackendCmd.files? = s.injections.map (·.2)
  numbered : ∀ x ∈ s.injections, x.1 < s.batches.length
  once : ∀ n b, s.batches[n]? = some b →
    s.injectionsOf n = [] ∨ s.injectionsOf n = [(n, s.landedPaths b)]
  released : ∀ n b, s.batches[n]? = some b → (∀ i ∈ b.numbers, s.endedTask i) →
    (∀ x ∈ s.filesApplied, x.1 ∉ b.numbers) →
      ∀ fp c, s.pendingFileCollectors.lookup fp = some c → c.batch ≠ n

end State

/-- A task that waits for its fetch, or that has landed its file, has not been cancelled. When it
has landed its file, the tasks before it with the same fingerprint have ended. -/
def undisturbed (w : World) (i : Nat) (t : Task) : Bool :=
  match t.phase with
  | .fetching => !t.cancelled i w.registry
  | .joined _ (.ok _) =>
    !t.cancelled i w.registry && (w.tasks.take i).all fun u =>
      u.job.batchFingerprint ≠ t.job.batchFingerprint || u.phase.hasEnded
  | _ => true

/-- A selection only arrives while no collector has its fingerprint, and a task only has its turn
while nothing has come between. -/
def State.proceeds (s : State) : Action → Bool
  | .inbound _ (.clipboardFiles cf) _ => (s.pendingFileCollectors.lookup cf.fingerprint).isNone
  | .fileTurn i _ => s.world.tasks[i]?.all (undisturbed s.world i)
  | _ => true

/-! ### What a task tells -/

/-- A task that has ended has told what came of it; one that has not has told nothing. -/
def Told (t : Task) : Prop :=
  t.phase.hasEnded = false ∧ t.reports = [] ∨
    ∃ r, t.reports = [r] ∧ t.phase = .ended r.landedPath ∧ r.success = r.landedPath.isSome ∧
      r.batchFingerprint = t.job.batchFingerprint

/-- A turn in which the task tells nothing new, or comes to its end. -/
structure Tells (t t' : Task) : Prop where
  job : t'.job = t.job
  told : Told t'
  news : t'.reports = t.reports ∨ t.reports = [] ∧ ∃ r, t'.reports = [r] ∧
    r.batchFingerprint = t.job.batchFingerprint ∧
      (r.success → ∃ bytesLen path, t.phase = .joined bytesLen (.ok path))

section Turn

variable {sha256 : List UInt8 → Hash} {t : Task} {i : Nat} {registry : Registry} {files : Disk}
  {a : Answers}

theorem tells_waiting (silent : t.reports = []) {phase : Phase} (goesOn : phase.hasEnded = false) :
    Tells t { t with phase } :=
  ⟨rfl, .inl ⟨goesOn, silent⟩, .inl rfl⟩

theorem tells_failed (silent : t.reports = []) {r : InboundFileApplyResult}
    (failed : r.success = false) (nowhere : r.landedPath = none)
    (own : r.batchFingerprint = t.job.batchFingerprint) :
    Tells t ((t.report r).finish none) := by
  have reports : ((t.report r).finish none).reports = [r] := by
    simp [Task.report, Task.finish, silent]
  refine ⟨rfl, .inr ⟨r, reports, ?_, ?_, own⟩, .inr ⟨silent, r, reports, own, ?_⟩⟩
  · rw [nowhere]
    rfl
  · rw [failed, nowhere]
    rfl
  · intro success
    rw [failed] at success
    cases success

theorem race_tells (silent : t.reports = []) (alive : t.cancelled i registry = false) :
    Tells t (t.race i registry files a).task := by
  unfold Task.race
  simp only [alive, Bool.false_eq_true, if_false]
  split
  · exact tells_waiting silent rfl
  · split
    · exact tells_waiting silent rfl
    · exact tells_failed silent rfl rfl rfl
  · exact tells_failed silent rfl rfl rfl

theorem conclude_tells (silent : t.reports = []) {bytesLen : Nat} {result : Except Failure Path}
    (phase : t.phase = .joined bytesLen result)
    (alive : ∀ path, result = .ok path → t.cancelled i registry = false) :
    Tells t (t.conclude i bytesLen result registry files a).task := by
  cases result with
  | error failure => cases failure <;> exact tells_failed silent rfl rfl rfl
  | ok path =>
    have alive' : (t.report (t.job.applied bytesLen (.ok path))).cancelled i registry = false :=
      alive path rfl
    simp only [Task.conclude, alive', Bool.false_eq_true, if_false]
    have reports : ((t.report (t.job.applied bytesLen (.ok path))).finish (some path)).reports =
        [t.job.landed bytesLen path] := by
      simp [Task.report, Task.finish, silent, Job.applied]
    exact ⟨rfl, .inr ⟨_, reports, rfl, rfl, rfl⟩,
      .inr ⟨silent, _, reports, rfl, fun _ => ⟨bytesLen, path, phase⟩⟩⟩

theorem turn_tells {w : World} (told : Told t) (free : undisturbed w i t) :
    Tells t (t.turn sha256 i w.registry files a).task := by
  obtain ⟨goesOn, silent⟩ | ⟨r, reports, ended, success, own⟩ := told
  · cases phase : t.phase with
    | spawned =>
      simp only [Task.turn, phase]
      exact race_tells silent (by simp [Task.cancelled])
    | fetching =>
      simp only [undisturbed, phase, Bool.not_eq_true'] at free
      simp only [Task.turn, phase]
      exact race_tells silent free
    | joined bytesLen result =>
      simp only [Task.turn, phase]
      refine conclude_tells silent phase fun path landed => ?_
      subst landed
      simp only [undisturbed, phase, Bool.and_eq_true, Bool.not_eq_true'] at free
      exact free.1
    | ended landed =>
      rw [phase] at goesOn
      cases goesOn
    | probing bytes | creating bytes | writing bytes | removing bytes | verified bytes =>
      have blocking : t.phase.payload? = some bytes := by rw [phase]; rfl
      rw [turn_blocking blocking]
      exact tells_waiting silent (registered_blockingTurn sha256 t.job files a blocking).2
  · simp only [Task.turn, ended]
    exact ⟨rfl, .inr ⟨r, reports, ended, success, own⟩, .inl rfl⟩

end Turn

/-! ### The service gathers reports -/

abbrev Gathering := Gather.State Hash InboundFileApplyResult

def FileSetCollector.slot (c : FileSetCollector) : Gather.Slot InboundFileApplyResult :=
  ⟨c.batch, c.expected, c.received⟩

/-- What of the service is about the batches. -/
structure Core where
  tasks : List Task
  batches : List Batch
  collectors : Collectors
  queue : List (Nat × InboundFileApplyResult)
  injections : List (Nat × List Path)
  files : List (List Path)

def State.core (s : State) : Core :=
  ⟨s.world.tasks, s.batches, s.pendingFileCollectors, s.filesApplied, s.injections,
    s.clipboard.filterMap BackendCmd.files?⟩

def Core.injectionsOf (c : Core) (n : Nat) : List (Nat × List Path) :=
  c.injections.filter (·.1 = n)

/-- The core after a batch was put on the clipboard, or was not. -/
def Core.inject (c : Core) (inject : Bool) (n : Nat) (received : List InboundFileApplyResult) :
    Core :=
  { c with
    injections := c.injections ++
      if inject then [(n, received.filterMap (·.landedPath))] else []
    files := c.files ++ if inject then [received.filterMap (·.landedPath)] else [] }

/-- What was put on the clipboard for a batch is what its slot has fired with. -/
def Injected (injections : List (Nat × List Path)) (g : Gathering) (n : Nat) : Prop :=
  injections = [] ∨ ∃ results, (n, results) ∈ g.fired ∧ (∀ r ∈ results, r.success) ∧
    injections = [(n, results.filterMap (·.landedPath))]

structure Mirrors (c : Core) (g : Gathering) : Prop where
  results : g.results = c.tasks.map (·.reports.head?)
  told : ∀ t ∈ c.tasks, Told t
  batches : c.batches = g.batches.map fun b => ⟨b.first, b.count⟩
  keyed : ∀ b ∈ g.batches, ∀ i ∈ b.numbers, ∀ t, c.tasks[i]? = some t →
    t.job.batchFingerprint = b.key
  slots : ∀ k, g.slots k = (c.collectors.lookup k).map FileSetCollector.slot
  queue : g.queue = c.queue
  injected : ∀ n, Injected (c.injectionsOf n) g n
  listed : c.files = c.injections.map (·.2)

abbrev Gathering.Sound (g : Gathering) : Prop :=
  Gather.State.Sound InboundFileApplyResult.batchFingerprint InboundFileApplyResult.success g

section Mirror

variable {c c' : Core} {g : Gathering} {t t' : Task} {i n : Nat}

theorem Mirrors.result (mirrors : Mirrors c g) (i : Nat) :
    g.result i = c.tasks[i]?.bind (·.reports.head?) := by
  unfold Gather.State.result
  rw [mirrors.results, List.getElem?_map]
  cases c.tasks[i]? <;> rfl

/-- A task whose result is there has ended where it said. -/
theorem Mirrors.landed (mirrors : Mirrors c g) (found : c.tasks[i]? = some t)
    {r : InboundFileApplyResult} (done : g.result i = some r) :
    t.phase.hasEnded ∧ t.phase.landed? = r.landedPath := by
  rw [mirrors.result, found] at done
  obtain ⟨-, silent⟩ | ⟨r', reports, ended, -⟩ := mirrors.told t (List.mem_of_getElem? found)
  · simp [silent] at done
  · simp only [Option.bind_some, reports, List.head?_cons, Option.some.injEq] at done
    subst done
    rw [ended]
    exact ⟨rfl, rfl⟩

theorem Mirrors.finished (mirrors : Mirrors c g) (found : c.tasks[i]? = some t)
    (ended : t.phase.hasEnded) : (g.result i).isSome := by
  rw [mirrors.result, found]
  obtain ⟨goesOn, -⟩ | ⟨r, reports, -⟩ := mirrors.told t (List.mem_of_getElem? found)
  · rw [goesOn] at ended
    cases ended
  · simp [reports]

theorem Mirrors.length (mirrors : Mirrors c g) : g.results.length = c.tasks.length := by
  rw [mirrors.results, List.length_map]

/-! ### The three steps of the gathering -/

variable {cf : ClipboardFiles}

/-- The batch is started. -/
theorem Mirrors.spawn (mirrors : Mirrors c g) (sound : g.Sound) {jobs : List Job}
    (own : ∀ job ∈ jobs, job.batchFingerprint = cf.fingerprint) :
    Mirrors { c with
      tasks := c.tasks ++ jobs.map fun job => { job }
      batches := c.batches ++ [⟨c.tasks.length, jobs.length⟩]
      collectors := c.collectors.insert cf.fingerprint
        { expected := jobs.length, batch := c.batches.length } }
      (g.spawn cf.fingerprint jobs.length) where
  results := by
    have silent : (jobs.map fun job => ({ job } : Task)).map (·.reports.head?) =
        List.replicate jobs.length none := by
      rw [List.map_map]
      exact List.map_const' ..
    simp only [Gather.State.spawn, List.map_append, mirrors.results, silent]
  told := by
    intro t mem
    obtain old | new := List.mem_append.mp mem
    · exact mirrors.told t old
    · obtain ⟨job, -, rfl⟩ := List.mem_map.mp new
      exact .inl ⟨rfl, rfl⟩
  batches := by
    simp only [Gather.State.spawn, List.map_append, mirrors.batches, mirrors.length, List.map_cons,
      List.map_nil]
  keyed := by
    intro b mem i inside t found
    obtain old | new := List.mem_append.mp mem
    · have below := sound.lt_length old inside
      rw [mirrors.length] at below
      rw [List.getElem?_append_left below] at found
      exact mirrors.keyed b old i inside t found
    · cases List.mem_singleton.mp new
      have above := (List.mem_range'_1.mp inside).1
      rw [mirrors.length] at above
      rw [List.getElem?_append_right above] at found
      obtain ⟨job, mem, rfl⟩ := List.mem_map.mp (List.mem_of_getElem? found)
      exact own job mem
  slots := by
    intro k
    simp only [Gather.State.spawn]
    by_cases same : k = cf.fingerprint
    · subst same
      have length : g.batches.length = c.batches.length := by
        rw [mirrors.batches, List.length_map]
      simp [AList.lookup_insert, FileSetCollector.slot, length]
    · rw [Function.update_of_ne same, AList.lookup_insert_ne same]
      exact mirrors.slots k
  queue := mirrors.queue
  injected := mirrors.injected
  listed := mirrors.listed

/-- A task has a turn. -/
theorem Mirrors.turn (mirrors : Mirrors c g) (found : c.tasks[i]? = some t) (tells : Tells t t')
    (news : List (Nat × InboundFileApplyResult)) :
    Mirrors { c with tasks := c.tasks.set i t', queue := c.queue ++ news }
      { g with results := g.results.set i t'.reports.head?, queue := g.queue ++ news } where
  results := by rw [mirrors.results, List.map_set]
  told := by
    intro u mem
    obtain old | rfl := List.mem_or_eq_of_mem_set mem
    · exact mirrors.told u old
    · exact tells.told
  batches := mirrors.batches
  keyed := by
    intro b mem j inside u there
    have old := mirrors.keyed b mem j inside
    rw [List.getElem?_set] at there
    split_ifs at there with same below
    · subst same
      cases there
      rw [tells.job]
      exact old t found
    · exact old u there
  slots := mirrors.slots
  queue := by rw [mirrors.queue]
  injected := mirrors.injected
  listed := mirrors.listed

/-- What the gathering makes of a turn. -/
theorem Mirrors.exists_turn (mirrors : Mirrors c g) (sound : g.Sound) (found : c.tasks[i]? = some t)
    (tells : Tells t t')
    (inOrder : ∀ bytesLen path, t.phase = .joined bytesLen (.ok path) → ∀ j < i, ∀ u,
      c.tasks[j]? = some u → u.job.batchFingerprint = t.job.batchFingerprint → u.phase.hasEnded) :
    ∃ g', Mirrors { c with
      tasks := c.tasks.set i t'
      queue := c.queue ++ (t'.reports.drop t.reports.length).map fun r => (i, r) } g' ∧
      g'.Sound := by
  have running : g.results[i]? = some t.reports.head? := by
    rw [mirrors.results, List.getElem?_map, found]
    rfl
  obtain same | ⟨silent, r, reports, own, success⟩ := tells.news
  · have kept : g.results.set i t'.reports.head? = g.results := by
      obtain ⟨inside, there⟩ := List.getElem?_eq_some_iff.mp running
      rw [same, ← there]
      exact List.set_getElem_self inside
    have mirrors' := mirrors.turn found tells []
    rw [kept] at mirrors'
    exact ⟨g, by simpa [same] using mirrors', sound⟩
  · have mirrors' := mirrors.turn found tells [(i, r)]
    rw [reports] at mirrors'
    refine ⟨g.finish i r, by simpa [silent, reports, Gather.State.finish] using mirrors',
      sound.finish ⟨?_, ?_, ?_⟩⟩
    · rw [running, silent]
      rfl
    · intro b mem inside
      rw [own]
      exact mirrors.keyed b mem i inside t found
    · intro landed b mem inside j inside' before
      obtain ⟨bytesLen, path, phase⟩ := success landed
      have below := sound.lt_length mem inside'
      rw [mirrors.length] at below
      have there := List.getElem?_eq_getElem below
      have key := mirrors.keyed b mem j inside' _ there
      have key' := mirrors.keyed b mem i inside t found
      exact mirrors.finished there
        (inOrder bytesLen path phase j before _ there (key.trans key'.symm))

/-- The next report goes into its slot. -/
theorem Mirrors.keep (mirrors : Mirrors c g) {k : Hash} {collector : FileSetCollector}
    (r : InboundFileApplyResult) (rest : List (Nat × InboundFileApplyResult)) :
    Mirrors { c with
      queue := rest
      collectors := c.collectors.insert k
        { collector with received := collector.received ++ [r] } }
      (g.keep k collector.slot r rest) where
  results := mirrors.results
  told := mirrors.told
  batches := mirrors.batches
  keyed := mirrors.keyed
  slots := by
    intro k'
    simp only [Gather.State.keep]
    by_cases same : k' = k
    · subst same
      simp [AList.lookup_insert, FileSetCollector.slot]
    · rw [Function.update_of_ne same, AList.lookup_insert_ne same]
      exact mirrors.slots k'
  queue := rfl
  injected := mirrors.injected
  listed := mirrors.listed

/-- The last report of a batch: its paths may be put on the clipboard if all tasks succeeded. -/
theorem Mirrors.fire (mirrors : Mirrors c g) (sound : g.Sound) {k : Hash}
    {collector : FileSetCollector} (held : g.slots k = some collector.slot)
    (r : InboundFileApplyResult) (rest : List (Nat × InboundFileApplyResult)) (inject : Bool)
    (success : inject → ∀ r' ∈ collector.received ++ [r], r'.success) :
    Mirrors (({ c with queue := rest, collectors := c.collectors.erase k } : Core).inject inject
        collector.batch (collector.received ++ [r]))
      (g.fire k collector.slot r rest) where
  results := mirrors.results
  told := mirrors.told
  batches := mirrors.batches
  keyed := mirrors.keyed
  slots := by
    intro k'
    simp only [Gather.State.fire, Core.inject]
    by_cases same : k' = k
    · subst same
      simp [AList.lookup_erase]
    · rw [Function.update_of_ne same, AList.lookup_erase_ne same]
      exact mirrors.slots k'
  queue := rfl
  injected := by
    intro n
    have before : ∀ injections, Injected injections g n →
        Injected injections (g.fire k collector.slot r rest) n := by
      rintro injections (none_ | ⟨results, fired, all, eq⟩)
      · exact .inl none_
      · exact .inr ⟨results, List.mem_append_left _ fired, all, eq⟩
    cases inject with
    | false => simpa [Core.injectionsOf, Core.inject] using before _ (mirrors.injected n)
    | true =>
      by_cases own : collector.batch = n
      · subst own
        have unfired : c.injectionsOf collector.batch = [] := by
          obtain none_ | ⟨results, fired, -⟩ := mirrors.injected collector.batch
          · exact none_
          · have unfired := sound.unfired held
            simp only [Gather.State.firedFor, List.filter_eq_nil_iff] at unfired
            exact absurd (decide_eq_true rfl) (unfired _ fired)
        refine .inr ⟨_, List.mem_append_right _ List.mem_cons_self, success rfl, ?_⟩
        simp only [Core.injectionsOf] at unfired
        simp [Core.injectionsOf, Core.inject, unfired, FileSetCollector.slot]
      · simpa [Core.injectionsOf, Core.inject, own] using before _ (mirrors.injected n)
  listed := by
    simp only [Core.inject, mirrors.listed]
    cases inject <;> simp

end Mirror

/-! ### The steps of the service -/

section Step

variable {host : Host} {s : State} {now : Nat}

def State.Mirrored (s : State) : Prop := ∃ g : Gathering, Mirrors s.core g ∧ g.Sound

theorem State.Mirrored.of_core {s' : State} (mirrored : s.Mirrored) (same : s'.core = s.core) :
    s'.Mirrored := by
  obtain ⟨g, mirrors, sound⟩ := mirrored
  exact ⟨g, same ▸ mirrors, sound⟩

theorem mirrored_start (toml : Option TomlClipboard) (files : Disk) :
    (State.start toml files).Mirrored :=
  ⟨.empty, ⟨rfl, nofun, rfl, nofun, fun _ => rfl, rfl, fun _ => .inl rfl, rfl⟩,
    Gather.State.sound_empty⟩

theorem State.Mirrored.inboundFiles (mirrored : s.Mirrored) (cf : ClipboardFiles)
    (addr : SocketAddr) (a : InboundAnswers)
    (free : s.pendingFileCollectors.lookup cf.fingerprint = none) :
    (s.handleClipboardInboundFiles host now cf addr a).Mirrored := by
  obtain ⟨lru, eq | ⟨jobs, conn, some_, own, eq⟩⟩ := s.inboundFiles_eq host now cf addr a
  · rw [eq]
    exact mirrored.of_core rfl
  · obtain ⟨g, mirrors, sound⟩ := mirrored
    have opened : g.slots cf.fingerprint = none := by
      rw [mirrors.slots]
      simp only [State.core, free, Option.map_none]
    rw [eq]
    exact ⟨_, mirrors.spawn sound own, sound.spawn opened (List.length_pos_iff.mpr some_)⟩

theorem core_inboundText (s : State) (ct : ClipboardText) (addr : SocketAddr) (a : InboundAnswers) :
    (s.handleClipboardInboundText now ct addr a).core = s.core := by
  obtain ⟨dispatcher, requests, written, eq, -⟩ := s.inboundText_eq now ct addr a
  rw [eq]
  cases written <;> simp [State.core, BackendCmd.files?]

theorem core_inboundImage (s : State) (ci : ClipboardImage) (addr : SocketAddr) :
    (s.handleClipboardInboundImage now ci addr).core = s.core := by
  obtain ⟨dispatcher, imageTasks, requests, eq⟩ := s.inboundImage_eq now ci addr
  rw [eq]
  rfl

theorem core_imageTurn (s : State) (i : Nat) (a : ImageAnswers) :
    (s.imageTurn host i a).core = s.core := by
  obtain ⟨imageTasks, imagesApplied, written, eq, only⟩ := s.imageTurn_eq host i a
  rw [eq]
  cases written with
  | none => simp [State.core]
  | some cmd =>
    obtain ⟨t, bytes, -, -, -, rfl⟩ := only cmd rfl
    obtain ⟨mime, image⟩ | image := t.command_cases bytes <;>
      simp [State.core, image, BackendCmd.files?]

theorem core_imageApplied (s : State) (result : InboundImageApplyResult) :
    (s.handleInboundImageApplied now result).core = s.core := by
  obtain ⟨dispatcher, eq⟩ := s.imageApplied_eq now result
  rw [eq]
  rfl

theorem State.Mirrored.fileTurn (mirrored : s.Mirrored) (i : Nat) (a : Answers)
    (free : s.world.tasks[i]?.all (undisturbed s.world i)) : (s.fileTurn host i a).Mirrored := by
  cases found : s.world.tasks[i]? with
  | none =>
    refine mirrored.of_core ?_
    simp [State.fileTurn, State.core, World.receive, World.step_turn_none found, found, newReports]
  | some t =>
    simp only [found, Option.all_some] at free
    obtain ⟨g, mirrors, sound⟩ := mirrored
    have tells : Tells t (t.turn host.sha256 i s.world.registry s.world.files a).task :=
      turn_tells (mirrors.told t (List.mem_of_getElem? found)) free
    obtain ⟨g', mirrors', sound'⟩ := mirrors.exists_turn sound found tells fun bytesLen path phase
        j before u there same => by
      simp only [undisturbed, phase, Bool.and_eq_true, List.all_eq_true] at free
      have mem : u ∈ s.world.tasks.take i := by
        refine List.mem_of_getElem? (i := j) ?_
        rw [List.getElem?_take_of_lt before]
        exact there
      simpa [same] using free.2 u mem
    refine ⟨g', ?_, sound'⟩
    have stepped : s.world.receive host.sha256 (.turn i a) = _ := World.step_turn found
    have after := World.tasks_put_self
      (r := t.turn host.sha256 i s.world.registry s.world.files a) found
    simp only [State.fileTurn, State.core, stepped, after, found]
    exact mirrors'

theorem success_of_decideReinjectSkip {enabled inject : Bool} {last : Option Hash} {fp : Hash}
    {received : List InboundFileApplyResult}
    (none_ : decideReinjectSkip enabled inject last fp received = none) :
    ∀ r ∈ received, r.success := by
  unfold decideReinjectSkip at none_
  split_ifs at none_ with _ _ _ failed
  simpa using failed

theorem core_maybeInject (host : Host) (s : State) (fp : Hash) (c : FileSetCollector)
    (reply : CmdReply) :
    ∃ inject : Bool, (inject → ∀ r ∈ c.received, r.success) ∧
      (s.maybeInjectFilesToClipboard host fp c reply).core =
        s.core.inject inject c.batch c.received := by
  obtain ⟨dispatcher, inject, eq, unskipped⟩ := s.maybeInject_eq host fp c reply
  refine ⟨inject, fun yes => success_of_decideReinjectSkip (unskipped yes).2, ?_⟩
  rw [eq]
  cases inject <;> simp [State.core, Core.inject, BackendCmd.files?]

theorem core_collectors (s : State) (collectors : Collectors) :
    ({ s with pendingFileCollectors := collectors } : State).core = { s.core with collectors } :=
  rfl

/-- The next report is collected: the gathering takes it from its queue. -/
theorem Mirrors.collect {g : Gathering} (mirrors : Mirrors s.core g) (sound : g.Sound) {i : Nat}
    {result : InboundFileApplyResult} {rest : List (Nat × InboundFileApplyResult)}
    (queue : s.filesApplied = (i, result) :: rest) {s' : State}
    (core : s'.core = { s.core with queue := rest }) (reply : CmdReply) :
    Mirrors (s'.collect host result reply).core
      (g.next InboundFileApplyResult.batchFingerprint) := by
  have queue' : g.queue = (i, result) :: rest := mirrors.queue.trans queue
  have collectors : s'.pendingFileCollectors = s.pendingFileCollectors :=
    congrArg Core.collectors core
  have slots := mirrors.slots result.batchFingerprint
  unfold State.collect
  rw [collectors]
  cases held : s.pendingFileCollectors.lookup result.batchFingerprint with
  | none =>
    simp only [State.core, held, Option.map_none] at slots
    simp only [core, Gather.State.next, queue', Gather.State.gather, slots]
    exact ⟨mirrors.results, mirrors.told, mirrors.batches, mirrors.keyed, mirrors.slots, rfl,
      mirrors.injected, mirrors.listed⟩
  | some c =>
    simp only [State.core, held, Option.map_some] at slots
    have expected : c.slot.received.length + 1 = c.slot.expected ↔
        (c.received ++ [result]).length = c.expected := by
      simp [FileSetCollector.slot]
    rw [Gather.State.next_eq queue' slots, if_congr expected rfl rfl]
    by_cases filled : (c.received ++ [result]).length = c.expected
    · simp only [ne_eq, filled, not_true, if_true, if_false]
      obtain ⟨inject, success, core'⟩ := core_maybeInject host
        { s' with pendingFileCollectors := s.pendingFileCollectors.erase result.batchFingerprint }
        result.batchFingerprint { c with received := c.received ++ [result] } reply
      rw [core', core_collectors s', core]
      exact mirrors.fire sound slots result rest inject success
    · simp only [ne_eq, filled, not_false_eq_true, if_true, if_false]
      rw [core_collectors s', core]
      exact mirrors.keep result rest

theorem State.Mirrored.fileApplied (mirrored : s.Mirrored) {i : Nat}
    {result : InboundFileApplyResult} {rest : List (Nat × InboundFileApplyResult)}
    (queue : s.filesApplied = (i, result) :: rest) (reply : CmdReply) :
    ({ s with filesApplied := rest }.handleInboundFilesApplied host now result reply).Mirrored := by
  obtain ⟨g, mirrors, sound⟩ := mirrored
  obtain ⟨lru, eq⟩ := State.filesApplied_eq host { s with filesApplied := rest } now result reply
  rw [eq]
  exact ⟨_, mirrors.collect sound queue rfl reply, sound.next⟩

theorem State.Mirrored.step (mirrored : s.Mirrored) {e : Event} (proceeds : s.proceeds e.action) :
    (s.step host e).Mirrored := by
  obtain ⟨now, action⟩ := e
  cases action with
  | inbound addr event a =>
    cases event with
    | clipboardFiles cf =>
      exact mirrored.inboundFiles cf addr a (Option.isNone_iff_eq_none.mp proceeds)
    | clipboardText ct => exact mirrored.of_core (core_inboundText s ct addr a)
    | clipboardImage ci => exact mirrored.of_core (core_inboundImage s ci addr)
    | _ => exact mirrored.of_core rfl
  | imageTurn i a => exact mirrored.of_core (core_imageTurn s i a)
  | imageApplied =>
    simp only [State.step, State.act]
    split
    · exact mirrored
    · exact mirrored.of_core (core_imageApplied _ _)
  | fileTurn i a => exact mirrored.fileTurn i a proceeds
  | fileApplied reply =>
    simp only [State.step, State.act]
    split
    · exact mirrored
    · next queue => exact mirrored.fileApplied queue reply
  | _ => exact mirrored.of_core rfl

section Gathered

variable {g : Gathering} (mirrors : Mirrors s.core g) (sound : g.Sound)

include mirrors

theorem Mirrors.length_batches : s.batches.length = g.batches.length := by
  have batches : s.batches = g.batches.map fun b => ⟨b.first, b.count⟩ := mirrors.batches
  rw [batches, List.length_map]

theorem Mirrors.exists_batch {n : Nat} {b : Batch} (listed : s.batches[n]? = some b) :
    ∃ b' : Gather.Batch Hash, g.batches[n]? = some b' ∧ b = ⟨b'.first, b'.count⟩ := by
  have batches : s.batches = g.batches.map fun b => ⟨b.first, b.count⟩ := mirrors.batches
  rw [batches, List.getElem?_map] at listed
  obtain ⟨b', there, same⟩ := Option.map_eq_some_iff.mp listed
  exact ⟨b', there, same.symm⟩

include sound

theorem Mirrors.exists_task {n i : Nat} {b : Gather.Batch Hash} (there : g.batches[n]? = some b)
    (mem : i ∈ b.numbers) : ∃ t, s.world.tasks[i]? = some t := by
  have below := sound.lt_length (List.mem_of_getElem? there) mem
  rw [mirrors.length] at below
  exact ⟨_, List.getElem?_eq_getElem below⟩

theorem Mirrors.numbered {x : Nat × List Path} (mem : x ∈ s.injections) :
    x.1 < s.batches.length := by
  rw [mirrors.length_batches]
  obtain none_ | ⟨results, fired, -⟩ := mirrors.injected x.1
  · exact absurd (decide_eq_true rfl) (List.filter_eq_nil_iff.mp none_ x mem)
  · exact sound.below _ fired

/-- What the results of a batch say of the landed files is what its tasks have come to. -/
theorem Mirrors.landedPaths {n : Nat} {b : Gather.Batch Hash} (there : g.batches[n]? = some b)
    (finished : ∀ i ∈ b.numbers, (g.result i).isSome) :
    b.numbers.filterMap (fun i => (g.result i).bind (·.landedPath)) =
      s.landedPaths ⟨b.first, b.count⟩ := by
  refine List.filterMap_congr fun i mem => ?_
  obtain ⟨t, task⟩ := mirrors.exists_task sound there mem
  obtain ⟨r, done⟩ := Option.isSome_iff_exists.mp (finished i mem)
  rw [done, task]
  exact (mirrors.landed task done).2.symm

theorem Mirrors.once {n : Nat} {b : Batch} (listed : s.batches[n]? = some b) :
    s.injectionsOf n = [] ∨ s.injectionsOf n = [(n, s.landedPaths b)] := by
  obtain ⟨b, there, rfl⟩ := mirrors.exists_batch listed
  obtain none_ | ⟨results, fired, success, eq⟩ := mirrors.injected n
  · exact .inl none_
  · have mem : (n, results) ∈ g.firedFor n := List.mem_filter.mpr ⟨fired, decide_eq_true rfl⟩
    obtain none_ | ⟨results', only, finished, sorted⟩ := sound.firedFor_cases there
    · rw [none_] at mem
      cases mem
    · rw [only, List.mem_singleton] at mem
      cases mem
      refine .inr (eq.trans ?_)
      rw [sorted success, List.filterMap_filterMap, mirrors.landedPaths sound there finished]

theorem Mirrors.released {n : Nat} {b : Batch} (listed : s.batches[n]? = some b)
    (ended : ∀ i ∈ b.numbers, s.endedTask i) (handled : ∀ x ∈ s.filesApplied, x.1 ∉ b.numbers)
    {fp : Hash} {c : FileSetCollector} (held : s.pendingFileCollectors.lookup fp = some c) :
    c.batch ≠ n := by
  obtain ⟨b, there, rfl⟩ := mirrors.exists_batch listed
  have slot : g.slots fp = some c.slot := by
    rw [mirrors.slots]
    simp only [State.core, held, Option.map_some]
  refine sound.released there (fun i mem => ?_) ?_ slot
  · obtain ⟨t, task⟩ := mirrors.exists_task sound there mem
    have over_ := ended i mem
    simp only [State.endedTask, task, Option.any_some] at over_
    exact mirrors.finished task over_
  · have queue : g.queue = s.filesApplied := mirrors.queue
    simp only [Gather.State.waiting, queue, List.map_eq_nil_iff, List.filter_eq_nil_iff,
      decide_eq_true_eq]
    exact handled

end Gathered

theorem State.Mirrored.gathered (mirrored : s.Mirrored) : s.Gathered := by
  obtain ⟨g, mirrors, sound⟩ := mirrored
  exact
    { listed := mirrors.listed
      numbered := fun _ mem => mirrors.numbered sound mem
      once := fun _ _ listed => mirrors.once sound listed
      released := fun _ _ listed ended handled _ _ held =>
        mirrors.released sound listed ended handled held }

end Step

/-- In every state of a run in which selections only arrive while their fingerprint is free, no task
that is fetching or has landed its file is cancelled, and the files of a selection land in order,
each batch has been put on the clipboard at most once, with its landed paths in the announced order,
and has no collector once its tasks have ended and their reports are handled. -/
theorem batches_gathered (host : Host) (toml : Option TomlClipboard) (files : Disk)
    (events : List Event)
    (meets : AllMeet (State.step host) (fun s e => s.proceeds e.action) (.start toml files)
      events) :
    Always (State.step host) State.Gathered (.start toml files) events :=
  always_of_allMeet State.Mirrored (fun _ _ mirrored proceeds => mirrored.step proceeds)
    (fun _ mirrored => mirrored.gathered) (mirrored_start toml files) meets

/-- Two files that land one after the other are put on the clipboard. -/
theorem batches_gathered_two :
    let host : Host := ⟨fun bytes => Vector.replicate 32 (bytes.headD 0), "/d".toList⟩
    let addr : SocketAddr := ⟨.v4 #v[192, 168, 0, 2], 2268⟩
    let entry (name : String) (byte : UInt8) : FileEntry :=
      ⟨name, 1, "text/plain", Vector.replicate 32 byte⟩
    let arrives : Action := .inbound addr
      (.clipboardFiles ⟨Vector.replicate 32 9, [entry "a" 1, entry "b" 2]⟩) {}
    let turns (i : Nat) (byte : UInt8) : List Action :=
      List.replicate 8 (.fileTurn i { fetch := some (.ok (200, [byte])) })
    let handled : Action := .fileApplied .done
    let events : List Event := (.links (fun _ => true) (fun _ => none) :: arrives :: turns 0 1 ++
      turns 1 2 ++ [handled, handled]).map fun action => { action }
    Always (State.step host) State.Gathered (.start none .empty) events ∧
      (run (State.step host) (.start none .empty) events).injections =
        [(0, ["/d/a".toList, "/d/b".toList])] := by
  intro host addr entry arrives turns handled events
  exact ⟨batches_gathered host none .empty events (by decide +kernel), by decide +kernel⟩

/-- Files that land in another order are put on the clipboard in that order. A selection that
arrives again while it is collected is put there with a file of the first one. A task that is
cancelled leaves the collector for ever. -/
theorem batches_mixed_up :
    let host : Host := ⟨fun bytes => Vector.replicate 32 (bytes.headD 0), "/d".toList⟩
    let addr : SocketAddr := ⟨.v4 #v[192, 168, 0, 2], 2268⟩
    let entry (name : String) (byte : UInt8) : FileEntry :=
      ⟨name, 1, "text/plain", Vector.replicate 32 byte⟩
    let arrives : Action := .inbound addr
      (.clipboardFiles ⟨Vector.replicate 32 9, [entry "a" 1, entry "b" 2]⟩) {}
    let turns (i : Nat) (byte : UInt8) : List Action :=
      List.replicate 8 (.fileTurn i { fetch := some (.ok (200, [byte])) })
    let handled : Action := .fileApplied .done
    let final (actions : List Action) : State := run (State.step host) (.start none .empty)
      ((.links (fun _ => true) (fun _ => none) :: actions).map fun action => { action })
    let swapped := final (arrives :: turns 1 2 ++ turns 0 1 ++ [handled, handled])
    let again := final (arrives :: turns 0 1 ++ [handled, arrives] ++ turns 1 2 ++ turns 2 1 ++
      turns 3 2 ++ [handled, handled, handled])
    let cancelled := final ([arrives, .fileTurn 0 {},
      .inbound addr (.fileTransferCancel ⟨Vector.replicate 32 1⟩) {}, .fileTurn 0 {}] ++
      turns 1 2 ++ [handled])
    swapped.injections = [(0, ["/d/b".toList, "/d/a".toList])] ∧
      swapped.landedPaths ⟨0, 2⟩ = ["/d/a".toList, "/d/b".toList] ∧
      again.injections = [(1, ["/d/b".toList, "/d/a (1)".toList])] ∧
      again.landedPaths ⟨2, 2⟩ = ["/d/a (1)".toList, "/d/b (1)".toList] ∧
      (cancelled.batches = [⟨0, 2⟩] ∧ cancelled.endedTask 0 ∧ cancelled.endedTask 1 ∧
        cancelled.filesApplied = [] ∧
        (cancelled.pendingFileCollectors.lookup (Vector.replicate 32 9)).map (·.batch) =
          some 0) := by
  decide +kernel

end LanMouse.Sync
