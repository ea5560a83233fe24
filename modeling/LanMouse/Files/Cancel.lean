import LanMouse.Files.Reports

/-!
# Whose transfers a cancel reaches

A `FileTransferCancel` names a content by its hash. The registry it is looked up in does not know
which peer a transfer comes from, so the cancel of one peer reaches the transfers that other peers
have under way of the same content. It does not reach any transfer of another content: as long as
the calls that this transfer and those of the same content make to the file system have the same
results, it goes through the same phases and reports the same as without the cancel.
-/
namespace LanMouse.Files

open Proto Client UnixPath FileStore FileSystem Transition

/-- The registry after a cancel, and whether a sender was found in it; `addr` is only logged. -/
def signalInboundFileCancel (cancel : FileTransferCancel) (_addr : SocketAddr)
    (registry : Registry) : Bool × Registry :=
  match registry.lookup cancel.sha256 with
  | some _ => (true, registry.erase cancel.sha256)
  | none => (false, registry)

inductive Message where
  | turn (i : Nat) (a : Answers)
  | cancel (cancel : FileTransferCancel) (addr : SocketAddr)

def World.receive (sha256 : List UInt8 → Hash) (w : World) : Message → World
  | .turn i a => w.step sha256 (.turn i a)
  | .cancel cancel addr =>
    { w with registry := (signalInboundFileCancel cancel addr w.registry).2 }

/-- The phase without the number of the file that is open. -/
def Phase.shape : Phase → Phase
  | .writing bytes path _ written => .writing bytes path 0 written
  | phase => phase

def Task.shape (t : Task) : Task := { t with phase := t.phase.shape }

/-- What the file system says to the call that decides how the task goes on. -/
def Job.fileCall (job : Job) (phase : Phase) (files : Disk) (a : Answers) : Bool :=
  match phase with
  | .probing _ tried => files.exists? (job.candidate tried a.now)
  | .creating _ path => (files.create (keepPartialPath path)).isSome
  | .verified _ path => (files.rename (keepPartialPath path) path).isSome
  | .joined _ (.ok path) => (files.removeFile path).isSome
  | _ => true

/-- The results of the file-system calls that the transfers of the content `sha` make. -/
def World.fileCalls (sha256 : List UInt8 → Hash) (sha : Hash) : World → List Message → List Bool
  | _, [] => []
  | w, m :: ms =>
    let rest := World.fileCalls sha256 sha (w.receive sha256 m) ms
    match m with
    | .turn i a =>
      match w.tasks[i]? with
      | some t => if t.job.inboundSha = sha then t.job.fileCall t.phase w.files a :: rest else rest
      | none => rest
    | .cancel .. => rest

/-! ### One turn in two worlds -/

section Turn

variable {sha256 : List UInt8 → Hash} {t t' : Task} {registry registry' : Registry}
  {files files' : Disk}

/-- Two turns end in the same task, up to the open file, and leave the same sender. -/
structure Turned.Same (r r' : Turned) (sha : Hash) : Prop where
  task : r.task.shape = r'.task.shape
  sender : r.registry.lookup sha = r'.registry.lookup sha

theorem cancelled_congr (t : Task) (i : Nat)
    (sender : registry.lookup t.job.inboundSha = registry'.lookup t.job.inboundSha) :
    t.cancelled i registry = t.cancelled i registry' := by
  simp only [Task.cancelled, sender]

theorem race_same (t : Task) (i : Nat) (a : Answers)
    (sender : registry.lookup t.job.inboundSha = registry'.lookup t.job.inboundSha) :
    (t.race i registry files a).Same (t.race i registry' files' a) t.job.inboundSha := by
  have erased : (registry.erase t.job.inboundSha).lookup t.job.inboundSha =
      (registry'.erase t.job.inboundSha).lookup t.job.inboundSha := by
    rw [AList.lookup_erase, AList.lookup_erase]
  unfold Task.race
  rw [cancelled_congr t i sender]
  cases t.cancelled i registry' with
  | true => exact ⟨rfl, sender⟩
  | false =>
    simp only [Bool.false_eq_true, if_false]
    cases a.fetch with
    | none => exact ⟨rfl, sender⟩
    | some outcome =>
      cases outcome with
      | error e => exact ⟨rfl, erased⟩
      | ok answer =>
        by_cases found : answer.1 = 200
        · simp only [found, if_true]
          exact ⟨rfl, sender⟩
        · simp only [found, if_false]
          exact ⟨rfl, erased⟩

theorem conclude_same (t : Task) (i bytesLen : Nat) (result : Except Failure Path) (a : Answers)
    (sender : registry.lookup t.job.inboundSha = registry'.lookup t.job.inboundSha)
    (call : ∀ path, result = .ok path →
      (files.removeFile path).isSome = (files'.removeFile path).isSome) :
    (t.conclude i bytesLen result registry files a).Same
      (t.conclude i bytesLen result registry' files' a) t.job.inboundSha := by
  have erased : (registry.erase t.job.inboundSha).lookup t.job.inboundSha =
      (registry'.erase t.job.inboundSha).lookup t.job.inboundSha := by
    rw [AList.lookup_erase, AList.lookup_erase]
  cases result with
  | error failure => exact ⟨rfl, erased⟩
  | ok path =>
    have call := call path rfl
    simp only [Task.conclude]
    rw [cancelled_congr (t.report (t.job.applied bytesLen (.ok path))) i sender]
    cases (t.report (t.job.applied bytesLen (.ok path))).cancelled i registry' with
    | false => exact ⟨rfl, erased⟩
    | true =>
      cases a.ok with
      | false => exact ⟨rfl, erased⟩
      | true =>
        simp only [if_true]
        cases removed : files.removeFile path <;> cases removed' : files'.removeFile path <;>
          simp only [removed, removed', Option.isSome_some, Option.isSome_none, reduceCtorEq]
            at call ⊢
        · exact ⟨rfl, erased⟩
        · exact ⟨rfl, erased⟩

theorem shape_eq_cases {phase phase' : Phase} (same : phase.shape = phase'.shape) :
    phase' = phase ∨ ∃ bytes path inode inode' written,
      phase = .writing bytes path inode written ∧ phase' = .writing bytes path inode' written := by
  cases phase <;> cases phase' <;> simp_all [Phase.shape]

theorem writePartial_same (job : Job) (bytes : List UInt8) (path : Path)
    (inode inode' written : Nat) (a : Answers) :
    (job.writePartial sha256 bytes path inode written files a).1.shape =
      (job.writePartial sha256 bytes path inode' written files' a).1.shape := by
  simp only [Job.writePartial]
  split_ifs <;> rfl

theorem blockingCall_same (job : Job) (phase : Phase) (a : Answers)
    (call : job.fileCall phase files a = job.fileCall phase files' a) :
    (job.blockingCall sha256 phase files a).1.shape =
      (job.blockingCall sha256 phase files' a).1.shape := by
  cases phase with
  | writing bytes path inode written => exact writePartial_same job bytes path inode inode written a
  | probing bytes tried =>
    simp only [Job.fileCall] at call
    simp only [Job.blockingCall, Job.probe, call]
  | creating bytes path =>
    simp only [Job.fileCall] at call
    simp only [Job.blockingCall, Job.createPartial]
    cases a.ok with
    | false => rfl
    | true =>
      cases created : files.create (keepPartialPath path) <;>
        cases created' : files'.create (keepPartialPath path) <;>
        simp [created, created', Phase.shape] at call ⊢
  | verified bytes path =>
    simp only [Job.fileCall] at call
    simp only [Job.blockingCall, Job.renamePartial]
    cases a.ok with
    | false => rfl
    | true =>
      cases renamed : files.rename (keepPartialPath path) path <;>
        cases renamed' : files'.rename (keepPartialPath path) path <;>
        simp [renamed, renamed'] at call ⊢
  | removing | spawned | fetching | joined | ended => rfl

theorem blockingTurn_same (job : Job) {phase phase' : Phase} (a : Answers)
    (same : phase.shape = phase'.shape)
    (call : job.fileCall phase files a = job.fileCall phase' files' a) :
    (job.blockingTurn sha256 phase files a).1.shape =
      (job.blockingTurn sha256 phase' files' a).1.shape := by
  unfold Job.blockingTurn
  rcases shape_eq_cases same with rfl | ⟨bytes, path, inode, inode', written, rfl, rfl⟩
  · split
    · rfl
    · exact blockingCall_same job phase' a call
  · cases a.panicked with
    | none => exact writePartial_same job bytes path inode inode' written a
    | some text => rfl

variable (sha256) in
theorem turn_same (i : Nat) (a : Answers) (same : t.shape = t'.shape)
    (sender : registry.lookup t.job.inboundSha = registry'.lookup t.job.inboundSha)
    (call : t.job.fileCall t.phase files a = t'.job.fileCall t'.phase files' a) :
    (t.turn sha256 i registry files a).Same (t'.turn sha256 i registry' files' a)
      t.job.inboundSha := by
  obtain ⟨job, phase, reports, removals⟩ := t
  obtain ⟨job', phase', reports', removals'⟩ := t'
  obtain ⟨rfl, phases, rfl, rfl⟩ : job = job' ∧ phase.shape = phase'.shape ∧ reports = reports' ∧
      removals = removals' := by simpa [Task.shape] using same
  have blocking : ∀ bytes, phase.payload? = some bytes → phase'.payload? = some bytes →
      (Task.turn sha256 ⟨job, phase, reports, removals⟩ i registry files a).Same
        (Task.turn sha256 ⟨job, phase', reports, removals⟩ i registry' files' a)
        job.inboundSha := by
    intro bytes here there
    rw [turn_blocking here, turn_blocking there]
    exact ⟨by simp [Task.shape, blockingTurn_same job a phases call], sender⟩
  rcases shape_eq_cases phases with rfl | ⟨bytes, path, inode, inode', written, rfl, rfl⟩
  · cases phase' with
    | spawned =>
      refine race_same _ i a ?_
      simp
    | fetching => exact race_same _ i a sender
    | joined bytesLen result =>
      refine conclude_same _ i bytesLen result a sender ?_
      rintro path rfl
      exact call
    | ended landed => exact ⟨rfl, sender⟩
    | probing bytes | creating bytes | writing bytes | removing bytes | verified bytes =>
      exact blocking bytes rfl rfl
  · exact blocking bytes rfl rfl

end Turn

/-! ### Two runs -/

theorem lookup_signalInboundFileCancel (cancel : FileTransferCancel) (addr : SocketAddr)
    (registry : Registry) (sha : Hash) :
    (signalInboundFileCancel cancel addr registry).2.lookup sha =
      if sha = cancel.sha256 then none else registry.lookup sha := by
  unfold signalInboundFileCancel
  by_cases same : sha = cancel.sha256
  · subst same
    cases found : registry.lookup cancel.sha256 with
    | none => simp [found]
    | some i => simp
  · rw [if_neg same]
    split
    · exact AList.lookup_erase_ne same
    · rfl

namespace World

variable {sha256 : List UInt8 → Hash} {sha : Hash} {w w' : World}

/-- Two worlds that the transfers of the content `sha` cannot tell apart. -/
structure Alike (sha : Hash) (w w' : World) : Prop where
  jobs : w.tasks.map (·.job) = w'.tasks.map (·.job)
  tasks : ∀ (i : Nat) (t t' : Task), w.tasks[i]? = some t → w'.tasks[i]? = some t' →
    t.job.inboundSha = sha → t.shape = t'.shape
  sender : w.registry.lookup sha = w'.registry.lookup sha

theorem Alike.refl (sha : Hash) (w : World) : Alike sha w w :=
  ⟨rfl, fun i t t' here there _ => by rw [here] at there; cases there; rfl, rfl⟩

theorem Alike.task {i : Nat} {t : Task} (alike : Alike sha w w') (mine : w.tasks[i]? = some t) :
    ∃ t', w'.tasks[i]? = some t' ∧ t'.job = t.job := by
  have jobs := congrArg (·[i]?) alike.jobs
  simp only [List.getElem?_map, mine, Option.map_some] at jobs
  obtain ⟨t', there, same⟩ := Option.map_eq_some_iff.mp jobs.symm
  exact ⟨t', there, same⟩

theorem Alike.symm (alike : Alike sha w w') : Alike sha w' w where
  jobs := alike.jobs.symm
  tasks i t t' here there own := by
    obtain ⟨u, atI, job⟩ := alike.task there
    rw [here] at atI
    cases atI
    exact (alike.tasks i t' t there here (job ▸ own)).symm
  sender := alike.sender.symm

theorem jobs_put {i : Nat} {t : Task} {r : Turned} (mine : w.tasks[i]? = some t)
    (job : r.task.job = t.job) : (w.put i r).tasks.map (·.job) = w.tasks.map (·.job) := by
  refine List.ext_getElem? fun j => ?_
  rw [List.getElem?_map, List.getElem?_map]
  by_cases same : j = i
  · rw [same, tasks_put_self mine, mine, Option.map_some, Option.map_some, job]
  · rw [tasks_put_of_ne same]

variable (sha256) in
/-- A cancel of another content in one of the two worlds. -/
theorem Alike.cancel (alike : Alike sha w w') {cancel : FileTransferCancel}
    (other : sha ≠ cancel.sha256) (addr : SocketAddr) :
    Alike sha (w.receive sha256 (.cancel cancel addr)) w' := by
  refine ⟨alike.jobs, alike.tasks, ?_⟩
  rw [receive, lookup_signalInboundFileCancel, if_neg other]
  exact alike.sender

theorem Alike.cancel_both (alike : Alike sha w w') (cancel : FileTransferCancel)
    (addr : SocketAddr) : Alike sha (w.receive sha256 (.cancel cancel addr))
      (w'.receive sha256 (.cancel cancel addr)) := by
  refine ⟨alike.jobs, alike.tasks, ?_⟩
  simp only [receive, lookup_signalInboundFileCancel, alike.sender]

/-- A turn of a transfer of another content in one of the two worlds. -/
theorem Alike.turn_other (alike : Alike sha w w') {i : Nat} {t : Task} (a : Answers)
    (mine : w.tasks[i]? = some t) (other : t.job.inboundSha ≠ sha) :
    Alike sha (w.receive sha256 (.turn i a)) w' := by
  obtain ⟨job, others⟩ := turn_frame sha256 i w.files a t w.registry
  rw [receive, step_turn mine]
  refine ⟨(jobs_put mine job).trans alike.jobs, fun j u u' atJ there own => ?_,
    (others sha other.symm).trans alike.sender⟩
  obtain ⟨rfl, rfl⟩ | ⟨-, old⟩ := tasks_put atJ
  · exact absurd (job ▸ own) other
  · exact alike.tasks j u u' old there own

theorem Alike.turn_own (alike : Alike sha w w') {i : Nat} {t t' : Task} (a : Answers)
    (mine : w.tasks[i]? = some t) (there : w'.tasks[i]? = some t')
    (own : t.job.inboundSha = sha)
    (call : t.job.fileCall t.phase w.files a = t'.job.fileCall t'.phase w'.files a) :
    Alike sha (w.receive sha256 (.turn i a)) (w'.receive sha256 (.turn i a)) := by
  subst own
  have shapes := alike.tasks i t t' mine there rfl
  obtain ⟨task, sender⟩ := turn_same sha256 i a shapes alike.sender call
  obtain ⟨job, -⟩ := turn_frame sha256 i w.files a t w.registry
  obtain ⟨job', -⟩ := turn_frame sha256 i w'.files a t' w'.registry
  rw [receive, receive, step_turn mine, step_turn there]
  refine ⟨?_, fun j u u' atJ atJ' own => ?_, sender⟩
  · rw [jobs_put mine job, jobs_put there job', alike.jobs]
  · obtain ⟨rfl, rfl⟩ | ⟨apart, old⟩ := tasks_put atJ <;>
      obtain ⟨here, rfl⟩ | ⟨apart', old'⟩ := tasks_put atJ'
    · exact task
    · exact absurd rfl apart'
    · exact absurd here apart
    · exact alike.tasks j u u' old old' own

/-- A turn that finds no task, or one of a transfer of another content, is a turn of that kind in
both worlds; any other makes one file-system call in each. -/
theorem Alike.turn (alike : Alike sha w w') (i : Nat) (a : Answers) (ms : List Message)
    (calls : fileCalls sha256 sha w (.turn i a :: ms) =
      fileCalls sha256 sha w' (.turn i a :: ms)) :
    Alike sha (w.receive sha256 (.turn i a)) (w'.receive sha256 (.turn i a)) ∧
      fileCalls sha256 sha (w.receive sha256 (.turn i a)) ms =
        fileCalls sha256 sha (w'.receive sha256 (.turn i a)) ms := by
  cases mine : w.tasks[i]? with
  | none =>
    have there : w'.tasks[i]? = none := by
      cases there : w'.tasks[i]? with
      | none => rfl
      | some t' =>
        obtain ⟨t, here, -⟩ := alike.symm.task there
        rw [mine] at here
        cases here
    simp only [fileCalls, mine, there] at calls
    refine ⟨?_, calls⟩
    rw [receive, receive, step_turn_none mine, step_turn_none there]
    exact alike
  | some t =>
    obtain ⟨t', there, job⟩ := alike.task mine
    simp only [fileCalls, mine, there, job] at calls
    by_cases own : t.job.inboundSha = sha
    · rw [if_pos own, if_pos own, List.cons.injEq] at calls
      obtain ⟨call, calls⟩ := calls
      refine ⟨alike.turn_own a mine there own ?_, calls⟩
      rw [job]
      exact call
    · rw [if_neg own, if_neg own] at calls
      refine ⟨?_, calls⟩
      have one : Alike sha (w.receive sha256 (.turn i a)) w' := alike.turn_other a mine own
      exact (one.symm.turn_other a there (job ▸ own)).symm

theorem Alike.run (alike : Alike sha w w') {ms : List Message}
    (calls : fileCalls sha256 sha w ms = fileCalls sha256 sha w' ms) :
    Alike sha (run (receive sha256) w ms) (run (receive sha256) w' ms) := by
  induction ms generalizing w w' with
  | nil => exact alike
  | cons m ms ih =>
    cases m with
    | cancel cancel addr => exact ih (alike.cancel_both cancel addr) calls
    | turn i a =>
      obtain ⟨alike, calls⟩ := alike.turn i a ms calls
      exact ih alike calls

theorem jobs_run (sha256 : List UInt8 → Hash) (w : World) (ms : List Message) :
    (run (receive sha256) w ms).tasks.map (·.job) = w.tasks.map (·.job) := by
  induction ms generalizing w with
  | nil => rfl
  | cons m ms ih =>
    refine (ih _).trans ?_
    cases m with
    | cancel cancel addr => rfl
    | turn i a =>
      cases mine : w.tasks[i]? with
      | none => rw [receive, step_turn_none mine]
      | some t =>
        rw [receive, step_turn mine]
        exact jobs_put mine (turn_frame sha256 i w.files a t w.registry).job

theorem exists_task (sha256 : List UInt8 → Hash) {jobs : List Job} {i : Nat} {job : Job}
    (mine : jobs[i]? = some job) (files : Disk) (ms : List Message) :
    ∃ t, (run (receive sha256) (start jobs files) ms).tasks[i]? = some t ∧ t.job = job := by
  have kept := congrArg (·[i]?) (jobs_run sha256 (start jobs files) ms)
  have started : ((start jobs files).tasks.map (·.job))[i]? = some job := by
    simp [start, mine]
  simp only [started, List.getElem?_map] at kept
  exact Option.map_eq_some_iff.mp kept

end World

end LanMouse.Files
