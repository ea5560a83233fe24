import LanMouse.Files.Apply
import Mathlib.Data.List.MinMax

/-!
# Every task reports once

While a task runs, nothing but a cancel should make its cancel receiver ready. The registry is keyed
by SHA-256 alone, so this needs the tasks' hashes to be different: a second task with the same hash
drops the sender of the first one, which then takes the dropped sender for a cancel and ends without
a report, or deletes the file it has landed.
-/
namespace LanMouse.Files

open Proto Client UnixPath FileStore Transition

def Phase.hasEnded : Phase → Bool
  | .ended _ => true
  | _ => false

/-- The phases in which the sender of the task's cancel channel is in the registry. -/
def Phase.registered : Phase → Bool
  | .spawned | .ended _ => false
  | _ => true

/-- One report when the task has ended and none before, and no landed file was deleted. -/
def Task.ReportsOnce (t : Task) : Prop :=
  t.removals = [] ∧ t.reports.length = if t.phase.hasEnded then 1 else 0

def Task.Owns (t : Task) (i : Nat) (registry : Registry) : Prop :=
  t.phase.registered → registry.lookup t.job.inboundSha = some i

section Turn

variable {sha256 : List UInt8 → Hash} {t : Task} {i : Nat} {registry : Registry} {files : Disk}
  {a : Answers}

theorem registered_blockingTurn (sha256 : List UInt8 → Hash) (job : Job) {phase : Phase}
    (files : Disk) (a : Answers) {bytes : List UInt8} (blocking : phase.payload? = some bytes) :
    (job.blockingTurn sha256 phase files a).1.registered = true ∧
      (job.blockingTurn sha256 phase files a).1.hasEnded = false := by
  unfold Job.blockingTurn
  split
  · exact ⟨rfl, rfl⟩
  · cases phase with
    | probing bytes tried =>
      simp only [Job.blockingCall, Job.probe]
      split <;> exact ⟨rfl, rfl⟩
    | creating bytes path =>
      simp only [Job.blockingCall, Job.createPartial]
      split <;> exact ⟨rfl, rfl⟩
    | writing bytes path inode written =>
      simp only [Job.blockingCall, Job.writePartial, Job.verify]
      split_ifs <;> exact ⟨rfl, rfl⟩
    | removing bytes path => exact ⟨rfl, rfl⟩
    | verified bytes path =>
      simp only [Job.blockingCall, Job.renamePartial]
      split <;> exact ⟨rfl, rfl⟩
    | spawned | fetching | joined | ended => cases blocking

theorem turn_blocking {bytes : List UInt8} (blocking : t.phase.payload? = some bytes) :
    t.turn sha256 i registry files a =
      ⟨{ t with phase := (t.job.blockingTurn sha256 t.phase files a).1 }, registry,
        (t.job.blockingTurn sha256 t.phase files a).2⟩ := by
  unfold Task.turn
  cases phase : t.phase with
  | probing | creating | writing | removing | verified => rfl
  | spawned | fetching | joined | ended => simp [phase, Phase.payload?] at blocking

/-- A turn keeps the job and leaves the senders of other hashes where they are. -/
structure Turned.Frame (r : Turned) (t : Task) (registry : Registry) : Prop where
  job : r.task.job = t.job
  others : ∀ sha, sha ≠ t.job.inboundSha → r.registry.lookup sha = registry.lookup sha

theorem race_frame (t : Task) (i : Nat) (registry : Registry) (files : Disk) (a : Answers) :
    (t.race i registry files a).Frame t registry := by
  have erased : ∀ sha, sha ≠ t.job.inboundSha →
      (registry.erase t.job.inboundSha).lookup sha = registry.lookup sha :=
    fun sha other => AList.lookup_erase_ne other
  by_cases cancelled : t.cancelled i registry
  · simp only [Task.race, cancelled, if_true]
    exact ⟨rfl, fun _ _ => rfl⟩
  · simp only [Task.race, cancelled, Bool.false_eq_true, if_false]
    split
    · exact ⟨rfl, fun _ _ => rfl⟩
    · split
      · exact ⟨rfl, fun _ _ => rfl⟩
      · exact ⟨rfl, erased⟩
    · exact ⟨rfl, erased⟩

theorem conclude_frame (t : Task) (i bytesLen : Nat) (result : Except Failure Path)
    (registry : Registry) (files : Disk) (a : Answers) :
    (t.conclude i bytesLen result registry files a).Frame t registry := by
  have erased : ∀ sha, sha ≠ t.job.inboundSha →
      (registry.erase t.job.inboundSha).lookup sha = registry.lookup sha :=
    fun sha other => AList.lookup_erase_ne other
  cases result with
  | error failure => exact ⟨rfl, erased⟩
  | ok path =>
    simp only [Task.conclude]
    split
    · split <;> exact ⟨rfl, erased⟩
    · exact ⟨rfl, erased⟩

variable (sha256 i files a) in
theorem turn_frame (t : Task) (registry : Registry) :
    (t.turn sha256 i registry files a).Frame t registry := by
  unfold Task.turn
  split
  · obtain ⟨job, others⟩ := race_frame t i (registry.insert t.job.inboundSha i) files a
    exact ⟨job, fun sha other => (others sha other).trans (AList.lookup_insert_ne other)⟩
  · exact race_frame ..
  · exact conclude_frame ..
  · exact ⟨rfl, fun _ _ => rfl⟩
  · exact ⟨rfl, fun _ _ => rfl⟩

/-- A task that is still registered does not see a cancel while it fetches. -/
theorem race_once (owned : registry.lookup t.job.inboundSha = some i)
    (removals : t.removals = []) (reports : t.reports = []) :
    (t.race i registry files a).task.ReportsOnce ∧
      (t.race i registry files a).task.Owns i (t.race i registry files a).registry := by
  have alive : t.cancelled i registry = false := by simp [Task.cancelled, owned]
  have waiting : ∀ phase : Phase, phase.hasEnded = false → ({ t with phase } : Task).ReportsOnce :=
    fun phase goesOn => ⟨removals, by simp [reports, goesOn]⟩
  have ended : ∀ result, ((t.report result).finish none).ReportsOnce := fun result =>
    ⟨removals, by simp [Task.report, Task.finish, reports, Phase.hasEnded]⟩
  have gone : ∀ (t : Task) (registry : Registry), (t.finish none).Owns i registry :=
    fun t registry registered => by cases registered
  unfold Task.race
  rw [alive]
  simp only [Bool.false_eq_true, if_false]
  split
  · exact ⟨waiting _ rfl, fun _ => owned⟩
  · split_ifs
    · exact ⟨waiting _ rfl, fun _ => owned⟩
    · exact ⟨ended _, gone _ _⟩
  · exact ⟨ended _, gone _ _⟩

theorem conclude_once {bytesLen : Nat} {result : Except Failure Path}
    (owned : registry.lookup t.job.inboundSha = some i) (removals : t.removals = [])
    (reports : t.reports = []) :
    (t.conclude i bytesLen result registry files a).task.ReportsOnce ∧
      (t.conclude i bytesLen result registry files a).task.Owns i
        (t.conclude i bytesLen result registry files a).registry := by
  have ended : ∀ result landed, ((t.report result).finish landed).ReportsOnce :=
    fun result landed => ⟨removals, by simp [Task.report, Task.finish, reports, Phase.hasEnded]⟩
  have gone : ∀ (t : Task) (landed : Option Path) (registry : Registry),
      (t.finish landed).Owns i registry := fun t landed registry registered => by cases registered
  have alive : ∀ result, (t.report result).cancelled i registry = false := fun result => by
    simp [Task.cancelled, Task.report, owned]
  cases result with
  | error failure => exact ⟨ended _ _, gone _ _ _⟩
  | ok path =>
    simp only [Task.conclude, alive, Bool.false_eq_true, if_false]
    exact ⟨ended _ _, gone _ _ _⟩

variable (sha256 files a) in
theorem turn_once (once : t.ReportsOnce) (own : t.Owns i registry) :
    (t.turn sha256 i registry files a).task.ReportsOnce ∧
      (t.turn sha256 i registry files a).task.Owns i
        (t.turn sha256 i registry files a).registry := by
  obtain ⟨removals, reports⟩ := once
  cases phase : t.phase with
  | spawned =>
    rw [phase] at reports
    simp only [Task.turn, phase]
    exact race_once (AList.lookup_insert _) removals (List.eq_nil_of_length_eq_zero reports)
  | fetching =>
    rw [phase] at reports
    simp only [Task.turn, phase]
    exact race_once (own (by rw [phase]; rfl)) removals (List.eq_nil_of_length_eq_zero reports)
  | joined bytesLen result =>
    rw [phase] at reports
    simp only [Task.turn, phase]
    exact conclude_once (own (by rw [phase]; rfl)) removals (List.eq_nil_of_length_eq_zero reports)
  | ended landed =>
    simp only [Task.turn, phase]
    exact ⟨⟨removals, reports⟩, own⟩
  | probing bytes | creating bytes | writing bytes | removing bytes | verified bytes =>
    have blocking : t.phase.payload? = some bytes := by rw [phase]; rfl
    obtain ⟨-, goesOn⟩ := registered_blockingTurn sha256 t.job files a blocking
    rw [turn_blocking blocking]
    refine ⟨⟨removals, ?_⟩, fun _ => own (by rw [phase]; rfl)⟩
    rw [phase] at reports
    rw [goesOn]
    exact reports

/-! ### A task comes to its end -/

/-- How many turns a task in this phase can still take, if what it fetches has at most `bound`
bytes. -/
def Phase.rank (bound : Nat) : Phase → Nat
  | .spawned | .fetching => bound + 10007
  | .probing bytes tried => bytes.length + (10000 - tried) + 6
  | .creating bytes _ => bytes.length + 5
  | .writing bytes _ _ written => bytes.length - written + 4
  | .removing _ _ | .verified _ _ => 3
  | .joined _ _ => 2
  | .ended _ => 0

def Answers.bodyLen (a : Answers) : Nat :=
  match a.fetch with
  | some (.ok (_, body)) => body.length
  | _ => 0

theorem hasEnded_of_rank {bound : Nat} {phase : Phase} (spent : phase.rank bound = 0) :
    phase.hasEnded = true := by
  cases phase with
  | ended landed => rfl
  | spawned | fetching | probing | creating | writing | removing | verified | joined =>
    simp [Phase.rank] at spent

theorem rank_blockingTurn (sha256 : List UInt8 → Hash) (job : Job) {phase : Phase} (files : Disk)
    (a : Answers) (bound : Nat) {bytes : List UInt8} (blocking : phase.payload? = some bytes) :
    (job.blockingTurn sha256 phase files a).1.rank bound < phase.rank bound := by
  unfold Job.blockingTurn
  split
  · next bytes text payload _ =>
    cases phase with
    | probing | creating | writing | removing | verified =>
      simp only [Phase.rank]
      omega
    | spawned | fetching | joined | ended => cases payload
  · cases phase with
    | probing bytes tried =>
      simp only [Job.blockingCall, Job.probe]
      split
      · simp only [Phase.rank]
        omega
      · simp only [Phase.rank]
        omega
    | creating bytes path =>
      simp only [Job.blockingCall, Job.createPartial]
      split
      · simp only [Phase.rank]
        omega
      · simp only [Job.failedPartial, Phase.rank]
        omega
    | writing bytes path inode written =>
      simp only [Job.blockingCall, Job.writePartial, Job.verify, Job.mismatch, Job.failedPartial]
      split_ifs with left
      · have left : 0 < (bytes.drop written).length := List.length_pos_iff.mpr left
        simp only [Phase.rank, List.length_take, List.length_drop] at left ⊢
        omega
      all_goals
        simp only [Phase.rank]
        omega
    | removing bytes path =>
      simp only [Job.blockingCall, Job.removePartial, Job.mismatch, Phase.rank]
      omega
    | verified bytes path =>
      simp only [Job.blockingCall, Job.renamePartial]
      split <;>
      · simp only [Phase.rank]
        omega
    | spawned | fetching | joined | ended => cases blocking

theorem rank_race (t : Task) (i : Nat) (registry : Registry) (files : Disk) {a : Answers}
    {bound : Nat} (short : a.bodyLen ≤ bound) :
    (t.race i registry files a).task.phase.rank bound ≤
      bound + 10007 - if a.fetch.isSome then 1 else 0 := by
  by_cases cancelled : t.cancelled i registry
  · simp [Task.race, cancelled, Task.finish, Phase.rank]
  · simp only [Task.race, cancelled, Bool.false_eq_true, if_false]
    unfold Answers.bodyLen at short
    split
    · simp [Phase.rank, *]
    · next status body fetched =>
      rw [fetched] at short ⊢
      dsimp only at short
      split
      · simp only [Phase.rank, Option.isSome_some, if_true]
        omega
      · simp [Task.finish, Phase.rank]
    · simp [Task.finish, Phase.rank]

theorem conclude_ended (t : Task) (i bytesLen : Nat) (result : Except Failure Path)
    (registry : Registry) (files : Disk) (a : Answers) :
    (t.conclude i bytesLen result registry files a).task.phase.hasEnded = true := by
  cases result with
  | error failure => rfl
  | ok path =>
    simp only [Task.conclude]
    split
    · split <;> rfl
    · rfl

variable (sha256 t i registry files) in
theorem rank_turn {bound : Nat} (short : a.bodyLen ≤ bound) :
    (t.turn sha256 i registry files a).task.phase.rank bound ≤
      t.phase.rank bound - if a.fetch.isSome then 1 else 0 := by
  cases phase : t.phase with
  | spawned | fetching =>
    simp only [Task.turn, phase]
    exact rank_race _ _ _ _ short
  | joined bytesLen result =>
    simp only [Task.turn, phase]
    have ended := conclude_ended t i bytesLen result registry files a
    cases last : (t.conclude i bytesLen result registry files a).task.phase with
    | ended landed => simp [Phase.rank]
    | spawned | fetching | probing | creating | writing | removing | verified | joined =>
      rw [last] at ended
      cases ended
  | ended landed =>
    simp only [Task.turn, phase, Phase.rank]
    omega
  | probing bytes | creating bytes | writing bytes | removing bytes | verified bytes =>
    have blocking : t.phase.payload? = some bytes := by rw [phase]; rfl
    have falls := rank_blockingTurn sha256 t.job files a bound blocking
    rw [turn_blocking blocking]
    rw [phase] at falls ⊢
    dsimp only
    split <;> omega

end Turn

/-! ### Runs of a batch -/

/-- A turn of task `i` in which its fetch, if it waits for it, is done. -/
def Event.counts (i : Nat) : Event → Nat
  | .turn j a => if j = i ∧ a.fetch.isSome then 1 else 0
  | .cancel _ => 0

def Event.bodyLen : Event → Nat
  | .turn _ a => a.bodyLen
  | .cancel _ => 0

namespace World

variable {sha256 : List UInt8 → Hash} {w : World} {i j : Nat} {t u : Task} {a : Answers}

theorem step_turn (mine : w.tasks[i]? = some t) :
    w.step sha256 (.turn i a) = w.put i (t.turn sha256 i w.registry w.files a) := by
  simp [step, mine]

theorem step_turn_none (absent : w.tasks[i]? = none) : w.step sha256 (.turn i a) = w := by
  simp [step, absent]

theorem tasks_put_self {r : Turned} (mine : w.tasks[i]? = some t) :
    (w.put i r).tasks[i]? = some r.task := by
  have inside := (List.getElem?_eq_some_iff.mp mine).1
  simp [put, inside]

theorem tasks_put_of_ne {r : Turned} (other : j ≠ i) : (w.put i r).tasks[j]? = w.tasks[j]? :=
  List.getElem?_set_ne other.symm

theorem tasks_put {r : Turned} (found : (w.put i r).tasks[j]? = some u) :
    j = i ∧ u = r.task ∨ j ≠ i ∧ w.tasks[j]? = some u := by
  simp only [put, List.getElem?_set] at found
  grind

/-- Every task has a hash of its own and its sender in the registry. -/
structure Separate (w : World) : Prop where
  apart : ∀ (i j : Nat) (t u : Task), w.tasks[i]? = some t → w.tasks[j]? = some u →
    t.job.inboundSha = u.job.inboundSha → i = j
  once : ∀ (i : Nat) (t : Task), w.tasks[i]? = some t → t.ReportsOnce
  owns : ∀ (i : Nat) (t : Task), w.tasks[i]? = some t → t.Owns i w.registry

theorem Separate.turn (separate : w.Separate) (i : Nat) (a : Answers) :
    (w.step sha256 (.turn i a)).Separate := by
  cases mine : w.tasks[i]? with
  | none => rwa [step_turn_none mine]
  | some t =>
    rw [step_turn mine]
    obtain ⟨once, owns⟩ :=
      turn_once sha256 w.files a (separate.once i t mine) (separate.owns i t mine)
    obtain ⟨job, others⟩ := turn_frame sha256 i w.files a t w.registry
    refine ⟨fun j k u v atJ atK sameSha => ?_, fun j u atJ => ?_, fun j u atJ => ?_⟩
    · obtain ⟨rfl, rfl⟩ | ⟨-, oldJ⟩ := tasks_put atJ <;>
        obtain ⟨rfl, rfl⟩ | ⟨-, oldK⟩ := tasks_put atK
      · rfl
      · rw [job] at sameSha
        exact separate.apart _ _ _ _ mine oldK sameSha
      · rw [job] at sameSha
        exact separate.apart _ _ _ _ oldJ mine sameSha
      · exact separate.apart _ _ _ _ oldJ oldK sameSha
    · obtain ⟨rfl, rfl⟩ | ⟨-, atJ⟩ := tasks_put atJ
      · exact once
      · exact separate.once j u atJ
    · obtain ⟨rfl, rfl⟩ | ⟨other, atJ⟩ := tasks_put atJ
      · exact owns
      · intro registered
        refine (others _ fun sameSha => ?_).trans (separate.owns j u atJ registered)
        exact other (separate.apart j i u t atJ mine sameSha)

theorem separate_start {jobs : List Job} {files : Disk}
    (distinct : (jobs.map (·.inboundSha)).Nodup) : (start jobs files).Separate := by
  have spawned : ∀ (i : Nat) (t : Task), (start jobs files).tasks[i]? = some t →
      ∃ job, jobs[i]? = some job ∧ t = { job } := by
    intro i t found
    rw [start, List.getElem?_map] at found
    obtain ⟨job, atI, rfl⟩ := Option.map_eq_some_iff.mp found
    exact ⟨job, atI, rfl⟩
  refine ⟨fun i j t u atI atJ sameSha => ?_, fun i t atI => ?_, fun i t atI => ?_⟩
  · obtain ⟨job, jobI, rfl⟩ := spawned i t atI
    obtain ⟨job', jobJ, rfl⟩ := spawned j u atJ
    have inside : i < (jobs.map (·.inboundSha)).length := by
      simpa using (List.getElem?_eq_some_iff.mp jobI).1
    refine (List.getElem?_inj inside distinct).mp ?_
    simpa [jobI, jobJ] using sameSha
  · obtain ⟨job, -, rfl⟩ := spawned i t atI
    exact ⟨rfl, rfl⟩
  · obtain ⟨job, -, rfl⟩ := spawned i t atI
    intro registered
    cases registered

/-- How many turns task `i` can still take. -/
def rank (bound i : Nat) (w : World) : Nat :=
  match w.tasks[i]? with
  | some t => t.phase.rank bound
  | none => 0

theorem rank_step (sha256 : List UInt8 → Hash) {bound : Nat} (i : Nat) (w : World) {e : Event}
    (short : e.bodyLen ≤ bound) : (w.step sha256 e).rank bound i ≤ w.rank bound i - e.counts i := by
  cases e with
  | cancel sha => exact Nat.le_refl _
  | turn j a =>
    cases mine : w.tasks[j]? with
    | none =>
      rw [step_turn_none mine]
      by_cases same : j = i
      · subst same
        simp [rank, mine]
      · simp [Event.counts, same]
    | some t =>
      rw [step_turn mine]
      by_cases same : j = i
      · subst same
        simpa [rank, tasks_put_self mine, mine, Event.counts] using
          rank_turn sha256 t j w.registry w.files short
      · simp [rank, tasks_put_of_ne (Ne.symm same), Event.counts, same]

theorem step_spawned {job : Job} (spawned : w.tasks[i]? = some { job }) :
    w.step sha256 (.turn i {}) =
      w.put i ⟨{ job, phase := .fetching }, w.registry.insert job.inboundSha i, w.files⟩ := by
  rw [step_turn spawned]
  simp [Task.turn, Task.race, Task.cancelled]

theorem step_dropped {job : Job} (fetching : w.tasks[i]? = some { job, phase := .fetching })
    (dropped : w.registry.lookup job.inboundSha ≠ some i) :
    w.step sha256 (.turn i {}) = w.put i ⟨{ job, phase := .ended none }, w.registry, w.files⟩ := by
  rw [step_turn fetching]
  simp [Task.turn, Task.race, Task.cancelled, Task.finish, dropped]

/-- The second of two tasks with one hash drops the sender of the first one, which then ends without
a report. -/
theorem silent_end (sha256 : List UInt8 → Hash) {jobs : List Job} (files : Disk) {i j : Nat}
    (apart : i ≠ j) {job job' : Job} (atI : jobs[i]? = some job) (atJ : jobs[j]? = some job')
    (sameSha : job.inboundSha = job'.inboundSha) :
    (run (step sha256) (start jobs files) [.turn i {}, .turn j {}, .turn i {}]).tasks[i]? =
      some { job, phase := .ended none } := by
  have first : (start jobs files).tasks[i]? = some { job } := by simp [start, atI]
  have second : ∀ r, ((start jobs files).put i r).tasks[j]? = some { job := job' } := fun r => by
    rw [tasks_put_of_ne apart.symm]
    simp [start, atJ]
  have third : ∀ r r', (((start jobs files).put i r).put j r').tasks[i]? = some r.task :=
    fun r r' => by rw [tasks_put_of_ne apart, tasks_put_self first]
  rw [run_cons, step_spawned first, run_cons, step_spawned (second _), run_cons,
    step_dropped (third _ _)]
  · exact tasks_put_self (third _ _)
  · dsimp only [put]
    rw [sameSha, AList.lookup_insert]
    simpa using apart.symm

end World

theorem handleClipboardInboundFiles_sha256 (cf : ClipboardFiles) (addr : SocketAddr)
    (acceptDir : Path) (keepPartial : Bool) :
    (handleClipboardInboundFiles cf addr acceptDir keepPartial).map (·.inboundSha) =
      (actionable cf.entries).map (·.sha256) := by
  unfold handleClipboardInboundFiles handleClipboardInboundFilesDecide
  by_cases none_ : cf.entries = []
  · simp [none_, actionable]
  · by_cases tooLarge : actionable cf.entries = []
    · simp [none_, tooLarge]
    · simp [none_, tooLarge, Function.comp_def]

def longestBody (events : List Event) : Nat := (events.map Event.bodyLen).foldr max 0

theorem bodyLen_le_longestBody {events : List Event} {e : Event} (mem : e ∈ events) :
    e.bodyLen ≤ longestBody events :=
  List.le_max_of_le' 0 (List.mem_map_of_mem mem) (Nat.le_refl _)

theorem World.hasEnded_of_turns {sha256 : List UInt8 → Hash} {jobs : List Job} {files : Disk}
    {events : List Event} {i : Nat} {t : Task}
    (found : (run (World.step sha256) (World.start jobs files) events).tasks[i]? = some t)
    (enough : longestBody events + 10007 ≤ (events.map (Event.counts i)).sum) :
    t.phase.hasEnded = true := by
  have spent := rank_run (World.step sha256) (World.rank (longestBody events) i)
    (Event.counts i) (fun w e mem => w.rank_step sha256 i (bodyLen_le_longestBody mem))
    (World.start jobs files)
  have first :
      (World.start jobs files).rank (longestBody events) i ≤ longestBody events + 10007 := by
    unfold World.rank World.start
    cases atI : jobs[i]? <;> simp [Phase.rank, atI]
  have last : t.phase.rank (longestBody events) = World.rank (longestBody events) i
      (run (World.step sha256) (World.start jobs files) events) := by
    rw [World.rank, found]
  exact hasEnded_of_rank (last.trans (by omega))

/-- Every task of the batch reports exactly once, has ended after enough turns, and deletes no file
it has landed, in every interleaving without a cancel, exactly when the hashes of the entries it
acts on are all different. -/
theorem batch_reports_once_iff (sha256 : List UInt8 → Hash) (cf : ClipboardFiles)
    (addr : SocketAddr) (acceptDir : Path) (keepPartial : Bool) (files : Disk) :
    (∀ events : List Event, (∀ sha, .cancel sha ∉ events) → ∀ (i : Nat) (t : Task),
      (run (World.step sha256)
        (World.start (handleClipboardInboundFiles cf addr acceptDir keepPartial) files)
        events).tasks[i]? = some t →
      t.ReportsOnce ∧
        (longestBody events + 10007 ≤ (events.map (Event.counts i)).sum →
          t.phase.hasEnded = true)) ↔
      ((actionable cf.entries).map (·.sha256)).Nodup := by
  rw [← handleClipboardInboundFiles_sha256 cf addr acceptDir keepPartial]
  generalize handleClipboardInboundFiles cf addr acceptDir keepPartial = jobs
  constructor
  · intro reports
    refine List.pairwise_iff_getElem.mpr fun i j insideI insideJ before sameSha => ?_
    rw [List.length_map] at insideI insideJ
    have silent := World.silent_end sha256 files (Nat.ne_of_lt before)
      (List.getElem?_eq_getElem insideI) (List.getElem?_eq_getElem insideJ) (by simpa using sameSha)
    have once := (reports _ (by simp) i _ silent).1.2
    simp [Phase.hasEnded] at once
  · intro distinct events noCancel i t found
    have turnsOnly : AllMeet (World.step sha256) (fun _ e => ∀ sha, e ≠ .cancel sha)
        (World.start jobs files) events :=
      allMeet_of_forall fun e mem sha cancel => noCancel sha (cancel ▸ mem)
    have separate := inv_run World.Separate (fun w e separate goesOn => ?_)
      (World.separate_start distinct) turnsOnly
    · exact ⟨separate.once i t found, World.hasEnded_of_turns found⟩
    · cases e with
      | turn i a => exact separate.turn i a
      | cancel sha => exact absurd rfl (goesOn sha)

/-- Two entries with one hash. If the second task starts while the first one fetches, the first ends
without a report; if it starts while the first one writes, the first deletes the file it landed. -/
theorem batch_repeat_unreported :
    let sha : Hash := Vector.replicate 32 0
    let cf : ClipboardFiles := ⟨sha, [⟨"a", 0, "text/plain", sha⟩, ⟨"b", 0, "text/plain", sha⟩]⟩
    let jobs := handleClipboardInboundFiles cf ⟨.v4 #v[192, 168, 0, 2], 2268⟩ "/d".toList false
    let after := run (World.step fun _ => sha) (World.start jobs .empty)
    let fetched : Answers := { fetch := some (.ok (200, [])) }
    ((after [.turn 0 {}, .turn 1 {}, .turn 0 {}]).tasks[0]?).map
        (fun t => (t.phase.hasEnded, t.reports)) = some (true, []) ∧
      ((after [.turn 0 fetched, .turn 0 {}, .turn 0 {}, .turn 0 {}, .turn 0 {}, .turn 1 {},
        .turn 0 {}]).tasks[0]?).map (·.removals) = some ["/d/a".toList] := by
  decide +kernel

end LanMouse.Files
