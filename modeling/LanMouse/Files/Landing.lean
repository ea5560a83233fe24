import LanMouse.Files.Reports

/-!
# Tasks that land beside each other

A task picks its path by looking for a name that does not exist, and writes to that name with
`.partial` behind it without looking. As long as every task settles on a path that is free for it,
with its `.partial` path, the tasks do not get in each other's way: what has landed stays, has the
right hash, and the files that were there before are untouched.
-/
namespace LanMouse.Files

open Proto Client UnixPath FileStore FileSystem Transition

theorem keepPartialPath_ne (p : Path) : keepPartialPath p ≠ p := by
  intro same
  have lengths := congrArg List.length same
  rw [keepPartialPath, List.length_append] at lengths
  simp at lengths

namespace Phase

/-- The paths that the task will still write, rename or take for its own. -/
def reserved : Phase → List Path
  | .creating _ p | .writing _ p _ _ | .removing _ p | .verified _ p => [p, keepPartialPath p]
  | .joined _ (.ok p) | .ended (some p) => [p]
  | _ => []

/-- Where the task has landed its file. -/
def landed? : Phase → Option Path
  | .joined _ (.ok p) => some p
  | .ended landed => landed
  | _ => none

/-- The state of the files a task in this phase relies on. -/
def Holds (sha256 : List UInt8 → Hash) (sha : Hash) (files : Disk) : Phase → Prop
  | .writing bytes p inode written =>
    files.entry (keepPartialPath p) = some (.file inode) ∧
      files.read (keepPartialPath p) = some (bytes.take written) ∧ written ≤ bytes.length
  | .verified bytes p => files.read (keepPartialPath p) = some bytes ∧ sha256 bytes = sha
  | .joined _ (.ok p) | .ended (some p) => ∃ bytes, files.read p = some bytes ∧ sha256 bytes = sha
  | _ => True

end Phase

/-- The path on which a turn settles: the first that does not exist, or the one after the last
number. -/
def Task.settlesOn (t : Task) (files : Disk) (a : Answers) : Option Path :=
  match t.phase with
  | .probing _ tried =>
    let path := t.job.candidate tried a.now
    if tried ≤ 9999 ∧ files.exists? path then none else some path
  | _ => none

/-! ### Where a task settles -/

theorem resolveUniquePath_eq_candidate (job : Job) (taken : Path → Bool) (now : Nat) :
    ∃ tried ≤ 10000, resolveUniquePath job.acceptDir job.name taken now = job.candidate tried now ∧
      (∀ n < tried, taken (job.candidate n now) = true) ∧
      (tried ≤ 9999 → taken (job.candidate tried now) = false) := by
  have numbered : ∀ n, 1 ≤ n → n ≤ 9999 → job.candidate n now =
      join job.acceptDir (numberedName (sanitizeFilename job.name) n) := by
    intro n low high
    simp only [Job.candidate, Nat.ne_of_gt low, high, if_true, if_false]
  have stamped : job.candidate 10000 now =
      join job.acceptDir (numberedName (sanitizeFilename job.name) now) := by
    simp [Job.candidate]
  unfold resolveUniquePath
  cases plain : taken (join job.acceptDir (sanitizeFilename job.name)) with
  | false => exact ⟨0, by omega, by simp [Job.candidate, plain], by simp, fun _ => plain⟩
  | true =>
    simp only [plain, Bool.not_true, Bool.false_eq_true, if_false]
    split
    · next n found =>
      obtain ⟨free, mem, before⟩ := List.find?_range'_eq_some.mp found
      obtain ⟨low, high⟩ : 1 ≤ n ∧ n ≤ 9999 := by
        have := List.mem_range'_1.mp mem
        omega
      refine ⟨n, by omega, (numbered n low high).symm, fun m less => ?_, fun _ => ?_⟩
      · rcases Nat.eq_zero_or_pos m with rfl | pos
        · exact plain
        · rw [numbered m pos (by omega)]
          simpa using before m pos less
      · rw [numbered n low high]
        simpa using free
    · next found =>
      refine ⟨10000, by omega, stamped.symm, fun m less => ?_, by omega⟩
      rcases Nat.eq_zero_or_pos m with rfl | pos
      · exact plain
      · rw [numbered m pos (by omega)]
        have := List.find?_range'_eq_none.mp found m pos (by omega)
        simpa using this

/-- When no file comes or goes meanwhile, a task settles on the path `resolve_unique_path` gives. -/
theorem probe_settles (sha256 : List UInt8 → Hash) (job : Job) (bytes : List UInt8) (files : Disk)
    (a : Answers) :
    ∃ n ≤ 10001, (fun phase => (job.blockingCall sha256 phase files a).1)^[n] (.probing bytes 0) =
      .creating bytes (resolveUniquePath job.acceptDir job.name files.exists? a.now) := by
  obtain ⟨tried, most, settles, taken, free⟩ :=
    resolveUniquePath_eq_candidate job files.exists? a.now
  have probing : ∀ n ≤ tried,
      (fun phase => (job.blockingCall sha256 phase files a).1)^[n] (.probing bytes 0) =
        .probing bytes n := by
    intro n inside
    induction n with
    | zero => rfl
    | succ n ih =>
      rw [Function.iterate_succ_apply', ih (by omega)]
      have again : n ≤ 9999 ∧ files.exists? (job.candidate n a.now) = true :=
        ⟨by omega, taken n inside⟩
      simp only [Job.blockingCall, Job.probe, again, and_self, if_true]
  refine ⟨tried + 1, by omega, ?_⟩
  rw [Function.iterate_succ_apply', probing tried (Nat.le_refl _), settles]
  simp only [Job.blockingCall, Job.probe]
  rw [if_neg]
  rintro ⟨high, exists_⟩
  simp [free high] at exists_

namespace World

/-- The path and its `.partial` path did not exist in `base`, and no other task has reserved
them. -/
def FreeFor (base : Disk) (w : World) (i : Nat) (p : Path) : Prop :=
  (base.entry p = none ∧ base.entry (keepPartialPath p) = none) ∧
    ∀ j, (inside : j < w.tasks.length) → j ≠ i →
      p ∉ w.tasks[j].phase.reserved ∧ keepPartialPath p ∉ w.tasks[j].phase.reserved

/-- A task settles only on a path that is free for it. -/
def Settles (base : Disk) (w : World) : Event → Prop
  | .turn i a => ∀ p ∈ w.tasks[i]?.bind fun t => t.settlesOn w.files a, w.FreeFor base i p
  | .cancel _ => True

instance (base : Disk) (w : World) (i : Nat) (p : Path) : Decidable (w.FreeFor base i p) :=
  inferInstanceAs (Decidable (_ ∧ _))

instance (base : Disk) (w : World) : ∀ e, Decidable (w.Settles base e)
  | .turn _ _ => inferInstanceAs (Decidable (∀ _ ∈ _, FreeFor ..))
  | .cancel _ => isTrue trivial

/-- The landed paths are distinct and hold what was announced, and no file of `base` was touched. -/
structure LandedWell (sha256 : List UInt8 → Hash) (base : Disk) (w : World) : Prop where
  distinct : ∀ (i j : Nat) (t u : Task) p, w.tasks[i]? = some t → w.tasks[j]? = some u →
    t.phase.landed? = some p →
    u.phase.landed? = some p → i = j
  verified : ∀ (i : Nat) (t : Task) p, w.tasks[i]? = some t → t.phase.landed? = some p →
    ∃ bytes, w.files.read p = some bytes ∧ sha256 bytes = t.job.inboundSha
  untouched : ∀ p bytes, base.read p = some bytes → w.files.read p = some bytes

end World

/-! ### What one turn does to the files -/

section Turn

variable {sha256 : List UInt8 → Hash} {base files : Disk} {a : Answers} {t : Task} {p : Path}
  {bytes : List UInt8} {sha : Hash}

theorem Phase.Holds.congr {phase : Phase} {files' : Disk} (holds : phase.Holds sha256 sha files)
    (same : ∀ p ∈ phase.reserved, files'.entry p = files.entry p ∧ files'.read p = files.read p) :
    phase.Holds sha256 sha files' := by
  cases phase with
  | writing bytes p inode written =>
    obtain ⟨entry, read⟩ := same (keepPartialPath p) (by simp [reserved])
    exact ⟨entry.trans holds.1, read.trans holds.2.1, holds.2.2⟩
  | verified bytes p =>
    obtain ⟨-, read⟩ := same (keepPartialPath p) (by simp [reserved])
    exact ⟨read.trans holds.1, holds.2⟩
  | joined bytesLen result =>
    cases result with
    | error failure => trivial
    | ok p =>
      obtain ⟨bytes, read, sha⟩ := holds
      exact ⟨bytes, (same p (by simp [reserved])).2.trans read, sha⟩
  | ended landed =>
    cases landed with
    | none => trivial
    | some p =>
      obtain ⟨bytes, read, sha⟩ := holds
      exact ⟨bytes, (same p (by simp [reserved])).2.trans read, sha⟩
  | spawned | fetching | probing | creating | removing => trivial

/-- A turn that keeps the files of `base` and changes at most what the task has reserved, and after
which the files are as the new phase needs them. -/
structure Local (sha256 : List UInt8 → Hash) (base : Disk) (sha : Hash) (phase : Phase)
    (files : Disk) (phase' : Phase) (files' : Disk) : Prop where
  above : Above base files'
  same : SameOutside phase.reserved files files'
  holds : phase'.Holds sha256 sha files'
  reserved : ∀ p ∈ phase'.reserved, p ∈ phase.reserved

theorem Local.of_same {phase phase' : Phase} (above : Above base files)
    (holds : phase'.Holds sha256 sha files) (reserved : ∀ p ∈ phase'.reserved, p ∈ phase.reserved) :
    Local sha256 base sha phase files phase' files :=
  ⟨above, SameOutside.refl _ _, holds, reserved⟩

theorem failedPartial_local {phase : Phase} (above : Above base files) (bytes : List UInt8)
    (verb : String) (p : Path) (text : String) :
    Local sha256 base sha phase files (Job.failedPartial bytes verb p text) files :=
  .of_same above trivial (by simp [Job.failedPartial, Phase.reserved])

theorem createPartial_local (bytes : List UInt8) (a : Answers) (above : Above base files)
    (new : base.entry (keepPartialPath p) = none) :
    Local sha256 base sha (.creating bytes p) files (Job.createPartial bytes p files a).1
      (Job.createPartial bytes p files a).2 := by
  unfold Job.createPartial
  split
  · next files' inode done =>
    obtain ⟨-, created⟩ := Option.ite_none_right_eq_some.mp done
    obtain ⟨above', same, entry, read⟩ := above.create new created
    exact ⟨above', same.mono (by simp [Phase.reserved]), ⟨entry, read, Nat.zero_le _⟩, fun _ => id⟩
  · exact failedPartial_local above ..

theorem take_append_chunk (bytes : List UInt8) (written n : Nat) :
    bytes.take written ++ (bytes.drop written).take n =
      bytes.take (written + ((bytes.drop written).take n).length) := by
  rw [List.take_add, List.length_take, ← List.take_eq_take_min]

theorem verify_local {job : Job} {inode written : Nat} (above : Above base files)
    (read : files.read (keepPartialPath p) = some bytes) :
    Local sha256 base job.inboundSha (.writing bytes p inode written) files
      (job.verify sha256 bytes p) files := by
  unfold Job.verify
  split_ifs with mismatch keep
  · exact .of_same above trivial (by simp [Job.mismatch, Phase.reserved])
  · exact .of_same above trivial fun _ => id
  · exact .of_same above ⟨read, not_not.mp mismatch⟩ fun _ => id

theorem writePartial_local {job : Job} {inode written : Nat} (a : Answers)
    (above : Above base files) (new : base.entry (keepPartialPath p) = none)
    (holds : (Phase.writing bytes p inode written).Holds sha256 job.inboundSha files) :
    Local sha256 base job.inboundSha (.writing bytes p inode written) files
      (job.writePartial sha256 bytes p inode written files a).1
      (job.writePartial sha256 bytes p inode written files a).2 := by
  obtain ⟨entry, read, inside⟩ := holds
  have offset : (bytes.take written).length = written := List.length_take_of_le inside
  -- whatever chunk is written, it goes behind what is there
  have wrote : ∀ n, let chunk := (bytes.drop written).take n
      Above base (files.writeAt inode written chunk) ∧
        SameOutside [keepPartialPath p] files (files.writeAt inode written chunk) ∧
        (files.writeAt inode written chunk).entry (keepPartialPath p) = some (.file inode) ∧
        (files.writeAt inode written chunk).read (keepPartialPath p) =
          some (bytes.take (written + chunk.length)) := by
    intro n chunk
    have spec := above.writeAt new entry read chunk
    rwa [offset, take_append_chunk] at spec
  unfold Job.writePartial
  by_cases left : bytes.drop written = []
  · simp only [left, ne_eq, not_true_eq_false, if_false]
    have all : bytes.take written = bytes := by
      simpa [left] using List.take_append_drop written bytes
    split_ifs
    · exact verify_local above (all ▸ read)
    · exact failedPartial_local above ..
  · simp only [ne_eq, left, not_false_eq_true, if_true]
    split_ifs
    · obtain ⟨above', same, entry', read'⟩ := wrote (a.chunk + 1)
      refine ⟨above', same.mono (by simp [Phase.reserved]), ⟨entry', read', ?_⟩, fun _ => id⟩
      rw [List.length_take, List.length_drop]
      omega
    · obtain ⟨above', same, -, -⟩ := wrote a.chunk
      exact ⟨above', same.mono (by simp [Phase.reserved]), trivial,
        by simp [Job.failedPartial, Phase.reserved]⟩
    · exact failedPartial_local above ..

theorem removePartial_local {job : Job} (bytes : List UInt8) (a : Answers)
    (above : Above base files) (new : base.entry (keepPartialPath p) = none) :
    Local sha256 base job.inboundSha (.removing bytes p) files
      (job.removePartial sha256 bytes p files a).1
      (job.removePartial sha256 bytes p files a).2 := by
  have unchanged : Local sha256 base job.inboundSha (.removing bytes p) files
      (job.mismatch sha256 bytes) files :=
    .of_same above trivial (by simp [Job.mismatch, Phase.reserved])
  unfold Job.removePartial
  split_ifs
  · cases removed : files.removeFile (keepPartialPath p) with
    | none => exact unchanged
    | some files' =>
      obtain ⟨above', same⟩ := above.removeFile new removed
      exact ⟨above', same.mono (by simp [Phase.reserved]), trivial, unchanged.reserved⟩
  · exact unchanged

theorem renamePartial_local (a : Answers) (above : Above base files) (new : base.entry p = none)
    (newPartial : base.entry (keepPartialPath p) = none)
    (holds : (Phase.verified bytes p).Holds sha256 sha files) :
    Local sha256 base sha (.verified bytes p) files (Job.renamePartial bytes p files a).1
      (Job.renamePartial bytes p files a).2 := by
  obtain ⟨read, verified⟩ := holds
  unfold Job.renamePartial
  split
  · next files' done =>
    obtain ⟨-, renamed⟩ := Option.ite_none_right_eq_some.mp done
    obtain ⟨above', same, read'⟩ := above.rename newPartial new (keepPartialPath_ne p) renamed
    exact ⟨above', same.mono (by simp [Phase.reserved]), ⟨bytes, read'.trans read, verified⟩,
      by simp [Phase.reserved]⟩
  · exact .of_same above trivial (by simp [Phase.reserved])

/-- The turn in which the task settles on a path. -/
structure SettlesAt (t : Task) (files : Disk) (a : Answers) (phase' : Phase) (files' : Disk)
    (p : Path) : Prop where
  settles : t.settlesOn files a = some p
  phase : ∃ bytes, phase' = .creating bytes p
  files : files' = files

theorem blockingTurn_local (blocking : t.phase.payload? = some bytes) (a : Answers)
    (above : Above base files) (outside : ∀ p ∈ t.phase.reserved, base.entry p = none)
    (holds : t.phase.Holds sha256 t.job.inboundSha files) :
    Local sha256 base t.job.inboundSha t.phase files
        (t.job.blockingTurn sha256 t.phase files a).1
        (t.job.blockingTurn sha256 t.phase files a).2 ∨
      ∃ p, SettlesAt t files a (t.job.blockingTurn sha256 t.phase files a).1
        (t.job.blockingTurn sha256 t.phase files a).2 p := by
  unfold Job.blockingTurn
  split
  · exact .inl (.of_same above trivial (by simp [Phase.reserved]))
  · cases phase : t.phase with
    | probing bytes tried =>
      simp only [Job.blockingCall, Job.probe]
      by_cases taken : tried ≤ 9999 ∧ files.exists? (t.job.candidate tried a.now)
      · rw [if_pos taken]
        exact .inl (.of_same above trivial fun _ => id)
      · rw [if_neg taken]
        refine .inr ⟨t.job.candidate tried a.now, ?_, ⟨bytes, rfl⟩, rfl⟩
        simp only [Task.settlesOn, phase, if_neg taken]
    | creating bytes p =>
      rw [phase] at outside
      exact .inl (createPartial_local bytes a above (outside _ (by simp [Phase.reserved])))
    | writing bytes p inode written =>
      rw [phase] at outside holds
      exact .inl (writePartial_local a above (outside _ (by simp [Phase.reserved])) holds)
    | removing bytes p =>
      rw [phase] at outside
      exact .inl (removePartial_local bytes a above (outside _ (by simp [Phase.reserved])))
    | verified bytes p =>
      rw [phase] at outside holds
      exact .inl (renamePartial_local a above (outside _ (by simp [Phase.reserved]))
        (outside _ (by simp [Phase.reserved])) holds)
    | spawned | fetching | joined | ended =>
      rw [phase] at blocking
      cases blocking

theorem race_local (i : Nat) (registry : Registry) (a : Answers) (phase : Phase)
    (above : Above base files) :
    Local sha256 base sha phase files (t.race i registry files a).task.phase
      (t.race i registry files a).files := by
  have idle : ∀ phase' : Phase, phase'.reserved = [] → phase'.Holds sha256 sha files →
      Local sha256 base sha phase files phase' files :=
    fun phase' none_ holds => .of_same above holds (by simp [none_])
  by_cases cancelled : t.cancelled i registry
  · simp only [Task.race, cancelled, if_true]
    exact idle _ rfl trivial
  · simp only [Task.race, cancelled, Bool.false_eq_true, if_false]
    split
    · exact idle _ rfl trivial
    · split <;> exact idle _ rfl trivial
    · exact idle _ rfl trivial

theorem conclude_local (i bytesLen : Nat) {result : Except Failure Path} (registry : Registry)
    (a : Answers) (above : Above base files)
    (outside : ∀ p ∈ (Phase.joined bytesLen result).reserved, base.entry p = none)
    (holds : (Phase.joined bytesLen result).Holds sha256 t.job.inboundSha files) :
    Local sha256 base t.job.inboundSha (.joined bytesLen result) files
      (t.conclude i bytesLen result registry files a).task.phase
      (t.conclude i bytesLen result registry files a).files := by
  cases result with
  | error failure =>
    exact .of_same above trivial (by simp [Task.conclude, Task.finish, Phase.reserved])
  | ok p =>
    have stays : Local sha256 base t.job.inboundSha (.joined bytesLen (.ok p)) files
        (.ended (some p)) files := .of_same above holds fun _ => id
    simp only [Task.conclude]
    split
    · split
      · next files' done =>
        obtain ⟨-, removed⟩ := Option.ite_none_right_eq_some.mp done
        obtain ⟨above', same⟩ := above.removeFile (outside p (by simp [Phase.reserved])) removed
        exact ⟨above', same, trivial, by simp [Task.finish, Phase.reserved]⟩
      · exact stays
    · exact stays

theorem turn_local (i : Nat) (registry : Registry) (a : Answers) (above : Above base files)
    (outside : ∀ p ∈ t.phase.reserved, base.entry p = none)
    (holds : t.phase.Holds sha256 t.job.inboundSha files) :
    Local sha256 base t.job.inboundSha t.phase files
        (t.turn sha256 i registry files a).task.phase (t.turn sha256 i registry files a).files ∨
      ∃ p, SettlesAt t files a (t.turn sha256 i registry files a).task.phase
        (t.turn sha256 i registry files a).files p := by
  cases phase : t.phase with
  | spawned | fetching =>
    simp only [Task.turn, phase]
    exact .inl (race_local i _ a _ above)
  | joined bytesLen result =>
    rw [phase] at outside holds
    simp only [Task.turn, phase]
    exact .inl (conclude_local i bytesLen registry a above outside holds)
  | ended landed =>
    rw [phase] at holds
    simp only [Task.turn, phase]
    exact .inl (.of_same above holds fun _ => id)
  | probing bytes | creating bytes | writing bytes | removing bytes | verified bytes =>
    have blocking : t.phase.payload? = some bytes := by rw [phase]; rfl
    rw [turn_blocking blocking, ← phase]
    exact blockingTurn_local blocking a above outside holds

end Turn

namespace World

variable {sha256 : List UInt8 → Hash} {base : Disk} {w : World}

/-- The tasks have reserved different paths, none of `base`, and find there what they rely on. -/
structure Isolated (sha256 : List UInt8 → Hash) (base : Disk) (w : World) : Prop where
  above : Above base w.files
  outside : ∀ (i : Nat) (t : Task), w.tasks[i]? = some t →
    ∀ p ∈ t.phase.reserved, base.entry p = none
  apart : ∀ (i j : Nat) (t u : Task), i ≠ j → w.tasks[i]? = some t → w.tasks[j]? = some u →
    ∀ p ∈ t.phase.reserved, p ∉ u.phase.reserved
  holds : ∀ (i : Nat) (t : Task), w.tasks[i]? = some t →
    t.phase.Holds sha256 t.job.inboundSha w.files

theorem Isolated.put_local {i : Nat} {t : Task} {r : Turned} (isolated : w.Isolated sha256 base)
    (mine : w.tasks[i]? = some t) (job : r.task.job = t.job)
    (turned : Local sha256 base t.job.inboundSha t.phase w.files r.task.phase r.files) :
    (w.put i r).Isolated sha256 base := by
  obtain ⟨above, same, holds, reserved⟩ := turned
  refine ⟨above, fun j u found p mem => ?_, fun j k u v other foundJ foundK p mem mem' => ?_,
    fun j u found => ?_⟩
  · obtain ⟨rfl, rfl⟩ | ⟨-, old⟩ := tasks_put found
    · exact isolated.outside j t mine p (reserved p mem)
    · exact isolated.outside j u old p mem
  · obtain ⟨rfl, rfl⟩ | ⟨-, oldJ⟩ := tasks_put foundJ <;>
      obtain ⟨rfl, rfl⟩ | ⟨-, oldK⟩ := tasks_put foundK
    · exact other rfl
    · exact isolated.apart _ _ _ _ other mine oldK p (reserved p mem) mem'
    · exact isolated.apart _ _ _ _ other oldJ mine p mem (reserved p mem')
    · exact isolated.apart _ _ _ _ other oldJ oldK p mem mem'
  · obtain ⟨rfl, rfl⟩ | ⟨other, old⟩ := tasks_put found
    · rw [job]
      exact holds
    · exact (isolated.holds j u old).congr fun p mem =>
        same p (isolated.apart j i u t other old mine p mem)

theorem Isolated.put_settled {i : Nat} {t : Task} {r : Turned} {a : Answers} {p : Path}
    (isolated : w.Isolated sha256 base) (settled : SettlesAt t w.files a r.task.phase r.files p)
    (free : w.FreeFor base i p) : (w.put i r).Isolated sha256 base := by
  obtain ⟨-, ⟨bytes, phase⟩, files⟩ := settled
  have files : (w.put i r).files = w.files := files
  have reserved : ∀ q ∈ r.task.phase.reserved, q = p ∨ q = keepPartialPath p := by
    simp [phase, Phase.reserved]
  have others : ∀ (j : Nat) (u : Task), j ≠ i → w.tasks[j]? = some u →
      p ∉ u.phase.reserved ∧ keepPartialPath p ∉ u.phase.reserved := by
    intro j u other found
    obtain ⟨inside, rfl⟩ := List.getElem?_eq_some_iff.mp found
    exact free.2 j inside other
  have unreserved : ∀ (j : Nat) (u : Task), j ≠ i → w.tasks[j]? = some u →
      ∀ q ∈ r.task.phase.reserved, q ∉ u.phase.reserved := by
    intro j u other found q mem
    obtain rfl | rfl := reserved q mem
    · exact (others j u other found).1
    · exact (others j u other found).2
  refine ⟨by rw [files]; exact isolated.above, fun j u found q mem => ?_,
    fun j k u v other foundJ foundK q mem mem' => ?_, fun j u found => ?_⟩
  · obtain ⟨rfl, rfl⟩ | ⟨-, old⟩ := tasks_put found
    · obtain rfl | rfl := reserved q mem
      · exact free.1.1
      · exact free.1.2
    · exact isolated.outside j u old q mem
  · obtain ⟨rfl, rfl⟩ | ⟨otherJ, oldJ⟩ := tasks_put foundJ <;>
      obtain ⟨rfl, rfl⟩ | ⟨otherK, oldK⟩ := tasks_put foundK
    · exact other rfl
    · exact unreserved k v otherK oldK q mem mem'
    · exact unreserved j u otherJ oldJ q mem' mem
    · exact isolated.apart _ _ _ _ other oldJ oldK q mem mem'
  · obtain ⟨rfl, rfl⟩ | ⟨-, old⟩ := tasks_put found
    · rw [phase]
      trivial
    · rw [files]
      exact isolated.holds j u old

theorem Isolated.step {e : Event} (isolated : w.Isolated sha256 base) (settles : w.Settles base e) :
    (w.step sha256 e).Isolated sha256 base := by
  cases e with
  | cancel sha => exact ⟨isolated.above, isolated.outside, isolated.apart, isolated.holds⟩
  | turn i a =>
    cases mine : w.tasks[i]? with
    | none => rwa [step_turn_none mine]
    | some t =>
      rw [step_turn mine]
      obtain turned | ⟨p, settled⟩ := turn_local i w.registry a isolated.above
        (isolated.outside i t mine) (isolated.holds i t mine)
      · exact isolated.put_local mine (turn_frame sha256 i w.files a t w.registry).job turned
      · refine isolated.put_settled settled ?_
        simpa [Settles, mine, settled.settles] using settles

theorem isolated_start (sha256 : List UInt8 → Hash) (jobs : List Job) (files : Disk) :
    (start jobs files).Isolated sha256 files := by
  have idle : ∀ (i : Nat) (t : Task),
      (start jobs files).tasks[i]? = some t → t.phase = .spawned := by
    intro i t found
    rw [start, List.getElem?_map] at found
    obtain ⟨job, -, rfl⟩ := Option.map_eq_some_iff.mp found
    rfl
  refine ⟨Above.refl files, fun i t found => ?_, fun i j t u _ found _ => ?_, fun i t found => ?_⟩
  · simp [idle i t found, Phase.reserved]
  · simp [idle i t found, Phase.reserved]
  · rw [idle i t found]
    trivial

theorem Isolated.landedWell (isolated : w.Isolated sha256 base) : w.LandedWell sha256 base := by
  have reserved : ∀ (phase : Phase) p, phase.landed? = some p → p ∈ phase.reserved := by
    intro phase p landed
    cases phase with
    | joined bytesLen result => cases result <;> simp_all [Phase.landed?, Phase.reserved]
    | ended path => cases path <;> simp_all [Phase.landed?, Phase.reserved]
    | spawned | fetching | probing | creating | writing | removing | verified => cases landed
  refine ⟨fun i j t u p foundI foundJ landed landed' => ?_, fun i t p found landed => ?_,
    fun p bytes read => ?_⟩
  · by_contra other
    exact isolated.apart i j t u other foundI foundJ p (reserved _ p landed) (reserved _ p landed')
  · have holds := isolated.holds i t found
    cases phase : t.phase with
    | joined bytesLen result => cases result <;> simp_all [Phase.landed?, Phase.Holds]
    | ended path => cases path <;> simp_all [Phase.landed?, Phase.Holds]
    | spawned | fetching | probing | creating | writing | removing | verified =>
      simp [phase, Phase.landed?] at landed
  · rw [isolated.above.read ?_, read]
    intro absent
    simp [FileSystem.read, absent] at read

end World

/-- In every interleaving in which each task settles on a path that is free for it, the landed paths
are distinct, each holds bytes with the hash its entry declares, and every file that was there
before is as it was. -/
theorem landings_sound (sha256 : List UInt8 → Hash) (jobs : List Job) (files : Disk)
    (events : List Event)
    (settles : AllMeet (World.step sha256) (World.Settles files) (World.start jobs files) events) :
    Always (World.step sha256) (World.LandedWell sha256 files) (World.start jobs files) events :=
  always_of_allMeet (World.Isolated sha256 files)
    (fun _ _ isolated settles => isolated.step settles)
    (fun _ isolated => isolated.landedWell) (World.isolated_start sha256 jobs files) settles

/-- Two tasks side by side: each settles on its own name, and both land. -/
theorem landings_sound_two :
    let sha256 : List UInt8 → Hash := fun bytes => Vector.replicate 32 (UInt8.ofNat bytes.length)
    let job (name : String) (bytes : List UInt8) : Job :=
      ⟨Vector.replicate 32 0, sha256 bytes, name.toList, 0, "text/plain",
        ⟨.v4 #v[192, 168, 0, 2], 2268⟩, "/d".toList, false⟩
    let jobs := [job "a" [], job "b" [7]]
    let events : List Event :=
      [.turn 0 { fetch := some (.ok (200, [])) }, .turn 1 { fetch := some (.ok (200, [7])) },
       .turn 0 {}, .turn 1 {}, .turn 0 {}, .turn 1 {}, .turn 0 {}, .turn 1 {}, .turn 0 {},
       .turn 1 {}, .turn 1 {}]
    AllMeet (World.step sha256) (World.Settles .empty) (World.start jobs .empty) events ∧
      Always (World.step sha256) (World.LandedWell sha256 .empty) (World.start jobs .empty) events ∧
      (run (World.step sha256) (World.start jobs .empty) events).tasks.map (·.phase.landed?) =
        [some "/d/a".toList, some "/d/b".toList] := by
  intro sha256 job jobs events
  have settles : AllMeet (World.step sha256) (World.Settles .empty) (World.start jobs .empty)
      events := by decide +kernel
  exact ⟨settles, landings_sound sha256 jobs .empty events settles, by decide +kernel⟩

/-- Two tasks for files of one name look for a free path before either has landed: both land at the
same path, and the file of the first one is gone. A file that has the name of the `.partial` file is
overwritten and moved away. -/
theorem landings_collide :
    let sha256 : List UInt8 → Hash := fun bytes => Vector.replicate 32 (UInt8.ofNat bytes.length)
    let job (bytes : List UInt8) : Job :=
      ⟨Vector.replicate 32 0, sha256 bytes, "a".toList, 0, "text/plain",
        ⟨.v4 #v[192, 168, 0, 2], 2268⟩, "/d".toList, false⟩
    let fetched (bytes : List UInt8) : Answers := { fetch := some (.ok (200, bytes)) }
    let both := run (World.step sha256) (World.start [job [], job [7]] .empty)
      [.turn 0 (fetched []), .turn 1 (fetched [7]), .turn 0 {}, .turn 1 {}, .turn 0 {}, .turn 0 {},
       .turn 0 {}, .turn 1 {}, .turn 1 {}, .turn 1 {}, .turn 1 {}]
    let before : Disk := ((FileSystem.empty.create "/d/a.partial".toList).map fun (files, inode) =>
      files.setContent inode [1]).getD .empty
    let alone := run (World.step sha256) (World.start [job []] before)
      [.turn 0 (fetched []), .turn 0 {}, .turn 0 {}, .turn 0 {}, .turn 0 {}]
    (both.tasks.map (·.phase.landed?) = [some "/d/a".toList, some "/d/a".toList] ∧
      both.files.read "/d/a".toList = some [7]) ∧
      before.read "/d/a.partial".toList = some [1] ∧
      alone.files.read "/d/a.partial".toList = none := by
  decide +kernel

end LanMouse.Files
