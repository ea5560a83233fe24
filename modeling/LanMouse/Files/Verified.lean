import LanMouse.Files.Landing

/-!
# Writing and verifying one file

`write_and_verify_file_blocking` creates the `.partial` file, writes and syncs it, compares the hash
of the bytes, and removes the file or renames it. Every one of these calls may fail. Here it runs by
itself, on any file system: the path and its `.partial` path may exist, and may be two names of one
file.

The function returns early when a call fails. Only a wrong hash makes it remove what it has written.
-/
namespace LanMouse.Files

open Proto UnixPath FileStore FileSystem Transition

/-- One call, with its answer. -/
def call (sha256 : List UInt8 → Hash) (job : Job) (s : Phase × Disk) (a : Answers) :
    Phase × Disk :=
  job.blockingCall sha256 s.1 s.2 a

/-- The function has returned once it is `joined`. -/
def writeAndVerifyFileBlocking (sha256 : List UInt8 → Hash) (job : Job) (bytes : List UInt8)
    (path : Path) (files : Disk) (answers : List Answers) : Phase × Disk :=
  run (call sha256 job) (.creating bytes path, files) answers

/-- The `.partial` file is created, or emptied. -/
def creates (path : Path) (files : Disk) (answers : List Answers) : Bool :=
  answers.head?.any (·.ok) && files.entry (keepPartialPath path) ≠ some .directory

/-- What the function promises. -/
structure Promise (sha256 : List UInt8 → Hash) (job : Job) (path : Path) (files files' : Disk)
    (created : Bool) (result : Except Failure Path) : Prop where
  ok : ∀ p, result = .ok p →
    ∃ landed, files'.read path = some landed ∧ sha256 landed = job.inboundSha
  untouched : ∀ e, result = .error e →
    files'.entry path = files.entry path ∧ files'.read path = files.read path
  tidy : ∀ e, result = .error e → job.keepPartial = false → created = true →
    files'.entry (keepPartialPath path) = none

/-! ### How the calls go -/

/-- How many of the bytes reach the file, and the answers that are left when all are written and
synced. -/
def writes (bytes : List UInt8) : Nat → List Answers → Nat × Option (List Answers)
  | written, [] => (written, none)
  | written, a :: as =>
    if written < bytes.length then
      if a.ok then writes bytes (min bytes.length (written + (a.chunk + 1))) as
      else if bytes.length < bufWriterCapacity then (min bytes.length (written + a.chunk), none)
      else (written, none)
    else (written, if a.ok then some as else none)

/-- Where the calls lead: the file is not created, or `reached` bytes are in it when a write or the
sync fails, or the hash is wrong and the file is to be removed, or it is to be renamed. -/
inductive Course where
  | notCreated
  | broken (reached : Nat)
  | refused (removed : Bool)
  | renamed (done : Bool)
  deriving DecidableEq, Repr

def course (sha256 : List UInt8 → Hash) (job : Job) (bytes : List UInt8) (path : Path)
    (files : Disk) (answers : List Answers) : Course :=
  if creates path files answers then
    match writes bytes 0 answers.tail with
    | (reached, none) => .broken reached
    | (_, some left) =>
      let succeeds := left.head?.any (·.ok)
      if sha256 bytes ≠ job.inboundSha then .refused succeeds
      else .renamed (succeeds && files.entry path ≠ some .directory)
  else .notCreated

namespace Course

/-- Nothing has to be cleaned up, or it is. -/
def tidy : Course → Bool
  | .notCreated => true
  | .broken _ => false
  | .refused removed => removed
  | .renamed done => done

/-- What is in the file when the function fails. -/
def leftover (bytes : List UInt8) : Course → Option (List UInt8)
  | .broken reached => some (bytes.take reached)
  | .refused _ | .renamed false => some bytes
  | .notCreated | .renamed true => none

end Course

/-- The path and its `.partial` path lead to one file. -/
def Shared (path : Path) (files : Disk) : Prop :=
  ∃ i, files.entry path = some (.file i) ∧ files.entry (keepPartialPath path) = some (.file i)

section Calls

variable {sha256 : List UInt8 → Hash} {job : Job} {bytes : List UInt8} {path : Path}
  {files files' : Disk} {inode written : Nat} {a : Answers} {as answers : List Answers}

theorem run_joined (n : Nat) (result : Except Failure Path) (as : List Answers) :
    run (call sha256 job) (.joined n result, files) as =
      (.joined n result, files) := by
  induction as with
  | nil => rfl
  | cons a as ih => exact ih

theorem length_chunk (inside : written ≤ bytes.length) (n : Nat) :
    written + ((bytes.drop written).take n).length = min bytes.length (written + n) := by
  rw [List.length_take, List.length_drop]
  omega

theorem Wrote.chunk (inside : written ≤ bytes.length)
    (wrote : Wrote files inode (bytes.take written) files') (n : Nat) :
    Wrote files inode (bytes.take (min bytes.length (written + n)))
      (files'.writeAt inode written ((bytes.drop written).take n)) := by
  have offset : (bytes.take written).length = written := List.length_take_of_le inside
  have next := wrote.writeAt ((bytes.drop written).take n)
  rwa [offset, take_append_chunk, length_chunk inside] at next

/-- Writing goes on to the verification with all bytes in the file, or it fails on the way. -/
theorem run_writing (inside : written ≤ bytes.length)
    (wrote : Wrote files inode (bytes.take written) files')
    (enough : bytes.length - written + 2 ≤ as.length) :
    ∃ files'', Wrote files inode (bytes.take (writes bytes written as).1) files'' ∧
      match (writes bytes written as).2 with
      | none => ∃ e, run (call sha256 job) (.writing bytes path inode written, files') as =
          (.joined bytes.length (.error e), files'')
      | some left => left ≠ [] ∧ (writes bytes written as).1 = bytes.length ∧
        run (call sha256 job)
          (.writing bytes path inode written, files') as =
        run (call sha256 job)
          (job.verify sha256 bytes path, files'') left := by
  induction as generalizing written files' with
  | nil => simp at enough
  | cons a as ih =>
    rw [List.length_cons] at enough
    rw [run_cons]
    simp only [call, Job.blockingCall, Job.writePartial, writes]
    by_cases left : written < bytes.length
    · have more : bytes.drop written ≠ [] := by simpa using left
      rw [if_pos left, if_pos more]
      cases ok : a.ok with
      | true =>
        rw [length_chunk inside]
        exact ih (by omega) (Wrote.chunk inside wrote (a.chunk + 1)) (by omega)
      | false =>
        by_cases small : bytes.length < bufWriterCapacity
        · simp only [small, if_true, Bool.false_eq_true, if_false]
          exact ⟨_, Wrote.chunk inside wrote a.chunk, _, run_joined ..⟩
        · simp only [small, Bool.false_eq_true, if_false]
          exact ⟨_, wrote, _, run_joined ..⟩
    · have all : bytes.drop written = [] := by simpa using left
      have full : written = bytes.length := by omega
      simp only [if_neg left, all, ne_eq, not_true_eq_false, if_false]
      refine ⟨files', wrote, ?_⟩
      cases ok : a.ok with
      | true =>
        refine ⟨?_, full, rfl⟩
        rintro rfl
        simp at enough
      | false => exact ⟨_, run_joined ..⟩

/-- The path as it is after `b` went into the `.partial` file: it changes with a file it shares. -/
structure Behind (path : Path) (files : Disk) (b : List UInt8) (files' : Disk) : Prop where
  entry : files'.entry path = files.entry path
  shared : Shared path files → files'.read path = some b
  apart : ¬ Shared path files → files'.read path = files.read path

theorem Behind.of_wrote {created : Disk} {b : List UInt8}
    (done : files.create (keepPartialPath path) = some (created, inode))
    (wrote : Wrote created inode b files') : Behind path files b files' := by
  obtain ⟨-, others, -, contents, was⟩ := create_spec done
  have elsewhere := others path (keepPartialPath_ne path).symm
  have entry : files'.entry path = files.entry path := (congrFun wrote.entry path).trans elsewhere
  refine ⟨entry, ?_, fun alone => ?_⟩
  · rintro ⟨j, own, partial_⟩
    obtain rfl : j = inode := by
      rcases was with was | ⟨absent, -⟩
      · simpa using partial_.symm.trans was
      · rw [absent] at partial_
        cases partial_
    rw [read_eq (entry.trans own), wrote.content]
  · have other : files.entry path ≠ some (.file inode) := by
      intro own
      rcases was with was | ⟨-, rfl⟩
      · exact alone ⟨inode, own, was⟩
      · exact Nat.lt_irrefl _ (files.below path _ own)
    rw [wrote.read_of_ne (elsewhere ▸ other)]
    refine read_congr elsewhere fun j own => contents j ?_
    rintro rfl
    exact other own

theorem Behind.of_removed {b : List UInt8} {removed : Disk} (behind : Behind path files b files')
    (entry : removed.entry = Function.update files'.entry (keepPartialPath path) none)
    (content : removed.content = files'.content) : Behind path files b removed := by
  have own : removed.entry path = files'.entry path := by
    rw [entry, Function.update_of_ne (keepPartialPath_ne path).symm]
  have read : removed.read path = files'.read path :=
    read_congr own fun _ _ => congrFun content _
  exact ⟨own.trans behind.entry, fun shared => read.trans (behind.shared shared),
    fun alone => read.trans (behind.apart alone)⟩

theorem run_creating_fails (enough : answers ≠ []) (not : creates path files answers = false) :
    ∃ e, writeAndVerifyFileBlocking sha256 job bytes path files answers =
      (.joined bytes.length (.error e), files) := by
  cases answers with
  | nil => exact absurd rfl enough
  | cons a as =>
    have none_ : (if a.ok then files.create (keepPartialPath path) else none) = none := by
      split_ifs with ok
      · rw [create_eq_none]
        simpa [creates, ok] using not
      · rfl
    rw [writeAndVerifyFileBlocking, run_cons]
    simp only [call, Job.blockingCall, Job.createPartial, none_]
    exact ⟨_, run_joined ..⟩

theorem run_creating (enough : bytes.length + 3 ≤ answers.length)
    (yes : creates path files answers = true) :
    ∃ created inode, files.create (keepPartialPath path) = some (created, inode) ∧
      Wrote created inode (bytes.take 0) created ∧
      writeAndVerifyFileBlocking sha256 job bytes path files answers =
        run (call sha256 job) (.writing bytes path inode 0, created)
          answers.tail := by
  cases answers with
  | nil => simp at enough
  | cons a as =>
    obtain ⟨ok, free⟩ : a.ok = true ∧ files.entry (keepPartialPath path) ≠ some .directory := by
      simpa [creates] using yes
    cases done : files.create (keepPartialPath path) with
    | none => exact absurd (create_eq_none.mp done) free
    | some result =>
      refine ⟨result.1, result.2, rfl, ?_, ?_⟩
      · have empty := (create_spec done).2.2.1
        exact ⟨rfl, empty, fun _ _ => rfl⟩
      · rw [writeAndVerifyFileBlocking, run_cons]
        simp only [call, Job.blockingCall, Job.createPartial, ok, if_true, done, List.tail_cons]

section Verify

variable {created : Disk} (done : files.create (keepPartialPath path) = some (created, inode))
  (wrote : Wrote created inode bytes files')

include done wrote

theorem entry_partial_eq : files'.entry (keepPartialPath path) = some (.file inode) :=
  (congrFun wrote.entry _).trans (create_spec done).1

/-- The hash is wrong: the file is removed unless it is to be kept. -/
theorem run_refused (wrong : sha256 bytes ≠ job.inboundSha) (a : Answers) (as : List Answers) :
    ∃ e files'', run (call sha256 job) (job.verify sha256 bytes path, files') (a :: as) =
        (.joined bytes.length (.error e), files'') ∧ Behind path files bytes files'' ∧
      (files''.entry (keepPartialPath path) = none ↔ a.ok = true ∧ job.keepPartial = false) := by
  have behind := Behind.of_wrote done wrote
  have there := entry_partial_eq done wrote
  rw [Job.verify, if_pos wrong]
  cases keep : job.keepPartial with
  | true =>
    refine ⟨_, _, run_joined .., behind, ?_⟩
    simp [there]
  | false =>
    obtain ⟨removed, eq, entry, content⟩ := removeFile_of_file there
    rw [run_cons]
    simp only [Bool.false_eq_true, if_false, call, Job.blockingCall, Job.removePartial, eq]
    cases ok : a.ok with
    | true =>
      refine ⟨_, _, run_joined .., behind.of_removed entry content, ?_⟩
      simp [entry]
    | false =>
      refine ⟨_, _, run_joined .., behind, ?_⟩
      simp [there]

theorem run_renamed (right : sha256 bytes = job.inboundSha) {a : Answers} (ok : a.ok = true)
    (free : files.entry path ≠ some .directory) (as : List Answers) :
    ∃ files'', run (call sha256 job) (job.verify sha256 bytes path, files') (a :: as) =
      (.joined bytes.length (.ok path), files'') ∧ files''.read path = some bytes := by
  have own := (Behind.of_wrote done wrote).entry
  obtain ⟨renamed, eq, entry, content⟩ :=
    rename_of_file (entry_partial_eq done wrote) (keepPartialPath_ne path) (own ▸ free)
  refine ⟨renamed, ?_, ?_⟩
  · rw [Job.verify, if_neg (not_not.mpr right), run_cons]
    simp only [call, Job.blockingCall, Job.renamePartial, ok, if_true, eq]
    exact run_joined ..
  · rw [read_eq entry, content, wrote.content]

theorem run_stuck (right : sha256 bytes = job.inboundSha) {a : Answers}
    (stuck : ¬ (a.ok = true ∧ files.entry path ≠ some .directory)) (as : List Answers) :
    ∃ e, run (call sha256 job) (job.verify sha256 bytes path, files') (a :: as) =
      (.joined bytes.length (.error e), files') := by
  have own := (Behind.of_wrote done wrote).entry
  have none_ : (if a.ok then files'.rename (keepPartialPath path) path else none) = none := by
    split_ifs with ok
    · refine rename_of_directory (own.trans ?_)
      by_contra free
      exact stuck ⟨ok, free⟩
    · rfl
  rw [Job.verify, if_neg (not_not.mpr right), run_cons]
  simp only [call, Job.blockingCall, Job.renamePartial, none_]
  exact ⟨_, run_joined ..⟩

end Verify

/-- What comes of the call, by its course. -/
inductive Comes (sha256 : List UInt8 → Hash) (job : Job) (bytes : List UInt8) (path : Path)
    (files : Disk) : Course → Except Failure Path → Disk → Prop where
  | notCreated (e : Failure) : Comes sha256 job bytes path files .notCreated (.error e) files
  | landed {files' : Disk} (right : sha256 bytes = job.inboundSha)
    (read : files'.read path = some bytes) :
    Comes sha256 job bytes path files (.renamed true) (.ok path) files'
  | failed {c : Course} {b : List UInt8} {files' : Disk} (e : Failure)
    (leftover : c.leftover bytes = some b) (behind : Behind path files b files')
    (gone : files'.entry (keepPartialPath path) = none ↔ c.tidy = true ∧ job.keepPartial = false) :
    Comes sha256 job bytes path files c (.error e) files'

theorem creates_iff_course (sha256 : List UInt8 → Hash) (job : Job) (bytes : List UInt8)
    (path : Path) (files : Disk) (answers : List Answers) :
    creates path files answers = true ↔
      course sha256 job bytes path files answers ≠ .notCreated := by
  unfold course
  cases creates path files answers with
  | false => simp
  | true =>
    refine iff_of_true rfl ?_
    rw [if_pos rfl]
    split
    · nofun
    · dsimp only
      split_ifs <;> nofun

theorem Comes.promise_iff {c : Course} {result : Except Failure Path} {created : Bool}
    (comes : Comes sha256 job bytes path files c result files')
    (made : created = true ↔ c ≠ .notCreated) :
    Promise sha256 job path files files' created result ↔
      (c.tidy = true ∨ job.keepPartial = true) ∧
        (Shared path files → ∀ b ∈ c.leftover bytes, files.read path = some b) := by
  cases comes with
  | notCreated e =>
    refine iff_of_true ⟨nofun, fun _ _ => ⟨rfl, rfl⟩, fun _ _ _ yes => ?_⟩ ⟨.inl rfl, nofun⟩
    exact absurd rfl (made.mp yes)
  | landed right read =>
    exact iff_of_true ⟨fun _ _ => ⟨bytes, read, right⟩, nofun, nofun⟩ ⟨.inl rfl, nofun⟩
  | @failed _ b _ e leftover behind gone =>
    have yes : created = true := by
      rw [made]
      rintro rfl
      cases leftover
    have same : files'.read path = files.read path ↔
        (Shared path files → files.read path = some b) := by
      by_cases shared : Shared path files
      · rw [behind.shared shared, imp_iff_right shared, eq_comm]
      · exact iff_of_true (behind.apart shared) (absurd · shared)
    rw [leftover]
    simp only [Option.mem_some_iff, forall_eq']
    constructor
    · intro promise
      refine ⟨?_, same.mp (promise.untouched e rfl).2⟩
      by_contra neither
      rw [not_or, Bool.not_eq_true] at neither
      have removed := gone.mp (promise.tidy e rfl (by simpa using neither.2) yes)
      rw [neither.1] at removed
      cases removed.1
    · rintro ⟨clean, kept⟩
      refine ⟨nofun, fun _ _ => ⟨behind.entry, same.mpr kept⟩, fun _ _ not _ => ?_⟩
      refine gone.mpr ⟨clean.resolve_right ?_, not⟩
      rw [not]
      exact Bool.false_ne_true

theorem writeAndVerifyFileBlocking_comes (sha256 : List UInt8 → Hash) (job : Job)
    (path : Path) (files : Disk) (enough : bytes.length + 3 ≤ answers.length) :
    ∃ result files', writeAndVerifyFileBlocking sha256 job bytes path files answers =
        (.joined bytes.length result, files') ∧
      Comes sha256 job bytes path files (course sha256 job bytes path files answers) result
        files' := by
  unfold course
  cases yes : creates path files answers with
  | false =>
    have some_ : answers ≠ [] := by
      rintro rfl
      simp at enough
    obtain ⟨e, eq⟩ := run_creating_fails some_ yes
    exact ⟨_, _, eq, .notCreated e⟩
  | true =>
    obtain ⟨created, inode, done, empty, eq⟩ := run_creating enough yes
    have enough' : bytes.length - 0 + 2 ≤ answers.tail.length := by
      rw [List.length_tail]
      omega
    obtain ⟨files', wrote, rest⟩ := run_writing (Nat.zero_le _) empty enough'
    rw [eq]
    generalize writes bytes 0 answers.tail = w at wrote rest
    obtain ⟨reached, none | left⟩ := w
    · obtain ⟨e, eq⟩ := rest
      refine ⟨_, _, eq, .failed e rfl (Behind.of_wrote done wrote) ?_⟩
      simp [Course.tidy, entry_partial_eq done wrote]
    · obtain ⟨more, full, eq⟩ := rest
      dsimp only at full
      rw [full, List.take_length] at wrote
      obtain ⟨a, as, rfl⟩ := List.exists_cons_of_ne_nil more
      rw [eq]
      simp only [List.head?_cons, Option.any_some, if_true]
      by_cases wrong : sha256 bytes ≠ job.inboundSha
      · obtain ⟨e, files'', eq, behind, gone⟩ := run_refused done wrote wrong a as
        rw [if_pos wrong]
        exact ⟨_, _, eq, .failed e rfl behind gone⟩
      · rw [if_neg wrong]
        have right := not_not.mp wrong
        by_cases renames : a.ok = true ∧ files.entry path ≠ some .directory
        · obtain ⟨files'', eq, read⟩ := run_renamed done wrote right renames.1 renames.2 as
          refine ⟨_, _, eq, ?_⟩
          simp only [renames, ne_eq, not_false_eq_true, decide_true, Bool.and_self]
          exact .landed right read
        · obtain ⟨e, eq⟩ := run_stuck done wrote right renames as
          have stays : (a.ok && decide (files.entry path ≠ some .directory)) = false := by
            simpa using renames
          rw [stays]
          refine ⟨_, _, eq, .failed e rfl (Behind.of_wrote done wrote) ?_⟩
          simp [Course.tidy, entry_partial_eq done wrote]

end Calls

/-- With an answer for every call the function returns. It does what it promises exactly when it
leaves nothing to clean up, or may leave it, and when what it leaves in a `.partial` file that is
also the file of the path is what was there. -/
theorem writeAndVerify_promise_iff (sha256 : List UInt8 → Hash) (job : Job) (bytes : List UInt8)
    (path : Path) (files : Disk) (answers : List Answers)
    (enough : bytes.length + 3 ≤ answers.length) :
    ∃ result files', writeAndVerifyFileBlocking sha256 job bytes path files answers =
        (.joined bytes.length result, files') ∧
      (Promise sha256 job path files files' (creates path files answers) result ↔
        ((course sha256 job bytes path files answers).tidy = true ∨ job.keepPartial = true) ∧
          (Shared path files → ∀ b ∈ (course sha256 job bytes path files answers).leftover bytes,
            files.read path = some b)) := by
  obtain ⟨result, files', eq, comes⟩ :=
    writeAndVerifyFileBlocking_comes sha256 job path files enough
  exact ⟨result, files', eq, comes.promise_iff (creates_iff_course ..)⟩

/-- A file of one byte is written, synced and renamed. -/
theorem writeAndVerify_promise_one_byte :
    let sha256 : List UInt8 → Hash := fun bytes => Vector.replicate 32 (UInt8.ofNat bytes.length)
    let job : Job := ⟨sha256 [], sha256 [7], "a".toList, 1, "text/plain",
      ⟨.v4 #v[192, 168, 0, 2], 2268⟩, "/d".toList, false⟩
    ∃ result files', writeAndVerifyFileBlocking sha256 job [7] "/d/a".toList .empty
        (List.replicate 4 {}) = (.joined 1 result, files') ∧
      Promise sha256 job "/d/a".toList .empty files' true result := by
  intro sha256 job
  obtain ⟨result, files', eq, promise⟩ := writeAndVerify_promise_iff sha256 job [7] "/d/a".toList
    .empty (List.replicate 4 {}) (by decide)
  refine ⟨result, files', eq, promise.mpr ⟨.inl (by decide +kernel), ?_⟩⟩
  rintro ⟨i, absent, -⟩
  cases absent

/-- The sync fails, or the hash is right and the rename fails: the function returns an error and the
`.partial` file stays. -/
theorem writeAndVerify_leaves_partial_file :
    let sha256 : List UInt8 → Hash := fun bytes => Vector.replicate 32 (UInt8.ofNat bytes.length)
    let job : Job := ⟨sha256 [], sha256 [7], "a".toList, 1, "text/plain",
      ⟨.v4 #v[192, 168, 0, 2], 2268⟩, "/d".toList, false⟩
    let left (answers : List Answers) : Bool × Option (List UInt8) :=
      let (phase, files) :=
        writeAndVerifyFileBlocking sha256 job [7] "/d/a".toList .empty answers
      (phase matches .joined _ (.error _), files.read "/d/a.partial".toList)
    left [{}, {}, { ok := false }, {}] = (true, some [7]) ∧
      left [{}, {}, {}, { ok := false }] = (true, some [7]) := by
  decide +kernel

end LanMouse.Files
