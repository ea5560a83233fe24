import LanMouse.Sync.Batches
import LanMouse.Sync.Marks

/-!
# Selections that arrive again

A selection is skipped when its fingerprint is in the file list. But what is recorded in the list
when a file has landed is the hash of the file, not the fingerprint of the selection it belongs to;
and the list has room for half as many entries as the other two. So a selection that has just been
received is fetched once more when it arrives again, unless its fingerprint happens to be the hash
of a file.
-/
namespace LanMouse.Sync

open Proto UnixPath Client Clipboard Files Transition

namespace Desktop

/-- Less than a minute ago the last file of a batch with this fingerprint was reported, all of its
files with success, and fewer than 128 hashes were recorded since. -/
def AppliedLately (d : Desktop) (fingerprint : Hash) : Prop :=
  ∃ b ∈ d.service.batches, ∃ n ∈ List.range d.reports.length,
    (∀ i ∈ b.numbers, ∃ report ∈ d.reports.take (n + 1), report.2.1 = i ∧
      report.2.2.success = true ∧ report.2.2.batchFingerprint = fingerprint) ∧
    (∀ report ∈ d.reports[n]?, report.2.1 ∈ b.numbers ∧ d.clock - report.1 < seconds 60) ∧
    ((d.reports.drop (n + 1)).filter (·.2.2.success)).length < 128

instance (d : Desktop) (fingerprint : Hash) : Decidable (d.AppliedLately fingerprint) :=
  inferInstanceAs (Decidable (∃ b ∈ d.service.batches, ∃ n ∈ List.range d.reports.length,
    (∀ i ∈ b.numbers, ∃ report ∈ d.reports.take (n + 1), _) ∧ _))

/-- The selection is taken for a loopback, and nothing is fetched. -/
def Skips (host : Host) (d : Desktop) (addr : SocketAddr) (cf : ClipboardFiles)
    (a : InboundAnswers) : Prop :=
  (d.service.fileLruFingerprints.contains d.clock cf.fingerprint).1 = true ∧
    (d.service.step host ⟨d.clock, .inbound addr (.clipboardFiles cf) a⟩).world.tasks =
      d.service.world.tasks ∧
    (d.service.step host ⟨d.clock, .inbound addr (.clipboardFiles cf) a⟩).requests =
      d.service.requests

theorem skips_iff {d : Desktop} (marked : d.Marked) (host : Host) (addr : SocketAddr)
    (cf : ClipboardFiles) (a : InboundAnswers) :
    d.Skips host addr cf a ↔ Recent.Lately fileLoopbackCapacity fileLoopbackTtl d.clock d.fileMarks
      cf.fingerprint := by
  have found := State.ListsKeep.files marked |>.contains_iff cf.fingerprint
  refine ⟨fun skips => found.mp skips.1, fun lately => ?_⟩
  have seen := found.mpr lately
  refine ⟨seen, ?_, ?_⟩ <;>
    simp only [State.step, State.act, State.handleClipboardInbound,
      State.handleClipboardInboundFiles, seen, if_true]

theorem marked_run (host : Host) (toml : Option TomlClipboard) (files : Disk) (contents : Contents)
    (moves : List Move) : (run (step host) (start toml files contents) moves).Marked :=
  inv_run_of_step Marked (fun _ move marked => marked.step move) (marked_start toml files contents)
    moves

/-- After every run, a selection that was applied lately is skipped when it arrives again, just if
its fingerprint is the hash of a file that has landed less than a minute ago, as one of the last
64. -/
theorem applied_selection_skipped_iff (host : Host) (toml : Option TomlClipboard) (files : Disk)
    (contents : Contents) (moves : List Move) (addr : SocketAddr) (cf : ClipboardFiles)
    (a : InboundAnswers) :
    let d := run (step host) (start toml files contents) moves
    (d.AppliedLately cf.fingerprint → d.Skips host addr cf a) ↔
      (d.AppliedLately cf.fingerprint →
        ∃ report ∈ (d.reports.filter (·.2.2.success)).rtake 64,
          report.2.2.inboundSha = cf.fingerprint ∧ d.clock - report.1 < seconds 60) := by
  intro d
  refine imp_congr_right fun _ => ?_
  have marks : d.fileMarks.rtake fileLoopbackCapacity =
      ((d.reports.filter (·.2.2.success)).rtake 64).map fun report =>
        (report.1, report.2.2.inboundSha) := by
    simp only [fileMarks, List.rtake, List.map_drop, List.length_map, fileLoopbackCapacity]
  rw [skips_iff (marked_run host toml files contents moves), Recent.Lately, marks]
  constructor
  · rintro ⟨_, mem, same, age⟩
    obtain ⟨report, own, rfl⟩ := List.mem_map.mp mem
    exact ⟨report, own, same, age⟩
  · rintro ⟨report, mem, same, age⟩
    exact ⟨_, List.mem_map_of_mem mem, same, age⟩

/-- A file lands, and the selection it came with is fetched once more when it arrives again. -/
theorem applied_selection_fetched_again :
    let host : Host := ⟨fun bytes => Vector.replicate 32 (bytes.headD 0), "/d".toList⟩
    let addr : SocketAddr := ⟨.v4 #v[192, 168, 0, 2], 2268⟩
    let cf : ClipboardFiles :=
      ⟨Vector.replicate 32 9, [⟨"x", 1, "text/plain", Vector.replicate 32 1⟩]⟩
    let arrives : Action := .inbound addr (.clipboardFiles cf) {}
    let turns : List Move :=
      List.replicate 8 (.serve (.fileTurn 0 { fetch := some (.ok (200, [1])) }) {})
    let moves : List Move :=
      [.serve (.links (fun _ => true) fun _ => none) {}, .serve arrives {}] ++ turns ++
        [.serve (.fileApplied .done) { files := some ["/d/x".toList] }]
    let d := run (step host) (start none .empty {}) moves
    d.AppliedLately cf.fingerprint ∧ ¬ d.Skips host addr cf {} ∧
      d.service.world.tasks.length = 1 ∧
      (d.service.step host ⟨d.clock, arrives⟩).world.tasks.length = 2 := by
  intro host addr cf arrives turns moves d
  have unseen : (d.service.fileLruFingerprints.contains d.clock cf.fingerprint).1 = false := by
    decide +kernel
  exact ⟨by decide +kernel, fun skips => Bool.false_ne_true (unseen.symm.trans skips.1),
    by decide +kernel⟩

end Desktop

end LanMouse.Sync
