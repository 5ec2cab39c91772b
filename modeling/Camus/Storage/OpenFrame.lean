/-
**What opening a root leaves alone.**

Before `Storage.open` scans the segments it completes the root directory, reads the control state and
lists the segment directory. None of these steps changes a segment file, and none of them turns a
fault into a value.

* `Fs.Shelters` — the segment files of a state have their bytes and their names, and no file of the
  root directory is one of them. Every operation that is not on a segment file keeps this.
* `open_eq` — `Storage.open` by its parts: `openControl`, the list of segments, the scans,
  `openScanned`. `steady_openControl`, `steady_enumerateSegments` and `steady_openScanned` are about
  the parts other than the scans.
-/

import Camus.Lib.Steady
import Camus.Storage.LogRead
import Camus.Storage.Open

set_option linter.unusedSectionVars false

namespace Camus

open Codec Checked Disk FaultIo Std

variable {bytes : Bytes} {config : Config} {recovery : ControlRecovery}
  {outcome : DurabilityOutcome} {found : Enumerated} {reason : Error} {bodies : List ManifestBody}
  {names : List SegmentName} {listing : Listing} {manifest : Manifest} {inode : Nat}
  {entropy : RootId} {name source target temporary : RootName}

/-! ### Sheltered files -/

/-- **The segment files of a state are left alone**: they have the bytes they have in a reference
state, no name of the root directory leads to them, and those of the kept segments have their names. -/
structure Fs.Shelters (kept : Nat → Prop) (before reference now : Fs) : Prop where
  exist : ∀ segmentId file, segmentsDirectory.lookup (.log segmentId) before = some file →
    file < now.nodes.length
  content : ∀ segmentId file, segmentsDirectory.lookup (.log segmentId) before = some file →
    now.content file = reference.content file
  apart : ∀ segmentId file name, segmentsDirectory.lookup (.log segmentId) before = some file →
    rootDirectory.lookup name now = some file → name = .segments
  linked : ∀ segmentId file, segmentsDirectory.lookup (.log segmentId) before = some file →
    rootDirectory.holds .segments now = true
  fewer : ∀ segmentId file, segmentsDirectory.lookup (.log segmentId) now = some file →
    segmentsDirectory.lookup (.log segmentId) before = some file
  listed : ∀ segmentId file, kept segmentId →
    segmentsDirectory.lookup (.log segmentId) before = some file →
    segmentsDirectory.lookup (.log segmentId) now = some file

/-- A file is no segment of a state. -/
def Fs.NoSegment (before : Fs) (file : Nat) : Prop :=
  ∀ segmentId, segmentsDirectory.lookup (.log segmentId) before ≠ some file

namespace Fs.Shelters

variable {kept : Nat → Prop} {before reference now : Fs} {file : Nat}

/-- A change of a file that is no segment. -/
theorem modifyNode (shelters : Shelters kept before reference now) {change : FileNode → FileNode}
    (other : before.NoSegment file) : Shelters kept before reference (now.modifyNode file change) where
  exist segmentId inode found := by
    have inside := shelters.exist segmentId inode found
    simpa [Fs.modifyNode] using inside
  content segmentId inode found := by
    have different : inode ≠ file := by
      rintro rfl
      exact other segmentId found
    rw [Fs.modifyNode_content_other different]
    exact shelters.content segmentId inode found
  apart := shelters.apart
  linked := shelters.linked
  fewer := shelters.fewer
  listed := shelters.listed

/-- A change of the root directory that binds no name to a segment and keeps the segment directory. -/
theorem changeRoot (shelters : Shelters kept before reference now) {op : DirectoryOp RootName}
    (apart : ∀ segmentId inode (name : RootName),
      segmentsDirectory.lookup (.log segmentId) before = some inode →
      (op.apply now.root.entries)[name]? = some inode → name = .segments)
    (linked : now.root.entries.contains .segments = true →
      (op.apply now.root.entries).contains .segments = true) :
    Shelters kept before reference (rootDirectory.change op now) where
  exist := shelters.exist
  content := shelters.content
  apart segmentId inode name found bound := by
    refine apart segmentId inode name found ?_
    simpa [Place.lookup, Place.change, rootDirectory] using bound
  linked segmentId inode found := by
    have held := linked (shelters.linked segmentId inode found)
    simpa [Place.holds, Place.change, rootDirectory] using held
  fewer := shelters.fewer
  listed := shelters.listed

theorem unlink (shelters : Shelters kept before reference now) (named : name ≠ .segments) :
    Shelters kept before reference (rootDirectory.change (.unlink name) now) := by
  refine shelters.changeRoot (fun segmentId inode other found bound => ?_) fun held => ?_
  · exact shelters.apart segmentId inode other found (Maps.getElem?_erase_eq_some.mp bound).2
  · simpa [DirectoryOp.apply, ExtTreeMap.contains_erase, named] using held

theorem link (shelters : Shelters kept before reference now) {name : RootName} {inode : Nat}
    (other : before.NoSegment inode) :
    Shelters kept before reference (rootDirectory.change (.link name inode) now) := by
  refine shelters.changeRoot (fun segmentId file found isSegment bound => ?_) fun held => ?_
  · obtain ⟨-, rfl⟩ | ⟨-, bound⟩ := Maps.getElem?_insert_eq_some.mp bound
    · exact absurd isSegment (other segmentId)
    · exact shelters.apart segmentId file found isSegment bound
  · simp [DirectoryOp.apply, ExtTreeMap.contains_insert, held]

theorem move (shelters : Shelters kept before reference now)
    (bound : rootDirectory.lookup source now = some inode) (named : source ≠ .segments) :
    Shelters kept before reference (rootDirectory.change (.move source target inode) now) := by
  refine shelters.changeRoot (fun segmentId file name isSegment found => ?_) fun held => ?_
  · obtain ⟨-, rfl⟩ | ⟨-, found⟩ := Maps.getElem?_insert_eq_some.mp found
    · exact absurd (shelters.apart segmentId inode source isSegment bound) named
    · refine shelters.apart segmentId file name isSegment ?_
      split at found
      · exact (Maps.getElem?_erase_eq_some.mp found).2
      · exact found
  · simp only [DirectoryOp.apply, ExtTreeMap.contains_insert, Bool.or_eq_true]
    refine .inr ?_
    split
    · simpa [ExtTreeMap.contains_erase, named] using held
    · exact held

/-- New files are no segments of before. -/
theorem create (shelters : Shelters kept before reference now) :
    Shelters kept before reference { now with nodes := now.nodes ++ [FileNode.empty] } where
  exist segmentId inode found := by
    have inside := shelters.exist segmentId inode found
    simp only [List.length_append, List.length_singleton]
    omega
  content segmentId inode found := by
    have inside := shelters.exist segmentId inode found
    rw [← shelters.content segmentId inode found]
    simp [Fs.content, List.getElem?_append_left inside]
  apart := shelters.apart
  linked := shelters.linked
  fewer := shelters.fewer
  listed := shelters.listed

/-- The removal of a name of the segment directory that no kept segment has. -/
theorem unlinkSegment (shelters : Shelters kept before reference now) {name : SegmentName}
    (spare : ∀ segmentId, name = .log segmentId → ¬ kept segmentId) :
    Shelters kept before reference (segmentsDirectory.change (.unlink name) now) where
  exist := shelters.exist
  content := shelters.content
  apart := shelters.apart
  linked := shelters.linked
  fewer segmentId inode found := by
    refine shelters.fewer segmentId inode ?_
    simp only [Place.lookup, Place.change, segmentsDirectory, Directory.entries_change,
      DirectoryOp.apply] at found ⊢
    exact (Maps.getElem?_erase_eq_some.mp found).2
  listed segmentId inode isKept found := by
    have earlier := shelters.listed segmentId inode isKept found
    have other : name ≠ .log segmentId := fun same => spare segmentId same isKept
    simp only [Place.lookup, Place.change, segmentsDirectory, Directory.entries_change,
      DirectoryOp.apply, ExtTreeMap.getElem?_erase] at earlier ⊢
    simpa [other] using earlier

theorem fresh (shelters : Shelters kept before reference now) : before.NoSegment now.nodes.length :=
  fun segmentId found => Nat.lt_irrefl _ (shelters.exist segmentId _ found)

/-- A file of the root directory is no segment. -/
theorem noSegment (shelters : Shelters kept before reference now)
    (bound : rootDirectory.lookup name now = some file) (named : name ≠ .segments) :
    before.NoSegment file :=
  fun segmentId found => named (shelters.apart segmentId file name found bound)

theorem mono {fewer : Nat → Prop} (shelters : Shelters kept before reference now)
    (implies : ∀ segmentId, fewer segmentId → kept segmentId) : Shelters fewer before reference now :=
  { shelters with
    listed := fun segmentId inode isKept => shelters.listed segmentId inode (implies _ isKept) }

end Fs.Shelters

/-! ### Steady operations -/

section

variable [Hasher] {kept : Nat → Prop} {before reference : Fs}

/-- A write to a file that is no segment. -/
theorem steady_writeAll {file : Nat} (other : before.NoSegment file) :
    Steady (Fs.Shelters kept before reference) (writeAll file bytes reason) :=
  steady_step (fun _ shelters => shelters.modifyNode other)
    fun _ _ shelters => shelters.modifyNode other

theorem steady_syncData {file : Nat} (other : before.NoSegment file) :
    Steady (Fs.Shelters kept before reference) (syncData file reason) :=
  steady_step (fun _ shelters => shelters.modifyNode other) fun _ _ shelters => shelters

theorem steady_setLen {file length : Nat} (other : before.NoSegment file) :
    Steady (Fs.Shelters kept before reference) (setLen file length reason) :=
  steady_step (fun _ shelters => shelters.modifyNode other) fun _ _ shelters => shelters

theorem steady_removeRootFile (named : name ≠ .segments) :
    Steady (Fs.Shelters kept before reference) (rootDirectory.removeFile name reason) :=
  steady_read_bind fun _ _ => steady_then (steady_require _ _) fun _ =>
    steady_step (fun _ shelters => shelters.unlink named) fun _ _ shelters => shelters

theorem steady_removeSegmentFile {name : SegmentName}
    (spare : ∀ segmentId, name = .log segmentId → ¬ kept segmentId) :
    Steady (Fs.Shelters kept before reference) (segmentsDirectory.removeFile name reason) :=
  steady_read_bind fun _ _ => steady_then (steady_require _ _) fun _ =>
    steady_step (fun _ shelters => shelters.unlinkSegment spare) fun _ _ shelters => shelters

theorem steady_syncRoot :
    Steady (Fs.Shelters kept before reference) (rootDirectory.syncDirectory outcome) :=
  steady_step (fun _ shelters => { shelters with })
    fun _ _ shelters => shelters

theorem steady_syncSegments :
    Steady (Fs.Shelters kept before reference) (segmentsDirectory.syncDirectory outcome) :=
  steady_step (fun _ shelters => { shelters with })
    fun _ _ shelters => shelters

theorem steady_rename (named : source ≠ .segments) :
    Steady (Fs.Shelters kept before reference) (rootDirectory.rename source target reason) where
  keeps start faults shelters := by
    have meets : Meets (rootDirectory.rename source target reason) start
        (always (Fs.Shelters kept before reference) True fun _ _ => True) := by
      refine always_read_bind (always_ofOption_bind shelters (fun _ => trivial) fun inode bound => ?_)
      exact always_step (fun _ => shelters) (shelters.move bound named) trivial
    exact always_ends meets faults
  completes start value final _ returned := by
    obtain ⟨inode, bound, renamed⟩ := returned.bind_read.bind_ofOption
    obtain rfl := renamed.step
    exact completes_bind completes_read
      (completes_bind (completes_ofOption bound) (completes_step _ _ _))

/-- A new file of the root directory is no segment of before. -/
theorem steady_createNew_bind {α : Type} {next : Nat → FsIo α}
    (tail : ∀ inode, before.NoSegment inode →
      Steady (Fs.Shelters kept before reference) (next inode)) :
    Steady (Fs.Shelters kept before reference) (rootDirectory.createNew name reason >>= next) := by
  refine steady_bind ?_ fun inode start final shelters returned => tail inode ?_
  · refine steady_read_bind fun now _ => steady_then (steady_require _ _) fun _ => ?_
    refine steady_then (steady_step (fun state shelters => ?_) fun _ _ shelters => shelters)
      fun _ => steady_pure _
    exact shelters.create.link shelters.fresh
  · obtain ⟨rfl, -⟩ := returned.bind_read.bind_require.2.bind_step.pure
    exact shelters.fresh

theorem steady_removeStaleTemporary (named : temporary ≠ .segments) :
    Steady (Fs.Shelters kept before reference) (removeStaleTemporary temporary outcome) := by
  refine steady_read_bind fun now _ => ?_
  split
  · exact steady_then (steady_removeRootFile named) fun _ => steady_syncRoot
  · exact steady_pure ()

theorem steady_atomicReplace {canonical : RootName} (named : temporary ≠ .segments) :
    Steady (Fs.Shelters kept before reference) (atomicReplace temporary canonical bytes outcome) :=
  steady_then (steady_removeStaleTemporary named) fun _ => steady_createNew_bind fun _ other =>
    steady_then (steady_writeAll other) fun _ => steady_then (steady_syncData other) fun _ =>
      steady_then (steady_rename named) fun _ => steady_syncRoot

theorem steady_readCompleteFile :
    Steady (Fs.Shelters kept before reference) (readCompleteFile name) :=
  steady_read_bind fun _ _ => steady_then (steady_ofOption _ _) fun _ =>
    steady_then (steady_observe _) fun _ => steady_then (steady_observe _) fun _ =>
      steady_then (steady_require _ _) fun _ => steady_then (steady_observe _) fun _ =>
        steady_pure _

theorem steady_whenHeld {program : FsIo Unit}
    (steady : Steady (Fs.Shelters kept before reference) program) :
    Steady (Fs.Shelters kept before reference) (whenHeld name program) := by
  refine steady_read_bind fun now _ => ?_
  split
  · exact steady
  · exact steady_result ()

/-- The segment directory is only created where there is none. -/
theorem steady_ensureSegmentsDirectory :
    Steady (Fs.Shelters kept before reference) ensureSegmentsDirectory where
  keeps start faults shelters := by
    have meets : Meets ensureSegmentsDirectory start
        (always (Fs.Shelters kept before reference) True fun _ _ => True) := by
      refine always_read_bind ?_
      split
      · exact always_pure shelters trivial
      · rename_i missing
        have none : ∀ file, before.NoSegment file := fun file segmentId found =>
          missing (shelters.linked segmentId file found)
        have emptied : Fs.Shelters kept before reference { start with segments := .empty } :=
          { shelters with
            fewer := fun segmentId file found => by cases found
            listed := fun segmentId file _ found => absurd found (none file segmentId) }
        have created := @Fs.Shelters.link kept before reference _ emptied .segments 0 (none 0)
        refine always_step_bind (fun _ => shelters) ?_
        exact always_step (fun _ => created) { created with } trivial
    exact always_ends meets faults
  completes start value final _ returned := by
    replace returned := returned.bind_read
    refine completes_bind completes_read ?_
    split at returned
    · obtain ⟨rfl, rfl⟩ := returned.result
      rw [if_pos ‹_›]
      exact completes_result ()
    · rw [if_neg ‹_›]
      obtain rfl := returned.bind_step.step
      exact completes_bind (completes_step _ _ _) (completes_step _ _ _)

/-! ### The root directory -/

theorem steady_removeRootTemporary {removed : Nat} (named : name ≠ .segments) :
    Steady (Fs.Shelters kept before reference) (removeRootTemporary removed name) := by
  refine steady_read_bind fun now _ => ?_
  split
  · exact steady_then (steady_removeRootFile named) fun _ => steady_pure _
  · exact steady_pure _

theorem steady_removeRootTemporaries :
    Steady (Fs.Shelters kept before reference) removeRootTemporaries := by
  refine steady_then (steady_removeRootTemporary (by decide)) fun _ => ?_
  refine steady_then (steady_removeRootTemporary (by decide)) fun _ => ?_
  refine steady_then (steady_removeRootTemporary (by decide)) fun removed => ?_
  split
  · exact steady_then steady_syncRoot fun _ => steady_pure _
  · exact steady_pure _

theorem steady_initializeOrValidateRoot :
    Steady (Fs.Shelters kept before reference) (initializeOrValidateRoot entropy) := by
  refine steady_read_bind fun now _ => ?_
  split
  · exact steady_pure 0
  · refine steady_then (steady_whenHeld (steady_observe _)) fun _ => ?_
    refine steady_then (steady_require _ _) fun _ => steady_then (steady_require _ _) fun _ => ?_
    refine steady_then steady_removeRootTemporaries fun _ => steady_then (steady_observe _) fun _ => ?_
    exact steady_then (steady_atomicReplace (by decide)) fun _ => steady_pure _

theorem steady_createInitial {rootId : RootId} :
    Steady (Fs.Shelters kept before reference) (createInitial rootId) :=
  steady_then (steady_ofExcept _) fun _ => steady_then (steady_atomicReplace (by decide)) fun _ =>
    steady_atomicReplace (by decide)

theorem steady_validatePartialCheckpoint {rootId : RootId} :
    Steady (Fs.Shelters kept before reference) (validatePartialCheckpoint rootId) :=
  steady_then steady_readCompleteFile fun _ => steady_then (steady_ofExcept _) fun _ =>
    steady_require _ _

theorem steady_validatePartialLog {rootId : RootId} :
    Steady (Fs.Shelters kept before reference) (validatePartialLog rootId) :=
  steady_then steady_readCompleteFile fun _ => steady_then (steady_ofExcept _) fun _ =>
    steady_require _ _

theorem steady_completeEmptyControlInitialization {rootId : RootId} :
    Steady (Fs.Shelters kept before reference) (completeEmptyControlInitialization rootId) := by
  refine steady_read_bind fun now _ => ?_
  split
  · exact steady_result ()
  · refine steady_then (steady_observe _) fun _ => steady_then (steady_require _ _) fun _ => ?_
    refine steady_then (steady_whenHeld steady_validatePartialCheckpoint) fun _ => ?_
    refine steady_then (steady_whenHeld steady_validatePartialLog) fun _ => ?_
    refine steady_then (steady_whenHeld (steady_removeRootFile (by decide))) fun _ => ?_
    refine steady_then (steady_whenHeld (steady_removeRootFile (by decide))) fun _ => ?_
    exact steady_then steady_syncRoot fun _ => steady_createInitial

/-! ### The control state -/

theorem steady_truncateTail {file : Nat} (other : before.NoSegment file) (repair : Option Nat) :
    Steady (Fs.Shelters kept before reference) (truncateTail file repair) := by
  cases repair with
  | none => exact steady_result ()
  | some length => exact steady_then (steady_setLen other) fun _ => steady_syncData other

theorem steady_recover {rootId : RootId} : Steady (Fs.Shelters kept before reference) (recover rootId) := by
  refine steady_then steady_readCompleteFile fun _ => steady_then (steady_ofExcept _) fun _ => ?_
  refine steady_read_bind fun now shelters => steady_ofOption_bind fun file bound => ?_
  have other : before.NoSegment file := shelters.noSegment bound (by decide)
  refine steady_then (steady_observe _) fun _ => steady_then (steady_observe _) fun _ => ?_
  refine steady_then (steady_require _ _) fun _ => steady_then (steady_observe _) fun _ => ?_
  refine steady_then (steady_ofExcept _) fun _ => steady_then (steady_ofExcept _) fun scan => ?_
  refine steady_then (steady_truncateTail other _) fun _ => steady_then (steady_observe _) fun _ => ?_
  exact steady_pure _

/-- The log of a recovered root is no segment. -/
theorem noSegment_recover {rootId : RootId} {start final : Fs}
    (shelters : Fs.Shelters kept before reference start)
    (returned : Returns (recover rootId) start recovery final) :
    before.NoSegment recovery.manifest.file := by
  obtain ⟨file, log, checkpoint, header, scan, accepts, rfl, -⟩ := returns_recover returned
  exact shelters.noSegment accepts.logFound (by decide)

theorem steady_appendGroup (other : before.NoSegment manifest.file) :
    Steady (Fs.Shelters kept before reference) (manifest.appendGroup bodies outcome) := by
  unfold Manifest.appendGroup
  split
  · exact steady_result manifest
  · refine steady_then (steady_ofOption _ _) fun _ => steady_then (steady_ofExcept _) fun _ => ?_
    refine steady_then (steady_ofExcept _) fun _ => steady_then (steady_ofOption _ _) fun _ => ?_
    refine steady_then (steady_observe _) fun _ => steady_then (steady_writeAll other) fun _ => ?_
    exact steady_then (steady_syncData other) fun _ => steady_pure _

/-- A manifest stays the one of its file. -/
theorem returns_appendGroup_file {appended : Manifest} {start final : Fs}
    (returned : Returns (manifest.appendGroup bodies outcome) start appended final) :
    appended.file = manifest.file := by
  obtain ⟨-, rfl, -⟩ | ⟨frames, last, -, -, -, -, rfl, -⟩ := Manifest.returns_appendGroup returned
  · rfl
  · rfl

theorem steady_completeSeals {footers : List SegmentFooter} {control : Control}
    (other : before.NoSegment manifest.file) :
    Steady (Fs.Shelters kept before reference) (completeSeals manifest control footers) := by
  induction footers generalizing manifest control with
  | nil => exact steady_result _
  | cons footer rest ih =>
    refine steady_bind (steady_appendGroup other) fun appended start final _ returned => ih ?_
    rw [returns_appendGroup_file returned]
    exact other

theorem steady_fileLen : Steady (Fs.Shelters kept before reference) (fileLen name) :=
  steady_read_bind fun _ _ => steady_then (steady_ofOption _ _) fun _ =>
    steady_then (steady_observe _) fun _ => steady_pure _

theorem steady_calculateActualFileBytesFromDisk {segments : SegmentMap} :
    Steady (Fs.Shelters kept before reference) (calculateActualFileBytesFromDisk segments) :=
  steady_then steady_fileLen fun _ => steady_then (steady_ofOption _ _) fun _ =>
    steady_then steady_fileLen fun _ => steady_then (steady_ofOption _ _) fun _ => steady_ofExcept _

/-! ### The segment directory -/

theorem steady_validateRemovedSegmentHeader {rootId : RootId} {segmentId : Nat} :
    Steady (Fs.Shelters kept before reference) (validateRemovedSegmentHeader rootId segmentId) :=
  steady_read_bind fun _ _ => steady_then (steady_ofOption _ _) fun _ =>
    steady_then (steady_observe _) fun _ => steady_then (steady_observe _) fun _ =>
      steady_then (steady_require _ _) fun _ => steady_then (steady_observe _) fun _ =>
        steady_then (steady_ofExcept _) fun _ => steady_require _ _

variable {rootId : RootId} {control : Control}

/-- An enumeration removes temporaries and segments the control state holds as removed. -/
theorem steady_enumerateEntry {name : SegmentName}
    (spare : ∀ segmentId, control.removedSegments.contains segmentId = true → ¬ kept segmentId) :
    Steady (Fs.Shelters kept before reference) (enumerateEntry rootId control found name) := by
  refine steady_then (steady_observe _) fun _ => ?_
  split
  · rename_i temporary
    refine steady_then (steady_removeSegmentFile ?_) fun _ => steady_pure _
    rintro segmentId rfl
    cases temporary
  · refine steady_ofOption_bind fun segmentId parsed => ?_
    split
    · rename_i removed
      refine steady_then steady_validateRemovedSegmentHeader fun _ => ?_
      refine steady_then (steady_removeSegmentFile ?_) fun _ => steady_pure _
      rintro named rfl
      obtain rfl : named = segmentId := by
        simp only [parseSegmentName, Option.ite_none_right_eq_some, Option.some.injEq] at parsed
        exact parsed.2
      exact spare named removed
    · exact steady_then (steady_require _ _) fun _ => steady_pure _

theorem steady_enumerateEntries
    (spare : ∀ segmentId, control.removedSegments.contains segmentId = true → ¬ kept segmentId) :
    Steady (Fs.Shelters kept before reference) (enumerateEntries rootId control found names) := by
  induction names generalizing found with
  | nil => exact steady_result found
  | cons name rest ih => exact steady_then (steady_enumerateEntry spare) fun _ => ih

theorem steady_enumerateSegments
    (spare : ∀ segmentId, recovery.control.removedSegments.contains segmentId = true →
      ¬ kept segmentId) :
    Steady (Fs.Shelters kept before reference) (enumerateSegments rootId recovery listing) := by
  refine steady_then (steady_observe _) fun _ => steady_read_bind fun now _ => ?_
  refine steady_then (steady_enumerateEntries spare) fun found => ?_
  refine steady_then ?_ fun _ => steady_then (steady_ofExcept _) fun _ => steady_pure _
  unfold syncRemovals
  split
  · exact steady_syncSegments
  · exact steady_result ()

/-- An entry adds its segment unless the segment is removed. -/
theorem mem_enumerateEntry {next : Enumerated} {name : SegmentName} {start final : Fs}
    (returned : Returns (enumerateEntry rootId control found name) start next final)
    (segmentId : Nat) : segmentId ∈ next.segments ↔ segmentId ∈ found.segments ∨
      (name = .log segmentId ∧ control.removedSegments.contains segmentId = false) := by
  replace returned := returned.bind_observe
  split at returned
  · rename_i temporary
    obtain ⟨_, _, -, returned⟩ := returned.bind
    obtain ⟨rfl, -⟩ := returned.pure
    refine ⟨.inl, ?_⟩
    rintro (earlier | ⟨rfl, -⟩)
    · exact earlier
    · cases temporary
  · obtain ⟨parsed, isParsed, returned⟩ := returned.bind_ofOption
    obtain rfl : name = .log parsed := by
      unfold parseSegmentName at isParsed
      split at isParsed
      · split at isParsed
        · rw [Option.some.inj isParsed]
        · cases isParsed
      · cases isParsed
    split at returned
    · rename_i removed
      obtain ⟨_, _, -, returned⟩ := returned.bind
      obtain ⟨_, _, -, returned⟩ := returned.bind
      obtain ⟨rfl, -⟩ := returned.pure
      refine ⟨.inl, ?_⟩
      rintro (earlier | ⟨same, live⟩)
      · exact earlier
      · cases same
        rw [removed] at live
        cases live
    · rename_i live
      obtain ⟨-, returned⟩ := returned.bind_require
      obtain ⟨rfl, -⟩ := returned.pure
      simp only [ExtTreeSet.mem_insert, LawfulEqCmp.compare_eq_iff_eq, SegmentName.log.injEq]
      constructor
      · rintro (rfl | earlier)
        · exact .inr ⟨rfl, Bool.eq_false_iff.mpr live⟩
        · exact .inl earlier
      · rintro (earlier | ⟨rfl, -⟩)
        · exact .inr earlier
        · exact .inl rfl

theorem mem_enumerateEntries {last : Enumerated} {start final : Fs}
    (returned : Returns (enumerateEntries rootId control found names) start last final)
    (segmentId : Nat) : segmentId ∈ last.segments ↔ segmentId ∈ found.segments ∨
      (.log segmentId ∈ names ∧ control.removedSegments.contains segmentId = false) := by
  induction names generalizing found start with
  | nil =>
    obtain ⟨rfl, -⟩ := returned.result
    simp
  | cons name rest ih =>
    obtain ⟨next, middle, entered, returned⟩ := returned.bind
    rw [ih returned, mem_enumerateEntry entered segmentId, List.mem_cons]
    simp only [eq_comm (a := name), or_and_right, or_assoc]

/-- **An enumeration lists the segments of the directory that are not removed.** -/
theorem mem_enumerateSegments {start final : Fs}
    (returned : Returns (enumerateSegments rootId recovery listing) start found final)
    (segmentId : Nat) : segmentId ∈ found.segments ↔
      (∃ file, segmentsDirectory.lookup (.log segmentId) start = some file) ∧
        recovery.control.removedSegments.contains segmentId = false := by
  obtain ⟨listed, middle, entered, returned⟩ := returned.bind_observe.bind_read.bind
  obtain ⟨_, _, -, returned⟩ := returned.bind
  obtain ⟨_, -, returned⟩ := returned.bind_ofExcept
  obtain ⟨rfl, -⟩ := returned.pure
  have named : SegmentName.log segmentId ∈ listing.names start ↔
      ∃ file, segmentsDirectory.lookup (.log segmentId) start = some file := by
    rw [Listing.names, (listing.complete _).mem_iff, ExtTreeMap.mem_keys,
      ← ExtTreeMap.isSome_getElem?_iff_mem, Option.isSome_iff_exists]
    rfl
  rw [mem_enumerateEntries entered segmentId, named]
  simp

/-! ### The parts of an opening -/

/-- What is known of a root when its control state is recovered. -/
structure Opening where
  rootId : RootId
  removedTemporaries : Nat
  recovery : ControlRecovery

/-- The part of `Storage.open` that recovers the control state. -/
def openControl (config : Config) (entropy : RootId) : FsIo Opening := do
  ofExcept config.validate
  let initializedTemporaries ← initializeOrValidateRoot entropy
  let rootBytes ← readCompleteFile .rootFile
  let root ← ofExcept (malformed (.entry .rootFile) 0 (RootSuperblock.decode rootBytes))
  ensureSegmentsDirectory
  completeEmptyControlInitialization root.rootId
  let rootTemporaries ← removeRootTemporaries
  let recovery ← recover root.rootId
  return ⟨root.rootId, saturatingAdd initializedTemporaries rootTemporaries, recovery⟩

/-- The part of `Storage.open` after the segments were scanned. -/
def openScanned (config : Config) (opening : Opening) (found : Enumerated)
    (scanned : ScannedSegments) : FsIo Storage := do
  let activeSegment ← ofExcept (validateScannedSegments opening.recovery.control scanned)
  let (manifest, control) ← completeSeals opening.recovery.manifest opening.recovery.control
    (scanned.missingSeals.insertionSort fun left right => left.segmentId ≤ right.segmentId)
  let storage ← ofExcept (assembleStorage config opening.rootId opening.recovery manifest control
    scanned activeSegment
    (recoveryStats opening.recovery found scanned opening.removedTemporaries))
  let actualFileBytes ← calculateActualFileBytesFromDisk storage.segments
  ofExcept ({ storage with actualFileBytes := actualFileBytes } : Storage).validateCapacity
  return { storage with actualFileBytes := actualFileBytes }

/-- **An opening by its parts**: control state, list of segments, scans, the rest. -/
theorem open_eq (config : Config) (entropy : RootId) (listing : Listing) :
    Storage.open config entropy listing = openControl config entropy >>= fun opening =>
      enumerateSegments opening.rootId opening.recovery listing >>= fun found =>
        scanSegments opening.rootId opening.recovery.control ⟨∅, [], []⟩ found.segments.toList >>=
          openScanned config opening found := by
  unfold openControl Storage.open recoverSegments openScanned
  simp only [bind_regroup]
  rfl

theorem steady_openControl :
    Steady (Fs.Shelters kept before reference) (openControl config entropy) := by
  refine steady_then (steady_ofExcept _) fun _ => ?_
  refine steady_then steady_initializeOrValidateRoot fun _ => ?_
  refine steady_then steady_readCompleteFile fun _ => steady_then (steady_ofExcept _) fun root => ?_
  refine steady_then steady_ensureSegmentsDirectory fun _ => ?_
  refine steady_then steady_completeEmptyControlInitialization fun _ => ?_
  refine steady_then steady_removeRootTemporaries fun _ => ?_
  exact steady_then steady_recover fun _ => steady_pure _

/-- The log of an opened root is no segment. -/
theorem noSegment_openControl {start final : Fs} {opening : Opening}
    (shelters : Fs.Shelters kept before reference start)
    (returned : Returns (openControl config entropy) start opening final) :
    before.NoSegment opening.recovery.manifest.file := by
  obtain ⟨_, -, returned⟩ := returned.bind_ofExcept
  obtain ⟨_, first, done, returned⟩ := returned.bind
  replace shelters := steady_initializeOrValidateRoot.returned shelters done
  obtain ⟨_, second, done, returned⟩ := returned.bind
  replace shelters := steady_readCompleteFile.returned shelters done
  obtain ⟨root, -, returned⟩ := returned.bind_ofExcept
  obtain ⟨_, third, done, returned⟩ := returned.bind
  replace shelters := steady_ensureSegmentsDirectory.returned shelters done
  obtain ⟨_, fourth, done, returned⟩ := returned.bind
  replace shelters := steady_completeEmptyControlInitialization.returned shelters done
  obtain ⟨_, fifth, done, returned⟩ := returned.bind
  replace shelters := steady_removeRootTemporaries.returned shelters done
  obtain ⟨recovery, sixth, done, returned⟩ := returned.bind
  obtain ⟨rfl, -⟩ := returned.pure
  exact noSegment_recover shelters done

theorem steady_openScanned {opening : Opening} {scanned : ScannedSegments}
    (other : before.NoSegment opening.recovery.manifest.file) :
    Steady (Fs.Shelters kept before reference) (openScanned config opening found scanned) := by
  refine steady_then (steady_ofExcept _) fun _ => steady_then (steady_completeSeals other) fun _ => ?_
  refine steady_then (steady_ofExcept _) fun _ => ?_
  refine steady_then steady_calculateActualFileBytesFromDisk fun _ => ?_
  exact steady_then (steady_ofExcept _) fun _ => steady_pure _

end

end Camus
