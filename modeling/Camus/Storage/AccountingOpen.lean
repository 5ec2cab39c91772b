/-
**The accounts of a root that was just opened.**

`Storage.open` sums the lengths of the files it finds. This module relates them to what it keeps in
memory.

* `ControlFiles` — the files of checkpoint and log are as long as the manifest says. Scanning a segment
  does not touch them: their first words differ.
* `Accepts.recorded` — the control files are long enough for the high-waters they record.
* `returns_open` — what an opened root is made of.
-/

import Camus.Storage.SegmentGrammar
import Camus.Storage.AccountingSteps

set_option linter.unusedSectionVars false

namespace Camus

open Codec Checked Disk FaultIo Result Std

variable {path : Artifact} {checkpoint : Checkpoint} {config : Config} {control : Control}
  {recovery : ControlRecovery} {outcome : DurabilityOutcome} {found : Enumerated}
  {bodies frames : List ManifestBody} {listing : Listing} {scan : LogScan} {manifest : Manifest}
  {header : ManifestLogHeader} {file log segmentId baseline ordinal seq actual : Nat}
  {replay : Replay} {rootId entropy : RootId} {final segments : SegmentMap}
  {highwaters : Highwaters} {storage : Storage} {record : StoredRecord}
  {streamId : StreamId} {next streams start : StreamMap}

theorem followSequences_size {records : List StoredRecord} {sequences : Highwaters}
    (followed : tryFold (followSequence path) ∅ records = .ok sequences) :
    sequences.size = (records.map (·.streamId)).dedup.length := by
  refine Maps.size_eq_dedup_length fun streamId => ?_
  have all := tryFold_induction_done
    (fun processed (total : Highwaters) =>
      ∀ streamId, streamId ∈ total ↔ streamId ∈ processed.map (·.streamId))
    (fun _ => by simp) ?_ followed
  · exact all streamId
  · intro processed record rest total next _ kept stepped streamId
    have inserted : ∃ sequence, next = total.insert record.streamId sequence := by
      unfold followSequence at stepped
      split at stepped
      · exact ⟨_, (pure_eq_ok.mp stepped).symm⟩
      · simp only [bind_eq_ok, pure_eq_ok] at stepped
        obtain ⟨_, -, _, -, rfl⟩ := stepped
        exact ⟨_, rfl⟩
    obtain ⟨sequence, rfl⟩ := inserted
    rw [ExtTreeMap.mem_insert, LawfulEqOrd.compare_eq_iff_eq, kept, List.map_append,
      List.mem_append, List.map_singleton, List.mem_singleton, or_comm, eq_comm]

/-! ### The control files while a root is opened -/

section

variable [Hasher] {fs left : Fs}

/-- **The files of checkpoint and log are as long as the manifest says**, and begin as they should. -/
structure ControlFiles (manifest : Manifest) (file : Nat) (fs : Fs) : Prop where
  checkpoint : rootDirectory.lookup .checkpoint fs = some file
  checkpointMagic : slice (fs.content file) 0 8 = Camus.checkpointMagic
  checkpointLen : (fs.content file).length = manifest.checkpointLen
  log : rootDirectory.lookup .manifestLog fs = some manifest.file
  logMagic : slice (fs.content manifest.file) 0 8 = manifestLogMagic
  logLen : (fs.content manifest.file).length = manifest.logLen

theorem ControlFiles.distinct (files : ControlFiles manifest file fs) : file ≠ manifest.file := by
  intro same
  have magic := files.checkpointMagic
  rw [same, files.logMagic] at magic
  exact absurd magic (by decide)

theorem lookup_of_root (same : left.root = fs.root) (name : RootName) :
    rootDirectory.lookup name left = rootDirectory.lookup name fs := by
  show left.root.entries[name]? = fs.root.entries[name]?
  rw [same]

theorem lookup_of_segments (same : left.segments = fs.segments) (name : SegmentName) :
    segmentsDirectory.lookup name left = segmentsDirectory.lookup name fs := by
  show left.segments.entries[name]? = fs.segments.entries[name]?
  rw [same]

/-- Other files may change. -/
theorem ControlFiles.of_same (files : ControlFiles manifest file fs) (root : left.root = fs.root)
    (checkpoint : left.content file = fs.content file)
    (log : left.content manifest.file = fs.content manifest.file) :
    ControlFiles manifest file left where
  checkpoint := (lookup_of_root root _).trans files.checkpoint
  checkpointMagic := by rw [checkpoint, files.checkpointMagic]
  checkpointLen := by rw [checkpoint, files.checkpointLen]
  log := (lookup_of_root root _).trans files.log
  logMagic := by rw [log, files.logMagic]
  logLen := by rw [log, files.logLen]

/-- What recovery leaves. -/
theorem controlFiles_recover (accepts : Accepts rootId fs file log checkpoint header scan) :
    ControlFiles (scan.report checkpoint log (fs.content file).length
      (fs.content log).length).manifest file (fs.repaired log scan.repair) := by
  obtain ⟨frames, valid, -, -, kept, holds⟩ := accepts.frames
  have long := accepts.long
  have headerSize : (slice (fs.content log) 0 manifestLogHeaderLen).length = manifestLogHeaderLen :=
    slice_length (by omega)
  have sameCheckpoint : (fs.repaired log scan.repair).content file = fs.content file := by
    unfold Fs.repaired
    split
    · rfl
    · unfold Fs.cut
      rw [Fs.modifyNode_content_other accepts.distinct, Fs.modifyNode_content_other accepts.distinct]
  have sameRoot : (fs.repaired log scan.repair).root = fs.root := by
    unfold Fs.repaired
    split <;> rfl
  refine ⟨(lookup_of_root sameRoot _).trans accepts.checkpointFound, ?_, ?_,
    (lookup_of_root sameRoot _).trans accepts.logFound, ?_, ?_⟩
  · rw [sameCheckpoint]
    exact accepts.checkpointWords.1
  · rw [sameCheckpoint]
    rfl
  · have content := holds.content
    simp only [LogScan.report]
    rw [content, slice_append_left (by rw [headerSize]; decide), slice_slice (by decide)]
    exact accepts.logWords.1
  · have content := holds.content
    simp only [LogScan.report]
    rw [content, List.length_append, headerSize, framesBytes_length valid, kept]

/-- Enumerating the segments changes the segment directory only. -/
theorem returns_enumerateEntries {names : List SegmentName} {final : Enumerated}
    (returned : Returns (enumerateEntries rootId control found names) fs final left) :
    left.root = fs.root ∧ left.nodes = fs.nodes := by
  induction names generalizing found fs with
  | nil =>
    obtain ⟨-, rfl⟩ := Returns.result returned
    exact ⟨rfl, rfl⟩
  | cons name rest ih =>
    obtain ⟨next, middle, one, returned⟩ := returned.bind
    obtain ⟨sameRoot, sameNodes⟩ := ih returned
    suffices kept : middle.root = fs.root ∧ middle.nodes = fs.nodes from
      ⟨sameRoot.trans kept.1, sameNodes.trans kept.2⟩
    have one := one.bind_observe
    split at one
    · obtain ⟨_, removed, removes, one⟩ := one.bind
      obtain ⟨-, rfl⟩ := one.pure
      obtain ⟨-, removes⟩ := removes.bind_read.bind_require
      obtain rfl := Returns.step removes
      exact ⟨rfl, rfl⟩
    · obtain ⟨segmentId, -, one⟩ := one.bind_ofOption
      split at one
      · obtain ⟨_, validated, validates, one⟩ := one.bind
        obtain ⟨_, removed, removes, one⟩ := one.bind
        obtain ⟨-, rfl⟩ := one.pure
        obtain ⟨-, removes⟩ := removes.bind_read.bind_require
        obtain rfl := Returns.step removes
        obtain ⟨file, -, validates⟩ := validates.bind_read.bind_ofOption
        obtain ⟨-, validates⟩ := validates.bind_observe.bind_observe.bind_require
        have same : validated = fs := by
          obtain ⟨_, -, validates⟩ := validates.bind_observe.bind_ofExcept
          obtain ⟨-, rfl⟩ := Returns.require validates
          rfl
        rw [same]
        exact ⟨rfl, rfl⟩
      · obtain ⟨-, one⟩ := one.bind_require
        obtain ⟨-, rfl⟩ := one.pure
        exact ⟨rfl, rfl⟩

theorem returns_enumerateSegments
    (returned : Returns (enumerateSegments rootId recovery listing) fs found left) :
    left.root = fs.root ∧ left.nodes = fs.nodes := by
  obtain ⟨_, middle, enumerates, returned⟩ := returned.bind_observe.bind_read.bind
  obtain ⟨root, nodes⟩ := returns_enumerateEntries enumerates
  obtain ⟨_, synced, syncs, returned⟩ := returned.bind
  obtain ⟨_, -, returned⟩ := returned.bind_ofExcept
  obtain ⟨-, rfl⟩ := returned.pure
  unfold syncRemovals at syncs
  split at syncs
  · obtain rfl := Returns.step syncs
    exact ⟨root, nodes⟩
  · obtain ⟨-, rfl⟩ := Returns.result syncs
    exact ⟨root, nodes⟩

/-- A segment is longer than the entries of its records and counts its streams. -/
structure Segment.Measured (segment : Segment) : Prop where
  long : segmentHeaderLen + 16 * segment.records.length ≤ segment.fileLen
  unique : segment.uniqueStreams = segment.streamIds.dedup.length

/-- **The file of a segment**: its name leads to it, it begins as it should and is as long as the
segment says. -/
structure Segment.OnDisk (segment : Segment) (segmentId : Nat) (fs : Fs) : Prop where
  found : segmentsDirectory.lookup (.log segmentId) fs = some segment.file
  magic : slice (fs.content segment.file) 0 8 = segmentMagic
  named : readWord (fs.content segment.file) 24 = segmentId
  length : (fs.content segment.file).length = segment.fileLen

/-- Other files may change. -/
theorem Segment.OnDisk.of_same {segment : Segment} (onDisk : segment.OnDisk segmentId fs)
    (found : segmentsDirectory.lookup (.log segmentId) left =
      segmentsDirectory.lookup (.log segmentId) fs)
    (same : left.content segment.file = fs.content segment.file) :
    segment.OnDisk segmentId left where
  found := found.trans onDisk.found
  magic := by rw [same]; exact onDisk.magic
  named := by rw [same]; exact onDisk.named
  length := by rw [same]; exact onDisk.length

theorem Segment.OnDisk.distinct {segment other : Segment} {otherId : Nat}
    (onDisk : segment.OnDisk segmentId fs) (otherOnDisk : other.OnDisk otherId fs)
    (different : segmentId ≠ otherId) : segment.file ≠ other.file := by
  intro same
  have named := onDisk.named
  rw [same, otherOnDisk.named] at named
  exact different named.symm

/-- A segment shares its file with neither checkpoint nor log. -/
theorem ControlFiles.apart {segment : Segment} (files : ControlFiles manifest file fs)
    (onDisk : segment.OnDisk segmentId fs) :
    segment.file ≠ file ∧ segment.file ≠ manifest.file := by
  constructor
  · intro same
    have magic := onDisk.magic
    rw [same, files.checkpointMagic] at magic
    exact absurd magic (by decide)
  · intro same
    have magic := onDisk.magic
    rw [same, files.logMagic] at magic
    exact absurd magic (by decide)

theorem scanHeader_eq_ok {bytes : Bytes} {header : SegmentHeader}
    (scanned : scanHeader path rootId segmentId bytes = .ok header) :
    slice bytes 0 8 = segmentMagic ∧ readWord bytes 24 = segmentId := by
  simp only [scanHeader, malformed, bind_eq_ok, mapError_eq_ok, SegmentHeader.decode,
    ensure_eq_ok, decide_eq_true_eq, exact_eq_ok, pure_eq_ok] at scanned
  obtain ⟨_, ⟨_, ⟨-, rfl⟩, _, magic, _, -, _, -, rfl⟩, _, -, _, named, -⟩ := scanned
  exact ⟨magic, named⟩

/-- **What the scan of a segment finds**, and that it changes no file but that of the segment. -/
theorem measured_scan {repairs : Bool} {count : Option Nat} {segment : Segment}
    (returned : Returns (Segment.scan rootId segmentId repairs count) fs segment left) :
    segment.Measured ∧ segment.id = segmentId ∧ segment.OnDisk segmentId left ∧
      left.root = fs.root ∧ left.segments = fs.segments ∧
      slice (fs.content segment.file) 0 8 = segmentMagic ∧
      readWord (fs.content segment.file) 24 = segmentId ∧
      ∀ other, other ≠ segment.file → left.content other = fs.content other := by
  obtain ⟨file, found, returned⟩ := (Returns.bind_read returned).bind_ofOption
  obtain ⟨sized, returned⟩ := returned.bind_observe.bind_observe.bind_require
  obtain ⟨header, isHeader, returned⟩ := returned.bind_observe.bind_ofExcept
  obtain ⟨scanned, isScanned, returned⟩ := returned.bind_ofExcept
  obtain ⟨_, repaired, repairing, returned⟩ := returned.bind
  obtain ⟨uniqueStreams, isUnique, returned⟩ := returned.bind_ofExcept
  obtain ⟨unreleased, -, returned⟩ := returned.bind_observe.bind_ofOption
  obtain ⟨rfl, rfl⟩ := returned.pure
  have sized : segmentHeaderLen ≤ (fs.content file).length := of_decide_eq_true sized
  obtain ⟨magic, named⟩ := scanHeader_eq_ok isHeader
  rw [slice_slice (by decide)] at magic
  rw [readWord, slice_slice (by decide)] at named
  obtain ⟨long, cut⟩ := scanEpochs_long (by simp) sized isScanned
  have unique : uniqueStreams = (scanned.records.map (·.streamId)).dedup.length := by
    simp only [validateScanned, bind_eq_ok, pure_eq_ok] at isUnique
    obtain ⟨_, -, sequences, followed, _, -, rfl⟩ := isUnique
    exact followSequences_size followed
  refine ⟨⟨long, unique⟩, rfl, ?_⟩
  unfold repairTail at repairing
  split at repairing
  · rename_i noRepair
    obtain ⟨-, rfl⟩ := Returns.result repairing
    exact ⟨⟨found, magic, named, by rw [noRepair]; rfl⟩, rfl, rfl, magic, named, fun _ _ => rfl⟩
  · rename_i length isRepair
    obtain rfl := (Returns.bind_step repairing).step
    rw [isRepair] at long cut
    have content : (fs.cut file length).content file = (fs.content file).take length :=
      Fs.content_cut file length fs
    have short : segmentHeaderLen ≤ length := by
      have long : segmentHeaderLen + 16 * scanned.records.length ≤ length := long
      omega
    have cut : length ≤ (fs.content file).length := cut
    have keeps : ∀ start size, start + size ≤ segmentHeaderLen →
        slice ((fs.content file).take length) start size = slice (fs.content file) start size := by
      intro start size within
      simp only [slice, List.drop_take, List.take_take]
      congr 1
      omega
    refine ⟨⟨found, ?_, ?_, ?_⟩, rfl, rfl, magic, named, fun other different => ?_⟩
    · show slice ((fs.cut file length).content file) 0 8 = segmentMagic
      rw [content, keeps 0 8 (by decide)]
      exact magic
    · show readWord ((fs.cut file length).content file) 24 = segmentId
      rw [content, readWord, keeps 24 8 (by decide)]
      exact named
    · show ((fs.cut file length).content file).length = scanned.repair.getD _
      rw [content, isRepair, List.length_take]
      exact min_eq_left cut
    · rw [Fs.modifyNode_content_other different, Fs.modifyNode_content_other different]

/-- The control files and the segments, while segments are scanned. -/
theorem measured_scanSegments {rest : List Nat} {found final : ScannedSegments}
    (files : ControlFiles manifest file fs)
    (measured : ∀ (segmentId : Nat) (segment : Segment), found.segments[segmentId]? = some segment →
      segment.Measured ∧ segment.OnDisk segmentId fs)
    (returned : Returns (scanSegments rootId control found rest) fs final left) :
    ControlFiles manifest file left ∧
      ∀ (segmentId : Nat) (segment : Segment), final.segments[segmentId]? = some segment →
        segment.Measured ∧ segment.OnDisk segmentId left := by
  induction rest generalizing found fs with
  | nil =>
    obtain ⟨rfl, rfl⟩ := Returns.result returned
    exact ⟨files, measured⟩
  | cons segmentId rest ih =>
    obtain ⟨next, middle, scans, scansRest⟩ := returned.bind
    obtain ⟨segment, scannedFs, isScanned, classifies⟩ := scans.bind
    obtain ⟨classified, rfl⟩ := Returns.ofExcept classifies
    obtain ⟨isMeasured, rfl, onDisk, root, segments, magic, named, others⟩ := measured_scan isScanned
    have filesKept : ControlFiles manifest file middle := by
      refine files.of_same root (others _ ?_) (others _ ?_)
      · rintro rfl
        rw [files.checkpointMagic] at magic
        exact absurd magic (by decide)
      · intro same
        rw [← same, files.logMagic] at magic
        exact absurd magic (by decide)
    refine ih filesKept (fun otherId other isOther => ?_) scansRest
    rw [(classifySegment_eq_ok classified).1] at isOther
    obtain ⟨rfl, rfl⟩ | ⟨different, isOther⟩ := Maps.getElem?_insert_eq_some.mp isOther
    · exact ⟨isMeasured, onDisk⟩
    · obtain ⟨otherMeasured, otherOnDisk⟩ := measured otherId other isOther
      refine ⟨otherMeasured, otherOnDisk.of_same (lookup_of_segments segments _) (others _ ?_)⟩
      intro same
      rw [← same, otherOnDisk.named] at named
      exact different named.symm

/-- Frames change the log only. -/
theorem frame_appendGroup {next : Manifest}
    (returned : Returns (manifest.appendGroup bodies outcome) fs next left) :
    next.file = manifest.file ∧ left.root = fs.root ∧ left.segments = fs.segments ∧
      ∀ other, other ≠ manifest.file → left.content other = fs.content other := by
  obtain ⟨rfl, rfl, rfl⟩ | ⟨frames, last, -, -, -, -, rfl, rfl⟩ :=
    Manifest.returns_appendGroup returned
  · exact ⟨rfl, rfl, rfl, fun _ _ => rfl⟩
  · refine ⟨rfl, rfl, rfl, fun other different => ?_⟩
    rw [Fs.modifyNode_content_other different, Fs.modifyNode_content_other different]

/-- Frames are added to the log and to its length. -/
theorem ControlFiles.appendGroup {manifest next : Manifest} {file : Nat} {bodies : List ManifestBody}
    {outcome : DurabilityOutcome} (files : ControlFiles manifest file fs)
    (returned : Returns (manifest.appendGroup bodies outcome) fs next left) :
    ControlFiles next file left := by
  obtain ⟨rfl, rfl, rfl⟩ | ⟨frames, last, -, -, -, -, rfl, rfl⟩ :=
    Manifest.returns_appendGroup returned
  · exact files
  · have some : fs.content manifest.file ≠ [] := by
      intro empty
      have magic := files.logMagic
      rw [empty] at magic
      exact absurd magic (by decide)
    have holds := ((Fs.holdsAt_content some).append frames.flatten).sync
    have other : ((fs.modifyNode manifest.file (FileNode.append frames.flatten)).modifyNode
        manifest.file FileNode.sync).content file = fs.content file := by
      rw [Fs.modifyNode_content_other files.distinct, Fs.modifyNode_content_other files.distinct]
    have prefixed : 8 ≤ (fs.content manifest.file).length := by
      by_contra short
      have magic := congrArg List.length files.logMagic
      rw [manifestLogMagic_length] at magic
      simp only [slice, List.length_take, List.length_drop] at magic
      omega
    exact
      { checkpoint := files.checkpoint
        checkpointMagic := by rw [other]; exact files.checkpointMagic
        checkpointLen := by rw [other]; exact files.checkpointLen
        log := files.log
        logMagic := by
          rw [holds.content, slice_append_left prefixed]
          exact files.logMagic
        logLen := by rw [holds.content, List.length_append, files.logLen] }

theorem ControlFiles.completeSeals {final : Manifest} {last : Control}
    {footers : List SegmentFooter} (files : ControlFiles manifest file fs)
    (returned : Returns (Camus.completeSeals manifest control footers) fs (final, last) left) :
    ControlFiles final file left ∧ final.checkpointLen = manifest.checkpointLen ∧
      manifest.logLen ≤ final.logLen ∧ last.removedSegments = control.removedSegments ∧
      last.streamHighwaters = control.streamHighwaters ∧
      ∀ (segmentId : Nat) (segment : Segment), segment.OnDisk segmentId fs →
        segment.OnDisk segmentId left := by
  induction footers generalizing manifest control fs with
  | nil =>
    obtain ⟨same, rfl⟩ := Returns.result returned
    obtain ⟨rfl, rfl⟩ := Prod.mk.inj same
    exact ⟨files, rfl, Nat.le_refl _, rfl, rfl, fun _ _ => id⟩
  | cons footer rest ih =>
    obtain ⟨appended, middle, appends, returned⟩ := returned.bind
    obtain ⟨sameCheckpoint, grows⟩ := returns_appendFrames appends
    obtain ⟨finalFiles, checkpointLen, longer, removed, highwaters, keeps⟩ :=
      ih (files.appendGroup appends) returned
    refine ⟨finalFiles, checkpointLen.trans sameCheckpoint, by omega, removed, highwaters,
      fun segmentId segment onDisk => keeps segmentId segment ?_⟩
    obtain ⟨-, -, segments, others⟩ := frame_appendGroup appends
    exact onDisk.of_same (lookup_of_segments segments _) (others _ (files.apart onDisk).2)

end

/-! ### The standing of the rebuilt streams -/

/-- A live segment holds a record of a stream. -/
def HeldIn (segments : SegmentMap) (streamId : StreamId) : Prop :=
  ∃ (segmentId : Nat) (segment : Segment), segments[segmentId]? = some segment ∧
    streamId ∈ segment.streamIds

theorem Segment.streamIds_bare (segment : Segment) : segment.bare.streamIds = segment.streamIds := by
  simp only [Segment.streamIds, Segment.bare, List.map_map]
  rfl

theorem SameSegments.streamIds (same : SameSegments segments final) {segment original : Segment}
    (found : final[segmentId]? = some segment) (isOriginal : segments[segmentId]? = some original) :
    segment.streamIds = original.streamIds := by
  obtain ⟨other, isOther, equal⟩ := same.found found
  cases isOriginal.symm.trans isOther
  rw [← segment.streamIds_bare, equal, original.streamIds_bare]

theorem SameSegments.symm (same : SameSegments segments final) :
    SameSegments final segments := fun segmentId => (same segmentId).symm

theorem SameSegments.heldIn (same : SameSegments segments final) (held : HeldIn segments streamId) :
    HeldIn final streamId := by
  obtain ⟨segmentId, original, isOriginal, isHeld⟩ := held
  obtain ⟨segment, found, -⟩ := same.symm.found isOriginal
  refine ⟨segmentId, segment, found, ?_⟩
  rw [same.streamIds found isOriginal]
  exact isHeld

/-- Every stream of a map is persisted or held, and what is persisted has a high-water. -/
structure Standing (segments : SegmentMap) (streams : StreamMap) : Prop where
  known : ∀ streamId ∈ streams, streams.persists streamId ∨ HeldIn segments streamId
  backed : ∀ streamId, streams.persists streamId →
    (streams.entry streamId).highwater.isSome = true

/-- A stream is added or changed: it is held, and loses neither its high-water nor its persistence. -/
theorem Standing.step {segments : SegmentMap} {streams next : StreamMap} {added : StreamId}
    (standing : Standing segments streams)
    (members : ∀ streamId ∈ next, streamId = added ∨ streamId ∈ streams)
    (isKnown : next.persists added ∨ HeldIn segments added)
    (persists : ∀ streamId, streamId ≠ added → (next.persists streamId ↔ streams.persists streamId))
    (backed : ∀ streamId, next.persists streamId →
      (streams.entry streamId).highwater.isSome = true ∨ ¬ streams.persists streamId →
        (next.entry streamId).highwater.isSome = true) :
    Standing segments next where
  known streamId member := by
    by_cases same : streamId = added
    · rw [same]
      exact isKnown
    · rcases members streamId member with here | old
      · exact absurd here same
      · exact (standing.known streamId old).imp_left (persists streamId same).mpr
  backed streamId isPersisted := by
    refine backed streamId isPersisted ?_
    by_cases was : streams.persists streamId
    · exact .inl (standing.backed streamId was)
    · exact .inr was

theorem standing_checkpointStreams (segments : SegmentMap)
    (highwaters : Highwaters) :
    Standing segments (checkpointStreams highwaters) := by
  constructor
  · intro streamId member
    have isKnown : streamId ∈ highwaters := ExtTreeMap.mem_map.mp member
    obtain ⟨highwater, found⟩ := Maps.mem_iff_found.mp isKnown
    refine .inl ?_
    simp [StreamMap.persists, checkpointStreams_entry, found]
  · intro streamId isPersisted
    simp only [StreamMap.persists, checkpointStreams_entry] at isPersisted ⊢
    cases found : highwaters[streamId]? with
    | none =>
      rw [found] at isPersisted
      cases isPersisted
    | some highwater => rfl

theorem replayRecord_members {next : Replay}
    (replayed : replayRecord segmentId path baseline replay (record, ordinal) = .ok next)
    (streamId : StreamId) (member : streamId ∈ next.streams) :
    streamId = record.streamId ∨ streamId ∈ replay.streams := by
  simp only [replayRecord, bind_eq_ok, pure_eq_ok] at replayed
  obtain ⟨_, -, checked, isChecked, rfl⟩ := replayed
  have inserted : ∀ {streams : StreamMap} {state : StreamState},
      streamId ∈ streams.insert record.streamId state →
        streamId = record.streamId ∨ streamId ∈ streams :=
    fun isMember => (Maps.mem_insert.mp isMember).imp_left Eq.symm
  rcases inserted member with here | old
  · exact .inl here
  · unfold checkRecord at isChecked
    split at isChecked
    · simp only [checkBaselineRecord, bind_eq_ok, pure_eq_ok] at isChecked
      obtain ⟨_, -, _, -, _, -, rfl⟩ := isChecked
      exact .inr old
    · simp only [advanceRecoveredSequence, bind_eq_ok, pure_eq_ok] at isChecked
      obtain ⟨_, ⟨_, -, _, -, rfl⟩, rfl⟩ := isChecked
      exact inserted old

theorem Standing.replayRecord {next : Replay} (standing : Standing segments replay.streams)
    (held : HeldIn segments record.streamId)
    (replayed : Camus.replayRecord segmentId path baseline replay (record, ordinal) = .ok next) :
    Standing segments next.streams := by
  obtain ⟨-, -, entries⟩ := replayRecord_eq_ok replayed
  have persists : ∀ streamId, next.streams.persists streamId ↔ replay.streams.persists streamId := by
    intro streamId
    unfold StreamMap.persists
    rw [entries]
    split <;> rfl
  refine standing.step (replayRecord_members replayed) (.inr held) (fun streamId _ => persists streamId)
    fun streamId isPersisted was => ?_
  have isSome : (replay.streams.entry streamId).highwater.isSome = true :=
    was.elim id fun never => absurd ((persists streamId).mp isPersisted) never
  rw [entries]
  split
  · simp only
    split
    · exact isSome
    · rfl
  · exact isSome

theorem Standing.replayHighwater {highwater : StreamHighwater}
    (standing : Standing segments streams)
    (replayed : Camus.replayHighwater streams highwater = .ok next) : Standing segments next := by
  have entries := replayHighwater_eq_ok replayed
  have members : ∀ streamId ∈ next, streamId = highwater.streamId ∨ streamId ∈ streams := by
    intro streamId member
    simp only [Camus.replayHighwater, bind_eq_ok, pure_eq_ok] at replayed
    obtain ⟨_, -, rfl⟩ := replayed
    exact (Maps.mem_insert.mp member).imp_left Eq.symm
  have here : next.persists highwater.streamId := by
    unfold StreamMap.persists
    rw [entries, if_pos rfl]
    rfl
  refine standing.step members (.inl here) (fun streamId different => ?_)
    fun streamId isPersisted was => ?_
  · unfold StreamMap.persists
    rw [entries, if_neg fun same => different same.symm]
  · unfold StreamMap.persists at isPersisted
    rw [entries] at isPersisted ⊢
    split
    · rfl
    · rename_i different
      rw [if_neg different] at isPersisted
      exact was.elim id fun never => absurd isPersisted never

theorem standing_replay
    (folded : tryFold (replaySegment segments control.liveSegments control.removedSegments)
      ⟨checkpointStreams highwaters, ∅, ∅⟩ (allSegmentIds segments control.removedSegments) =
        .ok replay) : Standing segments replay.streams := by
  refine tryFold_induction (fun total : Replay => Standing segments total.streams)
    (standing_checkpointStreams segments highwaters) ?_ folded
  intro total segmentId next _ standing stepped
  simp only [replaySegment, bind_eq_ok] at stepped
  obtain ⟨live, isLive, isRemoved⟩ := stepped
  have afterLive : Standing segments live.streams := by
    cases found : segments[segmentId]? with
    | none =>
      rw [found] at isLive
      cases isLive
      exact standing
    | some segment =>
      rw [found] at isLive
      refine tryFold_induction (fun total : Replay => Standing segments total.streams) standing
        ?_ isLive
      rintro current ⟨record, ordinal⟩ following member kept one
      refine kept.replayRecord ⟨segmentId, segment, found, ?_⟩ one
      exact List.mem_map.mpr ⟨record, List.fst_mem_of_mem_zipIdx member, rfl⟩
  cases found : control.removedSegments[segmentId]? with
  | none =>
    rw [found] at isRemoved
    cases isRemoved
    exact afterLive
  | some body =>
    rw [found] at isRemoved
    simp only [replayRemoved, bind_eq_ok, pure_eq_ok] at isRemoved
    obtain ⟨streams, foldedHighwaters, rfl⟩ := isRemoved
    exact tryFold_induction (fun total : StreamMap => Standing segments total) afterLive
      (fun _ _ _ _ kept one => kept.replayHighwater one) foldedHighwaters

theorem Standing.indexRecord (standing : Standing segments streams)
    (held : HeldIn segments record.streamId)
    (indexed : Camus.indexRecord segmentId path streams (record, ordinal) = .ok next) :
    Standing segments next := by
  obtain ⟨-, entries⟩ := indexRecord_eq_ok indexed
  have members : ∀ streamId ∈ next, streamId = record.streamId ∨ streamId ∈ streams := by
    intro streamId member
    simp only [Camus.indexRecord, bind_eq_ok, pure_eq_ok] at indexed
    obtain ⟨_, -, _, -, rfl⟩ := indexed
    exact (Maps.mem_insert.mp member).imp_left Eq.symm
  have persists : ∀ streamId, next.persists streamId ↔ streams.persists streamId := by
    intro streamId
    unfold StreamMap.persists
    rw [entries]
    split <;> rfl
  refine standing.step members (.inr held) (fun streamId _ => persists streamId)
    fun streamId isPersisted was => ?_
  have isSome : (streams.entry streamId).highwater.isSome = true :=
    was.elim id fun never => absurd ((persists streamId).mp isPersisted) never
  rw [entries]
  split <;> exact isSome

theorem standing_index {final : StreamMap} (standing : Standing segments start)
    (folded : tryFold indexSegment start segments.toList = .ok final) :
    Standing segments final := by
  refine tryFold_induction (fun total : StreamMap => Standing segments total) standing ?_ folded
  rintro total ⟨segmentId, segment⟩ next member kept stepped
  have found : segments[segmentId]? = some segment :=
    ExtTreeMap.mem_toList_iff_getElem?_eq_some.mp member
  refine tryFold_induction (fun total : StreamMap => Standing segments total) kept ?_ stepped
  rintro current ⟨record, ordinal⟩ following isMember before one
  refine before.indexRecord ⟨segmentId, segment, found, ?_⟩ one
  exact List.mem_map.mpr ⟨record, List.fst_mem_of_mem_zipIdx isMember, rfl⟩

theorem Standing.applyDurableHighwater {persisted : Nat} (standing : Standing segments streams)
    (applied : Camus.applyDurableHighwater streams (streamId, persisted) = .ok next) :
    Standing segments next := by
  obtain ⟨⟨highwater, isHighwater, -⟩, entries⟩ := applyDurableHighwater_eq_ok applied
  have members : ∀ other ∈ next, other = streamId ∨ other ∈ streams := by
    intro other member
    simp only [Camus.applyDurableHighwater, bind_eq_ok, pure_eq_ok] at applied
    obtain ⟨_, -, rfl⟩ := applied
    exact (Maps.mem_insert.mp member).imp_left Eq.symm
  have here : next.persists streamId := by
    unfold StreamMap.persists
    rw [entries]
    split
    · rfl
    · rename_i fresh
      cases before : (streams.entry streamId).persistedHighwater with
      | none => simp [before] at fresh
      | some value => rfl
  refine standing.step members (.inl here) (fun other different => ?_) fun other isPersisted was => ?_
  · unfold StreamMap.persists
    rw [entries, if_neg fun both => different both.1.symm]
  · have same : (next.entry other).highwater = (streams.entry other).highwater := by
      rw [entries]
      split <;> rfl
    rw [same]
    by_cases isHere : streamId = other
    · subst isHere
      rw [isHighwater]
      rfl
    · unfold StreamMap.persists at isPersisted was
      rw [entries, if_neg fun both => isHere both.1] at isPersisted
      exact was.elim id fun never => absurd isPersisted never

/-! ### What is persisted -/

/-- The checkpoint or a removal frame of some frames holds a high-water of a stream. -/
def Recorded (checkpoint : Checkpoint) (frames : List ManifestBody) (streamId : StreamId) : Prop :=
  streamId ∈ checkpoint.streamHighwaters.keys ++ frames.flatMap ManifestBody.persistedStreams

/-- The control state holds nothing but what is recorded. -/
structure RecordedControl (checkpoint : Checkpoint) (frames : List ManifestBody) (control : Control) :
    Prop where
  removed : ∀ (segmentId : Nat) (body : SegmentRemovedBody),
    control.removedSegments[segmentId]? = some body → ∀ highwater ∈ body.highwaters,
      Recorded checkpoint frames highwater.streamId
  highwaters : ∀ streamId ∈ control.streamHighwaters, Recorded checkpoint frames streamId

theorem advanceHighwaters_members {offset : Nat} {next : Highwaters}
    {items : List StreamHighwater}
    (advanced : tryFold (advanceHighwater path offset) highwaters items = .ok next)
    (streamId : StreamId) (member : streamId ∈ next) :
    streamId ∈ highwaters ∨ streamId ∈ items.map (·.streamId) := by
  revert member
  refine tryFold_induction_done (fun processed (total : Highwaters) =>
    streamId ∈ total → streamId ∈ highwaters ∨ streamId ∈ processed.map (·.streamId))
    (fun member => Or.inl member) ?_ advanced
  intro processed highwater rest total later _ kept stepped member
  simp only [advanceHighwater, bind_eq_ok, pure_eq_ok] at stepped
  obtain ⟨_, -, rfl⟩ := stepped
  rw [List.map_append, List.mem_append, ← or_assoc]
  rcases Maps.mem_insert.mp member with same | old
  · exact .inr (by simp [same])
  · exact .inl (kept old)

theorem Recorded.mono (recorded : Recorded checkpoint frames streamId) (body : ManifestBody) :
    Recorded checkpoint (frames ++ [body]) streamId := by
  unfold Recorded at recorded ⊢
  rw [List.flatMap_append, ← List.append_assoc]
  exact List.mem_append_left _ recorded

theorem RecordedControl.applyBody {next : Control} {body : ManifestBody}
    (recorded : RecordedControl checkpoint frames control)
    (applied : Camus.applyBody control body = some next) :
    RecordedControl checkpoint (frames ++ [body]) next := by
  have kept : RecordedControl checkpoint (frames ++ [body]) control :=
    ⟨fun segmentId removed found highwater member =>
      (recorded.removed segmentId removed found highwater member).mono body,
      fun streamId member => (recorded.highwaters streamId member).mono body⟩
  rw [Camus.applyBody, toOption_eq_some] at applied
  cases body with
  | release release =>
    cases applied
    exact ⟨kept.removed, kept.highwaters⟩
  | segmentSealed sealed =>
    simp only [applyFrame, bind_eq_ok] at applied
    obtain ⟨_, -, applied⟩ := applied
    split at applied
    · simp only [bind_eq_ok, pure_eq_ok] at applied
      obtain ⟨_, -, rfl⟩ := applied
      exact ⟨kept.removed, kept.highwaters⟩
    · cases applied
      exact ⟨kept.removed, kept.highwaters⟩
  | segmentRemoved removed =>
    simp only [applyFrame, bind_eq_ok, pure_eq_ok] at applied
    obtain ⟨_, -, _, -, highwaters, advanced, _, -, rfl⟩ := applied
    have here : ∀ streamId ∈ removed.highwaters.map (·.streamId),
        Recorded checkpoint (frames ++ [.segmentRemoved removed]) streamId := by
      intro streamId member
      refine List.mem_append_right _ ?_
      rw [List.flatMap_append, List.mem_append]
      exact .inr (by simpa [ManifestBody.persistedStreams] using member)
    refine ⟨fun segmentId other found highwater member => ?_, fun streamId member => ?_⟩
    · obtain ⟨-, rfl⟩ | ⟨-, found⟩ := Maps.getElem?_insert_eq_some.mp found
      · exact here _ (List.mem_map.mpr ⟨highwater, member, rfl⟩)
      · exact kept.removed segmentId other found highwater member
    · rcases advanceHighwaters_members advanced streamId member with old | new
      · exact kept.highwaters streamId old
      · exact here streamId new

theorem recordedControl_checkpoint (checkpoint : Checkpoint) :
    RecordedControl checkpoint [] checkpoint.control where
  removed segmentId body found := by simp [Checkpoint.control] at found
  highwaters streamId member :=
    List.mem_append_left _ (ExtTreeMap.mem_keys.mpr member)

/-- **The control state holds what the checkpoint and the walked frames record.** -/
theorem RecordedControl.walk {done : List ManifestBody} {lastAppliedSeq : Nat}
    {walk final : LogWalk} (recorded : RecordedControl checkpoint done walk.control)
    (walked : walkBodies lastAppliedSeq seq walk frames = some final) :
    RecordedControl checkpoint (done ++ frames) final.control := by
  induction frames generalizing done seq walk with
  | nil =>
    cases walked
    rw [List.append_nil]
    exact recorded
  | cons body rest ih =>
    rw [← List.singleton_append, ← List.append_assoc]
    rw [walkBodies] at walked
    split at walked
    · refine ih ?_ walked
      exact ⟨fun segmentId removed found highwater member =>
        (recorded.removed segmentId removed found highwater member).mono body,
        fun streamId member => (recorded.highwaters streamId member).mono body⟩
    · split at walked
      · obtain ⟨control, applied, walked⟩ := Option.bind_eq_some_iff.mp walked
        have next := recorded.applyBody applied
        exact ih next walked
      · cases walked

section

variable [Hasher] {fs : Fs}

theorem framesValid_persisted (valid : FramesValid seq frames) :
    16 * (frames.flatMap ManifestBody.persistedStreams).length ≤ framesLength frames := by
  induction frames generalizing seq with
  | nil => simp
  | cons body rest ih =>
    obtain ⟨-, encodedBody, bodyEncoded, -, -⟩ := ManifestFrame.encodeParts_eq_ok.mp valid.1.encoded
    have bounded := ManifestBody.persistedStreams_le bodyEncoded
    have restBounded := ih valid.2
    have length : body.frameLength = manifestFrameHeaderLen + encodedBody.length := by
      rw [ManifestBody.frameLength, bodyEncoded]
      rfl
    rw [List.flatMap_cons, List.length_append, framesLength_cons, length]
    omega

/-- **The control files are long enough for what they record.** -/
theorem Accepts.recorded (accepts : Accepts rootId fs file log checkpoint header scan) :
    ∃ frames, RecordedControl checkpoint frames scan.walk.control ∧
      ∀ ids : List StreamId, ids.Nodup → (∀ streamId ∈ ids, Recorded checkpoint frames streamId) →
        checkpointBytes ids.length + manifestLogHeaderLen ≤
          (fs.content file).length + scan.repair.getD (fs.content log).length := by
  obtain ⟨frames, valid, walked, -, kept, -⟩ := accepts.frames
  refine ⟨frames, (recordedControl_checkpoint checkpoint).walk walked, ?_⟩
  intro ids distinct recorded
  have checkpointLong := Checkpoint.checkpointBytes_le (Checkpoint.encode_decode accepts.decoded)
  have logLong := framesValid_persisted valid
  have bounded := (List.subperm_of_subset distinct recorded).length_le
  rw [List.length_append] at bounded
  rw [kept]
  unfold checkpointBytes at checkpointLong ⊢
  omega

end

/-! ### The rebuilt streams -/

/-- Indexing leaves the high-waters and the last segments of the streams. -/
theorem indexSegments_entry {segments : List (Nat × Segment)} {start final : StreamMap}
    (folded : tryFold indexSegment start segments = .ok final) (streamId : StreamId) :
    (final.entry streamId).persistedHighwater = (start.entry streamId).persistedHighwater ∧
      (final.entry streamId).lastSegmentId = (start.entry streamId).lastSegmentId ∧
      (final.entry streamId).highwater = (start.entry streamId).highwater := by
  let kept (total : StreamMap) : Prop :=
    (total.entry streamId).persistedHighwater = (start.entry streamId).persistedHighwater ∧
      (total.entry streamId).lastSegmentId = (start.entry streamId).lastSegmentId ∧
      (total.entry streamId).highwater = (start.entry streamId).highwater
  refine tryFold_induction kept (by exact ⟨rfl, rfl, rfl⟩) ?_ folded
  rintro total ⟨segmentId, segment⟩ next - before stepped
  refine tryFold_induction kept before ?_ stepped
  rintro current ⟨record, ordinal⟩ following - whole one
  obtain ⟨-, entries⟩ := indexRecord_eq_ok one
  show (following.entry streamId).persistedHighwater = _ ∧ _
  rw [entries]
  split <;> exact whole

theorem applyDurableHighwaters_persists {final : StreamMap} {entries : List (StreamId × Nat)}
    (folded : tryFold applyDurableHighwater streams entries = .ok final) (streamId : StreamId) :
    (final.entry streamId).lastSegmentId = (streams.entry streamId).lastSegmentId ∧
      (final.persists streamId → streams.persists streamId ∨ streamId ∈ entries.map Prod.fst) := by
  refine tryFold_induction (fun total : StreamMap =>
    (total.entry streamId).lastSegmentId = (streams.entry streamId).lastSegmentId ∧
      (total.persists streamId → streams.persists streamId ∨ streamId ∈ entries.map Prod.fst))
    (by exact ⟨rfl, .inl⟩) ?_ folded
  rintro total ⟨other, persisted⟩ next member ⟨last, persists⟩ stepped
  have entry := (applyDurableHighwater_eq_ok stepped).2 streamId
  unfold StreamMap.persists at persists ⊢
  rw [entry]
  split
  · rename_i both
    refine ⟨last, fun _ => .inr ?_⟩
    rw [← both.1]
    exact List.mem_map_of_mem member
  · exact ⟨last, persists⟩

/-- **The rebuilt streams** are held or recorded, and end where their records are. -/
theorem standing_rebuildIndexes {scanned : SegmentMap}
    (recorded : RecordedControl checkpoint frames control)
    (rebuilt : rebuildIndexes scanned checkpoint.streamHighwaters control = .ok (segments, streams))
    :
    Standing segments streams ∧
      (∀ streamId, streams.persists streamId → Recorded checkpoint frames streamId) ∧
      ∀ (streamId : StreamId) (segmentId : Nat),
        (streams.entry streamId).lastSegmentId = some segmentId →
          ∃ segment, segments[segmentId]? = some segment ∧ streamId ∈ segment.streamIds := by
  obtain ⟨replay, indexed, ⟨applied, -, isReplay, isReleased⟩, isIndexed, isFinal⟩ :=
    rebuildIndexes_eq_ok.mp rebuilt
  have replayed := replayed_all isReplay
  have sameSegments := (flagged_all isReleased).sameSegments
  have standing : Standing segments replay.streams :=
    { known := fun streamId member =>
        ((standing_replay isReplay).known streamId member).imp_right sameSegments.heldIn
      backed := (standing_replay isReplay).backed }
  refine ⟨?_, fun streamId persists => ?_, fun streamId segmentId isLast => ?_⟩
  · refine tryFold_induction (fun total : StreamMap => Standing segments total)
      (standing_index standing isIndexed) ?_ isFinal
    rintro total ⟨streamId, persisted⟩ next - kept stepped
    exact kept.applyDurableHighwater stepped
  · rcases (applyDurableHighwaters_persists isFinal streamId).2 persists with before | durable
    · unfold StreamMap.persists at before
      rw [(indexSegments_entry isIndexed streamId).1, Option.isSome_iff_exists] at before
      obtain ⟨highwater, isHighwater⟩ := before
      rcases replayed.persisted streamId highwater isHighwater with held | removed
      · exact List.mem_append_left _ (ExtTreeMap.mem_keys.mpr (Maps.mem_iff_found.mpr ⟨_, held⟩))
      · obtain ⟨segmentId, body, found, member⟩ := removed
        exact recorded.removed segmentId body found _ member
    · refine recorded.highwaters streamId ?_
      rwa [ExtTreeMap.map_fst_toList_eq_keys, ExtTreeMap.mem_keys] at durable
  · rw [(applyDurableHighwaters_persists isFinal streamId).1,
      (indexSegments_entry isIndexed streamId).2.1] at isLast
    obtain ⟨ordinal, record, ⟨original, isOriginal, isRecord⟩, isStream⟩ :=
      replayed.last streamId segmentId isLast
    obtain ⟨segment, found, -⟩ := sameSegments.symm.found isOriginal
    refine ⟨segment, found, ?_⟩
    rw [sameSegments.streamIds found isOriginal, ← isStream]
    exact List.mem_map_of_mem (List.mem_of_getElem? isRecord)

/-! ### The accounts of an opened root -/

theorem Segment.Measured.of_bare {segment original : Segment} (measured : original.Measured)
    (same : segment.bare = original.bare) : segment.Measured := by
  have records : segment.records.length = original.records.length := by
    have mapped := congrArg (fun segment => segment.records.length) same
    simpa [Segment.bare] using mapped
  have fileLen : segment.bare.fileLen = original.bare.fileLen := by rw [same]
  have unique : segment.bare.uniqueStreams = original.bare.uniqueStreams := by rw [same]
  have streamIds : segment.streamIds = original.streamIds := by
    rw [← segment.streamIds_bare, same, original.streamIds_bare]
  refine ⟨?_, ?_⟩
  · rw [records]
    exact fileLen ▸ measured.long
  · rw [streamIds]
    exact unique ▸ measured.unique

theorem segmentSum_values {segments : SegmentMap} {bound : Nat} (measure : Segment → Nat)
    (below : ∀ segmentId ∈ segments, segmentId < bound) :
    segmentSum measure segments bound = ((Maps.values segments).map measure).sum := by
  have distinct : segments.keys.Nodup := (Maps.keys_sorted segments).imp Nat.ne_of_lt
  have entries : (Maps.values segments).map measure =
      segments.keys.map fun segmentId => (segments[segmentId]?.map measure).getD 0 := by
    rw [Maps.values, ← ExtTreeMap.map_fst_toList_eq_keys, List.map_map, List.map_map]
    refine List.map_congr_left fun entry member => ?_
    have found : segments[entry.1]? = some entry.2 :=
      ExtTreeMap.mem_toList_iff_getElem?_eq_some.mp member
    simp [found]
  rw [entries, ← List.sum_toFinset _ distinct]
  refine (Finset.sum_subset (fun segmentId member => ?_) fun segmentId _ absent => ?_).symm
  · exact Finset.mem_range.mpr
      (below segmentId (ExtTreeMap.mem_keys.mp (List.mem_toFinset.mp member)))
  · rw [List.mem_toFinset, ExtTreeMap.mem_keys, ExtTreeMap.mem_iff_isSome_getElem?] at absent
    cases found : segments[segmentId]? with
    | none => rfl
    | some segment => simp [found] at absent

theorem addSegmentBytes_total {segments : List Segment} {start total : Nat}
    (folded : tryFold addSegmentBytes start segments = .ok total) :
    total = start + (segments.map Segment.fileLen).sum ∧ (start ≤ wordMax → total ≤ wordMax) := by
  induction segments generalizing start with
  | nil =>
    cases folded
    exact ⟨rfl, id⟩
  | cons segment rest ih =>
    rw [tryFold_cons, bind_eq_ok] at folded
    obtain ⟨next, first, later⟩ := folded
    simp only [addSegmentBytes, orError_eq_ok] at first
    obtain ⟨rfl, bound⟩ := checkedAdd_eq_some.mp first
    obtain ⟨total, bounded⟩ := ih later
    refine ⟨?_, fun _ => bounded bound⟩
    rw [total, List.map_cons, List.sum_cons, Nat.add_assoc]

section

variable [Hasher] {fs left : Fs}

/-- The length of the files of a root. -/
theorem returns_calculateActualFileBytes (files : ControlFiles manifest file fs)
    (returned : Returns (calculateActualFileBytesFromDisk segments) fs actual left) :
    actual = rootSuperblockLen + (manifest.checkpointLen + manifest.logLen) +
      ((Maps.values segments).map Segment.fileLen).sum ∧ actual ≤ wordMax ∧ left = fs := by
  obtain ⟨checkpointBytes, first, measuresCheckpoint, returned⟩ := returned.bind
  obtain ⟨inode, isInode, measuresCheckpoint⟩ := measuresCheckpoint.bind_read.bind_ofOption
  obtain ⟨rfl, rfl⟩ := measuresCheckpoint.bind_observe.pure
  obtain ⟨withCheckpoint, isCheckpoint, returned⟩ := returned.bind_ofOption
  obtain ⟨logBytes, second, measuresLog, returned⟩ := returned.bind
  obtain ⟨log, isLog, measuresLog⟩ := measuresLog.bind_read.bind_ofOption
  obtain ⟨rfl, rfl⟩ := measuresLog.bind_observe.pure
  obtain ⟨withLog, isWithLog, returned⟩ := returned.bind_ofOption
  obtain ⟨folded, same⟩ := Returns.ofExcept returned
  obtain ⟨rfl, -⟩ := checkedAdd_eq_some.mp isCheckpoint
  obtain ⟨rfl, bound⟩ := checkedAdd_eq_some.mp isWithLog
  cases files.checkpoint.symm.trans isInode
  cases files.log.symm.trans isLog
  obtain ⟨total, bounded⟩ := addSegmentBytes_total folded
  refine ⟨?_, bounded bound, same⟩
  rw [total, files.checkpointLen, files.logLen]
  omega

/-- **What an opened root is made of**: the control state of checkpoint and log, the scanned segments,
and the lengths of the files. -/
structure Opens (storage : Storage) (left : Fs) (checkpoint : Checkpoint)
    (frames : List ManifestBody) (file : Nat) (scanned : ScannedSegments) (control : Control)
    (base : Storage) : Prop where
  recorded : RecordedControl checkpoint frames control
  covers : ∀ ids : List StreamId, ids.Nodup →
    (∀ streamId ∈ ids, Recorded checkpoint frames streamId) →
      checkpointBytes ids.length + manifestLogHeaderLen ≤
        storage.manifest.checkpointLen + storage.manifest.logLen
  active : ∃ found, validateScannedSegments found scanned = .ok storage.activeSegment
  measured : ∀ (segmentId : Nat) (segment : Segment), scanned.segments[segmentId]? = some segment →
    segment.Measured ∧ segment.OnDisk segmentId left
  assembled : ∃ config rootId recovery stats,
    recovery.checkpointStreamHighwaters = checkpoint.streamHighwaters ∧
      assembleStorage config rootId recovery storage.manifest control scanned storage.activeSegment
        stats = .ok base
  files : ControlFiles storage.manifest file left
  books : storage.actualFileBytes = rootSuperblockLen +
    (storage.manifest.checkpointLen + storage.manifest.logLen) +
      ((Maps.values storage.segments).map Segment.fileLen).sum
  bounded : storage.actualFileBytes ≤ wordMax
  left : storage = { base with actualFileBytes := storage.actualFileBytes }

theorem returns_open (returned : Returns (Storage.open config entropy listing) fs storage left) :
    ∃ checkpoint frames file scanned control base,
      Opens storage left checkpoint frames file scanned control base := by
  obtain ⟨_, -, returned⟩ := returned.bind_ofExcept
  obtain ⟨_, first, -, returned⟩ := returned.bind
  obtain ⟨_, second, -, returned⟩ := returned.bind
  obtain ⟨_, -, returned⟩ := returned.bind_ofExcept
  obtain ⟨_, third, -, returned⟩ := returned.bind
  obtain ⟨_, fourth, -, returned⟩ := returned.bind
  obtain ⟨_, fifth, -, returned⟩ := returned.bind
  obtain ⟨recovery, sixth, recovers, returned⟩ := returned.bind
  obtain ⟨base, seventh, isRecovered, returned⟩ := returned.bind
  obtain ⟨actual, eighth, calculates, returned⟩ := returned.bind
  obtain ⟨_, -, returned⟩ := returned.bind_ofExcept
  obtain ⟨rfl, rfl⟩ := returned.pure
  obtain ⟨file, log, checkpoint, header, scan, accepts, rfl, rfl⟩ := returns_recover recovers
  obtain ⟨frames, recorded, covers⟩ := accepts.recorded
  obtain ⟨found, enumerated, enumerates, isRecovered⟩ := isRecovered.bind
  obtain ⟨scanned, afterScan, scans, isRecovered⟩ := isRecovered.bind
  obtain ⟨active, isActive, isRecovered⟩ := isRecovered.bind_ofExcept
  obtain ⟨⟨manifest, control⟩, afterSeals, completes, isRecovered⟩ := isRecovered.bind
  obtain ⟨assembled, rfl⟩ := Returns.ofExcept isRecovered
  obtain ⟨sameRoot, sameNodes⟩ := returns_enumerateSegments enumerates
  have sameContent : ∀ inode, enumerated.content inode = (fifth.repaired log scan.repair).content inode := by
    intro inode
    simp only [Fs.content, sameNodes]
  have files := (controlFiles_recover accepts).of_same sameRoot (sameContent _) (sameContent _)
  obtain ⟨scannedFiles, measured⟩ := measured_scanSegments files (by simp) scans
  obtain ⟨sealedFiles, checkpointLen, longer, removed, highwaters, keeps⟩ :=
    scannedFiles.completeSeals completes
  obtain ⟨isActual, bounded, rfl⟩ := returns_calculateActualFileBytes sealedFiles calculates
  obtain ⟨rfl, rfl, -⟩ := assembleStorage_eq_ok assembled
  refine ⟨checkpoint, frames, file, scanned, control, base, ?_⟩
  exact
    { recorded := ⟨removed ▸ recorded.removed, highwaters ▸ recorded.highwaters⟩
      covers := fun ids distinct areRecorded => by
        have bound := covers ids distinct areRecorded
        show _ ≤ base.manifest.checkpointLen + _
        rw [checkpointLen]
        exact bound.trans (Nat.add_le_add_left longer _)
      active := ⟨_, isActive⟩
      measured := fun segmentId segment isSegment =>
        ⟨(measured segmentId segment isSegment).1,
          keeps segmentId segment (measured segmentId segment isSegment).2⟩
      assembled := ⟨_, _, _, _, rfl, assembled⟩
      files := sealedFiles
      books := isActual
      bounded := bounded
      left := rfl }

end

end Camus
