/-
**The files of an open root are as long as it counts them.**

Checkpoint, log and every live segment have a file of their own under their name, and the lengths the
root keeps in memory are the lengths of these files.

* `Stored` — the invariant of memory and disk.
* `disk_segmentAppend`, `disk_segmentCreate`, `disk_sealData` — what writing a segment does to files.
* `stored_moves`, `stored_reached` — it holds in every reachable state.
-/

import Camus.Storage.FileEffects
import Camus.Storage.Ledger

set_option linter.unusedSectionVars false

namespace Camus

open Codec Checked Disk FaultIo Std

variable {ids : List (List RecordId)} {epochs : List Epoch} {eligible : List Nat} {rootId : RootId}
  {storage : Storage} {value : Unit}

/-- **The files of an open root**: `file` is the checkpoint. -/
structure Stored (world : World) (file : Nat) : Prop where
  control : ControlFiles world.storage.manifest file world.fs
  segments : ∀ (segmentId : Nat) (segment : Segment),
    world.storage.segments[segmentId]? = some segment → segment.OnDisk segmentId world.fs

/-! ### Files of segments -/

section

variable [Hasher] {fs left : Fs} {segment next : Segment} {segmentId : Nat}

/-- Bytes were added to the file of a segment, and to its length. -/
theorem Segment.OnDisk.grow (onDisk : segment.OnDisk segmentId fs) {more : Bytes}
    (sameFile : next.file = segment.file)
    (found : segmentsDirectory.lookup (.log segmentId) left =
      segmentsDirectory.lookup (.log segmentId) fs)
    (content : left.content segment.file = fs.content segment.file ++ more)
    (header : segmentHeaderLen ≤ segment.fileLen)
    (length : next.fileLen = segment.fileLen + more.length) : next.OnDisk segmentId left := by
  have long : segmentHeaderLen ≤ (fs.content segment.file).length := by
    rw [onDisk.length]
    exact header
  have long : 48 ≤ (fs.content segment.file).length := long
  refine ⟨?_, ?_, ?_, ?_⟩
  · rw [found, sameFile]
    exact onDisk.found
  · rw [sameFile, content, slice_append_left (by omega)]
    exact onDisk.magic
  · rw [sameFile, content, readWord, slice_append_left (by omega)]
    exact onDisk.named
  · rw [sameFile, content, List.length_append, onDisk.length, length]

theorem Segment.OnDisk.holds (onDisk : segment.OnDisk segmentId fs) :
    fs.HoldsAt segment.file (fs.content segment.file) := by
  refine Fs.holdsAt_content fun empty => ?_
  have magic := onDisk.magic
  rw [empty] at magic
  exact absurd magic (by decide)

theorem Segment.OnDisk.older (onDisk : segment.OnDisk segmentId fs) :
    segment.file < fs.nodes.length := by
  have holds := onDisk.holds
  unfold Fs.HoldsAt at holds
  by_contra beyond
  rw [List.getElem?_eq_none (by omega)] at holds
  cases holds

theorem frame_writeEpochGroup {file start : Nat} {path : Artifact} {written : List WrittenEpoch}
    (valid : ∀ epoch ∈ epochs, epoch.Valid)
    (returned : Returns (writeEpochGroup file path start (epochs.map Epoch.prepared)) fs written left)
    {other : Nat} (different : other ≠ file) : left.content other = fs.content other := by
  obtain ⟨-, -, ⟨-, rfl⟩ | rfl⟩ := returns_writeEpochGroup valid returned
  · rfl
  · exact Fs.modifyNode_content_other different

theorem disk_segmentAppend {streams : Nat} (onDisk : segment.OnDisk segmentId fs)
    (header : segmentHeaderLen ≤ segment.fileLen) (valid : ∀ epoch ∈ epochs, epoch.Valid)
    (returned : Returns (segment.append rootId (epochs.map Epoch.prepared) streams) fs (next, ids)
      left) :
    next.OnDisk segmentId left ∧ left.root = fs.root ∧ left.segments = fs.segments ∧
      (∀ other, other ≠ segment.file → left.content other = fs.content other) ∧
      left.content segment.file = fs.content segment.file ++ epochsBytes segment.fileLen epochs := by
  obtain ⟨-, shape, -⟩ := returns_segmentAppend valid returned
  have sameFile : next.file = segment.file := by rw [shape]
  have length : next.fileLen = segment.fileLen + epochsLength epochs := by rw [shape]
  unfold Segment.append at returned
  obtain ⟨_, -, returned⟩ := returned.bind_ofOption
  obtain ⟨-, returned⟩ := returned.bind_require
  obtain ⟨written, middle, wrote, returned⟩ := returned.bind_observe.bind
  obtain ⟨-, -, holds, root, segments⟩ := holds_writeEpochGroup valid onDisk.holds wrote
  obtain ⟨_, -, returned⟩ := (Returns.bind_step returned).bind_ofExcept
  obtain ⟨_, -, returned⟩ := returned.bind_ofExcept
  obtain ⟨-, rfl⟩ := returned.pure
  refine ⟨onDisk.grow sameFile (lookup_of_segments segments _) holds.sync.content header ?_, root,
    segments, fun other different => ?_, holds.sync.content⟩
  · rw [length, epochsBytes_length]
  · rw [Fs.modifyNode_content_other different, frame_writeEpochGroup valid wrote different]

theorem disk_sealData {sealed : Segment} {footer : SegmentFooter}
    (onDisk : segment.OnDisk segmentId fs) (header : segmentHeaderLen ≤ segment.fileLen)
    (noFooter : segment.footer = none)
    (returned : Returns segment.sealData fs (sealed, footer) left) :
    sealed.OnDisk segmentId left ∧ left.root = fs.root ∧ left.segments = fs.segments ∧
      (∀ other, other ≠ segment.file → left.content other = fs.content other) ∧
      ∃ bytes, footer.encode = .ok bytes ∧
        left.content segment.file = fs.content segment.file ++ bytes := by
  obtain ⟨shape, lengths⟩ := returns_sealData returned
  obtain ⟨sealedLen, footerLen⟩ := lengths noFooter
  have sameFile : sealed.file = segment.file := by rw [shape]
  unfold Segment.sealData at returned
  rw [noFooter] at returned
  obtain ⟨found, -, returned⟩ := returned.bind_ofExcept
  obtain ⟨bytes, encoded, returned⟩ := returned.bind_ofExcept
  obtain ⟨same, rfl⟩ := (Returns.bind_step (Returns.bind_step returned.bind_observe)).pure
  obtain ⟨-, rfl⟩ := Prod.mk.inj same
  have encoded := Result.mapError_eq_ok.mp encoded
  have holds := (onDisk.holds.append bytes).sync
  refine ⟨onDisk.grow sameFile rfl holds.content header ?_, rfl, rfl, fun other different => ?_, _,
    encoded, holds.content⟩
  · rw [sealedLen, footerLen, SegmentFooter.encode_length encoded]
  · rw [Fs.modifyNode_content_other different, Fs.modifyNode_content_other different]

theorem header_words {header : SegmentHeader} {bytes : Bytes} (fits : header.segmentId ≤ wordMax)
    (encoded : header.encode = .ok bytes) :
    slice bytes 0 8 = segmentMagic ∧ readWord bytes 24 = header.segmentId := by
  obtain ⟨-, rfl⟩ := SegmentHeader.encode_eq_ok.mp encoded
  simp [fits]

theorem disk_segmentCreate {createdAt : Nat} (identified : segmentId ≤ wordMax)
    (valid : ∀ epoch ∈ epochs, epoch.Valid)
    (returned : Returns (Segment.create rootId segmentId createdAt (epochs.map Epoch.prepared)) fs
      (segment, ids) left) :
    segment.OnDisk segmentId left ∧ left.root = fs.root ∧
      (∀ otherId, otherId ≠ segmentId → segmentsDirectory.lookup (.log otherId) left =
        segmentsDirectory.lookup (.log otherId) fs) ∧
      (∀ other, other < fs.nodes.length → left.content other = fs.content other) ∧
      ∃ header, header.length = segmentHeaderLen ∧
        left.content segment.file = header ++ epochsBytes segmentHeaderLen epochs := by
  obtain ⟨⟨-, length, -, -⟩, -⟩ := returns_segmentCreate valid returned
  unfold Segment.create at returned
  obtain ⟨-, returned⟩ := returned.bind_require
  obtain ⟨headerBytes, encoded, returned⟩ := returned.bind_ofExcept
  have encoded := Result.mapError_eq_ok.mp encoded
  obtain ⟨magic, named⟩ := header_words identified encoded
  have sized := SegmentHeader.encode_length encoded
  obtain ⟨file, linked, isNew, returned⟩ := returned.bind
  obtain ⟨rfl, rfl⟩ := returns_createNew isNew
  have empty : (segmentsDirectory.change (.link (.temporary segmentId) fs.nodes.length)
      { fs with nodes := fs.nodes ++ [FileNode.empty] }).HoldsAt fs.nodes.length [] := by
    simp [Fs.HoldsAt, Place.change, segmentsDirectory, FileNode.empty]
  obtain ⟨written, middle, wrote, returned⟩ := (Returns.bind_step returned).bind
  obtain ⟨-, -, holds, root, segments⟩ := holds_writeEpochGroup valid (empty.append _) wrote
  obtain ⟨_, -, returned⟩ := returned.bind_ofExcept
  obtain ⟨_, renamed, isRenamed, returned⟩ := (Returns.bind_step returned).bind
  obtain ⟨inode, lookup, rfl⟩ := returns_rename isRenamed
  obtain ⟨count, -, returned⟩ := (Returns.bind_step returned).bind_ofOption
  obtain ⟨same, rfl⟩ := returned.pure
  obtain ⟨rfl, -⟩ := Prod.mk.inj same
  have inodeEq : inode = fs.nodes.length := by
    have bound : middle.segments.entries[SegmentName.temporary segmentId]? = some inode := lookup
    rw [segments] at bound
    simpa [segmentsDirectory, Place.change, Fs.modifyNode, DirectoryOp.apply] using bound.symm
  have content : middle.content fs.nodes.length = headerBytes ++ epochsBytes segmentHeaderLen epochs := by
    have bytes := holds.content
    rwa [List.nil_append] at bytes
  have synced : (middle.modifyNode fs.nodes.length FileNode.sync).content fs.nodes.length =
      headerBytes ++ epochsBytes segmentHeaderLen epochs := by
    have bytes := holds.sync.content
    rwa [List.nil_append] at bytes
  refine ⟨⟨?_, ?_, ?_, ?_⟩, root, fun otherId different => ?_, fun other older => ?_, headerBytes,
    sized, synced⟩
  · simp [segmentsDirectory, Place.change, Place.lookup, DirectoryOp.apply, inodeEq]
  · show slice ((middle.modifyNode fs.nodes.length FileNode.sync).content fs.nodes.length) 0 8 = _
    rw [synced, slice_append_left (by rw [sized]; decide)]
    exact magic
  · show readWord ((middle.modifyNode fs.nodes.length FileNode.sync).content fs.nodes.length) 24 = _
    rw [synced, readWord, slice_append_left (by rw [sized]; decide)]
    exact named
  · show ((middle.modifyNode fs.nodes.length FileNode.sync).content fs.nodes.length).length = _
    rw [synced, List.length_append, sized, epochsBytes_length]
    exact length.symm
  · show ((middle.segments.change (.move (.temporary segmentId) (.log segmentId)
      inode)).sync.entries)[SegmentName.log otherId]? = fs.segments.entries[SegmentName.log otherId]?
    rw [Directory.entries_sync, Directory.entries_change,
      DirectoryOp.getElem?_apply_of_not_touches (by simp [DirectoryOp.Touches, Ne.symm different]),
      segments]
    show ((fs.segments.change (.link (.temporary segmentId) fs.nodes.length)).entries)[_]? = _
    rw [Directory.entries_change,
      DirectoryOp.getElem?_apply_of_not_touches (by simp [DirectoryOp.Touches])]
  · have different : other ≠ fs.nodes.length := by omega
    show (middle.modifyNode fs.nodes.length FileNode.sync).content other = fs.content other
    rw [Fs.modifyNode_content_other different, frame_writeEpochGroup valid wrote different,
      Fs.modifyNode_content_other different]
    simp [Fs.content, Place.change, segmentsDirectory, List.getElem?_append_left older]

/-! ### Changes of an open root -/

variable {world final : World} {file : Nat}

/-- Frames are added to the log. -/
theorem Stored.announces {storage : Storage} {manifest : Manifest} {bodies : List ManifestBody}
    {outcome : DurabilityOutcome} {bytes : Nat} (stored : Stored ⟨storage, fs⟩ file)
    (appended : Returns (storage.manifest.appendGroup bodies outcome) fs manifest left) :
    Stored ⟨{ storage with manifest := manifest, actualFileBytes := bytes }, left⟩ file := by
  obtain ⟨-, -, segments, others⟩ := frame_appendGroup appended
  refine ⟨stored.control.appendGroup appended, fun segmentId segment found => ?_⟩
  have onDisk := stored.segments segmentId segment found
  exact onDisk.of_same (lookup_of_segments segments _) (others _ (stored.control.apart onDisk).2)

/-- The file of one segment changed. -/
theorem Stored.replace {storage : Storage} (stored : Stored ⟨storage, fs⟩ file)
    (found : storage.segments[segmentId]? = some segment) (onDisk : next.OnDisk segmentId left)
    (root : left.root = fs.root) (segments : left.segments = fs.segments)
    (others : ∀ other, other ≠ segment.file → left.content other = fs.content other) :
    Stored ⟨{ storage with segments := storage.segments.insert segmentId next }, left⟩ file := by
  have was := stored.segments segmentId segment found
  obtain ⟨notCheckpoint, notLog⟩ := stored.control.apart was
  refine ⟨stored.control.of_same root (others _ (Ne.symm notCheckpoint)) (others _ (Ne.symm notLog)),
    fun otherId other isOther => ?_⟩
  obtain ⟨rfl, rfl⟩ | ⟨different, lookup⟩ := Maps.getElem?_insert_eq_some.mp isOther
  · exact onDisk
  · have otherOnDisk := stored.segments otherId other lookup
    refine otherOnDisk.of_same (lookup_of_segments segments _) (others _ ?_)
    exact otherOnDisk.distinct was fun same => different same.symm

/-- A seal adds the footer to the file of the active segment. -/
theorem stored_sealSegment {reason : SealReason} (stored : Stored world file)
    (sound : world.storage.indexView.Sound) (balanced : world.storage.bookView.Balanced)
    (active : world.storage.activeSegment = some segmentId)
    (returned : Returns (sealSegment segmentId reason) world value final) :
    Stored final file ∧ final.fs.segments = world.fs.segments ∧
      ∀ (otherId : Nat) (other : Segment), world.storage.segments[otherId]? = some other →
        final.fs.content other.file = world.fs.content other.file ∨ otherId = segmentId ∧
          ∃ footer bytes, final.storage.segments[otherId]?.bind (·.footer) = some footer ∧
            footer.encode = .ok bytes ∧
            final.fs.content other.file = world.fs.content other.file ++ bytes := by
  obtain ⟨segment, sealed, footer, manifest, bytes, first, last, found, seals, -, appended, -, rfl⟩ :=
    returns_sealSegment returned
  obtain ⟨_, isOpen, noFooter⟩ := sound.isOpen segmentId active
  cases found.symm.trans (show world.storage.segments[segmentId]? = _ from isOpen)
  have long := balanced.long segmentId segment found
  have was := stored.segments segmentId segment found
  obtain ⟨onDisk, root, segments, others, footerBytes, encoded, content⟩ :=
    disk_sealData was (by omega) noFooter seals
  have replaced := stored.replace found onDisk root segments others
  have announced := @Stored.announces _ _ _ _ { world.storage with
    segments := world.storage.segments.insert segmentId sealed } _ _ _ bytes replaced appended
  obtain ⟨-, -, announcedSegments, announcedContent⟩ := frame_appendGroup appended
  refine ⟨⟨announced.control, announced.segments⟩, announcedSegments.trans segments,
    fun otherId other isOther => ?_⟩
  have otherOnDisk := stored.segments otherId other isOther
  have same := announcedContent other.file (stored.control.apart otherOnDisk).2
  by_cases isSealed : otherId = segmentId
  · subst isSealed
    cases found.symm.trans isOther
    refine .inr ⟨rfl, footer, footerBytes, ?_, encoded, same.trans content⟩
    show (world.storage.segments.insert otherId sealed)[otherId]?.bind _ = _
    rw [ExtTreeMap.getElem?_insert_self, (returns_sealData seals).1]
    rfl
  · exact .inl (same.trans (others _ (otherOnDisk.distinct was isSealed)))

theorem stored_writeGroup {creation : Clock} (stored : Stored world file)
    (sound : world.storage.indexView.Sound) (balanced : world.storage.bookView.Balanced)
    (valid : ∀ epoch ∈ epochs, epoch.Valid)
    (returned : Returns (writeGroup (epochs.map Epoch.prepared) creation) world ids final) :
    Stored final file := by
  rcases returns_writeGroup returned with ⟨active, segment, appended, indexed, -, extended⟩ |
    ⟨segment, indexed, -, created⟩
  · have found : world.storage.segments[active]? = some segment := extended.found
    have long := balanced.long active segment found
    obtain ⟨onDisk, root, segments, others, -⟩ := disk_segmentAppend (stored.segments active segment found)
      (by omega) valid extended.appends
    have replaced := stored.replace found onDisk root segments others
    have frame := indexDurableRecords_frame extended.indexes
    have sameManifest : final.storage.manifest = world.storage.manifest := by
      rw [extended.left, frame]
    have sameSegments : final.storage.segments = world.storage.segments.insert active appended := by
      rw [extended.left, frame]
    refine ⟨?_, fun otherId other isOther => replaced.segments otherId other ?_⟩
    · rw [sameManifest]
      exact replaced.control
    · rw [sameSegments] at isOther
      exact isOther
  · obtain ⟨createdAt, creates⟩ := created.creates
    have identified : world.storage.nextSegmentId ≤ wordMax := sound.last
    obtain ⟨onDisk, root, names, older, -⟩ := disk_segmentCreate identified valid creates
    have frame := indexDurableRecords_frame created.indexes
    have sameManifest : final.storage.manifest = world.storage.manifest := by
      rw [created.left, frame]
    have sameSegments : final.storage.segments =
        world.storage.segments.insert world.storage.nextSegmentId segment := by
      rw [created.left, frame]
    have exists_ : ∀ inode, world.fs.content inode ≠ [] → inode < world.fs.nodes.length := by
      intro inode some
      by_contra beyond
      refine some ?_
      rw [Fs.content, List.getElem?_eq_none (by omega)]
      rfl
    refine ⟨?_, fun otherId other isOther => ?_⟩
    · rw [sameManifest]
      refine stored.control.of_same root (older _ (exists_ _ fun empty => ?_))
        (older _ (exists_ _ fun empty => ?_))
      · have magic := stored.control.checkpointMagic
        rw [empty] at magic
        exact absurd magic (by decide)
      · have magic := stored.control.logMagic
        rw [empty] at magic
        exact absurd magic (by decide)
    · rw [sameSegments] at isOther
      obtain ⟨rfl, rfl⟩ | ⟨different, isOther⟩ := Maps.getElem?_insert_eq_some.mp isOther
      · exact onDisk
      · have otherOnDisk := stored.segments otherId other isOther
        exact otherOnDisk.of_same (names otherId different.symm) (older _ otherOnDisk.older)

/-- A compaction leaves the files of segments. -/
theorem content_compactManifest {segmentId : Nat} {segment : Segment}
    (onDisk : segment.OnDisk segmentId world.fs)
    (returned : Returns compactManifest world value final) :
    final.fs.content segment.file = world.fs.content segment.file := by
  obtain ⟨manifest, fs, bytes, maintenance, compacts, -, rfl⟩ := returns_compactManifest returned
  obtain ⟨encoded, middle, -, -, -, first, second, -⟩ := returns_compact compacts
  have isOlder := onDisk.older
  have older : segment.file < middle.nodes.length := by
    rw [first.created]
    omega
  exact (second.content older).trans (first.content isOlder)

/-- Checkpoint and log are replaced by new files. -/
theorem stored_compactManifest (stored : Stored world file)
    (returned : Returns compactManifest world value final) :
    Stored final world.fs.nodes.length := by
  have kept := fun segmentId segment found =>
    content_compactManifest (stored.segments segmentId segment found) returned
  obtain ⟨manifest, fs, bytes, maintenance, compacts, -, rfl⟩ := returns_compactManifest returned
  obtain ⟨encoded, middle, isEncoded, -, -, first, second, rfl⟩ := returns_compact compacts
  have older : world.fs.nodes.length < middle.nodes.length := by
    rw [first.created]
    exact Nat.lt_succ_self _
  have checkpoint : fs.content world.fs.nodes.length = encoded :=
    (second.content older).trans first.holds.content
  have log := second.holds.content
  refine ⟨⟨?_, ?_, ?_, second.found, ?_, ?_⟩, fun segmentId segment found => ?_⟩
  · rw [second.names _ (by decide) (by decide)]
    exact first.found
  · obtain ⟨-, -, -, entries, -, -, rfl⟩ := Checkpoint.encode_eq_ok.mp isEncoded
    show slice (fs.content world.fs.nodes.length) 0 8 = _
    rw [checkpoint]
    simp [Checkpoint.encodeHeader]
  · show (fs.content world.fs.nodes.length).length = encoded.length
    rw [checkpoint]
  · show slice (fs.content middle.nodes.length) 0 8 = _
    rw [log]
    simp [ManifestLogHeader.encode]
  · show (fs.content middle.nodes.length).length = manifestLogHeaderLen
    rw [log]
    simp
  · exact (stored.segments segmentId segment found).of_same
      (lookup_of_segments (second.segments.trans first.segments) _) (kept segmentId segment found)

omit [Hasher] in
/-- The name of a removed segment goes, the others stay. -/
theorem lookup_unlink (segmentId otherId : Nat) :
    segmentsDirectory.lookup (.log otherId) (segmentsDirectory.change (.unlink (.log segmentId)) fs) =
      if otherId = segmentId then none else segmentsDirectory.lookup (.log otherId) fs := by
  show ((fs.segments.change (.unlink (.log segmentId))).entries)[SegmentName.log otherId]? = _
  rw [Directory.entries_change]
  simp only [DirectoryOp.apply, ExtTreeMap.getElem?_erase, LawfulEqOrd.compare_eq_iff_eq,
    SegmentName.log.injEq, @eq_comm _ segmentId]
  rfl

/-- The names of removed segments go, the files of the others stay. -/
theorem stored_removeSegments {lengths : List Nat} (stored : Stored world file)
    (returned : Returns (removeSegments eligible) world lengths final) : Stored final file := by
  induction eligible generalizing world lengths with
  | nil =>
    obtain ⟨-, rfl⟩ := Returns.result returned
    exact stored
  | cons segmentId rest ih =>
    obtain ⟨segment, dropped, fs, removed, -, drops, -, rfl, removes⟩ :=
      returns_removeSegments_cons returned
    obtain ⟨_, count, bytes, -, -, -, rfl⟩ := Storage.dropSegment_eq_ok.mp drops
    refine @ih _ removed ?_ removes
    refine ⟨stored.control.of_same rfl rfl rfl, fun otherId other isOther => ?_⟩
    obtain ⟨different, lookup⟩ := Maps.getElem?_erase_eq_some.mp isOther
    exact (stored.segments otherId other lookup).of_same
      ((lookup_unlink _ _).trans (if_neg fun same => different same.symm)) rfl

theorem stored_reclaimBatch {report : ReclaimReport} (stored : Stored world file)
    (returned : Returns (reclaimBatch eligible) world report final) : Stored final file := by
  rcases returns_reclaimBatch returned with ⟨-, -, rfl⟩ |
    ⟨bodies, manifest, fs, bytes, persisted, removed, maintenance, afterRemoval, -, appended, -,
      folded, removes, -, -, synced, left⟩
  · exact stored
  · have announced : Stored ⟨{ world.storage with manifest := manifest, actualFileBytes := bytes }, fs⟩
      file := stored.announces appended
    have persistedStored : Stored ⟨persisted, fs⟩ file := by
      rw [(persisting_tryFold folded).2]
      exact ⟨announced.control, announced.segments⟩
    have removedStored := stored_removeSegments persistedStored removes
    constructor
    · rw [left, synced]
      exact removedStored.control.of_same rfl rfl rfl
    · rw [left, synced]
      exact fun segmentId segment found =>
        (removedStored.segments segmentId segment found).of_same rfl rfl

/-- **Every change of an open root keeps the files as long as counted.** -/
theorem stored_moves (sound : world.storage.indexView.Sound)
    (balanced : world.storage.bookView.Balanced) (stored : Stored world file)
    (moves : Moves world final) : ∃ file, Stored final file := by
  cases moves with
  | seals active returned => exact ⟨_, (stored_sealSegment stored sound balanced active returned).1⟩
  | writes valid _ returned => exact ⟨_, stored_writeGroup stored sound balanced valid returned⟩
  | announces returned _ => exact ⟨_, stored.announces returned⟩
  | marks marks =>
    rcases markRecordReleased_eq_ok.mp marks with ⟨-, rfl⟩ | ⟨state, place, segment, record, marked⟩
    · exact ⟨_, stored⟩
    · have onDisk := stored.segments place.segmentId segment marked.found
      have replaced := @Stored.replace _ _ _ _ (segment.releaseRecord place.ordinal
        (segment.unreleasedRecords - 1)) _ _ _ stored marked.found
        ⟨onDisk.found, onDisk.magic, onDisk.named, onDisk.length⟩ rfl rfl fun _ _ => rfl
      rw [marked.left]
      exact ⟨_, replaced.control, replaced.segments⟩
  | reclaims _ returned => exact ⟨_, stored_reclaimBatch stored returned⟩
  | compacts returned => exact ⟨_, stored_compactManifest stored returned⟩
  | notes => exact ⟨_, stored.control, stored.segments⟩

theorem stored_open {config : Config} {entropy : RootId} {listing : Listing}
    (returned : Returns (Storage.open config entropy listing) fs storage left) :
    ∃ file, Stored ⟨storage, left⟩ file := by
  obtain ⟨checkpoint, frames, file, scanned, control, base, opens⟩ := returns_open returned
  obtain ⟨config, rootId, recovery, stats, -, assembled⟩ := opens.assembled
  obtain ⟨-, -, segments, assembles⟩ := assembleStorage_eq_ok assembled
  have areSegments : storage.segments = base.segments := by rw [opens.left]
  refine ⟨file, opens.files, fun segmentId segment found => ?_⟩
  have found : base.segments[segmentId]? = some segment := areSegments ▸ found
  obtain ⟨original, isOriginal, equal⟩ := assembles.sameSegments.found found
  have onDisk := (opens.measured segmentId original isOriginal).2
  have sameFile : segment.bare.file = original.bare.file := by rw [equal]
  have sameLen : segment.bare.fileLen = original.bare.fileLen := by rw [equal]
  have sameFile : segment.file = original.file := sameFile
  have sameLen : segment.fileLen = original.fileLen := sameLen
  exact ⟨sameFile ▸ onDisk.found, sameFile ▸ onDisk.magic, sameFile ▸ onDisk.named,
    by rw [sameFile, sameLen]; exact onDisk.length⟩

/-- **The files of an open root are as long as counted.** -/
theorem stored_reached (reached : Reached world) : ∃ file, Stored world file :=
  @Reached.rule _ _ (fun world => ∃ file, Stored world file) stored_open
    (fun sound balanced before moves => by
      obtain ⟨file, stored⟩ := before
      exact stored_moves sound balanced stored moves) reached

end

end Camus
