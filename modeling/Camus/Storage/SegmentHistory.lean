/-
**The writer of a segment and its scanner agree.**

A segment is created with a first group of epochs, extended by further groups and finally sealed.
`SegmentHistory` collects every such sequence of successful writes. What the writer keeps in memory is
what the file stands for (`Segment.Keeps`, kept by each of the three operations), so a scan of the file
returns exactly the segment in memory.

* `scan_history` — the scan of a segment that was written returns the writer's segment.
-/

import Camus.Storage.ScanSpec

set_option linter.unusedSectionVars false

namespace Camus

open Codec Checked Disk FaultIo Result Std

variable {reason : Error} {start : Nat}

section

variable [Hasher]

/-! ### Streams of a segment -/

/-- The streams of a group that are not among those of some epochs. -/
def newStreams (done added : List Epoch) : Nat :=
  ((added.map (·.streamId)).dedup.filter fun streamId => streamId ∉ done.map (·.streamId)).length

theorem mem_storedEpochs_streamId {epochs : List Epoch} {streamId : StreamId}
    (nonempty : ∀ epoch ∈ epochs, epoch.records ≠ []) :
    streamId ∈ (storedEpochs start epochs).map (·.streamId) ↔ streamId ∈ epochs.map (·.streamId) := by
  induction epochs generalizing start with
  | nil => rfl
  | cons epoch rest ih =>
    have later := @ih (start + epoch.length) fun other member =>
      nonempty other (List.mem_cons_of_mem _ member)
    have first : streamId ∈ (epoch.stored start).map (·.streamId) ↔ streamId = epoch.streamId := by
      have sized := Epoch.stored_length start epoch
      have some := List.length_pos_iff.mpr (nonempty epoch List.mem_cons_self)
      constructor
      · intro member
        obtain ⟨stored, isStored, rfl⟩ := List.mem_map.mp member
        exact (SegmentImage.mem_storedRecords isStored).1
      · rintro rfl
        obtain ⟨stored, isStored⟩ := List.exists_mem_of_length_pos (by omega : 0 < (epoch.stored start).length)
        exact List.mem_map.mpr ⟨stored, isStored, (SegmentImage.mem_storedRecords isStored).1⟩
    rw [storedEpochs, List.map_append, List.mem_append, first, later, List.map_cons, List.mem_cons]

/-- The streams of an extended segment are those it had and the new ones. -/
theorem streamCount_extended {image : SegmentImage} {added : List Epoch}
    (nonempty : ∀ epoch ∈ (image.extended added).epochs, epoch.records ≠ []) :
    streamCount (image.extended added).stored =
      streamCount image.stored + newStreams image.epochs added := by
  have old : ∀ epoch ∈ image.epochs, epoch.records ≠ [] := fun epoch member =>
    nonempty epoch (List.mem_append_left _ member)
  have count : ∀ {start : Nat} {epochs : List Epoch}, (∀ epoch ∈ epochs, epoch.records ≠ []) →
      streamCount (storedEpochs start epochs) = (epochs.map (·.streamId)).dedup.length := by
    intro start epochs some
    refine List.Perm.length_eq ((List.perm_ext_iff_of_nodup (List.nodup_dedup _)
      (List.nodup_dedup _)).mpr fun streamId => ?_)
    rw [List.mem_dedup, List.mem_dedup, mem_storedEpochs_streamId some]
  rw [SegmentImage.stored, SegmentImage.stored, count nonempty, count old]
  show ((image.epochs ++ added).map (·.streamId)).dedup.length = _
  rw [List.map_append, Maps.dedup_length_append, newStreams]

/-! ### What the writer keeps -/

/-- **A segment in memory is its file**: all it says is what a scan of the file finds. -/
structure Segment.Keeps (segment : Segment) (fs : Fs) (rootId : RootId) (segmentId : Nat)
    (image : SegmentImage) : Prop where
  identified : segmentId < wordMax
  created : image.createdAt ≤ wordMax
  nonempty : image.epochs ≠ []
  epochs : ∀ epoch ∈ image.epochs, epoch.Valid
  sized : image.length ≤ wordMax
  found : segmentsDirectory.lookup (.log segmentId) fs = some segment.file
  data : fs.nodes[segment.file]?.map FileNode.data = some (image.bytes rootId segmentId)
  same : segment = image.scanned rootId segmentId segment.file false

/-- A file holds some bytes. -/
def Fs.HoldsAt (fs : Fs) (file : Nat) (bytes : Bytes) : Prop :=
  fs.nodes[file]?.map FileNode.data = some bytes

section Files

variable {fs : Fs} {file : Nat} {bytes : Bytes}

theorem Fs.HoldsAt.content (holds : fs.HoldsAt file bytes) : fs.content file = bytes := by
  unfold Fs.content
  rw [holds]
  rfl

theorem Fs.HoldsAt.append (holds : fs.HoldsAt file bytes) (more : Bytes) :
    (fs.modifyNode file (FileNode.append more)).HoldsAt file (bytes ++ more) := by
  obtain ⟨node, found, rfl⟩ := Option.map_eq_some_iff.mp holds
  simp [Fs.HoldsAt, Fs.modifyNode, List.getElem?_modify_eq, found]

theorem Fs.HoldsAt.sync (holds : fs.HoldsAt file bytes) :
    (fs.modifyNode file FileNode.sync).HoldsAt file bytes := by
  obtain ⟨node, found, rfl⟩ := Option.map_eq_some_iff.mp holds
  simp [Fs.HoldsAt, Fs.modifyNode, List.getElem?_modify_eq, found]

theorem Fs.HoldsAt.cut (holds : fs.HoldsAt file bytes) (length : Nat) :
    (fs.cut file length).HoldsAt file (bytes.take length) := by
  obtain ⟨node, found, rfl⟩ := Option.map_eq_some_iff.mp holds
  simp [Fs.HoldsAt, Fs.cut, Fs.modifyNode, List.getElem?_modify_eq, found]

/-- A file that holds any bytes exists. -/
theorem Fs.holdsAt_content (some : fs.content file ≠ []) : fs.HoldsAt file (fs.content file) := by
  unfold Fs.HoldsAt
  unfold Fs.content at some ⊢
  cases found : fs.nodes[file]?.map (·.data) with
  | none => simp [found] at some
  | some bytes => rfl

theorem returns_createNew {ν : Type} [Ord ν] [TransOrd ν] {place : Place ν} {name : ν}
    {final : Fs} (returned : Returns (place.createNew name reason) fs file final) :
    file = fs.nodes.length ∧ final = place.change (.link name fs.nodes.length)
      { fs with nodes := fs.nodes ++ [FileNode.empty] } := by
  obtain ⟨-, returned⟩ := returned.bind_read.bind_require
  exact (Returns.bind_step returned).pure

theorem returns_rename {ν : Type} [Ord ν] [TransOrd ν] {place : Place ν} {source target : ν}
    {found : Unit} {final : Fs}
    (returned : Returns (place.rename source target reason) fs found final) :
    ∃ inode, place.lookup source fs = some inode ∧
      final = place.change (.move source target inode) fs := by
  obtain ⟨inode, lookup, returned⟩ := returned.bind_read.bind_ofOption
  exact ⟨inode, lookup, Returns.step returned⟩

/-- What a successful write of a group leaves. -/
theorem holds_writeEpochGroup {path : Artifact} {epochs : List Epoch} {final : Fs}
    {written : List WrittenEpoch} (valid : ∀ epoch ∈ epochs, epoch.Valid)
    (holds : fs.HoldsAt file bytes)
    (returned : Returns (writeEpochGroup file path start (epochs.map Epoch.prepared)) fs written final)
    :
    written = writtenEpochs start epochs ∧ (epochs ≠ [] → start + epochsLength epochs ≤ wordMax) ∧
      final.HoldsAt file (bytes ++ epochsBytes start epochs) ∧ final.root = fs.root ∧
      final.segments = fs.segments := by
  obtain ⟨report, room, ⟨rfl, rfl⟩ | rfl⟩ := returns_writeEpochGroup valid returned
  · exact ⟨report, room, by simpa [epochsBytes] using holds, rfl, rfl⟩
  · exact ⟨report, room, holds.append _, rfl, rfl⟩

end Files

section Operations

variable {fs final : Fs} {rootId : RootId} {segmentId createdAt : Nat} {epochs : List Epoch}
  {image : SegmentImage} {segment next : Segment} {ids : List (List RecordId)}

theorem Segment.Keeps.content (keeps : segment.Keeps fs rootId segmentId image) :
    fs.content segment.file = image.bytes rootId segmentId := Fs.HoldsAt.content keeps.data

theorem keeps_create (identified : segmentId ≤ wordMax) (created : createdAt ≤ wordMax)
    (valid : ∀ epoch ∈ epochs, epoch.Valid)
    (returned : Returns (Segment.create rootId segmentId createdAt (epochs.map Epoch.prepared)) fs
      (segment, ids) final) :
    segment.Keeps final rootId segmentId ⟨createdAt, epochs, false⟩ := by
  unfold Segment.create at returned
  obtain ⟨nonempty, returned⟩ := returned.bind_require
  obtain ⟨headerBytes, encoded, returned⟩ := returned.bind_ofExcept
  obtain ⟨notMax, rfl⟩ := SegmentHeader.encode_eq_ok.mp (mapError_eq_ok.mp encoded)
  obtain ⟨file, linked, isNew, returned⟩ := returned.bind
  obtain ⟨rfl, rfl⟩ := returns_createNew isNew
  -- The new file is empty and gets the header, then the epochs.
  have empty : (segmentsDirectory.change (.link (.temporary segmentId) fs.nodes.length)
      { fs with nodes := fs.nodes ++ [FileNode.empty] }).HoldsAt fs.nodes.length [] := by
    simp [Fs.HoldsAt, Place.change, segmentsDirectory, FileNode.empty]
  obtain ⟨written, middle, wrote, returned⟩ := (Returns.bind_step returned).bind
  obtain ⟨rfl, room, holds, -, sameSegments⟩ :=
    holds_writeEpochGroup valid (empty.append _) wrote
  obtain ⟨⟨records, boundaries⟩, added, returned⟩ := returned.bind_ofExcept
  obtain ⟨rfl, rfl⟩ := addBoundaries_eq_ok added
  obtain ⟨_, renamed, isRenamed, returned⟩ := (Returns.bind_step returned).bind
  obtain ⟨inode, lookup, rfl⟩ := returns_rename isRenamed
  obtain ⟨count, counted, returned⟩ := (Returns.bind_step returned).bind_ofOption
  obtain ⟨rfl, -⟩ := toWord_eq_some.mp counted
  obtain ⟨same, rfl⟩ := returned.pure
  obtain ⟨rfl, rfl⟩ := Prod.mk.inj same
  have inodeEq : inode = fs.nodes.length := by
    have bound : middle.segments.entries[SegmentName.temporary segmentId]? = some inode := lookup
    rw [sameSegments] at bound
    simpa [segmentsDirectory, Place.change, Fs.modifyNode, DirectoryOp.apply] using bound.symm
  have some : epochs ≠ [] := by simpa using nonempty
  have sized := room some
  have notLast : segmentId ≠ wordMax := notMax
  refine ⟨by omega, created, some, valid, ?_, ?_, ?_, ?_⟩
  · simpa [SegmentImage.length, SegmentImage.dataLength] using sized
  · simp [segmentsDirectory, Place.change, Place.lookup, DirectoryOp.apply, inodeEq]
  · have bytes := Fs.HoldsAt.sync holds
    rw [List.nil_append] at bytes
    show (middle.modifyNode fs.nodes.length FileNode.sync).HoldsAt fs.nodes.length _
    simpa [SegmentImage.bytes, SegmentImage.dataBytes, SegmentImage.headerBytes] using bytes
  · simp only [SegmentImage.scanned, SegmentImage.stored, SegmentImage.boundaries,
      SegmentImage.headerBytes, SegmentImage.length, SegmentImage.dataLength, List.nil_append,
      groupEnd_writtenEpochs, Maps.size_ofList, streamCount]
    rfl

theorem keeps_append (keeps : segment.Keeps fs rootId segmentId image)
    (valid : ∀ epoch ∈ epochs, epoch.Valid)
    (returned : Returns (segment.append rootId (epochs.map Epoch.prepared)
      (newStreams image.epochs epochs)) fs (next, ids) final) :
    next.Keeps final rootId segmentId (image.extended epochs) := by
  obtain ⟨file, rfl⟩ : ∃ file, segment = image.scanned rootId segmentId file false :=
    ⟨_, keeps.same⟩
  unfold Segment.append at returned
  obtain ⟨streams, counted, returned⟩ := returned.bind_ofOption
  obtain ⟨rfl, -⟩ := checkedAdd_eq_some.mp counted
  obtain ⟨unsealed, returned⟩ := returned.bind_require
  have isOpen : image.sealed = false := by
    cases shape : image.sealed with
    | false => rfl
    | true => simp [SegmentImage.scanned, shape] at unsealed
  have fileLen : (image.scanned rootId segmentId file false).fileLen = image.dataLength := by
    simp [SegmentImage.scanned, SegmentImage.length, isOpen]
  obtain ⟨written, middle, wrote, returned⟩ := returned.bind_observe.bind
  obtain ⟨rfl, room, holds, -, sameSegments⟩ := holds_writeEpochGroup valid keeps.data wrote
  obtain ⟨unreleased, isUnreleased, returned⟩ := (Returns.bind_step returned).bind_ofExcept
  obtain ⟨⟨records, boundaries⟩, added, returned⟩ := returned.bind_ofExcept
  obtain rfl := addUnreleased_total isUnreleased
  obtain ⟨rfl, rfl⟩ := addBoundaries_eq_ok added
  obtain ⟨isNext, rfl⟩ := returned.pure
  obtain ⟨rfl, rfl⟩ := Prod.mk.inj isNext
  have extendedValid : ∀ epoch ∈ (image.extended epochs).epochs, epoch.Valid := by
    intro epoch member
    rcases List.mem_append.mp member with old | new
    · exact keeps.epochs epoch old
    · exact valid epoch new
  have length : (image.extended epochs).length = image.dataLength + epochsLength epochs := by
    rw [← SegmentImage.extended_dataLength]
    simp [SegmentImage.length, SegmentImage.extended, isOpen]
  refine ⟨keeps.identified, keeps.created, ?_, extendedValid, ?_, ?_, ?_, ?_⟩
  · simp [SegmentImage.extended, keeps.nonempty]
  · rw [length]
    by_cases none : epochs = []
    · rw [none, epochsLength_nil]
      exact (SegmentImage.dataLength_le_length image).trans keeps.sized
    · rw [← fileLen]
      exact room none
  · have found := keeps.found
    show middle.segments.entries[_]? = _
    rw [sameSegments]
    exact found
  · rw [SegmentImage.extended_bytes isOpen, ← fileLen]
    exact Fs.HoldsAt.sync holds
  · rw [groupEnd_writtenEpochs, fileLen, ← length]
    have count := streamCount_extended fun epoch member => (extendedValid epoch member).nonempty
    simp only [SegmentImage.scanned, count]
    simp [SegmentImage.extended, isOpen, SegmentImage.boundaries, epochsBoundaries_append,
      SegmentImage.stored, storedEpochs_append, epochRecords, SegmentImage.headerBytes,
      SegmentImage.dataLength]

theorem keeps_sealData {footer : SegmentFooter} (keeps : segment.Keeps fs rootId segmentId image)
    (returned : Returns segment.sealData fs (next, footer) final) :
    next.Keeps final rootId segmentId { image with sealed := true } := by
  obtain ⟨file, rfl⟩ : ∃ file, segment = image.scanned rootId segmentId file false :=
    ⟨_, keeps.same⟩
  cases isSealed : image.sealed with
  | true =>
    have same : ({ image with sealed := true } : SegmentImage) = image := by
      rw [← isSealed]
    have shape : (image.scanned rootId segmentId file false).footer =
        some (image.footer rootId segmentId) := by simp [SegmentImage.scanned, isSealed]
    simp only [Segment.sealData, shape] at returned
    obtain ⟨isNext, rfl⟩ := Returns.result returned
    obtain ⟨rfl, rfl⟩ := Prod.mk.inj isNext
    rw [same]
    exact keeps
  | false =>
    have shape : (image.scanned rootId segmentId file false).footer = none := by
      simp [SegmentImage.scanned, isSealed]
    have fileLen : (image.scanned rootId segmentId file false).fileLen = image.dataLength := by
      simp [SegmentImage.scanned, SegmentImage.length, isSealed]
    simp only [Segment.sealData, shape] at returned
    obtain ⟨found, isFooter, returned⟩ := returned.bind_ofExcept
    obtain ⟨bytes, encoded, returned⟩ := returned.bind_ofExcept
    obtain ⟨isNext, rfl⟩ := (Returns.bind_step (Returns.bind_step returned.bind_observe)).pure
    obtain ⟨rfl, rfl⟩ := Prod.mk.inj isNext
    simp only [Segment.footerOf, fileLen, bind_eq_ok, orError_eq_ok,
      checkedAdd_eq_some, toWord_eq_some, pure_eq_ok] at isFooter
    obtain ⟨_, ⟨rfl, room⟩, _, ⟨rfl, -⟩, rfl⟩ := isFooter
    obtain ⟨-, isBytes⟩ := SegmentFooter.encode_eq_ok.mp (mapError_eq_ok.mp encoded)
    have footerBytes : bytes = image.footerBytes rootId segmentId := by
      rw [← isBytes]
      simp [SegmentImage.footerBytes, SegmentImage.footer, SegmentImage.scanned,
        SegmentImage.boundaries]
    refine ⟨keeps.identified, keeps.created, keeps.nonempty, keeps.epochs, ?_, keeps.found, ?_, ?_⟩
    · simpa [SegmentImage.length, SegmentImage.dataLength] using room
    · have written := Fs.HoldsAt.sync (Fs.HoldsAt.append keeps.data bytes)
      have whole : ({ image with sealed := true } : SegmentImage).bytes rootId segmentId =
          image.bytes rootId segmentId ++ bytes := by
        rw [footerBytes]
        simp [SegmentImage.bytes, isSealed, SegmentImage.dataBytes, SegmentImage.headerBytes,
          SegmentImage.footerBytes, SegmentImage.footer, SegmentImage.dataLength]
      rw [whole]
      exact written
    · simp [SegmentImage.scanned, SegmentImage.length, SegmentImage.stored,
        SegmentImage.boundaries, SegmentImage.headerBytes, SegmentImage.footer,
        SegmentImage.dataLength]

end Operations

/-! ### Histories -/

/-- The epochs of a group, encoded as the writer takes them. -/
def prepareEpochs (epochs : List Epoch) : Except Error (List PreparedEpoch) :=
  tryMap (fun epoch => PreparedEpoch.new epoch.streamId epoch.firstSequence epoch.records)
    epochs

theorem prepareEpochs_eq_ok {epochs : List Epoch} {prepared : List PreparedEpoch}
    (isPrepared : prepareEpochs epochs = .ok prepared) :
    (∀ epoch ∈ epochs, epoch.Valid) ∧ prepared = epochs.map Epoch.prepared := by
  induction epochs generalizing prepared with
  | nil =>
    cases isPrepared
    exact ⟨by simp, rfl⟩
  | cons epoch rest ih =>
    simp only [prepareEpochs, tryMap, bind_eq_ok, pure_eq_ok,
      PreparedEpoch.new_eq_ok] at isPrepared ih
    obtain ⟨_, ⟨valid, rfl⟩, later, others, rfl⟩ := isPrepared
    obtain ⟨restValid, rfl⟩ := ih others
    exact ⟨List.forall_mem_cons.mpr ⟨valid, restValid⟩, rfl⟩

/-- **The histories of a segment**: every segment that was created, extended and sealed by successful
writes, with the epochs it was given and the filesystem it was written to. -/
inductive SegmentHistory (rootId : RootId) (segmentId : Nat) : List Epoch → Fs → Segment → Prop where
  | create {createdAt : Nat} {epochs : List Epoch} {prepared : List PreparedEpoch} {fs final : Fs}
      {segment : Segment} {ids : List (List RecordId)} (identified : segmentId ≤ wordMax)
      (created : createdAt ≤ wordMax) (isPrepared : prepareEpochs epochs = .ok prepared)
      (returned : Returns (Segment.create rootId segmentId createdAt prepared) fs (segment, ids)
        final) : SegmentHistory rootId segmentId epochs final segment
  | append {done added : List Epoch} {prepared : List PreparedEpoch} {fs final : Fs}
      {segment next : Segment} {ids : List (List RecordId)}
      (history : SegmentHistory rootId segmentId done fs segment)
      (isPrepared : prepareEpochs added = .ok prepared)
      (returned : Returns (segment.append rootId prepared (newStreams done added)) fs (next, ids)
        final) : SegmentHistory rootId segmentId (done ++ added) final next
  | sealing {done : List Epoch} {fs final : Fs} {segment next : Segment} {footer : SegmentFooter}
      (history : SegmentHistory rootId segmentId done fs segment)
      (returned : Returns segment.sealData fs (next, footer) final) :
      SegmentHistory rootId segmentId done final next

/-- The sequences that some epochs give to a stream. -/
def assignedSequences (streamId : StreamId) (epochs : List Epoch) : List Nat :=
  epochs.flatMap fun epoch =>
    if epoch.streamId = streamId then List.range' epoch.firstSequence epoch.records.length else []

/-- In every stream the sequences of some epochs are contiguous. -/
def ContiguousEpochs (epochs : List Epoch) : Prop :=
  ∀ streamId, (assignedSequences streamId epochs).IsChain fun previous next => previous + 1 = next

theorem sequencesOf_stored (streamId : StreamId) (start : Nat) (epoch : Epoch) :
    sequencesOf streamId (epoch.stored start) = if epoch.streamId = streamId
      then List.range' epoch.firstSequence epoch.records.length else [] := by
  have general : ∀ (sequence offset : Nat) (records : List Record),
      sequencesOf streamId (storedRecords epoch.streamId sequence offset records) =
        if epoch.streamId = streamId then List.range' sequence records.length else [] := by
    intro sequence offset records
    induction records generalizing sequence offset with
    | nil => simp [storedRecords]
    | cons record rest ih =>
      rw [storedRecords, sequencesOf_cons, ih]
      by_cases same : epoch.streamId = streamId
      · simp [same, Record.stored, List.range'_succ]
      · simp [same, Record.stored]
  exact general _ _ _

theorem sequencesOf_storedEpochs (streamId : StreamId) (start : Nat) (epochs : List Epoch) :
    sequencesOf streamId (storedEpochs start epochs) = assignedSequences streamId epochs := by
  induction epochs generalizing start with
  | nil => rfl
  | cons epoch rest ih =>
    rw [storedEpochs, sequencesOf_append, sequencesOf_stored, ih, assignedSequences,
      assignedSequences, List.flatMap_cons]

variable {rootId : RootId} {segmentId : Nat} {epochs : List Epoch} {fs : Fs} {segment : Segment}

/-- Whatever was written, the segment in memory is the file. -/
theorem SegmentHistory.keeps (history : SegmentHistory rootId segmentId epochs fs segment) :
    ∃ image, image.epochs = epochs ∧ segment.Keeps fs rootId segmentId image := by
  induction history with
  | create identified created isPrepared returned =>
    obtain ⟨valid, rfl⟩ := prepareEpochs_eq_ok isPrepared
    exact ⟨_, rfl, keeps_create identified created valid returned⟩
  | append history isPrepared returned ih =>
    obtain ⟨image, rfl, keeps⟩ := ih
    obtain ⟨valid, rfl⟩ := prepareEpochs_eq_ok isPrepared
    exact ⟨_, rfl, keeps_append keeps valid returned⟩
  | sealing history returned ih =>
    obtain ⟨image, rfl, keeps⟩ := ih
    exact ⟨{ image with sealed := true }, rfl, keeps_sealData keeps returned⟩

/-- **The scan of a segment that was written returns the segment its writer kept**: the same records,
boundaries, commits, length, footer and streams, without a repair. -/
theorem scan_history (history : SegmentHistory rootId segmentId epochs fs segment)
    (contiguous : ContiguousEpochs epochs) (allow : Bool) (baseline : Option Nat) :
    Completes (Segment.scan rootId segmentId allow baseline) fs segment fs ∧
      segment.repairedTail = false := by
  obtain ⟨image, rfl, keeps⟩ := history.keeps
  have valid : image.Valid segmentId := by
    refine ⟨keeps.identified, keeps.created, keeps.nonempty, keeps.epochs, fun streamId => ?_,
      keeps.sized⟩
    rw [SegmentImage.stored, sequencesOf_storedEpochs]
    exact contiguous streamId
  have scanned := @completes_scan_whole _ fs rootId segmentId segment.file allow baseline image valid
    keeps.found keeps.content
  rw [← keeps.same] at scanned
  exact ⟨scanned, by rw [keeps.same]; rfl⟩

end

/-- A history of a creation, an append and a seal. -/
theorem scan_history_sample : ∃ segment final,
    @SegmentHistory Hasher.fnv .sample 0
      [⟨1, 0, [⟨[1], [2, 3]⟩]⟩, ⟨1, 1, [⟨[], [9]⟩]⟩] final segment ∧
    Completes (@Segment.scan Hasher.fnv .sample 0 false none) final segment
      final := by
  let _ : Hasher := Hasher.fnv
  obtain ⟨⟨last, footer⟩, final, completes⟩ := exists_completes (do
    let (created, _) ← Segment.create .sample 0 5
      [(⟨1, 0, [⟨[1], [2, 3]⟩]⟩ : Epoch).prepared]
    let (appended, _) ← created.append .sample
      [(⟨1, 1, [⟨[], [9]⟩]⟩ : Epoch).prepared] 0
    appended.sealData) Fs.fresh (by decide +kernel)
  obtain ⟨⟨created, _⟩, first, isCreated, later⟩ := completes.returns.bind
  obtain ⟨⟨appended, _⟩, second, isAppended, isSealed⟩ := later.bind
  have history := SegmentHistory.sealing (.append (.create (by decide) (by decide)
    (by decide +kernel : prepareEpochs [⟨1, 0, [⟨[1], [2, 3]⟩]⟩] = _) isCreated)
    (by decide +kernel : prepareEpochs [⟨1, 1, [⟨[], [9]⟩]⟩] = _) isAppended) isSealed
  refine ⟨last, final, history, (scan_history history (fun streamId => ?_) false none).1⟩
  by_cases same : 1 = streamId
  · simp [assignedSequences, same]
  · simp [assignedSequences, same]

end Camus
