/-
**Scanning segments.**

`Segment.scan` reads a segment file back into memory. On the file of a well-formed segment it returns
the segment the file stands for (`SegmentImage.scanned`), and cuts what an interrupted write left
behind it.

* `completes_scan` — the scan of an image with an incomplete tail.
* `scan_interrupted` — a write at the end of an open segment, cut off anywhere, leaves the epochs that
  lie completely inside the written part.
-/

import Camus.Storage.SegmentSpec

set_option linter.unusedSectionVars false

namespace Camus

open Codec Checked Disk FaultIo

section

variable [Hasher]

/-! ### The scan of an image -/

/-- The segment a scan makes of a file. -/
def SegmentImage.scanned (rootId : RootId) (segmentId file : Nat) (repaired : Bool)
    (image : SegmentImage) : Segment where
  id := segmentId
  file := file
  header := ⟨rootId, segmentId, image.createdAt⟩
  headerBytes := image.headerBytes rootId segmentId
  fileLen := image.length
  records := image.stored
  uniqueStreams := streamCount image.stored
  unreleasedRecords := image.stored.length
  epochs := image.boundaries
  footer := if image.sealed then some (image.footer rootId segmentId) else none
  repairedTail := repaired

/-- A file cut to a length and made durable. -/
def Fs.cut (file length : Nat) (fs : Fs) : Fs :=
  (fs.modifyNode file (FileNode.truncate length)).modifyNode file FileNode.sync

theorem Fs.content_cut (file length : Nat) (fs : Fs) :
    (fs.cut file length).content file = (fs.content file).take length := by
  unfold Fs.cut Fs.content Fs.modifyNode
  simp only [List.getElem?_modify_eq]
  cases fs.nodes[file]? <;> simp

section Scan

variable {fs : Fs} {rootId : RootId} {segmentId file : Nat} {allow : Bool} {baseline : Option Nat}
  {image : SegmentImage} {torn : Bytes}

/-- What the walk over the epochs finds in the file of an image. -/
theorem scanEpochs_image {path : Artifact} (valid : image.Valid segmentId)
    (tail : TornTail image.dataLength torn) (whole : image.sealed = true → torn = [])
    (allowed : torn ≠ [] → tailRepairAllowed allow baseline image.boundaries = true) :
    scanEpochs path (image.bytes rootId segmentId ++ torn) allow baseline
        (image.bytes rootId segmentId ++ torn).length segmentHeaderLen [] [] =
      .ok ⟨image.stored, image.boundaries,
        if image.sealed then some (image.footer rootId segmentId) else none,
        if torn = [] then none else some image.length⟩ := by
  cases isSealed : image.sealed with
  | true =>
    obtain rfl := whole isSealed
    rw [List.append_nil, SegmentImage.scanEpochs_sealed valid isSealed]
    rfl
  | false =>
    have length : image.length = image.dataLength := by simp [SegmentImage.length, isSealed]
    rw [SegmentImage.scanEpochs_open valid isSealed tail allowed, length]
    rfl

/-- **The scan of an image** returns its segment and cuts an incomplete tail. -/
theorem completes_scan (valid : image.Valid segmentId)
    (found : segmentsDirectory.lookup (.log segmentId) fs = some file)
    (content : fs.content file = image.bytes rootId segmentId ++ torn)
    (tail : TornTail image.dataLength torn) (whole : image.sealed = true → torn = [])
    (allowed : torn ≠ [] → tailRepairAllowed allow baseline image.boundaries = true) :
    Completes (Segment.scan rootId segmentId allow baseline) fs
      (image.scanned rootId segmentId file (torn ≠ []))
      (if torn = [] then fs else fs.cut file image.length) := by
  have data : segmentHeaderLen ≤ image.length := by
    unfold SegmentImage.length SegmentImage.dataLength
    omega
  have size : (image.bytes rootId segmentId).length = image.length := by simp
  have header : slice (image.bytes rootId segmentId ++ torn) 0 segmentHeaderLen =
      image.headerBytes rootId segmentId := by
    rw [slice_append_left (by omega), SegmentImage.bytes, SegmentImage.dataBytes,
      List.append_assoc, slice_append_left (by simp), slice_all (by simp)]
  have isHeader : scanHeader (.segment (.log segmentId)) rootId segmentId
      (image.headerBytes rootId segmentId) = .ok ⟨rootId, segmentId, image.createdAt⟩ := by
    simp [scanHeader, malformed, SegmentImage.header_decode valid]
  have fileLen : (if torn = [] then none else some image.length).getD
      (image.bytes rootId segmentId ++ torn).length = image.length := by
    by_cases empty : torn = []
    · simp [empty]
    · simp [empty]
  have repairs : Completes (repairTail file (.segment (.log segmentId))
      (if torn = [] then none else some image.length)) fs ()
      (if torn = [] then fs else fs.cut file image.length) := by
    by_cases empty : torn = []
    · simp only [empty, if_true]
      exact completes_result ()
    · simp only [empty, if_false]
      exact completes_bind (completes_step _ _ _) (completes_step _ _ _)
  have repaired : (if torn = [] then none else some image.length).isSome = decide (torn ≠ []) := by
    by_cases empty : torn = [] <;> simp [empty]
  unfold Segment.scan
  refine completes_bind completes_read (completes_bind (completes_ofOption found) ?_)
  refine completes_bind (completes_observe _) (completes_bind (completes_observe _) ?_)
  rw [content]
  have long : segmentHeaderLen ≤ (image.bytes rootId segmentId ++ torn).length := by
    rw [List.length_append]
    omega
  refine completes_bind (completes_require (decide_eq_true long))
    (completes_bind (completes_observe _) ?_)
  rw [header]
  refine completes_bind (completes_ofExcept isHeader) ?_
  refine completes_bind (completes_ofExcept (scanEpochs_image valid tail whole allowed)) ?_
  refine completes_bind repairs ?_
  rw [fileLen]
  refine completes_bind (completes_ofExcept (SegmentImage.validateScanned_image valid _)) ?_
  refine completes_bind (completes_observe _) ?_
  refine completes_bind (completes_ofOption (toWord_of_le valid.stored_length_le)) ?_
  rw [repaired]
  exact completes_result _

/-- The scan of a complete file. -/
theorem completes_scan_whole (valid : image.Valid segmentId)
    (found : segmentsDirectory.lookup (.log segmentId) fs = some file)
    (content : fs.content file = image.bytes rootId segmentId) :
    Completes (Segment.scan rootId segmentId allow baseline) fs
      (image.scanned rootId segmentId file false) fs := by
  have done := @completes_scan _ fs rootId segmentId file allow baseline image [] valid found
    (by rw [List.append_nil]; exact content) (tornTail_nil _) (fun _ => rfl)
    fun nonempty => absurd rfl nonempty
  simpa using done

end Scan

/-! ### Interrupted writes -/

/-- The epochs of a group that lie completely inside its first bytes. -/
def epochsWithin : Nat → List Epoch → List Epoch
  | _, [] => []
  | length, epoch :: rest =>
    if epoch.length ≤ length then epoch :: epochsWithin (length - epoch.length) rest else []

theorem epochsWithin_isPrefix (length : Nat) (epochs : List Epoch) :
    epochsWithin length epochs <+: epochs := by
  induction epochs generalizing length with
  | nil => exact List.prefix_rfl
  | cons epoch rest ih =>
    unfold epochsWithin
    split
    · exact List.cons_prefix_cons.mpr ⟨rfl, ih _⟩
    · exact List.nil_prefix

/-- A part of a group of epochs is the epochs inside it and an incomplete tail. -/
theorem part_epochsBytes {epochs : List Epoch} {start : Nat} {written : Bytes}
    (valid : ∀ epoch ∈ epochs, epoch.Valid) (room : start + epochsLength epochs ≤ wordMax)
    (part : written <+: epochsBytes start epochs) :
    ∃ torn, written = epochsBytes start (epochsWithin written.length epochs) ++ torn ∧
      TornTail (start + epochsLength (epochsWithin written.length epochs)) torn := by
  induction epochs generalizing start written with
  | nil =>
    obtain rfl : written = [] := by simpa [epochsBytes] using part
    exact ⟨[], rfl, tornTail_nil _⟩
  | cons epoch rest ih =>
    rw [epochsLength_cons] at room
    by_cases short : written.length < epoch.length
    · refine ⟨written, ?_, ?_⟩ <;> rw [epochsWithin, if_neg (by omega)]
      · rfl
      · refine .inr ⟨epoch, valid epoch List.mem_cons_self, by simp only [epochsLength_nil]; omega,
          ?_, short⟩
        have first : epoch.bytes start <+: epochsBytes start (epoch :: rest) := List.prefix_append _ _
        exact List.prefix_of_prefix_length_le part first (by rw [Epoch.bytes_length]; omega)
    · have first : epoch.bytes start <+: written := by
        refine List.prefix_of_prefix_length_le (List.prefix_append _ _) part ?_
        rw [Epoch.bytes_length]
        omega
      obtain ⟨later, rfl⟩ := first
      have rest_length : (epoch.bytes start ++ later).length - epoch.length = later.length := by simp
      obtain ⟨torn, whole, tail⟩ := ih
        (fun other member => valid other (List.mem_cons_of_mem _ member)) (by omega)
        ((List.prefix_append_right_inj _).mp part)
      refine ⟨torn, ?_, ?_⟩ <;>
        rw [epochsWithin, if_pos (by rw [List.length_append, Epoch.bytes_length]; omega), rest_length]
      · rw [epochsBytes, List.append_assoc, ← whole]
      · rwa [epochsLength_cons, ← Nat.add_assoc]

namespace SegmentImage

/-- A segment with more epochs. -/
def extended (added : List Epoch) (image : SegmentImage) : SegmentImage :=
  { image with epochs := image.epochs ++ added }

variable {rootId : RootId} {segmentId : Nat} {image : SegmentImage} {added : List Epoch}

theorem extended_stored :
    (image.extended added).stored = image.stored ++ storedEpochs image.dataLength added := by
  simp only [stored, extended, storedEpochs_append, dataLength]

theorem extended_dataLength :
    (image.extended added).dataLength = image.dataLength + epochsLength added := by
  simp [dataLength, extended, Nat.add_assoc]

theorem extended_bytes (isOpen : image.sealed = false) :
    (image.extended added).bytes rootId segmentId =
      image.bytes rootId segmentId ++ epochsBytes image.dataLength added := by
  simp [bytes, dataBytes, headerBytes, extended, isOpen, epochsBytes_append, dataLength]

end SegmentImage

/-- What may be written at the end of an open segment: a group of epochs or the footer. -/
inductive TailWrite where
  | group (added : List Epoch)
  | footer

namespace TailWrite

/-- The bytes of a write. -/
def bytes (rootId : RootId) (segmentId : Nat) (image : SegmentImage) : TailWrite → Bytes
  | .group added => epochsBytes image.dataLength added
  | .footer => image.footerBytes rootId segmentId

/-- A write continues a segment: the sequences of a group continue those of the segment in every
stream, and the length of the file stays a word. -/
def Continues (image : SegmentImage) : TailWrite → Prop
  | .group added => (∀ epoch ∈ added, epoch.Valid) ∧ Contiguous (image.extended added).stored ∧
      image.dataLength + epochsLength added ≤ wordMax
  | .footer => image.dataLength + segmentFooterLen ≤ wordMax

/-- The epochs that lie completely inside the first bytes of a write. -/
def epochsLeft (length : Nat) : TailWrite → List Epoch
  | .group added => epochsWithin length added
  | .footer => []

/-- The footer lies completely inside the first bytes of a write. -/
def seals (length : Nat) : TailWrite → Bool
  | .group _ => false
  | .footer => segmentFooterLen ≤ length

/-- The segment that the first bytes of a write leave. -/
def left (length : Nat) (image : SegmentImage) (write : TailWrite) : SegmentImage :=
  { image.extended (write.epochsLeft length) with sealed := write.seals length }

variable {rootId : RootId} {segmentId : Nat} {image : SegmentImage} {write : TailWrite}
  {written : Bytes}

theorem left_valid (valid : image.Valid segmentId) (continues : write.Continues image)
    (length : Nat) : (write.left length image).Valid segmentId := by
  cases write with
  | group added =>
    obtain ⟨epochs, contiguous, room⟩ := continues
    obtain ⟨rest, whole⟩ := epochsWithin_isPrefix length added
    refine ⟨valid.identified, valid.created, ?_, ?_, ?_, ?_⟩
    · simp [left, SegmentImage.extended, valid.nonempty]
    · intro epoch member
      rcases List.mem_append.mp member with old | new
      · exact valid.epochs epoch old
      · exact epochs epoch ((epochsWithin_isPrefix length added).subset new)
    · have split : (image.extended added).stored =
          (image.extended (epochsWithin length added)).stored ++
            storedEpochs (image.dataLength + epochsLength (epochsWithin length added)) rest := by
        rw [SegmentImage.extended_stored, SegmentImage.extended_stored, List.append_assoc,
          ← storedEpochs_append, whole]
      rw [split] at contiguous
      exact contiguous.of_append_left
    · have shorter := congrArg epochsLength whole
      rw [epochsLength_append] at shorter
      show (image.extended (epochsWithin length added)).dataLength + 0 ≤ wordMax
      rw [SegmentImage.extended_dataLength]
      omega
  | footer =>
    refine ⟨valid.identified, valid.created, ?_, ?_, ?_, ?_⟩
    · simpa [left, SegmentImage.extended, epochsLeft] using valid.nonempty
    · simpa [left, SegmentImage.extended, epochsLeft] using valid.epochs
    · simpa [left, SegmentImage.extended, epochsLeft, SegmentImage.stored] using valid.contiguous
    · have room : image.dataLength + segmentFooterLen ≤ wordMax := continues
      have same : (TailWrite.footer.left length image).dataLength = image.dataLength := by
        simp [left, SegmentImage.extended, epochsLeft, SegmentImage.dataLength]
      unfold SegmentImage.length
      rw [same]
      split <;> omega

/-- The first bytes of a write are the segment they leave and an incomplete tail. -/
theorem left_bytes (isOpen : image.sealed = false) (continues : write.Continues image)
    (part : written <+: write.bytes rootId segmentId image) :
    ∃ torn, image.bytes rootId segmentId ++ written =
        (write.left written.length image).bytes rootId segmentId ++ torn ∧
      TornTail (write.left written.length image).dataLength torn ∧
      ((write.left written.length image).sealed = true → torn = []) := by
  cases write with
  | group added =>
    obtain ⟨epochs, -, room⟩ := continues
    obtain ⟨torn, whole, tail⟩ := part_epochsBytes epochs room part
    have bytes : ((TailWrite.group added).left written.length image).bytes rootId segmentId =
        image.bytes rootId segmentId ++
          epochsBytes image.dataLength (epochsWithin written.length added) := by
      rw [← SegmentImage.extended_bytes isOpen]
      simp [left, seals, epochsLeft, SegmentImage.bytes, SegmentImage.extended, isOpen,
        SegmentImage.dataBytes, SegmentImage.headerBytes]
    refine ⟨torn, ?_, ?_, fun never => by cases never⟩
    · rw [bytes, List.append_assoc, ← whole]
    · show TornTail (image.extended (epochsWithin written.length added)).dataLength torn
      rwa [SegmentImage.extended_dataLength]
  | footer =>
    have size : (image.footerBytes rootId segmentId).length = segmentFooterLen := by simp
    by_cases all : segmentFooterLen ≤ written.length
    · obtain rfl := part.eq_of_length_le (by
        show (image.footerBytes rootId segmentId).length ≤ written.length
        omega)
      refine ⟨[], ?_, tornTail_nil _, fun _ => rfl⟩
      simp [left, seals, epochsLeft, SegmentImage.bytes, SegmentImage.extended, isOpen,
        SegmentImage.dataBytes, SegmentImage.headerBytes, bytes, SegmentImage.footerBytes,
        SegmentImage.footer, SegmentImage.dataLength, segmentFooterLen]
    · refine ⟨written, ?_, .inl (by unfold segmentFooterLen epochHeaderLen at *; omega), ?_⟩
      · simp [left, seals, epochsLeft, SegmentImage.bytes, SegmentImage.extended, isOpen,
          SegmentImage.dataBytes, SegmentImage.headerBytes, all]
      · simp [left, seals, all]

theorem left_records : (write.left written.length image).stored =
    image.stored ++ storedEpochs image.dataLength (write.epochsLeft written.length) :=
  SegmentImage.extended_stored

end TailWrite

section Interrupted

variable {fs : Fs} {rootId : RootId} {segmentId file : Nat} {baseline : Option Nat}
  {image : SegmentImage} {write : TailWrite} {written : Bytes}

/-- A tail may be cut behind the epochs of the checkpoint. -/
theorem tailRepairAllowed_left (valid : image.Valid segmentId)
    (boundary : ∀ count, baseline = some count →
      ∃ epoch ∈ image.boundaries, epoch.recordCount = count) (length : Nat) :
    tailRepairAllowed true baseline (write.left length image).boundaries = true := by
  have grown : (write.left length image).boundaries = image.boundaries ++
      epochsBoundaries (epochRecords image.epochs).length image.dataLength
        (write.epochsLeft length) := by
    simp [SegmentImage.boundaries, TailWrite.left, SegmentImage.extended, epochsBoundaries_append,
      SegmentImage.dataLength]
  have nonempty : image.boundaries ≠ [] := by
    intro none
    have empty := congrArg List.length none
    rw [SegmentImage.boundaries, epochsBoundaries_length] at empty
    exact valid.nonempty (List.length_eq_zero_iff.mp empty)
  rw [tailRepairAllowed, grown]
  simp only [Bool.true_and, Bool.and_eq_true, Bool.not_eq_true', List.isEmpty_eq_false_iff,
    Option.all_eq_true, List.any_eq_true, decide_eq_true_eq]
  refine ⟨List.append_ne_nil_of_left_ne_nil nonempty _, fun count same => ?_⟩
  obtain ⟨epoch, member, counted⟩ := boundary count same
  exact ⟨epoch, List.mem_append_left _ member, counted⟩

/-- **An interrupted write recovers to whole epochs.** A group of epochs or the footer was being
written at the end of an open segment and some first bytes of it survive. The scan returns the records
of the segment and those of the epochs inside these bytes, and a footer if all of it survives; it cuts
the file to the end of the last of these epochs, and another scan finds the same without a repair. -/
theorem scan_interrupted (valid : image.Valid segmentId) (isOpen : image.sealed = false)
    (continues : write.Continues image)
    (part : written <+: write.bytes rootId segmentId image)
    (found : segmentsDirectory.lookup (.log segmentId) fs = some file)
    (content : fs.content file = image.bytes rootId segmentId ++ written)
    (boundary : ∀ count, baseline = some count →
      ∃ epoch ∈ image.boundaries, epoch.recordCount = count) :
    ∃ segment final, Completes (Segment.scan rootId segmentId true baseline) fs segment final ∧
      segment.records = image.stored ++
        storedEpochs image.dataLength (write.epochsLeft written.length) ∧
      segment.fileLen = image.dataLength + epochsLength (write.epochsLeft written.length) +
        (if write.seals written.length then segmentFooterLen else 0) ∧
      segment.footer.isSome = write.seals written.length ∧
      final.content file = (fs.content file).take segment.fileLen ∧
      (segment.repairedTail = true ↔ segment.fileLen < (fs.content file).length) ∧
      (segment.repairedTail = false → final = fs) ∧
      ∃ again, Completes (Segment.scan rootId segmentId true baseline) final again final ∧
        again.records = segment.records ∧ again.footer = segment.footer ∧
        again.fileLen = segment.fileLen ∧ again.repairedTail = false := by
  obtain ⟨torn, whole, tail, complete⟩ := TailWrite.left_bytes isOpen continues part
  have leftValid := TailWrite.left_valid valid continues written.length
  rw [whole] at content
  have scanned := @completes_scan _ fs rootId segmentId file true baseline
    (write.left written.length image) torn leftValid found content tail complete
    fun _ => tailRepairAllowed_left valid boundary written.length
  have size : ((write.left written.length image).bytes rootId segmentId).length =
      (write.left written.length image).length := by simp
  have cut : (if torn = [] then fs else fs.cut file (write.left written.length image).length).content
      file = (write.left written.length image).bytes rootId segmentId := by
    by_cases empty : torn = []
    · rw [if_pos empty, content, empty, List.append_nil]
    · rw [if_neg empty, Fs.content_cut, content, ← size, List.take_left]
  refine ⟨_, _, scanned, TailWrite.left_records, ?_, ?_, ?_, ?_, ?_, _,
    completes_scan_whole leftValid ?_ cut, rfl, rfl, rfl, rfl⟩
  · show (image.extended (write.epochsLeft written.length)).dataLength + _ = _
    rw [SegmentImage.extended_dataLength]
    rfl
  · show (if write.seals written.length = true then some _ else none).isSome = _
    cases write.seals written.length <;> rfl
  · show _ = (fs.content file).take (write.left written.length image).length
    rw [cut, content, ← size, List.take_left]
  · show decide (torn ≠ []) = true ↔ (write.left written.length image).length < _
    rw [content, List.length_append, size, decide_eq_true_eq, ← List.length_pos_iff]
    omega
  · intro clean
    have empty : torn = [] := by simpa [SegmentImage.scanned] using clean
    rw [if_pos empty]
  · by_cases empty : torn = []
    · rw [if_pos empty]
      exact found
    · rw [if_neg empty]
      exact found

end Interrupted

end

/-! ### A segment to evaluate -/

theorem contiguous_of_stream {records : List StoredRecord} (streamId : StreamId)
    (alone : ∀ record ∈ records, record.streamId = streamId)
    (chain : (records.map (·.sequence)).IsChain fun previous next => previous + 1 = next) :
    Contiguous records := by
  intro other
  by_cases same : streamId = other
  · have all : records.filter (fun record => record.streamId = other) = records :=
      List.filter_eq_self.mpr fun record member => by simp [alone record member, same]
    rw [sequencesOf, all]
    exact chain
  · have none : records.filter (fun record => record.streamId = other) = [] :=
      List.filter_eq_nil_iff.mpr fun record member => by simp [alone record member, same]
    rw [sequencesOf, none]
    exact .nil

/-- An open segment with one record. -/
def SegmentImage.sample : SegmentImage := ⟨5, [⟨1, 0, [⟨[1], [2, 3]⟩]⟩], false⟩

/-- The next two epochs of that segment. -/
def epochsSample : List Epoch := [⟨1, 1, [⟨[], [9]⟩]⟩, ⟨1, 2, [⟨[4], []⟩]⟩]

/-- A filesystem with one segment file. -/
def Fs.sample (content : Bytes) : Fs :=
  ⟨[⟨content, []⟩], .empty, ⟨(∅ : Entries SegmentName).insert (.log 0) 0, []⟩⟩

theorem SegmentImage.sample_valid : @SegmentImage.Valid Hasher.fnv 0 .sample := by
  let _ : Hasher := Hasher.fnv
  refine ⟨by decide, by decide, by decide, ?_,
    contiguous_of_stream 1 (by decide +kernel) (by decide +kernel), by decide⟩
  intro epoch member
  obtain rfl := List.mem_singleton.mp member
  exact ⟨by decide, by decide, by decide⟩

/-- A group of two epochs was cut inside the second one: the scan finds the first one. -/
theorem scan_interrupted_sample : ∃ segment final,
    Completes (@Segment.scan Hasher.fnv .sample 0 true (some 1))
      (Fs.sample (@SegmentImage.bytes Hasher.fnv .sample 0 .sample ++
        (@epochsBytes Hasher.fnv SegmentImage.sample.dataLength epochsSample).take 160)) segment final ∧
      segment.records = @SegmentImage.stored Hasher.fnv .sample ++
        @storedEpochs Hasher.fnv SegmentImage.sample.dataLength (epochsSample.take 1) ∧
      segment.repairedTail = true := by
  let _ : Hasher := Hasher.fnv
  have continues : (TailWrite.group epochsSample).Continues SegmentImage.sample := by
    refine ⟨?_, contiguous_of_stream 1 (by decide +kernel) (by decide +kernel), by decide⟩
    intro epoch member
    obtain rfl | rfl : epoch = ⟨1, 1, [⟨[], [9]⟩]⟩ ∨ epoch = ⟨1, 2, [⟨[4], []⟩]⟩ := by
      simpa [epochsSample] using member
    · exact ⟨by decide, by decide, by decide⟩
    · exact ⟨by decide, by decide, by decide⟩
  obtain ⟨segment, final, completes, records, fileLen, -, -, repaired, -⟩ :=
    @scan_interrupted Hasher.fnv (Fs.sample (SegmentImage.bytes .sample 0 .sample ++
        (epochsBytes SegmentImage.sample.dataLength epochsSample).take 160)) .sample 0 0
      (some 1) SegmentImage.sample (.group epochsSample)
      ((epochsBytes SegmentImage.sample.dataLength epochsSample).take 160) SegmentImage.sample_valid rfl
      continues (List.take_prefix _ _) (by decide +kernel) rfl (by
        rintro count ⟨⟩
        exact ⟨_, List.mem_cons_self, by decide +kernel⟩)
  have complete : (TailWrite.group epochsSample).epochsLeft
      ((epochsBytes SegmentImage.sample.dataLength epochsSample).take 160).length = epochsSample.take 1 := by
    decide +kernel
  rw [complete] at records fileLen
  refine ⟨segment, final, completes, records, ?_⟩
  rw [repaired, fileLen]
  decide +kernel

end Camus
