/-
**Reading the control files is safe on arbitrary bytes.**

The frame loop of recovery and the expansion of a checkpoint's release flags, with their unchecked
operations guarded, over the guarded decoders.

* `guardedScanFrames_safe` — the loop over the frames of any log reads inside the file and ends.
* `guardedApplyBaseline_safe` — release flags are expanded for no more records than a segment has.
* `control_files_safe` — **no decoder of a control file reaches a fault**, on any input.
-/

import Camus.Format.DecodeSafety
import Camus.Storage.Recovery

set_option linter.unusedSectionVars false

namespace Camus

open Codec Checked Disk FaultIo Safety Result

/-- A decoder that is run at an offset of a file. -/
def located {α : Type} (path : Artifact) (offset : Nat) (value : Guarded String α) : Guarded Error α :=
  mapError (Sum.map id fun message => .corruption path offset message) value

theorem located_permit {α : Type} (path : Artifact) (offset : Nat) (value : FormatResult α) :
    located path offset (permit value) = permit (malformed path offset value) := by
  cases value <;> rfl

/-- A check that names a field after an offset when it fails. -/
def guardedRequireAt (offset place : Nat) (message : String) (holds : Bool) : Guarded Error Unit :=
  if holds then .ok () else do
    let field ← add offset place
    permit (.error (.corruption manifestPath field message))

theorem guardedRequireAt_safe {offset place : Nat} {message : String} {holds : Bool}
    (fits : offset + place ≤ wordMax) : guardedRequireAt offset place message holds =
      permit (ensure holds (.corruption manifestPath (offset + place) message)) := by
  cases holds with
  | true => rfl
  | false =>
    unfold guardedRequireAt
    rw [if_neg (by decide), add_of_le fits, ok_bind]
    rfl

section

variable [Hasher]

/-! ### The frame loop -/

/-- The base sequence check of `manifest::recover`. -/
def guardedScanLogHeader (rootId : RootId) (lastAppliedSeq : Nat) (headerBytes : Bytes) :
    Guarded Error ManifestLogHeader := do
  let header ← permit (malformed manifestPath 0 (ManifestLogHeader.decode headerBytes))
  permit (ensure (header.rootId = rootId)
    (.corruption manifestPath 8 "manifest log root ID does not match ROOT"))
  permit (ensure (header.baseSeq ≠ 0)
    (.corruption manifestPath 24 "manifest log base sequence must be nonzero"))
  let gap ← if lastAppliedSeq < wordMax then do
      let next ← add lastAppliedSeq 1
      pure (decide (next < header.baseSeq))
    else pure false
  permit (ensure (!gap)
    (.corruption manifestPath 24 "manifest log base creates a sequence gap after checkpoint"))
  return header

theorem guardedScanLogHeader_safe (rootId : RootId) (lastAppliedSeq : Nat) (headerBytes : Bytes) :
    guardedScanLogHeader rootId lastAppliedSeq headerBytes =
      permit (scanLogHeader rootId lastAppliedSeq headerBytes) := by
  unfold guardedScanLogHeader scanLogHeader
  refine bind_permit fun header _ => bind_permit_unit fun _ => bind_permit_unit fun _ => ?_
  by_cases below : lastAppliedSeq < wordMax
  · rw [if_pos below, add_of_le (by omega), ok_bind, decide_eq_true below, Bool.true_and]
    exact bind_permit_unit fun _ => rfl
  · rw [if_neg below, decide_eq_false below, Bool.false_and]
    rfl

/-- Taking a frame into account. -/
def guardedTakeFrame (lastAppliedSeq offset : Nat) (walk : LogWalk) (frame : ManifestFrame) :
    Guarded Error LogWalk :=
  if frame.manifestSeq ≤ lastAppliedSeq then
    .ok { walk with framesScanned := saturatingAdd walk.framesScanned 1 }
  else do
    let expected ← permit (orError
      (.corruption manifestPath offset "manifest sequence overflow") (checkedAdd walk.lastSeq 1))
    let manifestSeq := frame.manifestSeq
    guardedRequireAt offset 8 s!"manifest suffix sequence {manifestSeq}, expected {expected}"
      (manifestSeq = expected)
    let control ← permit (applyFrame manifestPath offset walk.control frame.body)
    return ⟨manifestSeq, saturatingAdd walk.framesScanned 1, control⟩

theorem guardedTakeFrame_safe {lastAppliedSeq offset : Nat} (walk : LogWalk) (frame : ManifestFrame)
    (fits : offset + 8 ≤ wordMax) : guardedTakeFrame lastAppliedSeq offset walk frame =
      permit (takeFrame lastAppliedSeq offset walk frame) := by
  unfold guardedTakeFrame takeFrame
  by_cases fenced : frame.manifestSeq ≤ lastAppliedSeq
  · rw [if_pos fenced, if_pos fenced]
    rfl
  rw [if_neg fenced, if_neg fenced]
  refine bind_permit fun expected _ => ?_
  simp only [guardedRequireAt_safe fits, permit_bind, permit_pure]

/-- The frame loop of `manifest::recover`. It does not end by itself if the fuel is not enough. -/
def guardedScanFrames (bytes : Bytes) (lastAppliedSeq : Nat) :
    Nat → Nat → Nat → LogWalk → Guarded Error LogScan
  | 0, offset, _, walk => if bytes.length ≤ offset then .ok ⟨walk, none⟩ else fault .endless
  | fuel + 1, offset, physicalSeq, walk =>
    if bytes.length ≤ offset then .ok ⟨walk, none⟩ else do
      let remaining ← sub bytes.length offset
      if remaining < manifestFrameHeaderLen then .ok ⟨walk, some offset⟩ else do
        let headerBytes ← readAt bytes offset manifestFrameHeaderLen
        let header ← located manifestPath offset (guardedDecodeFrameHeader headerBytes)
        let manifestSeq := header.manifestSeq
        guardedRequireAt offset 8 s!"manifest sequence {manifestSeq}, expected {physicalSeq}"
          (manifestSeq = physicalSeq)
        let frameLen ← permit (orError
          (.corruption manifestPath offset "manifest frame length overflow")
          (checkedAdd manifestFrameHeaderLen header.bodyLen))
        let frameEnd ← permit (orError
          (.corruption manifestPath offset "manifest frame end overflow") (checkedAdd offset frameLen))
        if bytes.length < frameEnd then .ok ⟨walk, some offset⟩ else do
          reserve header.bodyLen 1 (bytes.length - offset)
          let start ← add offset manifestFrameHeaderLen
          let body ← readAt bytes start header.bodyLen
          let frame ← located manifestPath offset (guardedDecodeFrame header body)
          let walked ← guardedTakeFrame lastAppliedSeq offset walk frame
          let nextSeq ← permit (nextPhysicalSeq frameEnd bytes.length physicalSeq)
          guardedScanFrames bytes lastAppliedSeq fuel frameEnd nextSeq walked

/-- **The frame loop reads inside the log and ends**, whatever the log holds. -/
theorem guardedScanFrames_safe {bytes : Bytes} (fits : bytes.length ≤ wordMax)
    (lastAppliedSeq fuel offset physicalSeq : Nat) (walk : LogWalk)
    (enough : bytes.length - offset ≤ fuel) :
    guardedScanFrames bytes lastAppliedSeq fuel offset physicalSeq walk =
      permit (scanFrames bytes lastAppliedSeq fuel offset physicalSeq walk) := by
  induction fuel generalizing offset physicalSeq walk with
  | zero =>
    unfold guardedScanFrames scanFrames
    rw [if_pos (by omega)]
    rfl
  | succ fuel ih =>
    unfold guardedScanFrames scanFrames
    by_cases atEnd : bytes.length ≤ offset
    · rw [if_pos atEnd, if_pos atEnd]
      rfl
    rw [if_neg atEnd, if_neg atEnd, sub_of_le (by omega), ok_bind]
    by_cases short : bytes.length - offset < manifestFrameHeaderLen
    · rw [if_pos short, if_pos short]
      rfl
    have inside : offset + manifestFrameHeaderLen ≤ bytes.length := by
      unfold manifestFrameHeaderLen at short ⊢
      omega
    have place : offset + 8 ≤ wordMax := by
      unfold manifestFrameHeaderLen at inside
      omega
    rw [if_neg short, if_neg short, readAt_of_le inside, ok_bind, guardedDecodeFrameHeader_safe,
      located_permit]
    refine bind_permit fun header _ => ?_
    simp only [guardedRequireAt_safe place]
    refine bind_permit_unit fun _ => bind_permit fun frameLen isLength =>
      bind_permit fun frameEnd isEnd => ?_
    simp only [orError_eq_ok, checkedAdd_eq_some] at isLength isEnd
    by_cases long : bytes.length < frameEnd
    · rw [if_pos long, if_pos long]
      rfl
    have bodyLength : (slice bytes (offset + manifestFrameHeaderLen) header.bodyLen).length ≤ wordMax :=
      Nat.le_trans (List.length_take_le _ _) (by omega)
    rw [if_neg long, if_neg long, reserve_of_le (by omega), ok_bind, add_of_le (by omega), ok_bind,
      readAt_of_le (by omega), ok_bind, guardedDecodeFrame_safe header bodyLength, located_permit]
    refine bind_permit fun frame _ => ?_
    rw [guardedTakeFrame_safe walk frame place]
    refine bind_permit fun walked _ => bind_permit fun nextSeq _ => ih _ _ _ ?_
    unfold manifestFrameHeaderLen at isLength
    omega

end

/-! ### Release flags of a checkpoint -/

/-- Applies the checkpoint's releases to a segment: one flag is reserved per record of the baseline,
out of the records that the segment physically has. -/
def guardedApplyCheckpointReleases (segment : Segment) (baseline : Nat) :
    Option ReleaseEncoding → Guarded Error Segment
  | none => .ok segment
  | some encoding => do
    reserve baseline 1 segment.records.length
    let flags ← permit (mapError
      (fun message => .corruption segment.path 0 s!"invalid checkpoint release state: {message}")
      (encoding.toFlags baseline))
    return { segment with records := setFlags segment.records flags }

/-- The baseline checks of `Storage::rebuild_indexes`. -/
def guardedApplyBaseline (controlSegment : Option ControlSegment) (segment : Segment) :
    Guarded Error Segment := do
  let baseline := baselineOf controlSegment
  let recordCount ← permit (orError
    (.corruption segment.path 0 "segment record count does not fit u64")
    (toWord segment.records.length))
  permit (ensure
    (baseline ≤ recordCount && (baseline = 0 || segment.hasCheckpointBoundary baseline))
    (.corruption segment.path 0 "checkpoint record boundary does not match an epoch boundary"))
  permit (ensure (!controlSegment.any fun entry => !entry.lifecycle.isActive &&
      entry.checkpointRecordCount.isSome && baseline ≠ recordCount)
    (.corruption segment.path 0
      "checkpoint-sealed segment gained records after its checkpoint boundary"))
  guardedApplyCheckpointReleases segment baseline (controlSegment.bind (·.checkpointReleases))

theorem guardedApplyBaseline_safe (controlSegment : Option ControlSegment) (segment : Segment) :
    guardedApplyBaseline controlSegment segment = permit (applyBaseline controlSegment segment) := by
  unfold guardedApplyBaseline applyBaseline
  refine bind_permit fun recordCount isCount => bind_permit_unit fun covered =>
    bind_permit_unit fun _ => ?_
  have few : baselineOf controlSegment ≤ segment.records.length := by
    simp only [orError_eq_ok, toWord_eq_some, ensure_eq_ok, Bool.and_eq_true,
      decide_eq_true_eq] at isCount covered
    omega
  cases controlSegment.bind (·.checkpointReleases) with
  | none => rfl
  | some encoding =>
    unfold guardedApplyCheckpointReleases applyCheckpointReleases
    simp only [reserve_of_le (show baselineOf controlSegment * 1 ≤ segment.records.length by omega),
      ok_bind]
    exact bind_permit fun flags _ => rfl

/-- **Control-file decoders are safe on arbitrary bytes.** On every input `Checkpoint::decode`,
`ManifestFrameHeader::decode`, `ManifestFrame::decode` and the log header and frame loop of
`manifest::recover` give what the plain decoders give, a value or an error: they never read out of
bounds, overflow an unchecked operation, reserve more elements than the remaining bytes can hold or
fail to end. Release flags are expanded for no more records than the segment has. -/
theorem control_files_safe [Hasher] :
    (∀ bytes : Bytes, bytes.length ≤ wordMax →
      guardedDecodeCheckpoint bytes = permit (Checkpoint.decode bytes)) ∧
    (∀ bytes : Bytes, guardedDecodeFrameHeader bytes = permit (ManifestFrameHeader.decode bytes)) ∧
    (∀ (header : ManifestFrameHeader) (body : Bytes), body.length ≤ wordMax →
      guardedDecodeFrame header body = permit (ManifestFrame.decode header body)) ∧
    (∀ (rootId : RootId) (lastAppliedSeq : Nat) (bytes : Bytes),
      guardedScanLogHeader rootId lastAppliedSeq bytes =
        permit (scanLogHeader rootId lastAppliedSeq bytes)) ∧
    (∀ (log : Bytes) (lastAppliedSeq offset physicalSeq : Nat) (walk : LogWalk), log.length ≤ wordMax →
      guardedScanFrames log lastAppliedSeq log.length offset physicalSeq walk =
        permit (scanFrames log lastAppliedSeq log.length offset physicalSeq walk)) ∧
    ∀ (controlSegment : Option ControlSegment) (segment : Segment),
      guardedApplyBaseline controlSegment segment = permit (applyBaseline controlSegment segment) :=
  ⟨fun _ fits => guardedDecodeCheckpoint_safe fits, guardedDecodeFrameHeader_safe,
    fun header _ fits => guardedDecodeFrame_safe header fits, guardedScanLogHeader_safe,
    fun _ lastAppliedSeq offset physicalSeq walk fits =>
      guardedScanFrames_safe fits lastAppliedSeq _ offset physicalSeq walk (Nat.sub_le _ _),
    guardedApplyBaseline_safe⟩

/-- A release that claims more ranges than a word can measure, and none of them follows. -/
theorem control_files_safe_sample :
    let body := word 1 ++ (word 1 ++ word wordMax)
    @guardedDecodeFrame Hasher.fnv ⟨1, releaseKind, 24, @checksum Hasher.fnv body⟩ body =
      .error (.inr "Release body length overflows u64") := by
  intro body
  rw [(@control_files_safe Hasher.fnv).2.2.1 _ _ (by decide)]
  have refused : @ManifestFrame.decode Hasher.fnv ⟨1, releaseKind, 24, @checksum Hasher.fnv body⟩ body =
      .error "Release body length overflows u64" := by decide +kernel
  rw [refused]
  rfl

end Camus
