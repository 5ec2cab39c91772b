/-
**Which segment files opening a root cuts.**

The scan of a segment cuts an incomplete tail behind its complete epochs, unless the control state
holds the segment as sealed. `Storage.open` scans the segments one after another and decides only
afterwards which one is active, so that a segment below the greatest one may be cut before the root
is rejected.

* `TailCut`, `Accepted` — a file with a tail to cut and a file that passes its scan, over the bytes;
  `cutOf_eq_some`, `passes_iff` — the scan finds them.
* `repairs` — the cuts the scans of a list of segments make, up to the first segment that is rejected;
  `meets_scanSegments`.
* `open_repairs_iff` — an opening cuts only the greatest segment exactly when no other segment that is
  scanned has a tail to cut; `onlyGreatestTorn_of_sealed`.
-/

import Camus.Storage.ReplayRules

set_option linter.unusedSectionVars false

namespace Camus

open Codec Checked Disk FaultIo Result Std

variable {path : Artifact} {content : Bytes} {segmentIds : List Nat}
  {expected : Option ControlSegment} {segment : Segment}

section

variable [Hasher]

/-! ### The scan of one segment -/

/-- What the walk over the bytes of a segment file finds. -/
def walkSegment (rootId : RootId) (control : Control) (segmentId : Nat) (content : Bytes) :
    Option Scanned :=
  let path : Artifact := .segment (.log segmentId)
  let expected := control.liveSegments[segmentId]?
  if segmentHeaderLen ≤ content.length &&
      (scanHeader path rootId segmentId (slice content 0 segmentHeaderLen)).toOption.isSome then
    (scanEpochs path content (expected.all fun entry => entry.lifecycle.isActive)
      (expected.bind (·.checkpointRecordCount)) content.length segmentHeaderLen [] []).toOption
  else none

/-- Where the scan of a segment cuts its file. -/
def cutOf (rootId : RootId) (control : Control) (segmentId : Nat) (content : Bytes) : Option Nat :=
  (walkSegment rootId control segmentId content).bind (·.repair)

/-- The footer of a scanned segment is the one the control state has. -/
def footerAgrees (expected : Option ControlSegment) (footer : Option SegmentFooter) : Bool :=
  match expected.map ControlSegment.lifecycle, footer with
  | some (.sealed authoritative), some found => authoritative = found
  | some (.sealed _), none => false
  | _, _ => true

/-- The scan of a segment file passes every check. -/
def passes (rootId : RootId) (control : Control) (segmentId : Nat) (content : Bytes) : Bool :=
  (walkSegment rootId control segmentId content).any fun scanned =>
    (validateScanned (.segment (.log segmentId)) segmentId (scanned.repair.getD content.length)
      (slice content 0 segmentHeaderLen) scanned).toOption.isSome &&
    (toWord scanned.records.length).isSome &&
    footerAgrees control.liveSegments[segmentId]? scanned.footer

/-- **A file with a tail to cut**: it starts with the header of the segment and some complete epochs,
with one of which the records of the checkpoint end; the control state does not hold the segment as
sealed; and what follows the epochs is incomplete. -/
structure TailCut (rootId : RootId) (control : Control) (segmentId : Nat) (content : Bytes)
    (texts : List EpochText) (length : Nat) : Prop where
  header : ∃ header, SegmentHeader.decode (slice content 0 segmentHeaderLen) = .ok header ∧
    header.rootId = rootId ∧ header.segmentId = segmentId
  unsealed : ∀ entry, control.liveSegments[segmentId]? = some entry → entry.lifecycle.isActive = true
  nonempty : texts ≠ []
  epochs : EpochsAt content segmentHeaderLen texts length
  baseline : ∀ entry count, control.liveSegments[segmentId]? = some entry →
    entry.checkpointRecordCount = some count →
      ∃ boundary ∈ textBoundaries content 0 segmentHeaderLen texts, boundary.recordCount = count
  incomplete : IncompleteAt (.segment (.log segmentId)) content length

/-- **A file that passes its scan**: it is a segment whose footer is the one the control state has, or
it is one up to a tail that is cut. -/
def Accepted (rootId : RootId) (control : Control) (segmentId : Nat) (content : Bytes) : Prop :=
  (∃ text : SegmentText, text.Describes rootId segmentId content ∧
    footerAgrees control.liveSegments[segmentId]? text.footer = true) ∨
  ∃ texts length, TailCut rootId control segmentId content texts length ∧
    Contiguous (textRecords segmentHeaderLen texts)

section Walk

variable {rootId : RootId} {control : Control} {segmentId : Nat}

theorem walkSegment_eq_some {scanned : Scanned} (fits : content.length ≤ wordMax) :
    walkSegment rootId control segmentId content = some scanned ↔
      (∃ header, SegmentHeader.decode (slice content 0 segmentHeaderLen) = .ok header ∧
        header.rootId = rootId ∧ header.segmentId = segmentId) ∧
      ∃ texts finish, EpochsAt content segmentHeaderLen texts finish ∧
        EndsAt (.segment (.log segmentId)) content
          (control.liveSegments[segmentId]?.all fun entry => entry.lifecycle.isActive)
          (control.liveSegments[segmentId]?.bind (·.checkpointRecordCount)) finish scanned ∧
        scanned.records = textRecords segmentHeaderLen texts ∧
        scanned.epochs = textBoundaries content 0 segmentHeaderLen texts := by
  simp only [walkSegment, Option.ite_none_right_eq_some, Bool.and_eq_true, decide_eq_true_eq,
    Option.isSome_iff_exists, toOption_eq_some, scanHeader_iff]
  constructor
  · rintro ⟨⟨long, header⟩, walked⟩
    exact ⟨header, (scanEpochs_whole_iff fits long).mp walked⟩
  · rintro ⟨⟨header, decoded, named⟩, walked⟩
    have long := segmentHeader_length decoded
    exact ⟨⟨long, header, decoded, named⟩, (scanEpochs_whole_iff fits long).mpr walked⟩

/-- When a tail may be cut. -/
theorem tailRepairAllowed_iff {texts : List EpochText} :
    tailRepairAllowed (control.liveSegments[segmentId]?.all fun entry => entry.lifecycle.isActive)
        (control.liveSegments[segmentId]?.bind (·.checkpointRecordCount))
        (textBoundaries content 0 segmentHeaderLen texts) = true ↔
      (∀ entry, control.liveSegments[segmentId]? = some entry → entry.lifecycle.isActive = true) ∧
        texts ≠ [] ∧ ∀ entry count, control.liveSegments[segmentId]? = some entry →
          entry.checkpointRecordCount = some count →
            ∃ boundary ∈ textBoundaries content 0 segmentHeaderLen texts,
              boundary.recordCount = count := by
  have empty : (textBoundaries content 0 segmentHeaderLen texts).isEmpty = true ↔ texts = [] := by
    rw [List.isEmpty_iff_length_eq_zero, textBoundaries_length, List.length_eq_zero_iff]
  simp only [tailRepairAllowed, Bool.and_eq_true, Option.all_eq_true, Bool.not_eq_true',
    Bool.eq_false_iff, ne_eq, empty, List.any_eq_true, decide_eq_true_eq, Option.bind_eq_some_iff,
    and_assoc]
  refine and_congr_right fun _ => and_congr_right fun _ => ⟨fun all entry count isEntry isCount =>
    all count ⟨entry, isEntry, isCount⟩, fun all count => ?_⟩
  rintro ⟨entry, isEntry, isCount⟩
  exact all entry count isEntry isCount

/-- **The scan cuts exactly a tail to cut.** -/
theorem cutOf_eq_some {length : Nat} (fits : content.length ≤ wordMax) :
    cutOf rootId control segmentId content = some length ↔
      ∃ texts, TailCut rootId control segmentId content texts length := by
  simp only [cutOf, Option.bind_eq_some_iff, walkSegment_eq_some fits]
  constructor
  · rintro ⟨scanned, ⟨header, texts, finish, follow, ends, -, isEpochs⟩, isRepair⟩
    simp only [EndsAt, isRepair, isEpochs, tailRepairAllowed_iff] at ends
    obtain ⟨-, rfl, incomplete, unsealed, nonempty, baseline⟩ := ends
    exact ⟨texts, header, unsealed, nonempty, follow, baseline, incomplete⟩
  · rintro ⟨texts, torn⟩
    refine ⟨⟨_, _, none, some length⟩, ⟨torn.header, texts, length, torn.epochs,
      ⟨rfl, rfl, torn.incomplete, ?_⟩, rfl, rfl⟩, rfl⟩
    exact tailRepairAllowed_iff.mpr ⟨torn.unsealed, torn.nonempty, torn.baseline⟩

/-- The complete epochs of a file are no longer than the file. -/
theorem EndsAt.le {allow : Bool} {baseline : Option Nat} {finish : Nat} {scanned : Scanned}
    (ends : EndsAt path content allow baseline finish scanned) : finish ≤ content.length := by
  unfold EndsAt at ends
  split at ends
  · exact ends.le
  · exact Nat.le_of_lt ends.2.2.1.1

/-- What the checks after the walk over the file come to. -/
theorem validated_iff {scanned : Scanned} {texts : List EpochText} {finish : Nat}
    (fits : content.length ≤ wordMax) (follow : EpochsAt content segmentHeaderLen texts finish)
    (inside : finish ≤ content.length) (isRecords : scanned.records = textRecords segmentHeaderLen texts)
    (isEpochs : scanned.epochs = textBoundaries content 0 segmentHeaderLen texts) :
    (validateScanned (.segment (.log segmentId)) segmentId (scanned.repair.getD content.length)
        (slice content 0 segmentHeaderLen) scanned).toOption.isSome = true ∧
      (toWord scanned.records.length).isSome = true ↔
    texts ≠ [] ∧ Contiguous (textRecords segmentHeaderLen texts) ∧
      ∀ footer, scanned.footer = some footer → footer.Matches segmentId
        (scanned.repair.getD content.length) (slice content 0 segmentHeaderLen)
        (textBoundaries content 0 segmentHeaderLen texts) := by
  have counted := textBoundaries_length content 0 segmentHeaderLen texts
  obtain ⟨epochs, records⟩ := follow.le
  have few : (toWord scanned.records.length).isSome = true :=
    Option.isSome_iff_exists.mpr ⟨_, toWord_eq_some.mpr ⟨rfl, by rw [isRecords]; omega⟩⟩
  have empty : textBoundaries content 0 segmentHeaderLen texts = [] ↔ texts = [] := by
    rw [← List.length_eq_zero_iff, counted, List.length_eq_zero_iff]
  have valid := fun streams => @validateScanned_iff (slice content 0 segmentHeaderLen) segmentId
    (scanned.repair.getD content.length) scanned _ (.segment (.log segmentId)) streams
    (by rw [isEpochs, counted]; omega) (by rw [isRecords]; exact follow.sequence_le)
  rw [and_iff_left few]
  simp only [Option.isSome_iff_exists, toOption_eq_some, valid, isRecords, isEpochs, ne_eq, empty,
    exists_and_left, exists_eq, and_true]

/-- **The scan passes exactly the accepted files.** -/
theorem passes_iff (fits : content.length ≤ wordMax) :
    passes rootId control segmentId content = true ↔ Accepted rootId control segmentId content := by
  simp only [passes, Option.any_eq_true, walkSegment_eq_some fits, Bool.and_eq_true]
  constructor
  · rintro ⟨scanned, ⟨⟨header, decoded, root, named⟩, texts, finish, follow, ends, isRecords, isEpochs⟩,
      checked, agrees⟩
    obtain ⟨nonempty, contiguous, footers⟩ :=
      (validated_iff fits follow ends.le isRecords isEpochs).mp checked
    cases isRepair : scanned.repair with
    | none =>
      simp only [EndsAt, isRepair] at ends
      rw [isRepair] at footers
      exact .inl ⟨⟨header, texts, scanned.footer⟩, ⟨decoded, root, named, nonempty,
        ⟨finish, follow, ends⟩, contiguous, footers⟩, agrees⟩
    | some length =>
      simp only [EndsAt, isRepair, isEpochs, tailRepairAllowed_iff] at ends
      obtain ⟨-, rfl, incomplete, unsealed, -, baseline⟩ := ends
      exact .inr ⟨texts, finish, ⟨⟨header, decoded, root, named⟩, unsealed, nonempty, follow, baseline,
        incomplete⟩, contiguous⟩
  · rintro (⟨text, describes, agrees⟩ | ⟨texts, length, torn, contiguous⟩)
    · obtain ⟨finish, follow, ends⟩ := describes.epochs
      refine ⟨⟨_, _, text.footer, none⟩, ⟨⟨_, describes.header, describes.root, describes.named⟩,
        text.epochs, finish, follow, ends, rfl, rfl⟩, (validated_iff fits follow ends.le rfl rfl).mpr
          ⟨describes.nonempty, describes.contiguous, describes.footer⟩, agrees⟩
    · have allowed := tailRepairAllowed_iff.mpr ⟨torn.unsealed, torn.nonempty, torn.baseline⟩
      refine ⟨⟨_, _, none, some length⟩, ⟨torn.header, texts, length, torn.epochs,
        ⟨rfl, rfl, torn.incomplete, allowed⟩, rfl, rfl⟩, (validated_iff fits torn.epochs
          (Nat.le_of_lt torn.incomplete.1) rfl rfl).mpr ⟨torn.nonempty, contiguous, nofun⟩, ?_⟩
      cases isEntry : control.liveSegments[segmentId]? with
      | none => rfl
      | some entry =>
        have active := torn.unsealed entry isEntry
        cases isLifecycle : entry.lifecycle with
        | active => simp [footerAgrees, isLifecycle]
        | sealed footer =>
          rw [isLifecycle] at active
          cases active

end Walk

/-- The state after a cut, if there is one. -/
def Fs.cutTail (file : Nat) (cut : Option Nat) (fs : Fs) : Fs :=
  (cut.map fun length => fs.cut file length).getD fs

/-- A state during a cut: the file is cut, made durable or not, or not yet. -/
def Fs.Cutting (fs : Fs) (file : Nat) (cut : Option Nat) (now : Fs) : Prop :=
  now = fs ∨ ∃ length, cut = some length ∧
    (now = fs.modifyNode file (FileNode.truncate length) ∨ now = fs.cut file length)

theorem Fs.cutting_cutTail (fs : Fs) (file : Nat) (cut : Option Nat) :
    fs.Cutting file cut (fs.cutTail file cut) := by
  cases cut with
  | none => exact .inl rfl
  | some length => exact .inr ⟨length, rfl, .inr rfl⟩

/-- What the scan of a segment leaves: the file is cut as its bytes ask for, or not yet. -/
def scanPost (fs : Fs) (file : Nat) (cut : Option Nat) (isPassed : Bool) :
    Post Fs Error ScannedSegments where
  returns _ now := isPassed = true ∧ now = fs.cutTail file cut
  refuses _ now := isPassed = false ∧ now = fs.cutTail file cut
  fails _ now := fs.Cutting file cut now
  stops now := fs.Cutting file cut now

theorem meets_repairTail {fs : Fs} {file : Nat} {cut : Option Nat} {isPassed : Bool} :
    Meets (repairTail file path cut) fs
      ((scanPost fs file cut isPassed).first fun _ now => now = fs.cutTail file cut) := by
  cases cut with
  | none => exact meets_result rfl
  | some length =>
    refine meets_bind (meets_step ?_ (fun _ => .inl rfl) fun _ => .inl rfl)
    exact meets_step rfl (fun _ => .inr ⟨length, rfl, .inl rfl⟩) fun _ => .inr ⟨length, rfl, .inl rfl⟩

section One

variable {fs : Fs} {rootId : RootId} {control : Control} {segmentId file : Nat}
  {found : ScannedSegments}

theorem classifySegment_isOk :
    (∃ next, classifySegment expected segment found = .ok next) ↔
      footerAgrees expected segment.footer = true := by
  unfold classifySegment footerAgrees
  generalize expected.map ControlSegment.lifecycle = lifecycle
  match lifecycle, segment.footer with
  | some (.sealed authoritative), some footer => simp [ensure_eq_ok]
  | some (.sealed _), none => simp
  | some .active, some footer => simp
  | some .active, none => simp
  | none, some footer => simp
  | none, none => simp

theorem footerAgrees_of_error {reason : Error}
    (refused : classifySegment expected segment found = .error reason) :
    footerAgrees expected segment.footer = false := by
  refine Bool.eq_false_iff.mpr fun agrees => ?_
  obtain ⟨next, isNext⟩ := classifySegment_isOk.mpr agrees
  rw [isNext] at refused
  cases refused

/-- **The scan of one segment** cuts the file where `cutOf` says and passes when `passes` does. -/
theorem meets_scanSegment
    (isFile : segmentsDirectory.lookup (.log segmentId) fs = some file) :
    Meets (scanSegment rootId control found segmentId) fs
      (scanPost fs file (cutOf rootId control segmentId (fs.content file))
        (passes rootId control segmentId (fs.content file))) := by
  have early : walkSegment rootId control segmentId (fs.content file) = none →
      passes rootId control segmentId (fs.content file) = false ∧
        fs = fs.cutTail file (cutOf rootId control segmentId (fs.content file)) := by
    intro none
    unfold cutOf passes
    rw [none]
    exact ⟨rfl, rfl⟩
  unfold scanSegment Segment.scan
  simp only [bind_regroup]
  refine meets_bind (meets_read (meets_bind (meets_ofOption ?_ fun missing => ?_)))
  swap
  · rw [isFile] at missing
    cases missing
  intro file' isFile'
  obtain rfl : file = file' := Option.some.inj (isFile.symm.trans isFile')
  refine meets_bind (meets_observe ?_ (.inl rfl) (.inl rfl))
  refine meets_bind (meets_observe ?_ (.inl rfl) (.inl rfl))
  refine meets_bind (meets_require (fun long => ?_) fun short => ?_)
  swap
  · refine early ?_
    unfold walkSegment
    rw [if_neg (by rw [short]; simp)]
  refine meets_bind (meets_observe ?_ (.inl rfl) (.inl rfl))
  refine meets_bind (meets_ofExcept (fun header isHeader => ?_) fun reason refused => early ?_)
  swap
  · unfold walkSegment
    rw [if_neg (by rw [refused]; simp [Except.toOption])]
  have accepted : (decide (segmentHeaderLen ≤ (fs.content file).length) &&
      (scanHeader (.segment (.log segmentId)) rootId segmentId
        (slice (fs.content file) 0 segmentHeaderLen)).toOption.isSome) = true := by
    rw [isHeader, long]
    rfl
  refine meets_bind (meets_ofExcept (fun scanned isScanned => ?_) fun reason refused => early ?_)
  swap
  · unfold walkSegment
    rw [if_pos accepted, refused]
    rfl
  have walked : walkSegment rootId control segmentId (fs.content file) = some scanned := by
    unfold walkSegment
    rw [if_pos accepted, isScanned]
    rfl
  unfold cutOf passes
  rw [walked, Option.bind_some, Option.any_some]
  refine meets_bind (meets_repairTail.mono (fun _ now after => ?_) (fun _ _ held => held)
    (fun _ _ held => held) fun _ held => held)
  obtain rfl : now = fs.cutTail file scanned.repair := after
  refine meets_bind (meets_ofExcept (fun streams isValid => ?_) fun reason refused => ?_)
  swap
  · exact ⟨by rw [refused]; simp [Except.toOption], rfl⟩
  refine meets_bind (meets_observe ?_ (fs.cutting_cutTail file _) (fs.cutting_cutTail file _))
  refine meets_bind (meets_ofOption (fun count isCount => ?_) fun refused => ?_)
  swap
  · exact ⟨by rw [refused]; simp, rfl⟩
  refine meets_bind (meets_pure (meets_ofExcept (fun next isNext => ?_) fun reason refused => ?_))
  · have agrees := classifySegment_isOk.mp ⟨next, isNext⟩
    exact ⟨by rw [isValid, isCount]; simpa [Except.toOption] using agrees, rfl⟩
  · have disagrees : footerAgrees control.liveSegments[segmentId]? scanned.footer = false :=
      footerAgrees_of_error refused
    exact ⟨by rw [disagrees, Bool.and_false], rfl⟩

end One

/-! ### The scans of all segments -/

/-- **The cuts that the scans of some segments make**: each with its segment, up to the first segment
that is missing or rejected. -/
def repairs (rootId : RootId) (control : Control) (fs : Fs) : List Nat → List (Nat × Nat)
  | [] => []
  | segmentId :: rest =>
    match segmentsDirectory.lookup (.log segmentId) fs with
    | none => []
    | some file =>
      ((cutOf rootId control segmentId (fs.content file)).map (segmentId, ·)).toList ++
        if passes rootId control segmentId (fs.content file) then repairs rootId control fs rest
        else []

/-- A segment is cut if its file has a tail to cut and all segments before it pass. -/
theorem mem_repairs {rootId : RootId} {control : Control} {fs : Fs} {segmentId length : Nat}
    (ascending : segmentIds.Pairwise (· < ·))
    (files : ∀ other ∈ segmentIds, ∃ file, segmentsDirectory.lookup (.log other) fs = some file) :
    (segmentId, length) ∈ repairs rootId control fs segmentIds ↔
      segmentId ∈ segmentIds ∧ ∃ file, segmentsDirectory.lookup (.log segmentId) fs = some file ∧
        cutOf rootId control segmentId (fs.content file) = some length ∧
        ∀ lower ∈ segmentIds, lower < segmentId → ∀ lowerFile,
          segmentsDirectory.lookup (.log lower) fs = some lowerFile →
            passes rootId control lower (fs.content lowerFile) = true := by
  induction segmentIds with
  | nil => simp [repairs]
  | cons first rest ih =>
    obtain ⟨before, ascending⟩ := List.pairwise_cons.mp ascending
    obtain ⟨here, files⟩ := List.forall_mem_cons.mp files
    obtain ⟨file, isFile⟩ := here
    simp only [repairs, isFile, List.mem_append, Option.mem_toList, Option.map_eq_some_iff,
      Prod.mk.injEq, List.mem_ite_nil_right, ih ascending files, List.mem_cons, forall_eq_or_imp]
    constructor
    · rintro (⟨_, isCut, rfl, rfl⟩ | ⟨isPassed, member, other, isOther, isCut, passed⟩)
      · refine ⟨.inl rfl, file, isFile, isCut, fun below => absurd below (Nat.lt_irrefl _),
          fun lower member below => ?_⟩
        exact absurd below (Nat.not_lt.mpr (Nat.le_of_lt (before lower member)))
      · refine ⟨.inr member, other, isOther, isCut, fun _ lowerFile isLower => ?_, passed⟩
        cases isLower
        exact isPassed
    · rintro ⟨rfl | member, other, isOther, isCut, isPassed, passed⟩
      · cases isFile.symm.trans isOther
        exact .inl ⟨length, isCut, rfl, rfl⟩
      · exact .inr ⟨isPassed (before segmentId member) file rfl, member, other, isOther, isCut, passed⟩

/-- Some segment files of a state are cut in another one, and nothing else is changed. -/
structure Fs.CutBy (fs : Fs) (cuts : List (Nat × Nat)) (now : Fs) : Prop where
  root : now.root = fs.root
  segments : now.segments = fs.segments
  nodes : now.nodes.length = fs.nodes.length
  shortened : ∀ segmentId length file, (segmentId, length) ∈ cuts →
    segmentsDirectory.lookup (.log segmentId) fs = some file →
    now.content file = (fs.content file).take length
  other : ∀ file, (∀ segmentId length, (segmentId, length) ∈ cuts →
    segmentsDirectory.lookup (.log segmentId) fs ≠ some file) → now.content file = fs.content file

/-- The segment files of a state are different files. -/
def Fs.DistinctSegments (fs : Fs) : Prop :=
  ∀ first second file, segmentsDirectory.lookup (.log first) fs = some file →
    segmentsDirectory.lookup (.log second) fs = some file → first = second

theorem Fs.content_truncate (file length : Nat) (fs : Fs) :
    (fs.modifyNode file (FileNode.truncate length)).content file = (fs.content file).take length := by
  unfold Fs.content Fs.modifyNode
  simp only [List.getElem?_modify_eq]
  cases fs.nodes[file]? <;> simp

namespace Fs.CutBy

variable {fs now next : Fs} {cuts : List (Nat × Nat)} {segmentId length file : Nat}

theorem refl (fs : Fs) : fs.CutBy [] fs where
  root := rfl
  segments := rfl
  nodes := rfl
  shortened _ _ _ member := by cases member
  other _ _ := rfl

theorem lookup (cut : fs.CutBy cuts now) (name : SegmentName) :
    segmentsDirectory.lookup name now = segmentsDirectory.lookup name fs := by
  show now.segments.entries[name]? = fs.segments.entries[name]?
  rw [cut.segments]

theorem regroup {more last : List (Nat × Nat)} (cut : fs.CutBy (cuts ++ more ++ last) now) :
    fs.CutBy (cuts ++ (more ++ last)) now := by
  rwa [← List.append_assoc]

variable (cut : fs.CutBy cuts now) (distinct : fs.DistinctSegments)
  (isFile : segmentsDirectory.lookup (.log segmentId) fs = some file)
  (new : ∀ earlier, (segmentId, earlier) ∉ cuts)

include cut distinct isFile new

/-- One more file is cut. -/
theorem concat (root : next.root = now.root) (segments : next.segments = now.segments)
    (nodes : next.nodes.length = now.nodes.length)
    (content : next.content file = (now.content file).take length)
    (others : ∀ inode, inode ≠ file → next.content inode = now.content inode) :
    fs.CutBy (cuts ++ [(segmentId, length)]) next where
  root := root.trans cut.root
  segments := segments.trans cut.segments
  nodes := nodes.trans cut.nodes
  shortened other shorter inode member isOther := by
    rcases List.mem_append.mp member with earlier | last
    · have different : inode ≠ file := by
        rintro rfl
        obtain rfl := distinct other segmentId inode isOther isFile
        exact new shorter earlier
      rw [others inode different]
      exact cut.shortened other shorter inode earlier isOther
    · obtain ⟨rfl, rfl⟩ := Prod.mk.inj (List.mem_singleton.mp last)
      obtain rfl : file = inode := Option.some.inj (isFile.symm.trans isOther)
      rw [content, cut.other file]
      rintro earlierId earlierLength earlier isEarlier
      obtain rfl := distinct earlierId other file isEarlier isFile
      exact new earlierLength earlier
  other inode spare := by
    have different : inode ≠ file := by
      rintro rfl
      exact spare segmentId length (List.mem_append_right _ (List.mem_singleton.mpr rfl)) isFile
    rw [others inode different]
    exact cut.other inode fun earlierId earlierLength member =>
      spare earlierId earlierLength (List.mem_append_left _ member)

/-- A segment that no cut names has its bytes. -/
theorem content_of_new : now.content file = fs.content file := by
  refine cut.other file fun earlierId earlierLength member isEarlier => ?_
  obtain rfl := distinct earlierId segmentId file isEarlier isFile
  exact new earlierLength member

/-- A file cut as asked for. -/
theorem cutTail (asked : Option Nat) :
    fs.CutBy (cuts ++ (asked.map (segmentId, ·)).toList) (now.cutTail file asked) := by
  cases asked with
  | none => simpa [Fs.cutTail] using cut
  | some length =>
    refine cut.concat distinct isFile new rfl rfl ?_ (Fs.content_cut file length now)
      fun inode different => ?_
    · simp [Fs.cutTail, Fs.cut, Fs.modifyNode]
    · show (now.cut file length).content inode = _
      rw [Fs.cut, Fs.modifyNode_content_other different, Fs.modifyNode_content_other different]

/-- A file that is about to be cut. -/
theorem cutting {asked : Option Nat} (between : now.Cutting file asked next) :
    ∃ part, part <+: (asked.map (segmentId, ·)).toList ∧ fs.CutBy (cuts ++ part) next := by
  rcases between with rfl | ⟨length, rfl, rfl | rfl⟩
  · exact ⟨[], List.nil_prefix, by rwa [List.append_nil]⟩
  · refine ⟨[(segmentId, length)], List.prefix_rfl, ?_⟩
    refine cut.concat distinct isFile new rfl rfl (by simp [Fs.modifyNode])
      (Fs.content_truncate file length now) fun inode different => ?_
    exact Fs.modifyNode_content_other different
  · exact ⟨_, List.prefix_rfl, cut.cutTail distinct isFile new (some length)⟩

end Fs.CutBy

/-- What the scans of some segments leave: the planned cuts are made, or the first ones of them. -/
def repairsPost (fs : Fs) (done planned : List (Nat × Nat)) : Post Fs Error ScannedSegments where
  returns _ now := fs.CutBy (done ++ planned) now
  refuses _ now := fs.CutBy (done ++ planned) now
  fails _ now := ∃ part, part <+: planned ∧ fs.CutBy (done ++ part) now
  stops now := ∃ part, part <+: planned ∧ fs.CutBy (done ++ part) now

/-- **The scans make exactly the cuts of `repairs`**, in their order. -/
theorem meets_scanSegments {fs now : Fs} {rootId : RootId} {control : Control}
    {segmentIds : List Nat} {done : List (Nat × Nat)} {found : ScannedSegments}
    (distinct : fs.DistinctSegments) (once : segmentIds.Nodup)
    (new : ∀ segmentId ∈ segmentIds, ∀ length, (segmentId, length) ∉ done)
    (cut : fs.CutBy done now) :
    Meets (scanSegments rootId control found segmentIds) now
      (repairsPost fs done (repairs rootId control fs segmentIds)) := by
  induction segmentIds generalizing now done found with
  | nil =>
    refine meets_result ?_
    show fs.CutBy (done ++ []) now
    rwa [List.append_nil]
  | cons segmentId rest ih =>
    obtain ⟨notLater, onceRest⟩ := List.nodup_cons.mp once
    have isNew := new segmentId List.mem_cons_self
    have sameNames := cut.lookup (.log segmentId)
    unfold repairs
    cases isFile : segmentsDirectory.lookup (.log segmentId) fs with
    | none =>
      have unchanged : fs.CutBy (done ++ []) now := by rwa [List.append_nil]
      refine meets_bind ?_
      unfold scanSegment Segment.scan
      simp only [bind_regroup]
      refine meets_bind (meets_read (meets_bind (meets_ofOption (fun file isOther => ?_) fun _ => ?_)))
      · rw [sameNames, isFile] at isOther
        cases isOther
      · exact unchanged
    | some file =>
      have sameContent := cut.content_of_new distinct isFile isNew
      have scanned := @meets_scanSegment _ now rootId control segmentId file found
        (sameNames.trans isFile)
      rw [sameContent] at scanned
      refine meets_bind (scanned.mono (fun value next held => ?_) (fun reason next held => ?_)
        (fun reason next held => ?_) fun next held => ?_)
      · obtain ⟨isPassed, rfl⟩ := held
        simp only [isPassed, if_true]
        have later := @ih (now.cutTail file (cutOf rootId control segmentId (fs.content file)))
          (done ++ ((cutOf rootId control segmentId (fs.content file)).map (segmentId, ·)).toList)
          value onceRest (by
            intro other member length isDone
            rcases List.mem_append.mp isDone with earlier | here
            · exact new other (List.mem_cons_of_mem _ member) length earlier
            · simp only [Option.mem_toList, Option.map_eq_some_iff, Prod.mk.injEq] at here
              obtain ⟨_, -, rfl, -⟩ := here
              exact notLater member)
          (cut.cutTail distinct isFile isNew _)
        refine later.mono (fun _ final ends => ?_) (fun _ final ends => ?_)
          (fun _ final ends => ?_) fun final ends => ?_
        · exact Fs.CutBy.regroup ends
        · exact Fs.CutBy.regroup ends
        · obtain ⟨part, isPart, ends⟩ := ends
          exact ⟨_, (List.prefix_append_right_inj _).mpr isPart, ends.regroup⟩
        · obtain ⟨part, isPart, ends⟩ := ends
          exact ⟨_, (List.prefix_append_right_inj _).mpr isPart, ends.regroup⟩
      · obtain ⟨isRejected, rfl⟩ := held
        simp only [isRejected, Bool.false_eq_true, if_false, List.append_nil]
        exact cut.cutTail distinct isFile isNew _
      · obtain ⟨part, isPart, ends⟩ := cut.cutting distinct isFile isNew held
        exact ⟨part, isPart.trans (List.prefix_append _ _), ends⟩
      · obtain ⟨part, isPart, ends⟩ := cut.cutting distinct isFile isNew held
        exact ⟨part, isPart.trans (List.prefix_append _ _), ends⟩

theorem repairs_congr {rootId : RootId} {control : Control} {fs other : Fs}
    (same : ∀ segmentId ∈ segmentIds, ∃ file,
      segmentsDirectory.lookup (.log segmentId) other = some file ∧
      segmentsDirectory.lookup (.log segmentId) fs = some file ∧ other.content file = fs.content file)
    : repairs rootId control other segmentIds = repairs rootId control fs segmentIds := by
  induction segmentIds with
  | nil => rfl
  | cons segmentId rest ih =>
    obtain ⟨file, isOther, isFile, content⟩ := same segmentId List.mem_cons_self
    unfold repairs
    rw [isOther, isFile, ih fun later member => same later (List.mem_cons_of_mem _ member)]
    simp only [content]

/-! ### An opening -/

/-- **A directory as a filesystem has it**: its files exist, every file has one name, and their lengths
are words. -/
structure Fs.Physical (fs : Fs) : Prop where
  exist : ∀ segmentId file, segmentsDirectory.lookup (.log segmentId) fs = some file →
    file < fs.nodes.length
  apart : ∀ segmentId file name, segmentsDirectory.lookup (.log segmentId) fs = some file →
    rootDirectory.lookup name fs = some file → name = .segments
  linked : ∀ segmentId file, segmentsDirectory.lookup (.log segmentId) fs = some file →
    rootDirectory.holds .segments fs = true
  distinct : fs.DistinctSegments
  fits : ∀ segmentId file, segmentsDirectory.lookup (.log segmentId) fs = some file →
    (fs.content file).length ≤ wordMax

theorem Fs.Physical.shelters {fs : Fs} (physical : fs.Physical) :
    Fs.Shelters (fun _ => True) fs fs fs where
  exist := physical.exist
  content _ _ _ := rfl
  apart := physical.apart
  linked := physical.linked
  fewer _ _ found := found
  listed _ _ _ found := found

/-- A segment is in the directory, and the control state does not hold it as removed. -/
def Extant (fs : Fs) (control : Control) (segmentId : Nat) : Prop :=
  (∃ file, segmentsDirectory.lookup (.log segmentId) fs = some file) ∧
    control.removedSegments.contains segmentId = false

section Opening

variable (fs : Fs)

/-- The control state holds a segment as removed. -/
def RemovedSegment (segmentId : Nat) : Prop :=
  ∃ rootId control, fs.controlState = some (rootId, control) ∧
    control.removedSegments.contains segmentId = true

/-- A file is cut as the repair of the greatest segment. -/
def RepairedSegment (segmentId : Nat) (content shortened : Bytes) : Prop :=
  ∃ rootId control texts length, fs.controlState = some (rootId, control) ∧
    Extant fs control segmentId ∧ (∀ other, Extant fs control other → other ≤ segmentId) ∧
    TailCut rootId control segmentId content texts length ∧ shortened = content.take length

/-- **Only the greatest segment is cut**: every segment file keeps its name unless it is removed, and
its bytes unless it is the greatest one and its tail is repaired. -/
def CutsGreatestOnly (final : Fs) : Prop :=
  ∀ segmentId file, segmentsDirectory.lookup (.log segmentId) fs = some file →
    (segmentsDirectory.lookup (.log segmentId) final = some file ∨ RemovedSegment fs segmentId) ∧
    (final.content file = fs.content file ∨
      RepairedSegment fs segmentId (fs.content file) (final.content file))

/-- **Only the greatest segment has a tail to cut**, of the extant ones up to the first one that is
not accepted. -/
def OnlyGreatestTorn : Prop :=
  ∀ rootId control, fs.controlState = some (rootId, control) → ∀ segmentId file texts length,
    Extant fs control segmentId → segmentsDirectory.lookup (.log segmentId) fs = some file →
    TailCut rootId control segmentId (fs.content file) texts length →
    (∀ lower lowerFile, lower < segmentId → Extant fs control lower →
      segmentsDirectory.lookup (.log lower) fs = some lowerFile →
        Accepted rootId control lower (fs.content lowerFile)) →
    ∀ other, Extant fs control other → other ≤ segmentId

/-- An opening comes to its scans: it accepts the control files and the names of the segments. -/
def ComesToScans (config : Config) (entropy : RootId) (listing : Listing) : Prop :=
  ∃ opening middle found left, Completes (openControl config entropy) fs opening middle ∧
    Completes (enumerateSegments opening.rootId opening.recovery listing) middle found left

variable {fs}

/-- No other segment than the greatest one has a tail to cut if the control state holds all others as
sealed. -/
theorem onlyGreatestTorn_of_sealed (isSealed : ∀ rootId control,
      fs.controlState = some (rootId, control) → ∀ lower other, Extant fs control lower →
      Extant fs control other → lower < other → ∃ entry,
        control.liveSegments[lower]? = some entry ∧ entry.lifecycle.isActive = false) :
    OnlyGreatestTorn fs := by
  intro rootId control state segmentId file texts length extant isFile torn _ other isExtant
  by_contra above
  obtain ⟨entry, isEntry, inactive⟩ :=
    isSealed rootId control state segmentId other extant isExtant (Nat.lt_of_not_le above)
  rw [torn.unsealed entry isEntry] at inactive
  cases inactive

end Opening

section Main

variable {config : Config} {entropy : RootId} {listing : Listing} {fs middle left now : Fs}
  {opening : Opening} {found : Enumerated}

/-- The segments the control state does not hold as removed. -/
def Opening.Live (opening : Opening) (segmentId : Nat) : Prop :=
  opening.recovery.control.removedSegments.contains segmentId = false

theorem cutsGreatestOnly_of_shelters (shelters : Fs.Shelters (fun _ => True) fs fs now) :
    CutsGreatestOnly fs now :=
  fun segmentId file isFile => ⟨.inl (shelters.listed segmentId file trivial isFile),
    .inl (shelters.content segmentId file isFile)⟩

theorem Enumerated.nodup_segments (found : Enumerated) : found.segments.toList.Nodup :=
  ExtTreeSet.distinct_toList.imp fun different same => different (by simp [same])

section Enumerated

variable (physical : fs.Physical)
  (controlled : Completes (openControl config entropy) fs opening middle)
  (enumerated : Completes (enumerateSegments opening.rootId opening.recovery listing) middle found left)

include physical controlled

/-- The recovered control state is the one of the files. -/
theorem controlState_opening {segmentId file : Nat}
    (isFile : segmentsDirectory.lookup (.log segmentId) fs = some file) :
    fs.controlState = some (opening.rootId, opening.recovery.control) := by
  obtain ⟨held, logged⟩ := holds_openControl (physical.linked segmentId file isFile) isFile
    controlled.returns
  obtain ⟨checkpoint, frames, isRead, applied, named, -⟩ :=
    read_openControl held logged controlled.returns
  simp [Fs.controlState, isRead, applied, named]

/-- The names that are left while the segment directory is enumerated and later. -/
theorem named_of_listed {segmentId file : Nat}
    (isFile : segmentsDirectory.lookup (.log segmentId) fs = some file)
    (listed : opening.Live segmentId →
      segmentsDirectory.lookup (.log segmentId) now = some file) :
    segmentsDirectory.lookup (.log segmentId) now = some file ∨ RemovedSegment fs segmentId := by
  cases removed : opening.recovery.control.removedSegments.contains segmentId with
  | true => exact .inr ⟨_, _, controlState_opening physical controlled isFile, removed⟩
  | false => exact .inl (listed removed)

/-- What leaves the segment files alone keeps what is allowed. -/
theorem CutsGreatestOnly.sheltered {scanned : Fs} (held : CutsGreatestOnly fs scanned)
    (shelters : Fs.Shelters opening.Live fs scanned now) : CutsGreatestOnly fs now := by
  intro segmentId file isFile
  refine ⟨named_of_listed physical controlled isFile fun live =>
    shelters.listed segmentId file live isFile, ?_⟩
  rw [shelters.content segmentId file isFile]
  exact (held segmentId file isFile).2

theorem shelters_openControl : Fs.Shelters (fun _ => True) fs fs middle :=
  steady_openControl.returned physical.shelters controlled.returns

include enumerated

theorem shelters_enumerated : Fs.Shelters opening.Live fs fs left := by
  refine (steady_enumerateSegments ?_).returned
    ((shelters_openControl physical controlled).mono fun _ _ => trivial) enumerated.returns
  intro segmentId removed live
  rw [Opening.Live, removed] at live
  cases live

/-- The listed segments are the extant ones. -/
theorem mem_enumerated (segmentId : Nat) :
    segmentId ∈ found.segments ↔ Extant fs opening.recovery.control segmentId := by
  have shelters := shelters_openControl physical controlled
  rw [mem_enumerateSegments enumerated.returns, Extant]
  refine and_congr_left fun _ => exists_congr fun file => ?_
  exact ⟨shelters.fewer segmentId file, shelters.listed segmentId file trivial⟩

/-- The scans ask for a cut of a segment exactly if its file has a tail to cut and all extant segments
below it are accepted. -/
theorem mem_repairs_enumerated {segmentId length : Nat} :
    (segmentId, length) ∈ repairs opening.rootId opening.recovery.control fs found.segments.toList ↔
      ∃ file texts, Extant fs opening.recovery.control segmentId ∧
        segmentsDirectory.lookup (.log segmentId) fs = some file ∧
        TailCut opening.rootId opening.recovery.control segmentId (fs.content file) texts length ∧
        ∀ lower lowerFile, lower < segmentId → Extant fs opening.recovery.control lower →
          segmentsDirectory.lookup (.log lower) fs = some lowerFile →
            Accepted opening.rootId opening.recovery.control lower (fs.content lowerFile) := by
  have listed := mem_enumerated physical controlled enumerated
  rw [mem_repairs (ExtTreeSet.ordered_toList.imp Nat.compare_eq_lt.mp) fun other member =>
    ((listed other).mp (ExtTreeSet.mem_toList.mp member)).1]
  simp only [ExtTreeSet.mem_toList, listed]
  constructor
  · rintro ⟨extant, file, isFile, isCut, passed⟩
    obtain ⟨texts, torn⟩ := (cutOf_eq_some (physical.fits segmentId file isFile)).mp isCut
    refine ⟨file, texts, extant, isFile, torn, fun lower lowerFile below isExtant isLower => ?_⟩
    exact (passes_iff (physical.fits lower lowerFile isLower)).mp
      (passed lower isExtant below lowerFile isLower)
  · rintro ⟨file, texts, extant, isFile, torn, accepted⟩
    refine ⟨extant, file, isFile, (cutOf_eq_some (physical.fits segmentId file isFile)).mpr ⟨texts, torn⟩,
      fun lower isExtant below lowerFile isLower => ?_⟩
    exact (passes_iff (physical.fits lower lowerFile isLower)).mpr
      (accepted lower lowerFile below isExtant isLower)

theorem repairs_enumerated :
    repairs opening.rootId opening.recovery.control left found.segments.toList =
      repairs opening.rootId opening.recovery.control fs found.segments.toList := by
  have shelters := shelters_enumerated physical controlled enumerated
  refine repairs_congr fun segmentId member => ?_
  have extant := (mem_enumerated physical controlled enumerated segmentId).mp
    (ExtTreeSet.mem_toList.mp member)
  obtain ⟨⟨file, isFile⟩, live⟩ := extant
  exact ⟨file, shelters.listed segmentId file live isFile, isFile,
    shelters.content segmentId file isFile⟩

theorem distinct_enumerated : left.DistinctSegments := by
  have shelters := shelters_enumerated physical controlled enumerated
  intro first second file isFirst isSecond
  exact physical.distinct first second file (shelters.fewer first file isFirst)
    (shelters.fewer second file isSecond)

/-- What the scans leave is allowed if they cut only the greatest segment. -/
theorem cutsGreatestOnly_of_cutBy {part : List (Nat × Nat)}
    (onlyGreatest : OnlyGreatestTorn fs) (isPart : part <+:
      repairs opening.rootId opening.recovery.control left found.segments.toList)
    (cut : left.CutBy part now) : CutsGreatestOnly fs now := by
  have shelters := shelters_enumerated physical controlled enumerated
  intro segmentId file isFile
  refine ⟨named_of_listed physical controlled isFile fun live => ?_, ?_⟩
  · rw [cut.lookup]
    exact shelters.listed segmentId file live isFile
  by_cases isCut : ∃ other length, (other, length) ∈ part ∧
      segmentsDirectory.lookup (.log other) left = some file
  · obtain ⟨other, length, member, isOther⟩ := isCut
    obtain rfl := physical.distinct other segmentId file (shelters.fewer other file isOther) isFile
    have planned := isPart.subset member
    rw [repairs_enumerated physical controlled enumerated] at planned
    obtain ⟨_, texts, extant, isFile', torn, accepted⟩ :=
      (mem_repairs_enumerated physical controlled enumerated).mp planned
    cases isFile.symm.trans isFile'
    have state := controlState_opening physical controlled isFile
    refine .inr ⟨_, _, texts, length, state, extant, ?_, torn, ?_⟩
    · exact onlyGreatest _ _ state other file texts length extant isFile torn accepted
    · rw [cut.shortened other length file member isOther, shelters.content other file isFile]
  · refine .inl ((cut.other file fun other length member isOther => ?_).trans
      (shelters.content segmentId file isFile))
    exact isCut ⟨other, length, member, isOther⟩

/-- The scans make the cuts of `repairs`. -/
theorem meets_enumerated : Meets (scanSegments opening.rootId opening.recovery.control ⟨∅, [], []⟩
      found.segments.toList) left
    (repairsPost left [] (repairs opening.rootId opening.recovery.control left
      found.segments.toList)) :=
  meets_scanSegments (distinct_enumerated physical controlled enumerated) found.nodup_segments
    (by simp) (.refl left)

end Enumerated

/-- The scans leave the segment files apart from the others. -/
theorem Fs.CutBy.shelters {kept : Nat → Prop} {reference : Fs} {cuts : List (Nat × Nat)}
    (cut : left.CutBy cuts now) (shelters : Fs.Shelters kept fs reference left) :
    Fs.Shelters kept fs now now where
  exist segmentId file isFile := by
    rw [cut.nodes]
    exact shelters.exist segmentId file isFile
  content _ _ _ := rfl
  apart segmentId file name isFile bound := by
    refine shelters.apart segmentId file name isFile ?_
    show left.root.entries[name]? = some file
    rw [← cut.root]
    exact bound
  linked segmentId file isFile := by
    show now.root.entries.contains .segments = true
    rw [cut.root]
    exact shelters.linked segmentId file isFile
  fewer segmentId file isFile := by
    rw [cut.lookup] at isFile
    exact shelters.fewer segmentId file isFile
  listed segmentId file isKept isFile := by
    rw [cut.lookup]
    exact shelters.listed segmentId file isKept isFile

theorem cutsGreatestOnly_open (physical : fs.Physical)
    (onlyGreatest : ComesToScans fs config entropy listing → OnlyGreatestTorn fs) :
    Meets (Storage.open config entropy listing) fs
      (always (CutsGreatestOnly fs) True fun _ _ => True) := by
  rw [open_eq]
  refine always_bind (steady_openControl.meets physical.shelters fun now =>
    cutsGreatestOnly_of_shelters) (fun _ => trivial) fun opening middle _ ⟨shelters, controlled⟩ => ?_
  have spare : ∀ segmentId, opening.recovery.control.removedSegments.contains segmentId = true →
      ¬ opening.Live segmentId := by
    intro segmentId removed live
    rw [Opening.Live, removed] at live
    cases live
  refine always_bind ((steady_enumerateSegments spare).meets (shelters.mono fun _ _ => trivial)
    fun now => (cutsGreatestOnly_of_shelters physical.shelters).sheltered physical controlled)
    (fun _ => trivial) fun found left _ ⟨shelters, enumerated⟩ => ?_
  have onlyGreatest := onlyGreatest ⟨opening, middle, found, left, controlled, enumerated⟩
  have scans := meets_enumerated physical controlled enumerated
  have allowed : ∀ part now, part <+:
      repairs opening.rootId opening.recovery.control left found.segments.toList →
      left.CutBy ([] ++ part) now → CutsGreatestOnly fs now :=
    fun part now isPart cut =>
      cutsGreatestOnly_of_cutBy physical controlled enumerated onlyGreatest isPart cut
  refine meets_bind (scans.mono (fun scanned now cut => ?_) (fun reason now cut => ?_)
    (fun reason now cut => ?_) fun now cut => ?_)
  · have held := allowed _ now List.prefix_rfl cut
    have other := noSegment_openControl physical.shelters controlled.returns
    exact always_mono ((steady_openScanned other).meets (cut.shelters shelters) fun final =>
      held.sheltered physical controlled) (fun _ => trivial) fun _ _ _ _ => trivial
  · exact ⟨allowed _ now List.prefix_rfl cut, trivial⟩
  · obtain ⟨part, isPart, cut⟩ := cut
    exact allowed part now isPart cut
  · obtain ⟨part, isPart, cut⟩ := cut
    exact allowed part now isPart cut

/-- Without faults an opening makes all cuts its scans ask for. -/
theorem shortened_open (physical : fs.Physical)
    (controlled : Completes (openControl config entropy) fs opening middle)
    (enumerated : Completes (enumerateSegments opening.rootId opening.recovery listing) middle found left)
    {segmentId length file : Nat} (member : (segmentId, length) ∈
      repairs opening.rootId opening.recovery.control fs found.segments.toList)
    (isFile : segmentsDirectory.lookup (.log segmentId) fs = some file) :
    ((Storage.open config entropy listing).run fs []).2.1.content file =
      (fs.content file).take length := by
  have shelters := shelters_enumerated physical controlled enumerated
  have isLeft : segmentsDirectory.lookup (.log segmentId) left = some file := by
    obtain ⟨_, _, extant, -⟩ := (mem_repairs_enumerated physical controlled enumerated).mp member
    exact shelters.listed segmentId file extant.2 isFile
  have scans := meets_enumerated physical controlled enumerated
  rw [← repairs_enumerated physical controlled enumerated] at member
  have shorter : ∀ now, left.CutBy ([] ++
      repairs opening.rootId opening.recovery.control left found.segments.toList) now →
      now.content file = (fs.content file).take length := by
    intro now cut
    rw [cut.shortened segmentId length file member isLeft, shelters.content segmentId file isFile]
  rw [open_eq, controlled.run_bind, enumerated.run_bind]
  rcases scans.run_nil with ⟨scanned, now, isRun, cut⟩ | ⟨reason, now, isRun, cut⟩
  · have completes : Completes (scanSegments opening.rootId opening.recovery.control ⟨∅, [], []⟩
        found.segments.toList) left scanned now := isRun
    rw [completes.run_bind]
    have other := noSegment_openControl physical.shelters controlled.returns
    have steady : Steady (Fs.Shelters opening.Live fs now) (openScanned config opening found scanned) :=
      steady_openScanned other
    have kept := steady.keeps now [] (cut.shelters shelters)
    rw [kept.content segmentId file isFile]
    exact shorter now cut
  · rw [run_bind_of_refused isRun]
    exact shorter now cut

/-- **Opening a root cuts only the greatest segment exactly when no other segment that is scanned has a
tail to cut**, unless the root is rejected before the segments are scanned. Whatever the faults and
however the opening ends, every segment file keeps its name unless the control state holds it as
removed, and its bytes unless it is the greatest one; this one is cut only at the end of its complete
epochs. -/
theorem open_repairs_iff (physical : fs.Physical) :
    (∀ faults, CutsGreatestOnly fs ((Storage.open config entropy listing).run fs faults).2.1) ↔
      (ComesToScans fs config entropy listing → OnlyGreatestTorn fs) := by
  constructor
  · rintro held ⟨opening, middle, found, left, controlled, enumerated⟩ rootId control state segmentId
      file texts length extant isFile torn accepted
    cases (controlState_opening physical controlled isFile).symm.trans state
    have shorter := shortened_open physical controlled enumerated
      ((mem_repairs_enumerated physical controlled enumerated).mpr
        ⟨file, texts, extant, isFile, torn, accepted⟩) isFile
    have goesOn := torn.incomplete.1
    rcases (held [] segmentId file isFile).2 with same | ⟨_, _, _, _, also, -, greatest, -⟩
    · rw [same] at shorter
      have long := congrArg List.length shorter
      rw [List.length_take] at long
      omega
    · cases state.symm.trans also
      exact greatest
  · intro onlyGreatest faults
    exact always_ends (cutsGreatestOnly_open physical onlyGreatest) faults

end Main

end

/-! ### Two torn segments -/

namespace TornSample

def rootEntries : Entries RootName :=
  (((((∅ : Entries RootName).insert .rootFile 0).insert .checkpoint 1).insert .manifestLog 2).insert
    .segments 0)

/-- The bytes of an empty checkpoint. -/
def checkpointBytes : Bytes :=
  ((@Checkpoint.encode Hasher.fnv ⟨.sample, 0, 0, ∅, ∅⟩).toOption).getD []

/-- The first segment: one epoch and a byte of the next one. -/
def tornBytes : Bytes :=
  @SegmentImage.bytes Hasher.fnv .sample 0 ⟨5, [⟨1, 0, [⟨[1], [2, 3]⟩]⟩], false⟩ ++ [9]

/-- The second segment: one epoch. -/
def wholeBytes : Bytes :=
  @SegmentImage.bytes Hasher.fnv .sample 1 ⟨5, [⟨1, 1, [⟨[1], [2, 3]⟩]⟩], false⟩

def nodes : List FileNode :=
  [⟨@RootSuperblock.encode Hasher.fnv ⟨.sample⟩, []⟩, ⟨checkpointBytes, []⟩,
    ⟨@ManifestLogHeader.encode Hasher.fnv ⟨.sample, 1⟩, []⟩, ⟨tornBytes, []⟩, ⟨wholeBytes, []⟩]

/-- A root with both segments, of which the control state knows neither. -/
def twoSegments : Fs :=
  ⟨nodes, ⟨rootEntries, []⟩, ⟨((∅ : Entries SegmentName).insert (.log 0) 3).insert (.log 1) 4, []⟩⟩

/-- A root with the torn segment only. -/
def oneSegment : Fs :=
  ⟨nodes, ⟨rootEntries, []⟩, ⟨(∅ : Entries SegmentName).insert (.log 0) 3, []⟩⟩

theorem lookup_two (segmentId : Nat) : segmentsDirectory.lookup (.log segmentId) twoSegments =
    if segmentId = 1 then some 4 else if segmentId = 0 then some 3 else none := by
  show (((∅ : Entries SegmentName).insert (.log 0) 3).insert (.log 1) 4)[SegmentName.log segmentId]? = _
  simp only [ExtTreeMap.getElem?_insert, LawfulEqCmp.compare_eq_iff_eq, SegmentName.log.injEq,
    ExtTreeMap.getElem?_empty, @eq_comm _ _ segmentId]

theorem lookup_one (segmentId : Nat) : segmentsDirectory.lookup (.log segmentId) oneSegment =
    if segmentId = 0 then some 3 else none := by
  show ((∅ : Entries SegmentName).insert (.log 0) 3)[SegmentName.log segmentId]? = _
  simp only [ExtTreeMap.getElem?_insert, LawfulEqCmp.compare_eq_iff_eq, SegmentName.log.injEq,
    ExtTreeMap.getElem?_empty, @eq_comm _ _ segmentId]

/-- No name of the root directory leads to the segments. -/
theorem lookup_root {fs : Fs} (root : fs.root = ⟨rootEntries, []⟩) {name : RootName} {file : Nat}
    (found : rootDirectory.lookup name fs = some file) : file < 3 := by
  have bound : rootEntries[name]? = some file := by
    rw [Place.lookup, show rootDirectory.directory fs = fs.root from rfl, root] at found
    exact found
  have small : (rootEntries[name]?).all (· < 3) = true := by cases name <;> decide +kernel
  rw [bound] at small
  exact of_decide_eq_true small

/-- The segment files come after the files of the root directory. -/
theorem sample_physical {segments : Directory SegmentName}
    (files : ∀ segmentId file, segments.entries[SegmentName.log segmentId]? = some file →
      file = segmentId + 3 ∧ segmentId < 2) : Fs.Physical ⟨nodes, ⟨rootEntries, []⟩, segments⟩ := by
  have linked : rootEntries.contains .segments = true := by decide +kernel
  refine ⟨fun segmentId file found => ?_, fun segmentId file name found bound => ?_,
    fun _ _ _ => linked, fun first second file isFirst isSecond => ?_,
    fun segmentId file found => ?_⟩
  · have same := files segmentId file found
    show file < 5
    omega
  · have same := files segmentId file found
    have small := lookup_root rfl bound
    omega
  · have same := files first file isFirst
    have also := files second file isSecond
    omega
  · obtain ⟨rfl, small⟩ := files segmentId file found
    show (((nodes[segmentId + 3]?).map (·.data)).getD []).length ≤ wordMax
    obtain rfl | rfl : segmentId = 0 ∨ segmentId = 1 := by omega
    · decide +kernel
    · decide +kernel

theorem twoSegments_physical : twoSegments.Physical := by
  refine sample_physical fun segmentId file found => ?_
  have isFile := (lookup_two segmentId).symm.trans found
  split at isFile
  · cases isFile
    omega
  · split at isFile
    · cases isFile
      omega
    · cases isFile

theorem oneSegment_physical : oneSegment.Physical := by
  refine sample_physical fun segmentId file found => ?_
  have isFile := (lookup_one segmentId).symm.trans found
  split at isFile
  · cases isFile
    omega
  · cases isFile

end TornSample

section

open TornSample

/-- **A segment below the greatest one may be cut**: both segments are unknown to the control state,
the first one has an incomplete tail; the opening cuts it and then rejects the root, since both are
active. -/
theorem open_cuts_lower_segment : twoSegments.Physical ∧
    ((@Storage.open Hasher.fnv .sample .sample .sorted).run twoSegments []).1.error? =
      some (.corruption (.entry .segments) 0 "more than one physical segment is active") ∧
    ((@Storage.open Hasher.fnv .sample .sample .sorted).run twoSegments []).2.1.content 3 =
      tornBytes.take 179 ∧ tornBytes.length = 180 ∧
    ¬ @CutsGreatestOnly Hasher.fnv twoSegments
      ((@Storage.open Hasher.fnv .sample .sample .sorted).run twoSegments []).2.1 := by
  have shorter : ((@Storage.open Hasher.fnv .sample .sample .sorted).run twoSegments []).2.1.content 3 =
      tornBytes.take 179 := by decide +kernel
  refine ⟨twoSegments_physical, by decide +kernel, shorter, by decide +kernel, fun held => ?_⟩
  have live : (@Fs.controlState Hasher.fnv twoSegments).all (fun state =>
      !state.2.removedSegments.contains 1) = true := by decide +kernel
  rcases (held 0 3 (lookup_two 0)).2 with same | ⟨_, control, _, _, state, -, greatest, -⟩
  · rw [shorter] at same
    have long := congrArg List.length same
    revert long
    decide +kernel
  · rw [state] at live
    have extant : Extant twoSegments control 1 := ⟨⟨4, lookup_two 1⟩, by simpa using live⟩
    exact absurd (greatest 1 extant) (by decide)

/-- The tail of the only segment is cut, and nothing else may happen to it. -/
theorem open_repairs_iff_sample : oneSegment.Physical ∧
    ((@Storage.open Hasher.fnv .sample .sample .sorted).run oneSegment []).2.1.content 3 =
      tornBytes.take 179 ∧
    ∀ faults, @CutsGreatestOnly Hasher.fnv oneSegment
      ((@Storage.open Hasher.fnv .sample .sample .sorted).run oneSegment faults).2.1 := by
  refine ⟨oneSegment_physical, by decide +kernel, ?_⟩
  refine (@open_repairs_iff Hasher.fnv .sample .sample .sorted oneSegment oneSegment_physical).mpr ?_
  rintro - rootId control - segmentId _ _ _ - - - - other ⟨⟨file, isFile⟩, -⟩
  rw [lookup_one] at isFile
  split at isFile
  · omega
  · cases isFile

end

end Camus
