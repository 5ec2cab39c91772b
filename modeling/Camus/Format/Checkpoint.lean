/-
**Checkpoints.**

A checkpoint is a snapshot of the manifest: the last applied sequence, the next segment identity, a
high-water per stream, and for every live segment its lifecycle, its record count and which of its
records are released.

* `Checkpoint.decode_encode`: a checkpoint that was encoded reads back as itself.
-/

import Camus.Format.Release
import Camus.Lib.Maps

set_option linter.unusedSectionVars false

namespace Camus

open Checked Codec Result Std

variable {units entry bytes : Bytes} {segmentId releasedCount : Nat} {active : Option Nat}
  {releases : ReleaseEncoding}

/-- Whether a segment still takes appends. -/
inductive SegmentLifecycle where
  | active
  | sealed (footer : SegmentFooter)
deriving DecidableEq

/-- The segment takes appends. -/
def SegmentLifecycle.isActive : SegmentLifecycle → Bool
  | .active => true
  | .sealed _ => false

/-- What a checkpoint says about a segment. -/
structure CheckpointSegment where
  lifecycle : SegmentLifecycle
  recordCount : Nat
  releases : ReleaseEncoding
deriving DecidableEq

/-- A snapshot of the manifest. -/
structure Checkpoint where
  rootId : RootId
  lastAppliedSeq : Nat
  nextSegmentId : Nat
  streamHighwaters : Highwaters
  segments : ExtTreeMap Nat CheckpointSegment

/-- The tags of the lifecycles and of the release encodings. -/
def activeLifecycle : Nat := 1

@[inherit_doc activeLifecycle] def sealedLifecycle : Nat := 2

@[inherit_doc activeLifecycle] def rangeEncoding : Nat := 1

@[inherit_doc activeLifecycle] def bitmapEncoding : Nat := 2

namespace Checkpoint

/-- The footer of a sealed segment is its own. -/
def validateLifecycle (segmentId : Nat) : SegmentLifecycle → FormatResult Unit
  | .active => .ok ()
  | .sealed footer => do
    ensure (footer.segmentId = segmentId)
      "checkpoint footer segment ID does not match entry"
    footer.validate

/-- The checks of one segment entry. -/
def validateSegment (segmentId : Nat) (segment : CheckpointSegment) : FormatResult Unit := do
  ensure (segmentId ≠ wordMax && segment.recordCount ≠ 0)
    "invalid checkpoint segment identity"
  validateLifecycle segmentId segment.lifecycle
  let _ ← segment.releases.validateCanonical segment.recordCount
  return ()

/-- The checks of a checkpoint. -/
def validate (checkpoint : Checkpoint) : FormatResult Unit := do
  let greatest := Maps.greatest checkpoint.segments
  ensure (greatest.all fun segmentId => segmentId < checkpoint.nextSegmentId)
    "next_segment_id must exceed every extant segment ID"
  let active := (checkpoint.segments.toList.filter fun entry => entry.2.lifecycle.isActive).map (·.1)
  ensure (active.length ≤ 1) "checkpoint contains more than one active segment"
  ensure (active.head?.all fun segmentId => greatest = some segmentId)
    "active checkpoint segment must have greatest extant ID"
  let _ ← tryMap (fun entry => validateSegment entry.1 entry.2) checkpoint.segments.toList
  return ()

/-! ### Encoding -/

/-- The words of a lifecycle. -/
def lifecycleWords : SegmentLifecycle → Bytes
  | .active => word activeLifecycle ++ (word 0 ++ (word 0 ++ word 0))
  | .sealed footer => word sealedLifecycle ++ (word footer.segmentBytes ++
      (word footer.epochCount ++ word footer.segmentDigest))

/-- The tag of a release encoding and the number of its units. -/
def unitWords : ReleaseEncoding → FormatResult Bytes
  | .ranges found => do
    let count ← orError "range count does not fit u64" (toWord found.length)
    return word rangeEncoding ++ word count
  | .bitmap words => do
    let count ← orError "bitmap count does not fit u64" (toWord words.length)
    return word bitmapEncoding ++ word count

/-- The units of a release encoding. -/
def unitBytes : ReleaseEncoding → Bytes
  | .ranges found => found.flatMap SequenceRange.encode
  | .bitmap words => words.flatMap fun bits => word bits.toNat

/-- The entry of one segment: nine words and its release units. -/
def encodeSegment (segmentId : Nat) (segment : CheckpointSegment) : FormatResult Bytes := do
  let releasedCount ← segment.releases.releasedCount
  let units ← unitWords segment.releases
  return word segmentId ++ (lifecycleWords segment.lifecycle ++ (word segment.recordCount ++
    (word releasedCount ++ (units ++ unitBytes segment.releases))))

/-- The entry of one stream. -/
def encodeStream (entry : StreamId × Nat) : Bytes := word entry.1.val ++ word entry.2

variable [Hasher]

/-- The header of a checkpoint with some body. -/
def encodeHeader (rootId : RootId) (lastAppliedSeq : Nat) (body : Bytes) : Bytes :=
  withChecksum (checkpointMagic ++ (rootId.bytes ++ (word lastAppliedSeq ++
    (word body.length ++ word (checksum body)))))

/-- The bytes of a checkpoint. -/
def encode (checkpoint : Checkpoint) : FormatResult Bytes := do
  checkpoint.validate
  let streams := checkpoint.streamHighwaters.toList
  let segments := checkpoint.segments.toList
  let streamCount ← orError "stream count does not fit u64" (toWord streams.length)
  let segmentCount ← orError "segment count does not fit u64" (toWord segments.length)
  let entries ← tryMap (fun entry => encodeSegment entry.1 entry.2) segments
  let body := word checkpoint.nextSegmentId ++ (word streamCount ++ (word segmentCount ++
    (streams.flatMap encodeStream ++ entries.flatten)))
  let bodyLen ← orError "checkpoint body length does not fit u64" (toWord body.length)
  let _ ← orError "checkpoint length overflows u64" (checkedAdd checkpointHeaderLen bodyLen)
  return encodeHeader checkpoint.rootId checkpoint.lastAppliedSeq body ++ body

/-! ### Decoding -/

/-- Stream entries have increasing identities. -/
def decodeStreams (body : Bytes) : Nat → Nat → Option StreamId → Highwaters →
    FormatResult Highwaters
  | 0, _, _, streams => .ok streams
  | count + 1, entry, previous, streams => do
    let streamId : StreamId := Fin.ofNat _ (readWord body entry)
    ensure (previous.all fun value => !(streamId ≤ value))
      "checkpoint stream IDs must be strictly increasing"
    decodeStreams body count (entry + 16) (some streamId)
      (streams.insert streamId (readWord body (entry + 8)))

/-- Reads the lifecycle of a segment entry. -/
def decodeLifecycle (fixed : Bytes) (segmentId : Nat) (active : Option Nat) :
    FormatResult SegmentLifecycle :=
  if readWord fixed 8 = activeLifecycle then do
    ensure (readWord fixed 16 = 0 && readWord fixed 24 = 0 && readWord fixed 32 = 0)
      "active checkpoint segment has nonzero footer fields"
    ensure active.isNone "checkpoint contains more than one active segment"
    return .active
  else if readWord fixed 8 = sealedLifecycle then do
    let footer : SegmentFooter := {
      segmentId := segmentId
      segmentBytes := readWord fixed 16
      epochCount := readWord fixed 24
      segmentDigest := readWord fixed 32 }
    footer.validate
    return .sealed footer
  else .error "unknown checkpoint lifecycle"

/-- Reads release units at an offset of the body, and the offset after them. -/
def decodeReleases (body : Bytes) (offset encoding unitCount : Nat) :
    FormatResult (ReleaseEncoding × Nat) :=
  if encoding = rangeEncoding then do
    let bytesLen ← orError "range bytes overflow usize" (checkedMul unitCount 16)
    let unitsEnd ← orError "range boundary overflows usize" (checkedAdd offset bytesLen)
    ensure (unitsEnd ≤ body.length) "range units exceed checkpoint body"
    return (.ranges (readEntries 16 SequenceRange.readAt body offset unitCount), unitsEnd)
  else if encoding = bitmapEncoding then do
    let bytesLen ← orError "bitmap bytes overflow usize" (checkedMul unitCount 8)
    let unitsEnd ← orError "bitmap boundary overflows usize" (checkedAdd offset bytesLen)
    ensure (unitsEnd ≤ body.length) "bitmap units exceed checkpoint body"
    return (.bitmap (readEntries 8 (fun bytes entry => BitVec.ofNat 64 (readWord bytes entry))
      body offset unitCount), unitsEnd)
  else .error "unknown checkpoint release encoding"

/-- One segment entry, as read. -/
structure DecodedSegment where
  segmentId : Nat
  segment : CheckpointSegment
  offset : Nat

/-- Reads the segment entry at an offset. -/
def decodeSegment (body : Bytes) (offset : Nat) (previous active : Option Nat) :
    FormatResult DecodedSegment := do
  let fixedEnd ← orError "checkpoint segment entry overflows usize" (checkedAdd offset 72)
  ensure (fixedEnd ≤ body.length) "checkpoint segment fixed fields exceed body"
  let fixed := slice body offset 72
  let segmentId := readWord fixed 0
  ensure (segmentId ≠ wordMax) "u64::MAX is not a valid segment ID"
  ensure (previous.all fun value => !(segmentId ≤ value))
    "checkpoint segment IDs must be strictly increasing"
  let lifecycle ← decodeLifecycle fixed segmentId active
  let recordCount := readWord fixed 40
  ensure (recordCount ≠ 0) "checkpoint segment record_count must be nonzero"
  let releasedCount := readWord fixed 48
  ensure (releasedCount ≤ recordCount) "checkpoint released_count exceeds record_count"
  let (releases, unitsEnd) ← decodeReleases body fixedEnd (readWord fixed 56) (readWord fixed 64)
  let actualReleased ← releases.validateCanonical recordCount
  ensure (actualReleased = releasedCount) "checkpoint release encoding count mismatch"
  return {
    segmentId := segmentId
    segment := { lifecycle := lifecycle, recordCount := recordCount, releases := releases }
    offset := unitsEnd }

/-- The segment entries read so far. -/
structure SegmentTable where
  offset : Nat
  previous : Option Nat
  active : Option Nat
  segments : ExtTreeMap Nat CheckpointSegment

/-- Reads some more segment entries. -/
def decodeSegments (body : Bytes) : Nat → SegmentTable → FormatResult SegmentTable
  | 0, table => .ok table
  | count + 1, table => do
    let decoded ← decodeSegment body table.offset table.previous table.active
    decodeSegments body count {
      offset := decoded.offset
      previous := some decoded.segmentId
      active := if decoded.segment.lifecycle.isActive then some decoded.segmentId else table.active
      segments := table.segments.insert decoded.segmentId decoded.segment }

/-- Reads the body of a checkpoint. -/
def decodeBody (rootId : RootId) (lastAppliedSeq : Nat) (body : Bytes) :
    FormatResult Checkpoint := do
  ensure (24 ≤ body.length) "checkpoint body is shorter than its prefix"
  let nextSegmentId := readWord body 0
  let streamCount := readWord body 8
  let segmentCount := readWord body 16
  let streamBytes ← orError "stream entries overflow usize" (checkedMul streamCount 16)
  let offset ← orError "checkpoint stream boundary overflows usize"
    (checkedAdd 24 streamBytes)
  ensure (offset ≤ body.length) "checkpoint stream entries exceed body"
  let streamHighwaters ← decodeStreams body streamCount 24 none ∅
  let table ← decodeSegments body segmentCount {
    offset := offset, previous := none, active := none, segments := ∅ }
  ensure (table.offset = body.length) "checkpoint body has trailing bytes"
  ensure (table.active.all fun active => Maps.greatest table.segments = some active)
    "active checkpoint segment must have greatest extant ID"
  ensure ((Maps.greatest table.segments).all fun greatest => greatest < nextSegmentId)
    "next_segment_id must exceed every extant segment ID"
  let checkpoint : Checkpoint := {
    rootId := rootId
    lastAppliedSeq := lastAppliedSeq
    nextSegmentId := nextSegmentId
    streamHighwaters := streamHighwaters
    segments := table.segments }
  checkpoint.validate
  return checkpoint

/-- Reads a checkpoint. -/
def decode (bytes : Bytes) : FormatResult Checkpoint := do
  ensure (checkpointHeaderLen ≤ bytes.length) "checkpoint is shorter than its header"
  let header := slice bytes 0 checkpointHeaderLen
  ensure (slice header 0 8 = checkpointMagic) "invalid checkpoint magic"
  ensure (checksumMatches header 48) "checkpoint header checksum mismatch"
  let bodyLen := readWord header 32
  let expected ← orError "checkpoint length overflows u64"
    (checkedAdd checkpointHeaderLen bodyLen)
  ensure (expected = bytes.length) "checkpoint body length mismatch"
  let body := bytes.drop checkpointHeaderLen
  ensure (checksum body = readWord header 40) "checkpoint body checksum mismatch"
  decodeBody (RootId.fromSlice header 8) (readWord header 24) body

/-! ### Stream entries read back -/

@[simp] theorem encodeStream_length (entry : StreamId × Nat) : (encodeStream entry).length = 16 := by
  simp [encodeStream]

theorem decodeStreams_encode (streams : List (StreamId × Nat)) (before after : Bytes)
    (previous : Option StreamId) (found : Highwaters)
    (sorted : streams.Pairwise fun left right => left.1 < right.1)
    (follows : ∀ value, previous = some value → ∀ entry ∈ streams, value < entry.1)
    (fits : ∀ entry ∈ streams, entry.2 ≤ wordMax) :
    decodeStreams (before ++ (streams.flatMap encodeStream ++ after)) streams.length before.length
      previous found = .ok (streams.foldl (fun map entry => map.insert entry.1 entry.2) found) := by
  induction streams generalizing before previous found with
  | nil => rfl
  | cons entry rest ih =>
    obtain ⟨streamId, sequence⟩ := entry
    have stream : streamId.val ≤ wordMax := Nat.le_of_lt_succ streamId.isLt
    have bound : sequence ≤ wordMax := fits _ List.mem_cons_self
    obtain ⟨first, sorted⟩ := List.pairwise_cons.mp sorted
    have tail := ih (before ++ encodeStream (streamId, sequence)) (some streamId)
      (found.insert streamId sequence) sorted
      (by rintro _ ⟨⟩ later member; exact first later member)
      fun later member => fits later (List.mem_cons_of_mem _ member)
    rw [List.append_assoc, List.length_append, encodeStream_length] at tail
    rw [List.length_cons, decodeStreams.eq_def, List.flatMap_cons, List.append_assoc]
    simp only
    have readStream : Fin.ofNat 18446744073709551616 (readWord (before ++ (encodeStream
        (streamId, sequence) ++ (rest.flatMap encodeStream ++ after))) before.length) = streamId := by
      simp [encodeStream, stream]
    have readSequence : readWord (before ++ (encodeStream (streamId, sequence) ++
        (rest.flatMap encodeStream ++ after))) (before.length + 8) = sequence := by
      simp [encodeStream, bound]
    rw [readStream, readSequence, ensure_bind_of_true, tail]
    · rfl
    · rw [Option.all_eq_true]
      intro value same
      simpa using follows value same _ List.mem_cons_self

/-! ### Segment entries read back -/

/-- The fields of a segment entry are words. -/
structure EntryFits (segmentId : Nat) (segment : CheckpointSegment) : Prop where
  segmentId : segmentId ≤ wordMax
  recordCount : segment.recordCount ≤ wordMax
  footer : ∀ footer, segment.lifecycle = .sealed footer → footer.Representable

@[simp] theorem lifecycleWords_length (lifecycle : SegmentLifecycle) :
    (lifecycleWords lifecycle).length = 32 := by
  cases lifecycle <;> simp [lifecycleWords]

theorem unitWords_length (encoded : unitWords releases = .ok units) : units.length = 16 := by
  cases releases <;>
    (simp only [unitWords, bind_eq_ok, pure_eq_ok] at encoded
     obtain ⟨_, -, rfl⟩ := encoded
     simp)

theorem decodeReleases_encode (fits : releases.Representable)
    (encoded : unitWords releases = .ok units) (before after : Bytes)
    (short : (before ++ (unitBytes releases ++ after)).length ≤ wordMax) :
    decodeReleases (before ++ (unitBytes releases ++ after)) before.length
      (readWord units 0) (readWord units 8) =
        .ok (releases, before.length + (unitBytes releases).length) := by
  cases releases with
  | ranges found =>
    obtain ⟨count, words⟩ := fits
    simp only [unitWords, bind_eq_ok, orError_eq_ok, toWord_eq_some,
      pure_eq_ok] at encoded
    obtain ⟨_, ⟨rfl, -⟩, rfl⟩ := encoded
    have tag : readWord (word rangeEncoding ++ word found.length) 0 = rangeEncoding := by
      rw [readWord_append_left (by simp), readWord_word (by decide)]
    have units : readWord (word rangeEncoding ++ word found.length) 8 = found.length := by
      simp [count]
    have size : (unitBytes (.ranges found)).length = found.length * 16 :=
      flatMap_length SequenceRange.encode_length found
    have table := readEntries_flatMap SequenceRange.readAt SequenceRange.encode_length before found
      after fun range member => SequenceRange.readAt_encode (words range member).1
        (words range member).2
    simp only [List.length_append, size] at short
    rw [decodeReleases, if_pos tag, units, checkedMul_of_le (by omega), orError_some, ok_bind,
      checkedAdd_of_le (by omega), orError_some, ok_bind,
      ensure_bind_of_true (by simp only [List.length_append, size, decide_eq_true_eq]; omega),
      size]
    exact congrArg _ (congrArg (fun ranges => (ReleaseEncoding.ranges ranges, _)) table)
  | bitmap words =>
    have count : words.length ≤ wordMax := fits
    simp only [unitWords, bind_eq_ok, orError_eq_ok, toWord_eq_some,
      pure_eq_ok] at encoded
    obtain ⟨_, ⟨rfl, -⟩, rfl⟩ := encoded
    have tag : readWord (word bitmapEncoding ++ word words.length) 0 = bitmapEncoding := by
      rw [readWord_append_left (by simp), readWord_word (by decide)]
    have units : readWord (word bitmapEncoding ++ word words.length) 8 = words.length := by
      simp [count]
    have size : (unitBytes (.bitmap words)).length = words.length * 8 :=
      flatMap_length (fun bits : BitVec 64 => word_length bits.toNat) words
    have table := readEntries_flatMap
      (fun bytes entry => BitVec.ofNat 64 (readWord bytes entry))
      (fun bits : BitVec 64 => word_length bits.toNat) before words after fun bits _ before after => by
        have bound : bits.toNat ≤ wordMax := Nat.le_of_lt_succ bits.isLt
        simp [bound]
    simp only [List.length_append, size] at short
    rw [decodeReleases, tag, if_neg (by decide), if_pos rfl, units, checkedMul_of_le (by omega),
      orError_some, ok_bind, checkedAdd_of_le (by omega), orError_some, ok_bind,
      ensure_bind_of_true (by simp only [List.length_append, size, decide_eq_true_eq]; omega),
      size]
    exact congrArg _ (congrArg (fun words => (ReleaseEncoding.bitmap words, _)) table)

theorem encodeSegment_eq_ok {segment : CheckpointSegment} :
    encodeSegment segmentId segment = .ok entry ↔ ∃ releasedCount units,
      segment.releases.releasedCount = .ok releasedCount ∧
      unitWords segment.releases = .ok units ∧
      word segmentId ++ (lifecycleWords segment.lifecycle ++ (word segment.recordCount ++
        (word releasedCount ++ (units ++ unitBytes segment.releases)))) = entry := by
  simp only [encodeSegment, bind_eq_ok, pure_eq_ok]
  constructor
  · rintro ⟨count, counted, units, encoded, rfl⟩
    exact ⟨count, units, counted, encoded, rfl⟩
  · rintro ⟨count, units, counted, encoded, rfl⟩
    exact ⟨count, counted, units, encoded, rfl⟩

/-- The nine words of a segment entry. -/
def fixedWords (segmentId : Nat) (segment : CheckpointSegment) (releasedCount : Nat)
    (units : Bytes) : Bytes :=
  word segmentId ++ (lifecycleWords segment.lifecycle ++ (word segment.recordCount ++
    (word releasedCount ++ units)))

theorem fixedWords_length {segment : CheckpointSegment} (sized : units.length = 16) :
    (fixedWords segmentId segment releasedCount units).length = 72 := by
  simp [fixedWords, sized]

theorem decodeLifecycle_fixedWords {segment : CheckpointSegment}
    (fits : EntryFits segmentId segment)
    (valid : validateLifecycle segmentId segment.lifecycle = .ok ())
    (alone : segment.lifecycle = .active → active = none) :
    decodeLifecycle (fixedWords segmentId segment releasedCount units) segmentId active =
      .ok segment.lifecycle := by
  have zero : readWord (word 0) 0 = 0 := readWord_word (by decide)
  cases lifecycle : segment.lifecycle with
  | active =>
    have tag : readWord (word activeLifecycle) 0 = activeLifecycle := readWord_word (by decide)
    simp [decodeLifecycle, fixedWords, lifecycleWords, lifecycle, tag, zero, alone lifecycle]
  | sealed footer =>
    have tag : readWord (word sealedLifecycle) 0 = sealedLifecycle := readWord_word (by decide)
    have other : sealedLifecycle ≠ activeLifecycle := by decide
    obtain ⟨-, bytes, count, digest⟩ := fits.footer footer lifecycle
    rw [lifecycle] at valid
    simp only [validateLifecycle, bind_eq_ok, ensure_eq_ok,
      decide_eq_true_eq] at valid
    obtain ⟨-, rfl, checked⟩ := valid
    simp [decodeLifecycle, fixedWords, lifecycleWords, lifecycle, tag, other, bytes, count, digest,
      checked]

theorem decodeSegment_encode {segment : CheckpointSegment} {previous : Option Nat}
    (fits : EntryFits segmentId segment) (valid : validateSegment segmentId segment = .ok ())
    (encoded : encodeSegment segmentId segment = .ok entry)
    (follows : ∀ value, previous = some value → value < segmentId)
    (alone : segment.lifecycle = .active → active = none) (before after : Bytes)
    (short : (before ++ (entry ++ after)).length ≤ wordMax) :
    decodeSegment (before ++ (entry ++ after)) before.length previous active =
      .ok ⟨segmentId, segment, before.length + entry.length⟩ := by
  obtain ⟨releasedCount, units, counted, unitsEncoded, rfl⟩ := encodeSegment_eq_ok.mp encoded
  have sized := unitWords_length unitsEncoded
  simp only [validateSegment, bind_eq_ok, ensure_eq_ok, Bool.and_eq_true,
    decide_eq_true_eq, pure_eq_ok] at valid
  obtain ⟨-, ⟨notMax, nonzero⟩, _, lifecycle, released, canonical, -⟩ := valid
  obtain ⟨-, sameCount, bounded, representable⟩ :=
    ReleaseEncoding.validateCanonical_eq_ok canonical
  obtain rfl : released = releasedCount := by
    rw [sameCount] at counted
    exact Except.ok.inj counted
  have whole : word segmentId ++ (lifecycleWords segment.lifecycle ++ (word segment.recordCount ++
      (word released ++ (units ++ unitBytes segment.releases)))) =
        fixedWords segmentId segment released units ++ unitBytes segment.releases := by
    simp [fixedWords]
  rw [whole] at short ⊢
  have length : (fixedWords segmentId segment released units).length = 72 :=
    fixedWords_length sized
  rw [List.append_assoc] at short ⊢
  have room := short
  simp only [List.length_append, length] at room
  have fixed : slice (before ++ (fixedWords segmentId segment released units ++
      (unitBytes segment.releases ++ after))) before.length 72 =
        fixedWords segmentId segment released units := slice_append_exact rfl length
  have releasedFits : released ≤ wordMax := bounded.trans fits.recordCount
  have units0 : readWord (fixedWords segmentId segment released units) 56 = readWord units 0 := by
    simp [fixedWords]
  have units8 : readWord (fixedWords segmentId segment released units) 64 = readWord units 8 := by
    simp [fixedWords]
  have unitsRead := decodeReleases_encode representable unitsEncoded
    (before ++ fixedWords segmentId segment released units) after
    (by rw [List.append_assoc]; exact short)
  rw [List.append_assoc, List.length_append, length] at unitsRead
  have readId : readWord (fixedWords segmentId segment released units) 0 = segmentId := by
    simp [fixedWords, fits.segmentId]
  have readCount : readWord (fixedWords segmentId segment released units) 40 =
      segment.recordCount := by
    simp [fixedWords, fits.recordCount]
  have readReleased : readWord (fixedWords segmentId segment released units) 48 = released := by
    simp [fixedWords, releasedFits]
  have ordered : previous.all (fun value => !decide (segmentId ≤ value)) = true := by
    rw [Option.all_eq_true]
    intro value same
    simpa using follows value same
  unfold decodeSegment
  rw [checkedAdd_of_le (by omega), orError_some, ok_bind, ensure_bind_of_true
    (by simp only [List.length_append, length, decide_eq_true_eq]; omega)]
  simp only [fixed, readId, readCount, readReleased, units0, units8]
  rw [ensure_bind_of_true (by simpa using notMax), ensure_bind_of_true ordered,
    decodeLifecycle_fixedWords fits lifecycle alone, ok_bind,
    ensure_bind_of_true (by simpa using nonzero),
    ensure_bind_of_true (by simpa using bounded), unitsRead, ok_bind]
  simp only [canonical, ok_bind]
  rw [ensure_bind_of_true (by simp), List.length_append, length, Nat.add_assoc]
  rfl

/-- The active segments of some entries. -/
def activeIds (segments : List (Nat × CheckpointSegment)) : List Nat :=
  (segments.filter fun entry => entry.2.lifecycle.isActive).map (·.1)

theorem decodeSegments_encode (segments : List (Nat × CheckpointSegment)) (entries : List Bytes)
    (encoded : tryMap (fun entry => encodeSegment entry.1 entry.2) segments = .ok entries)
    (before after : Bytes) (table : SegmentTable) (start : table.offset = before.length)
    (sorted : segments.Pairwise fun left right => left.1 < right.1)
    (follows : ∀ value, table.previous = some value → ∀ entry ∈ segments, value < entry.1)
    (valid : ∀ entry ∈ segments, validateSegment entry.1 entry.2 = .ok ())
    (fits : ∀ entry ∈ segments, EntryFits entry.1 entry.2)
    (alone : (table.active.toList ++ activeIds segments).length ≤ 1)
    (short : (before ++ (entries.flatten ++ after)).length ≤ wordMax) :
    ∃ final, decodeSegments (before ++ (entries.flatten ++ after)) segments.length table =
        .ok final ∧ final.offset = before.length + entries.flatten.length ∧
      final.segments = segments.foldl (fun map entry => map.insert entry.1 entry.2) table.segments ∧
      final.active.toList = table.active.toList ++ activeIds segments := by
  induction segments generalizing entries before table with
  | nil =>
    obtain rfl : entries = [] := by simpa [tryMap] using encoded.symm
    exact ⟨table, rfl, by simp [start], rfl, by simp [activeIds]⟩
  | cons first rest ih =>
    obtain ⟨segmentId, segment⟩ := first
    simp only [tryMap, bind_eq_ok, pure_eq_ok] at encoded
    obtain ⟨entry, head, later, tail, rfl⟩ := encoded
    obtain ⟨below, sorted⟩ := List.pairwise_cons.mp sorted
    rw [List.flatten_cons, List.append_assoc] at short ⊢
    have inactive : segment.lifecycle = .active → table.active = none := by
      intro active
      have filtered : activeIds ((segmentId, segment) :: rest) = segmentId :: activeIds rest := by
        simp [activeIds, active, SegmentLifecycle.isActive]
      rw [filtered, List.length_append, List.length_cons] at alone
      exact Option.toList_eq_nil_iff.mp (List.eq_nil_of_length_eq_zero (by omega))
    have decoded := decodeSegment_encode (fits _ List.mem_cons_self) (valid _ List.mem_cons_self) head
      (fun value (same : table.previous = some value) => follows value same _ List.mem_cons_self)
      inactive before (later.flatten ++ after) short
    have actives : (if segment.lifecycle.isActive = true then some segmentId
        else table.active).toList ++ activeIds rest =
          table.active.toList ++ activeIds ((segmentId, segment) :: rest) := by
      by_cases active : segment.lifecycle.isActive = true
      · have lifecycle : segment.lifecycle = .active := by
          cases shape : segment.lifecycle with
          | active => rfl
          | sealed footer => rw [shape] at active; cases active
        simp [activeIds, active, inactive lifecycle]
      · simp [activeIds, active]
    obtain ⟨final, found, offset, map, active⟩ := ih later tail (before ++ entry)
      { offset := before.length + entry.length
        previous := some segmentId
        active := if segment.lifecycle.isActive = true then some segmentId else table.active
        segments := table.segments.insert segmentId segment }
      (List.length_append ..).symm sorted
      (by rintro _ ⟨⟩ other member; exact below other member)
      (fun other member => valid other (List.mem_cons_of_mem _ member))
      (fun other member => fits other (List.mem_cons_of_mem _ member))
      (by rw [actives]; exact alone) (by rw [List.append_assoc]; exact short)
    refine ⟨final, ?_, ?_, map, by rw [active, actives]⟩
    · rw [List.length_cons, decodeSegments, start, decoded, ok_bind]
      rw [List.append_assoc] at found
      exact found
    · rw [offset]
      simp only [List.length_append]
      omega

/-! ### Checkpoints read back -/

/-- The fields of a checkpoint are words. -/
structure Representable (checkpoint : Checkpoint) : Prop where
  lastAppliedSeq : checkpoint.lastAppliedSeq ≤ wordMax
  nextSegmentId : checkpoint.nextSegmentId ≤ wordMax
  streamHighwaters : ∀ entry ∈ checkpoint.streamHighwaters.toList, entry.2 ≤ wordMax
  segments : ∀ entry ∈ checkpoint.segments.toList, EntryFits entry.1 entry.2

theorem validate_eq_ok {checkpoint : Checkpoint} :
    checkpoint.validate = .ok () ↔
      (∀ greatest, Maps.greatest checkpoint.segments = some greatest →
        greatest < checkpoint.nextSegmentId) ∧
      (activeIds checkpoint.segments.toList).length ≤ 1 ∧
      (∀ active, (activeIds checkpoint.segments.toList).head? = some active →
        Maps.greatest checkpoint.segments = some active) ∧
      ∀ entry ∈ checkpoint.segments.toList, validateSegment entry.1 entry.2 = .ok () := by
  simp only [validate, bind_eq_ok, ensure_eq_ok, Option.all_eq_true,
    decide_eq_true_eq, pure_eq_ok]
  constructor
  · rintro ⟨_, next, _, single, _, last, _, entries, -⟩
    exact ⟨next, single, last, forall_of_tryMap_eq_ok entries⟩
  · rintro ⟨next, single, last, entries⟩
    exact ⟨(), next, (), single, (), last, _,
      tryMap_eq_map (fun _ => ()) _ entries, trivial⟩

/-- The body of a checkpoint. -/
def bodyOf (checkpoint : Checkpoint) (entries : List Bytes) : Bytes :=
  word checkpoint.nextSegmentId ++ (word checkpoint.streamHighwaters.toList.length ++
    (word checkpoint.segments.toList.length ++
      (checkpoint.streamHighwaters.toList.flatMap encodeStream ++ entries.flatten)))

theorem encode_eq_ok {checkpoint : Checkpoint} :
    checkpoint.encode = .ok bytes ↔ checkpoint.validate = .ok () ∧
      checkpoint.streamHighwaters.toList.length ≤ wordMax ∧
      checkpoint.segments.toList.length ≤ wordMax ∧
      ∃ entries, tryMap (fun entry => encodeSegment entry.1 entry.2)
          checkpoint.segments.toList = .ok entries ∧
        checkpointHeaderLen + (bodyOf checkpoint entries).length ≤ wordMax ∧
        encodeHeader checkpoint.rootId checkpoint.lastAppliedSeq (bodyOf checkpoint entries) ++
          bodyOf checkpoint entries = bytes := by
  simp only [encode, bind_eq_ok, orError_eq_ok, toWord_eq_some, checkedAdd_eq_some,
    pure_eq_ok]
  constructor
  · rintro ⟨_, valid, _, ⟨rfl, streams⟩, _, ⟨rfl, segments⟩, entries, encoded, _, ⟨rfl, -⟩, _,
      ⟨rfl, short⟩, rfl⟩
    exact ⟨valid, streams, segments, entries, encoded, short, rfl⟩
  · rintro ⟨valid, streams, segments, entries, encoded, short, rfl⟩
    refine ⟨(), valid, _, ⟨rfl, streams⟩, _, ⟨rfl, segments⟩, entries, encoded, _, ⟨rfl, ?_⟩, _,
      ⟨rfl, short⟩, rfl⟩
    unfold bodyOf at short
    omega

theorem decodeBody_encode {checkpoint : Checkpoint} {entries : List Bytes}
    (fits : checkpoint.Representable) (valid : checkpoint.validate = .ok ())
    (streams : checkpoint.streamHighwaters.toList.length ≤ wordMax)
    (segments : checkpoint.segments.toList.length ≤ wordMax)
    (encoded : tryMap (fun entry => encodeSegment entry.1 entry.2)
      checkpoint.segments.toList = .ok entries)
    (short : (bodyOf checkpoint entries).length ≤ wordMax) :
    decodeBody checkpoint.rootId checkpoint.lastAppliedSeq (bodyOf checkpoint entries) =
      .ok checkpoint := by
  obtain ⟨next, single, last, entryValid⟩ := validate_eq_ok.mp valid
  have table : (checkpoint.streamHighwaters.toList.flatMap encodeStream).length =
      checkpoint.streamHighwaters.toList.length * 16 := flatMap_length encodeStream_length _
  have room := short
  simp only [bodyOf, List.length_append, word_length, table] at room
  have streamsRead := decodeStreams_encode checkpoint.streamHighwaters.toList
    (word checkpoint.nextSegmentId ++ (word checkpoint.streamHighwaters.toList.length ++
      word checkpoint.segments.toList.length)) entries.flatten none ∅
    (Maps.toList_sorted_fin _) (by simp) fits.streamHighwaters
  simp only [List.append_assoc, List.length_append, word_length, Maps.foldl_insert_toList]
    at streamsRead
  obtain ⟨final, segmentsRead, offset, map, active⟩ := decodeSegments_encode
    checkpoint.segments.toList entries encoded
    (word checkpoint.nextSegmentId ++ (word checkpoint.streamHighwaters.toList.length ++
      (word checkpoint.segments.toList.length ++
        checkpoint.streamHighwaters.toList.flatMap encodeStream))) []
    { offset := 24 + checkpoint.streamHighwaters.toList.length * 16
      previous := none
      active := none
      segments := ∅ }
    (by simp only [List.length_append, word_length, table]; omega)
    (Maps.toList_sorted _) (by simp) entryValid fits.segments (by simpa using single)
    (by simp only [List.length_append, word_length, table, List.append_nil]; omega)
  simp only [List.append_assoc, List.append_nil, List.length_append, word_length, table,
    Maps.foldl_insert_toList] at segmentsRead offset map
  simp only [Option.toList_none, List.nil_append] at active
  have readNext : readWord (bodyOf checkpoint entries) 0 = checkpoint.nextSegmentId := by
    simp [bodyOf, fits.nextSegmentId]
  have readStreams : readWord (bodyOf checkpoint entries) 8 =
      checkpoint.streamHighwaters.toList.length := by
    rw [bodyOf, readWord_append_right (by simp), readWord_append_left (by simp), word_length,
      readWord_word streams]
  have readSegments : readWord (bodyOf checkpoint entries) 16 =
      checkpoint.segments.toList.length := by
    rw [bodyOf, readWord_append_right (by simp), readWord_append_right (by simp),
      readWord_append_left (by simp), word_length, word_length, readWord_word segments]
  have lastActive : final.active.all (fun active => Maps.greatest final.segments = some active) = true := by
    rw [Option.all_eq_true]
    intro found same
    rw [map, decide_eq_true_eq]
    exact last found (by rw [← active, same]; rfl)
  have below : (Maps.greatest final.segments).all (fun greatest => greatest < checkpoint.nextSegmentId) =
      true := by
    rw [Option.all_eq_true, map]
    intro greatest same
    simpa using next greatest same
  unfold decodeBody
  simp only [readNext, readStreams, readSegments]
  rw [ensure_bind_of_true (by
      simp only [bodyOf, List.length_append, word_length, table, decide_eq_true_eq]; omega),
    checkedMul_of_le (by omega), orError_some, ok_bind,
    checkedAdd_of_le (by omega), orError_some, ok_bind, ensure_bind_of_true (by
      simp only [bodyOf, List.length_append, word_length, table, decide_eq_true_eq]; omega)]
  simp only [bodyOf] at streamsRead segmentsRead ⊢
  rw [streamsRead, ok_bind, segmentsRead, ok_bind, ensure_bind_of_true (by
      simp only [List.length_append, word_length, table, decide_eq_true_eq, offset]; omega),
    ensure_bind_of_true lastActive, ensure_bind_of_true below, map]
  simp only [valid, ok_bind]
  rfl

/-- **A checkpoint that was encoded reads back as itself.** -/
theorem decode_encode {checkpoint : Checkpoint} (fits : checkpoint.Representable)
    (encoded : checkpoint.encode = .ok bytes) : decode bytes = .ok checkpoint := by
  obtain ⟨valid, streams, segments, entries, entriesEncoded, short, rfl⟩ := encode_eq_ok.mp encoded
  have body := decodeBody_encode fits valid streams segments entriesEncoded (by omega)
  generalize bodyOf checkpoint entries = written at body short
  have bodyLen : written.length ≤ wordMax := by omega
  have length : (encodeHeader checkpoint.rootId checkpoint.lastAppliedSeq written).length =
      checkpointHeaderLen := by
    simp [encodeHeader, checkpointHeaderLen]
  have header : slice (encodeHeader checkpoint.rootId checkpoint.lastAppliedSeq written ++ written) 0
      checkpointHeaderLen = encodeHeader checkpoint.rootId checkpoint.lastAppliedSeq written := by
    rw [slice_append_left (by omega), slice_all length]
  have dropped : (encodeHeader checkpoint.rootId checkpoint.lastAppliedSeq written ++ written).drop
      checkpointHeaderLen = written := by
    rw [← length, List.drop_left]
  have identity : RootId.fromSlice
      (encodeHeader checkpoint.rootId checkpoint.lastAppliedSeq written) 8 = checkpoint.rootId :=
    RootId.fromSlice_eq (by simp [encodeHeader])
  have readLast : readWord (encodeHeader checkpoint.rootId checkpoint.lastAppliedSeq written) 24 =
      checkpoint.lastAppliedSeq := by
    simp [encodeHeader, fits.lastAppliedSeq]
  have readLength : readWord (encodeHeader checkpoint.rootId checkpoint.lastAppliedSeq written) 32 =
      written.length := by
    simp [encodeHeader, bodyLen]
  have readChecksum :
      readWord (encodeHeader checkpoint.rootId checkpoint.lastAppliedSeq written) 40 =
        checksum written := by
    simp [encodeHeader, checksum_le]
  have magic : slice (encodeHeader checkpoint.rootId checkpoint.lastAppliedSeq written) 0 8 =
      checkpointMagic := by
    simp [encodeHeader]
  have matched :
      checksumMatches (encodeHeader checkpoint.rootId checkpoint.lastAppliedSeq written) 48 = true :=
    checksumMatches_withChecksum (by simp)
  unfold decode
  simp only [header, dropped, identity, readLast, readLength, readChecksum]
  rw [ensure_bind_of_true (by simp [length]),
    ensure_bind_of_true (by simpa using magic), ensure_bind_of_true matched,
    checkedAdd_of_le (by omega), orError_some, ok_bind,
    ensure_bind_of_true (by simp [length]), ensure_bind_of_true (by simp), body]

end Checkpoint

end Camus
