/-
**Checkpoints and frames have one encoding.**

`Checkpoint.decode` accepts a byte string only if it is what `Checkpoint.encode` writes for the
checkpoint it returns. Each reader is inverted on its own: the bytes it consumed are the bytes the
writer of that part produces (`decodeStreams_eq_ok`, `decodeReleases_eq_ok`, `decodeSegment_eq_ok`,
`decodeSegments_eq_ok`), and neighbouring parts join to the whole string.

* `Checkpoint.encode_decode`: an accepted byte string is the encoding of what it was read as.
* `ManifestFrame.encodeParts_decode`: the same for the frames of the manifest log.
* `Checkpoint.encode_total`: `encode` succeeds on every valid checkpoint whose length is a word.
-/

import Camus.Format.Checkpoint

set_option linter.unusedSectionVars false

namespace Camus

open Checked Codec Result Std

variable {bytes body : Bytes} {checkpoint : Checkpoint} {offset count segmentId : Nat}
  {active : Option Nat}

theorem RootId.bytes_fromSlice (inside : offset + 16 ≤ bytes.length) :
    (RootId.fromSlice bytes offset).bytes = slice bytes offset 16 := by
  have sized := slice_length inside
  show (slice bytes offset 16 ++ List.replicate 16 0).take 16 = slice bytes offset 16
  rw [List.take_append_of_le_length (by omega), List.take_of_length_le (by omega)]

/-- A stream identity that was read is the word it was read from. -/
theorem val_ofNat_readWord (bytes : Bytes) (offset : Nat) :
    (Fin.ofNat 18446744073709551616 (readWord bytes offset)).val = readWord bytes offset :=
  Nat.mod_eq_of_lt (Nat.lt_succ_of_le (readWord_le bytes offset))

theorem exact_eq_ok {length : Nat} {found : Bytes} {name : String} :
    exact length bytes name = .ok found ↔ bytes.length = length ∧ bytes = found := by
  unfold exact
  split <;> simp_all

/-- A structure with the right checksum is its fields and their checksum. -/
theorem withChecksum_fields [Hasher] {fields : Bytes} (isFields : fields = slice bytes 0 offset)
    (matched : checksumMatches bytes offset = true) (sized : bytes.length = offset + 8) :
    withChecksum fields = bytes := by
  have last : readWord bytes offset = checksum (slice bytes 0 offset) := of_decide_eq_true matched
  rw [withChecksum, isFields, ← last, word_readWord (by omega)]
  have joined := slice_add bytes 0 offset 8
  rw [Nat.zero_add] at joined
  rw [← joined, slice_all sized]

theorem SequenceRange.encode_readAt (inside : offset + 16 ≤ bytes.length) :
    (SequenceRange.readAt bytes offset).encode = slice bytes offset 16 := by
  rw [SequenceRange.encode, SequenceRange.readAt, word_readWord (by omega), word_readWord (by omega)]
  exact (slice_add bytes offset 8 8).symm

theorem StreamHighwater.encode_readAt (inside : offset + 16 ≤ bytes.length) :
    (StreamHighwater.readAt bytes offset).encode = slice bytes offset 16 := by
  rw [StreamHighwater.encode, StreamHighwater.readAt, val_ofNat_readWord, word_readWord (by omega),
    word_readWord (by omega)]
  exact (slice_add bytes offset 8 8).symm

/-! ### Frames -/

namespace ManifestBody

theorem encode_decodeRelease {body : ManifestBody} (decoded : decodeRelease bytes = .ok body) :
    body.encode = .ok bytes ∧ body.kind = releaseKind ∧ body.Representable := by
  simp only [decodeRelease, bind_eq_ok, ensure_eq_ok, checkedLen_eq_ok,
    decide_eq_true_eq, pure_eq_ok] at decoded
  obtain ⟨_, long, _, -, _, ⟨rfl, short⟩, _, length, count, counted, _, same, rfl⟩ := decoded
  have entries : (readEntries 16 SequenceRange.readAt bytes 24 (readWord bytes 16)).length =
      readWord bytes 16 := by simp [readEntries]
  refine ⟨encode_release.mpr ⟨count, counted, by rw [entries]; exact short, ?_⟩, rfl, trivial⟩
  rw [entries, val_ofNat_readWord, same, flatMap_readEntries SequenceRange.readAt,
    word_readWord (by omega), word_readWord (by omega), word_readWord (by omega), ← slice_add,
    ← slice_add, ← slice_add]
  · exact slice_all (by omega)
  · intro index below
    have room : (index + 1) * 16 ≤ readWord bytes 16 * 16 := Nat.mul_le_mul_right 16 below
    exact SequenceRange.encode_readAt (by omega)

theorem encode_decodeSealed {body : ManifestBody} (decoded : decodeSealed bytes = .ok body) :
    body.encode = .ok bytes ∧ body.kind = segmentSealedKind ∧ body.Representable := by
  simp only [decodeSealed, bind_eq_ok, ensure_eq_ok, decide_eq_true_eq,
    Bool.and_eq_true, pure_eq_ok] at decoded
  obtain ⟨_, length, _, valid, rfl⟩ := decoded
  refine ⟨encode_sealed.mpr ⟨valid, ?_⟩, rfl, readWord_le _ _, readWord_le _ _, readWord_le _ _,
    readWord_le _ _⟩
  rw [word_readWord (by omega), word_readWord (by omega), word_readWord (by omega),
    word_readWord (by omega), ← slice_add, ← slice_add, ← slice_add]
  exact slice_all (by omega)

theorem encode_decodeRemoved {body : ManifestBody} (decoded : decodeRemoved bytes = .ok body) :
    body.encode = .ok bytes ∧ body.kind = segmentRemovedKind ∧ body.Representable := by
  simp only [decodeRemoved, bind_eq_ok, ensure_eq_ok, checkedLen_eq_ok,
    decide_eq_true_eq, pure_eq_ok] at decoded
  obtain ⟨_, long, _, notMax, _, ⟨rfl, short⟩, _, length, _, ordered, rfl⟩ := decoded
  have entries : (readEntries 16 StreamHighwater.readAt bytes 16 (readWord bytes 8)).length =
      readWord bytes 8 := by simp [readEntries]
  refine ⟨encode_removed.mpr ⟨notMax, ordered, by rw [entries]; exact short, ?_⟩, rfl,
    readWord_le _ _, ?_⟩
  · rw [entries, flatMap_readEntries StreamHighwater.readAt, word_readWord (by omega),
      word_readWord (by omega), ← slice_add, ← slice_add]
    · exact slice_all (by omega)
    · intro index below
      have room : (index + 1) * 16 ≤ readWord bytes 8 * 16 := Nat.mul_le_mul_right 16 below
      exact StreamHighwater.encode_readAt (by omega)
  · intro highwater member
    obtain ⟨index, -, rfl⟩ := List.mem_map.mp member
    exact readWord_le _ _

theorem encode_decode {kind : Nat} {body : ManifestBody} (decoded : decode kind bytes = .ok body) :
    body.encode = .ok bytes ∧ body.kind = kind ∧ body.Representable := by
  unfold decode at decoded
  split at decoded
  · rename_i same
    rw [same]
    exact encode_decodeRelease decoded
  · split at decoded
    · rename_i same
      rw [same]
      exact encode_decodeSealed decoded
    · split at decoded
      · rename_i same
        rw [same]
        exact encode_decodeRemoved decoded
      · cases decoded

end ManifestBody

section

variable [Hasher]

/-- **An accepted frame is the encoding of what it was read as.** -/
theorem ManifestFrame.encodeParts_decode {headerBytes bodyBytes : Bytes}
    {header : ManifestFrameHeader} {frame : ManifestFrame}
    (decodedHeader : ManifestFrameHeader.decode headerBytes = .ok header)
    (decoded : ManifestFrame.decode header bodyBytes = .ok frame)
    (short : manifestFrameHeaderLen + bodyBytes.length ≤ wordMax) :
    ManifestFrame.encodeParts frame.manifestSeq frame.body = .ok (headerBytes ++ bodyBytes) ∧
      frame.manifestSeq = header.manifestSeq ∧ frame.manifestSeq ≤ wordMax ∧
      frame.body.Representable ∧ headerBytes.length = manifestFrameHeaderLen := by
  simp only [ManifestFrameHeader.decode, bind_eq_ok, ensure_eq_ok, decide_eq_true_eq,
    pure_eq_ok, exact_eq_ok] at decodedHeader
  obtain ⟨_, ⟨sized, rfl⟩, _, magic, _, matched, _, nonzero, _, -, rfl⟩ := decodedHeader
  simp only [ManifestFrame.decode, bind_eq_ok, ensure_eq_ok, decide_eq_true_eq,
    pure_eq_ok] at decoded
  obtain ⟨_, bodyLen, _, bodySum, body, isBody, rfl⟩ := decoded
  obtain ⟨encoded, kind, fits⟩ := ManifestBody.encode_decode isBody
  have length : headerBytes.length = 48 := sized
  have fields : manifestFrameMagic ++ (word (readWord headerBytes 8) ++ (word (readWord headerBytes 16) ++
      (word (readWord headerBytes 24) ++ word (readWord headerBytes 32)))) =
        slice headerBytes 0 40 := by
    rw [← magic, word_readWord (by omega), word_readWord (by omega), word_readWord (by omega),
      word_readWord (by omega), ← slice_add, ← slice_add, ← slice_add, ← slice_add]
  refine ⟨ManifestFrame.encodeParts_eq_ok.mpr ⟨nonzero, bodyBytes, encoded, short, ?_⟩, rfl,
    readWord_le _ _, fits, sized⟩
  simp only [ManifestFrameHeader.encode, ManifestFrame.headerOf, kind, ← bodyLen, bodySum]
  rw [withChecksum_fields fields matched (by omega)]

end

namespace Checkpoint

section

variable [Hasher]

/-! ### Streams -/

theorem decodeStreams_eq_ok {entry : Nat} {previous : Option StreamId}
    {found final : Highwaters} (inside : entry + count * 16 ≤ body.length)
    (decoded : decodeStreams body count entry previous found = .ok final) :
    ∃ streams : List (StreamId × Nat), streams.length = count ∧
      streams.Pairwise (fun left right => left.1 < right.1) ∧
      (∀ value, previous = some value → ∀ stream ∈ streams, value < stream.1) ∧
      streams.flatMap encodeStream = slice body entry (count * 16) ∧
      final = streams.foldl (fun map stream => map.insert stream.1 stream.2) found := by
  induction count generalizing entry previous found with
  | zero =>
    cases decoded
    exact ⟨[], rfl, .nil, by simp, by simp [slice], rfl⟩
  | succ count ih =>
    rw [decodeStreams.eq_def] at decoded
    simp only [bind_eq_ok, ensure_eq_ok, Option.all_eq_true, Bool.not_eq_true',
      decide_eq_false_iff_not] at decoded
    obtain ⟨_, rises, later⟩ := decoded
    obtain ⟨streams, rfl, sorted, follows, written, rfl⟩ := ih (by omega) later
    have first : encodeStream (Fin.ofNat _ (readWord body entry), readWord body (entry + 8)) =
        slice body entry 16 := by
      rw [encodeStream, val_ofNat_readWord, word_readWord (by omega), word_readWord (by omega)]
      exact (slice_add body entry 8 8).symm
    refine ⟨(Fin.ofNat _ (readWord body entry), readWord body (entry + 8)) :: streams, rfl,
      List.pairwise_cons.mpr ⟨follows _ rfl, sorted⟩, ?_, ?_, rfl⟩
    · intro value same stream member
      have head := Fin.not_le.mp (rises value same)
      rcases List.mem_cons.mp member with rfl | tail
      · exact head
      · exact Nat.lt_trans head (follows _ rfl stream tail)
    · rw [List.flatMap_cons, first, written, ← slice_add]
      congr 1
      omega

/-! ### Segments -/

theorem decodeLifecycle_eq_ok {fixed : Bytes} {lifecycle : SegmentLifecycle}
    (inside : 40 ≤ fixed.length) (decoded : decodeLifecycle fixed segmentId active = .ok lifecycle)
    : lifecycleWords lifecycle = slice fixed 8 32 := by
  have joined : slice fixed 8 32 = word (readWord fixed 8) ++ (word (readWord fixed 16) ++
      (word (readWord fixed 24) ++ word (readWord fixed 32))) := by
    rw [word_readWord (by omega), word_readWord (by omega), word_readWord (by omega),
      word_readWord (by omega), ← slice_add fixed 24, ← slice_add fixed 16, ← slice_add fixed 8]
  rw [joined]
  unfold decodeLifecycle at decoded
  split at decoded
  · rename_i tag
    simp only [bind_eq_ok, ensure_eq_ok, pure_eq_ok, Bool.and_eq_true,
      decide_eq_true_eq] at decoded
    obtain ⟨_, ⟨⟨bytes, count⟩, digest⟩, _, -, rfl⟩ := decoded
    rw [tag, bytes, count, digest, lifecycleWords]
  · split at decoded
    · rename_i tag
      simp only [bind_eq_ok, pure_eq_ok] at decoded
      obtain ⟨_, -, rfl⟩ := decoded
      rw [tag, lifecycleWords]
    · cases decoded

theorem decodeReleases_eq_ok {encoding unitCount unitsEnd : Nat} {releases : ReleaseEncoding}
    (fits : unitCount ≤ wordMax)
    (decoded : decodeReleases body offset encoding unitCount = .ok (releases, unitsEnd)) :
    offset ≤ unitsEnd ∧ unitsEnd ≤ body.length ∧
      unitWords releases = .ok (word encoding ++ word unitCount) ∧
      unitBytes releases = slice body offset (unitsEnd - offset) := by
  unfold decodeReleases at decoded
  split at decoded
  · rename_i tag
    simp only [bind_eq_ok, orError_eq_ok, checkedMul_eq_some, checkedAdd_eq_some,
      ensure_eq_ok, decide_eq_true_eq, pure_eq_ok, Prod.mk.injEq] at decoded
    obtain ⟨_, ⟨rfl, -⟩, finish, ⟨rfl, -⟩, _, inside, rfl, rfl⟩ := decoded
    have length : (readEntries 16 SequenceRange.readAt body offset unitCount).length = unitCount := by
      simp [readEntries]
    refine ⟨by omega, inside, ?_, ?_⟩
    · simp [unitWords, length, toWord_of_le fits, tag]
    · rw [unitBytes, flatMap_readEntries SequenceRange.readAt, Nat.add_sub_cancel_left]
      intro index below
      have room : (index + 1) * 16 ≤ unitCount * 16 := Nat.mul_le_mul_right 16 below
      exact SequenceRange.encode_readAt (by omega)
  · split at decoded
    · rename_i tag
      simp only [bind_eq_ok, orError_eq_ok, checkedMul_eq_some, checkedAdd_eq_some,
        ensure_eq_ok, decide_eq_true_eq, pure_eq_ok, Prod.mk.injEq] at decoded
      obtain ⟨_, ⟨rfl, -⟩, finish, ⟨rfl, -⟩, _, inside, rfl, rfl⟩ := decoded
      have length : (readEntries 8 (fun bytes entry => BitVec.ofNat 64 (readWord bytes entry)) body
          offset unitCount).length = unitCount := by
        simp [readEntries]
      refine ⟨by omega, inside, ?_, ?_⟩
      · simp [unitWords, length, toWord_of_le fits, tag]
      · rw [unitBytes, flatMap_readEntries, Nat.add_sub_cancel_left]
        intro index below
        have room : (index + 1) * 8 ≤ unitCount * 8 := Nat.mul_le_mul_right 8 below
        have bound := readWord_le body (offset + index * 8)
        have same : (BitVec.ofNat 64 (readWord body (offset + index * 8))).toNat =
            readWord body (offset + index * 8) := by
          rw [BitVec.toNat_ofNat]
          exact Nat.mod_eq_of_lt (Nat.lt_succ_of_le bound)
        rw [same, word_readWord (by omega)]
    · cases decoded

/-- **An accepted segment entry is the encoding of what it was read as.** -/
theorem decodeSegment_eq_ok {previous : Option Nat} {decoded : DecodedSegment}
    (read : decodeSegment body offset previous active = .ok decoded) :
    offset ≤ decoded.offset ∧ decoded.offset ≤ body.length ∧
      (∀ value, previous = some value → value < decoded.segmentId) ∧
      encodeSegment decoded.segmentId decoded.segment =
        .ok (slice body offset (decoded.offset - offset)) := by
  simp only [decodeSegment, bind_eq_ok, orError_eq_ok, checkedAdd_eq_some,
    ensure_eq_ok, decide_eq_true_eq, Option.all_eq_true, Bool.not_eq_true',
    decide_eq_false_iff_not, pure_eq_ok, Prod.exists] at read
  obtain ⟨_, ⟨rfl, -⟩, _, inside, _, -, _, rises, lifecycle, isLifecycle, _, -, _, -, releases,
    unitsEnd, units, released, canonical, _, counted, rfl⟩ := read
  have sized : (slice body offset 72).length = 72 := slice_length inside
  have readAt : ∀ start, start + 8 ≤ 72 →
      word (readWord (slice body offset 72) start) = slice body (offset + start) 8 := by
    intro start room
    rw [word_readWord (by omega), slice_slice room]
  obtain ⟨after, within, words, bytes⟩ := decodeReleases_eq_ok (readWord_le _ _) units
  refine ⟨by simp only; omega, within, fun value same => Nat.not_le.mp (rises value same), ?_⟩
  refine encodeSegment_eq_ok.mpr ⟨released, _,
    (ReleaseEncoding.validateCanonical_eq_ok canonical).2.1, words, ?_⟩
  simp only [counted, bytes, readAt, Nat.reduceAdd, Nat.reduceLeDiff]
  rw [decodeLifecycle_eq_ok (by omega) isLifecycle, slice_slice (by omega)]
  have span : unitsEnd - offset = 8 + (32 + (8 + (8 + (8 + (8 + (unitsEnd - (offset + 72))))))) := by
    omega
  rw [span]
  simp only [slice_add, List.append_assoc, Nat.add_assoc, Nat.reduceAdd, Nat.add_zero]

theorem decodeSegments_eq_ok {table final : SegmentTable} (inside : table.offset ≤ body.length)
    (decoded : decodeSegments body count table = .ok final) :
    ∃ (segments : List (Nat × CheckpointSegment)) (entries : List Bytes), segments.length = count ∧
      table.offset ≤ final.offset ∧ final.offset ≤ body.length ∧
      segments.Pairwise (fun left right => left.1 < right.1) ∧
      (∀ value, table.previous = some value → ∀ segment ∈ segments, value < segment.1) ∧
      tryMap (fun entry => encodeSegment entry.1 entry.2) segments = .ok entries ∧
      entries.flatten = slice body table.offset (final.offset - table.offset) ∧
      final.segments = segments.foldl (fun map entry => map.insert entry.1 entry.2)
        table.segments := by
  induction count generalizing table with
  | zero =>
    cases decoded
    exact ⟨[], [], rfl, Nat.le_refl _, inside, .nil, by simp, rfl, by simp [slice], rfl⟩
  | succ count ih =>
    rw [decodeSegments.eq_def] at decoded
    simp only [bind_eq_ok] at decoded
    obtain ⟨entry, read, later⟩ := decoded
    obtain ⟨after, within, rises, encoded⟩ := decodeSegment_eq_ok read
    obtain ⟨segments, entries, rfl, onward, bounded, sorted, follows, mapped, written, map⟩ :=
      ih within later
    simp only at onward written follows map
    refine ⟨(entry.segmentId, entry.segment) :: segments,
      slice body table.offset (entry.offset - table.offset) :: entries, rfl, by omega, bounded,
      List.pairwise_cons.mpr ⟨follows _ rfl, sorted⟩, ?_, ?_, ?_, map⟩
    · intro value same segment member
      have head := rises value same
      rcases List.mem_cons.mp member with rfl | tail
      · exact head
      · exact Nat.lt_trans head (follows _ rfl segment tail)
    · rw [tryMap, encoded, ok_bind, mapped]
      rfl
    · have span : final.offset - table.offset =
          (entry.offset - table.offset) + (final.offset - entry.offset) := by omega
      rw [List.flatten_cons, written, span, slice_add]
      congr 2
      omega

/-! ### Checkpoints -/

theorem decodeBody_eq_ok {rootId : RootId} {lastAppliedSeq : Nat}
    (decoded : decodeBody rootId lastAppliedSeq body = .ok checkpoint) :
    checkpoint.rootId = rootId ∧ checkpoint.lastAppliedSeq = lastAppliedSeq ∧
      checkpoint.validate = .ok () ∧ checkpoint.streamHighwaters.toList.length ≤ wordMax ∧
      checkpoint.segments.toList.length ≤ wordMax ∧
      ∃ entries, tryMap (fun entry => encodeSegment entry.1 entry.2)
          checkpoint.segments.toList = .ok entries ∧ bodyOf checkpoint entries = body := by
  simp only [decodeBody, bind_eq_ok, orError_eq_ok, checkedMul_eq_some,
    checkedAdd_eq_some, ensure_eq_ok, decide_eq_true_eq, pure_eq_ok] at decoded
  obtain ⟨_, prefixed, _, ⟨rfl, -⟩, _, ⟨rfl, -⟩, _, inside, highwaters, isHighwaters, table, isTable,
    _, whole, _, -, _, -, _, valid, rfl⟩ := decoded
  obtain ⟨streams, streamCount, streamsSorted, -, streamsWritten, rfl⟩ :=
    decodeStreams_eq_ok inside isHighwaters
  obtain ⟨segments, entries, segmentCount, onward, -, segmentsSorted, -, encoded, segmentsWritten,
    map⟩ := decodeSegments_eq_ok inside isTable
  have streamList := Maps.toList_foldl_insert Maps.toList_sorted_fin streamsSorted
  have segmentList := Maps.toList_foldl_insert Maps.toList_sorted segmentsSorted
  rw [← map] at segmentList
  refine ⟨rfl, rfl, valid, ?_, ?_, entries, by simp only [segmentList]; exact encoded, ?_⟩
  · rw [streamList, streamCount]
    exact readWord_le _ _
  · rw [segmentList, segmentCount]
    exact readWord_le _ _
  simp only [bodyOf, streamList, segmentList, streamCount, segmentCount, streamsWritten,
    segmentsWritten, whole]
  rw [word_readWord (by omega), word_readWord (by omega), word_readWord (by omega)]
  simp only at onward
  have span : body.length = 8 + (8 + (8 + (readWord body 8 * 16 +
      (body.length - (24 + readWord body 8 * 16))))) := by omega
  conv_rhs => rw [← slice_all (rfl : body.length = body.length), span]
  simp only [slice_add, Nat.reduceAdd, Nat.zero_add]

/-- A header with the right magic and checksum is the one of its fields. -/
theorem decodeHeader_eq {header : Bytes} (sized : header.length = checkpointHeaderLen)
    (magic : slice header 0 8 = checkpointMagic) (matched : checksumMatches header 48 = true) :
    withChecksum (checkpointMagic ++ ((RootId.fromSlice header 8).bytes ++ (word (readWord header 24) ++
      (word (readWord header 32) ++ word (readWord header 40))))) = header := by
  have long : header.length = 56 := sized
  have fields : checkpointMagic ++ ((RootId.fromSlice header 8).bytes ++ (word (readWord header 24) ++
      (word (readWord header 32) ++ word (readWord header 40)))) = slice header 0 48 := by
    rw [← magic, RootId.bytes_fromSlice (by omega), word_readWord (by omega),
      word_readWord (by omega), word_readWord (by omega), ← slice_add header 32,
      ← slice_add header 24, ← slice_add header 8, ← slice_add header 0]
  exact withChecksum_fields fields matched (by omega)

/-- **An accepted byte string is the encoding of what it was read as.** -/
theorem encode_decode (decoded : decode bytes = .ok checkpoint) :
    checkpoint.encode = .ok bytes := by
  simp only [decode, bind_eq_ok, orError_eq_ok, checkedAdd_eq_some,
    ensure_eq_ok, decide_eq_true_eq] at decoded
  obtain ⟨_, long, _, magic, _, matched, _, ⟨rfl, short⟩, _, length, _, bodySum, body⟩ := decoded
  obtain ⟨rootId, lastAppliedSeq, valid, streams, segments, entries, encoded, written⟩ :=
    decodeBody_eq_ok body
  have sized : (slice bytes 0 checkpointHeaderLen).length = checkpointHeaderLen :=
    slice_length (by omega)
  have bodyLength : (bytes.drop checkpointHeaderLen).length =
      readWord (slice bytes 0 checkpointHeaderLen) 32 := by
    rw [List.length_drop]
    omega
  refine encode_eq_ok.mpr ⟨valid, streams, segments, entries, encoded, ?_, ?_⟩
  · rw [written, bodyLength]
    exact short
  · have header := decodeHeader_eq sized magic matched
    rw [written, rootId, lastAppliedSeq, encodeHeader, bodyLength, bodySum, header, slice,
      List.drop_zero, List.take_append_drop]

/-! ### Every valid checkpoint is encoded -/

/-- The bytes of a checkpoint's encoding. -/
def encodedLen (checkpoint : Checkpoint) : Nat :=
  checkpointHeaderLen + 24 + checkpoint.streamHighwaters.toList.length * 16 +
    (checkpoint.segments.toList.map fun entry => 72 + (unitBytes entry.2.releases).length).sum

theorem encodeSegment_total {segment : CheckpointSegment}
    (valid : validateSegment segmentId segment = .ok ()) :
    ∃ entry, encodeSegment segmentId segment = .ok entry ∧
      entry.length = 72 + (unitBytes segment.releases).length := by
  simp only [validateSegment, bind_eq_ok, pure_eq_ok] at valid
  obtain ⟨_, -, _, -, released, canonical, -⟩ := valid
  obtain ⟨-, counted, -, fits⟩ := ReleaseEncoding.validateCanonical_eq_ok canonical
  have units : ∃ words, unitWords segment.releases = .ok words := by
    cases shape : segment.releases with
    | ranges found =>
      rw [shape] at fits
      exact ⟨_, by simp [unitWords, toWord_of_le fits.1]; rfl⟩
    | bitmap words =>
      rw [shape] at fits
      exact ⟨_, by simp [unitWords, toWord_of_le (show words.length ≤ wordMax from fits)]; rfl⟩
  obtain ⟨words, encoded⟩ := units
  refine ⟨_, encodeSegment_eq_ok.mpr ⟨released, words, counted, encoded, rfl⟩, ?_⟩
  simp only [List.length_append, word_length, lifecycleWords_length, unitWords_length encoded]
  omega

theorem encodeSegments_total {segments : List (Nat × CheckpointSegment)}
    (valid : ∀ entry ∈ segments, validateSegment entry.1 entry.2 = .ok ()) :
    ∃ entries, tryMap (fun entry => encodeSegment entry.1 entry.2) segments = .ok entries ∧
      entries.flatten.length =
        (segments.map fun entry => 72 + (unitBytes entry.2.releases).length).sum := by
  induction segments with
  | nil => exact ⟨[], rfl, rfl⟩
  | cons first rest ih =>
    obtain ⟨entry, encoded, length⟩ := encodeSegment_total (valid first List.mem_cons_self)
    obtain ⟨entries, others, total⟩ := ih fun other member =>
      valid other (List.mem_cons_of_mem _ member)
    refine ⟨entry :: entries, ?_, ?_⟩
    · rw [tryMap, encoded, ok_bind, others]
      rfl
    · rw [List.flatten_cons, List.length_append, length, total, List.map_cons, List.sum_cons]

theorem bodyOf_length {entries : List Bytes} (valid : checkpoint.validate = .ok ())
    (encoded : tryMap (fun entry => encodeSegment entry.1 entry.2)
      checkpoint.segments.toList = .ok entries) :
    checkpointHeaderLen + (bodyOf checkpoint entries).length = checkpoint.encodedLen := by
  obtain ⟨others, othersEncoded, total⟩ := encodeSegments_total (validate_eq_ok.mp valid).2.2.2
  cases encoded.symm.trans othersEncoded
  have table : (checkpoint.streamHighwaters.toList.flatMap encodeStream).length =
      checkpoint.streamHighwaters.toList.length * 16 := flatMap_length encodeStream_length _
  simp only [bodyOf, encodedLen, List.length_append, word_length, table, total]
  omega

/-- Every encoding has that length. -/
theorem encode_length (encoded : checkpoint.encode = .ok bytes) :
    bytes.length = checkpoint.encodedLen := by
  obtain ⟨valid, -, -, entries, entriesEncoded, -, rfl⟩ := encode_eq_ok.mp encoded
  have length := bodyOf_length valid entriesEncoded
  have header : checkpointHeaderLen = 56 := rfl
  simp only [encodeHeader, List.length_append, withChecksum_length, word_length,
    checkpointMagic_length, RootId.bytes_length]
  omega

/-- **A valid checkpoint whose length is a word is encoded**, in that many bytes. -/
theorem encode_total (short : checkpoint.encodedLen ≤ wordMax)
    (valid : checkpoint.validate = .ok ()) :
    ∃ bytes, checkpoint.encode = .ok bytes ∧ bytes.length = checkpoint.encodedLen := by
  obtain ⟨entries, encoded, -⟩ := encodeSegments_total (validate_eq_ok.mp valid).2.2.2
  have length := bodyOf_length valid encoded
  have count : checkpoint.segments.toList.length ≤ (checkpoint.segments.toList.map
      fun entry => 72 + (unitBytes entry.2.releases).length).sum := by
    have each := List.card_nsmul_le_sum (checkpoint.segments.toList.map
      fun entry => 72 + (unitBytes entry.2.releases).length) 1 (by
        intro size member
        obtain ⟨entry, -, rfl⟩ := List.mem_map.mp member
        omega)
    simpa using each
  unfold encodedLen at short length
  have written := encode_eq_ok.mpr ⟨valid, by omega, by omega, entries, encoded, by omega, rfl⟩
  exact ⟨_, written, encode_length written⟩

/-- **The codec is a bijection** between the valid checkpoints and the accepted byte strings. -/
theorem codec_bijection :
    (∀ checkpoint : Checkpoint, checkpoint.encodedLen ≤ wordMax →
      ((∃ bytes, checkpoint.encode = .ok bytes) ↔ checkpoint.validate = .ok ())) ∧
    (∀ (checkpoint : Checkpoint) (bytes : Bytes), checkpoint.Representable →
      checkpoint.encode = .ok bytes → decode bytes = .ok checkpoint) ∧
    (∀ (bytes : Bytes) (checkpoint : Checkpoint), decode bytes = .ok checkpoint →
      checkpoint.encode = .ok bytes) ∧
    ∀ checkpoint : Checkpoint, checkpoint.Representable → checkpoint.encodedLen ≤ wordMax →
      checkpoint.validate = .ok () → ∃! bytes, decode bytes = .ok checkpoint := by
  refine ⟨fun checkpoint short => ⟨?_, fun valid => ?_⟩,
    fun checkpoint bytes fits encoded => decode_encode fits encoded,
    fun bytes checkpoint decoded => encode_decode decoded,
    fun checkpoint fits short valid => ?_⟩
  · rintro ⟨bytes, encoded⟩
    exact (encode_eq_ok.mp encoded).1
  · obtain ⟨bytes, encoded, -⟩ := encode_total short valid
    exact ⟨bytes, encoded⟩
  · obtain ⟨bytes, encoded, -⟩ := encode_total short valid
    refine ⟨bytes, decode_encode fits encoded, fun other decoded => ?_⟩
    exact Except.ok.inj ((encode_decode decoded).symm.trans encoded)

end

/-- A checkpoint of one stream and one active segment with two released records. -/
def sample : Checkpoint where
  rootId := .sample
  lastAppliedSeq := 3
  nextSegmentId := 1
  streamHighwaters := (∅ : Highwaters).insert 5 2
  segments := (∅ : ExtTreeMap Nat CheckpointSegment).insert 0 ⟨.active, 80, .ranges [⟨1, 2⟩]⟩

theorem sample_representable : sample.Representable where
  lastAppliedSeq := by decide
  nextSegmentId := by decide
  streamHighwaters := by decide +kernel
  segments := by
    have listed : sample.segments.toList = [(0, ⟨.active, 80, .ranges [⟨1, 2⟩]⟩)] := by
      decide +kernel
    rw [listed]
    intro entry member
    obtain rfl := List.mem_singleton.mp member
    exact ⟨by decide, by decide, fun footer shape => by cases shape⟩

theorem codec_bijection_sample :
    sample.validate = .ok () ∧ (∃ bytes, @encode Hasher.fnv sample = .ok bytes) ∧
      ∃! bytes, @decode Hasher.fnv bytes = .ok sample := by
  have valid : sample.validate = .ok () := by decide +kernel
  have short : sample.encodedLen ≤ wordMax := by decide +kernel
  obtain ⟨total, -, -, unique⟩ := @codec_bijection Hasher.fnv
  exact ⟨valid, (total sample short).mpr valid, unique sample sample_representable short valid⟩

end Checkpoint

end Camus
