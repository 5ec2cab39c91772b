/-
**Records read in spans are the records read one by one.**

A read fetches its records span by span: `contiguousRecordSpan` joins records that follow
each other without a gap, up to a bound, and the fields of every record are then sliced out of the
bytes of its span.

* `recordSpans` — the spans that the loop of `readSpans` forms, in the order in which it reads them.
* `recordSpans_spec` — the spans hold the records in their order, none is empty, each covers exactly
  the bytes of its records, and one that holds several records is at most 1 MiB long.
* `readRecord_span` — a record sliced out of any span that contains it is the record read at its own
  place in the file.
* `coalesced_read_exact` — the coalesced read succeeds exactly when every record can be read alone,
  and then returns those records.
-/
import Camus.Storage.Segment

set_option linter.unusedSectionVars false

namespace Camus

open Codec Checked Disk FaultIo Result

variable {start spanStart fuel spanLen : Nat}

/-- The offset after the last byte of a record. -/
def StoredRecord.finish (record : StoredRecord) : Nat := record.payloadOffset + record.payloadLen

/-- The offsets of a record are those of the layout: descriptor, metadata, payload. -/
def StoredRecord.Canonical (record : StoredRecord) : Prop :=
  record.metadataOffset = record.descriptorOffset + recordDescriptorLen ∧
    record.payloadOffset = record.metadataOffset + record.metadataLen

instance (record : StoredRecord) : Decidable record.Canonical :=
  inferInstanceAs (Decidable (_ ∧ _))

theorem StoredRecord.Canonical.starts_le {record : StoredRecord} (canonical : record.Canonical) :
    record.descriptorOffset ≤ record.finish := by
  obtain ⟨metadataAt, payloadAt⟩ := canonical
  unfold StoredRecord.finish
  omega

/-- The records follow each other from one offset to another, without a gap or an overlap. -/
def Tiles : Nat → Nat → List StoredRecord → Prop
  | start, finish, [] => start = finish
  | start, finish, record :: rest =>
    record.descriptorOffset = start ∧ record.Canonical ∧ Tiles record.finish finish rest

theorem Tiles.le {records : List StoredRecord} {finish : Nat} (tiles : Tiles start finish records) :
    start ≤ finish := by
  induction records generalizing start with
  | nil => exact Nat.le_of_eq tiles
  | cons record rest ih =>
    obtain ⟨rfl, canonical, others⟩ := tiles
    exact Nat.le_trans canonical.starts_le (ih others)

/-- A record of a tiling lies inside it. -/
theorem Tiles.inside {records : List StoredRecord} {finish : Nat}
    (tiles : Tiles start finish records) {record : StoredRecord} (member : record ∈ records) :
    start ≤ record.descriptorOffset ∧ record.finish ≤ finish := by
  induction records generalizing start with
  | nil => cases member
  | cons first rest ih =>
    obtain ⟨rfl, canonical, others⟩ := tiles
    rcases List.mem_cons.mp member with rfl | later
    · exact ⟨Nat.le_refl _, others.le⟩
    · exact ⟨Nat.le_trans canonical.starts_le (ih others later).1, (ih others later).2⟩

theorem Tiles.canonical {records : List StoredRecord} {finish : Nat}
    (tiles : Tiles start finish records) {record : StoredRecord} (member : record ∈ records) :
    record.Canonical := by
  induction records generalizing start with
  | nil => cases member
  | cons first rest ih =>
    rcases List.mem_cons.mp member with rfl | later
    · exact tiles.2.1
    · exact ih tiles.2.2 later

/-! ### Forming the spans -/

section Forming

variable (path : Artifact)

theorem recordEnd_of_canonical {record : StoredRecord} (canonical : record.Canonical)
    (fits : record.finish ≤ wordMax) : recordEnd path record = .ok record.finish := by
  obtain ⟨metadataAt, payloadAt⟩ := canonical
  have ends : record.finish = record.descriptorOffset + recordDescriptorLen + record.metadataLen +
      record.payloadLen := by
    rw [StoredRecord.finish, payloadAt, metadataAt]
  have metadataFits : checkedAdd record.descriptorOffset recordDescriptorLen =
      some record.metadataOffset := checkedAdd_eq_some.mpr ⟨metadataAt.symm, by omega⟩
  have payloadFits : checkedAdd record.metadataOffset record.metadataLen =
      some record.payloadOffset := checkedAdd_eq_some.mpr ⟨payloadAt.symm, by omega⟩
  have endFits : checkedAdd record.payloadOffset record.payloadLen = some record.finish :=
    checkedAdd_eq_some.mpr ⟨rfl, by unfold StoredRecord.finish at fits; omega⟩
  unfold recordEnd
  simp only [metadataFits, payloadFits, endFits, orError_some, ok_bind,
    ensure_bind_of_true, decide_true]

/-- Extending a span adds records without a gap, and keeps to the bound when it adds any. -/
theorem extendSpan_spec (maxBytes : Nat) {rest : List StoredRecord}
    (canonical : ∀ record ∈ rest, record.Canonical ∧ record.finish ≤ wordMax) (count spanEnd : Nat)
    (starts : spanStart ≤ spanEnd) :
    ∃ more finish, extendSpan path spanStart maxBytes count spanEnd rest = .ok (count + more, finish) ∧
      Tiles spanEnd finish (rest.take more) ∧ (more = 0 ∨ finish - spanStart ≤ maxBytes) := by
  induction rest generalizing count spanEnd with
  | nil => exact ⟨0, spanEnd, rfl, rfl, .inl rfl⟩
  | cons record rest ih =>
    have stops : ∃ more finish, (Except.ok (count, spanEnd) : Except Error (Nat × Nat)) =
        .ok (count + more, finish) ∧ Tiles spanEnd finish ((record :: rest).take more) ∧
        (more = 0 ∨ finish - spanStart ≤ maxBytes) := ⟨0, spanEnd, rfl, rfl, .inl rfl⟩
    obtain ⟨layout, fits⟩ := canonical record List.mem_cons_self
    unfold extendSpan
    by_cases gap : record.descriptorOffset ≠ spanEnd
    · rw [if_pos gap]
      exact stops
    rw [if_neg gap]
    have follows : record.descriptorOffset = spanEnd := Decidable.not_not.mp gap
    have after : spanStart ≤ record.finish :=
      Nat.le_trans (Nat.le_trans starts (Nat.le_of_eq follows.symm)) layout.starts_le
    have projected : checkedSub record.finish spanStart = some (record.finish - spanStart) :=
      checkedSub_eq_some.mpr (by omega)
    simp only [recordEnd_of_canonical path layout fits, projected, orError_some, ok_bind]
    by_cases tooLong : maxBytes < record.finish - spanStart
    · rw [if_pos tooLong]
      exact stops
    rw [if_neg tooLong]
    obtain ⟨more, finish, extended, tiles, bounded⟩ :=
      ih (fun other member => canonical other (List.mem_cons_of_mem _ member)) (count + 1)
        record.finish after
    refine ⟨more + 1, finish, ?_, ⟨follows, layout, tiles⟩, .inr ?_⟩
    · rw [extended, Nat.add_assoc, Nat.add_comm 1 more]
    · rcases bounded with rfl | bounded
      · have ended : record.finish = finish := tiles
        omega
      · exact bounded

/-- The records of a span and the bytes it covers. -/
structure RecordSpan where
  records : List StoredRecord
  start : Nat
  finish : Nat

/-- What the loop may rely on for a span: it holds a record, covers exactly the bytes of its
records, and joins several of them only within the bound. -/
structure RecordSpan.WellFormed (span : RecordSpan) : Prop where
  nonempty : span.records ≠ []
  tiles : Tiles span.start span.finish span.records
  bounded : span.finish - span.start ≤ maxCoalescedReadBytes ∨ span.records.length = 1

/-- The spans that `readSpans` forms. -/
def recordSpans (path : Artifact) : Nat → List StoredRecord → Except Error (List RecordSpan)
  | 0, _ => .ok []
  | _ + 1, [] => .ok []
  | fuel + 1, first :: rest => do
    let (more, spanEnd) ← contiguousRecordSpan path first rest maxCoalescedReadBytes
    let others ← recordSpans path fuel (rest.drop more)
    return { records := first :: rest.take more, start := first.descriptorOffset,
             finish := spanEnd } :: others

theorem contiguousRecordSpan_spec {first : StoredRecord} {rest : List StoredRecord}
    (canonical : ∀ record ∈ first :: rest, record.Canonical ∧ record.finish ≤ wordMax) :
    ∃ more finish,
      contiguousRecordSpan path first rest maxCoalescedReadBytes = .ok (more, finish) ∧
      RecordSpan.WellFormed ⟨first :: rest.take more, first.descriptorOffset, finish⟩ := by
  obtain ⟨layout, fits⟩ := canonical first List.mem_cons_self
  obtain ⟨more, finish, extended, tiles, bounded⟩ :=
    extendSpan_spec path maxCoalescedReadBytes
      (fun record member => canonical record (List.mem_cons_of_mem _ member)) 0 first.finish
      layout.starts_le
  refine ⟨more, finish, ?_, List.cons_ne_nil _ _, ⟨rfl, layout, tiles⟩, ?_⟩
  · unfold contiguousRecordSpan
    rw [recordEnd_of_canonical path layout fits, ok_bind, extended, Nat.zero_add]
  · rcases bounded with rfl | bounded
    · exact .inr rfl
    · exact .inl bounded

/-- **The spans partition the records.** As many rounds as there are records are enough: every round
takes at least one of them. -/
theorem recordSpans_spec {records : List StoredRecord} (enough : records.length ≤ fuel)
    (canonical : ∀ record ∈ records, record.Canonical ∧ record.finish ≤ wordMax) :
    ∃ spans, recordSpans path fuel records = .ok spans ∧
      spans.flatMap RecordSpan.records = records ∧ ∀ span ∈ spans, span.WellFormed := by
  induction fuel generalizing records with
  | zero =>
    rw [List.eq_nil_of_length_eq_zero (Nat.le_zero.mp enough)]
    exact ⟨[], rfl, rfl, by simp⟩
  | succ fuel ih =>
    cases records with
    | nil => exact ⟨[], rfl, rfl, by simp⟩
    | cons first rest =>
      obtain ⟨more, finish, formed, wellFormed⟩ := contiguousRecordSpan_spec path canonical
      have fewer : (rest.drop more).length ≤ fuel := by
        rw [List.length_drop]
        rw [List.length_cons] at enough
        omega
      obtain ⟨spans, others, joined, each⟩ := ih fewer fun record member =>
        canonical record (List.mem_cons_of_mem _ (List.mem_of_mem_drop member))
      refine ⟨_ :: spans, ?_, ?_, List.forall_mem_cons.mpr ⟨wellFormed, each⟩⟩
      · rw [recordSpans, formed, ok_bind]
        simp only [others, ok_bind]
        rfl
      · rw [List.flatMap_cons, joined, List.cons_append, List.take_append_drop]

end Forming

/-! ### Reading a record out of a span -/

section Reading

variable [Hasher] {path : Artifact} {rootId : RootId} {file : Nat} {fs : Fs}

theorem spanRange_of_inside {offset length : Nat} {name : String} (starts : spanStart ≤ offset)
    (ends : offset + length ≤ spanStart + spanLen) (fits : offset + length ≤ wordMax) :
    spanRange path spanStart spanLen offset length name = .ok (offset - spanStart) := by
  have relative : checkedSub offset spanStart = some (offset - spanStart) :=
    checkedSub_eq_some.mpr (by omega)
  have finish : checkedAdd (offset - spanStart) length = some (offset - spanStart + length) :=
    checkedAdd_eq_some.mpr ⟨rfl, by omega⟩
  unfold spanRange
  simp only [relative, finish, orError_some, ok_bind]
  rw [ensure_bind_of_true (decide_eq_true (by omega))]
  rfl

/-- **A record read out of a span is the record read at its own place.** The span only has to
contain it. -/
theorem readRecord_span {content : Bytes} {record : StoredRecord} (canonical : record.Canonical)
    (starts : spanStart ≤ record.descriptorOffset) (ends : record.finish ≤ spanStart + spanLen)
    (inside : spanStart + spanLen ≤ content.length) (fits : content.length ≤ wordMax) :
    readRecord path rootId spanStart (slice content spanStart spanLen) record =
      readRecord path rootId 0 content record := by
  obtain ⟨metadataAt, payloadAt⟩ := canonical
  unfold StoredRecord.finish at ends
  -- A field of the record is found in the span and in the file, and holds the same bytes in both.
  have place : ∀ (offset length : Nat) (name : String), record.descriptorOffset ≤ offset →
      offset + length ≤ record.payloadOffset + record.payloadLen →
      spanRange path spanStart spanLen offset length name = .ok (offset - spanStart) ∧
      spanRange path 0 content.length offset length name = .ok offset ∧
      slice (slice content spanStart spanLen) (offset - spanStart) length =
        slice content offset length := by
    intro offset length name after before
    refine ⟨spanRange_of_inside (by omega) (by omega) (by omega), ?_, ?_⟩
    · exact spanRange_of_inside (Nat.zero_le _) (by omega) (by omega)
    · rw [slice_slice (by omega), Nat.add_sub_cancel' (by omega)]
  obtain ⟨descriptorSpan, descriptorFile, descriptorBytes⟩ := place record.descriptorOffset
    recordDescriptorLen "record descriptor" (by omega) (by omega)
  obtain ⟨metadataSpan, metadataFile, metadataBytes⟩ := place record.metadataOffset
    record.metadataLen "record metadata" (by omega) (by omega)
  obtain ⟨payloadSpan, payloadFile, payloadBytes⟩ := place record.payloadOffset
    record.payloadLen "record payload" (by omega) (by omega)
  unfold readRecord
  rw [slice_length inside]
  simp only [descriptorSpan, descriptorFile, descriptorBytes, metadataSpan, metadataFile,
    metadataBytes, payloadSpan, payloadFile, payloadBytes, ok_bind]

theorem completes_readSpan (inside : spanStart + spanLen ≤ (fs.content file).length) :
    Completes (readSpan file path spanStart spanLen) fs (slice (fs.content file) spanStart spanLen)
      fs := by
  refine completes_bind completes_read (completes_bind (completes_require ?_)
    (completes_bind (completes_observe _) (completes_result _)))
  rw [decide_eq_true inside, Bool.or_true]

/-- A bound above the number of records does not matter: every round takes a record. -/
theorem readSpans_fuel {other : Nat} {records : List StoredRecord} (enough : records.length ≤ fuel)
    (alsoEnough : records.length ≤ other) :
    readSpans file path rootId fuel records = readSpans file path rootId other records := by
  induction fuel generalizing other records with
  | zero =>
    rw [List.eq_nil_of_length_eq_zero (Nat.le_zero.mp enough)]
    cases other <;> rfl
  | succ fuel ih =>
    cases records with
    | nil => cases other <;> rfl
    | cons first rest =>
      rw [List.length_cons] at enough alsoEnough
      obtain ⟨other, rfl⟩ : ∃ fewer, other = fewer + 1 := ⟨other - 1, by omega⟩
      have later : ∀ more, readSpans file path rootId fuel (rest.drop more) =
          readSpans file path rootId other (rest.drop more) := by
        intro more
        apply ih <;> rw [List.length_drop] <;> omega
      simp only [readSpans, later]

/-- The records of one span, read out of its bytes, are the records read at their own places. -/
theorem tryMap_readRecord_span {span : RecordSpan} (wellFormed : span.WellFormed)
    (inside : span.finish ≤ (fs.content file).length) (fits : (fs.content file).length ≤ wordMax) :
    tryMap (readRecord path rootId span.start
        (slice (fs.content file) span.start (span.finish - span.start))) span.records =
      tryMap (readRecord path rootId 0 (fs.content file)) span.records := by
  have ordered := wellFormed.tiles.le
  refine tryMap_congr fun record member => ?_
  obtain ⟨starts, ends⟩ := wellFormed.tiles.inside member
  exact readRecord_span (wellFormed.tiles.canonical member) starts (by omega) (by omega) fits

/-- The rounds of `readSpans` together read the records of the spans, each at its own place. -/
theorem completes_readSpans {records : List StoredRecord} {spans : List RecordSpan}
    {found : List PendingRecord} (formed : recordSpans path fuel records = .ok spans)
    (wellFormed : ∀ span ∈ spans, span.WellFormed ∧ span.finish ≤ (fs.content file).length)
    (fits : (fs.content file).length ≤ wordMax) :
    Completes (readSpans file path rootId fuel records) fs found fs ↔
      tryMap (readRecord path rootId 0 (fs.content file))
        (spans.flatMap RecordSpan.records) = .ok found := by
  have nothing : ∀ {found : List PendingRecord}, Completes (result [] : FsIo (List PendingRecord)) fs
      found fs ↔ (Except.ok [] : Except Error (List PendingRecord)) = .ok found := by
    intro found
    refine ⟨fun completes => ?_, fun equal => by cases equal; exact completes_result _⟩
    rw [(completes.unique (completes_result _)).1]
  induction fuel generalizing records spans found with
  | zero =>
    cases formed
    exact nothing
  | succ fuel ih =>
    cases records with
    | nil =>
      cases formed
      exact nothing
    | cons first rest =>
      simp only [recordSpans, bind_eq_ok, pure_eq_ok] at formed
      obtain ⟨⟨more, spanEnd⟩, spanned, others, formedOthers, rfl⟩ := formed
      obtain ⟨⟨ofFirst, inside⟩, ofOthers⟩ := List.forall_mem_cons.mp wellFormed
      have ordered : first.descriptorOffset ≤ spanEnd := ofFirst.tiles.le
      have length : checkedSub spanEnd first.descriptorOffset =
          some (spanEnd - first.descriptorOffset) := checkedSub_eq_some.mpr (by omega)
      have same : tryMap (readRecord path rootId first.descriptorOffset (slice (fs.content file)
          first.descriptorOffset (spanEnd - first.descriptorOffset))) (first :: rest.take more) = _ :=
        tryMap_readRecord_span ofFirst inside fits
      have covered : first.descriptorOffset + (spanEnd - first.descriptorOffset) ≤
          (fs.content file).length := by
        rw [Nat.add_sub_cancel' ordered]
        exact inside
      rw [List.flatMap_cons, tryMap_append_eq_ok]
      unfold readSpans
      rw [completes_bind_iff (completes_ofExcept spanned)]
      show Completes (ofOption _ (checkedSub spanEnd first.descriptorOffset) >>= _) fs found fs ↔ _
      rw [completes_bind_iff (completes_ofOption length),
        completes_bind_iff (completes_readSpan covered)]
      constructor
      · intro completes
        obtain ⟨part, _, ofSpan, tail⟩ := completes.bind
        obtain ⟨mapped, rfl⟩ := completes_ofExcept_iff.mp ofSpan
        obtain ⟨remaining, _, later, joined⟩ := tail.bind
        obtain ⟨rfl, rfl⟩ := joined.unique (completes_result _)
        exact ⟨part, remaining, same.symm.trans mapped, (ih formedOthers ofOthers).mp later, rfl⟩
      · rintro ⟨part, remaining, mapped, later, rfl⟩
        exact completes_bind (completes_ofExcept (same.trans mapped))
          (completes_bind ((ih formedOthers ofOthers).mpr later) (completes_result _))

/-- A span ends where one of its records ends. -/
theorem Tiles.exists_finish {records : List StoredRecord} {finish : Nat}
    (tiles : Tiles start finish records) (nonempty : records ≠ []) :
    ∃ record ∈ records, record.finish = finish := by
  induction records generalizing start with
  | nil => exact absurd rfl nonempty
  | cons first rest ih =>
    by_cases single : rest = []
    · subst single
      exact ⟨first, List.mem_cons_self, tiles.2.2⟩
    · obtain ⟨record, member, ends⟩ := ih tiles.2.2 single
      exact ⟨record, List.mem_cons_of_mem _ member, ends⟩

/-- The coalesced read reads every record at its own place. -/
theorem completes_readRecords {segment : Segment} {records : List StoredRecord}
    {found : List PendingRecord} (fits : (fs.content segment.file).length ≤ wordMax)
    (inside : ∀ record ∈ records,
      record.Canonical ∧ record.finish ≤ (fs.content segment.file).length) :
    Completes (segment.readRecords rootId records) fs found fs ↔
      tryMap (readRecord segment.path rootId 0 (fs.content segment.file)) records =
        .ok found := by
  obtain ⟨spans, formed, joined, wellFormed⟩ := recordSpans_spec segment.path (Nat.le_refl _)
    fun record member => ⟨(inside record member).1, Nat.le_trans (inside record member).2 fits⟩
  have eachInside : ∀ span ∈ spans, span.finish ≤ (fs.content segment.file).length := by
    intro span member
    obtain ⟨record, held, ends⟩ := (wellFormed span member).tiles.exists_finish
      (wellFormed span member).nonempty
    rw [← ends]
    exact (inside record (joined ▸ List.mem_flatMap.mpr ⟨span, member, held⟩)).2
  unfold Segment.readRecords
  rw [completes_readSpans formed
    (fun span member => ⟨wellFormed span member, eachInside span member⟩) fits, joined]

/-- **Coalesced reading equals record-by-record reading.** For records with canonical offsets that
lie inside the file of a segment, in any order, the coalesced read returns a list exactly when every
record can be read and verified by a read of its own, and then it is the list of those records. The
spans it forms hold the records in their order, are not empty, cover exactly the bytes of their
records and are at most 1 MiB long unless they hold a single record; the bound on the rounds of the
loop is never what ends it. -/
theorem coalesced_read_exact (segment : Segment) (records : List StoredRecord)
    (fits : (fs.content segment.file).length ≤ wordMax)
    (inside : ∀ record ∈ records,
      record.Canonical ∧ record.finish ≤ (fs.content segment.file).length) :
    (∀ found, Completes (segment.readRecords rootId records) fs found fs ↔
      List.Forall₂ (fun record alone =>
        Completes (segment.readRecords rootId [record]) fs [alone] fs) records found) ∧
    (∀ fuel, records.length ≤ fuel → readSpans segment.file segment.path rootId fuel records =
      segment.readRecords rootId records) ∧
    ∃ spans, recordSpans segment.path records.length records = .ok spans ∧
      spans.flatMap RecordSpan.records = records ∧ ∀ span ∈ spans, span.WellFormed := by
  obtain ⟨spans, formed, joined, wellFormed⟩ := recordSpans_spec segment.path (Nat.le_refl _)
    fun record member => ⟨(inside record member).1, Nat.le_trans (inside record member).2 fits⟩
  refine ⟨fun found => ?_, fun fuel enough => readSpans_fuel enough (Nat.le_refl _),
    spans, formed, joined, wellFormed⟩
  rw [completes_readRecords fits inside]
  refine tryMap_eq_ok_iff fun record member pending => ?_
  rw [completes_readRecords fits (List.forall_mem_singleton.mpr (inside record member)),
    tryMap_cons_eq_ok]
  constructor
  · intro alone
    exact ⟨pending, [], alone, rfl, rfl⟩
  · rintro ⟨_, _, alone, -, single⟩
    cases single
    exact alone

end Reading

namespace CoalescedSample

/-- A record of a file, with the descriptor that is written before it. -/
def stored (offset sequence : Nat) (metadata payload : Bytes) : StoredRecord where
  streamId := 1
  sequence := sequence
  descriptorOffset := offset
  metadataOffset := offset + 40
  metadataLen := metadata.length
  metadataChecksum := @checksum Hasher.fnv metadata
  payloadOffset := offset + 40 + metadata.length
  payloadLen := payload.length
  payloadChecksum := @checksum Hasher.fnv payload
  released := false

def written (metadata payload : Bytes) : Bytes :=
  @RecordDescriptor.encode Hasher.fnv ⟨metadata.length, payload.length,
    @checksum Hasher.fnv metadata, @checksum Hasher.fnv payload⟩ ++ metadata ++ payload

def fs : Fs where
  nodes := [⟨written [1] [2, 3] ++ written [] [4], []⟩]
  root := .empty
  segments := .empty

def rootId : RootId := ⟨List.replicate 16 1, List.length_replicate⟩

def segment : Segment where
  id := 1
  file := 0
  header := ⟨rootId, 1, 0⟩
  headerBytes := []
  fileLen := 84
  records := []
  uniqueStreams := 1
  unreleasedRecords := 2
  epochs := []
  footer := none
  repairedTail := false

def records : List StoredRecord := [stored 0 1 [1] [2, 3], stored 43 2 [] [4]]

def found : List PendingRecord := [⟨⟨rootId, 1, 1⟩, [1], [2, 3]⟩, ⟨⟨rootId, 1, 2⟩, [], [4]⟩]

end CoalescedSample

theorem coalesced_read_exact_sample :
    @Segment.readRecords Hasher.fnv CoalescedSample.segment CoalescedSample.rootId
      CoalescedSample.records |>.Completes CoalescedSample.fs CoalescedSample.found
      CoalescedSample.fs := by
  refine ((@coalesced_read_exact Hasher.fnv CoalescedSample.rootId CoalescedSample.fs
    CoalescedSample.segment CoalescedSample.records (by decide +kernel) (by decide +kernel)).1
    CoalescedSample.found).mpr (.cons ?_ (.cons ?_ .nil))
  all_goals
    exact (@completes_readRecords Hasher.fnv _ _ _ _ _ (by decide +kernel)
      (by decide +kernel)).mpr (by decide +kernel)

end Camus
