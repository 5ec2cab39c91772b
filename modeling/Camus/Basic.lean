/-
**Identities, errors and configuration.**

The public vocabulary of the log: streams, roots, records and their identities; the names of the
files of a root; the errors every operation returns; the open configuration and its validation.
-/

import Camus.Lib.Bytes
import Camus.Lib.Result
import Std.Data.ExtTreeMap
import Std.Data.ExtTreeSet

namespace Camus

open Checked Codec Result Std

/-! ### Identities and records -/

/-- A stream, named by the client with any `u64`. -/
abbrev StreamId := Fin 18446744073709551616

instance instNeZeroStreams : NeZero 18446744073709551616 := ⟨by decide⟩

instance : TransOrd StreamId := Fin.instTransOrd _

instance : LawfulBEq StreamId := inferInstance

/-- The sixteen random bytes that name a root. -/
structure RootId where
  bytes : Bytes
  sized : bytes.length = 16
deriving DecidableEq

/-- The root of the samples. -/
def RootId.sample : RootId := ⟨List.replicate 16 7, rfl⟩

/-- The durable identity of one record. -/
structure RecordId where
  rootId : RootId
  streamId : StreamId
  sequence : Nat
deriving DecidableEq

/-- A record as the client passes it. -/
structure Record where
  metadata : Bytes
  payload : Bytes
deriving DecidableEq

/-- A record as a read returns it. -/
structure PendingRecord where
  id : RecordId
  metadata : Bytes
  payload : Bytes
deriving DecidableEq

/-- A sequence for each of some streams. -/
abbrev Highwaters := ExtTreeMap StreamId Nat

/-- A record's place in its stream, ordered by stream and then by sequence. -/
abbrev Identity := StreamId × Nat

instance : Ord Identity := lexOrd

instance : TransOrd Identity := instTransOrdProd

/-- The limits of one read. -/
structure ReadLimits where
  maxRecords : Nat
  maxBytes : Nat
deriving DecidableEq

/-! ### Names -/

/-- The names the log uses in its root directory. -/
inductive RootName where
  | rootFile
  | rootTemporary
  | checkpoint
  | checkpointTemporary
  | manifestLog
  | manifestLogTemporary
  | segments
deriving Repr, DecidableEq

/-- The names in the segment directory: canonical segments, temporary ones, and any other entry. -/
inductive SegmentName where
  | log (segmentId : Nat)
  | temporary (segmentId : Nat)
  | unrecognized (tag : Nat)
deriving Repr, DecidableEq

/-- What an error names. -/
inductive Artifact where
  | root
  | entry (name : RootName)
  | segment (name : SegmentName)
deriving Repr, DecidableEq

namespace RootName

/-- A number for each name. -/
def index : RootName → Nat
  | rootFile => 0
  | rootTemporary => 1
  | checkpoint => 2
  | checkpointTemporary => 3
  | manifestLog => 4
  | manifestLogTemporary => 5
  | segments => 6

theorem index_injective : Function.Injective index := by
  intro left right same
  cases left <;> cases right <;> first | rfl | exact absurd same (by decide)

instance : Ord RootName := ⟨compareOn index⟩

instance : TransOrd RootName := inferInstanceAs (TransCmp (compareOn index))

instance : LawfulEqOrd RootName where
  eq_of_compare {left right} same :=
    index_injective (LawfulEqOrd.eq_of_compare (a := left.index) (b := right.index) same)

end RootName

namespace SegmentName

/-- A number for each name. -/
def index : SegmentName → Nat
  | log segmentId => 3 * segmentId
  | temporary segmentId => 3 * segmentId + 1
  | unrecognized tag => 3 * tag + 2

theorem index_injective : Function.Injective index := by
  intro left right same
  cases left <;> cases right <;> simp only [index] at same <;> first | omega | (congr 1; omega)

instance : Ord SegmentName := ⟨compareOn index⟩

instance : TransOrd SegmentName := inferInstanceAs (TransCmp (compareOn index))

instance : LawfulEqOrd SegmentName where
  eq_of_compare {left right} same :=
    index_injective (LawfulEqOrd.eq_of_compare (a := left.index) (b := right.index) same)

end SegmentName
/-! ### Errors -/

/-- Whether an I/O error says anything definitive about a durable change. -/
inductive DurabilityOutcome where
  | notApplicable
  | unknown
deriving Repr, DecidableEq

/-- The errors of the log. `panicked` stands for a Rust panic, which no `Result` carries: the thread
unwinds at an `expect`, an index or an `unreachable!`. -/
inductive Error where
  | invalidConfig (message : String)
  | rootInUse (path : Artifact)
  | closed
  | poisoned
  | emptyAppend
  | invalidReadLimits
  | epochTooLarge (encodedBytes maxBytes : Nat)
  | releaseTooLarge (records maxRecords : Nat)
  | readLimitTooSmall (id : RecordId) (requiredBytes maxBytes : Nat)
  | recordIdScopeMismatch (id : RecordId) (expectedStream : StreamId)
  | unknownRecordId (id : RecordId)
  | sequenceExhausted (streamId : StreamId)
  | segmentIdExhausted
  | manifestSequenceExhausted
  | rejectedCapacity (neededBytes availableBytes : Nat)
  | exceedsCapacity (neededBytes totalBytes : Nat)
  | io (operation : String) (path : Artifact) (outcome : DurabilityOutcome)
  | corruption (path : Artifact) (offset : Nat) (message : String)
  | runtime (message : String)
  | panicked (message : String)
deriving DecidableEq

namespace Error

/-- The errors after which the root fails closed until it is reopened. -/
def poisonsRoot : Error → Bool
  | io _ _ _ | corruption _ _ _ | runtime _ => true
  | _ => false

/-- What an error says about a durable change. -/
def durabilityOutcome : Error → DurabilityOutcome
  | io _ _ outcome => outcome
  | _ => .notApplicable

end Error

/-! ### Configuration -/

/-- What happens to an append that does not fit a bounded root. -/
inductive FullPolicy where
  | block
  | rejectNew
deriving Repr, DecidableEq

/-- Whether the bytes of a root are bounded. -/
inductive Capacity where
  | unbounded
  | bounded (totalBytes : Nat) (whenFull : FullPolicy)
deriving Repr, DecidableEq

/-- A length of time, in nanoseconds. -/
structure Duration where
  nanos : Nat
deriving Repr, DecidableEq

/-- The whole milliseconds of a duration. -/
def Duration.asMillis (duration : Duration) : Nat := duration.nanos / 1000000

/-- The duration of some milliseconds. -/
def Duration.fromMillis (millis : Nat) : Duration := ⟨millis * 1000000⟩

/-- The open configuration. -/
structure Config where
  root : String
  capacity : Capacity
  segmentBytes : Nat
  maxSegmentAge : Option Duration
  maxEpochBytes : Nat
  maxReleaseRecords : Nat
  maxCommitUnits : Nat
  maxCommitBytes : Nat
  commandQueueCapacity : Nat
deriving DecidableEq

/-- The configuration of the samples. -/
def Config.sample : Config where
  root := "queue"
  capacity := .unbounded
  segmentBytes := 224
  maxSegmentAge := none
  maxEpochBytes := 128
  maxReleaseRecords := 4
  maxCommitUnits := 4
  maxCommitBytes := 400
  commandQueueCapacity := 4

/-- The encoded sizes of the fixed parts of the format. -/
def rootSuperblockLen : Nat := 40

@[inherit_doc rootSuperblockLen] def segmentHeaderLen : Nat := 48

@[inherit_doc rootSuperblockLen] def recordDescriptorLen : Nat := 40

@[inherit_doc rootSuperblockLen] def epochHeaderLen : Nat := 48

@[inherit_doc rootSuperblockLen] def epochCommitLen : Nat := 40

@[inherit_doc rootSuperblockLen] def segmentFooterLen : Nat := 48

@[inherit_doc rootSuperblockLen] def manifestLogHeaderLen : Nat := 40

@[inherit_doc rootSuperblockLen] def manifestFrameHeaderLen : Nat := 48

@[inherit_doc rootSuperblockLen] def checkpointHeaderLen : Nat := 56

/-- The largest Release frame of a request within the configured record bound. -/
def maximalReleaseFrame (maxReleaseRecords : Nat) : Option Nat := do
  let fixed ← checkedAdd manifestFrameHeaderLen 24
  let ranges ← checkedMul maxReleaseRecords 16
  checkedAdd fixed ranges

namespace Config

/-- The check of the segment age. -/
def validateAge : Option Duration → Except Error Unit
  | none => .ok ()
  | some age => do
    ensure (age.asMillis ≠ 0)
      (.invalidConfig "max_segment_age must be at least one millisecond")
    let milliseconds ← orError
      (.invalidConfig "max_segment_age milliseconds do not fit u64") (toWord age.asMillis)
    ensure (Duration.fromMillis milliseconds = age)
      (.invalidConfig "max_segment_age must use whole milliseconds")

/-- The checks an open makes before it touches the disk. -/
def validate (config : Config) : Except Error Unit := do
  ensure (config.root ≠ "") (.invalidConfig "root path must not be empty")
  ensure
    (match config.capacity with
      | .unbounded => true
      | .bounded totalBytes _ => totalBytes ≠ 0)
    (.invalidConfig "bounded capacity must be greater than zero")
  ensure (config.commandQueueCapacity ≠ 0)
    (.invalidConfig "command queue capacity must be greater than zero")
  ensure (config.maxCommitUnits ≠ 0)
    (.invalidConfig "max_commit_units must be greater than zero")
  ensure (config.maxReleaseRecords ≠ 0)
    (.invalidConfig "max_release_records must be greater than zero")
  let minimumEpoch := epochHeaderLen + recordDescriptorLen + epochCommitLen
  ensure (minimumEpoch ≤ config.maxEpochBytes)
    (.invalidConfig s!"max_epoch_bytes must be at least {minimumEpoch}")
  let minimumSegment ← orError (.invalidConfig "segment size calculation overflowed")
    (do checkedAdd (← checkedAdd segmentHeaderLen config.maxEpochBytes) segmentFooterLen)
  ensure (minimumSegment ≤ config.segmentBytes)
    (.invalidConfig
      s!"segment_bytes must be at least {minimumSegment} for the configured epoch bound")
  let releaseRecords ← orError (.invalidConfig "max_release_records does not fit u64")
    (toWord config.maxReleaseRecords)
  let releaseFrame ← orError (.invalidConfig "release frame size calculation overflowed")
    (maximalReleaseFrame releaseRecords)
  let minimumCommitBytes := max config.maxEpochBytes releaseFrame
  ensure (minimumCommitBytes ≤ config.maxCommitBytes)
    (.invalidConfig s!"max_commit_bytes must be at least {minimumCommitBytes}")
  validateAge config.maxSegmentAge

end Config

/-! ### The clock -/

/-- One reading of the system clock. -/
inductive Clock where
  | beforeEpoch
  | millis (sinceEpoch : Nat)
deriving Repr, DecidableEq

/-- The reading in milliseconds since the Unix epoch. -/
def unixMillis : Clock → Except Error Nat
  | .beforeEpoch => .error (.runtime "system clock is before Unix epoch")
  | .millis sinceEpoch =>
    orError (.runtime "Unix millisecond timestamp does not fit u64") (toWord sinceEpoch)

end Camus
