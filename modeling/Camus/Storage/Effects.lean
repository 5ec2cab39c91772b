/-
**What a successful operation leaves in memory.**

Every operation of an open root mixes work on the files with changes of the state in memory. For each
one, a theorem says what the state is after the operation has returned, as a function of the state
before and of what the parts on the files returned.

* `returns_appendManifestGroup`, `returns_compactManifest` — the manifest and the byte accounting.
* `returns_sealSegment`, `returns_writeGroup` — the segments.
* `returns_removeSegments_cons`, `returns_reclaimBatch` — reclamation.
-/

import Camus.Storage.Frame
import Camus.Storage.SegmentSpec

set_option linter.unusedSectionVars false

namespace Camus

open Codec Checked Disk FaultIo Result Std

variable {expiry creation : Clock} {units : List AppendUnit} {prepared : List PreparedEpoch}
  {segmentId : Nat} {kind : ReclaimKind} {report : ReclaimReport} {reason : SealReason}
  {storage : Storage} {value : Unit}

section

variable [Hasher] {world final : World}

theorem Manifest.controlFileLen_eq_ok {manifest : Manifest} {length : Nat} :
    manifest.controlFileLen = .ok length ↔
      length = manifest.checkpointLen + manifest.logLen ∧ length ≤ wordMax := by
  simp only [Manifest.controlFileLen, orError_eq_ok, checkedAdd_eq_some]
  constructor <;> rintro ⟨rfl, bound⟩ <;> exact ⟨rfl, bound⟩

theorem Storage.replaceActualFileBytes_eq_ok {changed : Storage} {previous current : Nat} :
    storage.replaceActualFileBytes previous current = .ok changed ↔
      previous ≤ storage.actualFileBytes ∧
      storage.actualFileBytes - previous + current ≤ wordMax ∧
      changed = { storage with
        actualFileBytes := storage.actualFileBytes - previous + current } := by
  simp only [Storage.replaceActualFileBytes, bind_eq_ok, orError_eq_ok,
    Option.bind_eq_bind, Option.bind_eq_some_iff, checkedSub_eq_some, checkedAdd_eq_some,
    pure_eq_ok]
  constructor
  · rintro ⟨_, ⟨rest, left, rfl, bound⟩, rfl⟩
    have isRest : rest = storage.actualFileBytes - previous := by omega
    subst isRest
    exact ⟨by omega, bound, rfl⟩
  · rintro ⟨fits, bound, rfl⟩
    exact ⟨_, ⟨_, (Nat.sub_add_cancel fits).symm, rfl, bound⟩, rfl⟩

/-- What replacing the manifest does to the accounting. -/
structure Rebooked (storage : Storage) (manifest : Manifest) (bytes : Nat) : Prop where
  old : storage.manifest.checkpointLen + storage.manifest.logLen ≤ storage.actualFileBytes
  new : bytes + (storage.manifest.checkpointLen + storage.manifest.logLen) =
    storage.actualFileBytes + (manifest.checkpointLen + manifest.logLen)
  bounded : bytes ≤ wordMax

/-- The new lengths of the control files are booked in place of the old ones. -/
theorem rebooked_of_replaced {manifest : Manifest} {changed : Storage} {previous current : Nat}
    (isPrevious : storage.manifest.controlFileLen = .ok previous)
    (isCurrent : manifest.controlFileLen = .ok current)
    (replaced : ({ storage with manifest := manifest } : Storage).replaceActualFileBytes previous
      current = .ok changed) :
    ∃ bytes, Rebooked storage manifest bytes ∧
      changed = { storage with manifest := manifest, actualFileBytes := bytes } := by
  obtain ⟨rfl, -⟩ := Manifest.controlFileLen_eq_ok.mp isPrevious
  obtain ⟨rfl, -⟩ := Manifest.controlFileLen_eq_ok.mp isCurrent
  obtain ⟨fits, bound, rfl⟩ := Storage.replaceActualFileBytes_eq_ok.mp replaced
  have fits : storage.manifest.checkpointLen + storage.manifest.logLen ≤ storage.actualFileBytes := fits
  refine ⟨_, ⟨fits, ?_, bound⟩, rfl⟩
  show storage.actualFileBytes - _ + _ + _ = _
  omega

/-- Frames are added to the manifest. -/
theorem returns_appendManifestGroup {bodies : List ManifestBody} {outcome : DurabilityOutcome}
    (returned : Returns (appendManifestGroup bodies outcome) world value final) :
    ∃ manifest fs bytes,
      Returns (world.storage.manifest.appendGroup bodies outcome) world.fs manifest fs ∧
      Rebooked world.storage manifest bytes ∧
      final = ⟨{ world.storage with manifest := manifest, actualFileBytes := bytes }, fs⟩ := by
  obtain ⟨previous, isPrevious, returned⟩ := (Returns.bind_getStorage returned).bind_ofExcept
  obtain ⟨manifest, fs, appended, returned⟩ := Returns.bind_onDisk returned
  obtain ⟨current, isCurrent, returned⟩ := (Returns.bind_modifyStorage returned).bind_ofExcept
  obtain ⟨changed, replaced, rfl⟩ := Returns.tryStorage returned
  obtain ⟨bytes, rebooked, rfl⟩ := rebooked_of_replaced isPrevious isCurrent replaced
  exact ⟨manifest, fs, bytes, appended, rebooked, rfl⟩

/-- The manifest is compacted. -/
theorem returns_compactManifest (returned : Returns compactManifest world value final) :
    ∃ manifest fs bytes maintenance,
      Returns (world.storage.manifest.compact world.storage.checkpoint) world.fs manifest fs ∧
      Rebooked world.storage manifest bytes ∧
      final = ⟨{ world.storage with
        manifest := manifest
        actualFileBytes := bytes
        maintenance := maintenance
        streams := world.storage.streams.map fun _ stream =>
          { stream with persistedHighwater := stream.highwater } }, fs⟩ := by
  obtain ⟨previous, isPrevious, returned⟩ := (Returns.bind_getStorage returned).bind_ofExcept
  obtain ⟨manifest, fs, compacted, returned⟩ := Returns.bind_onDisk returned
  obtain ⟨current, isCurrent, returned⟩ := (Returns.bind_modifyStorage returned).bind_ofExcept
  obtain ⟨_, middle, books, returned⟩ := returned.bind
  obtain ⟨changed, replaced, rfl⟩ := Returns.tryStorage books
  obtain rfl := Returns.update returned
  obtain ⟨bytes, rebooked, rfl⟩ := rebooked_of_replaced isPrevious isCurrent replaced
  exact ⟨manifest, fs, bytes, _, compacted, rebooked, rfl⟩

/-- A compaction that is done when it is due. -/
theorem returns_maybeCompactManifest {value : Bool}
    (returned : Returns maybeCompactManifest world value final) :
    Returns compactManifest world () final ∨ final = world := by
  obtain ⟨headroom, -, returned⟩ := (Returns.bind_getStorage returned).bind_ofExcept
  split at returned
  · obtain ⟨_, middle, compacted, returned⟩ := returned.bind
    obtain ⟨-, rfl⟩ := returned.pure
    exact .inl compacted
  · obtain ⟨-, rfl⟩ := returned.pure
    exact .inr rfl

/-- What sealing returns: the same records, with a footer. -/
theorem returns_sealData {segment sealed : Segment} {footer : SegmentFooter} {fs left : Fs}
    (returned : Returns segment.sealData fs (sealed, footer) left) :
    sealed = { segment with fileLen := sealed.fileLen, footer := some footer } ∧
      (segment.footer = none → sealed.fileLen = footer.segmentBytes ∧
        footer.segmentBytes = segment.fileLen + segmentFooterLen) := by
  unfold Segment.sealData at returned
  split at returned
  · rename_i found isFound
    obtain ⟨same, -⟩ := Returns.result returned
    obtain ⟨rfl, rfl⟩ := Prod.mk.inj same
    refine ⟨?_, fun none => ?_⟩
    · rw [← isFound]
    · rw [none] at isFound
      cases isFound
  · obtain ⟨found, isFooter, returned⟩ := returned.bind_ofExcept
    obtain ⟨bytes, -, returned⟩ := returned.bind_ofExcept
    obtain ⟨same, -⟩ := (Returns.bind_step (Returns.bind_step returned.bind_observe)).pure
    obtain ⟨rfl, rfl⟩ := Prod.mk.inj same
    simp only [Segment.footerOf, bind_eq_ok, orError_eq_ok, checkedAdd_eq_some,
      toWord_eq_some, pure_eq_ok] at isFooter
    obtain ⟨_, ⟨rfl, -⟩, _, -, rfl⟩ := isFooter
    exact ⟨rfl, fun _ => ⟨rfl, rfl⟩⟩

/-- A segment is sealed. -/
theorem returns_sealSegment (returned : Returns (sealSegment segmentId reason) world value final) :
    ∃ segment sealed footer manifest bytes, ∃ first last : Fs,
      world.storage.segments[segmentId]? = some segment ∧
      Returns segment.sealData world.fs (sealed, footer) first ∧
      segment.fileLen ≤ world.storage.actualFileBytes ∧
      Returns (world.storage.manifest.appendGroup
        [.segmentSealed { footer.sealedBody with segmentId := segmentId }] .unknown) first
          manifest last ∧
      Rebooked { world.storage with
        actualFileBytes := world.storage.actualFileBytes - segment.fileLen + footer.segmentBytes }
        manifest bytes ∧
      final = ⟨Storage.sealed sealed reason { world.storage with
        segments := world.storage.segments.insert segmentId sealed
        manifest := manifest
        actualFileBytes := bytes }, last⟩ := by
  obtain ⟨segment, isSegment, returned⟩ := (Returns.bind_getStorage returned).bind_ofExcept
  have found := orError_eq_ok.mp isSegment
  obtain ⟨⟨sealed, footer⟩, first, seals, returned⟩ := Returns.bind_onDisk returned
  obtain ⟨_, booked, books, returned⟩ := (Returns.bind_modifyStorage returned).bind
  obtain ⟨changed, replaced, rfl⟩ := Returns.tryStorage books
  obtain ⟨fits, -, rfl⟩ := Storage.replaceActualFileBytes_eq_ok.mp replaced
  obtain ⟨_, announced, announces, returned⟩ := returned.bind
  obtain ⟨manifest, last, bytes, appended, rebooked, rfl⟩ := returns_appendManifestGroup announces
  obtain rfl := Returns.update returned
  exact ⟨segment, sealed, footer, manifest, bytes, first, last, found, seals, fits, appended,
    ⟨rebooked.old, rebooked.new, rebooked.bounded⟩, rfl⟩

/-- Sealing the active segment, if there is one. -/
theorem returns_sealActive (returned : Returns (sealActive reason) world value final) :
    (world.storage.activeSegment = none ∧ final = world) ∨
      ∃ segmentId, world.storage.activeSegment = some segmentId ∧
        Returns (sealSegment segmentId reason) world () final := by
  have returned := Returns.bind_getStorage returned
  split at returned
  · rename_i none
    exact .inl ⟨none, (Returns.result returned).2⟩
  · rename_i segmentId active
    exact .inr ⟨segmentId, active, returned⟩

/-- A seal that is made where it is due. -/
def Seals (world final : World) : Prop :=
  final = world ∨ ∃ segmentId reason, world.storage.activeSegment = some segmentId ∧
    Returns (sealSegment segmentId reason) world () final

theorem Seals.rootId (seals : Seals world final) : final.storage.rootId = world.storage.rootId := by
  rcases seals with rfl | ⟨segmentId, reason, -, seals⟩
  · rfl
  · obtain ⟨_, _, _, _, _, _, _, -, -, -, -, -, rfl⟩ := returns_sealSegment seals
    rfl

theorem Seals.of_sealActive (returned : Returns (sealActive reason) world value final) :
    Seals world final := by
  rcases returns_sealActive returned with ⟨-, same⟩ | ⟨segmentId, active, seals⟩
  · exact .inl same
  · exact .inr ⟨segmentId, reason, active, seals⟩

theorem returns_rollOver {groupBytes : Nat}
    (returned : Returns (rollOver groupBytes expiry) world value final) : Seals world final := by
  have returned := Returns.bind_getStorage returned
  split at returned
  · exact .inl (Returns.result returned).2
  · obtain ⟨expired, -, returned⟩ := returned.bind_ofExcept
    split at returned
    · exact .of_sealActive returned
    · obtain ⟨room, -, returned⟩ := returned.bind_ofExcept
      split at returned
      · exact .of_sealActive returned
      · exact .inl (Returns.result returned).2

theorem returns_sealDrained (returned : Returns sealDrained world value final) :
    Seals world final := by
  have returned := Returns.bind_getStorage returned
  split at returned
  · exact .inl (Returns.result returned).2
  · obtain ⟨segment, -, returned⟩ := returned.bind_ofExcept
    split at returned
    · exact .of_sealActive returned
    · exact .inl (Returns.result returned).2

theorem returns_sealExpired {clock : Clock} {value : Bool}
    (returned : Returns (sealExpired clock) world value final) :
    final = world ∨ ∃ middle, Seals world middle ∧
      (Returns compactManifest middle () final ∨ final = middle) := by
  obtain ⟨expired, -, returned⟩ := (Returns.bind_getStorage returned).bind_ofExcept
  split at returned
  · obtain ⟨_, middle, seals, returned⟩ := returned.bind
    obtain ⟨_, last, compacts, returned⟩ := returned.bind
    obtain ⟨-, rfl⟩ := returned.pure
    exact .inr ⟨middle, .of_sealActive seals, returns_maybeCompactManifest compacts⟩
  · exact .inl returned.pure.2

/-! ### Appending -/

section Epochs

variable {epochs : List Epoch} {fs left : Fs} {segment next : Segment} {ids : List (List RecordId)}

/-- What an epoch was asked to append. -/
def Epoch.unit (epoch : Epoch) : AppendUnit := ⟨epoch.streamId, epoch.records⟩

/-- The units of a group are encoded to one epoch each, and every stream has room for more. -/
theorem prepareUnits_eq_ok (isPrepared : storage.prepareUnits units = .ok prepared) :
    ∃ epochs : List Epoch, units = epochs.map Epoch.unit ∧ (∀ epoch ∈ epochs, epoch.Valid) ∧
      prepared = epochs.map Epoch.prepared ∧
      ∀ epoch ∈ epochs, ∀ highwater, storage.streamHighwater epoch.streamId = some highwater →
        highwater < wordMax := by
  -- the sequences assigned so far are not below the high-waters
  let Above (known : ExtTreeMap StreamId (Option Nat)) : Prop :=
    ∀ streamId highwater, storage.streamHighwater streamId = some highwater →
      ∃ last, known[streamId]? = some (some last) ∧ highwater ≤ last
  have general : ∀ (units : List AppendUnit) (known last : ExtTreeMap StreamId (Option Nat))
      (before after : List PreparedEpoch), Above known →
      tryFold (prepareUnit storage.config.maxEpochBytes) (known, before) units =
          .ok (last, after) →
        ∃ epochs : List Epoch, units = epochs.map Epoch.unit ∧ (∀ epoch ∈ epochs, epoch.Valid) ∧
          after = before ++ epochs.map Epoch.prepared ∧
          ∀ epoch ∈ epochs, ∀ highwater, storage.streamHighwater epoch.streamId = some highwater →
            highwater < wordMax := by
    intro units
    induction units with
    | nil =>
      intro known last before after _ folded
      cases folded
      exact ⟨[], rfl, by simp, by simp, by simp⟩
    | cons unit rest ih =>
      intro known last before after above folded
      rw [tryFold_cons, bind_eq_ok] at folded
      obtain ⟨⟨middle, added⟩, one, later⟩ := folded
      simp only [prepareUnit, bind_eq_ok, pure_eq_ok, PreparedEpoch.new_eq_ok,
        orError_eq_ok, checkedAdd_eq_some] at one
      obtain ⟨first, isFirst, epoch, ⟨valid, rfl⟩, _, -, count, -, _, ⟨rfl, -⟩, same⟩ := one
      obtain ⟨rfl, rfl⟩ := Prod.mk.inj same
      have room : ∀ highwater, storage.streamHighwater unit.streamId = some highwater →
          highwater < wordMax ∧ highwater < first := by
        intro highwater isHighwater
        obtain ⟨value, isValue, bound⟩ := above _ _ isHighwater
        rw [isValue] at isFirst
        simp only [Option.join_some, nextSequence, orError_eq_ok, checkedAdd_eq_some]
          at isFirst
        omega
      have stays : Above (known.insert unit.streamId (some (first + (count - 1)))) := by
        intro streamId highwater isHighwater
        rw [ExtTreeMap.getElem?_insert]
        split
        · rename_i isStream
          obtain rfl := LawfulEqOrd.eq_of_compare isStream
          exact ⟨_, rfl, by have := (room highwater isHighwater).2; omega⟩
        · exact above _ _ isHighwater
      obtain ⟨epochs, rfl, restValid, rfl, restRoom⟩ := ih _ _ _ _ stays later
      refine ⟨⟨unit.streamId, first, unit.records⟩ :: epochs, rfl,
        List.forall_mem_cons.mpr ⟨valid, restValid⟩, by simp, List.forall_mem_cons.mpr ⟨?_, restRoom⟩⟩
      exact fun highwater isHighwater => (room highwater isHighwater).1
  simp only [Storage.prepareUnits, bind_eq_ok, pure_eq_ok] at isPrepared
  obtain ⟨⟨last, after⟩, folded, rfl⟩ := isPrepared
  have start : Above (storage.streams.map fun _ stream => stream.highwater) := by
    intro streamId highwater isHighwater
    simp only [Storage.streamHighwater, Storage.stream] at isHighwater
    cases found : storage.streams[streamId]? with
    | none =>
      rw [found] at isHighwater
      cases isHighwater
    | some stream =>
      rw [found] at isHighwater
      refine ⟨highwater, ?_, Nat.le_refl _⟩
      rw [ExtTreeMap.getElem?_map, found]
      exact congrArg some isHighwater
  obtain ⟨epochs, isUnits, valid, rfl, room⟩ := general units _ _ _ _ start folded
  exact ⟨epochs, isUnits, valid, by simp, room⟩

/-- The identities of the records of an epoch. -/
theorem ids_storedRecords (rootId : RootId) (streamId : StreamId) (sequence offset : Nat)
    (records : List Record) :
    (storedRecords streamId sequence offset records).map
        (fun record => (⟨rootId, record.streamId, record.sequence⟩ : RecordId)) =
      (List.range' sequence records.length).map fun sequence => ⟨rootId, streamId, sequence⟩ := by
  induction records generalizing sequence offset with
  | nil => rfl
  | cons record rest ih =>
    simp only [storedRecords, List.map_cons, List.length_cons, List.range'_succ, ih]
    rfl

/-- What an append to a segment returns. -/
theorem returns_segmentAppend {rootId : RootId} {streams : Nat}
    (valid : ∀ epoch ∈ epochs, epoch.Valid)
    (returned : Returns (segment.append rootId (epochs.map Epoch.prepared) streams) fs (next, ids)
      left) :
    segment.footer = none ∧
    next = { segment with
      fileLen := segment.fileLen + epochsLength epochs
      records := segment.records ++ storedEpochs segment.fileLen epochs
      uniqueStreams := segment.uniqueStreams + streams
      unreleasedRecords := segment.unreleasedRecords + (epochRecords epochs).length
      epochs := next.epochs } ∧
    ids = (writtenEpochs segment.fileLen epochs).map (WrittenEpoch.ids rootId) := by
  unfold Segment.append at returned
  obtain ⟨_, counted, returned⟩ := returned.bind_ofOption
  obtain ⟨rfl, -⟩ := checkedAdd_eq_some.mp counted
  obtain ⟨noFooter, returned⟩ := returned.bind_require
  obtain ⟨written, middle, wrote, returned⟩ := returned.bind_observe.bind
  obtain ⟨rfl, -⟩ := returns_writeEpochGroup valid wrote
  obtain ⟨_, isUnreleased, returned⟩ := (Returns.bind_step returned).bind_ofExcept
  obtain ⟨⟨records, boundaries⟩, added, returned⟩ := returned.bind_ofExcept
  obtain rfl := addUnreleased_total isUnreleased
  obtain ⟨rfl, rfl⟩ := addBoundaries_eq_ok added
  obtain ⟨same, -⟩ := returned.pure
  obtain ⟨rfl, rfl⟩ := Prod.mk.inj same
  exact ⟨by simpa using noFooter, by rw [groupEnd_writtenEpochs], rfl⟩

/-- What the creation of a segment returns. -/
theorem returns_segmentCreate {rootId : RootId} {createdAt : Nat}
    (valid : ∀ epoch ∈ epochs, epoch.Valid)
    (returned : Returns (Segment.create rootId segmentId createdAt (epochs.map Epoch.prepared)) fs
      (next, ids) left) :
    (next.footer = none ∧ next.fileLen = segmentHeaderLen + epochsLength epochs ∧
      next.records = storedEpochs segmentHeaderLen epochs ∧
      next.unreleasedRecords = (storedEpochs segmentHeaderLen epochs).length ∧
      next.uniqueStreams = (next.records.map (·.streamId)).dedup.length) ∧
    ids = (writtenEpochs segmentHeaderLen epochs).map (WrittenEpoch.ids rootId) := by
  unfold Segment.create at returned
  obtain ⟨-, returned⟩ := returned.bind_require
  obtain ⟨_, -, returned⟩ := returned.bind_ofExcept
  obtain ⟨file, linked, -, returned⟩ := returned.bind
  obtain ⟨written, middle, wrote, returned⟩ := (Returns.bind_step returned).bind
  obtain ⟨rfl, -⟩ := returns_writeEpochGroup valid wrote
  obtain ⟨⟨records, boundaries⟩, added, returned⟩ := returned.bind_ofExcept
  obtain ⟨rfl, rfl⟩ := addBoundaries_eq_ok added
  obtain ⟨_, renamed, -, returned⟩ := (Returns.bind_step returned).bind
  obtain ⟨_, counted, returned⟩ := (Returns.bind_step returned).bind_ofOption
  obtain ⟨rfl, -⟩ := toWord_eq_some.mp counted
  obtain ⟨same, -⟩ := returned.pure
  obtain ⟨rfl, rfl⟩ := Prod.mk.inj same
  exact ⟨⟨rfl, groupEnd_writtenEpochs _ _, rfl, rfl, Maps.size_ofList _⟩, rfl⟩

end Epochs

/-- A group was written to the active segment. -/
structure Extended (world final : World) (active : Nat) (prepared : List PreparedEpoch)
    (segment appended : Segment) (ids : List (List RecordId)) (indexed : Storage) : Prop where
  found : world.storage.segments[active]? = some segment
  appends : Returns (segment.append world.storage.rootId prepared
    (world.storage.newStreams active prepared)) world.fs (appended, ids) final.fs
  indexes : ({ world.storage with
    segments := world.storage.segments.insert active appended } : Storage).indexDurableRecords active
      segment.records.length = .ok indexed
  fits : segment.fileLen ≤ indexed.actualFileBytes
  bounded : indexed.actualFileBytes - segment.fileLen + appended.fileLen ≤ wordMax
  left : final.storage = { indexed with
    actualFileBytes := indexed.actualFileBytes - segment.fileLen + appended.fileLen }

/-- A group was written to a new segment. -/
structure Created (world final : World) (prepared : List PreparedEpoch) (segment : Segment)
    (ids : List (List RecordId)) (indexed : Storage) : Prop where
  room : world.storage.nextSegmentId ≠ wordMax
  creates : ∃ createdAt, Returns (Segment.create world.storage.rootId world.storage.nextSegmentId
    createdAt prepared) world.fs (segment, ids) final.fs
  indexes : ({ world.storage with
    nextSegmentId := saturatingAdd world.storage.nextSegmentId 1
    segments := world.storage.segments.insert world.storage.nextSegmentId segment
    activeSegment := some world.storage.nextSegmentId } : Storage).indexDurableRecords
      world.storage.nextSegmentId 0 = .ok indexed
  bounded : indexed.actualFileBytes + segment.fileLen ≤ wordMax
  left : final.storage = { indexed with
    actualFileBytes := indexed.actualFileBytes + segment.fileLen }

theorem returns_writeGroup {ids : List (List RecordId)}
    (returned : Returns (writeGroup prepared creation) world ids final) :
    (∃ active segment appended indexed, world.storage.activeSegment = some active ∧
      Extended world final active prepared segment appended ids indexed) ∨
    ∃ segment indexed, world.storage.activeSegment = none ∧
      Created world final prepared segment ids indexed := by
  have returned := Returns.bind_getStorage returned
  split at returned
  · rename_i active isActive
    obtain ⟨segment, isSegment, returned⟩ := (Returns.bind_getStorage returned).bind_ofExcept
    obtain ⟨⟨appended, given⟩, fs, appends, returned⟩ := Returns.bind_onDisk returned
    obtain ⟨_, afterIndex, indexes, returned⟩ := (Returns.bind_modifyStorage returned).bind
    obtain ⟨indexed, isIndexed, rfl⟩ := Returns.tryStorage indexes
    obtain ⟨_, booked, books, returned⟩ := returned.bind
    obtain ⟨changed, replaced, rfl⟩ := Returns.tryStorage books
    obtain ⟨fits, bound, rfl⟩ := Storage.replaceActualFileBytes_eq_ok.mp replaced
    obtain ⟨rfl, rfl⟩ := returned.pure
    exact .inl ⟨active, segment, appended, indexed, isActive, orError_eq_ok.mp isSegment,
      appends, isIndexed, fits, bound, rfl⟩
  · rename_i noActive
    obtain ⟨segmentId, allocated, allocates, returned⟩ := returned.bind
    obtain ⟨room, allocates⟩ := (Returns.bind_getStorage allocates).bind_require
    obtain ⟨rfl, rfl⟩ := (Returns.bind_modifyStorage allocates).pure
    obtain ⟨createdAt, -, returned⟩ := returned.bind_ofExcept
    obtain ⟨⟨segment, given⟩, fs, creates, returned⟩ :=
      Returns.bind_onDisk (Returns.bind_getStorage returned)
    obtain ⟨_, afterIndex, indexes, returned⟩ := (Returns.bind_modifyStorage returned).bind
    obtain ⟨indexed, isIndexed, rfl⟩ := Returns.tryStorage indexes
    obtain ⟨_, booked, books, returned⟩ := returned.bind
    obtain ⟨changed, replaced, rfl⟩ := Returns.tryStorage books
    obtain ⟨-, bound, rfl⟩ := Storage.replaceActualFileBytes_eq_ok.mp replaced
    obtain ⟨rfl, rfl⟩ := returned.pure
    exact .inr ⟨segment, indexed, noActive, by simpa using room, ⟨createdAt, creates⟩, isIndexed,
      bound, rfl⟩

/-- What a successful append of some units did: it encoded them, sealed the active segment where that
was due, and wrote the group. -/
structure Appends (world rolled written : World) (units : List AppendUnit) (expiry creation : Clock)
    (ids : List (List RecordId)) (prepared : List PreparedEpoch) (groupBytes : Nat) : Prop where
  encodes : world.storage.prepareUnits units = .ok prepared
  counts : tryFold addEpochBytes 0 prepared = .ok groupBytes
  fits : groupBytes + (segmentHeaderLen + segmentFooterLen) ≤ world.storage.config.segmentBytes
  rolls : Returns (rollOver groupBytes expiry) world () rolled
  writes : Returns (writeGroup prepared creation) rolled ids written

theorem appends_appendGroup {ids : List (List RecordId)} (some : units ≠ [])
    (returned : Returns (appendGroup units expiry creation) world ids final) :
    ∃ prepared groupBytes rolled written commits,
      Appends world rolled written units expiry creation ids prepared groupBytes ∧
      final = ⟨{ written.storage with commits := commits }, written.fs⟩ := by
  unfold appendGroup at returned
  rw [if_neg some] at returned
  obtain ⟨_, -, returned⟩ := (Returns.bind_getStorage returned).bind_ofOption
  obtain ⟨_, -, returned⟩ := returned.bind_ofExcept
  obtain ⟨prepared, isPrepared, returned⟩ := returned.bind_ofExcept
  obtain ⟨groupBytes, counts, returned⟩ := returned.bind_ofExcept
  obtain ⟨fresh, isFresh, returned⟩ := returned.bind_ofOption
  obtain ⟨fits, returned⟩ := returned.bind_require
  obtain ⟨_, rolled, rolls, returned⟩ := returned.bind
  obtain ⟨found, written, writes, returned⟩ := returned.bind
  obtain ⟨rfl, rfl⟩ := (Returns.bind_modifyStorage returned).pure
  rw [checkedSub_eq_some] at isFresh
  have fits : groupBytes ≤ fresh := of_decide_eq_true fits
  exact ⟨prepared, groupBytes, rolled, written, _, ⟨isPrepared, counts, by omega, rolls, writes⟩, rfl⟩

/-- A group of units was appended. -/
theorem returns_appendGroup {ids : List (List RecordId)}
    (returned : Returns (appendGroup units expiry creation) world ids final) :
    (units = [] ∧ ids = [] ∧ final = world) ∨ ∃ prepared rolled written commits,
      world.storage.prepareUnits units = .ok prepared ∧ Seals world rolled ∧
      Returns (writeGroup prepared creation) rolled ids written ∧
      final = ⟨{ written.storage with commits := commits }, written.fs⟩ := by
  by_cases none : units = []
  · unfold appendGroup at returned
    rw [if_pos none] at returned
    obtain ⟨rfl, rfl⟩ := Returns.result returned
    exact .inl ⟨none, rfl, rfl⟩
  · obtain ⟨prepared, groupBytes, rolled, written, commits, appends, rfl⟩ :=
      appends_appendGroup none returned
    exact .inr ⟨prepared, rolled, written, commits, appends.encodes, returns_rollOver appends.rolls,
      appends.writes, rfl⟩

/-! ### Releasing -/

/-- A group of units was released. -/
theorem returns_releaseGroup {units : List ReleaseUnit}
    (returned : Returns (releaseGroup units) world value final) :
    ∃ plan, world.storage.planReleases units = .ok plan ∧ ((plan.bodies = [] ∧ final = world) ∨
      plan.bodies ≠ [] ∧ ∃ manifest fs bytes commits marked,
        Returns (world.storage.manifest.appendGroup plan.bodies .unknown) world.fs manifest fs ∧
        Rebooked world.storage manifest bytes ∧
        tryFold Storage.markRecordReleased { world.storage with
          manifest := manifest, actualFileBytes := bytes, commits := commits } plan.identities =
            .ok marked ∧
        (Returns compactManifest ⟨marked, fs⟩ () final ∨ final = ⟨marked, fs⟩)) := by
  obtain ⟨plan, isPlan, returned⟩ := (Returns.bind_getStorage returned).bind_ofExcept
  split at returned
  · rename_i nothing
    exact ⟨plan, isPlan, .inl ⟨nothing, (Returns.result returned).2⟩⟩
  · rename_i something
    obtain ⟨_, announced, announces, returned⟩ := returned.bind
    obtain ⟨manifest, fs, bytes, appended, rebooked, rfl⟩ := returns_appendManifestGroup announces
    obtain ⟨_, middle, marks, returned⟩ := (Returns.bind_modifyStorage returned).bind
    obtain ⟨marked, isMarked, rfl⟩ := Returns.tryStorage marks
    obtain ⟨_, last, compacts, returned⟩ := returned.bind
    obtain ⟨-, rfl⟩ := returned.pure
    exact ⟨plan, isPlan, .inr ⟨something, manifest, fs, bytes, _, marked, appended, rebooked, isMarked,
      returns_maybeCompactManifest compacts⟩⟩

/-! ### Reclaiming -/

/-- One segment of a batch was removed, and then the others. -/
theorem returns_removeSegments_cons {rest lengths : List Nat}
    (returned : Returns (removeSegments (segmentId :: rest)) world lengths final) :
    ∃ segment dropped fs removed,
      world.storage.segments[segmentId]? = some segment ∧
      world.storage.dropSegment segmentId = .ok dropped ∧
      lengths = segment.fileLen :: removed ∧
      fs = segmentsDirectory.change (.unlink (.log segmentId)) world.fs ∧
      Returns (removeSegments rest) ⟨dropped, fs⟩ removed final := by
  obtain ⟨segment, found, returned⟩ := (Returns.bind_getStorage returned).bind_ofOption
  obtain ⟨_, middle, drops, returned⟩ := returned.bind
  obtain ⟨dropped, isDropped, rfl⟩ := Returns.tryStorage drops
  obtain ⟨_, fs, unlinks, returned⟩ := Returns.bind_onDisk returned
  obtain ⟨removed, last, removes, returned⟩ := returned.bind
  obtain ⟨rfl, rfl⟩ := returned.pure
  obtain ⟨-, unlinks⟩ := unlinks.bind_read.bind_require
  exact ⟨segment, dropped, fs, removed, found, isDropped, rfl, Returns.step unlinks, removes⟩

/-- A batch of segments was removed. -/
theorem returns_reclaimBatch {eligible : List Nat}
    (returned : Returns (reclaimBatch eligible) world report final) :
    (eligible = [] ∧ report = ⟨0, 0⟩ ∧ final = world) ∨
    ∃ bodies manifest fs bytes persisted removed maintenance, ∃ afterRemoval : World,
      world.storage.removalBodies
        (world.storage.streams.filterMap fun _ stream => stream.persistedHighwater) eligible =
          .ok bodies ∧
      Returns (world.storage.manifest.appendGroup (bodies.map .segmentRemoved) .unknown) world.fs
        manifest fs ∧
      Rebooked world.storage manifest bytes ∧
      tryFold Storage.persistHighwater { world.storage with
        manifest := manifest, actualFileBytes := bytes } (bodies.flatMap (·.highwaters)) =
          .ok persisted ∧
      Returns (removeSegments eligible) ⟨persisted, fs⟩ removed afterRemoval ∧
      report = ⟨saturatingWord removed.length, removed.foldl saturatingAdd 0⟩ ∧
      report.bytes ≤ afterRemoval.storage.actualFileBytes ∧
      final.fs = segmentsDirectory.replace (segmentsDirectory.directory afterRemoval.fs).sync
        afterRemoval.fs ∧
      final.storage = { afterRemoval.storage with
        actualFileBytes := afterRemoval.storage.actualFileBytes - report.bytes
        maintenance := maintenance } := by
  unfold reclaimBatch at returned
  split at returned
  · rename_i none
    obtain ⟨rfl, rfl⟩ := Returns.result returned
    exact .inl ⟨none, rfl, rfl⟩
  · obtain ⟨bodies, isBodies, returned⟩ := (Returns.bind_getStorage returned).bind_ofExcept
    obtain ⟨_, announced, announces, returned⟩ := returned.bind
    obtain ⟨manifest, fs, bytes, appended, rebooked, rfl⟩ := returns_appendManifestGroup announces
    obtain ⟨_, middle, persists, returned⟩ := returned.bind
    obtain ⟨persisted, isPersisted, rfl⟩ := Returns.tryStorage persists
    obtain ⟨removed, afterRemoval, removes, returned⟩ := returned.bind
    obtain ⟨_, synced, syncs, returned⟩ := Returns.bind_onDisk returned
    obtain ⟨_, booked, books, returned⟩ := returned.bind
    obtain ⟨changed, subtracted, rfl⟩ := Returns.tryStorage books
    obtain ⟨rfl, rfl⟩ := (Returns.bind_modifyStorage returned).pure
    simp only [Storage.subtractActualFileBytes, bind_eq_ok, orError_eq_ok,
      checkedSub_eq_some, pure_eq_ok] at subtracted
    obtain ⟨rest, isRest, rfl⟩ := subtracted
    have fits : removed.foldl saturatingAdd 0 ≤ afterRemoval.storage.actualFileBytes := by omega
    have difference : rest =
        afterRemoval.storage.actualFileBytes - removed.foldl saturatingAdd 0 := by omega
    subst difference
    exact .inr ⟨bodies, manifest, fs, bytes, persisted, removed, _, afterRemoval, isBodies, appended,
      rebooked, isPersisted, removes, rfl, fits, Returns.step syncs, rfl⟩

/-- The parts of a reclamation. -/
theorem returns_reclaim_parts (returned : Returns (reclaim kind) world report final) :
    ∃ sealed reclaimed compacted maintenance, Returns sealDrained world () sealed ∧
      Returns (reclaimBatches ⟨0, 0⟩ (chunks automaticReclaimSegmentsPerJob
        (kind.limit sealed.storage.eligibleSegments).length
        (kind.limit sealed.storage.eligibleSegments))) sealed report reclaimed ∧
      Returns (compactAfterReclaim report) reclaimed () compacted ∧
      final = ⟨{ compacted.storage with maintenance := maintenance }, compacted.fs⟩ := by
  obtain ⟨_, sealed, seals, returned⟩ := returned.bind
  obtain ⟨found, reclaimed, reclaims, returned⟩ := (Returns.bind_getStorage returned).bind
  obtain ⟨_, compacted, compacts, returned⟩ := returned.bind
  obtain ⟨rfl, rfl⟩ := (Returns.bind_modifyStorage returned).pure
  exact ⟨sealed, reclaimed, compacted, _, seals, reclaims, compacts, rfl⟩

/-- The manifest is compacted after the last segment was removed. -/
theorem returns_compactAfterReclaim
    (returned : Returns (compactAfterReclaim report) world value final) :
    (Returns compactManifest world () final ∨ final = world) ∧
      (report.segments ≠ 0 → world.storage.segments.isEmpty = true →
        Returns compactManifest world () final) := by
  have returned := Returns.bind_getStorage returned
  split at returned
  · exact ⟨.inl returned, fun _ _ => returned⟩
  · rename_i kept
    obtain ⟨_, last, maybe, returned⟩ := returned.bind
    obtain ⟨-, rfl⟩ := returned.pure
    exact ⟨returns_maybeCompactManifest maybe, fun removed empty => absurd (by simp [removed, empty]) kept⟩

/-- A reclamation: a seal, batches of segments, and a compaction. -/
theorem returns_reclaim (returned : Returns (reclaim kind) world report final) :
    ∃ sealed reclaimed compacted maintenance, Seals world sealed ∧
      Returns (reclaimBatches ⟨0, 0⟩ (chunks automaticReclaimSegmentsPerJob
        (kind.limit sealed.storage.eligibleSegments).length
        (kind.limit sealed.storage.eligibleSegments))) sealed report reclaimed ∧
      (Returns compactManifest reclaimed () compacted ∨ compacted = reclaimed) ∧
      final = ⟨{ compacted.storage with maintenance := maintenance }, compacted.fs⟩ := by
  obtain ⟨sealed, reclaimed, compacted, maintenance, seals, reclaims, compacts, isFinal⟩ :=
    returns_reclaim_parts returned
  exact ⟨sealed, reclaimed, compacted, maintenance, returns_sealDrained seals, reclaims,
    (returns_compactAfterReclaim compacts).1, isFinal⟩

end

end Camus
