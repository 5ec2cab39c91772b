/-
**The elementary changes of an open root.**

Every operation is a chain of a few changes of memory and disk: a segment is sealed, a group is
written, frames are added to the log, a record is marked, a batch of segments is removed, the manifest
is compacted. An invariant of open roots is kept by each of them.

* `Moves` — the changes.
* `chain_appendGroup` and its siblings — every operation is a chain of them.
* `Chain.sound` — chains keep the index sound.
-/

import Camus.Storage.IndexSteps
import Mathlib.Logic.Relation

namespace Camus

open Codec Checked Disk FaultIo

variable {identity : Identity} {report : ReclaimReport} {storage next : Storage}

/-! ### Changes -/

section

variable [Hasher]

/-- **One change of an open root.** -/
inductive Moves : World → World → Prop
  | seals {segmentId : Nat} {reason : SealReason} {world final : World} :
    world.storage.activeSegment = some segmentId →
      Returns (sealSegment segmentId reason) world () final → Moves world final
  | writes {epochs : List Epoch} {creation : Clock} {ids : List (List RecordId)} {world final : World} :
    (∀ epoch ∈ epochs, epoch.Valid) →
    (∀ epoch ∈ epochs, ∀ highwater,
      world.storage.streamHighwater epoch.streamId = some highwater → highwater < wordMax) →
      Returns (writeGroup (epochs.map Epoch.prepared) creation) world ids final → Moves world final
  | announces {storage : Storage} {fs left : Fs} {bodies : List ManifestBody}
    {outcome : DurabilityOutcome} {manifest : Manifest} {bytes : Nat} :
    Returns (storage.manifest.appendGroup bodies outcome) fs manifest left →
    Rebooked storage manifest bytes →
      Moves ⟨storage, fs⟩ ⟨{ storage with manifest := manifest, actualFileBytes := bytes }, left⟩
  | marks {storage next : Storage} {fs : Fs} {identity : Identity} :
    storage.markRecordReleased identity = .ok next → Moves ⟨storage, fs⟩ ⟨next, fs⟩
  | reclaims {eligible : List Nat} {report : ReclaimReport} {world final : World} :
    Eligible world.storage.segments eligible →
      Returns (reclaimBatch eligible) world report final → Moves world final
  | compacts {world final : World} : Returns compactManifest world () final → Moves world final
  | notes {storage : Storage} {fs : Fs} {commits : CommitStats} {maintenance : MaintenanceStats} :
    Moves ⟨storage, fs⟩ ⟨{ storage with commits := commits, maintenance := maintenance }, fs⟩

/-- Changes one after the other. -/
def Chain : World → World → Prop := Relation.ReflTransGen Moves

variable {world middle final : World}

theorem Chain.refl (world : World) : Chain world world := Relation.ReflTransGen.refl

theorem Chain.trans (first : Chain world middle) (second : Chain middle final) : Chain world final :=
  Relation.ReflTransGen.trans first second

theorem Moves.chain (moves : Moves world final) : Chain world final := Relation.ReflTransGen.single moves

theorem sound_moves (sound : world.storage.indexView.Sound) (moves : Moves world final) :
    final.storage.indexView.Sound := by
  cases moves with
  | seals active returned => exact sound_sealSegment sound active returned
  | writes valid room returned => exact sound_writeGroup sound valid room returned
  | announces _ _ => exact sound
  | marks marked => exact sound_markRecordReleased sound marked
  | reclaims isEligible returned =>
    exact (@sound_reclaimBatch _ _ _ _ [] _ sound (by simpa using isEligible) returned).1
  | compacts returned => exact sound_compactManifest sound returned
  | notes => exact sound

/-- Changes keep the index sound. -/
theorem Chain.sound (chain : Chain world final) (sound : world.storage.indexView.Sound) :
    final.storage.indexView.Sound := by
  induction chain with
  | refl => exact sound
  | tail _ last ih => exact sound_moves ih last

/-! ### Operations are chains -/

theorem chain_seals (seals : Seals world final) : Chain world final := by
  rcases seals with rfl | ⟨segmentId, reason, active, returned⟩
  · exact .refl _
  · exact (Moves.seals active returned).chain

theorem chain_compacts (compacts : Returns compactManifest world () final ∨ final = world) :
    Chain world final := by
  rcases compacts with returned | rfl
  · exact (Moves.compacts returned).chain
  · exact .refl _

theorem chain_appendGroup {units : List AppendUnit} {expiry creation : Clock}
    {ids : List (List RecordId)}
    (returned : Returns (appendGroup units expiry creation) world ids final) : Chain world final := by
  rcases returns_appendGroup returned with ⟨-, -, rfl⟩ |
    ⟨prepared, rolled, written, commits, isPrepared, rolls, writes, rfl⟩
  · exact .refl _
  · obtain ⟨epochs, -, valid, rfl, room⟩ := prepareUnits_eq_ok isPrepared
    have stillRoom : ∀ epoch ∈ epochs, ∀ highwater,
        rolled.storage.streamHighwater epoch.streamId = some highwater → highwater < wordMax := by
      intro epoch member highwater isHighwater
      refine room epoch member highwater ?_
      rwa [Storage.streamHighwater, Storage.stream, rolls.streams] at isHighwater
    have noted : Moves written ⟨{ written.storage with commits := commits }, written.fs⟩ :=
      @Moves.notes _ written.storage written.fs commits written.storage.maintenance
    exact (chain_seals rolls).trans ((Moves.writes valid stillRoom writes).chain.trans noted.chain)

theorem chain_marks {marked : Storage} {fs : Fs} {identities : List Identity}
    (folded : Result.tryFold Storage.markRecordReleased storage identities = .ok marked) :
    Chain ⟨storage, fs⟩ ⟨marked, fs⟩ :=
  Result.tryFold_induction (fun total : Storage => Chain ⟨storage, fs⟩ ⟨total, fs⟩) (.refl _)
    (fun _ _ _ _ before stepped => before.trans (Moves.marks stepped).chain) folded

theorem chain_releaseGroup {units : List ReleaseUnit} {value : Unit}
    (returned : Returns (releaseGroup units) world value final) : Chain world final := by
  obtain ⟨plan, -, ⟨-, rfl⟩ |
    ⟨-, manifest, fs, bytes, commits, marked, appended, rebooked, folded, compacts⟩⟩ :=
    returns_releaseGroup returned
  · exact .refl _
  · have announced : Chain world ⟨{ world.storage with
        manifest := manifest, actualFileBytes := bytes }, fs⟩ :=
      (@Moves.announces _ world.storage _ _ _ _ _ _ appended rebooked).chain
    have noted : Chain ⟨{ world.storage with manifest := manifest, actualFileBytes := bytes }, fs⟩
        ⟨{ world.storage with
          manifest := manifest, actualFileBytes := bytes, commits := commits }, fs⟩ :=
      (@Moves.notes _ { world.storage with manifest := manifest, actualFileBytes := bytes } fs commits
        world.storage.maintenance).chain
    exact announced.trans (noted.trans ((chain_marks folded).trans (chain_compacts compacts)))

theorem chain_reclaimBatches {batches : List (List Nat)} {start : ReclaimReport}
    (sound : world.storage.indexView.Sound)
    (isEligible : Eligible world.storage.segments batches.flatten)
    (returned : Returns (reclaimBatches start batches) world report final) : Chain world final := by
  induction batches generalizing world start with
  | nil =>
    obtain ⟨-, rfl⟩ := Returns.result returned
    exact .refl _
  | cons batch rest ih =>
    obtain ⟨reclaimed, middle, reclaims, returned⟩ := returned.bind
    obtain ⟨middleSound, stillEligible⟩ := sound_reclaimBatch sound isEligible reclaims
    have first : Eligible world.storage.segments batch :=
      isEligible.sublist (List.sublist_append_left _ _)
    exact (Moves.reclaims first reclaims).chain.trans (ih middleSound stillEligible returned)

theorem chain_reclaim {kind : ReclaimKind} (sound : world.storage.indexView.Sound)
    (returned : Returns (reclaim kind) world report final) : Chain world final := by
  obtain ⟨sealed, reclaimed, compacted, maintenance, seals, reclaims, compacts, rfl⟩ :=
    returns_reclaim returned
  have isEligible := (eligibleSegments_eligible sealed.storage).sublist
    ((chunks_flatten_sublist automaticReclaimSegmentsPerJob
      (kind.limit sealed.storage.eligibleSegments).length _).trans (limit_sublist kind _))
  have noted : Moves compacted ⟨{ compacted.storage with maintenance := maintenance }, compacted.fs⟩ :=
    @Moves.notes _ compacted.storage compacted.fs compacted.storage.commits maintenance
  exact (chain_seals seals).trans ((chain_reclaimBatches (sound_seals sound seals) isEligible
    reclaims).trans ((chain_compacts compacts).trans noted.chain))

theorem chain_sealExpired {clock : Clock} {value : Bool}
    (returned : Returns (sealExpired clock) world value final) : Chain world final := by
  rcases returns_sealExpired returned with rfl | ⟨middle, seals, compacts⟩
  · exact .refl _
  · exact (chain_seals seals).trans (chain_compacts compacts)

end

end Camus
