/-
**A group of manifest frames that was cut by a crash.**

A group of frames is one write, and a crash can keep any part of it. Recovery then finds the frames
that lie completely inside that part, applies them in order on top of the state it had found before,
and cuts the log behind the last of them; the recovery after that finds the same state and has
nothing to repair.

* `Accepts.onto` — recovery of an accepted log that goes on with complete frames and an incomplete
  tail.
* `Accepts.recovers` — two recoveries of such a log.
* `recover_torn_group` — the statement for a group that `Manifest.appendGroup` wrote.
-/

import Camus.Storage.LogRead

namespace Camus

open Codec Checked Disk FaultIo

variable {torn : Bytes} {state : Control} {frames complete : List ManifestBody} {length : Nat}

/-- A crash kept `length` bytes of the log and everything else of the two files of the manifest. -/
structure Fs.LogCut (whole crashed : Fs) (log length : Nat) : Prop where
  names : ∀ name, rootDirectory.lookup name crashed = rootDirectory.lookup name whole
  others : ∀ file, file ≠ log → crashed.content file = whole.content file
  content : crashed.content log = (whole.content log).take length

theorem Fs.LogCut.trans {whole crashed cut : Fs} {log shorter : Nat}
    (first : whole.LogCut crashed log length) (second : crashed.LogCut cut log shorter)
    (less : shorter ≤ length) : whole.LogCut cut log shorter where
  names name := (second.names name).trans (first.names name)
  others file other := (second.others file other).trans (first.others file other)
  content := by rw [second.content, first.content, List.take_take, Nat.min_eq_left less]

section

variable [Hasher] {rootId : RootId} {fs final : Fs} {file log : Nat} {checkpoint : Checkpoint}
  {header : ManifestLogHeader} {scan : LogScan} {recovery : ControlRecovery}

/-! ### The log goes on -/

/-- What the repair of a log leaves. -/
theorem Fs.logCut_repaired (fs : Fs) (log : Nat) (repair : Option Nat) :
    fs.LogCut (fs.repaired log repair) log (repair.getD (fs.content log).length) := by
  cases repair with
  | none => exact ⟨fun _ => rfl, fun _ _ => rfl, by simp [Fs.repaired]⟩
  | some length =>
    refine ⟨fun _ => rfl, fun file other => ?_, Fs.content_cut log length fs⟩
    rw [Fs.repaired, Fs.cut, Fs.modifyNode_content_other other, Fs.modifyNode_content_other other]

/-- The frames of a log after which the next frame is numbered in sequence. -/
structure Accepts.Reaches (accepts : Accepts rootId fs file log checkpoint header scan)
    (frames : List ManifestBody) : Prop where
  valid : FramesValid header.baseSeq frames
  walked : walkBodies checkpoint.lastAppliedSeq header.baseSeq
    ⟨checkpoint.lastAppliedSeq, 0, checkpoint.control⟩ frames = some scan.walk
  aligned : scan.walk.lastSeq + 1 = header.baseSeq + frames.length
  kept : scan.repair.getD (fs.content log).length = manifestLogHeaderLen + framesLength frames
  holds : (fs.repaired log scan.repair).HoldsAt log
    (slice (fs.content log) 0 manifestLogHeaderLen ++ framesBytes header.baseSeq frames)

theorem Accepts.reaches (accepts : Accepts rootId fs file log checkpoint header scan)
    (aligned : logEnd (fs.content log) = scan.walk.lastSeq + 1) :
    ∃ frames, accepts.Reaches frames := by
  obtain ⟨frames, valid, walked, logEnds, kept, holds⟩ := accepts.frames
  exact ⟨frames, valid, walked, by omega, kept, holds⟩

section

variable {crashed : Fs} (accepts : Accepts rootId fs file log checkpoint header scan)
  (reaches : accepts.Reaches frames) (added : FramesValid (scan.walk.lastSeq + 1) complete)
  (room : manifestLogHeaderLen + framesLength (frames ++ complete) ≤ wordMax)
  (tail : TornFrame (manifestLogHeaderLen + framesLength (frames ++ complete))
    (scan.walk.lastSeq + 1 + complete.length) torn)
  (applied : applyBodies scan.walk.control complete = some state)
  (checkpointFound : rootDirectory.lookup .checkpoint crashed = some file)
  (logFound : rootDirectory.lookup .manifestLog crashed = some log)
  (same : crashed.content file = fs.content file)
  (content : crashed.content log = slice (fs.content log) 0 manifestLogHeaderLen ++
    (framesBytes header.baseSeq (frames ++ complete) ++ torn))

include accepts reaches added room tail applied checkpointFound logFound same content

/-- **Recovery of an accepted log that goes on** with complete frames and an incomplete tail: the
frames are applied to the state found before, and the tail is cut. -/
theorem Accepts.onto :
    ∃ walk, walk.control = state ∧ walk.lastSeq = scan.walk.lastSeq + complete.length ∧
      Accepts rootId crashed file log checkpoint header ⟨walk, if torn = [] then none else
        some (manifestLogHeaderLen + framesLength (frames ++ complete))⟩ := by
  obtain ⟨-, -, -, covered⟩ := accepts.logWords
  have fresh : checkpoint.lastAppliedSeq ≤ scan.walk.lastSeq := by
    have := lastSeq_eq covered reaches.walked
    omega
  have after := walkBodies_after complete scan.walk fresh
  rw [applied, Option.map_some] at after
  obtain ⟨walk, walkedOn, ends⟩ := Option.map_eq_some_iff.mp after
  obtain ⟨lastSeq, isState⟩ := Prod.mk.inj ends
  have headerSize : (slice (fs.content log) 0 manifestLogHeaderLen).length = manifestLogHeaderLen :=
    slice_length (by have long := accepts.long; omega)
  have valid : FramesValid header.baseSeq (frames ++ complete) :=
    framesValid_append.mpr ⟨reaches.valid, by rw [← reaches.aligned]; exact added⟩
  have walked : walkBodies checkpoint.lastAppliedSeq header.baseSeq
      ⟨checkpoint.lastAppliedSeq, 0, checkpoint.control⟩ (frames ++ complete) = some walk := by
    rw [walkBodies_append, reaches.walked, Option.bind_some, ← reaches.aligned, walkedOn]
  have sequence : header.baseSeq + (frames ++ complete).length =
      scan.walk.lastSeq + 1 + complete.length := by
    rw [reaches.aligned, List.length_append, Nat.add_assoc]
  have size : (crashed.content log).length =
      manifestLogHeaderLen + (framesLength (frames ++ complete) + torn.length) := by
    rw [content, List.length_append, List.length_append, headerSize, framesBytes_length valid]
  -- every frame takes some bytes, so there is fuel for all of them
  obtain ⟨spare, fuel⟩ : ∃ spare, (crashed.content log).length =
      (frames ++ complete).length + (spare + 1) := by
    have counted := length_le_framesLength (frames ++ complete)
    have positive : 0 < manifestLogHeaderLen := by decide
    exact ⟨(crashed.content log).length - (frames ++ complete).length - 1, by omega⟩
  have sameHeader : slice (crashed.content log) 0 manifestLogHeaderLen =
      slice (fs.content log) 0 manifestLogHeaderLen := by
    rw [content, slice_append_left (by omega), slice_all headerSize]
  refine ⟨walk, isState, lastSeq, ?_⟩
  refine ⟨checkpointFound, logFound, by rw [same]; exact accepts.short,
    by rw [same]; exact accepts.isCheckpoint, by rw [size]; omega,
    by rw [sameHeader]; exact accepts.isHeader, ?_⟩
  have scanned := @scanFrames_image _ checkpoint.lastAppliedSeq (frames ++ complete)
    (slice (fs.content log) 0 manifestLogHeaderLen) torn header.baseSeq _ walk valid
    (by rw [headerSize]; exact room) (by rw [headerSize, sequence]; exact tail) walked spare
  rwa [headerSize, ← content, ← fuel] at scanned

/-- Two recoveries of such a log: the first cuts the tail, the second finds the same state and
repairs nothing. -/
theorem Accepts.recovers :
    ∃ again repaired, Completes (recover rootId) crashed again repaired ∧ again.control = state ∧
      again.manifest.lastSeq = scan.walk.lastSeq + complete.length ∧
      again.manifest.logLen = manifestLogHeaderLen + framesLength (frames ++ complete) ∧
      crashed.LogCut repaired log (manifestLogHeaderLen + framesLength (frames ++ complete)) ∧
      ∃ third, Completes (recover rootId) repaired third repaired ∧ third.control = state ∧
        third.manifest = again.manifest ∧ third.repairedTail = false := by
  obtain ⟨walk, isState, lastSeq, accepted⟩ := accepts.onto reaches added room tail applied
    checkpointFound logFound same content
  have image : (slice (fs.content log) 0 manifestLogHeaderLen ++
      framesBytes header.baseSeq (frames ++ complete)).length =
        manifestLogHeaderLen + framesLength (frames ++ complete) := by
    rw [List.length_append, slice_length (by have long := accepts.long; omega), framesBytes_length
      (framesValid_append.mpr ⟨reaches.valid, by rwa [← reaches.aligned]⟩)]
  obtain ⟨repair, isRepair⟩ : ∃ repair, (if torn = [] then none else
      some (manifestLogHeaderLen + framesLength (frames ++ complete))) = repair := ⟨_, rfl⟩
  rw [isRepair] at accepted
  have logLen : repair.getD (crashed.content log).length =
      manifestLogHeaderLen + framesLength (frames ++ complete) := by
    rw [← isRepair]
    split_ifs with whole
    · rw [Option.getD_none, content, whole, List.append_nil, image]
    · rfl
  have cut := Fs.logCut_repaired crashed log repair
  rw [logLen] at cut
  -- the log that was repaired is an image again
  have repaired : (crashed.repaired log repair).content log =
      slice (fs.content log) 0 manifestLogHeaderLen ++
        (framesBytes header.baseSeq (frames ++ complete) ++ []) := by
    rw [cut.content, content, ← List.append_assoc, List.append_nil]
    exact List.take_left' image
  obtain ⟨walkAgain, isStateAgain, lastSeqAgain, acceptedAgain⟩ := accepts.onto reaches added room
    (.inl rfl) applied ((cut.names _).trans checkpointFound) ((cut.names _).trans logFound)
    ((cut.others _ accepts.distinct).trans same) repaired
  refine ⟨_, _, completes_recover accepted, isState, lastSeq, logLen, cut, _,
    completes_recover acceptedAgain, isStateAgain, ?_, rfl⟩
  simp only [LogScan.report]
  rw [lastSeq, lastSeqAgain, cut.others _ accepts.distinct, logLen, repaired, List.append_nil, image]
  rfl

end

/-- **A group of frames that was cut by a crash.** Let the log of an accepted manifest end with the
sequence recovery continues from, and let a crash keep any part of the bytes that `appendGroup` added.
Recovery finds the frames that lie completely inside that part, applies exactly those, in order, to
the state it had recovered before, and cuts the log behind the last of them. A second recovery finds
the same state and repairs nothing. -/
theorem recover_torn_group {middle crashed : Fs} {manifest : Manifest} {bodies : List ManifestBody}
    {outcome : DurabilityOutcome} {next : Control} {length : Nat}
    (recovered : Returns (recover rootId) fs recovery middle)
    (aligned : logEnd (fs.content recovery.manifest.file) = recovery.manifest.lastSeq + 1)
    (some : bodies ≠ []) (fits : ∀ body ∈ bodies, body.Representable)
    (transitions : applyBodies recovery.control bodies = .some next)
    (appended : Returns (recovery.manifest.appendGroup bodies outcome) middle manifest final)
    (survives : final.LogCut crashed recovery.manifest.file length)
    (added : recovery.manifest.logLen ≤ length) :
    ∃ complete state again repaired, complete <+: bodies ∧
      recovery.manifest.logLen + framesLength complete ≤ length ∧
      (∀ body, complete ++ [body] <+: bodies →
        length < recovery.manifest.logLen + framesLength (complete ++ [body])) ∧
      applyBodies recovery.control complete = .some state ∧
      Completes (recover rootId) crashed again repaired ∧ again.control = state ∧
      again.manifest.lastSeq = recovery.manifest.lastSeq + complete.length ∧
      again.manifest.logLen = recovery.manifest.logLen + framesLength complete ∧
      final.LogCut repaired recovery.manifest.file
        (recovery.manifest.logLen + framesLength complete) ∧
      ∃ third, Completes (recover rootId) repaired third repaired ∧ third.control = state ∧
        third.manifest = again.manifest ∧ third.repairedTail = false := by
  obtain ⟨file, log, checkpoint, header, scan, accepts, rfl, isMiddle⟩ := returns_recover recovered
  simp only [LogScan.report] at aligned transitions appended survives added ⊢
  obtain ⟨frames, reaches⟩ := accepts.reaches aligned
  obtain ⟨addedValid, room, rfl, isFinal⟩ := returns_manifestAppend some fits appended
  simp only at addedValid room isFinal
  have holds := reaches.holds
  rw [← isMiddle] at holds
  obtain ⟨checkpointFound, logFound, sameCheckpoint, content⟩ :=
    accepts.extended isMiddle holds isFinal
  rw [reaches.kept] at added room ⊢
  obtain ⟨kept, rfl⟩ := Nat.exists_eq_add_of_le added
  have size : (slice (fs.content log) 0 manifestLogHeaderLen ++
      framesBytes header.baseSeq frames).length = manifestLogHeaderLen + framesLength frames := by
    rw [List.length_append, slice_length (by have long := accepts.long; omega),
      framesBytes_length reaches.valid]
  -- the part of the group that survived
  obtain ⟨complete, torn, ⟨rest, rfl⟩, isWritten, tail, cut⟩ :=
    prefix_framesBytes addedValid room (List.take_prefix kept _)
  obtain ⟨completeValid, -⟩ := framesValid_append.mp addedValid
  have survived : crashed.content log = slice (fs.content log) 0 manifestLogHeaderLen ++
      (framesBytes header.baseSeq (frames ++ complete) ++ torn) := by
    rw [survives.content, content, ← size, List.take_length_add_append, isWritten,
      framesBytes_append, ← reaches.aligned, List.append_assoc, List.append_assoc]
  obtain ⟨state, applied⟩ : ∃ state, applyBodies scan.walk.control complete = .some state := by
    rw [applyBodies_append] at transitions
    obtain ⟨state, applied, -⟩ := Option.bind_eq_some_iff.mp transitions
    exact ⟨state, applied⟩
  have counted : min kept (framesLength (complete ++ rest)) = framesLength complete + torn.length := by
    have lengths := congrArg List.length isWritten
    rwa [List.length_take, framesBytes_length addedValid, List.length_append,
      framesBytes_length completeValid] at lengths
  rw [framesLength_append] at room
  rw [Nat.add_assoc, ← framesLength_append] at tail
  obtain ⟨again, repaired, completes, isState, lastSeq, logLen, cutAgain, second⟩ :=
    accepts.recovers reaches completeValid (by rw [framesLength_append]; omega) tail applied
      ((survives.names _).trans checkpointFound) ((survives.names _).trans logFound)
      ((survives.others _ accepts.distinct).trans sameCheckpoint) survived
  rw [framesLength_append, ← Nat.add_assoc] at logLen cutAgain
  refine ⟨complete, state, again, repaired, List.prefix_append _ _, by omega, fun body longer => ?_,
    applied, completes, isState, lastSeq, logLen, survives.trans cutAgain (by omega), second⟩
  have shorter := cut body longer
  obtain ⟨others, rfl⟩ := (List.prefix_append_right_inj _).mp longer
  simp only [framesLength_append, framesLength_cons, framesLength_nil] at counted ⊢
  omega

end

/-- Two frames were added and a crash kept the first one and ten bytes of the second one: recovery
applies the first one. -/
theorem recover_torn_group_sample :
    ∃ recovery middle manifest final again repaired,
      Completes (@recover Hasher.fnv .sample) (.manifestSample 5 6) recovery middle ∧
      Completes (@Manifest.appendGroup Hasher.fnv recovery.manifest
        [.release ⟨1, [⟨0, 1⟩]⟩, .release ⟨2, [⟨0, 1⟩]⟩] .unknown) middle manifest final ∧
      Completes (@recover Hasher.fnv .sample) (final.cut 1 (recovery.manifest.logLen + 98)) again
        repaired ∧
      applyBodies recovery.control [.release ⟨1, [⟨0, 1⟩]⟩] = some again.control ∧
      again.manifest.logLen = recovery.manifest.logLen + 88 := by
  obtain ⟨value, final, completes⟩ := exists_completes
    (extendSample [.release ⟨1, [⟨0, 1⟩]⟩, .release ⟨2, [⟨0, 1⟩]⟩] >>= fun pair =>
      require (pair.1.manifest.lastSeq = 5 ∧ pair.1.manifest.file = 1) .manifestSequenceExhausted)
    (.manifestSample 5 6) (by decide +kernel)
  obtain ⟨⟨recovery, manifest⟩, last, extended, afterCheck⟩ := completes.bind
  obtain ⟨checked, rfl⟩ := Returns.require afterCheck.returns
  obtain ⟨lastSeq, isFile⟩ := of_decide_eq_true checked
  obtain ⟨middle, recovered, -, appended⟩ := extendSample_completes extended
  have aligned : logEnd ((Fs.manifestSample 5 6).content recovery.manifest.file) =
      recovery.manifest.lastSeq + 1 := by
    rw [lastSeq, isFile]
    decide +kernel
  obtain ⟨complete, state, again, repaired, part, inside, most, applied, first, rfl, -, logLen, -, -⟩ :=
    @recover_torn_group Hasher.fnv _ _ _ _ _ (final.cut 1 (recovery.manifest.logLen + 98)) _ _ _ _
      (recovery.manifest.logLen + 98) recovered.returns aligned (List.cons_ne_nil _ _)
      (by simp [ManifestBody.Representable]) rfl appended.returns
      (by rw [isFile]; exact @Fs.logCut_repaired Hasher.fnv final 1 (some _)) (Nat.le_add_right _ _)
  refine ⟨recovery, middle, manifest, final, again, repaired, recovered, appended, first, ?_⟩
  have sizes : framesLength [.release ⟨1, [⟨0, 1⟩]⟩] = 88 ∧
      framesLength [.release ⟨1, [⟨0, 1⟩]⟩, .release ⟨2, [⟨0, 1⟩]⟩] = 176 := by decide +kernel
  rcases List.prefix_cons_iff.mp part with rfl | ⟨rest, rfl, second⟩
  · have short := most _ ⟨_, rfl⟩
    rw [List.nil_append, sizes.1] at short
    omega
  · rcases List.prefix_cons_iff.mp second with rfl | ⟨rest, rfl, none⟩
    · exact ⟨applied, by rw [logLen, sizes.1]⟩
    · obtain rfl := List.prefix_nil.mp none
      rw [sizes.2] at inside
      omega

end Camus
