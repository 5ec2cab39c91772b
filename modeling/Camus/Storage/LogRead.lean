/-
**Any log that recovery accepts.**

`LogImage` says what recovery makes of a log that was written as an image. Here the log is arbitrary:
whatever recovery accepts is an image, because a frame has only one encoding.

* `scanFrames_eq_ok` — an accepted log is a header, complete frames with consecutive sequences and
  an incomplete tail.
* `returns_recover`, `completes_recover` — recovery as a function of the two files.
* `recover_extended_iff` — recovery of a log that was extended by some frames. The next frame is numbered
  after the state of the checkpoint, but checked against the position in the log: the two agree
  exactly if the log reaches the fence of the checkpoint.
-/

import Camus.Storage.LogImage
import Camus.Format.Canonical
import Camus.Storage.SegmentHistory

set_option linter.unusedSectionVars false

namespace Camus

open Codec Checked Disk FaultIo Result

/-! ### Where a log ends -/

/-- The number of complete frames in a log from an offset on. -/
def completeFrames (log : Bytes) : Nat → Nat → Nat
  | 0, _ => 0
  | fuel + 1, offset =>
    if log.length < offset + manifestFrameHeaderLen then 0
    else
      let frameEnd := offset + (manifestFrameHeaderLen + readWord log (offset + 24))
      if log.length < frameEnd then 0 else completeFrames log fuel frameEnd + 1

/-- The sequence after the last complete frame of a log. -/
def logEnd (log : Bytes) : Nat :=
  readWord log 24 + completeFrames log log.length manifestLogHeaderLen

/-- The log holds every frame up to the fence of the checkpoint. -/
def Fs.reachesFence (fs : Fs) : Bool :=
  match rootDirectory.lookup .checkpoint fs, rootDirectory.lookup .manifestLog fs with
  | some checkpoint, some log => readWord (fs.content checkpoint) 24 < logEnd (fs.content log)
  | _, _ => false

section

variable [Hasher]

/-! ### The frames of an accepted log -/

theorem walkBodies_append {lastAppliedSeq seq : Nat} {walk : LogWalk} (left right : List ManifestBody) :
    walkBodies lastAppliedSeq seq walk (left ++ right) =
      (walkBodies lastAppliedSeq seq walk left).bind fun middle =>
        walkBodies lastAppliedSeq (seq + left.length) middle right := by
  induction left generalizing seq walk with
  | nil => rfl
  | cons body rest ih =>
    simp only [List.cons_append, walkBodies, List.length_cons, Nat.add_comm rest.length,
      ← Nat.add_assoc]
    split
    · exact ih
    · split
      · cases applyBody walk.control body with
        | none => rfl
        | some control => exact ih
      · rfl

/-- A frame that was taken is one step of the walk. -/
theorem walkBodies_of_takeFrame {lastAppliedSeq offset seq : Nat} {walk next : LogWalk}
    {body : ManifestBody} (taken : takeFrame lastAppliedSeq offset walk ⟨seq, body⟩ = .ok next)
    (rest : List ManifestBody) :
    walkBodies lastAppliedSeq seq walk (body :: rest) =
      walkBodies lastAppliedSeq (seq + 1) next rest := by
  unfold takeFrame at taken
  rw [walkBodies]
  split at taken
  · rename_i stale
    cases taken
    rw [if_pos stale]
  · rename_i fresh
    simp only [bind_eq_ok, orError_eq_ok, checkedAdd_eq_some, ensure_eq_ok,
      decide_eq_true_eq, pure_eq_ok, applyFrame_eq_ok] at taken
    obtain ⟨_, ⟨rfl, -⟩, _, follows, control, applied, rfl⟩ := taken
    rw [if_neg fresh, if_pos follows.symm, applied, Option.bind_some]

theorem completeFrames_done {bytes : Bytes} {offset : Nat} (done : bytes.length ≤ offset) (fuel : Nat) :
    completeFrames bytes fuel offset = 0 := by
  cases fuel with
  | zero => rfl
  | succ fuel => rw [completeFrames, if_pos (by unfold manifestFrameHeaderLen; omega)]

theorem scanFrames_done {bytes : Bytes} {lastAppliedSeq offset seq : Nat} {walk : LogWalk}
    (done : bytes.length ≤ offset) (fuel : Nat) :
    scanFrames bytes lastAppliedSeq fuel offset seq walk = .ok ⟨walk, none⟩ := by
  cases fuel with
  | zero => rfl
  | succ fuel => rw [scanFrames, if_pos done]

/-- The bytes of an accepted frame are a slice of the log. -/
theorem frameBytes_of_decode {bytes : Bytes} {offset : Nat} {header : ManifestFrameHeader}
    {frame : ManifestFrame}
    (isHeader : ManifestFrameHeader.decode (slice bytes offset manifestFrameHeaderLen) = .ok header)
    (isFrame : ManifestFrame.decode header
      (slice bytes (offset + manifestFrameHeaderLen) header.bodyLen) = .ok frame)
    (inside : offset + (manifestFrameHeaderLen + header.bodyLen) ≤ bytes.length)
    (short : manifestFrameHeaderLen + header.bodyLen ≤ wordMax) :
    FrameValid header.manifestSeq frame.body ∧ frame = ⟨header.manifestSeq, frame.body⟩ ∧
      frame.body.frameLength = manifestFrameHeaderLen + header.bodyLen ∧
      slice bytes offset frame.body.frameLength = frameBytes header.manifestSeq frame.body := by
  have sized : (slice bytes (offset + manifestFrameHeaderLen) header.bodyLen).length =
      header.bodyLen := slice_length (by omega)
  obtain ⟨encoded, sameSeq, bounded, fits, headerSized⟩ :=
    ManifestFrame.encodeParts_decode isHeader isFrame (by omega)
  rw [← slice_add, sameSeq] at encoded
  rw [sameSeq] at bounded
  obtain ⟨valid, same⟩ := frameValid_of_encoded bounded fits encoded
  have length : frame.body.frameLength = manifestFrameHeaderLen + header.bodyLen := by
    rw [← frameBytes_length valid, same, slice_length inside]
  exact ⟨valid, by rw [← sameSeq], length, by rw [length, same]⟩

/-- **An accepted log** is complete frames with consecutive sequences and an incomplete tail. -/
theorem scanFrames_eq_ok {bytes : Bytes} {lastAppliedSeq fuel offset seq : Nat} {walk : LogWalk}
    {scan : LogScan} (enough : bytes.length ≤ offset + fuel) (inside : offset ≤ bytes.length)
    (bounded : seq ≤ wordMax)
    (scanned : scanFrames bytes lastAppliedSeq fuel offset seq walk = .ok scan) :
    ∃ frames torn, bytes.drop offset = framesBytes seq frames ++ torn ∧ FramesValid seq frames ∧
      walkBodies lastAppliedSeq seq walk frames = some scan.walk ∧
      scan.repair = (if torn = [] then none else some (offset + framesLength frames)) ∧
      completeFrames bytes fuel offset = frames.length := by
  induction fuel generalizing offset seq walk with
  | zero =>
    cases scanned
    refine ⟨[], [], ?_, trivial, rfl, rfl, rfl⟩
    simpa [framesBytes] using enough
  | succ fuel ih =>
    unfold scanFrames at scanned
    split at scanned
    · rename_i done
      cases scanned
      refine ⟨[], [], by simpa [framesBytes] using done, trivial, rfl, rfl, ?_⟩
      rw [completeFrames, if_pos (by unfold manifestFrameHeaderLen; omega)]
      rfl
    · rename_i more
      have left : bytes.drop offset ≠ [] := by simpa using more
      split at scanned
      · rename_i short
        cases scanned
        refine ⟨[], bytes.drop offset, by simp [framesBytes], trivial, rfl, by simp [left], ?_⟩
        rw [completeFrames, if_pos (by omega)]
        rfl
      · rename_i long
        simp only [malformed, bind_eq_ok, mapError_eq_ok, orError_eq_ok,
          checkedAdd_eq_some, ensure_eq_ok, decide_eq_true_eq] at scanned
        obtain ⟨header, isHeader, _, rfl, _, ⟨rfl, -⟩, _, ⟨rfl, room⟩, scanned⟩ := scanned
        have bodyLen : readWord bytes (offset + 24) = header.bodyLen := by
          have shape := isHeader
          simp only [ManifestFrameHeader.decode, bind_eq_ok, ensure_eq_ok,
            exact_eq_ok, pure_eq_ok] at shape
          obtain ⟨_, ⟨-, rfl⟩, _, -, _, -, _, -, _, -, rfl⟩ := shape
          exact (readWord_slice (by unfold manifestFrameHeaderLen; omega)).symm
        split at scanned
        · rename_i torn
          cases scanned
          refine ⟨[], bytes.drop offset, by simp [framesBytes], trivial, rfl, by simp [left], ?_⟩
          rw [completeFrames, if_neg (by omega)]
          simp only [bodyLen]
          rw [if_pos torn]
          rfl
        · rename_i complete
          simp only [bind_eq_ok, mapError_eq_ok] at scanned
          obtain ⟨frame, isFrame, next, taken, nextSeq, isNext, scanned⟩ := scanned
          obtain ⟨valid, rebuilt, length, content⟩ :=
            frameBytes_of_decode isHeader isFrame (by omega) (by omega)
          rw [rebuilt] at taken
          rw [← length] at isNext scanned complete room
          have counted : completeFrames bytes (fuel + 1) offset =
              completeFrames bytes fuel (offset + frame.body.frameLength) + 1 := by
            rw [completeFrames, if_neg (by omega)]
            simp only [bodyLen, ← length]
            rw [if_neg complete]
          have split : bytes.drop offset = frameBytes header.manifestSeq frame.body ++
              bytes.drop (offset + frame.body.frameLength) := by
            rw [← content, ← List.drop_drop]
            exact (List.take_append_drop _ _).symm
          unfold nextPhysicalSeq at isNext
          split at isNext
          · obtain ⟨rfl, following⟩ := checkedAdd_eq_some.mp (orError_eq_ok.mp isNext)
            have positive := frameLength_pos frame.body
            unfold manifestFrameHeaderLen at positive
            obtain ⟨frames, torn, rest, others, walked, repair, count⟩ :=
              ih (by omega) (by omega) following scanned
            refine ⟨frame.body :: frames, torn, ?_, ⟨valid, others⟩, ?_, ?_, ?_⟩
            · rw [split, rest, framesBytes, List.append_assoc]
            · rw [walkBodies_of_takeFrame taken, walked]
            · rw [repair, framesLength_cons, Nat.add_assoc]
            · rw [counted, count, List.length_cons]
          · rename_i done
            rw [scanFrames_done (by omega)] at scanned
            cases scanned
            refine ⟨[frame.body], [], ?_, ⟨valid, trivial⟩, ?_, rfl, ?_⟩
            · rw [split, List.drop_eq_nil_of_le (by omega)]
              simp [framesBytes]
            · rw [walkBodies_of_takeFrame taken]
              rfl
            · rw [counted, completeFrames_done (by omega)]
              rfl

/-! ### Recovery as a function of the files -/

/-- What recovery reads from the two files. -/
structure Accepts (rootId : RootId) (fs : Fs) (file log : Nat) (checkpoint : Checkpoint)
    (header : ManifestLogHeader) (scan : LogScan) : Prop where
  checkpointFound : rootDirectory.lookup .checkpoint fs = some file
  logFound : rootDirectory.lookup .manifestLog fs = some log
  short : (fs.content file).length ≤ wordMax
  isCheckpoint : recoverCheckpoint rootId (fs.content file) = .ok checkpoint
  long : manifestLogHeaderLen ≤ (fs.content log).length
  isHeader : scanLogHeader rootId checkpoint.lastAppliedSeq
    (slice (fs.content log) 0 manifestLogHeaderLen) = .ok header
  scanned : scanFrames (fs.content log) checkpoint.lastAppliedSeq (fs.content log).length
    manifestLogHeaderLen header.baseSeq ⟨checkpoint.lastAppliedSeq, 0, checkpoint.control⟩ = .ok scan

/-- What recovery reports. -/
def LogScan.report (scan : LogScan) (checkpoint : Checkpoint) (log checkpointLen fileLen : Nat) :
    ControlRecovery where
  framesScanned := scan.walk.framesScanned
  repairedTail := scan.repair.isSome
  checkpointNextSegmentId := checkpoint.nextSegmentId
  checkpointStreamHighwaters := checkpoint.streamHighwaters
  control := scan.walk.control
  manifest := {
    file := log
    checkpointLen := checkpointLen
    logLen := scan.repair.getD fileLen
    lastSeq := scan.walk.lastSeq }

/-- The disk after the log was repaired. -/
def Fs.repaired (fs : Fs) (log : Nat) : Option Nat → Fs
  | none => fs
  | some length => fs.cut log length

section Recover

variable {rootId : RootId} {fs final : Fs} {file log : Nat} {checkpoint : Checkpoint}
  {header : ManifestLogHeader} {scan : LogScan} {recovery : ControlRecovery}

theorem returns_readCompleteFile {name : RootName} {bytes : Bytes}
    (returned : Returns (readCompleteFile name) fs bytes final) :
    final = fs ∧ ∃ inode, rootDirectory.lookup name fs = some inode ∧
      (fs.content inode).length ≤ wordMax ∧ bytes = fs.content inode := by
  obtain ⟨inode, found, returned⟩ := returned.bind_read.bind_ofOption
  obtain ⟨short, returned⟩ := returned.bind_observe.bind_observe.bind_require
  obtain ⟨rfl, rfl⟩ := returned.bind_observe.pure
  exact ⟨rfl, inode, found, of_decide_eq_true short, rfl⟩

theorem returns_truncateTail {repair : Option Nat} {found : Unit}
    (returned : Returns (truncateTail log repair) fs found final) : final = fs.repaired log repair := by
  cases repair with
  | none => exact (Returns.result returned).2
  | some length => exact (Returns.bind_step returned).step

theorem completes_truncateTail (repair : Option Nat) :
    Completes (truncateTail log repair) fs () (fs.repaired log repair) := by
  cases repair with
  | none => exact completes_result ()
  | some length => exact completes_bind (completes_step _ _ _) (completes_step _ _ _)

theorem returns_recover (returned : Returns (recover rootId) fs recovery final) :
    ∃ file log checkpoint header scan, Accepts rootId fs file log checkpoint header scan ∧
      recovery = scan.report checkpoint log (fs.content file).length (fs.content log).length ∧
      final = fs.repaired log scan.repair := by
  unfold recover at returned
  obtain ⟨bytes, middle, whole, returned⟩ := returned.bind
  obtain ⟨rfl, file, checkpointFound, short, rfl⟩ := returns_readCompleteFile whole
  obtain ⟨checkpoint, isCheckpoint, returned⟩ := returned.bind_ofExcept
  obtain ⟨log, logFound, returned⟩ := returned.bind_read.bind_ofOption
  obtain ⟨long, returned⟩ := returned.bind_observe.bind_observe.bind_require
  obtain ⟨header, isHeader, returned⟩ := returned.bind_observe.bind_ofExcept
  obtain ⟨scan, scanned, returned⟩ := returned.bind_ofExcept
  obtain ⟨_, after, cut, returned⟩ := returned.bind
  obtain ⟨rfl, rfl⟩ := returned.bind_observe.pure
  exact ⟨file, log, checkpoint, header, scan, ⟨checkpointFound, logFound, short, isCheckpoint,
    of_decide_eq_true long, isHeader, scanned⟩, rfl, returns_truncateTail cut⟩

theorem completes_readCompleteFile {name : RootName} {inode : Nat}
    (found : rootDirectory.lookup name fs = some inode) (short : (fs.content inode).length ≤ wordMax) :
    Completes (readCompleteFile name) fs (fs.content inode) fs := by
  unfold readCompleteFile
  refine completes_bind completes_read (completes_bind (completes_ofOption found) ?_)
  refine completes_bind (completes_observe _) (completes_bind (completes_observe _) ?_)
  exact completes_bind (completes_require (decide_eq_true short))
    (completes_bind (completes_observe _) (completes_result _))

theorem completes_recover (accepts : Accepts rootId fs file log checkpoint header scan) :
    Completes (recover rootId) fs
      (scan.report checkpoint log (fs.content file).length (fs.content log).length)
      (fs.repaired log scan.repair) := by
  unfold recover
  refine completes_bind (completes_readCompleteFile accepts.checkpointFound accepts.short) ?_
  refine completes_bind (completes_ofExcept accepts.isCheckpoint) (completes_bind completes_read ?_)
  refine completes_bind (completes_ofOption accepts.logFound) ?_
  refine completes_bind (completes_observe _) (completes_bind (completes_observe _) ?_)
  refine completes_bind (completes_require (decide_eq_true accepts.long)) ?_
  refine completes_bind (completes_observe _) (completes_bind (completes_ofExcept accepts.isHeader) ?_)
  refine completes_bind (completes_ofExcept accepts.scanned) ?_
  exact completes_bind (completes_truncateTail _)
    (completes_bind (completes_observe _) (completes_result _))

theorem Accepts.decoded (accepts : Accepts rootId fs file log checkpoint header scan) :
    Checkpoint.decode (fs.content file) = .ok checkpoint := by
  have isCheckpoint := accepts.isCheckpoint
  simp only [recoverCheckpoint, malformed, bind_eq_ok, mapError_eq_ok, pure_eq_ok] at isCheckpoint
  obtain ⟨found, decoded, _, -, rfl⟩ := isCheckpoint
  exact decoded

theorem Accepts.checkpointWords (accepts : Accepts rootId fs file log checkpoint header scan) :
    slice (fs.content file) 0 8 = checkpointMagic ∧
      readWord (fs.content file) 24 = checkpoint.lastAppliedSeq := by
  have decoded := accepts.decoded
  simp only [Checkpoint.decode, bind_eq_ok, ensure_eq_ok, decide_eq_true_eq] at decoded
  obtain ⟨_, -, _, magic, _, -, _, -, _, -, _, -, body⟩ := decoded
  refine ⟨?_, ?_⟩
  · rw [← magic, slice_slice (by decide)]
  · rw [(Checkpoint.decodeBody_eq_ok body).2.1, readWord_slice (by decide)]

theorem Accepts.logWords (accepts : Accepts rootId fs file log checkpoint header scan) :
    slice (fs.content log) 0 8 = manifestLogMagic ∧
      readWord (fs.content log) 24 = header.baseSeq ∧ header.baseSeq ≤ wordMax ∧
      header.baseSeq ≤ checkpoint.lastAppliedSeq + 1 := by
  have decoded := accepts.isHeader
  simp only [scanLogHeader, malformed, bind_eq_ok, mapError_eq_ok,
    pure_eq_ok, ensure_eq_ok, ManifestLogHeader.decode, exact_eq_ok,
    decide_eq_true_eq] at decoded
  obtain ⟨found, ⟨_, ⟨-, rfl⟩, _, magic, _, -, rfl⟩, _, -, _, -, _, covered, rfl⟩ := decoded
  have bound := readWord_le (slice (fs.content log) 0 manifestLogHeaderLen) 24
  refine ⟨?_, by rw [readWord_slice (by decide)], bound, ?_⟩
  · rw [← magic, slice_slice (by decide)]
  · simp only [Bool.not_eq_true', Bool.and_eq_false_iff, decide_eq_false_iff_not] at covered ⊢
    omega

/-- The two files differ: they begin with different words. -/
theorem Accepts.distinct (accepts : Accepts rootId fs file log checkpoint header scan) :
    file ≠ log := by
  rintro rfl
  have magic := accepts.checkpointWords.1.symm.trans accepts.logWords.1
  exact absurd magic (by decide)

/-- **The frames of an accepted log**: recovery keeps the header and the complete frames. -/
theorem Accepts.frames (accepts : Accepts rootId fs file log checkpoint header scan) :
    ∃ frames, FramesValid header.baseSeq frames ∧
      walkBodies checkpoint.lastAppliedSeq header.baseSeq
        ⟨checkpoint.lastAppliedSeq, 0, checkpoint.control⟩ frames = some scan.walk ∧
      logEnd (fs.content log) = header.baseSeq + frames.length ∧
      scan.repair.getD (fs.content log).length = manifestLogHeaderLen + framesLength frames ∧
      (fs.repaired log scan.repair).HoldsAt log
        (slice (fs.content log) 0 manifestLogHeaderLen ++ framesBytes header.baseSeq frames) := by
  obtain ⟨-, base, bounded, -⟩ := accepts.logWords
  have long := accepts.long
  obtain ⟨frames, torn, rest, valid, walked, repair, counted⟩ :=
    scanFrames_eq_ok (by omega) long bounded accepts.scanned
  have size := framesBytes_length valid
  have headerSize : (slice (fs.content log) 0 manifestLogHeaderLen).length = manifestLogHeaderLen :=
    slice_length (by omega)
  have whole : fs.content log = (slice (fs.content log) 0 manifestLogHeaderLen ++
      framesBytes header.baseSeq frames) ++ torn := by
    rw [List.append_assoc, ← rest]
    exact (List.take_append_drop _ _).symm
  have held : fs.HoldsAt log (fs.content log) := by
    refine Fs.holdsAt_content fun empty => ?_
    rw [empty] at long
    exact absurd long (by decide)
  have kept : ((fs.content log).take (manifestLogHeaderLen + framesLength frames)) =
      slice (fs.content log) 0 manifestLogHeaderLen ++ framesBytes header.baseSeq frames := by
    conv_lhs => rw [whole]
    rw [List.take_left' (by rw [List.length_append, headerSize, size])]
  refine ⟨frames, valid, walked, by rw [logEnd, base, counted], ?_, ?_⟩
  · rw [repair]
    split
    · rename_i untorn
      rw [Option.getD_none, whole, untorn, List.append_nil, List.length_append, headerSize, size]
    · rfl
  · rw [repair, ← kept]
    split
    · rename_i untorn
      rw [kept]
      rw [untorn, List.append_nil] at whole
      rwa [← whole]
    · exact held.cut _

/-! ### A log that was extended -/

/-- The scan over complete frames arrives at whatever follows them. -/
theorem scanFrames_reaches {lastAppliedSeq seq fuel : Nat} {frames : List ManifestBody}
    {before rest : Bytes} {walk last : LogWalk} (valid : FramesValid seq frames)
    (room : before.length + framesLength frames ≤ wordMax)
    (walked : walkBodies lastAppliedSeq seq walk frames = some last) (more : rest ≠ [])
    (bounded : seq + frames.length ≤ wordMax) :
    scanFrames (before ++ (framesBytes seq frames ++ rest)) lastAppliedSeq (frames.length + fuel)
        before.length seq walk =
      scanFrames (before ++ (framesBytes seq frames ++ rest)) lastAppliedSeq fuel
        (before.length + framesLength frames) (seq + frames.length) last := by
  induction frames generalizing before seq walk with
  | nil =>
    obtain rfl : walk = last := by simpa [walkBodies] using walked
    simp
  | cons body others ih =>
    obtain ⟨frame, restValid⟩ := valid
    rw [framesLength_cons] at room
    rw [List.length_cons] at bounded
    have sized := frameBytes_length frame
    obtain ⟨next, taken, walked⟩ := @takeFrame_eq _ lastAppliedSeq before.length seq walk
      body others last frame.bounded walked
    have later := @ih (seq + 1) (before ++ frameBytes seq body) next restValid
      (by rw [List.length_append, sized]; omega) walked (by omega)
    rw [List.length_append, sized, List.append_assoc, ← List.append_assoc (frameBytes seq body)]
      at later
    have positive : 0 < rest.length := List.length_pos_iff.mpr more
    rw [List.length_cons, Nat.add_right_comm, framesBytes, List.append_assoc,
      scanFrames_frame frame (by omega) taken, nextPhysicalSeq, if_pos (by simp [sized]; omega),
      checkedAdd_of_le (by omega), orError_some, ok_bind, ← List.append_assoc
      (frameBytes seq body), later, framesLength_cons, ← Nat.add_assoc, Nat.add_assoc seq 1,
      Nat.add_comm 1]

/-- A frame with another sequence than its place asks for is refused. -/
theorem scanFrames_misplaced {lastAppliedSeq seq other fuel : Nat} {body : ManifestBody}
    {before rest : Bytes} {walk : LogWalk} (frame : FrameValid other body) (misplaced : other ≠ seq)
    (scan : LogScan) :
    scanFrames (before ++ (frameBytes other body ++ rest)) lastAppliedSeq (fuel + 1) before.length
      seq walk ≠ .ok scan := by
  have positive := frameLength_pos body
  unfold manifestFrameHeaderLen at positive
  have sized := frameBytes_length frame
  obtain ⟨header, decoded, same, -, -, -⟩ :=
    ManifestFrame.decode_encodeParts frame.bounded frame.fits frame.encoded
  have total : (before ++ (frameBytes other body ++ rest)).length =
      before.length + (body.frameLength + rest.length) := by simp [sized]
  intro scanned
  rw [scanFrames, if_neg (by rw [total]; omega),
    if_neg (by rw [total]; unfold manifestFrameHeaderLen; omega), slice_frameHeader frame] at scanned
  simp only [malformed, decoded, mapError, ok_bind, bind_eq_ok,
    ensure_eq_ok, decide_eq_true_eq] at scanned
  obtain ⟨_, placed, -⟩ := scanned
  exact misplaced (same.symm.trans placed)

theorem returns_manifestAppend {manifest next : Manifest} {bodies : List ManifestBody}
    {outcome : DurabilityOutcome} (some : bodies ≠ []) (fits : ∀ body ∈ bodies, body.Representable)
    (returned : Returns (manifest.appendGroup bodies outcome) fs next final) :
    FramesValid (manifest.lastSeq + 1) bodies ∧
      manifest.logLen + framesLength bodies ≤ wordMax ∧
      next = { manifest with
        logLen := manifest.logLen + framesLength bodies
        lastSeq := manifest.lastSeq + bodies.length } ∧
      final = (fs.modifyNode manifest.file (FileNode.append
        (framesBytes (manifest.lastSeq + 1) bodies))).modifyNode manifest.file FileNode.sync := by
  obtain ⟨none, -⟩ | ⟨frames, last, -, bounded, encoded, room, rfl, rfl⟩ :=
    Manifest.returns_appendGroup returned
  · exact absurd none some
  · obtain ⟨valid, written, counted⟩ := encodeFrames_eq_ok bounded fits some encoded
    rw [written, framesBytes_length valid] at room ⊢
    refine ⟨valid, room, ?_, rfl⟩
    congr 1
    omega

/-- The sequence recovery continues from is that of the log or, if the log ends below the fence, that
of the checkpoint. -/
theorem lastSeq_eq {frames : List ManifestBody} {lastAppliedSeq base : Nat} {control : Control}
    {last : LogWalk} (covered : base ≤ lastAppliedSeq + 1)
    (walked : walkBodies lastAppliedSeq base ⟨lastAppliedSeq, 0, control⟩ frames = some last) :
    last.lastSeq = lastAppliedSeq + (base + frames.length - (lastAppliedSeq + 1)) := by
  have fenced := walkBodies_fence frames ⟨lastAppliedSeq, 0, control⟩ rfl covered
  rw [walked, Option.map_some] at fenced
  obtain ⟨_, -, same⟩ := Option.map_eq_some_iff.mp fenced.symm
  have counted := congrArg Prod.fst same
  simp only [freshFrames, List.length_drop] at counted
  omega

theorem Accepts.reachesFence (accepts : Accepts rootId fs file log checkpoint header scan) :
    fs.reachesFence = true ↔ checkpoint.lastAppliedSeq < logEnd (fs.content log) := by
  rw [Fs.reachesFence, accepts.checkpointFound, accepts.logFound, decide_eq_true_eq,
    accepts.checkpointWords.2]

/-- The files of an accepted manifest after a group of frames was added. -/
theorem Accepts.extended {middle : Fs} {bytes added : Bytes}
    (accepts : Accepts rootId fs file log checkpoint header scan)
    (repaired : middle = fs.repaired log scan.repair) (holds : middle.HoldsAt log bytes)
    (written : final = (middle.modifyNode log (FileNode.append added)).modifyNode log FileNode.sync) :
    rootDirectory.lookup .checkpoint final = some file ∧
      rootDirectory.lookup .manifestLog final = some log ∧
      final.content file = fs.content file ∧ final.content log = bytes ++ added := by
  have sameRoot : final.root = fs.root := by
    rw [written, repaired]
    cases scan.repair <;> rfl
  refine ⟨?_, ?_, ?_, ?_⟩
  · rw [← accepts.checkpointFound]
    simp only [Place.lookup, rootDirectory, sameRoot]
  · rw [← accepts.logFound]
    simp only [Place.lookup, rootDirectory, sameRoot]
  · rw [written, Fs.modifyNode_content_other accepts.distinct,
      Fs.modifyNode_content_other accepts.distinct, repaired]
    cases scan.repair with
    | none => rfl
    | some length =>
      rw [Fs.repaired, Fs.cut, Fs.modifyNode_content_other accepts.distinct,
        Fs.modifyNode_content_other accepts.distinct]
  · rw [written]
    exact (holds.append added).sync.content

/-- The scan of a log whose frames go on in sequence. -/
theorem scanFrames_extended {lastAppliedSeq base : Nat} {control next : Control}
    {frames bodies : List ManifestBody} {before : Bytes} {last : LogWalk}
    (valid : FramesValid base frames) (addedValid : FramesValid (last.lastSeq + 1) bodies)
    (room : before.length + (framesLength frames + framesLength bodies) ≤ wordMax)
    (long : before ≠ []) (fresh : lastAppliedSeq ≤ last.lastSeq)
    (aligned : last.lastSeq + 1 = base + frames.length)
    (walked : walkBodies lastAppliedSeq base ⟨lastAppliedSeq, 0, control⟩ frames = some last)
    (transitions : applyBodies last.control bodies = some next) :
    ∃ walk, walk.control = next ∧ walk.lastSeq = last.lastSeq + bodies.length ∧
      scanFrames (before ++ (framesBytes base frames ++ framesBytes (last.lastSeq + 1) bodies))
        lastAppliedSeq (before ++ (framesBytes base frames ++
          framesBytes (last.lastSeq + 1) bodies)).length before.length base
        ⟨lastAppliedSeq, 0, control⟩ = .ok ⟨walk, none⟩ := by
  have after := walkBodies_after bodies last fresh
  rw [transitions, Option.map_some] at after
  obtain ⟨walk, walkedOn, ends⟩ := Option.map_eq_some_iff.mp after
  obtain ⟨lastSeq, isControl⟩ := Prod.mk.inj ends
  have positive : 0 < before.length := List.length_pos_iff.mpr long
  have whole : framesBytes base frames ++ framesBytes (last.lastSeq + 1) bodies =
      framesBytes base (frames ++ bodies) ++ [] := by
    rw [aligned, ← framesBytes_append, List.append_nil]
  have bothValid : FramesValid base (frames ++ bodies) :=
    framesValid_append.mpr ⟨valid, by rwa [← aligned]⟩
  have bothWalked : walkBodies lastAppliedSeq base ⟨lastAppliedSeq, 0, control⟩ (frames ++ bodies) =
      some walk := by
    rw [walkBodies_append, walked, Option.bind_some, ← aligned, walkedOn]
  have size : (before ++ (framesBytes base (frames ++ bodies) ++ [])).length =
      before.length + framesLength (frames ++ bodies) := by
    rw [List.append_nil, List.length_append, framesBytes_length bothValid]
  -- Every frame takes some bytes, so there is fuel for all of them.
  obtain ⟨spare, fuel⟩ : ∃ spare, before.length + framesLength (frames ++ bodies) =
      (frames ++ bodies).length + (spare + 1) := by
    have counted := length_le_framesLength (frames ++ bodies)
    exact ⟨before.length + framesLength (frames ++ bodies) - (frames ++ bodies).length - 1, by omega⟩
  refine ⟨walk, isControl, lastSeq, ?_⟩
  rw [whole, size, fuel, scanFrames_image bothValid (by rw [framesLength_append]; exact room)
    (.inl rfl) bothWalked]
  rfl

/-- The scan of a log whose added frames do not go on in sequence. -/
theorem scanFrames_refuses {lastAppliedSeq base other fuel : Nat} {walk last : LogWalk}
    {frames bodies : List ManifestBody} {before : Bytes} (valid : FramesValid base frames)
    (addedValid : FramesValid other bodies) (some : bodies ≠ [])
    (room : before.length + framesLength frames ≤ wordMax)
    (bounded : base + frames.length ≤ wordMax) (misplaced : other ≠ base + frames.length)
    (enough : frames.length < fuel)
    (walked : walkBodies lastAppliedSeq base walk frames = .some last) (scan : LogScan) :
    scanFrames (before ++ (framesBytes base frames ++ framesBytes other bodies)) lastAppliedSeq fuel
      before.length base walk ≠ .ok scan := by
  cases bodies with
  | nil => exact absurd rfl some
  | cons body rest =>
    have present : framesBytes other (body :: rest) ≠ [] := by
      have positive := frameLength_pos body
      intro empty
      have none := congrArg List.length empty
      rw [framesBytes_length addedValid, framesLength_cons] at none
      unfold manifestFrameHeaderLen at positive
      simp only [List.length_nil] at none
      omega
    obtain ⟨spare, rfl⟩ : ∃ spare, fuel = frames.length + (spare + 1) :=
      ⟨fuel - frames.length - 1, by omega⟩
    rw [scanFrames_reaches valid room walked present bounded]
    have place : before.length + framesLength frames =
        (before ++ framesBytes base frames).length := by
      rw [List.length_append, framesBytes_length valid]
    rw [place, ← List.append_assoc, framesBytes]
    exact scanFrames_misplaced addedValid.1 misplaced scan

/-- **Recovery is closed under further frames exactly if the log reaches the fence.** A frame that
was added to an accepted log is numbered after the recovered state. If the log ends below the fence
of the checkpoint, the next recovery refuses that frame; otherwise it finds the recovered state
extended by the added frames. -/
theorem recover_extended_iff {middle : Fs} {manifest : Manifest} {bodies : List ManifestBody}
    {outcome : DurabilityOutcome} {next : Control}
    (recovered : Returns (recover rootId) fs recovery middle)
    (more : recovery.manifest.lastSeq < wordMax) (some : bodies ≠ [])
    (fits : ∀ body ∈ bodies, body.Representable)
    (transitions : applyBodies recovery.control bodies = .some next)
    (appended : Returns (recovery.manifest.appendGroup bodies outcome) middle manifest final) :
    (∃ again, Completes (recover rootId) final again final ∧ again.control = next ∧
      again.manifest = manifest ∧ manifest.lastSeq = recovery.manifest.lastSeq + bodies.length ∧
      again.repairedTail = false) ↔ fs.reachesFence = true := by
  obtain ⟨file, log, checkpoint, header, scan, accepts, rfl, isMiddle⟩ := returns_recover recovered
  obtain ⟨frames, valid, walked, logEnds, kept, holds⟩ := accepts.frames
  obtain ⟨-, -, bounded, covered⟩ := accepts.logWords
  obtain ⟨addedValid, room, rfl, isFinal⟩ := returns_manifestAppend some fits appended
  simp only [LogScan.report] at more transitions room addedValid isFinal ⊢
  rw [← isMiddle] at holds
  obtain ⟨checkpointFound, logFound, sameCheckpoint, content⟩ :=
    accepts.extended isMiddle holds isFinal
  have last := lastSeq_eq covered walked
  have headerSize : (slice (fs.content log) 0 manifestLogHeaderLen).length = manifestLogHeaderLen :=
    slice_length (by have long := accepts.long; omega)
  have split : final.content log = slice (fs.content log) 0 manifestLogHeaderLen ++
      (framesBytes header.baseSeq frames ++ framesBytes (scan.walk.lastSeq + 1) bodies) := by
    rw [content, List.append_assoc]
  have sameHeader : slice (final.content log) 0 manifestLogHeaderLen =
      slice (fs.content log) 0 manifestLogHeaderLen := by
    rw [split, slice_append_left (by omega), slice_all headerSize]
  have size : (final.content log).length =
      manifestLogHeaderLen + (framesLength frames + framesLength bodies) := by
    rw [split, List.length_append, List.length_append, headerSize, framesBytes_length valid,
      framesBytes_length addedValid]
  rw [accepts.reachesFence, logEnds]
  rw [kept] at room
  constructor
  · rintro ⟨again, completes, -⟩
    by_contra below
    obtain ⟨file', log', checkpoint', header', scan', accepts', -, -⟩ :=
      returns_recover completes.returns
    obtain rfl : file = file' := Option.some.inj (checkpointFound.symm.trans accepts'.checkpointFound)
    obtain rfl : log = log' := Option.some.inj (logFound.symm.trans accepts'.logFound)
    have isCheckpoint := accepts'.isCheckpoint
    rw [sameCheckpoint, accepts.isCheckpoint] at isCheckpoint
    cases isCheckpoint
    have isHeader := accepts'.isHeader
    rw [sameHeader, accepts.isHeader] at isHeader
    cases isHeader
    have scanned := accepts'.scanned
    have counted := length_le_framesLength frames
    have enough : frames.length < (final.content log).length := by
      rw [size]
      unfold manifestLogHeaderLen
      omega
    rw [← headerSize] at room scanned
    rw [split] at scanned enough
    refine scanFrames_refuses valid addedValid some ?_ ?_ ?_ enough walked scan' scanned <;> omega
  · intro reaches
    have long : slice (fs.content log) 0 manifestLogHeaderLen ≠ [] := by
      intro empty
      rw [empty] at headerSize
      exact absurd headerSize (by decide)
    rw [← headerSize, Nat.add_assoc] at room
    obtain ⟨walk, isNext, lastSeq, scanned⟩ := scanFrames_extended valid addedValid room long
      (by omega) (by omega) walked transitions
    rw [headerSize, ← split] at scanned
    have accepted : Accepts rootId final file log checkpoint header ⟨walk, none⟩ :=
      ⟨checkpointFound, logFound, by rw [sameCheckpoint]; exact accepts.short,
        by rw [sameCheckpoint]; exact accepts.isCheckpoint, by rw [size]; omega,
        by rw [sameHeader]; exact accepts.isHeader, scanned⟩
    refine ⟨_, completes_recover accepted, isNext, ?_, trivial, rfl⟩
    simp only [LogScan.report, Option.getD_none, size, sameCheckpoint, lastSeq, kept, Nat.add_assoc]

end Recover

end

/-- A root without segments whose checkpoint and log carry the given sequences. -/
def Fs.manifestSample (lastAppliedSeq baseSeq : Nat) : Fs :=
  let rootId : RootId := .sample
  let checkpoint := (@Checkpoint.encode Hasher.fnv ⟨rootId, lastAppliedSeq, 0, ∅, ∅⟩).toOption.getD []
  ⟨[⟨checkpoint, []⟩, ⟨@ManifestLogHeader.encode Hasher.fnv ⟨rootId, baseSeq⟩, []⟩],
    ⟨((∅ : Entries RootName).insert .checkpoint 0).insert .manifestLog 1, []⟩, .empty⟩

/-- Recovery of a sample and some more frames. -/
def extendSample (bodies : List ManifestBody) : FsIo (ControlRecovery × Manifest) := do
  let recovery ← @recover Hasher.fnv .sample
  require (recovery.manifest.lastSeq < wordMax) .manifestSequenceExhausted
  let manifest ← @Manifest.appendGroup Hasher.fnv recovery.manifest bodies .unknown
  return (recovery, manifest)

theorem extendSample_completes {fs final : Fs} {recovery : ControlRecovery} {manifest : Manifest}
    {bodies : List ManifestBody}
    (completes : Completes (extendSample bodies) fs (recovery, manifest) final) :
    ∃ middle, Completes (@recover Hasher.fnv .sample) fs recovery middle ∧
      recovery.manifest.lastSeq < wordMax ∧
      Completes (@Manifest.appendGroup Hasher.fnv recovery.manifest bodies .unknown)
        middle manifest final := by
  obtain ⟨recovery, middle, recovered, afterRecovery⟩ := completes.bind
  obtain ⟨_, after, checked, afterCheck⟩ := afterRecovery.bind
  obtain ⟨below, rfl⟩ := Returns.require checked.returns
  obtain ⟨manifest, last, appended, done⟩ := afterCheck.bind
  obtain ⟨same, rfl⟩ := Returns.pure done.returns
  cases same
  exact ⟨_, recovered, of_decide_eq_true below, appended⟩

/-- The checkpoint holds five frames, the log none: the next frame gets the sequence 6 where the log
asks for 1. -/
theorem recover_refuses_added_frame :
    ∃ recovery middle next manifest final,
      Completes (@recover Hasher.fnv .sample) (.manifestSample 5 1) recovery middle ∧
      recovery.manifest.lastSeq < wordMax ∧
      applyBodies recovery.control [.release ⟨1, [⟨0, 1⟩]⟩] = some next ∧
      Completes (@Manifest.appendGroup Hasher.fnv recovery.manifest [.release ⟨1, [⟨0, 1⟩]⟩] .unknown)
        middle manifest final ∧
      ¬ ∃ again last, Completes (@recover Hasher.fnv .sample) final again last := by
  obtain ⟨⟨recovery, manifest⟩, final, completes⟩ :=
    exists_completes (extendSample [.release ⟨1, [⟨0, 1⟩]⟩]) (.manifestSample 5 1) (by decide +kernel)
  obtain ⟨middle, recovered, below, appended⟩ := extendSample_completes completes
  refine ⟨recovery, middle, _, manifest, final, recovered, below, rfl, appended, ?_⟩
  rintro ⟨again, last, third⟩
  have whole : Completes (extendSample [.release ⟨1, [⟨0, 1⟩]⟩] >>= fun _ => @recover Hasher.fnv .sample)
      (.manifestSample 5 1) again last := completes_bind completes third
  exact absurd whole.isOk (by decide +kernel)

/-- The same root with a log that begins after the checkpoint. -/
theorem recover_extended_iff_sample :
    ∃ recovery middle next manifest final again,
      Completes (@recover Hasher.fnv .sample) (.manifestSample 5 6) recovery middle ∧
      applyBodies recovery.control [.release ⟨1, [⟨0, 1⟩]⟩] = some next ∧
      Completes (@Manifest.appendGroup Hasher.fnv recovery.manifest [.release ⟨1, [⟨0, 1⟩]⟩] .unknown)
        middle manifest final ∧
      Completes (@recover Hasher.fnv .sample) final again final ∧
      again.control = next := by
  obtain ⟨⟨recovery, manifest⟩, final, completes⟩ :=
    exists_completes (extendSample [.release ⟨1, [⟨0, 1⟩]⟩]) (.manifestSample 5 6) (by decide +kernel)
  obtain ⟨middle, recovered, below, appended⟩ := extendSample_completes completes
  obtain ⟨again, third, extended, -⟩ := (@recover_extended_iff Hasher.fnv _ _ _ _ _ _ _ _ _
    recovered.returns below (List.cons_ne_nil _ _)
    (fun body member => by obtain rfl := List.mem_singleton.mp member; trivial) rfl
    appended.returns).mpr (by decide +kernel)
  exact ⟨recovery, middle, _, manifest, final, again, recovered, rfl, appended, third, extended⟩

end Camus
