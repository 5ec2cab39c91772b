/-
**The bytes of the manifest log.**

The log as a function of its base sequence and its frames, and what recovery finds in it.

* `applyBodies` — the control state after some frames; recovery applies the frames after the
  sequence fence of the checkpoint and skips the others (`walkBodies_fence`).
* `scanFrames_image` — recovery walks over complete frames and cuts an incomplete tail.
* `prefix_framesBytes` — a part of a group of frames that reached the disk is some complete frames of
  the group, in order, and an incomplete tail.
* `encodeFrames_eq_ok`, `Manifest.returns_appendGroup` — what the writer of a group of frames
  produces, and what it does to the log.
-/

import Camus.Storage.Manifest

set_option linter.unusedSectionVars false

namespace Camus

open Codec Checked Disk FaultIo Result

/-! ### The effect of frames -/

/-- The control state after a frame, if the frame is acceptable. -/
def applyBody (control : Control) (body : ManifestBody) : Option Control :=
  (applyFrame manifestPath 0 control body).toOption

/-- The control state after some frames. -/
def applyBodies (control : Control) : List ManifestBody → Option Control
  | [] => some control
  | body :: rest => (applyBody control body).bind fun next => applyBodies next rest

@[simp] theorem applyBodies_nil (control : Control) : applyBodies control [] = some control := rfl

theorem applyBodies_append (control : Control) (left right : List ManifestBody) :
    applyBodies control (left ++ right) =
      (applyBodies control left).bind fun middle => applyBodies middle right := by
  induction left generalizing control with
  | nil => rfl
  | cons body rest ih =>
    simp only [List.cons_append, applyBodies, ih]
    cases applyBody control body <;> rfl

theorem toOption_eq_some {ε α : Type} {value : Except ε α} {result : α} :
    value.toOption = some result ↔ value = .ok result := by
  cases value <;> simp [Except.toOption]

theorem advanceHighwaters_eq_ok {path : Artifact} {offset : Nat}
    {highwaters next : Highwaters} {items : List StreamHighwater} :
    tryFold (advanceHighwater path offset) highwaters items = .ok next ↔
      tryFold (advanceHighwater manifestPath 0) highwaters items = .ok next := by
  induction items generalizing highwaters with
  | nil => rfl
  | cons item rest ih =>
    simp only [tryFold_cons, advanceHighwater, bind_eq_ok, ensure_eq_ok,
      pure_eq_ok, ih]

/-- Where a frame lies matters only for the error. -/
theorem applyFrame_eq_ok {path : Artifact} {offset : Nat} {control next : Control}
    {body : ManifestBody} :
    applyFrame path offset control body = .ok next ↔ applyBody control body = some next := by
  rw [applyBody, toOption_eq_some]
  cases body with
  | release body => rfl
  | segmentSealed body =>
    simp only [applyFrame, bind_eq_ok, ensure_eq_ok]
    cases control.liveSegments[body.segmentId]? <;> simp
  | segmentRemoved body =>
    simp only [applyFrame, bind_eq_ok, ensure_eq_ok, orError_eq_ok,
      pure_eq_ok, @advanceHighwaters_eq_ok path offset]

/-- The walk over frames that carry consecutive sequences. -/
def walkBodies (lastAppliedSeq : Nat) : Nat → LogWalk → List ManifestBody → Option LogWalk
  | _, walk, [] => some walk
  | seq, walk, body :: rest =>
    if seq ≤ lastAppliedSeq then
      walkBodies lastAppliedSeq (seq + 1)
        { walk with framesScanned := saturatingAdd walk.framesScanned 1 } rest
    else if walk.lastSeq + 1 = seq then
      (applyBody walk.control body).bind fun control =>
        walkBodies lastAppliedSeq (seq + 1)
          ⟨seq, saturatingAdd walk.framesScanned 1, control⟩ rest
    else none

/-- The frames a checkpoint does not hold yet. -/
def freshFrames (lastAppliedSeq base : Nat) (frames : List ManifestBody) : List ManifestBody :=
  frames.drop (lastAppliedSeq + 1 - base)

theorem walkBodies_after {lastAppliedSeq : Nat} (frames : List ManifestBody) (walk : LogWalk)
    (after : lastAppliedSeq ≤ walk.lastSeq) :
    (walkBodies lastAppliedSeq (walk.lastSeq + 1) walk frames).map
        (fun walk => (walk.lastSeq, walk.control)) =
      (applyBodies walk.control frames).map fun control =>
        (walk.lastSeq + frames.length, control) := by
  induction frames generalizing walk with
  | nil => simp [walkBodies]
  | cons body rest ih =>
    rw [walkBodies, if_neg (by omega), if_pos rfl, applyBodies]
    cases applyBody walk.control body with
    | none => rfl
    | some control =>
      have next := ih ⟨walk.lastSeq + 1, saturatingAdd walk.framesScanned 1, control⟩
        (by simp only; omega)
      simp only [Option.bind_some] at next ⊢
      rw [next, List.length_cons]
      simp only [Nat.add_assoc, Nat.add_comm 1]

/-- **The sequence fence.** Frames the checkpoint holds are skipped, the others applied in order. -/
theorem walkBodies_fence {lastAppliedSeq base : Nat} (frames : List ManifestBody) (walk : LogWalk)
    (fenced : walk.lastSeq = lastAppliedSeq) (covered : base ≤ lastAppliedSeq + 1) :
    (walkBodies lastAppliedSeq base walk frames).map (fun walk => (walk.lastSeq, walk.control)) =
      (applyBodies walk.control (freshFrames lastAppliedSeq base frames)).map fun control =>
        (lastAppliedSeq + (freshFrames lastAppliedSeq base frames).length, control) := by
  induction frames generalizing base walk with
  | nil => simp [walkBodies, freshFrames, fenced]
  | cons body rest ih =>
    by_cases stale : base ≤ lastAppliedSeq
    · rw [walkBodies, if_pos stale]
      have next := @ih (base + 1)
        { walk with framesScanned := saturatingAdd walk.framesScanned 1 } fenced (by omega)
      have dropped : freshFrames lastAppliedSeq base (body :: rest) =
          freshFrames lastAppliedSeq (base + 1) rest := by
        unfold freshFrames
        rw [show lastAppliedSeq + 1 - base = (lastAppliedSeq + 1 - (base + 1)) + 1 by omega,
          List.drop_succ_cons]
      rw [next, dropped]
    · obtain rfl : base = lastAppliedSeq + 1 := by omega
      have all : freshFrames lastAppliedSeq (lastAppliedSeq + 1) (body :: rest) = body :: rest := by
        simp [freshFrames]
      rw [all, ← fenced]
      exact walkBodies_after (body :: rest) walk (Nat.le_refl _)

section

variable [Hasher]

/-! ### Images -/

/-- A frame on disk. -/
def frameBytes (seq : Nat) (body : ManifestBody) : Bytes :=
  (ManifestFrame.encodeParts seq body).toOption.getD []

/-- A frame that can be written. -/
structure FrameValid (seq : Nat) (body : ManifestBody) : Prop where
  bounded : seq ≤ wordMax
  fits : body.Representable
  encoded : ManifestFrame.encodeParts seq body = .ok (frameBytes seq body)

theorem frameValid_of_encoded {seq : Nat} {body : ManifestBody} {bytes : Bytes}
    (bounded : seq ≤ wordMax) (fits : body.Representable)
    (encoded : ManifestFrame.encodeParts seq body = .ok bytes) :
    FrameValid seq body ∧ frameBytes seq body = bytes := by
  have same : frameBytes seq body = bytes := by simp [frameBytes, encoded, Except.toOption]
  exact ⟨⟨bounded, fits, by rw [same]; exact encoded⟩, same⟩

/-- The bytes of a frame do not depend on its sequence in their number. -/
def ManifestBody.frameLength (body : ManifestBody) : Nat :=
  manifestFrameHeaderLen + (body.encode.toOption.getD []).length

theorem frameBytes_length {seq : Nat} {body : ManifestBody} (valid : FrameValid seq body) :
    (frameBytes seq body).length = body.frameLength := by
  obtain ⟨-, encodedBody, bodyEncoded, -, whole⟩ := ManifestFrame.encodeParts_eq_ok.mp valid.encoded
  rw [← whole, List.length_append, ManifestFrame.encode_length, ManifestBody.frameLength,
    bodyEncoded]
  rfl

theorem frameLength_pos (body : ManifestBody) : manifestFrameHeaderLen ≤ body.frameLength := by
  unfold ManifestBody.frameLength
  omega

/-- Frames with consecutive sequences on disk. -/
def framesBytes : Nat → List ManifestBody → Bytes
  | _, [] => []
  | seq, body :: rest => frameBytes seq body ++ framesBytes (seq + 1) rest

/-- The bytes of some frames. -/
def framesLength (frames : List ManifestBody) : Nat := (frames.map ManifestBody.frameLength).sum

/-- Frames with consecutive sequences that can be written. -/
def FramesValid : Nat → List ManifestBody → Prop
  | _, [] => True
  | seq, body :: rest => FrameValid seq body ∧ FramesValid (seq + 1) rest

@[simp] theorem framesLength_nil : framesLength [] = 0 := rfl

@[simp] theorem framesLength_cons (body : ManifestBody) (rest : List ManifestBody) :
    framesLength (body :: rest) = body.frameLength + framesLength rest := by
  simp [framesLength]

@[simp] theorem framesLength_append (left right : List ManifestBody) :
    framesLength (left ++ right) = framesLength left + framesLength right := by
  simp [framesLength]

theorem framesBytes_length {seq : Nat} {frames : List ManifestBody} (valid : FramesValid seq frames) :
    (framesBytes seq frames).length = framesLength frames := by
  induction frames generalizing seq with
  | nil => rfl
  | cons body rest ih =>
    rw [framesBytes, List.length_append, frameBytes_length valid.1, ih valid.2, framesLength_cons]

theorem framesBytes_append (seq : Nat) (left right : List ManifestBody) :
    framesBytes seq (left ++ right) =
      framesBytes seq left ++ framesBytes (seq + left.length) right := by
  induction left generalizing seq with
  | nil => simp [framesBytes]
  | cons body rest ih =>
    simp only [List.cons_append, framesBytes, ih, List.length_cons, List.append_assoc]
    rw [Nat.add_assoc, Nat.add_comm 1]

theorem framesValid_append {seq : Nat} {left right : List ManifestBody} :
    FramesValid seq (left ++ right) ↔
      FramesValid seq left ∧ FramesValid (seq + left.length) right := by
  induction left generalizing seq with
  | nil => simp [FramesValid]
  | cons body rest ih =>
    simp only [List.cons_append, FramesValid, ih, List.length_cons, and_assoc]
    rw [Nat.add_assoc, Nat.add_comm 1]

theorem length_le_framesLength (frames : List ManifestBody) :
    frames.length ≤ framesLength frames := by
  induction frames with
  | nil => simp
  | cons body rest ih =>
    have positive := frameLength_pos body
    rw [framesLength_cons, List.length_cons]
    unfold manifestFrameHeaderLen at positive
    omega

/-- A part of the frame that is written next: too short to tell, or a proper part of it. -/
def TornFrame (start seq : Nat) (torn : Bytes) : Prop :=
  torn = [] ∨ seq ≤ wordMax ∧ (torn.length < manifestFrameHeaderLen ∨
    ∃ body, FrameValid seq body ∧ start + body.frameLength ≤ wordMax ∧
      torn <+: frameBytes seq body ∧ torn.length < body.frameLength)

/-- **A part of a group of frames** is some complete frames of the group and a proper part of the
next one. -/
theorem prefix_framesBytes {frames : List ManifestBody} {start seq : Nat} {written : Bytes}
    (valid : FramesValid seq frames) (room : start + framesLength frames ≤ wordMax)
    (part : written <+: framesBytes seq frames) :
    ∃ complete torn, complete <+: frames ∧ written = framesBytes seq complete ++ torn ∧
      TornFrame (start + framesLength complete) (seq + complete.length) torn ∧
      ∀ body, complete ++ [body] <+: frames → torn.length < body.frameLength := by
  induction frames generalizing start seq written with
  | nil =>
    refine ⟨[], [], List.prefix_rfl, ?_, .inl rfl, fun body longer => ?_⟩
    · simpa [framesBytes] using part
    · simp at longer
  | cons body rest ih =>
    rw [framesLength_cons] at room
    have sized := frameBytes_length valid.1
    by_cases short : written.length < body.frameLength
    · refine ⟨[], written, List.nil_prefix, rfl, .inr ⟨valid.1.bounded, .inr ⟨body, valid.1, ?_, ?_,
        short⟩⟩, fun other longer => ?_⟩
      · simp only [framesLength_nil]
        omega
      · exact List.prefix_of_prefix_length_le part (List.prefix_append _ _)
          (by simp only [List.length_nil, Nat.add_zero, sized]; omega)
      · obtain ⟨rfl, -⟩ := List.cons_prefix_cons.mp longer
        exact short
    · have first : frameBytes seq body <+: written :=
        List.prefix_of_prefix_length_le (List.prefix_append _ _) part (by rw [sized]; omega)
      obtain ⟨later, rfl⟩ := first
      have laterPart : later <+: framesBytes (seq + 1) rest :=
        (List.prefix_append_right_inj _).mp part
      obtain ⟨complete, torn, isPrefix, rfl, tail, next⟩ := @ih (start + body.frameLength) (seq + 1)
        later valid.2 (by omega) laterPart
      refine ⟨body :: complete, torn, List.cons_prefix_cons.mpr ⟨rfl, isPrefix⟩, ?_, ?_,
        fun other longer => next other (List.cons_prefix_cons.mp longer).2⟩
      · rw [framesBytes, List.append_assoc]
      · rwa [framesLength_cons, List.length_cons, ← Nat.add_assoc, Nat.add_comm complete.length,
          ← Nat.add_assoc]

/-! ### Writing an image -/

/-- The frames of a group are those of its bodies, one by one. -/
theorem encodeFrames_forall₂ {bodies : List ManifestBody} {next last : Nat} {frames : List Bytes}
    (encoded : encodeFrames next bodies = .ok (frames, last)) :
    List.Forall₂ (fun body frame => ∃ seq, ManifestFrame.encodeParts seq body = .ok frame)
      bodies frames := by
  induction bodies generalizing next frames with
  | nil =>
    cases encoded
    exact .nil
  | cons body rest ih =>
    cases rest with
    | nil =>
      simp only [encodeFrames, malformed, bind_eq_ok, mapError_eq_ok] at encoded
      obtain ⟨frame, framed, same⟩ := encoded
      cases same
      exact .cons ⟨_, framed⟩ .nil
    | cons more others =>
      simp only [encodeFrames, malformed, bind_eq_ok, mapError_eq_ok, orError_eq_ok] at encoded
      obtain ⟨frame, framed, following, -, ⟨framesRest, lastRest⟩, restEncoded, same⟩ := encoded
      cases same
      exact .cons ⟨_, framed⟩ (ih restEncoded)

/-- **The frames a group is encoded to** are those of the image. -/
theorem encodeFrames_eq_ok {bodies : List ManifestBody} {next last : Nat} {frames : List Bytes}
    (bounded : next ≤ wordMax) (fits : ∀ body ∈ bodies, body.Representable) (some : bodies ≠ [])
    (encoded : encodeFrames next bodies = .ok (frames, last)) :
    FramesValid next bodies ∧ frames.flatten = framesBytes next bodies ∧
      last + 1 = next + bodies.length := by
  induction bodies generalizing next frames with
  | nil => exact absurd rfl some
  | cons body rest ih =>
    have bodyFits := fits body (List.mem_cons_self ..)
    cases rest with
    | nil =>
      simp only [encodeFrames, malformed, bind_eq_ok, mapError_eq_ok] at encoded
      obtain ⟨frame, framed, same⟩ := encoded
      cases same
      obtain ⟨valid, bytes⟩ := frameValid_of_encoded bounded bodyFits framed
      exact ⟨⟨valid, trivial⟩, by simp [framesBytes, bytes], rfl⟩
    | cons more others =>
      simp only [encodeFrames, malformed, bind_eq_ok, mapError_eq_ok,
        orError_eq_ok] at encoded
      obtain ⟨frame, framed, following, added, ⟨framesRest, lastRest⟩, restEncoded, same⟩ := encoded
      cases same
      obtain ⟨rfl, restBounded⟩ := checkedAdd_eq_some.mp added
      obtain ⟨valid, bytes⟩ := frameValid_of_encoded bounded bodyFits framed
      obtain ⟨restValid, restBytes, counted⟩ := ih restBounded
        (fun other member => fits other (List.mem_cons_of_mem _ member)) (List.cons_ne_nil _ _)
        restEncoded
      refine ⟨⟨valid, restValid⟩, ?_, ?_⟩
      · rw [List.flatten_cons, restBytes, ← bytes]
        rfl
      · simp only [List.length_cons] at counted ⊢
        omega

theorem addFrameLen_total {logLen total sum : Nat} {frames : List Bytes}
    (added : tryFold (Manifest.addFrameLen logLen) total frames = .ok sum) :
    sum = total + frames.flatten.length := by
  induction frames generalizing total with
  | nil =>
    cases added
    rfl
  | cons frame rest ih =>
    rw [tryFold_cons, bind_eq_ok] at added
    obtain ⟨next, first, later⟩ := added
    simp only [Manifest.addFrameLen, bind_eq_ok, orError_eq_ok] at first
    obtain ⟨length, counted, summed⟩ := first
    obtain ⟨rfl, -⟩ := toWord_eq_some.mp counted
    obtain ⟨rfl, -⟩ := checkedAdd_eq_some.mp summed
    rw [ih later, List.flatten_cons, List.length_append]
    omega

/-- **What an append to the log does.** Without frames nothing; otherwise the frames are encoded from
the sequence after the last one, written and synced, and the manifest counts their bytes. -/
theorem Manifest.returns_appendGroup {manifest next : Manifest} {bodies : List ManifestBody}
    {outcome : DurabilityOutcome} {fs left : Fs}
    (returned : Returns (manifest.appendGroup bodies outcome) fs next left) :
    (bodies = [] ∧ next = manifest ∧ left = fs) ∨ ∃ frames last, bodies ≠ [] ∧
      manifest.lastSeq + 1 ≤ wordMax ∧
      encodeFrames (manifest.lastSeq + 1) bodies = .ok (frames, last) ∧
      manifest.logLen + frames.flatten.length ≤ wordMax ∧
      next = { manifest with logLen := manifest.logLen + frames.flatten.length, lastSeq := last } ∧
      left = (fs.modifyNode manifest.file (FileNode.append frames.flatten)).modifyNode manifest.file
        FileNode.sync := by
  unfold Manifest.appendGroup at returned
  split at returned
  · rename_i none
    obtain ⟨rfl, rfl⟩ := Returns.result returned
    exact .inl ⟨none, rfl, rfl⟩
  · rename_i some
    obtain ⟨first, isFirst, returned⟩ := returned.bind_ofOption
    obtain ⟨rfl, bounded⟩ := checkedAdd_eq_some.mp isFirst
    obtain ⟨⟨frames, last⟩, encoded, returned⟩ := returned.bind_ofExcept
    obtain ⟨appended, summed, returned⟩ := returned.bind_ofExcept
    obtain ⟨logLen, isLen, returned⟩ := returned.bind_ofOption
    have total := addFrameLen_total summed
    rw [Nat.zero_add] at total
    subst total
    obtain ⟨rfl, room⟩ := checkedAdd_eq_some.mp isLen
    obtain ⟨rfl, rfl⟩ := (Returns.bind_step (Returns.bind_step returned.bind_observe)).pure
    exact .inr ⟨frames, last, some, bounded, encoded, room, rfl, rfl⟩

/-! ### Recovery of an image -/

theorem takeFrame_eq {lastAppliedSeq offset seq : Nat} {walk : LogWalk} {body : ManifestBody}
    {rest : List ManifestBody} {final : LogWalk} (bounded : seq ≤ wordMax)
    (walked : walkBodies lastAppliedSeq seq walk (body :: rest) = some final) :
    ∃ next, takeFrame lastAppliedSeq offset walk ⟨seq, body⟩ = .ok next ∧
      walkBodies lastAppliedSeq (seq + 1) next rest = some final := by
  rw [walkBodies] at walked
  by_cases stale : seq ≤ lastAppliedSeq
  · rw [if_pos stale] at walked
    refine ⟨_, ?_, walked⟩
    rw [takeFrame, if_pos stale]
  · rw [if_neg stale] at walked
    by_cases follows : walk.lastSeq + 1 = seq
    · rw [if_pos follows] at walked
      obtain ⟨control, applied, walked⟩ := Option.bind_eq_some_iff.mp walked
      refine ⟨_, ?_, walked⟩
      rw [takeFrame, if_neg stale]
      simp only
      rw [checkedAdd_of_le (by omega), orError_some, ok_bind,
        ensure_bind_of_true (by simp [follows]), applyFrame_eq_ok.mpr applied,
        ok_bind]
      rfl
    · rw [if_neg follows] at walked
      cases walked

/-- The header of a frame inside the log. -/
theorem slice_frameHeader {seq : Nat} {body : ManifestBody} {before rest : Bytes}
    (frame : FrameValid seq body) :
    slice (before ++ (frameBytes seq body ++ rest)) before.length manifestFrameHeaderLen =
      slice (frameBytes seq body) 0 manifestFrameHeaderLen := by
  have positive := frameLength_pos body
  rw [slice_append_right (Nat.le_refl _), Nat.sub_self,
    slice_append_left (by rw [frameBytes_length frame]; omega)]

/-- The scan of one complete frame. -/
theorem scanFrames_frame {lastAppliedSeq seq fuel : Nat} {body : ManifestBody}
    {before rest : Bytes} {walk next : LogWalk} (frame : FrameValid seq body)
    (room : before.length + body.frameLength ≤ wordMax)
    (taken : takeFrame lastAppliedSeq before.length walk ⟨seq, body⟩ = .ok next) :
    scanFrames (before ++ (frameBytes seq body ++ rest)) lastAppliedSeq (fuel + 1) before.length seq
        walk =
      (nextPhysicalSeq (before.length + body.frameLength)
        (before ++ (frameBytes seq body ++ rest)).length seq >>= fun nextSeq =>
          scanFrames (before ++ (frameBytes seq body ++ rest)) lastAppliedSeq fuel
            (before.length + body.frameLength) nextSeq next) := by
  have positive := frameLength_pos body
  unfold manifestFrameHeaderLen at positive
  have sized := frameBytes_length frame
  obtain ⟨header, decoded, same, length, -, decodedBody⟩ :=
    ManifestFrame.decode_encodeParts frame.bounded frame.fits frame.encoded
  rw [sized] at length
  have total : (before ++ (frameBytes seq body ++ rest)).length =
      before.length + (body.frameLength + rest.length) := by simp [sized]
  have bodyField : slice (before ++ (frameBytes seq body ++ rest))
      (before.length + manifestFrameHeaderLen) header.bodyLen =
        slice (frameBytes seq body) manifestFrameHeaderLen header.bodyLen := by
    rw [slice_append_right (by omega), Nat.add_sub_cancel_left,
      slice_append_left (by rw [sized, length])]
  rw [scanFrames, if_neg (by rw [total]; omega),
    if_neg (by rw [total]; unfold manifestFrameHeaderLen; omega), slice_frameHeader frame]
  simp only [malformed, decoded, mapError]
  rw [ok_bind, ensure_bind_of_true (by simp [same]),
    checkedAdd_of_le (by omega), orError_some, ok_bind, ← length,
    checkedAdd_of_le (by omega), orError_some, ok_bind, if_neg (by rw [total]; omega),
    bodyField, decodedBody]
  simp only
  rw [ok_bind, taken, ok_bind]

/-- **Recovery of the log.** Complete frames are taken into account in order; an incomplete tail is
cut. -/
theorem scanFrames_image {lastAppliedSeq : Nat} {frames : List ManifestBody} {before torn : Bytes}
    {seq : Nat} {walk final : LogWalk} (valid : FramesValid seq frames)
    (room : before.length + framesLength frames ≤ wordMax)
    (tail : TornFrame (before.length + framesLength frames) (seq + frames.length) torn)
    (walked : walkBodies lastAppliedSeq seq walk frames = some final) (fuel : Nat) :
    scanFrames (before ++ (framesBytes seq frames ++ torn)) lastAppliedSeq
        (frames.length + (fuel + 1)) before.length seq walk =
      .ok ⟨final, if torn = [] then none else some (before.length + framesLength frames)⟩ := by
  induction frames generalizing before seq walk with
  | nil =>
    obtain rfl : walk = final := by simpa [walkBodies] using walked
    simp only [framesBytes, List.nil_append, List.length_nil, Nat.zero_add, framesLength_nil,
      Nat.add_zero] at tail ⊢
    have total : (before ++ torn).length = before.length + torn.length := List.length_append
    by_cases empty : torn = []
    · rw [scanFrames, if_pos (by rw [empty]; simp), if_pos empty]
    · have positive : 0 < torn.length := List.length_pos_iff.mpr empty
      obtain ⟨bounded, shape⟩ := tail.resolve_left empty
      rw [scanFrames, if_neg (by omega), if_neg empty]
      by_cases short : torn.length < manifestFrameHeaderLen
      · rw [if_pos (by omega)]
      · obtain ⟨body, frame, fits, part, proper⟩ := shape.resolve_left short
        obtain ⟨header, decoded, same, length, -, -⟩ :=
          ManifestFrame.decode_encodeParts frame.bounded frame.fits frame.encoded
        rw [frameBytes_length frame] at length
        have field : slice (before ++ torn) before.length manifestFrameHeaderLen =
            slice (frameBytes seq body) 0 manifestFrameHeaderLen := by
          obtain ⟨rest, whole⟩ := part
          rw [slice_append_right (Nat.le_refl _), Nat.sub_self, ← whole,
            slice_append_left (by omega)]
        rw [if_neg (by omega), field]
        simp only [malformed, decoded, mapError]
        rw [ok_bind, ensure_bind_of_true (by simp [same]),
          checkedAdd_of_le (by omega), orError_some, ok_bind,
          checkedAdd_of_le (by omega), orError_some, ok_bind, if_pos (by omega)]
  | cons body rest ih =>
    obtain ⟨frame, others⟩ := valid
    rw [framesLength_cons] at room tail
    have sized := frameBytes_length frame
    have content : before ++ (framesBytes seq (body :: rest) ++ torn) =
        before ++ (frameBytes seq body ++ (framesBytes (seq + 1) rest ++ torn)) := by
      rw [framesBytes, List.append_assoc]
    have total : (before ++ (framesBytes seq (body :: rest) ++ torn)).length =
        before.length + (body.frameLength + (framesLength rest + torn.length)) := by
      rw [content]
      simp [sized, framesBytes_length others]
    obtain ⟨next, taken, walked⟩ := @takeFrame_eq _ lastAppliedSeq before.length seq walk
      body rest final frame.bounded walked
    have later := @ih (before ++ frameBytes seq body) (seq + 1) next others
      (by rw [List.length_append, sized]; omega)
      (by
        rw [List.length_append, sized, Nat.add_assoc, Nat.add_right_comm, Nat.add_assoc seq]
        exact tail) walked
    rw [List.length_append, sized, List.append_assoc, ← content] at later
    rw [content, List.length_cons, Nat.add_right_comm, scanFrames_frame frame (by omega) taken,
      ← content, nextPhysicalSeq, total]
    by_cases more : before.length + body.frameLength <
        before.length + (body.frameLength + (framesLength rest + torn.length))
    · have bounded : seq + 1 ≤ wordMax := by
        cases rest with
        | cons next others' => exact others.1.bounded
        | nil =>
          have written : torn ≠ [] := by
            rintro rfl
            simp at more
          exact (tail.resolve_left written).1
      rw [if_pos more, checkedAdd_of_le bounded, orError_some, ok_bind, later,
        framesLength_cons, Nat.add_assoc]
    · -- Nothing follows, so the sequence of a next frame is not looked at.
      have none : rest = [] := by
        have bound := length_le_framesLength rest
        exact List.length_eq_zero_iff.mp (by omega)
      have untorn : torn = [] := List.length_eq_zero_iff.mp (by omega)
      subst none untorn
      rw [if_neg more, ok_bind, List.length_nil, Nat.zero_add, scanFrames,
        if_pos (by rw [total]; simp)]
      simpa [walkBodies] using walked

end

end Camus
