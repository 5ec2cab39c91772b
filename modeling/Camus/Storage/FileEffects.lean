/-
**What successful writes leave on the disk.**

`Effects` says what an operation leaves in memory as a function of what its parts on the files
returned. Here the parts: which file a name leads to and which bytes it holds after a file was
replaced, and that every other file and name is as before.

* `returns_atomicReplace` — a file of the root directory was replaced.
* `returns_compact` — checkpoint and log of a compacted manifest.
-/

import Camus.Storage.LogRead

set_option linter.unusedSectionVars false

namespace Camus

open Codec Checked Disk FaultIo Std

variable {bytes : Bytes} {outcome : DurabilityOutcome} {temporary name : RootName} {value : Unit}

/-- A new file with some bytes was put under a name of the root directory. -/
structure Fs.Installed (fs : Fs) (temporary name : RootName) (bytes : Bytes) (final : Fs) : Prop where
  found : rootDirectory.lookup name final = some fs.nodes.length
  holds : final.HoldsAt fs.nodes.length bytes
  others : ∀ file, file < fs.nodes.length → final.nodes[file]? = fs.nodes[file]?
  created : final.nodes.length = fs.nodes.length + 1
  names : ∀ other, other ≠ name → other ≠ temporary →
    rootDirectory.lookup other final = rootDirectory.lookup other fs
  segments : final.segments = fs.segments

theorem Fs.Installed.content {fs final : Fs} (installed : fs.Installed temporary name bytes final)
    {file : Nat} (older : file < fs.nodes.length) : final.content file = fs.content file := by
  rw [Fs.content, Fs.content, installed.others file older]

section

variable [Hasher] {fs final : Fs}

theorem returns_removeStaleTemporary
    (returned : Returns (removeStaleTemporary temporary outcome) fs value final) :
    final.nodes = fs.nodes ∧ final.segments = fs.segments ∧
      ∀ other, other ≠ temporary → rootDirectory.lookup other final = rootDirectory.lookup other fs := by
  have returned := returned.bind_read
  split at returned
  · obtain ⟨_, middle, removed, returned⟩ := returned.bind
    obtain ⟨-, removed⟩ := removed.bind_read.bind_require
    obtain rfl := Returns.step removed
    obtain rfl := Returns.step returned
    refine ⟨rfl, rfl, fun other different => ?_⟩
    show ((fs.root.change (.unlink temporary)).sync.entries)[other]? = fs.root.entries[other]?
    rw [Directory.entries_sync, Directory.entries_change]
    simp [DirectoryOp.apply, ExtTreeMap.getElem?_erase, Ne.symm different]
  · obtain ⟨-, rfl⟩ := Returns.pure returned
    exact ⟨rfl, rfl, fun _ _ => rfl⟩

/-- **A file of the root directory was replaced.** -/
theorem returns_atomicReplace (apart : temporary ≠ name)
    (returned : Returns (atomicReplace temporary name bytes outcome) fs value final) :
    fs.Installed temporary name bytes final := by
  obtain ⟨_, clean, removes, returned⟩ := returned.bind
  obtain ⟨sameNodes, sameSegments, sameNames⟩ := returns_removeStaleTemporary removes
  obtain ⟨inode, created, creates, returned⟩ := returned.bind
  obtain ⟨rfl, rfl⟩ := returns_createNew creates
  obtain ⟨_, renamed, renames, returned⟩ :=
    (Returns.bind_step (Returns.bind_step returned)).bind
  obtain ⟨inode, found, rfl⟩ := returns_rename renames
  obtain rfl := Returns.step returned
  have linked : rootDirectory.lookup temporary (rootDirectory.change
      (.link temporary clean.nodes.length) clean) = some clean.nodes.length := by
    show ((clean.root.change (.link temporary clean.nodes.length)).entries)[temporary]? = _
    rw [Directory.entries_change]
    simp [DirectoryOp.apply]
  obtain rfl : clean.nodes.length = inode := Option.some.inj (linked.symm.trans found)
  have entries : ∀ other, rootDirectory.lookup other (rootDirectory.change
      (.move temporary name clean.nodes.length) (rootDirectory.change
        (.link temporary clean.nodes.length) clean)) =
      if other = name then some clean.nodes.length else if other = temporary then none
        else rootDirectory.lookup other clean := by
    intro other
    show (((clean.root.change (.link temporary clean.nodes.length)).change
      (.move temporary name clean.nodes.length)).entries)[other]? = _
    rw [Directory.entries_change, Directory.entries_change]
    simp only [DirectoryOp.apply, ExtTreeMap.getElem?_insert_self, if_true,
      ExtTreeMap.getElem?_insert, ExtTreeMap.getElem?_erase, LawfulEqOrd.compare_eq_iff_eq]
    split_ifs with first second third fourth fifth <;> first | rfl | simp_all
  have empty : (⟨clean.nodes ++ [FileNode.empty], clean.root, clean.segments⟩ : Fs).HoldsAt
      clean.nodes.length [] := by
    simp [Fs.HoldsAt, FileNode.empty]
  have written := (empty.append bytes).sync
  have older : ∀ file, file < clean.nodes.length →
      (((clean.nodes ++ [FileNode.empty]).modify clean.nodes.length (FileNode.append bytes)).modify
        clean.nodes.length FileNode.sync)[file]? = clean.nodes[file]? := by
    intro file older
    have different : clean.nodes.length ≠ file := by omega
    simp [List.getElem?_append_left older, different]
  have created : (((clean.nodes ++ [FileNode.empty]).modify clean.nodes.length
      (FileNode.append bytes)).modify clean.nodes.length FileNode.sync).length =
        clean.nodes.length + 1 := by
    rw [List.length_modify, List.length_modify, List.length_append]
    rfl
  exact {
    found := by rw [← sameNodes]; exact (entries name).trans (if_pos rfl)
    holds := by rw [← sameNodes]; exact written
    others := by rw [← sameNodes]; exact older
    created := by rw [← sameNodes]; exact created
    names := fun other notName notTemporary => ((entries other).trans ((if_neg notName).trans
      (if_neg notTemporary))).trans (sameNames other notTemporary)
    segments := sameSegments }

/-- **The files of a compacted manifest**: the encoded checkpoint and a log without frames. -/
theorem returns_compact {manifest next : Manifest} {checkpoint : Checkpoint}
    (returned : Returns (manifest.compact checkpoint) fs next final) :
    ∃ bytes middle, checkpoint.encode = .ok bytes ∧ bytes.length ≤ wordMax ∧
      checkpoint.lastAppliedSeq = manifest.lastSeq ∧
      fs.Installed .checkpointTemporary .checkpoint bytes middle ∧
      middle.Installed .manifestLogTemporary .manifestLog
        (ManifestLogHeader.encode ⟨checkpoint.rootId, saturatingAdd manifest.lastSeq 1⟩) final ∧
      next = { manifest with
        file := middle.nodes.length
        checkpointLen := bytes.length
        logLen := manifestLogHeaderLen } := by
  obtain ⟨matched, returned⟩ := returned.bind_require
  obtain ⟨bytes, isBytes, returned⟩ := returned.bind_ofExcept
  obtain ⟨length, isLength, returned⟩ := returned.bind_ofOption
  obtain ⟨rfl, short⟩ := toWord_eq_some.mp isLength
  obtain ⟨_, middle, first, returned⟩ := returned.bind
  obtain ⟨_, last, second, returned⟩ := returned.bind
  obtain ⟨file, found, returned⟩ := returned.bind_read.bind_ofOption
  obtain ⟨rfl, rfl⟩ := returned.bind_observe.bind_observe.pure
  have installed := returns_atomicReplace (by decide) second
  obtain rfl : middle.nodes.length = file := Option.some.inj (installed.found.symm.trans found)
  exact ⟨bytes, middle, by simpa [malformed, Result.mapError_eq_ok] using isBytes, short,
    of_decide_eq_true matched, returns_atomicReplace (by decide) first, installed, rfl⟩

end

end Camus
