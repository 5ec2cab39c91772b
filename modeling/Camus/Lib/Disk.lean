/-
**Files and directories that a crash may roll back.**

A `FileNode` holds the bytes every reader sees and the edits since its last synchronisation; a
`Directory` holds the entries of its last synchronisation and the operations since.

* Synchronised bytes and entries survive a crash. Of an unsynchronised append an arbitrary byte
  prefix survives; an unsynchronised truncation happened or did not (`FileNode.MaySurvive`).
* A creation, deletion or rename that was not synchronised happened or did not, each on its own
  (`Directory.MaySurvive`); a rename is atomic and carries the file it names.
-/

import Camus.Lib.Bytes
import Std.Data.ExtTreeMap
import Mathlib.Data.List.Sublists

namespace Disk

open Codec Std

/-! ### Files -/

/-- One change of a file's content. -/
structure Edit where
  before : Bytes
  after : Bytes
deriving Repr, DecidableEq

/-- A file: what a reader sees, and the changes since the last synchronisation. -/
structure FileNode where
  data : Bytes
  unsynced : List Edit
deriving Repr, DecidableEq

namespace FileNode

/-- A file just created. -/
def empty : FileNode := ⟨[], []⟩

/-- Writes at the end of the file. -/
def append (bytes : Bytes) (node : FileNode) : FileNode where
  data := node.data ++ bytes
  unsynced := node.unsynced ++ [⟨node.data, node.data ++ bytes⟩]

/-- Cuts the file to a length. -/
def truncate (length : Nat) (node : FileNode) : FileNode where
  data := node.data.take length
  unsynced := node.unsynced ++ [⟨node.data, node.data.take length⟩]

/-- Makes all earlier changes durable. -/
def sync (node : FileNode) : FileNode := ⟨node.data, []⟩

/-- **What a crash may leave of a file.** -/
def MaySurvive (node : FileNode) (content : Bytes) : Prop :=
  content = node.data ∨ ∃ edit ∈ node.unsynced,
    content = edit.before ∨ edit.before <+: content ∧ content <+: edit.after

@[simp] theorem append_data (bytes : Bytes) (node : FileNode) :
    (node.append bytes).data = node.data ++ bytes := rfl

@[simp] theorem truncate_data (length : Nat) (node : FileNode) :
    (node.truncate length).data = node.data.take length := rfl

@[simp] theorem sync_data (node : FileNode) : node.sync.data = node.data := rfl

theorem maySurvive_data (node : FileNode) : node.MaySurvive node.data := .inl rfl

end FileNode

/-! ### Directories -/

/-- One change of a directory. A rename names the file it moves. -/
inductive DirectoryOp (ν : Type) where
  | link (name : ν) (inode : Nat)
  | unlink (name : ν)
  | move (source target : ν) (inode : Nat)
deriving Repr, DecidableEq

/-- The entries of a directory. -/
abbrev Entries (ν : Type) [Ord ν] := ExtTreeMap ν Nat

section Directories

variable {ν : Type} [Ord ν] [TransOrd ν]

/-- The entries after one change. -/
def DirectoryOp.apply : DirectoryOp ν → Entries ν → Entries ν
  | .link name inode, entries => entries.insert name inode
  | .unlink name, entries => entries.erase name
  | .move source target inode, entries =>
    (if entries[source]? = some inode then entries.erase source else entries).insert target inode

/-- A change is about a name. -/
def DirectoryOp.Touches : DirectoryOp ν → ν → Prop
  | .link changed _, name => changed = name
  | .unlink changed, name => changed = name
  | .move source target _, name => source = name ∨ target = name

theorem DirectoryOp.getElem?_apply_of_not_touches [LawfulEqOrd ν] {op : DirectoryOp ν}
    {name : ν} (untouched : ¬ op.Touches name) (entries : Entries ν) :
    (op.apply entries)[name]? = entries[name]? := by
  cases op with
  | link changed inode =>
    have other : changed ≠ name := untouched
    simp [apply, ExtTreeMap.getElem?_insert, other]
  | unlink changed =>
    have other : changed ≠ name := untouched
    simp [apply, ExtTreeMap.getElem?_erase, other]
  | move source target inode =>
    obtain ⟨notSource, notTarget⟩ := not_or.mp untouched
    simp only [apply, ExtTreeMap.getElem?_insert, LawfulEqCmp.compare_eq_iff_eq, notTarget,
      if_false]
    split
    · simp [ExtTreeMap.getElem?_erase, notSource]
    · rfl

/-- The entries after several changes. -/
def replay (ops : List (DirectoryOp ν)) (entries : Entries ν) : Entries ν :=
  ops.foldl (fun entries op => op.apply entries) entries

/-- A directory: its entries at the last synchronisation and the changes since. -/
structure Directory (ν : Type) [Ord ν] where
  durable : Entries ν
  pending : List (DirectoryOp ν)

namespace Directory

/-- An empty directory. -/
def empty : Directory ν := ⟨∅, []⟩

/-- The entries every reader sees. -/
def entries (directory : Directory ν) : Entries ν := replay directory.pending directory.durable

/-- Makes one change. -/
def change (op : DirectoryOp ν) (directory : Directory ν) : Directory ν where
  durable := directory.durable
  pending := directory.pending ++ [op]

/-- Makes all earlier changes durable. -/
def sync (directory : Directory ν) : Directory ν := ⟨directory.entries, []⟩

/-- **What a crash may leave of a directory.** -/
def MaySurvive (directory : Directory ν) (entries : Entries ν) : Prop :=
  ∃ kept, List.Sublist kept directory.pending ∧ entries = replay kept directory.durable

variable {directory : Directory ν} {op : DirectoryOp ν}

@[simp] theorem entries_change : (directory.change op).entries = op.apply directory.entries := by
  simp [entries, change, replay]

@[simp] theorem entries_sync : directory.sync.entries = directory.entries := rfl

theorem maySurvive_entries (directory : Directory ν) : directory.MaySurvive directory.entries :=
  ⟨directory.pending, List.Sublist.refl _, rfl⟩

end Directory

end Directories

end Disk
