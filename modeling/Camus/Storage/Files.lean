/-
**The files of a root.**

The part of the filesystem a root occupies, the operations on it that the storage engine uses, and
what a crash may leave.

* `Fs` holds the file contents by inode and the two directories of a root. The lock file and the
  creation of the root directory itself are left out: an opened root has a durable directory.
* Every operation is one I/O step of a `FaultIo` program; a failed or interrupted write leaves a
  prefix, every other failed step leaves nothing.
* `Fs.Crash` is the filesystem a restarted process may find.
-/

import Camus.Basic
import Camus.Lib.FaultIo
import Camus.Lib.Disk

namespace Camus

open Codec Checked Disk FaultIo

/-! ### The filesystem -/

/-- The files and directories of one root. -/
structure Fs where
  nodes : List FileNode
  root : Directory RootName
  segments : Directory SegmentName

/-- Programs over the filesystem. -/
abbrev FsIo := FaultIo Fs Error

namespace Fs

/-- The directory of a root that was never opened. -/
def fresh : Fs := ⟨[], .empty, .empty⟩

/-- The bytes a reader of a file sees. -/
def content (fs : Fs) (inode : Nat) : Bytes := ((fs.nodes[inode]?).map (·.data)).getD []

/-- Changes one file. -/
def modifyNode (inode : Nat) (change : FileNode → FileNode) (fs : Fs) : Fs :=
  { fs with nodes := fs.nodes.modify inode change }

theorem modifyNode_getElem? (inode : Nat) (change : FileNode → FileNode) (fs : Fs) (other : Nat) :
    (fs.modifyNode inode change).nodes[other]? =
      if inode = other then fs.nodes[other]?.map change else fs.nodes[other]? := by
  simp only [modifyNode, List.getElem?_modify]
  split <;> simp

theorem modifyNode_content_other {fs : Fs} {inode other : Nat} {change : FileNode → FileNode}
    (different : other ≠ inode) : (fs.modifyNode inode change).content other = fs.content other := by
  simp [content, modifyNode_getElem?, Ne.symm different]

/-- The segment directory that belongs to some entries of the root directory. -/
def CrashedSegments (fs : Fs) (entries : Entries RootName) (segments : Directory SegmentName) : Prop :=
  if entries.contains .segments then
    ∃ left, fs.segments.MaySurvive left ∧ segments = ⟨left, []⟩
  else segments = .empty

/-- **What a crash may leave**: each file one of its possible contents, each directory one of its
possible sets of entries, all of it durable. -/
def Crash (fs left : Fs) : Prop :=
  ∃ contents entries, List.Forall₂ FileNode.MaySurvive fs.nodes contents ∧
    fs.root.MaySurvive entries ∧ fs.CrashedSegments entries left.segments ∧
    left.nodes = contents.map (fun content => ⟨content, []⟩) ∧ left.root = ⟨entries, []⟩

end Fs

/-! ### Operations on files -/

/-- Writes bytes at the end of a file. -/
def writeAll (inode : Nat) (bytes : Bytes) (reason : Error) : FsIo Unit :=
  step (Fs.modifyNode inode (FileNode.append bytes))
    (fun progress => Fs.modifyNode inode (FileNode.append (bytes.take progress))) reason

/-- Makes the bytes of a file durable. -/
def syncData (inode : Nat) (reason : Error) : FsIo Unit :=
  step (Fs.modifyNode inode FileNode.sync) (fun _ => id) reason

/-- Cuts a file to a length. -/
def setLen (inode length : Nat) (reason : Error) : FsIo Unit :=
  step (Fs.modifyNode inode (FileNode.truncate length)) (fun _ => id) reason

/-! ### Operations on directories -/

/-- One of the two directories of a root. -/
structure Place (ν : Type) [Ord ν] where
  directory : Fs → Directory ν
  replace : Directory ν → Fs → Fs
  path : ν → Artifact
  self : Artifact

/-- The root directory. -/
def rootDirectory : Place RootName where
  directory := Fs.root
  replace directory fs := { fs with root := directory }
  path := .entry
  self := .root

/-- The segment directory. -/
def segmentsDirectory : Place SegmentName where
  directory := Fs.segments
  replace directory fs := { fs with segments := directory }
  path := .segment
  self := .entry .segments

namespace Place

variable {ν : Type} [Ord ν] [Std.TransOrd ν]

/-- The inode a name has in a directory. -/
def lookup (place : Place ν) (name : ν) (fs : Fs) : Option Nat := (place.directory fs).entries[name]?

/-- A directory holds a name. -/
def holds (place : Place ν) (name : ν) (fs : Fs) : Bool := (place.directory fs).entries.contains name

/-- Changes a directory. -/
def change (place : Place ν) (op : DirectoryOp ν) (fs : Fs) : Fs :=
  place.replace ((place.directory fs).change op) fs

/-- Creates a file under a name that must be new and returns its inode. -/
def createNew (place : Place ν) (name : ν) (reason : Error) : FsIo Nat := do
  let fs ← read
  require (!place.holds name fs) reason
  step (fun fs => place.change (.link name fs.nodes.length)
    { fs with nodes := fs.nodes ++ [FileNode.empty] }) (fun _ => id) reason
  return fs.nodes.length

/-- Removes a file. -/
def removeFile (place : Place ν) (name : ν) (reason : Error) : FsIo Unit := do
  let fs ← read
  require (place.holds name fs) reason
  step (place.change (.unlink name)) (fun _ => id) reason

/-- Renames a file, replacing the target. -/
def rename (place : Place ν) (source target : ν) (reason : Error) : FsIo Unit := do
  let fs ← read
  let inode ← ofOption reason (place.lookup source fs)
  step (place.change (.move source target inode)) (fun _ => id) reason

/-- Makes the entries of a directory durable. -/
def syncDirectory (place : Place ν) (outcome : DurabilityOutcome) : FsIo Unit :=
  step (fun fs => place.replace (place.directory fs).sync fs) (fun _ => id)
    (.io "sync directory" place.self outcome)

end Place

/-- Removes a stale temporary file of the root directory. -/
def removeStaleTemporary (temporary : RootName) (outcome : DurabilityOutcome) : FsIo Unit := do
  let fs ← read
  if rootDirectory.holds temporary fs then
    rootDirectory.removeFile temporary
      (.io "remove stale temporary file" (.entry temporary) outcome)
    rootDirectory.syncDirectory outcome

/-- Replaces a file of the root directory by a new one: written and made durable under a temporary
name, published by a rename, made durable with its directory. -/
def atomicReplace (temporary canonical : RootName) (bytes : Bytes) (outcome : DurabilityOutcome) :
    FsIo Unit := do
  removeStaleTemporary temporary outcome
  let inode ← rootDirectory.createNew temporary
    (.io "create temporary file" (.entry temporary) outcome)
  writeAll inode bytes (.io "write temporary file" (.entry temporary) outcome)
  syncData inode (.io "sync temporary file" (.entry temporary) outcome)
  rootDirectory.rename temporary canonical
    (.io "publish temporary file" (.entry canonical) outcome)
  rootDirectory.syncDirectory outcome

/-- Reads a file of the root directory. -/
def readCompleteFile (name : RootName) : FsIo Bytes := do
  let openError : Error := .io "open file" (.entry name) .notApplicable
  let fs ← read
  let inode ← ofOption openError (rootDirectory.lookup name fs)
  observe openError
  observe (.io "read file metadata" (.entry name) .notApplicable)
  require ((fs.content inode).length ≤ wordMax)
    (.corruption (.entry name) 0 "file length does not fit usize")
  observe (.io "read file" (.entry name) .notApplicable)
  return fs.content inode

/-- The length of a file of the root directory. -/
def fileLen (name : RootName) : FsIo Nat := do
  let metadataError : Error := .io "read file metadata" (.entry name) .notApplicable
  let fs ← read
  let inode ← ofOption metadataError (rootDirectory.lookup name fs)
  observe metadataError
  return (fs.content inode).length

/-- Creates the segment directory unless it exists. -/
def ensureSegmentsDirectory : FsIo Unit := do
  let fs ← read
  if rootDirectory.holds .segments fs then result () else
    step (fun fs => rootDirectory.change (.link .segments 0) { fs with segments := .empty })
      (fun _ => id) (.io "create segment directory" (.entry .segments) .unknown)
    rootDirectory.syncDirectory .unknown

/-! ### Names -/

/-- The segment a canonical name belongs to. -/
def parseSegmentName : SegmentName → Option Nat
  | .log segmentId => if segmentId < wordMax then some segmentId else none
  | _ => none

/-- The segment a temporary name belongs to. -/
def parseSegmentTemporaryName : SegmentName → Option Nat
  | .temporary segmentId => if segmentId < wordMax then some segmentId else none
  | _ => none

/-- The order in which a directory is enumerated, which the filesystem chooses. -/
structure Listing where
  order : List SegmentName → List SegmentName
  complete : ∀ names, (order names).Perm names

/-- The names in their order. -/
def Listing.sorted : Listing := ⟨id, fun _ => .refl _⟩

/-- Enumerates the segment directory. -/
def Listing.names (listing : Listing) (fs : Fs) : List SegmentName :=
  listing.order fs.segments.entries.keys

end Camus
