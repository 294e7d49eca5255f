import VirtualDisk.FileRange
import VirtualDisk.Files
import VirtualDisk.SectorMerge

namespace VirtualDisk

/-- The parent of an image, as far as its stream needs it: the size of its
disk, and how a range of it is streamed. -/
structure ParentView (π : Type) where
  size : Nat
  openAt : (start stop : Nat) → BufferSize → π

/-- A range of the parent, filled up with zeros beyond its end. -/
abbrev Inherited (π : Type) := π × ZeroRun

inductive Piece (π : Type) where
  | file (range : FileRange)
  | zeros (run : ZeroRun)
  | inherited (range : Inherited π)
  | footer (bytes : Option ByteArray)
  | merge (merge : SectorMerge (Inherited π) FileRange)

namespace Piece

variable {π : Type}

def fileSource (place : Place) : Source Files FileRange :=
  FileRange.source.on (·.contents place)

def inheritedSource (parent : Source Files π) : Source Files (Inherited π) :=
  parent.andThen ZeroRun.source

def mergeSource (place : Place) (parent : Source Files π) :
    Source Files (SectorMerge (Inherited π) FileRange) :=
  SectorMerge.source (inheritedSource parent) (fileSource place)

def budget (parent : Source Files π) : Piece π → Nat
  | file range => range.remaining
  | zeros run => run.remaining
  | inherited range => (inheritedSource parent).budget range
  | footer (some bytes) => max 1 bytes.size
  | footer none => 0
  | merge m => m.base.pending.size + (inheritedSource parent).budget m.base.source

def pull (place : Place) (parent : Source Files π) (files : Files) :
    Piece π → Pulled × Piece π
  | file range => ((fileSource place).pull files range).map id .file
  | zeros run => run.pull.map id .zeros
  | inherited range => ((inheritedSource parent).pull files range).map id .inherited
  | footer (some bytes) => (.chunk bytes, .footer none)
  | footer none => (.ended, .footer none)
  | merge m => ((mergeSource place parent).pull files m).map id .merge

def source (place : Place) (parent : Source Files π) : Source Files (Piece π) where
  pull := pull place parent
  budget := budget parent
  budget_pull files piece := by
    cases piece with
    | file range => exact (fileSource place).budget_pull files range
    | zeros run => exact ZeroRun.source.budget_pull files run
    | inherited range => exact (inheritedSource parent).budget_pull files range
    | footer bytes => cases bytes <;> simp [pull, budget, Pulled.cost]
    | merge m => exact (mergeSource place parent).budget_pull files m

end Piece

/-- A view of a parent whose ranges give no more bytes than they span. -/
def ParentView.IsBounded {π : Type} (parent : Source Files π) (v : ParentView π) : Prop :=
  ∀ start stop buffer, parent.budget (v.openAt start stop buffer) ≤ stop - start

end VirtualDisk
