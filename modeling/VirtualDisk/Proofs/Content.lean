import VirtualDisk.Disk
import VirtualDisk.Proofs.FileYield

namespace VirtualDisk

def bitAt (contents : ByteArray) (start bit : Nat) : Option Bool :=
  (byteAt contents (start + bit / 8)).map fun b => b.toNat.testBit (7 - bit % 8)

namespace BlockTable

/-- The image's own byte at an offset of the disk. -/
def ownByte (t : BlockTable) (contents : ByteArray) (offset : Nat) : Option UInt8 :=
  (t.physical? offset).bind (byteAt contents)

/-- The bit of the sector of a byte in the bitmap of its block. -/
def ownBit (t : BlockTable) (contents : ByteArray) (offset : Nat) : Option Bool :=
  (t.bitmapOffset? (t.blockOf offset)).bind fun start =>
    bitAt contents start (t.withinBlock offset / sectorSize)

def HasBit (t : BlockTable) (contents : ByteArray) (lo hi : Nat) (isSet : Bool) : Prop :=
  ∃ o, lo ≤ o ∧ o < hi ∧ t.ownBit contents o = some isSet

end BlockTable

namespace SparseLayout

variable (layout : SparseLayout) (contents : ByteArray) (hasParent : Bool)

/-- Whether a block may come from a parent. -/
def inherits (index : Nat) : Bool := hasParent && layout.coverage.mayBeInParent index

/-- A byte of a sparse image whose parent has the bytes `inherited`. -/
def byte (inherited : Nat → Option UInt8) (offset : Nat) : Option UInt8 :=
  let index := layout.table.blockOf offset
  if layout.table.length ≤ index then some 0
  else match layout.table.isPresent index, layout.inherits hasParent index with
    | false, false => some 0
    | true, false => layout.table.ownByte contents offset
    | false, true => inherited offset
    | true, true => (layout.table.ownBit contents offset).bind fun isSet =>
      if isSet then layout.table.ownByte contents offset else inherited offset

def OwnReadable (lo hi : Nat) : Prop :=
  ∀ start, layout.table.physical? lo = some start → start + (hi - lo) ≤ contents.size

/-- Whether the bytes from `lo` to `hi` of a block can be given. Where two
images hold them, they are given by whole sectors. -/
def BlockReadable (below : Nat → Nat → Prop) (index lo hi : Nat) : Prop :=
  match layout.table.bitmapOffset? index, layout.inherits hasParent index with
  | none, false => True
  | some _, false => layout.OwnReadable contents lo hi
  | none, true => below lo hi
  | some start, true =>
    start + layout.table.bitmapSize ≤ contents.size ∧
    (layout.table.HasBit contents lo hi true → layout.OwnReadable contents lo hi) ∧
    (layout.table.HasBit contents lo hi false → below lo hi) ∧
    (layout.table.HasBit contents lo hi true → layout.table.HasBit contents lo hi false →
      (hi - lo) % sectorSize = 0)

def Readable (below : Nat → Nat → Prop) (lo hi : Nat) : Prop :=
  ∀ index, index < layout.table.length →
    max lo (index * layout.table.blockSize) < min hi ((index + 1) * layout.table.blockSize) →
    layout.BlockReadable contents hasParent below index
      (max lo (index * layout.table.blockSize)) (min hi ((index + 1) * layout.table.blockSize))

end SparseLayout

namespace Level

variable (level : Level) (contents : ByteArray) (hasParent : Bool)

def byte (inherited : Nat → Option UInt8) (offset : Nat) : Option UInt8 :=
  match level.sparse with
  | none => byteAt contents offset
  | some layout => layout.byte contents hasParent inherited offset

def Readable (below : Nat → Nat → Prop) (lo hi : Nat) : Prop :=
  match level.sparse with
  | none => lo < hi → hi ≤ contents.size
  | some layout => layout.Readable contents hasParent below lo hi

variable {level}

theorem byte_of_fixed (h : level.sparse = none) (inherited : Nat → Option UInt8) :
    level.byte contents hasParent inherited = byteAt contents := by
  funext o
  rw [byte, h]

theorem byte_of_sparse {layout : SparseLayout} (h : level.sparse = some layout)
    (inherited : Nat → Option UInt8) :
    level.byte contents hasParent inherited = layout.byte contents hasParent inherited := by
  funext o
  rw [byte, h]

theorem readable_of_fixed (h : level.sparse = none) (below : Nat → Nat → Prop) (lo hi : Nat) :
    level.Readable contents hasParent below lo hi ↔ (lo < hi → hi ≤ contents.size) := by
  rw [Readable, h]

theorem readable_of_sparse {layout : SparseLayout} (h : level.sparse = some layout)
    (below : Nat → Nat → Prop) :
    level.Readable contents hasParent below = layout.Readable contents hasParent below := by
  funext lo hi
  rw [Readable, h]

end Level

def extent : List Level → Nat
  | [] => 0
  | level :: _ => level.footer.currentSize

variable (files : Files)

/-- The byte of a chain of images at an offset. A byte that no image stores is
zero, as is one that lies beyond the end of the parent. -/
def content : List Level → Nat → Option UInt8
  | [] => fun _ => some 0
  | level :: ancestors =>
    level.byte (files.contents level.place) (!ancestors.isEmpty) fun offset =>
      if offset < extent ancestors then content ancestors offset else some 0

/-- What a chain has at an offset for the image above it. -/
def inherited (chain : List Level) (offset : Nat) : Option UInt8 :=
  if offset < extent chain then content files chain offset else some 0

theorem content_cons (level : Level) (ancestors : List Level) :
    content files (level :: ancestors)
      = level.byte (files.contents level.place) (!ancestors.isEmpty)
        (inherited files ancestors) := rfl

/-- The byte of the flattened disk of a chain: its contents, then its footer. -/
def flattened (chain : List Level) (offset : Nat) : Option UInt8 :=
  if offset < extent chain then content files chain offset
  else chain.head?.bind fun top => byteAt top.flattenedFooter.bytes (offset - extent chain)

/-- Whether the bytes of a chain from `lo` to `hi` can be given. -/
def Readable : List Level → Nat → Nat → Prop
  | [] => fun _ _ => True
  | level :: ancestors =>
    level.Readable (files.contents level.place) (!ancestors.isEmpty) fun lo hi =>
      Readable ancestors lo (min hi (extent ancestors))

end VirtualDisk
