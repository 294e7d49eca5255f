import VirtualDisk.SparseHeader

namespace VirtualDisk

structure BlockTable where
  entries : Array UInt32
  blockSize : Nat
  blockSize_pos : 0 < blockSize

namespace BlockTable

structure Fits (t : BlockTable) : Prop where
  sectorSize_dvd : sectorSize ∣ t.blockSize
  blockSize_le : t.blockSize ≤ Limits.blockSize

def unused : UInt32 := 0xFFFFFFFF

def entryAt (bytes : ByteArray) (i : Fin (bytes.size / 4)) : UInt32 :=
  UInt32.ofNat (bigEndian [bytes[4 * i.val], bytes[4 * i.val + 1], bytes[4 * i.val + 2],
    bytes[4 * i.val + 3]])

def parse (bytes : ByteArray) (blockSize : Nat) (pos : 0 < blockSize) :
    Except Error BlockTable :=
  if bytes.size % 4 ≠ 0 then .error (.format .tableLength)
  else .ok ⟨Array.ofFn (entryAt bytes), blockSize, pos⟩

def read (contents : ByteArray) (header : SparseHeader) : Except Error BlockTable := do
  let product ← Limits.checkProduct header.tableLength 4 "BAT size"
  let length ← Limits.checkAllocation product Limits.allocation "BAT"
  let bytes ← readAt contents header.tableOffset length "block allocation table"
  parse bytes header.blockSize.bytes header.blockSize.bytes_pos

def length (t : BlockTable) : Nat := t.entries.size

def isEmpty (t : BlockTable) : Bool := t.length == 0

def bitmapSize (t : BlockTable) : Nat := (t.blockSize / sectorSize + 7) / 8

def bitmapSectors (t : BlockTable) : Nat := (t.bitmapSize + (sectorSize - 1)) / sectorSize

def sector? (t : BlockTable) (index : Nat) : Option Nat :=
  match t.entries[index]? with
  | some entry => if entry = unused then none else some entry.toNat
  | none => none

def isPresent (t : BlockTable) (index : Nat) : Bool := (t.sector? index).isSome

def bitmapOffset? (t : BlockTable) (index : Nat) : Option Nat :=
  (t.sector? index).map (· * sectorSize)

def dataOffset? (t : BlockTable) (index : Nat) : Option Nat :=
  (t.sector? index).map fun sector => (sector + t.bitmapSectors) * sectorSize

def blockOf (t : BlockTable) (offset : Nat) : Nat := offset / t.blockSize

def withinBlock (t : BlockTable) (offset : Nat) : Nat := offset % t.blockSize

/-- The blocks that the image stores, in ascending order. -/
def indices (t : BlockTable) : List Nat := (List.range t.length).filter t.isPresent

def dataOffsets (t : BlockTable) : List Nat := t.indices.filterMap t.dataOffset?

/-- Where the image stores a byte of the disk, if it does. -/
def physical? (t : BlockTable) (offset : Nat) : Option Nat :=
  (t.dataOffset? (t.blockOf offset)).map (· + t.withinBlock offset)

def dataRange? (t : BlockTable) (index : Nat) : Option (Nat × Nat) :=
  (t.dataOffset? index).map fun start => (start, start + t.blockSize)

end BlockTable

end VirtualDisk
