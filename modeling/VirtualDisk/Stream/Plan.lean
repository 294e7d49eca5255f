import VirtualDisk.Level
import VirtualDisk.Stream.Piece

namespace VirtualDisk

/-- Where the bytes of a block come from. -/
inductive BlockSource (π : Type) where
  | own (data : Nat)
  | inherited (parent : ParentView π)
  /-- The image stores it and an ancestor may; the bitmap at `bitmap` decides. -/
  | both (bitmap data : Nat) (parent : ParentView π)

def BlockSource.parent? {π : Type} : BlockSource π → Option (ParentView π)
  | own _ => none
  | inherited parent => some parent
  | both _ _ parent => some parent

/-- The numbers from `start` on, `count` of them. The end is a machine word: if it would lie
behind the last one, it lies before `start`, and there are no numbers. -/
def wordRange (start count : UInt64) : List Nat :=
  List.range' start.toNat ((start + count).toNat - start.toNat)

theorem mem_wordRange {start count : UInt64} {bit : Nat}
    (h : start.toNat + count.toNat < UInt64.size) :
    bit ∈ wordRange start count ↔ ∃ k < count.toNat, bit = start.toNat + k := by
  have hend : (start + count).toNat - start.toNat = count.toNat := by
    rw [UInt64.toNat_add, Nat.mod_eq_of_lt h, Nat.add_sub_cancel_left]
  rw [wordRange, hend, List.mem_range'_1]
  constructor
  · rintro ⟨hle, hlt⟩
    exact ⟨bit - start.toNat, by omega, by omega⟩
  · rintro ⟨k, hk, rfl⟩
    omega

def uniformBits (bitmap : ByteArray) (start count : UInt64) : Option Bool :=
  if (wordRange start count).all fun bit => bitmapBit bitmap bit then some true
  else if (wordRange start count).all fun bit => !bitmapBit bitmap bit then some false
  else none

section uniform

variable {bitmap : ByteArray} {start count : UInt64}

theorem bit_of_uniformBits {k : Nat} {isSet : Bool}
    (hfits : start.toNat + count.toNat < UInt64.size)
    (h : uniformBits bitmap start count = some isSet) (hk : k < count.toNat) :
    bitmapBit bitmap (start.toNat + k) = isSet := by
  have hmem := (mem_wordRange hfits).mpr ⟨k, hk, rfl⟩
  unfold uniformBits at h
  split at h
  · next hset =>
    cases h
    exact List.all_eq_true.mp hset _ hmem
  · split at h
    · next hclear =>
      cases h
      simpa using List.all_eq_true.mp hclear _ hmem
    · cases h

/-- Bits are not all the same just if one is set and one is clear. -/
theorem uniformBits_eq_none_iff (hfits : start.toNat + count.toNat < UInt64.size) :
    uniformBits bitmap start count = none ↔
      (∃ k < count.toNat, bitmapBit bitmap (start.toNat + k) = true) ∧
        ∃ k < count.toNat, bitmapBit bitmap (start.toNat + k) = false := by
  constructor
  case mp =>
    intro h
    unfold uniformBits at h
    split at h
    · cases h
    · next hset =>
      split at h
      · cases h
      · next hclear =>
        simp only [List.all_eq_true, Bool.not_eq_true', Classical.not_forall, Bool.not_eq_false,
          Bool.not_eq_true, exists_prop] at hset hclear
        obtain ⟨_, hmem, hbit⟩ := hset
        obtain ⟨_, hmem', hbit'⟩ := hclear
        obtain ⟨j, hj, rfl⟩ := (mem_wordRange hfits).mp hmem
        obtain ⟨k, hk, rfl⟩ := (mem_wordRange hfits).mp hmem'
        exact ⟨⟨k, hk, hbit'⟩, j, hj, hbit⟩
  case mpr =>
    rintro ⟨⟨j, hj, hset⟩, k, hk, hclear⟩
    cases h : uniformBits bitmap start count with
    | none => rfl
    | some isSet =>
      rw [bit_of_uniformBits hfits h hj] at hset
      rw [bit_of_uniformBits hfits h hk, hset] at hclear
      cases hclear

end uniform

structure Plan where
  size : Nat
  start : Nat
  stop : Nat
  buffer : BufferSize
  cursor : Nat
  /-- Zeros that come before the next piece. -/
  owed : Nat
  footerDone : Bool

namespace Plan

/-- Nothing is planned of a range; a range that stops before it starts is empty. -/
def ofRange (size start stop : Nat) (buffer : BufferSize) : Plan where
  size
  start
  stop := max stop start
  buffer
  cursor := start
  owed := 0
  footerDone := false

def dataEnd (p : Plan) : Nat := max (min p.stop p.size) p.start

def footerStart (p : Plan) : Nat := max p.start p.size

def footerLeft (p : Plan) : Nat := if p.footerDone then 0 else p.stop - p.footerStart

def left (p : Plan) : Nat := p.owed + (p.dataEnd - p.cursor) + p.footerLeft

/-- Decreases whenever a piece is planned. -/
def work (p : Plan) : Nat :=
  2 * (p.dataEnd - p.cursor) + (decide (0 < p.owed)).toNat + (!p.footerDone).toNat

variable {π : Type}

/-- Where the bytes of a block come from; nowhere, if neither the image nor an
ancestor stores it. -/
def blockSource (layout : SparseLayout) (parent : Option (ParentView π)) (index : Nat) :
    Option (BlockSource π) :=
  match layout.table.sector? index,
      parent.filter fun _ => layout.coverage.mayBeInParent index with
  | none, none => none
  | some sector, none => some (.own ((sector + layout.table.bitmapSectors) * sectorSize))
  | none, some parent => some (.inherited parent)
  | some sector, some parent =>
    some (.both (sector * sectorSize) ((sector + layout.table.bitmapSectors) * sectorSize) parent)

/-- The image's own bytes from `lo` to `hi`, which lie in the block with the
given data. -/
def ownRange (table : BlockTable) (buffer : BufferSize) (data lo hi : Nat) : FileRange :=
  FileRange.ofRange (data + table.withinBlock lo) (hi - lo) buffer

def parentRange (parent : ParentView π) (buffer : BufferSize) (lo hi : Nat) : Inherited π :=
  let stop := max (min hi parent.size) lo
  (parent.openAt lo stop buffer, ⟨hi - stop, buffer⟩)

/-- The piece for the bytes from `lo` to `hi` of a block. If two images hold
it, its bitmap is read, and a merge is only needed where the bits differ. -/
def blockPiece (table : BlockTable) (contents : ByteArray) (buffer : BufferSize) (lo hi : Nat) :
    BlockSource π → Except Error (Piece π)
  | .own data => .ok (.file (ownRange table buffer data lo hi))
  | .inherited parent => .ok (.inherited (parentRange parent buffer lo hi))
  | .both bitmapOffset data parent => do
    let bitmap ← readAt contents bitmapOffset table.bitmapSize "block bitmap"
    let bit := table.withinBlock lo / sectorSize
    let sectors := (hi - lo + (sectorSize - 1)) / sectorSize
    return match uniformBits bitmap (.ofNat bit) (.ofNat sectors) with
      | some true => .file (ownRange table buffer data lo hi)
      | some false => .inherited (parentRange parent buffer lo hi)
      | none =>
        .merge (.ofSources (parentRange parent buffer lo hi) (ownRange table buffer data lo hi)
          bitmap bit sectorSize)

def owedRun (p : Plan) : ZeroRun := ⟨p.owed, p.buffer⟩

def paid (p : Plan) : Plan := { p with owed := 0 }

/-- What comes when all blocks are planned: zeros that are owed, then the
footer, then nothing. -/
def afterBlocks (flattened : Footer) (p : Plan) : Option (Piece π) × Plan :=
  if 0 < p.owed then (some (.zeros p.owedRun), p.paid)
  else if p.footerDone then (none, p)
  else
    let rest := { p with footerDone := true }
    if p.footerStart < p.stop then
      (some (.footer (some (slice flattened.bytes (p.footerStart - p.size)
        (p.stop - p.footerStart)))), rest)
    else (none, rest)

def blockEnd (table : BlockTable) (offset : Nat) : Nat :=
  (table.blockOf offset + 1) * table.blockSize

theorem lt_blockEnd (table : BlockTable) (offset : Nat) : offset < blockEnd table offset := by
  rw [blockEnd, BlockTable.blockOf, Nat.mul_comm]
  exact Nat.lt_mul_div_succ offset table.blockSize_pos

theorem blockEnd_le (table : BlockTable) (offset : Nat) :
    blockEnd table offset ≤ offset + table.blockSize := by
  have hle : offset / table.blockSize * table.blockSize ≤ offset := Nat.div_mul_le_self _ _
  rw [blockEnd, BlockTable.blockOf, Nat.succ_mul]
  omega

/-- The next piece of a range through an image whose file has the given
contents, and the plan behind it. -/
def next (level : Level) (parent : Option (ParentView π)) (contents : ByteArray) (p : Plan) :
    Except Error (Option (Piece π)) × Plan :=
  if _hp : p.cursor < p.dataEnd then
    match level.sparse with
    | none =>
      (.ok (some (.file (.ofRange p.cursor (p.dataEnd - p.cursor) p.buffer))),
        { p with cursor := p.dataEnd })
    | some layout =>
      let index := layout.table.blockOf p.cursor
      if layout.table.length ≤ index then
        let (piece, rest) := afterBlocks level.flattenedFooter
          { p with owed := p.owed + (p.dataEnd - p.cursor), cursor := p.dataEnd }
        (.ok piece, rest)
      else
        let hi := min (blockEnd layout.table p.cursor) p.dataEnd
        match blockSource layout parent index with
        | none =>
          next level parent contents { p with owed := p.owed + (hi - p.cursor), cursor := hi }
        | some source =>
          if 0 < p.owed then (.ok (some (.zeros p.owedRun)), p.paid)
          else
            ((blockPiece layout.table contents p.buffer p.cursor hi source).map some,
              { p with cursor := hi })
  else
    let (piece, rest) := afterBlocks level.flattenedFooter p
    (.ok piece, rest)
termination_by p.dataEnd - p.cursor
decreasing_by
  have := lt_blockEnd layout.table p.cursor
  simp only [dataEnd] at *
  omega

end Plan

end VirtualDisk
