import VirtualDisk.Proofs.BlockYield
import VirtualDisk.Proofs.Chunking

namespace VirtualDisk

structure Total.IsWhole (x : Total) (count : Nat) : Prop where
  fault_eq : x.fault = none
  length_eq : x.bytes.length = count

section same

variable {bitmap : ByteArray} {size count : Nat} {bit : UInt64} {isSet : Bool}

theorem interleave_of_same {α : Type}
    (h : ∀ k < count, bitmapBit bitmap (bitAfter bit k).toNat = isSet) (xs ys : List α) :
    interleave bitmap size bit count xs ys
      = (if isSet then ys else xs).take (count * size) := by
  induction count generalizing bit xs ys with
  | zero => rw [Nat.zero_mul, List.take_zero, interleave]
  | succ count ih =>
    have hfirst : bitmapBit bitmap bit.toNat = isSet := by
      have hzero := h 0 (Nat.succ_pos count)
      rwa [bitAfter_zero] at hzero
    have hrest : ∀ k < count, bitmapBit bitmap (bitAfter (bitAfter bit 1) k).toNat = isSet := by
      intro k hk
      rw [← bitAfter_add, Nat.add_comm]
      exact h (k + 1) (Nat.succ_lt_succ hk)
    have hdrop : (if isSet then ys.drop size else xs.drop size)
        = (if isSet then ys else xs).drop size := by
      split <;> rfl
    rw [interleave, ih hrest, hfirst, hdrop, Nat.succ_mul, Nat.add_comm, List.take_add]

theorem mergeTotal_of_same {x y : Total} (hs : 0 < size) (hx : x.IsWhole (count * size))
    (hy : y.IsWhole (count * size))
    (h : ∀ k < count, bitmapBit bitmap (bitAfter bit k).toNat = isSet) (received : Nat × Nat) :
    mergeTotal bitmap size bit x y received = if isSet then y else x := by
  have hsectors : min (x.bytes.length / size) (y.bytes.length / size) = count := by
    rw [hx.length_eq, hy.length_eq, Nat.mul_div_cancel _ hs, Nat.min_self]
  have hfault : mergeFault size x y received = none := by
    rw [mergeFault_eq_none_iff, hsectors]
    exact ⟨⟨hx.fault_eq, hy.fault_eq⟩, hx.length_eq, hy.length_eq⟩
  rw [mergeTotal, hsectors, hfault, interleave_of_same h]
  cases isSet with
  | true =>
    obtain ⟨bytes, fault⟩ := y
    cases hy.fault_eq
    rw [if_pos rfl, if_pos rfl, List.take_of_length_le (Nat.le_of_eq hy.length_eq)]
  | false =>
    obtain ⟨bytes, fault⟩ := x
    cases hx.fault_eq
    rw [if_neg Bool.false_ne_true, if_neg Bool.false_ne_true,
      List.take_of_length_le (Nat.le_of_eq hx.length_eq)]

end same

namespace Plan

section sources

variable {ε β ω : Type} {base : Source ε β} {own : Source ε ω} {env : ε} {b : β} {o : ω}
  {bitmap : ByteArray} {start count : UInt64} {isSet : Bool}

theorem total_of_uniformBits (hfits : start.toNat + count.toNat < UInt64.size)
    (hu : uniformBits bitmap start count = some isSet)
    (hb : (base.total env b).IsWhole (count.toNat * sectorSize))
    (ho : (own.total env o).IsWhole (count.toNat * sectorSize)) :
    (SectorMerge.source base own).total env (.ofSources b o bitmap start.toNat sectorSize)
      = if isSet then own.total env o else base.total env b := by
  have hpos : 0 < sectorSize := by decide
  have hbits (k : Nat) (hk : k < count.toNat) :
      bitmapBit bitmap (bitAfter start k).toNat = isSet := by
    rw [toNat_bitAfter (by omega)]
    exact bit_of_uniformBits hfits hu hk
  rw [SectorMerge.total_ofSources hpos, UInt64.ofNat_toNat]
  exact mergeTotal_of_same hpos hb ho hbits _

end sources

section block

variable {π : Type} {place : Place} {parent : Source Files π} {files : Files}
  {v : ParentView π} {table : BlockTable} {buffer : BufferSize} {bitmap : ByteArray}
  {lo hi offset data : Nat} {start count : UInt64}

/-- However a block is resolved that two images hold, it gives what the merge of both would. -/
theorem exists_blockPiece_both (hfits : start.toNat + count.toNat < UInt64.size)
    (hlen : hi - lo = count.toNat * sectorSize)
    (hstart : table.withinBlock lo / sectorSize = start.toNat)
    (hread : readAt (files.contents place) offset table.bitmapSize "block bitmap" = .ok bitmap)
    (hb : ((Piece.inheritedSource parent).total files (parentRange v buffer lo hi)).IsWhole
      (hi - lo))
    (ho : ((Piece.fileSource place).total files (ownRange table buffer data lo hi)).IsWhole
      (hi - lo)) :
    ∃ piece, blockPiece table (files.contents place) buffer lo hi (.both offset data v)
      = .ok piece ∧
      (Piece.source place parent).total files piece
        = (Piece.mergeSource place parent).total files (.ofSources (parentRange v buffer lo hi)
          (ownRange table buffer data lo hi) bitmap start.toNat sectorSize) := by
  have hcount : (hi - lo + (sectorSize - 1)) / sectorSize = count.toNat := by
    unfold sectorSize at hlen ⊢
    omega
  rw [hlen] at hb ho
  simp only [blockPiece, hread, hcount, hstart, UInt64.ofNat_toNat]
  refine ⟨_, rfl, ?_⟩
  cases hu : uniformBits bitmap start count with
  | none => exact Piece.total_merge _
  | some isSet =>
    rw [Piece.mergeSource, total_of_uniformBits hfits hu hb ho]
    cases isSet with
    | true => exact Piece.total_file _
    | false => exact Piece.total_inherited _

end block

/-- Where the bits of a range are all the same, the merge of two sides that have it whole gives
what one of them gives. Bits are found to differ just if one is set and one is clear. So a block
that is taken from one side without a merge has the bytes of the merge. The bits are numbered by
machine words, as must be the end of their range. -/
theorem uniform_needs_no_merge (bitmap : ByteArray) (start count : UInt64)
    (hfits : start.toNat + count.toNat < UInt64.size) :
    (∀ {ε β ω : Type} (base : Source ε β) (own : Source ε ω) (env : ε) (b : β) (o : ω),
      (base.total env b).IsWhole (count.toNat * sectorSize) →
      (own.total env o).IsWhole (count.toNat * sectorSize) →
      let merged :=
        (SectorMerge.source base own).total env (.ofSources b o bitmap start.toNat sectorSize)
      (uniformBits bitmap start count = some true → merged = own.total env o) ∧
      (uniformBits bitmap start count = some false → merged = base.total env b)) ∧
    (uniformBits bitmap start count = none ↔
      (∃ k < count.toNat, bitmapBit bitmap (start.toNat + k) = true) ∧
        ∃ k < count.toNat, bitmapBit bitmap (start.toNat + k) = false) ∧
    ∀ {π : Type} (place : Place) (parent : Source Files π) (files : Files) (v : ParentView π)
      (table : BlockTable) (buffer : BufferSize) (lo hi offset data : Nat),
      let inherited := parentRange v buffer lo hi
      let own := ownRange table buffer data lo hi
      hi - lo = count.toNat * sectorSize → table.withinBlock lo / sectorSize = start.toNat →
      readAt (files.contents place) offset table.bitmapSize "block bitmap" = .ok bitmap →
      ((Piece.inheritedSource parent).total files inherited).IsWhole (hi - lo) →
      ((Piece.fileSource place).total files own).IsWhole (hi - lo) →
      ∃ piece,
        blockPiece table (files.contents place) buffer lo hi (.both offset data v) = .ok piece ∧
        (Piece.source place parent).total files piece
          = (Piece.mergeSource place parent).total files
            (.ofSources inherited own bitmap start.toNat sectorSize) := by
  refine ⟨?_, uniformBits_eq_none_iff hfits, ?_⟩
  · intro ε β ω base own env b o hb ho
    exact ⟨fun hu => total_of_uniformBits hfits hu hb ho,
      fun hu => total_of_uniformBits hfits hu hb ho⟩
  · intro π place parent files v table buffer lo hi offset data inherited own hlen hstart
      hread hb ho
    exact exists_blockPiece_both hfits hlen hstart hread hb ho

/-- Two sectors in the middle of a byte whose bits are set, cut into chunks in different ways. -/
theorem uniform_needs_no_merge_midByte :
    uniformBits ⟨#[0x03]⟩ 6 2 = some true ∧
      SectorMerge.ofLists.total () (.ofSources [.ok (zeros 1000), .ok (zeros 24)]
        [.ok ⟨Array.replicate 300 1⟩, .ok ByteArray.empty, .ok ⟨Array.replicate 724 1⟩]
        ⟨#[0x03]⟩ 6 sectorSize) = ⟨List.replicate 1024 1, none⟩ := by
  have hbits : uniformBits ⟨#[0x03]⟩ 6 2 = some true := by decide
  have hb : Source.joined [.ok (zeros 1000), .ok (zeros 24)] = ⟨List.replicate 1024 0, none⟩ := by
    simp only [Source.joined, octets_zeros, List.append_nil, List.replicate_append_replicate,
      Nat.reduceAdd]
  have ho : Source.joined [.ok ⟨Array.replicate 300 1⟩, .ok ByteArray.empty,
      .ok ⟨Array.replicate 724 1⟩] = ⟨List.replicate 1024 1, none⟩ := by
    simp only [Source.joined, octets_replicate, octets_empty, List.nil_append, List.append_nil,
      List.replicate_append_replicate, Nat.reduceAdd]
  have htotal (items : List (Except Error ByteArray)) :
      (Source.ofList : Source Unit _).total () items = Source.joined items :=
    Source.total_ofList items
  rw [← htotal] at hb ho
  refine ⟨hbits, Eq.trans ?_ ho⟩
  have hfits : (6 : UInt64).toNat + (2 : UInt64).toNat < UInt64.size := by decide
  refine ((uniform_needs_no_merge ⟨#[0x03]⟩ 6 2 hfits).1 Source.ofList Source.ofList () _ _
    ?_ ?_).1 hbits
  · rw [hb]
    exact ⟨rfl, List.length_replicate⟩
  · rw [ho]
    exact ⟨rfl, List.length_replicate⟩

end Plan

end VirtualDisk
