import VirtualDisk.Stream.PlanBounds
import VirtualDisk.Proofs.Content
import VirtualDisk.Proofs.MergeYield

namespace VirtualDisk

theorem bitAt_eq_bitmapBit {contents : ByteArray} {start size bit : Nat}
    (hs : start + size ≤ contents.size) (hb : bit / 8 < size) :
    bitAt contents start bit = some (bitmapBit (slice contents start size) bit) := by
  have hsize : (slice contents start size).size = size := by
    rw [size_slice]
    omega
  have hget : (octets (slice contents start size))[bit / 8]?
      = (octets contents)[start + bit / 8]? := by
    rw [octets_slice, List.getElem?_take, if_pos hb, List.getElem?_drop]
  have hin : bit / 8 < (octets (slice contents start size)).length := by
    rw [length_octets, hsize]
    exact hb
  rw [bitAt, byteAt, ← hget, List.getElem?_eq_getElem hin, bitmapBit, dif_pos (by omega)]
  rfl

/-- Sectors are counted from the start of a block as from the start of a range
of whole sectors in it. -/
theorem sector_within_block {size lo o : Nat} (hs : sectorSize ∣ size) (hl : sectorSize ∣ lo)
    (hle : lo ≤ o) (hblock : o / size = lo / size) :
    o % size / sectorSize = lo % size / sectorSize + (o - lo) / sectorSize := by
  have hmod : o % size = lo % size + (o - lo) := by
    have h1 := Nat.div_add_mod o size
    have h2 := Nat.div_add_mod lo size
    rw [hblock] at h1
    omega
  obtain ⟨k, hk⟩ := (Nat.dvd_mod_iff hs).mpr hl
  have hpos : 0 < sectorSize := by decide
  rw [hmod, hk, Nat.mul_add_div hpos, Nat.mul_div_cancel_left _ hpos]

namespace BlockTable

variable {t : BlockTable}

theorem bitmapSize_bound (hs : sectorSize ∣ t.blockSize) (offset : Nat) :
    t.withinBlock offset / sectorSize / 8 < t.bitmapSize := by
  have hlt : t.withinBlock offset < t.blockSize := Nat.mod_lt _ t.blockSize_pos
  obtain ⟨k, hk⟩ := hs
  have hpos : 0 < sectorSize := by decide
  have hq : t.withinBlock offset / sectorSize < k :=
    (Nat.div_lt_iff_lt_mul hpos).mpr (by rw [Nat.mul_comm, ← hk]; exact hlt)
  rw [bitmapSize, hk, Nat.mul_div_cancel_left _ hpos]
  generalize t.withinBlock offset / sectorSize = q at hq ⊢
  omega

theorem ownByte_eq {contents : ByteArray} {lo o sector : Nat} (hle : lo ≤ o)
    (hblock : t.blockOf o = t.blockOf lo) (h : t.sector? (t.blockOf lo) = some sector) :
    t.ownByte contents o = byteAt contents
      ((sector + t.bitmapSectors) * sectorSize + t.withinBlock lo + (o - lo)) := by
  have hmod : t.withinBlock o = t.withinBlock lo + (o - lo) := by
    have h1 := Nat.div_add_mod o t.blockSize
    have h2 := Nat.div_add_mod lo t.blockSize
    have h3 : o / t.blockSize = lo / t.blockSize := hblock
    rw [h3] at h1
    unfold withinBlock
    omega
  have hdata : t.dataOffset? (t.blockOf o) = some ((sector + t.bitmapSectors) * sectorSize) := by
    rw [hblock, dataOffset?, h]
    rfl
  rw [ownByte, physical?, hdata, Option.map_some, Option.bind_some, hmod, Nat.add_assoc]

theorem ownBit_eq {contents : ByteArray} {lo o sector : Nat} (hs : sectorSize ∣ t.blockSize)
    (hl : sectorSize ∣ lo) (hle : lo ≤ o) (hblock : t.blockOf o = t.blockOf lo)
    (h : t.sector? (t.blockOf lo) = some sector)
    (hc : sector * sectorSize + t.bitmapSize ≤ contents.size) :
    t.ownBit contents o = some (bitmapBit (slice contents (sector * sectorSize) t.bitmapSize)
      (t.withinBlock lo / sectorSize + (o - lo) / sectorSize)) := by
  have hstart : t.bitmapOffset? (t.blockOf o) = some (sector * sectorSize) := by
    rw [hblock, bitmapOffset?, h]
    rfl
  rw [ownBit, hstart, Option.bind_some, bitAt_eq_bitmapBit hc (bitmapSize_bound hs o)]
  rw [show t.withinBlock o / sectorSize = t.withinBlock lo / sectorSize + (o - lo) / sectorSize
    from sector_within_block hs hl hle hblock]

theorem Fits.bits_lt {lo hi : Nat} (h : t.Fits) (hhi : hi ≤ Plan.blockEnd t lo) :
    t.withinBlock lo / sectorSize + (hi - lo + (sectorSize - 1)) / sectorSize < UInt64.size := by
  have hsize := h.blockSize_le
  have hwithin : t.withinBlock lo < t.blockSize := Nat.mod_lt _ t.blockSize_pos
  have hend := Plan.blockEnd_le t lo
  unfold Limits.blockSize at hsize
  unfold sectorSize UInt64.size
  omega

end BlockTable

theorem forall_sector_iff {lo hi : Nat} {p : Nat → Prop} :
    (∀ k, k < (hi - lo + (sectorSize - 1)) / sectorSize → p k) ↔
      ∀ o, lo ≤ o → o < hi → p ((o - lo) / sectorSize) := by
  unfold sectorSize
  constructor
  · intro h o hle hlt
    exact h _ (by omega)
  · intro h k hk
    have hp := h (lo + k * 512) (by omega) (by omega)
    rwa [show (lo + k * 512 - lo) / 512 = k by omega] at hp

theorem exists_sector_iff {lo hi : Nat} {p : Nat → Prop} :
    (∃ k, k < (hi - lo + (sectorSize - 1)) / sectorSize ∧ p k) ↔
      ∃ o, lo ≤ o ∧ o < hi ∧ p ((o - lo) / sectorSize) := by
  have h := not_congr (@forall_sector_iff lo hi fun k => ¬p k)
  simpa only [Classical.not_forall, Classical.not_not, exists_prop] using h

def BitsOf (bit : Nat → Bool) (lo hi : Nat) : Option Bool → Prop
  | some isSet => ∀ o, lo ≤ o → o < hi → bit o = isSet
  | none => (∃ o, lo ≤ o ∧ o < hi ∧ bit o = true) ∧ ∃ o, lo ≤ o ∧ o < hi ∧ bit o = false

theorem bitsOf_uniformBits (bitmap : ByteArray) {bit lo hi : Nat}
    (h : bit + (hi - lo + (sectorSize - 1)) / sectorSize < UInt64.size) :
    BitsOf (fun o => bitmapBit bitmap (bit + (o - lo) / sectorSize)) lo hi
      (uniformBits bitmap (.ofNat bit) (.ofNat ((hi - lo + (sectorSize - 1)) / sectorSize))) := by
  have hbit : (UInt64.ofNat bit).toNat = bit :=
    UInt64.toNat_ofNat_of_lt' (Nat.lt_of_le_of_lt (Nat.le_add_right _ _) h)
  have hcount : (UInt64.ofNat ((hi - lo + (sectorSize - 1)) / sectorSize)).toNat
      = (hi - lo + (sectorSize - 1)) / sectorSize :=
    UInt64.toNat_ofNat_of_lt' (Nat.lt_of_le_of_lt (Nat.le_add_left _ _) h)
  have hfits := h
  rw [← hbit, ← hcount] at hfits
  have hboth := @uniformBits_eq_none_iff bitmap _ _ hfits
  rw [hcount, hbit] at hboth
  cases hu : uniformBits bitmap (.ofNat bit)
    (.ofNat ((hi - lo + (sectorSize - 1)) / sectorSize)) with
  | some isSet =>
    have hsame (k : Nat) (hk : k < (hi - lo + (sectorSize - 1)) / sectorSize) :
        bitmapBit bitmap (bit + k) = isSet := by
      have hat := bit_of_uniformBits hfits hu (hcount.symm ▸ hk)
      rwa [hbit] at hat
    exact forall_sector_iff.mp hsame
  | none =>
    obtain ⟨hset, hclear⟩ := hboth.mp hu
    exact ⟨exists_sector_iff.mp hset, exists_sector_iff.mp hclear⟩

namespace Piece

variable {π : Type} {place : Place} {parent : Source Files π} {files : Files}

theorem yields_fileSource (place : Place) (start length : Nat) (buffer : BufferSize) :
    (fileSource place).Yields files (.ofRange start length buffer)
      (span (byteAt (files.contents place)) start (start + length))
      (length = 0 ∨ start + length ≤ (files.contents place).size) := by
  rw [Source.Yields, fileSource, Source.total_on]
  exact FileRange.yields_ofRange _ start length buffer

theorem total_file (range : FileRange) : (Piece.source place parent).total files (.file range)
    = (fileSource place).total files range := by
  have hp (r : FileRange) : (Piece.source place parent).pull files (.file r)
      = ((fileSource place).pull files r).map id .file := rfl
  exact Source.total_embed hp range

theorem total_inherited (range : Inherited π) :
    (Piece.source place parent).total files (.inherited range)
      = (inheritedSource parent).total files range := by
  have hp (r : Inherited π) : (Piece.source place parent).pull files (.inherited r)
      = ((inheritedSource parent).pull files r).map id .inherited := rfl
  exact Source.total_embed hp range

theorem total_merge (m : SectorMerge (Inherited π) FileRange) :
    (Piece.source place parent).total files (.merge m)
      = (mergeSource place parent).total files m := by
  have hp (r : SectorMerge (Inherited π) FileRange) :
      (Piece.source place parent).pull files (.merge r)
        = ((mergeSource place parent).pull files r).map id .merge := rfl
  exact Source.total_embed hp m

theorem yields_file {range : FileRange} {want : List (Option UInt8)} {ok : Prop}
    (h : (fileSource place).Yields files range want ok) :
    (Piece.source place parent).Yields files (.file range) want ok := by
  rw [Source.Yields, total_file]
  exact h

theorem yields_zeros (run : ZeroRun) :
    (Piece.source place parent).Yields files (.zeros run)
      (List.replicate run.remaining (some 0)) True := by
  have hp (r : ZeroRun) : (Piece.source place parent).pull files (.zeros r)
      = (ZeroRun.source.pull files r).map id .zeros := rfl
  rw [Source.Yields, Source.total_embed hp]
  exact ZeroRun.yields files run

theorem yields_footer (bytes : ByteArray) :
    (Piece.source place parent).Yields files (.footer (some bytes))
      ((octets bytes).map some) True := by
  have h1 : (Piece.source place parent).pull files (.footer (some bytes))
      = (.chunk bytes, .footer none) := rfl
  have h2 : (Piece.source place parent).pull files (.footer none) = (.ended, .footer none) := rfl
  have h := (Total.yields_nil trivial).prepend (octets bytes)
  rw [List.append_nil, List.append_nil] at h
  rw [Source.Yields, Source.total_of_chunk h1, Source.total_of_ended h2, List.append_nil]
  exact h

theorem yields_inherited {range : Inherited π} {want : List (Option UInt8)} {ok : Prop}
    (h : (inheritedSource parent).Yields files range want ok) :
    (Piece.source place parent).Yields files (.inherited range) want ok := by
  rw [Source.Yields, total_inherited]
  exact h

theorem yields_merge {m : SectorMerge (Inherited π) FileRange} {want : List (Option UInt8)}
    {ok : Prop} (h : (mergeSource place parent).Yields files m want ok) :
    (Piece.source place parent).Yields files (.merge m) want ok := by
  rw [Source.Yields, total_merge]
  exact h

end Piece

section block

variable {π : Type} (place : Place) (parent : Source Files π) (files : Files)

/-- The ranges of a parent give its bytes from a sector bound on. -/
def ParentView.Gives (v : ParentView π) (inherited : Nat → Option UInt8)
    (below : Nat → Nat → Prop) : Prop :=
  ∀ lo hi buffer, lo ≤ hi → sectorSize ∣ lo →
    (Piece.inheritedSource parent).Yields files (Plan.parentRange v buffer lo hi)
      (span inherited lo hi) (below lo hi)

/-- A piece that is planned yields some bytes, or it is not planned and they
cannot be given. -/
def PieceYields (planned : Except Error (Piece π)) (want : List (Option UInt8)) (ok : Prop) :
    Prop :=
  match planned with
  | .ok piece => (Piece.source place parent).Yields files piece want ok
  | .error _ => ¬ok

variable {place parent files} {layout : SparseLayout} {view : Option (ParentView π)}
  {inherited : Nat → Option UInt8} {below : Nat → Nat → Prop} {lo hi : Nat} {buffer : BufferSize}

theorem inherits_eq_isSome (index : Nat) : layout.inherits view.isSome index
    = (view.filter fun _ => layout.coverage.mayBeInParent index).isSome := by
  unfold SparseLayout.inherits
  cases view with
  | none => rfl
  | some v => cases layout.coverage.mayBeInParent index <;> rfl

theorem blockOf_eq {table : BlockTable} {o : Nat} (hhi : hi ≤ Plan.blockEnd table lo)
    (hle : lo ≤ o) (hlt : o < hi) : table.blockOf o = table.blockOf lo := by
  have h1 : table.blockOf lo ≤ table.blockOf o := Nat.div_le_div_right hle
  have h2 : table.blockOf o < table.blockOf lo + 1 :=
    (Nat.div_lt_iff_lt_mul table.blockSize_pos).mpr (Nat.lt_of_lt_of_le hlt hhi)
  omega

theorem yields_own {sector : Nat} (hlt : lo < hi) (hhi : hi ≤ Plan.blockEnd layout.table lo)
    (hsec : layout.table.sector? (layout.table.blockOf lo) = some sector) :
    (Piece.fileSource place).Yields files (Plan.ownRange layout.table buffer
        ((sector + layout.table.bitmapSectors) * sectorSize) lo hi)
      (span (layout.table.ownByte (files.contents place)) lo hi)
      (layout.OwnReadable (files.contents place) lo hi) := by
  have h := @Piece.yields_fileSource files place
    ((sector + layout.table.bitmapSectors) * sectorSize + layout.table.withinBlock lo)
    (hi - lo) buffer
  have hwant : span (byteAt (files.contents place))
      ((sector + layout.table.bitmapSectors) * sectorSize + layout.table.withinBlock lo)
      ((sector + layout.table.bitmapSectors) * sectorSize + layout.table.withinBlock lo
        + (hi - lo))
      = span (layout.table.ownByte (files.contents place)) lo hi := by
    rw [span_translate _ _ lo, Nat.add_sub_cancel' (Nat.le_of_lt hlt)]
    apply span_congr
    intro o h1 h2
    rw [BlockTable.ownByte_eq h1 (blockOf_eq hhi h1 h2) hsec]
  have hphys : layout.table.physical? lo = some
      ((sector + layout.table.bitmapSectors) * sectorSize + layout.table.withinBlock lo) := by
    rw [BlockTable.physical?, BlockTable.dataOffset?, hsec]
    rfl
  rw [hwant] at h
  apply Total.Yields.congr h
  unfold SparseLayout.OwnReadable
  rw [hphys]
  constructor
  · intro hr
    exact .inr (hr _ rfl)
  · rintro (hz | hr) start hstart
    · omega
    · cases hstart
      exact hr

theorem blockReadable_both {sector : Nat} {hasParent : Bool}
    (hsec : layout.table.sector? (layout.table.blockOf lo) = some sector)
    (hinh : layout.inherits hasParent (layout.table.blockOf lo) = true) (contents : ByteArray) :
    layout.BlockReadable contents hasParent below (layout.table.blockOf lo) lo hi ↔
      sector * sectorSize + layout.table.bitmapSize ≤ contents.size ∧
      (layout.table.HasBit contents lo hi true → layout.OwnReadable contents lo hi) ∧
      (layout.table.HasBit contents lo hi false → below lo hi) ∧
      (layout.table.HasBit contents lo hi true → layout.table.HasBit contents lo hi false →
        (hi - lo) % sectorSize = 0) := by
  have hstart : layout.table.bitmapOffset? (layout.table.blockOf lo)
      = some (sector * sectorSize) := by
    rw [BlockTable.bitmapOffset?, hsec]
    rfl
  unfold SparseLayout.BlockReadable
  rw [hstart, hinh]

def bothPiece (layout : SparseLayout) (bitmap : ByteArray) (buffer : BufferSize) (lo hi data : Nat)
    (v : ParentView π) : Piece π :=
  match uniformBits bitmap (.ofNat (layout.table.withinBlock lo / sectorSize))
      (.ofNat ((hi - lo + (sectorSize - 1)) / sectorSize)) with
  | some true => .file (Plan.ownRange layout.table buffer data lo hi)
  | some false => .inherited (Plan.parentRange v buffer lo hi)
  | none => .merge (.ofSources (Plan.parentRange v buffer lo hi)
      (Plan.ownRange layout.table buffer data lo hi) bitmap
      (layout.table.withinBlock lo / sectorSize) sectorSize)

theorem blockPiece_both (contents : ByteArray) (bitmap data : Nat) (v : ParentView π) :
    Plan.blockPiece layout.table contents buffer lo hi (.both bitmap data v)
      = if bitmap + layout.table.bitmapSize ≤ contents.size ∨ layout.table.bitmapSize = 0 then
          .ok (bothPiece layout (slice contents bitmap layout.table.bitmapSize) buffer lo hi data v)
        else .error (.format (.shortRead "block bitmap" layout.table.bitmapSize bitmap)) := by
  simp only [Plan.blockPiece, readAt_eq]
  split <;> rfl

/-- A block that two images hold is given as its bitmap says. -/
theorem yields_bothPiece {bitmap : ByteArray} {data : Nat} {v : ParentView π} {own : Prop}
    {ownByte : Nat → Option UInt8} (hl : sectorSize ∣ lo) (hlt : lo < hi)
    (hbits : layout.table.withinBlock lo / sectorSize + (hi - lo + (sectorSize - 1)) / sectorSize
      < UInt64.size)
    (hv : v.Gives parent files inherited below)
    (ho : (Piece.fileSource place).Yields files (Plan.ownRange layout.table buffer data lo hi)
      (span ownByte lo hi) own) :
    let isSet := fun o => bitmapBit bitmap
      (layout.table.withinBlock lo / sectorSize + (o - lo) / sectorSize)
    (Piece.source place parent).Yields files (bothPiece layout bitmap buffer lo hi data v)
      (span (fun o => if isSet o then ownByte o else inherited o) lo hi)
      (((∃ o, lo ≤ o ∧ o < hi ∧ isSet o = true) → own) ∧
        ((∃ o, lo ≤ o ∧ o < hi ∧ isSet o = false) → below lo hi) ∧
        ((∃ o, lo ≤ o ∧ o < hi ∧ isSet o = true) → (∃ o, lo ≤ o ∧ o < hi ∧ isSet o = false) →
          (hi - lo) % sectorSize = 0)) := by
  intro isSet
  have hp := hv lo hi buffer (Nat.le_of_lt hlt) hl
  have hmerge : layout.table.withinBlock lo / sectorSize + (hi - lo) / sectorSize < UInt64.size :=
    Nat.lt_of_le_of_lt (Nat.add_le_add_left (Nat.div_le_div_right (Nat.le_add_right _ _)) _) hbits
  have hbits := bitsOf_uniformBits bitmap hbits
  unfold bothPiece
  split
  · next hu =>
    rw [hu] at hbits
    have hnone : ¬∃ o, lo ≤ o ∧ o < hi ∧ isSet o = false := by
      rintro ⟨o, h1, h2, h⟩
      have := hbits o h1 h2
      simp_all [isSet]
    have hsome : ∃ o, lo ≤ o ∧ o < hi ∧ isSet o = true :=
      ⟨lo, Nat.le_refl _, hlt, hbits lo (Nat.le_refl _) hlt⟩
    rw [span_congr (g := ownByte) fun o h1 h2 => if_pos (hbits o h1 h2)]
    apply Total.Yields.congr (Piece.yields_file ho)
    exact ⟨fun h => h.1 hsome, fun h => ⟨fun _ => h, fun h' => absurd h' hnone,
      fun _ h' => absurd h' hnone⟩⟩
  · next hu =>
    rw [hu] at hbits
    have hbits' (o : Nat) (h1 : lo ≤ o) (h2 : o < hi) : ¬isSet o = true := by
      have := hbits o h1 h2
      simp_all [isSet]
    have hnone : ¬∃ o, lo ≤ o ∧ o < hi ∧ isSet o = true := by
      rintro ⟨o, h1, h2, h⟩
      exact hbits' o h1 h2 h
    have hsome : ∃ o, lo ≤ o ∧ o < hi ∧ isSet o = false :=
      ⟨lo, Nat.le_refl _, hlt, hbits lo (Nat.le_refl _) hlt⟩
    rw [span_congr (g := inherited) fun o h1 h2 => if_neg (hbits' o h1 h2)]
    apply Total.Yields.congr (Piece.yields_inherited hp)
    exact ⟨fun h => h.2.1 hsome, fun h => ⟨fun h' => absurd h' hnone, fun _ => h,
      fun h' => absurd h' hnone⟩⟩
  · next hu =>
    rw [hu] at hbits
    obtain ⟨hset, hclear⟩ := hbits
    have hpos : 0 < sectorSize := by decide
    apply Total.Yields.congr (Piece.yields_merge (SectorMerge.yields_ofSources hpos hmerge hp ho))
    exact ⟨fun h => ⟨h.2.1 hclear, h.1 hset, h.2.2 hset hclear⟩,
      fun h => ⟨fun _ => h.2.1, fun _ => h.1, fun _ _ => h.2.2⟩⟩

theorem hasBit_iff {table : BlockTable} {contents : ByteArray} {isSet : Nat → Bool}
    (h : ∀ o, lo ≤ o → o < hi → table.ownBit contents o = some (isSet o)) (b : Bool) :
    table.HasBit contents lo hi b ↔ ∃ o, lo ≤ o ∧ o < hi ∧ isSet o = b := by
  constructor
  · rintro ⟨o, h1, h2, ho⟩
    exact ⟨o, h1, h2, Option.some.inj ((h o h1 h2).symm.trans ho)⟩
  · rintro ⟨o, h1, h2, ho⟩
    exact ⟨o, h1, h2, (h o h1 h2).trans (congrArg some ho)⟩

theorem byte_of_block {contents : ByteArray} {hasParent : Bool} {o : Nat}
    (hlen : layout.table.blockOf lo < layout.table.length)
    (hhi : hi ≤ Plan.blockEnd layout.table lo)
    (h1 : lo ≤ o) (h2 : o < hi) :
    layout.byte contents hasParent inherited o
      = match (layout.table.sector? (layout.table.blockOf lo)).isSome,
          layout.inherits hasParent (layout.table.blockOf lo) with
        | false, false => some 0
        | true, false => layout.table.ownByte contents o
        | false, true => inherited o
        | true, true => (layout.table.ownBit contents o).bind fun isSet =>
          if isSet then layout.table.ownByte contents o else inherited o := by
  unfold SparseLayout.byte
  rw [blockOf_eq hhi h1 h2]
  exact if_neg (Nat.not_le.mpr hlen)

theorem pieceYields_inherited {v : ParentView π} {hasParent : Bool}
    (hl : sectorSize ∣ lo) (hlt : lo < hi) (hhi : hi ≤ Plan.blockEnd layout.table lo)
    (hlen : layout.table.blockOf lo < layout.table.length)
    (hv : v.Gives parent files inherited below)
    (hsec : layout.table.sector? (layout.table.blockOf lo) = none)
    (hinh : layout.inherits hasParent (layout.table.blockOf lo) = true) :
    PieceYields place parent files
      (Plan.blockPiece layout.table (files.contents place) buffer lo hi (.inherited v))
      (span (layout.byte (files.contents place) hasParent inherited) lo hi)
      (layout.BlockReadable (files.contents place) hasParent below
        (layout.table.blockOf lo) lo hi) := by
  have hstart : layout.table.bitmapOffset? (layout.table.blockOf lo) = none := by
    rw [BlockTable.bitmapOffset?, hsec]
    rfl
  have hbyte (o : Nat) (h1 : lo ≤ o) (h2 : o < hi) :=
    @byte_of_block layout inherited lo hi (files.contents place) hasParent o hlen hhi h1 h2
  rw [hsec, hinh] at hbyte
  unfold SparseLayout.BlockReadable
  rw [hstart, hinh, span_congr hbyte]
  exact Piece.yields_inherited (hv lo hi buffer (Nat.le_of_lt hlt) hl)

theorem pieceYields_own {sector : Nat} {hasParent : Bool}
    (hlt : lo < hi) (hhi : hi ≤ Plan.blockEnd layout.table lo)
    (hlen : layout.table.blockOf lo < layout.table.length)
    (hsec : layout.table.sector? (layout.table.blockOf lo) = some sector)
    (hinh : layout.inherits hasParent (layout.table.blockOf lo) = false) :
    PieceYields place parent files
      (Plan.blockPiece layout.table (files.contents place) buffer lo hi
        (.own ((sector + layout.table.bitmapSectors) * sectorSize)))
      (span (layout.byte (files.contents place) hasParent inherited) lo hi)
      (layout.BlockReadable (files.contents place) hasParent below
        (layout.table.blockOf lo) lo hi) := by
  have hstart : layout.table.bitmapOffset? (layout.table.blockOf lo)
      = some (sector * sectorSize) := by
    rw [BlockTable.bitmapOffset?, hsec]
    rfl
  have hbyte (o : Nat) (h1 : lo ≤ o) (h2 : o < hi) :=
    @byte_of_block layout inherited lo hi (files.contents place) hasParent o hlen hhi h1 h2
  rw [hsec, hinh] at hbyte
  unfold SparseLayout.BlockReadable
  rw [hstart, hinh, span_congr hbyte]
  exact Piece.yields_file (yields_own hlt hhi hsec)

theorem pieceYields_both {sector : Nat} {v : ParentView π} {hasParent : Bool}
    (hs : layout.table.Fits) (hl : sectorSize ∣ lo) (hlt : lo < hi)
    (hhi : hi ≤ Plan.blockEnd layout.table lo)
    (hlen : layout.table.blockOf lo < layout.table.length)
    (hv : v.Gives parent files inherited below)
    (hsec : layout.table.sector? (layout.table.blockOf lo) = some sector)
    (hinh : layout.inherits hasParent (layout.table.blockOf lo) = true) :
    PieceYields place parent files
      (Plan.blockPiece layout.table (files.contents place) buffer lo hi
        (.both (sector * sectorSize) ((sector + layout.table.bitmapSectors) * sectorSize) v))
      (span (layout.byte (files.contents place) hasParent inherited) lo hi)
      (layout.BlockReadable (files.contents place) hasParent below
        (layout.table.blockOf lo) lo hi) := by
  have hbyte (o : Nat) (h1 : lo ≤ o) (h2 : o < hi) :=
    @byte_of_block layout inherited lo hi (files.contents place) hasParent o hlen hhi h1 h2
  have hpos := Nat.zero_lt_of_lt (BlockTable.bitmapSize_bound hs.sectorSize_dvd lo)
  rw [hsec, hinh] at hbyte
  rw [blockReadable_both hsec hinh, blockPiece_both]
  -- The bitmap is read whole, also for a range of which it decides only a part.
  by_cases hc : sector * sectorSize + layout.table.bitmapSize ≤ (files.contents place).size
  · have hbit (o : Nat) (h1 : lo ≤ o) (h2 : o < hi) :=
      BlockTable.ownBit_eq hs.sectorSize_dvd hl h1 (blockOf_eq hhi h1 h2) hsec hc
    have hwant (o : Nat) (h1 : lo ≤ o) (h2 : o < hi) := (hbyte o h1 h2).trans
      (congrArg (Option.bind · _) (hbit o h1 h2))
    have hhas (b : Bool) := hasBit_iff hbit b
    rw [if_pos (.inl hc), span_congr hwant, hhas, hhas, and_iff_right hc]
    exact yields_bothPiece hl hlt (hs.bits_lt hhi) hv (yields_own hlt hhi hsec)
  · rw [if_neg (by omega)]
    exact fun hr => hc hr.1

/-- A range of a block that is stored somewhere is given as the image has it,
and it is given just if it can be. -/
theorem pieceYields_blockPiece {source : BlockSource π} (hs : layout.table.Fits)
    (hl : sectorSize ∣ lo) (hlt : lo < hi) (hhi : hi ≤ Plan.blockEnd layout.table lo)
    (hlen : layout.table.blockOf lo < layout.table.length)
    (hv : ∀ v, view = some v → v.Gives parent files inherited below)
    (h : Plan.blockSource layout view (layout.table.blockOf lo) = some source) :
    PieceYields place parent files
      (Plan.blockPiece layout.table (files.contents place) buffer lo hi source)
      (span (layout.byte (files.contents place) view.isSome inherited) lo hi)
      (layout.BlockReadable (files.contents place) view.isSome below
        (layout.table.blockOf lo) lo hi) := by
  have hinh := @inherits_eq_isSome π layout view (layout.table.blockOf lo)
  unfold Plan.blockSource at h
  cases hw : view.filter fun _ => layout.coverage.mayBeInParent (layout.table.blockOf lo) with
  | none =>
    rw [hw, Option.isSome_none] at hinh
    cases hsec : layout.table.sector? (layout.table.blockOf lo) with
    | none =>
      rw [hsec, hw] at h
      cases h
    | some sector =>
      rw [hsec, hw] at h
      cases h
      exact pieceYields_own hlt hhi hlen hsec hinh
  | some v =>
    rw [hw, Option.isSome_some] at hinh
    have hgives := hv v (Option.filter_eq_some_iff.mp hw).1
    cases hsec : layout.table.sector? (layout.table.blockOf lo) with
    | none =>
      rw [hsec, hw] at h
      cases h
      exact pieceYields_inherited hl hlt hhi hlen hgives hsec hinh
    | some sector =>
      rw [hsec, hw] at h
      cases h
      exact pieceYields_both hs hl hlt hhi hlen hgives hsec hinh

theorem byte_of_blockSource_none {contents : ByteArray}
    (hlen : layout.table.blockOf lo < layout.table.length)
    (hhi : hi ≤ Plan.blockEnd layout.table lo)
    (h : Plan.blockSource layout view (layout.table.blockOf lo) = none) :
    (∀ o, lo ≤ o → o < hi → layout.byte contents view.isSome inherited o = some 0) ∧
      layout.BlockReadable contents view.isSome below (layout.table.blockOf lo) lo hi := by
  have hstart : layout.table.bitmapOffset? (layout.table.blockOf lo)
      = (layout.table.sector? (layout.table.blockOf lo)).map (· * sectorSize) := rfl
  have hinh := @inherits_eq_isSome π layout view (layout.table.blockOf lo)
  unfold Plan.blockSource at h
  split at h <;> cases h
  next hsec hw =>
  rw [hw, Option.isSome_none] at hinh
  constructor
  · intro o h1 h2
    rw [byte_of_block hlen hhi h1 h2, hsec, hinh]
    rfl
  · unfold SparseLayout.BlockReadable
    rw [hstart, hsec, hinh]
    trivial

end block

end VirtualDisk
