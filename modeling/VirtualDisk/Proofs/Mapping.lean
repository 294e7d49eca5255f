import VirtualDisk.Proofs.Inheritance

namespace VirtualDisk

namespace BlockTable

variable {t : BlockTable} {index offset p : Nat}

def HasEntry (t : BlockTable) (index : Nat) : Prop :=
  ∃ entry, t.entries[index]? = some entry ∧ entry ≠ unused

theorem isPresent_iff : t.isPresent index = true ↔ t.HasEntry index := by
  unfold isPresent sector? HasEntry
  cases t.entries[index]? with
  | none => simp
  | some entry => by_cases h : entry = unused <;> simp [h]

theorem isSome_dataOffset? : (t.dataOffset? index).isSome = t.isPresent index := by
  rw [dataOffset?, Option.isSome_map]
  rfl

theorem isSome_physical? : (t.physical? offset).isSome = t.isPresent (t.blockOf offset) := by
  rw [physical?, Option.isSome_map, isSome_dataOffset?]

theorem place_in_block (h : t.physical? offset = some p) :
    ∃ lo hi, t.dataRange? (offset / t.blockSize) = some (lo, hi) ∧
      p = lo + offset % t.blockSize ∧ lo ≤ p ∧ p < hi := by
  obtain ⟨start, hstart, rfl⟩ := Option.map_eq_some_iff.mp h
  have hrange : t.dataRange? (offset / t.blockSize) = some (start, start + t.blockSize) :=
    Option.map_eq_some_iff.mpr ⟨start, hstart, rfl⟩
  have hlt : offset % t.blockSize < t.blockSize := Nat.mod_lt _ t.blockSize_pos
  exact ⟨start, start + t.blockSize, hrange, rfl, Nat.le_add_right _ _,
    Nat.add_lt_add_left hlt start⟩

theorem map_dataOffset?_indices : t.indices.map t.dataOffset? = t.dataOffsets.map some := by
  have hall : ∀ index ∈ t.indices, (t.dataOffset? index).isSome = true := by
    intro index hindex
    rw [isSome_dataOffset?]
    exact mem_indices.mp hindex
  unfold dataOffsets
  generalize t.indices = indices at hall ⊢
  induction indices with
  | nil => rfl
  | cons index rest ih =>
    obtain ⟨start, hstart⟩ := Option.isSome_iff_exists.mp (hall index List.mem_cons_self)
    rw [List.map_cons, List.filterMap_cons_some hstart, List.map_cons, hstart,
      ih fun other hother => hall other (List.mem_cons_of_mem _ hother)]

theorem bitmap_before_data (h : t.HasEntry index) :
    ∃ bitmap data, t.bitmapOffset? index = some bitmap ∧ t.dataOffset? index = some data ∧
      bitmap + t.bitmapSize ≤ data := by
  obtain ⟨sector, hsector⟩ := Option.isSome_iff_exists.mp (isPresent_iff.mpr h)
  refine ⟨sector * sectorSize, (sector + t.bitmapSectors) * sectorSize, ?_, ?_, ?_⟩
  · rw [bitmapOffset?, hsector, Option.map_some]
  · rw [dataOffset?, hsector, Option.map_some]
  · rw [Nat.add_mul, bitmapSectors, sectorSize]
    omega

/-- What a block table says of the places of blocks and bytes. -/
structure Maps (t : BlockTable) : Prop where
  isSome_iff : ∀ offset, (t.physical? offset).isSome = true ↔ t.HasEntry (offset / t.blockSize)
  within : ∀ offset p, t.physical? offset = some p →
    ∃ lo hi, t.dataRange? (offset / t.blockSize) = some (lo, hi) ∧
      p = lo + offset % t.blockSize ∧ lo ≤ p ∧ p < hi
  ascending : t.indices.Pairwise (· < ·)
  mem_indices : ∀ index, index ∈ t.indices ↔ t.HasEntry index
  parallel : t.indices.map t.dataOffset? = t.dataOffsets.map some
  bitmap : ∀ index, t.HasEntry index →
    ∃ bitmap data, t.bitmapOffset? index = some bitmap ∧ t.dataOffset? index = some data ∧
      bitmap + t.bitmapSize ≤ data
  bits : ∀ offset < t.blockSize, offset / sectorSize < 8 * t.bitmapSize

theorem maps (h : sectorSize ∣ t.blockSize) : t.Maps where
  isSome_iff := fun offset => by
    rw [isSome_physical?]
    exact isPresent_iff
  within := fun _ _ => place_in_block
  ascending := ascending_indices t
  mem_indices := fun _ => BlockTable.mem_indices.trans isPresent_iff
  parallel := map_dataOffset?_indices
  bitmap := fun _ => bitmap_before_data
  bits := by
    intro offset hlt
    have hbound := bitmapSize_bound h offset
    rw [withinBlock, Nat.mod_eq_of_lt hlt] at hbound
    omega

end BlockTable

/-- The byte of an image without a parent is the one at its place in the file, or zero. -/
theorem Level.byte_of_physical? {level : Level} {offset : Nat}
    (h : offset < level.footer.currentSize)
    (contents : ByteArray) (inherited : Nat → Option UInt8) :
    level.byte contents false inherited offset
      = (level.physical? offset).elim (some 0) (byteAt contents) := by
  cases hs : level.sparse with
  | none =>
    rw [Level.byte_of_fixed _ _ hs, Level.physical?, hs]
    simp only [if_pos h, Option.elim_some]
  | some layout =>
    rw [Level.byte_of_sparse _ _ hs, Level.physical?, hs]
    simp only [SparseLayout.byte, SparseLayout.inherits, Bool.false_and]
    have hsome := @BlockTable.isSome_physical? layout.table offset
    cases hp : layout.table.isPresent (layout.table.blockOf offset) with
    | false =>
      rw [hp, Option.isSome_eq_false_iff, Option.isNone_iff_eq_none] at hsome
      rw [hsome]
      split <;> rfl
    | true =>
      rw [hp, Option.isSome_iff_exists] at hsome
      obtain ⟨p, hphysical⟩ := hsome
      rw [if_neg (Nat.not_le.mpr (BlockTable.lt_length_of_isPresent hp)), hphysical]
      simp only [BlockTable.ownByte, hphysical, Option.bind_some, Option.elim_some]

namespace DiskStream

variable {files : Files} {options : OpenOptions} {path : Path} {d : Disk} {s : DiskStream d}

theorem ancestors_eq_nil (ho : Disk.open files options path = .ok d)
    (hd : d.top.isDifferencing = false) : d.ancestors = [] := by
  have hdiff := (chained_of_open ho).standsOn.differencing
  rw [hd] at hdiff
  simpa using hdiff.symm

theorem getElem?_physical {buffer : Option Nat} {offset : Nat}
    (ho : Disk.open files options path = .ok d) (hd : d.top.isDifferencing = false)
    (hs : d.stream ⟨none, none, buffer⟩ = .ok s) (hend : (s.total files).fault = none)
    (hlt : offset < d.size) : offset < (s.total files).bytes.length ∧
      (s.total files).bytes[offset]?
        = (d.top.physical? offset).elim (some 0) (byteAt (files.contents d.top.place)) := by
  have h := chained_of_open ho
  have hstop : offset < RangeRequest.stop ⟨none, none, buffer⟩ d.flattenedLength :=
    Nat.lt_add_right Footer.size hlt
  have hlength : (s.total files).bytes.length = d.flattenedLength := by
    rw [(yields h hs).length_eq hend, length_span]
    rfl
  have hbyte := getElem?_total h hs hend (Nat.zero_le offset) hstop
  have hcontent : flattened files d.levels offset = content files (d.top :: d.ancestors) offset :=
    flattened_of_lt hlt
  rw [hcontent, ancestors_eq_nil ho hd, content_cons] at hbyte
  exact ⟨hlength ▸ hstop, hbyte.trans (Level.byte_of_physical? hlt _ _)⟩

/-- The stream of an image without a parent agrees with the map of its bytes, and the block
table is such a map. -/
theorem mapping_agrees :
    (∀ (files : Files) options path (d : Disk) buffer (s : DiskStream d),
      Disk.open files options path = .ok d → d.top.isDifferencing = false →
      d.stream ⟨none, none, buffer⟩ = .ok s → (s.total files).fault = none →
      ∀ offset < d.size,
        (∀ p, d.top.physical? offset = some p → ∃ byte, (s.total files).bytes[offset]? = some byte ∧
          byteAt (files.contents d.top.place) p = some byte) ∧
        (d.top.physical? offset = none → (s.total files).bytes[offset]? = some 0)) ∧
    ∀ (t : BlockTable) (size : BlockSize), t.blockSize = size.bytes → t.Maps := by
  constructor
  · intro files options path d buffer s ho hd hs hend offset hlt
    obtain ⟨hlength, hbyte⟩ := getElem?_physical ho hd hs hend hlt
    constructor
    · intro p hp
      rw [hp, Option.elim_some] at hbyte
      exact ⟨_, List.getElem?_eq_getElem hlength,
        hbyte.symm.trans (List.getElem?_eq_getElem hlength)⟩
    · intro hp
      rw [hbyte, hp, Option.elim_none]
  · intro t size hsize
    exact BlockTable.maps (hsize ▸ size.sectorSize_dvd)

theorem fault_base {p : DraftPair} (hb : p.base.table.Within p.base.file)
    (hsize : sectorSize ∣ p.base.size) {s : DiskStream ⟨p.baseLevel unchecked, []⟩}
    (hs : Disk.stream ⟨p.baseLevel unchecked, []⟩ ⟨none, none, none⟩ = .ok s) :
    (s.total p.files).fault = none := by
  have hbase : ∀ level ∈ (⟨p.baseLevel unchecked, []⟩ : Disk).levels,
      level = p.baseLevel unchecked :=
    fun level hm => List.mem_singleton.mp hm
  refine fault_eq_none_of_aligned (chained_of_open (p.openWithin_base 64 rfl)) ?_ hs ?_
  · intro level hm layout hl
    rw [hbase level hm] at hl ⊢
    cases hl
    exact (contents_base p.child.file p.base.file).symm ▸ hb
  · intro level hm
    rw [hbase level hm]
    exact hsize

/-- The parent of one pair stores its only block, that of the other stores none. -/
theorem mapping_agrees_mixedPair :
    (∃ s : DiskStream ⟨(mixedPair 1024 (by decide)).baseLevel unchecked, []⟩,
      (s.total (mixedPair 1024 (by decide)).files).bytes[700]? = some 0x11) ∧
    (∃ s : DiskStream ⟨aboveEmpty.baseLevel unchecked, []⟩,
      (s.total aboveEmpty.files).bytes[700]? = some 0) ∧
    (mixedPair 1024 (by decide)).base.table.Maps := by
  refine ⟨?stored, ?absent, mapping_agrees.2 _ Draft.twoSectors rfl⟩
  case stored =>
    obtain ⟨s, hs⟩ := stream_whole ⟨(mixedPair 1024 (by decide)).baseLevel unchecked, []⟩
    have hend := fault_base (Draft.within_oneBlock (by decide)) ⟨2, rfl⟩ hs
    have hagrees := mapping_agrees.1 _ _ _ _ none s
      ((mixedPair 1024 (by decide)).openWithin_base 64 rfl) rfl hs hend 700 (by decide)
    have hown : (mixedPair 1024 (by decide)).base.table.ownByte
        (mixedPair 1024 (by decide)).base.file 700 = some 0x11 :=
      Draft.ownByte_oneBlock (by decide) (by decide)
    obtain ⟨p, hp, hstored⟩ := Option.bind_eq_some_iff.mp hown
    obtain ⟨byte, hget, hbyte⟩ := hagrees.1 p hp
    have hcontents : (mixedPair 1024 (by decide)).files.contents [['b']]
        = (mixedPair 1024 (by decide)).base.file := contents_base _ _
    exact ⟨s, hget.trans (hbyte.symm.trans ((congrArg (byteAt · p) hcontents).trans hstored))⟩
  case absent =>
    obtain ⟨s, hs⟩ := stream_whole ⟨aboveEmpty.baseLevel unchecked, []⟩
    have hend := fault_base (Draft.within_noBlock Draft.twoSectors_le_safeNumber Draft.oneEntry_le)
      ⟨2, rfl⟩ hs
    have hagrees := mapping_agrees.1 _ _ _ _ none s (aboveEmpty.openWithin_base 64 rfl) rfl hs hend
      700 (by decide)
    have hpresent : aboveEmpty.base.table.isPresent (aboveEmpty.base.table.blockOf 700) = false :=
      Draft.isPresent_noBlock Draft.twoSectors_le_safeNumber Draft.oneEntry_le _
    have hnone : aboveEmpty.base.table.physical? 700 = none := by
      rw [← Option.isNone_iff_eq_none, ← Option.isSome_eq_false_iff, BlockTable.isSome_physical?,
        hpresent]
    exact ⟨s, hagrees.2 hnone⟩

end DiskStream

end VirtualDisk
