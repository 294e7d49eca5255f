import VirtualDisk.Proofs.Coverage
import VirtualDisk.Proofs.Flattening

namespace VirtualDisk

variable {files : Files} {options : OpenOptions} {level : Level} {ancestors chain : List Level}

/-- If the blocks of a chain all have one size, a byte that is not zero lies in
a block that one of its images holds. -/
theorem holds_of_content_ne {size offset : Nat}
    (hs : ∀ l ∈ chain, ∀ layout, l.sparse = some layout → layout.table.blockSize = size)
    (h : content files chain offset ≠ some 0) : ∃ l ∈ chain, l.Holds (offset / size) := by
  induction chain with
  | nil => exact absurd rfl h
  | cons level ancestors ih =>
    cases hl : level.sparse with
    | none => exact ⟨level, List.mem_cons_self, Level.holds_of_fixed hl _⟩
    | some layout =>
      have hblock : layout.table.blockOf offset = offset / size := by
        rw [BlockTable.blockOf, hs level List.mem_cons_self layout hl]
      by_cases hp : layout.table.isPresent (offset / size) = true
      · refine ⟨level, List.mem_cons_self, ?_⟩
        rw [Level.holds_of_sparse hl]
        exact BlockTable.mem_indices.mpr hp
      · have hp' : layout.table.isPresent (offset / size) = false := Bool.eq_false_iff.mpr hp
        rw [content_cons, Level.byte_of_sparse _ _ hl] at h
        simp only [SparseLayout.byte, hblock, hp'] at h
        have hin : inherited files ancestors offset ≠ some 0 := by
          intro hz
          rw [hz] at h
          apply h
          split
          · rfl
          · split <;> first | rfl | contradiction
        have hbelow : content files ancestors offset ≠ some 0 := by
          intro hz
          apply hin
          rw [inherited, hz, ite_self]
        obtain ⟨l, hm, hh⟩ := ih (fun l hm => hs l (List.mem_cons_of_mem _ hm)) hbelow
        exact ⟨l, List.mem_cons_of_mem _ hm, hh⟩

theorem holds_of_inherited_ne {size offset : Nat}
    (hs : ∀ l ∈ chain, ∀ layout, l.sparse = some layout → layout.table.blockSize = size)
    (h : inherited files chain offset ≠ some 0) : ∃ l ∈ chain, l.Holds (offset / size) := by
  apply holds_of_content_ne hs
  intro hz
  apply h
  rw [inherited, hz, ite_self]

theorem flattened_of_lt {offset : Nat} (h : offset < extent chain) :
    flattened files chain offset = content files chain offset :=
  if_pos h

namespace Chained

theorem ancestors_ne_nil (h : Chained files options (level :: ancestors))
    (hd : level.isDifferencing = true) : ancestors ≠ [] := by
  have hdiff := h.standsOn.differencing
  rw [hd] at hdiff
  simpa using hdiff.symm

theorem content_of_absent (h : Chained files options (level :: ancestors)) (hne : ancestors ≠ [])
    {layout : SparseLayout} (hl : level.sparse = some layout) {offset : Nat}
    (hlen : layout.table.blockOf offset < layout.table.length)
    (ha : layout.table.isPresent (layout.table.blockOf offset) = false) :
    (∃ l ∈ ancestors, l.Holds (layout.table.blockOf offset)) ∧
        content files (level :: ancestors) offset = inherited files ancestors offset ∨
      (¬∃ l ∈ ancestors, l.Holds (layout.table.blockOf offset)) ∧
        content files (level :: ancestors) offset = some 0 := by
  have hmay := h.mayBeInParent_iff hne hl (layout.table.blockOf offset)
  have hparent : (!ancestors.isEmpty) = true := by simpa using hne
  rw [content_cons, Level.byte_of_sparse _ _ hl]
  simp only [SparseLayout.byte, if_neg (Nat.not_le.mpr hlen), ha, SparseLayout.inherits, hparent,
    Bool.true_and]
  rw [← hmay]
  cases layout.coverage.mayBeInParent (layout.table.blockOf offset) with
  | true => exact .inl ⟨rfl, rfl⟩
  | false => exact .inr ⟨Bool.false_ne_true, rfl⟩

theorem content_of_present (h : Chained files options (level :: ancestors)) (hne : ancestors ≠ [])
    {layout : SparseLayout} (hl : level.sparse = some layout) {offset : Nat}
    (hp : layout.table.isPresent (layout.table.blockOf offset) = true) :
    (∃ l ∈ ancestors, l.Holds (layout.table.blockOf offset)) ∧
        content files (level :: ancestors) offset
          = ((layout.table.ownBit (files.contents level.place) offset).bind fun isSet =>
            if isSet then layout.table.ownByte (files.contents level.place) offset
            else inherited files ancestors offset) ∨
      (¬∃ l ∈ ancestors, l.Holds (layout.table.blockOf offset)) ∧
        content files (level :: ancestors) offset
          = layout.table.ownByte (files.contents level.place) offset := by
  have hmay := h.mayBeInParent_iff hne hl (layout.table.blockOf offset)
  have hparent : (!ancestors.isEmpty) = true := by simpa using hne
  have hlen := BlockTable.lt_length_of_isPresent hp
  rw [content_cons, Level.byte_of_sparse _ _ hl]
  simp only [SparseLayout.byte, if_neg (Nat.not_le.mpr hlen), hp, SparseLayout.inherits, hparent,
    Bool.true_and]
  rw [← hmay]
  cases layout.coverage.mayBeInParent (layout.table.blockOf offset) with
  | true => exact .inl ⟨rfl, rfl⟩
  | false => exact .inr ⟨Bool.false_ne_true, rfl⟩

end Chained

namespace DiskStream

variable {path : Path} {d : Disk} {request : RangeRequest} {s : DiskStream d}
  {layout : SparseLayout} {offset : Nat}

theorem chained_of_suffix {opened : Disk} (ho : Disk.open files options path = .ok opened)
    (hd : d.levels <:+ opened.levels) : Chained files options d.levels := by
  obtain ⟨front, hfront⟩ := hd
  exact Chained.of_suffix (hfront ▸ chained_of_open ho) (List.cons_ne_nil _ _)

/-- A byte of a block that an image does not store is that of the parent just if
the parent has a zero there or some ancestor holds a block of the same number.
It always is if the ancestors have blocks of the same size. -/
theorem absent_byte_iff {opened : Disk} (ho : Disk.open files options path = .ok opened)
    (hd : d.levels <:+ opened.levels) (hdiff : d.top.isDifferencing = true)
    (hl : d.top.sparse = some layout) (hs : d.stream request = .ok s)
    (hend : (s.total files).fault = none) (hlo : request.start ≤ offset)
    (hhi : offset < request.stop d.flattenedLength) (hsize : offset < d.size)
    (hlen : layout.table.blockOf offset < layout.table.length)
    (ha : layout.table.isPresent (layout.table.blockOf offset) = false) :
    ((s.total files).bytes[offset - request.start]? = inherited files d.ancestors offset ↔
      inherited files d.ancestors offset = some 0 ∨
        ∃ l ∈ d.ancestors, l.Holds (layout.table.blockOf offset)) ∧
    ((∀ l ∈ d.ancestors, ∀ other, l.sparse = some other →
        other.table.blockSize = layout.table.blockSize) →
      (s.total files).bytes[offset - request.start]? = inherited files d.ancestors offset) := by
  have h := chained_of_suffix ho hd
  have hne := h.ancestors_ne_nil hdiff
  have hbyte := getElem?_total h hs hend hlo hhi
  rw [flattened_of_lt hsize] at hbyte
  have hiff : (s.total files).bytes[offset - request.start]? = inherited files d.ancestors offset ↔
      inherited files d.ancestors offset = some 0 ∨
        ∃ l ∈ d.ancestors, l.Holds (layout.table.blockOf offset) := by
    obtain ⟨hheld, heq⟩ | ⟨hnot, heq⟩ := h.content_of_absent hne hl hlen ha
    · exact ⟨fun _ => .inr hheld, fun _ => hbyte.trans heq⟩
    · rw [hbyte.trans heq]
      refine ⟨fun hz => .inl hz.symm, ?_⟩
      rintro (hz | hheld)
      · exact hz.symm
      · exact absurd hheld hnot
  refine ⟨hiff, fun hsame => hiff.mpr ?_⟩
  by_cases hz : inherited files d.ancestors offset = some 0
  · exact .inl hz
  · exact .inr (holds_of_inherited_ne hsame hz)

section DraftPair

variable {p : DraftPair} {s : DiskStream (p.disk unchecked)}

theorem getElem?_whole (hs : Disk.stream (p.disk unchecked) ⟨none, none, none⟩ = .ok s)
    (hend : (s.total p.files).fault = none) (ho : offset < p.child.size)
    (hlen : p.child.table.blockOf offset < p.child.table.length)
    (hb : p.base.table.isPresent (p.child.table.blockOf offset) = false) :
    (s.total p.files).bytes[offset]?
      = if p.child.table.isPresent (p.child.table.blockOf offset)
        then p.child.table.ownByte p.child.file offset else some 0 := by
  have h := @DraftPair.chained_disk p unchecked rfl
  have hne : (p.disk unchecked).ancestors ≠ [] := List.cons_ne_nil _ _
  have hnot : ¬∃ l ∈ (p.disk unchecked).ancestors, l.Holds (p.child.table.blockOf offset) := by
    rw [p.holds_base_iff, hb]
    exact Bool.false_ne_true
  have hbyte := getElem?_total h hs hend (Nat.zero_le offset) (DraftPair.lt_stop_whole ho)
  rw [flattened_of_lt (show offset < extent (p.disk unchecked).levels from ho)] at hbyte
  refine hbyte.trans ?_
  split
  · next hp =>
    obtain ⟨hheld, -⟩ | ⟨-, heq⟩ := h.content_of_present hne p.sparse_top hp
    · exact absurd hheld hnot
    · rw [p.contents_top] at heq
      exact heq
  · next hp =>
    obtain ⟨hheld, -⟩ | ⟨-, heq⟩ :=
      h.content_of_absent hne p.sparse_top hlen (Bool.eq_false_iff.mpr hp)
    · exact absurd hheld hnot
    · exact heq

end DraftPair

def emptyAbove (blockSize : BlockSize) (count : Nat) (hc : count * 4 ≤ Limits.allocation) :
    DraftPair where
  child := Draft.noBlock .differencing Draft.isSparse_differencing childId 1024
    Draft.twoSectors_le_safeNumber blockSize count hc
  base := Draft.oneBlock .dynamic Draft.isSparse_dynamic baseId 1024 Draft.twoSectors_le_block
    0xC0 0x11
  child_type := rfl
  base_type := rfl
  id_eq := rfl
  name_eq := nameOf_storedName

section emptyAbove

variable {blockSize : BlockSize} {count : Nat} {hc : count * 4 ≤ Limits.allocation}

theorem inherited_emptyAbove (ho : offset < 1024) :
    inherited (emptyAbove blockSize count hc).files
      ((emptyAbove blockSize count hc).disk unchecked).ancestors offset = some 0x11 :=
  DraftPair.inherited_of_oneBlock (Nat.le_refl 1024) rfl ho

theorem fault_emptyAbove {s : DiskStream ((emptyAbove blockSize count hc).disk unchecked)}
    (hs : Disk.stream ((emptyAbove blockSize count hc).disk unchecked) ⟨none, none, none⟩ = .ok s) :
    (s.total (emptyAbove blockSize count hc).files).fault = none :=
  fault_whole _ (Draft.within_noBlock _ hc) (Draft.within_oneBlock (Nat.le_refl 1024))
    ⟨2, rfl⟩ ⟨2, rfl⟩ hs

theorem length_emptyAbove :
    ((emptyAbove blockSize count hc).childLayout unchecked).table.length = count :=
  Draft.length_noBlock _ hc

theorem isPresent_emptyAbove (index : Nat) :
    ((emptyAbove blockSize count hc).childLayout unchecked).table.isPresent index = false :=
  Draft.isPresent_noBlock _ hc index

end emptyAbove

/-- Blocks of one size: the image gives the byte of its parent. -/
theorem absent_byte_emptyAbove :
    ∃ s : DiskStream ((emptyAbove Draft.twoSectors 1 (by decide)).disk unchecked),
      (s.total (emptyAbove Draft.twoSectors 1 (by decide)).files).bytes[512]? = some 0x11 := by
  obtain ⟨s, hs⟩ := stream_whole ((emptyAbove Draft.twoSectors 1 (by decide)).disk unchecked)
  have ho : 512 < (emptyAbove Draft.twoSectors 1 (by decide)).child.size := by decide
  have hlen : ((emptyAbove Draft.twoSectors 1 (by decide)).childLayout unchecked).table.blockOf 512
      < ((emptyAbove Draft.twoSectors 1 (by decide)).childLayout unchecked).table.length := by
    rw [length_emptyAbove]
    exact Nat.zero_lt_one
  have hbyte := absent_byte_iff ((emptyAbove Draft.twoSectors 1 (by decide)).open_disk rfl)
    List.suffix_rfl (DraftPair.isDifferencing_top _ unchecked) (DraftPair.sparse_top _) hs
    (fault_emptyAbove hs) (Nat.zero_le 512) (DraftPair.lt_stop_whole ho) ho hlen
    (isPresent_emptyAbove _)
  refine ⟨s, ?_⟩
  rw [← inherited_emptyAbove (show 512 < 1024 by decide)]
  exact hbyte.2 (DraftPair.blockSize_base rfl)

/-- The parent has one block of two sectors and the image counts each sector as a
block. The second has a number that the parent does not have. -/
theorem not_absent_byte_emptyAbove :
    ∃ s : DiskStream ((emptyAbove Draft.oneSector 2 (by decide)).disk unchecked),
      Disk.open (emptyAbove Draft.oneSector 2 (by decide)).files unchecked ⟨"c"⟩
          = .ok ((emptyAbove Draft.oneSector 2 (by decide)).disk unchecked) ∧
        ((emptyAbove Draft.oneSector 2 (by decide)).disk unchecked).top.isDifferencing = true ∧
        (∃ layout, ((emptyAbove Draft.oneSector 2 (by decide)).disk unchecked).top.sparse
            = some layout ∧ layout.table.blockOf 512 < layout.table.length ∧
          layout.table.isPresent (layout.table.blockOf 512) = false) ∧
        Disk.stream ((emptyAbove Draft.oneSector 2 (by decide)).disk unchecked) ⟨none, none, none⟩
          = .ok s ∧
        (s.total (emptyAbove Draft.oneSector 2 (by decide)).files).fault = none ∧
        (s.total (emptyAbove Draft.oneSector 2 (by decide)).files).bytes[512]? = some 0 ∧
        inherited (emptyAbove Draft.oneSector 2 (by decide)).files
          ((emptyAbove Draft.oneSector 2 (by decide)).disk unchecked).ancestors 512
            = some 0x11 := by
  obtain ⟨s, hs⟩ := stream_whole ((emptyAbove Draft.oneSector 2 (by decide)).disk unchecked)
  have hlen : ((emptyAbove Draft.oneSector 2 (by decide)).childLayout unchecked).table.blockOf 512
      < ((emptyAbove Draft.oneSector 2 (by decide)).childLayout unchecked).table.length := by
    rw [length_emptyAbove]
    exact Nat.one_lt_two
  have habsent : (emptyAbove Draft.oneSector 2 (by decide)).base.table.isPresent
      ((emptyAbove Draft.oneSector 2 (by decide)).child.table.blockOf 512) = false := by
    apply Bool.eq_false_iff.mpr
    intro hp
    exact Nat.one_ne_zero ((Draft.isPresent_oneBlock (Nat.le_refl 1024)).mp hp)
  refine ⟨s, DraftPair.open_disk _ rfl, DraftPair.isDifferencing_top _ _,
    ⟨_, DraftPair.sparse_top _, hlen, isPresent_emptyAbove _⟩, hs, fault_emptyAbove hs, ?_,
    inherited_emptyAbove (by decide)⟩
  rw [getElem?_whole hs (fault_emptyAbove hs) (by decide) hlen habsent]
  exact if_neg (Bool.eq_false_iff.mp (isPresent_emptyAbove _))

/-- A byte of a block that an image stores is its own where the bitmap has a set
bit. Where it has a clear bit, the byte is that of the parent just if it equals
the image's own or some ancestor holds a block of the same number. -/
theorem present_byte_iff {opened : Disk} (ho : Disk.open files options path = .ok opened)
    (hd : d.levels <:+ opened.levels) (hdiff : d.top.isDifferencing = true)
    (hl : d.top.sparse = some layout) (hs : d.stream request = .ok s)
    (hend : (s.total files).fault = none) (hlo : request.start ≤ offset)
    (hhi : offset < request.stop d.flattenedLength) (hsize : offset < d.size)
    (hp : layout.table.isPresent (layout.table.blockOf offset) = true) :
    (layout.table.ownBit (files.contents d.top.place) offset = some true →
      (s.total files).bytes[offset - request.start]?
        = layout.table.ownByte (files.contents d.top.place) offset) ∧
    (layout.table.ownBit (files.contents d.top.place) offset = some false →
      ((s.total files).bytes[offset - request.start]? = inherited files d.ancestors offset ↔
        inherited files d.ancestors offset
            = layout.table.ownByte (files.contents d.top.place) offset ∨
          ∃ l ∈ d.ancestors, l.Holds (layout.table.blockOf offset))) := by
  have h := chained_of_suffix ho hd
  have hne := h.ancestors_ne_nil hdiff
  have hbyte := getElem?_total h hs hend hlo hhi
  rw [flattened_of_lt hsize] at hbyte
  obtain ⟨hheld, heq⟩ | ⟨hnot, heq⟩ := h.content_of_present hne hl hp
  · rw [hbyte.trans heq]
    constructor
    · intro hset
      rw [hset]
      rfl
    · intro hclear
      rw [hclear]
      exact ⟨fun _ => .inr hheld, fun _ => rfl⟩
  · rw [hbyte.trans heq]
    constructor
    · exact fun _ => rfl
    · intro _
      constructor
      · exact fun hz => .inl hz.symm
      · rintro (hz | hheld)
        · exact hz.symm
        · exact absurd hheld hnot

/-- Both images of a pair store a block: each of its sectors is that of the image
that the bitmap says. -/
theorem present_byte_mixedPair :
    ∃ s : DiskStream ((mixedPair 1024 (Nat.le_refl 1024)).disk unchecked),
    (s.total (mixedPair 1024 (Nat.le_refl 1024)).files).bytes[0]? = some 0x22 ∧
      (s.total (mixedPair 1024 (Nat.le_refl 1024)).files).bytes[512]? = some 0x11 := by
  have hle : (1024 : Nat) ≤ 1024 := Nat.le_refl 1024
  obtain ⟨s, hs⟩ := stream_whole ((mixedPair 1024 hle).disk unchecked)
  have hend := fault_whole (mixedPair 1024 hle) (Draft.within_oneBlock hle)
    (Draft.within_oneBlock hle) ⟨2, rfl⟩ ⟨2, rfl⟩ hs
  have hblock {o : Nat} (ho : o < 1024) : (mixedPair 1024 hle).child.table.blockOf o = 0 :=
    Draft.blockOf_oneBlock hle ho
  have hbyte {o : Nat} (ho : o < 1024) := @present_byte_iff _ _ _ _ _ s
    ((mixedPair 1024 hle).childLayout unchecked) o _ ((mixedPair 1024 hle).open_disk rfl)
    List.suffix_rfl (DraftPair.isDifferencing_top _ unchecked) (DraftPair.sparse_top _) hs hend
    (Nat.zero_le o) (DraftPair.lt_stop_whole ho) ho
    (hblock ho ▸ (Draft.isPresent_oneBlock hle).mpr rfl)
  have hset : (mixedPair 1024 hle).child.table.ownBit (mixedPair 1024 hle).child.file 0
      = some true := Draft.ownBit_oneBlock hle (by decide)
  have hclear : (mixedPair 1024 hle).child.table.ownBit (mixedPair 1024 hle).child.file 512
      = some false := Draft.ownBit_oneBlock hle (by decide)
  have hheld : ∃ l ∈ ((mixedPair 1024 hle).disk unchecked).ancestors,
      l.Holds ((mixedPair 1024 hle).child.table.blockOf 512) :=
    ((mixedPair 1024 hle).holds_base_iff _).mpr
      ((Draft.isPresent_oneBlock hle).mpr (hblock (by decide)))
  have hparent : inherited (mixedPair 1024 hle).files
      ((mixedPair 1024 hle).disk unchecked).ancestors
      512 = some 0x11 := DraftPair.inherited_of_oneBlock hle rfl (by decide)
  have hfirst := hbyte (show 0 < 1024 by decide)
  have hsecond := hbyte (show 512 < 1024 by decide)
  rw [DraftPair.contents_top] at hfirst hsecond
  refine ⟨s, ?_, ?_⟩
  · rw [← Draft.ownByte_oneBlock hle (show 0 < 1024 by decide)]
    exact hfirst.1 hset
  · rw [← hparent]
    exact (hsecond.2 hclear).mpr (.inr hheld)

/-- An image with a block above one without blocks. The first sector of the block
is its own, and the second is that of the parent. -/
def aboveEmpty : DraftPair where
  child := Draft.oneBlock .differencing Draft.isSparse_differencing childId 1024
    Draft.twoSectors_le_block 0x80 0x22
  base := Draft.noBlock .dynamic Draft.isSparse_dynamic baseId 1024
    Draft.twoSectors_le_safeNumber Draft.twoSectors 1 Draft.oneEntry_le
  child_type := rfl
  base_type := rfl
  id_eq := rfl
  name_eq := nameOf_storedName

/-- The bit of the second sector is clear, but no ancestor holds a block of this
number: the sector is the image's own, and the parent has zeros. -/
theorem not_present_byte_aboveEmpty : ∃ s : DiskStream (aboveEmpty.disk unchecked),
    Disk.open aboveEmpty.files unchecked ⟨"c"⟩ = .ok (aboveEmpty.disk unchecked) ∧
      (aboveEmpty.disk unchecked).top.isDifferencing = true ∧
      (∃ layout, (aboveEmpty.disk unchecked).top.sparse = some layout ∧
        layout.table.blockOf 512 < layout.table.length ∧
        layout.table.isPresent (layout.table.blockOf 512) = true ∧
        layout.table.ownBit (aboveEmpty.files.contents (aboveEmpty.disk unchecked).top.place) 512
          = some false) ∧
      Disk.stream (aboveEmpty.disk unchecked) ⟨none, none, none⟩ = .ok s ∧
      (s.total aboveEmpty.files).fault = none ∧
      (s.total aboveEmpty.files).bytes[512]? = some 0x22 ∧
      inherited aboveEmpty.files (aboveEmpty.disk unchecked).ancestors 512 = some 0 := by
  have hle : (1024 : Nat) ≤ 1024 := Nat.le_refl 1024
  have hlt : 512 < 1024 := by decide
  obtain ⟨s, hs⟩ := stream_whole (aboveEmpty.disk unchecked)
  have hend := fault_whole aboveEmpty (Draft.within_oneBlock hle)
    (Draft.within_noBlock _ (by decide)) ⟨2, rfl⟩ ⟨2, rfl⟩ hs
  have hblock : aboveEmpty.child.table.blockOf 512 = 0 := Draft.blockOf_oneBlock hle hlt
  have hpresent : aboveEmpty.child.table.isPresent (aboveEmpty.child.table.blockOf 512) = true :=
    (Draft.isPresent_oneBlock hle).mpr hblock
  have hlen : aboveEmpty.child.table.blockOf 512 < aboveEmpty.child.table.length :=
    hblock ▸ Nat.zero_lt_one
  have hbit : aboveEmpty.child.table.ownBit aboveEmpty.child.file 512 = some false :=
    Draft.ownBit_oneBlock hle hlt
  have habsent (index : Nat) : aboveEmpty.base.table.isPresent index = false :=
    Draft.isPresent_noBlock _ (by decide) index
  refine ⟨s, DraftPair.open_disk _ rfl, DraftPair.isDifferencing_top _ _,
    ⟨_, DraftPair.sparse_top _, hlen, hpresent, ?_⟩, hs, hend, ?_,
    DraftPair.inherited_of_absent (habsent _)⟩
  · rw [DraftPair.contents_top]
    exact hbit
  · rw [getElem?_whole hs hend hlt hlen (habsent _), if_pos hpresent]
    exact Draft.ownByte_oneBlock hle hlt

end DiskStream

end VirtualDisk
