import VirtualDisk.Proofs.Opened

namespace VirtualDisk

structure BlockTable.Within (t : BlockTable) (contents : ByteArray) : Prop where
  bitmaps : ∀ index start, t.bitmapOffset? index = some start →
    start + t.bitmapSize ≤ contents.size
  data : ∀ index start, t.dataOffset? index = some start → start + t.blockSize ≤ contents.size

/-- Whether the files of a chain hold all blocks that its tables point to. -/
def Complete (files : Files) (chain : List Level) : Prop :=
  ∀ level ∈ chain, ∀ layout, level.sparse = some layout →
    layout.table.Within (files.contents level.place)

namespace SparseLayout

/-- Whether a range of a block ends within a sector of a merge, here or below. -/
def BlockCut (layout : SparseLayout) (contents : ByteArray) (hasParent : Bool)
    (below : Nat → Nat → Prop) (index lo hi : Nat) : Prop :=
  layout.inherits hasParent index = true ∧
    if layout.table.isPresent index then
      layout.table.HasBit contents lo hi false ∧
        (below lo hi ∨ layout.table.HasBit contents lo hi true ∧ hi % sectorSize ≠ 0)
    else below lo hi

variable {layout : SparseLayout} {contents : ByteArray} {hasParent : Bool}
  {readable cut : Nat → Nat → Prop} {index lo hi : Nat}

theorem ownReadable_of_within (hw : layout.table.Within contents) (hlt : lo < hi)
    (hhi : hi ≤ (index + 1) * layout.table.blockSize)
    (hlo : index * layout.table.blockSize ≤ lo) : layout.OwnReadable contents lo hi := by
  intro start hstart
  have hindex : layout.table.blockOf lo = index := by
    unfold BlockTable.blockOf
    exact Nat.div_eq_of_lt_le hlo (Nat.lt_of_lt_of_le hlt hhi)
  rw [BlockTable.physical?, hindex] at hstart
  obtain ⟨data, hdata, rfl⟩ := Option.map_eq_some_iff.mp hstart
  have hin := hw.data index data hdata
  have hmod := Nat.div_add_mod lo layout.table.blockSize
  have hdiv : lo / layout.table.blockSize = index := hindex
  rw [hdiv, Nat.mul_comm] at hmod
  rw [Nat.succ_mul] at hhi
  unfold BlockTable.withinBlock
  omega

theorem blockReadable_iff (hw : layout.table.Within contents) (hl : sectorSize ∣ lo)
    (hlt : lo < hi) (hhi : hi ≤ (index + 1) * layout.table.blockSize)
    (hlo : index * layout.table.blockSize ≤ lo) (h : readable lo hi ↔ ¬cut lo hi) :
    layout.BlockReadable contents hasParent readable index lo hi
      ↔ ¬layout.BlockCut contents hasParent cut index lo hi := by
  have hown := ownReadable_of_within hw hlt hhi hlo
  have hpresent : layout.table.isPresent index = (layout.table.bitmapOffset? index).isSome := by
    rw [BlockTable.isPresent, BlockTable.bitmapOffset?, Option.isSome_map]
  have hmod : (hi - lo) % sectorSize = 0 ↔ ¬hi % sectorSize ≠ 0 := by
    obtain ⟨k, rfl⟩ := hl
    unfold sectorSize at hlt ⊢
    omega
  unfold BlockReadable BlockCut
  rw [hpresent]
  cases hs : layout.table.bitmapOffset? index with
  | none =>
    cases layout.inherits hasParent index with
    | false => simp
    | true => simpa using h
  | some start =>
    have hin := hw.bitmaps index start hs
    cases layout.inherits hasParent index with
    | false => simpa using hown
    | true =>
      simp only [Option.isSome_some, if_true, true_and]
      rw [hmod, h]
      constructor
      · rintro ⟨-, -, hbelow, haligned⟩ ⟨hclear, hcut | ⟨hset, hne⟩⟩
        · exact hbelow hclear hcut
        · exact haligned hset hclear hne
      · intro hn
        refine ⟨hin, fun _ => hown, fun hclear hcut => hn ⟨hclear, .inl hcut⟩,
          fun hset hclear hne => hn ⟨hclear, .inr ⟨hset, hne⟩⟩⟩

end SparseLayout

/-- Whether a range of a chain ends within a sector of a block that is merged,
at the topmost image or at an ancestor. -/
def Cut (files : Files) : List Level → Nat → Nat → Prop
  | [] => fun _ _ => False
  | level :: ancestors => fun lo hi => ∃ layout, level.sparse = some layout ∧
    ∃ index, index < layout.table.length ∧
      max lo (index * layout.table.blockSize) < min hi ((index + 1) * layout.table.blockSize) ∧
      layout.BlockCut (files.contents level.place) (!ancestors.isEmpty)
        (fun lo hi => Cut files ancestors lo (min hi (extent ancestors))) index
        (max lo (index * layout.table.blockSize)) (min hi ((index + 1) * layout.table.blockSize))

theorem dvd_max {lo index size : Nat} (hl : sectorSize ∣ lo) (hs : sectorSize ∣ size) :
    sectorSize ∣ max lo (index * size) := by
  rcases Nat.le_total lo (index * size) with h | h
  · rw [Nat.max_eq_right h]
    exact Nat.dvd_trans hs (Nat.dvd_mul_left _ _)
  · rw [Nat.max_eq_left h]
    exact hl

theorem dvd_min {a b : Nat} (ha : sectorSize ∣ a) (hb : sectorSize ∣ b) : sectorSize ∣ min a b := by
  rcases Nat.le_total a b with h | h
  · rwa [Nat.min_eq_left h]
  · rwa [Nat.min_eq_right h]

variable {files : Files} {options : OpenOptions} {chain : List Level} {lo hi : Nat}

/-- A range of a complete chain can be given just if it is not cut. -/
theorem readable_iff_not_cut (h : Chained files options chain) (hc : Complete files chain)
    (hl : sectorSize ∣ lo) (hhi : hi ≤ extent chain) :
    Readable files chain lo hi ↔ ¬Cut files chain lo hi := by
  induction chain generalizing lo hi with
  | nil => exact ⟨fun _ => id, fun _ => trivial⟩
  | cons level ancestors ih =>
    have hon := h.standsOn
    cases hs : level.sparse with
    | none =>
      have hin := (hon.fixed hs).2.2
      change level.Readable _ _ _ lo hi ↔ _
      rw [Level.readable_of_fixed _ _ hs]
      constructor
      · rintro - ⟨layout, hsome, -⟩
        rw [hs] at hsome
        cases hsome
      · intro _ _
        have : hi ≤ level.footer.currentSize := hhi
        unfold Footer.flattenedLength at hin
        omega
    | some layout =>
      have hsize := (hon.sparse layout hs).2.1.sectorSize_dvd
      have hw := hc level List.mem_cons_self layout hs
      have hblock {index : Nat}
          (hrange : max lo (index * layout.table.blockSize)
            < min hi ((index + 1) * layout.table.blockSize)) :=
        @SparseLayout.blockReadable_iff layout (files.contents level.place) (!ancestors.isEmpty)
          (fun lo hi => Readable files ancestors lo (min hi (extent ancestors)))
          (fun lo hi => Cut files ancestors lo (min hi (extent ancestors))) index
          (max lo (index * layout.table.blockSize)) (min hi ((index + 1) * layout.table.blockSize))
          hw (dvd_max hl hsize) hrange (Nat.min_le_right _ _) (Nat.le_max_right _ _) (by
            cases ancestors with
            | nil => exact ⟨fun _ => id, fun _ => trivial⟩
            | cons parent rest =>
              exact ih (h.tail (List.cons_ne_nil _ _))
                (fun l hm => hc l (List.mem_cons_of_mem _ hm)) (dvd_max hl hsize)
                (Nat.min_le_right _ _))
      change level.Readable _ _ _ lo hi ↔ _
      rw [Level.readable_of_sparse _ _ hs]
      constructor
      · rintro hread ⟨found, hf, index, hindex, hrange, hcut⟩
        rw [hs] at hf
        cases hf
        exact (hblock hrange).mp (hread index hindex hrange) hcut
      · intro hn index hindex hrange
        exact (hblock hrange).mpr fun hcut => hn ⟨layout, hs, index, hindex, hrange, hcut⟩

/-- No range of whole sectors is cut if all disks of the chain have whole sectors. -/
theorem not_cut_of_aligned (h : Chained files options chain)
    (hs : ∀ level ∈ chain, sectorSize ∣ level.footer.currentSize) (hhi : sectorSize ∣ hi) :
    ¬Cut files chain lo hi := by
  induction chain generalizing lo hi with
  | nil => exact id
  | cons level ancestors ih =>
    rintro ⟨layout, hl, index, -, -, hinherits, hcut⟩
    have hsize := (h.standsOn.sparse layout hl).2.1.sectorSize_dvd
    have hend : sectorSize ∣ min hi ((index + 1) * layout.table.blockSize) :=
      dvd_min hhi (Nat.dvd_trans hsize (Nat.dvd_mul_left _ _))
    have hbelow (lo : Nat) : ¬Cut files ancestors lo
        (min (min hi ((index + 1) * layout.table.blockSize)) (extent ancestors)) := by
      cases ancestors with
      | nil => exact id
      | cons parent rest =>
        exact ih (h.tail (List.cons_ne_nil _ _)) (fun l hm => hs l (List.mem_cons_of_mem _ hm))
          (dvd_min hend (hs parent (List.mem_cons_of_mem _ List.mem_cons_self)))
    split at hcut
    · obtain ⟨-, hcut | ⟨-, hne⟩⟩ := hcut
      · exact hbelow _ hcut
      · exact hne (Nat.mod_eq_zero_of_dvd hend)
    · exact hbelow _ hcut

end VirtualDisk
