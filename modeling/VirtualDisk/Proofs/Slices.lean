import VirtualDisk.Proofs.Flattening

namespace VirtualDisk

/-- The range from `lo'` to `hi'` lies within that from `lo` to `hi`, and both are
cut at sectors; the ends may be cut within a sector if they are the same. -/
structure Narrows (lo hi lo' hi' : Nat) : Prop where
  start_le : lo ≤ lo'
  stop_le : hi' ≤ hi
  dvd_start : sectorSize ∣ lo
  dvd_start' : sectorSize ∣ lo'
  dvd_stop : hi' = hi ∨ sectorSize ∣ hi'

namespace Narrows

variable {lo hi lo' hi' : Nat}

theorem mod_eq_zero (h : Narrows lo hi lo' hi') (hm : (hi - lo) % sectorSize = 0) :
    (hi' - lo') % sectorSize = 0 := by
  obtain ⟨k, hk⟩ := h.dvd_start
  obtain ⟨k', hk'⟩ := h.dvd_start'
  have hle := h.start_le
  obtain heq | ⟨j, hj⟩ := h.dvd_stop
  · unfold sectorSize at *
    omega
  · unfold sectorSize at *
    omega

theorem below (h : Narrows lo hi lo' hi') (size : Nat) :
    Narrows lo (min hi size) lo' (min hi' size) := by
  have hle := h.stop_le
  refine ⟨h.start_le, by omega, h.dvd_start, h.dvd_start', ?_⟩
  obtain rfl | hd := h.dvd_stop
  · exact .inl rfl
  · by_cases hlt : hi' ≤ size
    · exact .inr (by rwa [Nat.min_eq_left hlt])
    · exact .inl (by omega)

theorem block (h : Narrows lo hi lo' hi') {size : Nat} (hs : sectorSize ∣ size) (index : Nat) :
    Narrows (max lo (index * size)) (min hi ((index + 1) * size)) (max lo' (index * size))
      (min hi' ((index + 1) * size)) := by
  have hstart := h.start_le
  have hstop := h.stop_le
  refine ⟨by omega, by omega, dvd_max h.dvd_start hs, dvd_max h.dvd_start' hs, ?_⟩
  obtain rfl | hd := h.dvd_stop
  · exact .inl rfl
  · exact .inr (dvd_min hd (Nat.dvd_trans hs (Nat.dvd_mul_left _ _)))

end Narrows

namespace BlockTable

variable {t : BlockTable} {contents : ByteArray} {o index lo hi lo' hi' : Nat}

theorem place_of_block (hlo : index * t.blockSize ≤ o) (hhi : o < (index + 1) * t.blockSize) :
    t.blockOf o = index ∧ index * t.blockSize + t.withinBlock o = o := by
  have hblock : t.blockOf o = index := Nat.div_eq_of_lt_le hlo hhi
  refine ⟨hblock, ?_⟩
  have hdiv := Nat.div_add_mod o t.blockSize
  rwa [show o / t.blockSize = index from hblock, Nat.mul_comm] at hdiv

theorem HasBit.widen {isSet : Bool} (h : t.HasBit contents lo' hi' isSet) (hlo : lo ≤ lo')
    (hhi : hi' ≤ hi) : t.HasBit contents lo hi isSet := by
  obtain ⟨o, h1, h2, hbit⟩ := h
  exact ⟨o, Nat.le_trans hlo h1, Nat.lt_of_lt_of_le h2 hhi, hbit⟩

end BlockTable

namespace SparseLayout

variable {layout : SparseLayout} {contents : ByteArray} {hasParent : Bool}
  {below : Nat → Nat → Prop} {index lo hi lo' hi' : Nat}

theorem OwnReadable.narrow (h : layout.OwnReadable contents lo hi) (hn : Narrows lo hi lo' hi')
    (hlt : lo' < hi') (hlo : index * layout.table.blockSize ≤ lo)
    (hhi : hi' ≤ (index + 1) * layout.table.blockSize) : layout.OwnReadable contents lo' hi' := by
  have hstart := hn.start_le
  have hstop := hn.stop_le
  obtain ⟨hblock, hplace⟩ := @BlockTable.place_of_block layout.table lo index hlo (by omega)
  obtain ⟨hblock', hplace'⟩ := @BlockTable.place_of_block layout.table lo' index (by omega)
    (by omega)
  intro start hs
  rw [BlockTable.physical?, hblock'] at hs
  obtain ⟨data, hdata, rfl⟩ := Option.map_eq_some_iff.mp hs
  have hwhole := h (data + layout.table.withinBlock lo) (by
    rw [BlockTable.physical?, hblock, hdata, Option.map_some])
  omega

theorem BlockReadable.narrow (h : layout.BlockReadable contents hasParent below index lo hi)
    (hn : Narrows lo hi lo' hi') (hlt : lo' < hi') (hlo : index * layout.table.blockSize ≤ lo)
    (hhi : hi' ≤ (index + 1) * layout.table.blockSize) (hbelow : below lo hi → below lo' hi') :
    layout.BlockReadable contents hasParent below index lo' hi' := by
  have hown (h : layout.OwnReadable contents lo hi) := h.narrow hn hlt hlo hhi
  have hbit {b : Bool} (h : layout.table.HasBit contents lo' hi' b) :=
    h.widen hn.start_le hn.stop_le
  unfold BlockReadable at h ⊢
  cases hs : layout.table.bitmapOffset? index with
  | none =>
    cases hi : layout.inherits hasParent index with
    | false => trivial
    | true =>
      rw [hs, hi] at h
      exact hbelow h
  | some start =>
    cases hi : layout.inherits hasParent index with
    | false =>
      rw [hs, hi] at h
      exact hown h
    | true =>
      rw [hs, hi] at h
      obtain ⟨hbitmap, hset, hclear, hmixed⟩ := h
      exact ⟨hbitmap, fun hb => hown (hset (hbit hb)), fun hb => hbelow (hclear (hbit hb)),
        fun hb hb' => hn.mod_eq_zero (hmixed (hbit hb) (hbit hb'))⟩

/-- Each block that the part meets is met by the whole range. -/
theorem Readable.narrow (h : layout.Readable contents hasParent below lo hi)
    (hs : sectorSize ∣ layout.table.blockSize)
    (hbelow : ∀ {lo hi lo' hi'}, Narrows lo hi lo' hi' → below lo hi → below lo' hi')
    (hn : Narrows lo hi lo' hi') : layout.Readable contents hasParent below lo' hi' := by
  intro index hindex hlt
  have hpart := hn.block hs index
  have hstart := hpart.start_le
  have hstop := hpart.stop_le
  exact (h index hindex (by omega)).narrow hpart hlt (Nat.le_max_right _ _) (Nat.min_le_right _ _)
    (hbelow hpart)

end SparseLayout

variable {files : Files} {chain : List Level} {lo hi lo' hi' : Nat}

theorem Readable.narrow (hs : ∀ l ∈ chain, l.HasFittingBlocks) (h : Readable files chain lo hi)
    (hn : Narrows lo hi lo' hi') : Readable files chain lo' hi' := by
  induction chain generalizing lo hi lo' hi' with
  | nil => trivial
  | cons level ancestors ih =>
    change level.Readable _ _ _ lo hi at h
    change level.Readable _ _ _ lo' hi'
    cases hl : level.sparse with
    | none =>
      rw [Level.readable_of_fixed _ _ hl] at h ⊢
      have hstart := hn.start_le
      have hstop := hn.stop_le
      intro hlt
      exact Nat.le_trans hstop (h (by omega))
    | some layout =>
      rw [Level.readable_of_sparse _ _ hl] at h ⊢
      apply h.narrow (hs level List.mem_cons_self layout hl).sectorSize_dvd _ hn
      intro lo hi lo' hi' hn hbelow
      exact ih (fun l hm => hs l (List.mem_cons_of_mem _ hm)) hbelow (hn.below _)

namespace DiskStream

variable {d : Disk} {options : OpenOptions} {request : RangeRequest} {s w : DiskStream d}

theorem stream_of_aligned (d : Disk) (h : request.isAligned = true) :
    ∃ s, d.stream request = .ok s := ⟨_, stream_eq_ok_iff.mpr ⟨h, rfl⟩⟩

theorem narrows_of_stream (hs : d.stream request = .ok s) :
    Narrows 0 (min d.flattenedLength d.size) request.start
      (min (request.stop d.flattenedLength) d.size) := by
  obtain ⟨hstart, hlast⟩ := isAligned_iff.mp (stream_eq_ok_iff.mp hs).1
  have hstop := stop_le request d.flattenedLength
  refine ⟨Nat.zero_le _, by omega, Nat.dvd_zero _, hstart, ?_⟩
  unfold RangeRequest.stop
  cases hl : request.last? with
  | none => exact .inl rfl
  | some last =>
    by_cases hle : last + 1 ≤ min d.flattenedLength d.size
    · rw [show min (min (last + 1) d.flattenedLength) d.size = last + 1 by omega]
      exact .inr (hlast last hl)
    · exact .inl (by simp only; omega)

theorem stop_eq (request : RangeRequest) (total : Nat) :
    request.stop total = request.last?.elim total fun last => min (last + 1) total := by
  unfold RangeRequest.stop
  cases request.last? <;> rfl

variable {buffer? : Option Nat} {bytes : List UInt8}

theorem total_eq_slice (h : Chained files options d.levels)
    (hw : d.stream ⟨none, none, buffer?⟩ = .ok w) (hD : w.total files = ⟨bytes, none⟩)
    (hs : d.stream request = .ok s) :
    s.total files = ⟨(bytes.take (request.stop bytes.length)).drop request.start, none⟩ := by
  have hwhole := yields h hw
  rw [hD] at hwhole
  have hpart := yields h hs
  have hall : bytes.map some = span (flattened files d.levels) 0 d.flattenedLength :=
    hwhole.complete rfl
  have hlength : bytes.length = d.flattenedLength := by
    have hlen := hwhole.length_eq rfl
    rwa [length_span] at hlen
  have hend : (s.total files).fault = none :=
    hpart.fault_iff.mpr ((hwhole.fault_iff.mp rfl).narrow h.hasFittingBlocks (narrows_of_stream hs))
  have hbytes : (s.total files).bytes
      = (bytes.take (request.stop bytes.length)).drop request.start := by
    apply (List.map_inj_right fun _ _ => Option.some.inj).mp
    rw [hpart.complete hend, List.map_drop, List.map_take, hall, hlength, take_span, drop_span,
      Nat.zero_add, Nat.zero_add, Nat.min_eq_right (stop_le request d.flattenedLength)]
  rw [← hend, ← hbytes]

theorem drop_take_append_drop (xs : List UInt8) {start mid : Nat} (h : start ≤ mid) :
    (xs.take mid).drop start ++ xs.drop mid = xs.drop start := by
  have hrest : xs.drop mid = (xs.drop start).drop (mid - start) := by
    rw [List.drop_drop, Nat.add_sub_cancel' h]
  rw [List.drop_take, hrest, List.take_append_drop]

theorem total_split (h : Chained files options d.levels)
    (hw : d.stream ⟨none, none, buffer?⟩ = .ok w)
    (hD : w.total files = ⟨bytes, none⟩) (hs : d.stream request = .ok s) {mid : Nat}
    (hmid : 0 < mid)
    (hle : request.start ≤ mid) (hlast : ∀ last, request.last? = some last → mid ≤ last + 1)
    {front? rest? : Option Nat} {front rest : DiskStream d}
    (hfront : d.stream ⟨request.start?, some (mid - 1), front?⟩ = .ok front)
    (hrest : d.stream ⟨some mid, request.last?, rest?⟩ = .ok rest) :
    (front.total files).followedBy (rest.total files) = s.total files := by
  rw [total_eq_slice h hw hD hfront, total_eq_slice h hw hD hrest, total_eq_slice h hw hD hs]
  have hfront : bytes.take (RangeRequest.stop ⟨request.start?, some (mid - 1), front?⟩ bytes.length)
      = (bytes.take (request.stop bytes.length)).take mid := by
    rw [stop_eq, stop_eq, List.take_take, List.take_eq_take_iff]
    cases hl : request.last? with
    | none => simp only [Option.elim]; omega
    | some last =>
      have hpoint := hlast last hl
      simp only [Option.elim]
      omega
  have hstop : RangeRequest.stop ⟨some mid, request.last?, rest?⟩ bytes.length
      = request.stop bytes.length := rfl
  rw [hfront, hstop]
  exact congrArg (Total.mk · none) (drop_take_append_drop _ hle)

/-- If the stream of the whole disk comes to its end, the stream of a range gives
the slice of it, and a range may be taken in two parts that meet at a sector. -/
theorem gives_slices {path : Path} (ho : Disk.open files options path = .ok d)
    (hw : d.stream ⟨none, none, buffer?⟩ = .ok w) (hD : w.total files = ⟨bytes, none⟩)
    (hs : d.stream request = .ok s) :
    s.total files = ⟨(bytes.take (request.last?.elim bytes.length
        fun last => min (last + 1) bytes.length)).drop (request.start?.getD 0), none⟩ ∧
      ∀ mid, 0 < mid → sectorSize ∣ mid → request.start?.getD 0 ≤ mid →
        (∀ last, request.last? = some last → mid ≤ last + 1) → ∀ front? rest?,
          ∃ front rest, d.stream ⟨request.start?, some (mid - 1), front?⟩ = .ok front ∧
            d.stream ⟨some mid, request.last?, rest?⟩ = .ok rest ∧
            (front.total files).followedBy (rest.total files) = s.total files := by
  have h := chained_of_open ho
  constructor
  · rw [total_eq_slice h hw hD hs, stop_eq]
    rfl
  · intro mid hmid hdvd hle hlast front? rest?
    obtain ⟨hstart, hend⟩ := isAligned_iff.mp (stream_eq_ok_iff.mp hs).1
    have hpoint : ∀ last, some (mid - 1) = some last → sectorSize ∣ last + 1 := by
      rintro last ⟨⟩
      rwa [Nat.sub_add_cancel hmid]
    obtain ⟨front, hfront⟩ := @stream_of_aligned ⟨request.start?, some (mid - 1), front?⟩ d
      (isAligned_iff.mpr ⟨hstart, hpoint⟩)
    obtain ⟨rest, hrest⟩ := @stream_of_aligned ⟨some mid, request.last?, rest?⟩ d
      (isAligned_iff.mpr ⟨hdvd, hend⟩)
    exact ⟨front, rest, hfront, hrest, total_split h hw hD hs hmid hle hlast hfront hrest⟩

/-- The second sector of a disk whose two sectors are merged. -/
theorem gives_slices_mixedPair : ∃ w s : DiskStream ((mixedPair 1024 (by decide)).disk unchecked),
    Disk.stream ((mixedPair 1024 (by decide)).disk unchecked) ⟨none, none, none⟩ = .ok w ∧
      s.total (mixedPair 1024 (by decide)).files
        = ⟨((w.total (mixedPair 1024 (by decide)).files).bytes.take
          (min 1024 (w.total (mixedPair 1024 (by decide)).files).bytes.length)).drop 512,
            none⟩ := by
  obtain ⟨w, hw⟩ := stream_whole ((mixedPair 1024 (by decide)).disk unchecked)
  obtain ⟨s, hs⟩ := @stream_of_aligned ⟨some 512, some 1023, some 7⟩
    ((mixedPair 1024 (by decide)).disk unchecked) rfl
  have hD : w.total (mixedPair 1024 (by decide)).files
      = ⟨(w.total (mixedPair 1024 (by decide)).files).bytes, none⟩ := by rw [← fault_mixedPair hw]
  exact ⟨w, s, hw, (gives_slices ((mixedPair 1024 (by decide)).open_disk rfl) hw hD hs).1⟩

end DiskStream

end VirtualDisk
