import VirtualDisk.Stream.DiskStream
import VirtualDisk.Proofs.ChainYield
import VirtualDisk.Proofs.DraftPair

namespace VirtualDisk

namespace DiskStream

variable {d : Disk}

/-- The chunks that a stream still gives, and the error that ends them, if one
does. -/
def run (files : Files) (s : DiskStream d) : List ByteArray × Option Error :=
  match _h : s.next files with
  | (.chunk bytes, rest) => (bytes :: (rest.run files).1, (rest.run files).2)
  | (.failed e, _) => ([], some e)
  | (.ended, _) => ([], none)
termination_by (source d).budget s.levels
decreasing_by
  have := budget_next _h
  have := Pulled.cost_pos bytes
  omega

def total (files : Files) (s : DiskStream d) : Total :=
  ⟨(s.run files).1.flatMap octets, (s.run files).2⟩

variable {files : Files} {options : OpenOptions} {s : DiskStream d} {request : RangeRequest}

theorem run_eq (s : DiskStream d) : s.run files = (source d).run files s.levels := by
  induction hn : (source d).budget s.levels using Nat.strongRecOn generalizing s with
  | ind n ih =>
    have hnext : s.next files = (((source d).pull files s.levels).1,
      { s with levels := ((source d).pull files s.levels).2 }) := rfl
    match hp : (source d).pull files s.levels with
    | (.chunk bytes, rest) =>
      have hlt := hn ▸ Source.budget_lt_of_chunk hp
      rw [hp] at hnext
      rw [Source.run_of_chunk hp, run, hnext]
      simp only
      rw [ih _ hlt { s with levels := rest } rfl]
    | (.failed e, rest) =>
      rw [hp] at hnext
      rw [Source.run_of_failed hp, run, hnext]
    | (.ended, rest) =>
      rw [hp] at hnext
      rw [Source.run_of_ended hp, run, hnext]

theorem total_eq (files : Files) (s : DiskStream d) :
    s.total files = (source d).total files s.levels := by
  rw [total, run_eq]
  rfl

theorem stop_le (request : RangeRequest) (total : Nat) : request.stop total ≤ total := by
  unfold RangeRequest.stop
  split
  · exact Nat.min_le_right _ _
  · exact Nat.le_refl _

theorem isAligned_iff : request.isAligned = true ↔ sectorSize ∣ request.start ∧
    ∀ last, request.last? = some last → sectorSize ∣ last + 1 := by
  have hlast (last : Nat) : decide (last % sectorSize = sectorSize - 1) = true
      ↔ sectorSize ∣ last + 1 := by
    rw [decide_eq_true_iff, Nat.dvd_iff_mod_eq_zero]
    unfold sectorSize
    omega
  rw [RangeRequest.isAligned, Bool.and_eq_true]
  apply and_congr
  · unfold RangeRequest.start
    cases request.start? with
    | none => exact ⟨fun _ => Nat.dvd_zero _, fun _ => rfl⟩
    | some start => exact decide_eq_true_iff.trans Nat.dvd_iff_mod_eq_zero.symm
  · cases request.last? with
    | none => exact ⟨fun _ _ h => (nomatch h), fun _ => rfl⟩
    | some last => exact (hlast last).trans ⟨fun h _ he => Option.some.inj he ▸ h, fun h => h _ rfl⟩

theorem stream_eq_ok_iff : d.stream request = .ok s ↔ request.isAligned = true ∧
    s = ⟨LevelStream.ofRange d.top request.start (request.stop d.flattenedLength)
      (.ofNat (request.bufferSize?.getD d.top.options.bufferSize)), ByteArray.empty⟩ := by
  unfold Disk.stream
  by_cases h : request.isAligned = true
  · rw [if_pos h, Except.ok.injEq, and_iff_right h, eq_comm]
  · rw [if_neg h]
    exact ⟨fun he => (nomatch he), fun hs => absurd hs.1 h⟩

theorem aligned_start_of_stream (hs : d.stream request = .ok s) : sectorSize ∣ request.start :=
  (isAligned_iff.mp (stream_eq_ok_iff.mp hs).1).1

theorem aligned_stop_of_stream (hs : d.stream request = .ok s) (hsize : sectorSize ∣ d.size) :
    sectorSize ∣ request.stop d.flattenedLength := by
  have htotal : sectorSize ∣ d.flattenedLength := Nat.dvd_add hsize (Nat.dvd_refl 512)
  have hlast := (isAligned_iff.mp (stream_eq_ok_iff.mp hs).1).2
  unfold RangeRequest.stop
  cases hl : request.last? with
  | none => exact htotal
  | some last => exact dvd_min (hlast last hl) htotal

/-- What a stream gives, and when it fails, whatever the files contain by now. -/
theorem yields_of_fittingBlocks (h : ∀ level ∈ d.levels, level.HasFittingBlocks)
    (hs : d.stream request = .ok s) :
    (s.total files).Yields
      (span (flattened files d.levels) request.start (request.stop d.flattenedLength))
      (Readable files d.levels request.start (min (request.stop d.flattenedLength) d.size)) := by
  have hstop : min (request.stop d.flattenedLength) (d.top.footer.currentSize + Footer.size)
      = request.stop d.flattenedLength := Nat.min_eq_left (stop_le request d.flattenedLength)
  have hy := @ChainStream.yields_ofRange files d.top d.ancestors h _
    (aligned_start_of_stream hs) (request.stop d.flattenedLength)
    (.ofNat (request.bufferSize?.getD d.top.options.bufferSize))
  obtain ⟨-, rfl⟩ := stream_eq_ok_iff.mp hs
  rw [hstop] at hy
  rw [total_eq]
  exact hy

/-- What a stream gives of a chain that is opened, and when it fails. -/
theorem yields (h : Chained files options d.levels) (hs : d.stream request = .ok s) :
    (s.total files).Yields
      (span (flattened files d.levels) request.start (request.stop d.flattenedLength))
      (Readable files d.levels request.start (min (request.stop d.flattenedLength) d.size)) :=
  yields_of_fittingBlocks h.hasFittingBlocks hs

theorem length_eq (hs : d.stream request = .ok s) :
    s.length = request.stop d.flattenedLength - request.start := by
  obtain ⟨-, rfl⟩ := stream_eq_ok_iff.mp hs
  simp only [length, stop, LevelStream.ofRange, Plan.ofRange]
  omega

theorem getElem?_total (h : Chained files options d.levels) (hs : d.stream request = .ok s)
    (hend : (s.total files).fault = none) {o : Nat} (hlo : request.start ≤ o)
    (hhi : o < request.stop d.flattenedLength) :
    (s.total files).bytes[o - request.start]? = flattened files d.levels o := by
  have hall := (yields h hs).complete hend
  have hget := congrArg (·[o - request.start]?) hall
  simp only [List.getElem?_map] at hget
  rw [getElem?_span (by omega), Nat.add_sub_cancel' hlo] at hget
  obtain ⟨b, hb, hf⟩ := Option.map_eq_some_iff.mp hget
  rw [hb, hf]

/-- A stream of a complete chain comes to its end just if its range is not cut. -/
theorem fault_eq_none_iff (h : Chained files options d.levels) (hc : Complete files d.levels)
    (hs : d.stream request = .ok s) : (s.total files).fault = none ↔
      ¬Cut files d.levels request.start (min (request.stop d.flattenedLength) d.size) := by
  rw [(yields h hs).fault_iff]
  exact readable_iff_not_cut h hc (aligned_start_of_stream hs)
    (Nat.min_le_right (request.stop d.flattenedLength) d.size)

theorem fault_eq_none_of_aligned (h : Chained files options d.levels) (hc : Complete files d.levels)
    (hs : d.stream request = .ok s)
    (hsizes : ∀ level ∈ d.levels, sectorSize ∣ level.footer.currentSize) :
    (s.total files).fault = none := by
  have hsize : sectorSize ∣ d.size := hsizes d.top List.mem_cons_self
  rw [fault_eq_none_iff h hc hs]
  exact not_cut_of_aligned h hsizes (dvd_min (aligned_stop_of_stream hs hsize) hsize)

theorem stream_whole (d : Disk) : ∃ s, d.stream ⟨none, none, none⟩ = .ok s := ⟨_, rfl⟩

/-- The stream of a range of an opened disk gives the bytes of the flattened
disk in this range. If an error ends it, it gives the front of them. -/
theorem gives_flattened {path : Path} (ho : Disk.open files options path = .ok d)
    (hs : d.stream request = .ok s) :
    (s.total files).bytes.map some
        <+: span (flattened files d.levels) request.start (request.stop d.flattenedLength) ∧
      ((s.total files).fault = none → (s.total files).bytes.map some
        = span (flattened files d.levels) request.start (request.stop d.flattenedLength)) :=
  have hy := yields (chained_of_open ho) hs
  ⟨hy.front, hy.complete⟩

/-- An image with one block above another. The first sector of the block is its
own, and the second is that of its parent. -/
def mixedPair (size : Nat) (hs : size ≤ 1024) : DraftPair where
  child := Draft.oneBlock .differencing Draft.isSparse_differencing childId size hs 0x80 0x22
  base := Draft.oneBlock .dynamic Draft.isSparse_dynamic baseId size hs 0xC0 0x11
  child_type := rfl
  base_type := rfl
  id_eq := rfl
  name_eq := nameOf_storedName

def unchecked : OpenOptions := { verifyChecksums := false }

theorem gives_flattened_mixedPair : ∃ s : DiskStream ((mixedPair 1024 (by decide)).disk unchecked),
    (s.total (mixedPair 1024 (by decide)).files).bytes.map some
        <+: span (flattened (mixedPair 1024 (by decide)).files
          ((mixedPair 1024 (by decide)).disk unchecked).levels) 0 1536 ∧
      ((s.total (mixedPair 1024 (by decide)).files).fault = none →
        (s.total (mixedPair 1024 (by decide)).files).bytes.map some
          = span (flattened (mixedPair 1024 (by decide)).files
            ((mixedPair 1024 (by decide)).disk unchecked).levels) 0 1536) := by
  obtain ⟨s, hs⟩ := stream_whole ((mixedPair 1024 (by decide)).disk unchecked)
  exact ⟨s, gives_flattened ((mixedPair 1024 (by decide)).open_disk rfl) hs⟩

/-- The stream of a range of a complete chain comes to the end of the range just
if the range is not cut, and it is not cut if all disks have whole sectors. -/
theorem ends_iff_not_cut {path : Path} (ho : Disk.open files options path = .ok d)
    (hc : Complete files d.levels) (hs : d.stream request = .ok s) :
    ((s.total files).fault = none ∧ (s.total files).bytes.length = s.length ↔
      ¬Cut files d.levels request.start (min (request.stop d.flattenedLength) d.size)) ∧
    ((∀ level ∈ d.levels, sectorSize ∣ level.footer.currentSize) →
      (s.total files).fault = none ∧ (s.total files).bytes.length = s.length) := by
  have h := chained_of_open ho
  have hlen (hend : (s.total files).fault = none) : (s.total files).bytes.length = s.length := by
    rw [(yields h hs).length_eq hend, length_span, length_eq hs]
  constructor
  · rw [← fault_eq_none_iff h hc hs]
    exact ⟨fun h => h.1, fun h => ⟨h, hlen h⟩⟩
  · intro hsizes
    have hend := fault_eq_none_of_aligned h hc hs hsizes
    exact ⟨hend, hlen hend⟩

theorem fault_whole (p : DraftPair) (hc : p.child.table.Within p.child.file)
    (hb : p.base.table.Within p.base.file) (hchild : sectorSize ∣ p.child.size)
    (hbase : sectorSize ∣ p.base.size) {s : DiskStream (p.disk unchecked)}
    (hs : Disk.stream (p.disk unchecked) ⟨none, none, none⟩ = .ok s) :
    (s.total p.files).fault = none :=
  fault_eq_none_of_aligned (p.chained_disk rfl) (p.complete hc hb) hs
    (p.sectorSize_dvd hchild hbase)

theorem complete_mixedPair (size : Nat) (hs : size ≤ 1024) :
    Complete (mixedPair size hs).files ((mixedPair size hs).disk options).levels :=
  DraftPair.complete _ (Draft.within_oneBlock hs) (Draft.within_oneBlock hs)

theorem fault_mixedPair {s : DiskStream ((mixedPair 1024 (by decide)).disk unchecked)}
    (hs : Disk.stream ((mixedPair 1024 (by decide)).disk unchecked) ⟨none, none, none⟩ = .ok s) :
    (s.total (mixedPair 1024 (by decide)).files).fault = none :=
  fault_whole _ (Draft.within_oneBlock (by decide)) (Draft.within_oneBlock (by decide))
    ⟨2, rfl⟩ ⟨2, rfl⟩ hs

theorem ends_iff_not_cut_mixedPair :
    ∃ s : DiskStream ((mixedPair 1024 (by decide)).disk unchecked),
      (s.total (mixedPair 1024 (by decide)).files).fault = none ∧
        (s.total (mixedPair 1024 (by decide)).files).bytes.length = s.length := by
  obtain ⟨s, hs⟩ := stream_whole ((mixedPair 1024 (by decide)).disk unchecked)
  have hends := ends_iff_not_cut ((mixedPair 1024 (by decide)).open_disk rfl)
    (complete_mixedPair 1024 (by decide)) hs
  exact ⟨s, hends.2 ((mixedPair 1024 (by decide)).sectorSize_dvd (by decide) (by decide))⟩

theorem cut_mixedPair {size : Nat} (hs : size ≤ 1024) (hlt : sectorSize < size)
    (hmod : size % sectorSize ≠ 0) :
    Cut (mixedPair size hs).files ((mixedPair size hs).disk unchecked).levels 0 size := by
  have hpresent : (mixedPair size hs).child.table.isPresent 0 = true :=
    (Draft.isPresent_oneBlock hs).mpr rfl
  have hinherits : ((mixedPair size hs).childLayout unchecked).inherits true 0 = true :=
    ((mixedPair size hs).inherits_iff rfl 0).mpr ((Draft.isPresent_oneBlock hs).mpr rfl)
  have hrange : max 0 (0 * 1024) = 0 ∧ min size ((0 + 1) * 1024) = size := by omega
  have hbit {o : Nat} (ho : o < 1024) : (mixedPair size hs).child.table.ownBit
      (mixedPair size hs).child.file o = some ((0x80 : UInt8).toNat.testBit (7 - o / 512)) :=
    Draft.ownBit_oneBlock hs ho
  have hset : (mixedPair size hs).child.table.HasBit (mixedPair size hs).child.file 0 size true :=
    ⟨0, Nat.le_refl 0, by omega, hbit (by decide)⟩
  have hclear :
      (mixedPair size hs).child.table.HasBit (mixedPair size hs).child.file 0 size false :=
    ⟨512, by decide, hlt, hbit (by decide)⟩
  have hblock : (mixedPair size hs).child.table.blockSize = 1024 := rfl
  have htable : ((mixedPair size hs).childLayout unchecked).table
      = (mixedPair size hs).child.table := rfl
  refine ⟨_, (mixedPair size hs).sparse_top, 0, Nat.zero_lt_one, ?_⟩
  rw [htable, hblock, hrange.1, hrange.2, (mixedPair size hs).contents_top]
  refine ⟨by omega, hinherits, ?_⟩
  rw [htable, if_pos hpresent]
  exact ⟨hclear, .inr ⟨hset, hmod⟩⟩

/-- A disk that ends within a sector, of which a block is merged. -/
theorem not_ends_mixedPair : ∃ s : DiskStream ((mixedPair 700 (by decide)).disk unchecked),
    Disk.open (mixedPair 700 (by decide)).files unchecked ⟨"c"⟩
        = .ok ((mixedPair 700 (by decide)).disk unchecked) ∧
      Complete (mixedPair 700 (by decide)).files
        ((mixedPair 700 (by decide)).disk unchecked).levels ∧
      Disk.stream ((mixedPair 700 (by decide)).disk unchecked) ⟨none, none, none⟩ = .ok s ∧
      (s.total (mixedPair 700 (by decide)).files).fault ≠ none := by
  obtain ⟨s, hs⟩ := stream_whole ((mixedPair 700 (by decide)).disk unchecked)
  have hopen := @DraftPair.open_disk (mixedPair 700 (by decide)) unchecked rfl
  have hcomplete := @complete_mixedPair unchecked 700 (by decide)
  refine ⟨s, hopen, hcomplete, hs, ?_⟩
  rw [Ne, fault_eq_none_iff (chained_of_open hopen) hcomplete hs, DraftPair.min_stop_whole]
  exact not_not_intro (cut_mixedPair (by decide) (by decide) (by decide))

end DiskStream

end VirtualDisk
