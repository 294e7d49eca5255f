import VirtualDisk.Proofs.Flattening

namespace VirtualDisk

namespace Total

/-- Both come to the end with the same bytes, or errors end both, one of them no
later than the other. -/
def Agrees (x y : Total) : Prop :=
  x.fault = none ∧ y.fault = none ∧ x.bytes = y.bytes ∨
    x.fault ≠ none ∧ y.fault ≠ none ∧ (x.bytes <+: y.bytes ∨ y.bytes <+: x.bytes)

variable {x y : Total} {want : List (Option UInt8)} {ok : Prop}

theorem Yields.agrees (h : x.Yields want ok) (h' : y.Yields want ok) : x.Agrees y := by
  by_cases hok : ok
  · have hx := h.fault_iff.mpr hok
    have hy := h'.fault_iff.mpr hok
    refine .inl ⟨hx, hy, ?_⟩
    apply (List.map_inj_right fun _ _ => Option.some.inj).mp
    exact (h.complete hx).trans (h'.complete hy).symm
  · refine .inr ⟨fun hx => hok (h.fault_iff.mp hx), fun hy => hok (h'.fault_iff.mp hy), ?_⟩
    have hinj : Function.Injective (some : UInt8 → Option UInt8) := fun _ _ => Option.some.inj
    have hprefix := List.prefix_or_prefix_of_prefix h.front h'.front
    rwa [List.prefix_map_iff_of_injective hinj, List.prefix_map_iff_of_injective hinj] at hprefix

end Total

theorem BufferSize.ofNat_zero : BufferSize.ofNat 0 = BufferSize.ofNat defaultBufferSize := rfl

namespace DiskStream

variable {d : Disk} {files : Files} {options : OpenOptions} {s : DiskStream d}
  {request : RangeRequest}

/-- Whichever buffers two streams of one range have, they agree on what they give,
and a buffer of size zero is one of the default size. -/
theorem agrees_of_buffers {path : Path} (ho : Disk.open files options path = .ok d)
    (hs : d.stream request = .ok s) (now : Files) (buffer? : Option Nat) :
    ∃ t, d.stream { request with bufferSize? := buffer? } = .ok t ∧
      (s.total now).Agrees (t.total now) ∧
      (buffer? = some 0 →
        d.stream { request with bufferSize? := some defaultBufferSize } = .ok t) := by
  have hsectors := (chained_of_open ho).hasFittingBlocks
  have haligned : RangeRequest.isAligned { request with bufferSize? := buffer? } = true :=
    (stream_eq_ok_iff.mp hs).1
  have ht : d.stream { request with bufferSize? := buffer? } = .ok _ :=
    stream_eq_ok_iff.mpr ⟨haligned, rfl⟩
  have hthis := @yields_of_fittingBlocks d now s request hsectors hs
  have hthat := @yields_of_fittingBlocks d now _ _ hsectors ht
  refine ⟨_, ht, hthis.agrees hthat, ?_⟩
  rintro rfl
  refine stream_eq_ok_iff.mpr ⟨haligned, ?_⟩
  simp only [Option.getD_some, BufferSize.ofNat_zero]
  rfl

def cutPair : Files :=
  Files.pair (filled 1536 0) (mixedPair 1024 (by decide)).base.file

theorem not_readable_cutPair :
    ¬Readable cutPair ((mixedPair 1024 (by decide)).disk unchecked).levels 0 1024 := by
  have hle : (1024 : Nat) ≤ 1024 := Nat.le_refl 1024
  have hstart : (mixedPair 1024 hle).child.table.bitmapOffset? 0 = some 1536 := by
    rw [BlockTable.bitmapOffset?]
    exact congrArg (Option.map (· * sectorSize)) (Draft.sector?_oneBlock hle 0)
  have hinherits : ((mixedPair 1024 hle).childLayout unchecked).inherits
      (!((mixedPair 1024 hle).disk unchecked).ancestors.isEmpty) 0 = true :=
    ((mixedPair 1024 hle).inherits_iff rfl 0).mpr ((Draft.isPresent_oneBlock hle).mpr rfl)
  have hcontents : cutPair.contents ((mixedPair 1024 hle).disk unchecked).top.place
      = filled 1536 0 :=
    contents_child _ _
  have htable : ((mixedPair 1024 hle).childLayout unchecked).table
      = (mixedPair 1024 hle).child.table := rfl
  have hsize : (mixedPair 1024 hle).child.table.blockSize = 1024 := rfl
  intro hread
  change Level.Readable _ _ _ _ 0 1024 at hread
  rw [hcontents, Level.readable_of_sparse _ _ (mixedPair 1024 hle).sparse_top] at hread
  have hblock := hread 0 Nat.zero_lt_one (by rw [htable, hsize]; decide)
  unfold SparseLayout.BlockReadable at hblock
  rw [htable, hstart, hinherits] at hblock
  have hbitmap : 1536 + _ ≤ (filled 1536 0).size := hblock.1
  rw [size_filled, show (mixedPair 1024 hle).child.table.bitmapSize = 1
    from Draft.bitmapSize_oneBlock hle] at hbitmap
  omega

/-- Buffers of seven bytes and of the default size: the whole pair is given with
the same bytes, and the pair that was cut off fails for both. -/
theorem agrees_of_buffers_mixedPair :
    ∃ s t : DiskStream ((mixedPair 1024 (by decide)).disk unchecked),
      Disk.stream ((mixedPair 1024 (by decide)).disk unchecked) ⟨none, none, some 7⟩ = .ok s ∧
      Disk.stream ((mixedPair 1024 (by decide)).disk unchecked) ⟨none, none, some 0⟩ = .ok t ∧
      (s.total (mixedPair 1024 (by decide)).files).bytes
        = (t.total (mixedPair 1024 (by decide)).files).bytes ∧
      (s.total cutPair).fault ≠ none ∧ (t.total cutPair).fault ≠ none := by
  have hopen : Disk.open (mixedPair 1024 (by decide)).files unchecked ⟨"c"⟩ = .ok _ :=
    (mixedPair 1024 (by decide)).open_disk rfl
  obtain ⟨s, hs⟩ : ∃ s,
      Disk.stream ((mixedPair 1024 (by decide)).disk unchecked) ⟨none, none, some 7⟩
      = .ok s := ⟨_, rfl⟩
  obtain ⟨t, ht, hwhole, -⟩ := agrees_of_buffers hopen hs (mixedPair 1024 (by decide)).files
    (some 0)
  obtain ⟨t', ht', hcut, -⟩ := agrees_of_buffers hopen hs cutPair (some 0)
  cases Except.ok.inj (ht.symm.trans ht')
  have hend : (s.total (mixedPair 1024 (by decide)).files).fault = none :=
    fault_eq_none_of_aligned (chained_of_open hopen) (complete_mixedPair 1024 (by decide)) hs
      ((mixedPair 1024 (by decide)).sectorSize_dvd ⟨2, rfl⟩ ⟨2, rfl⟩)
  have hrange : min (RangeRequest.stop ⟨none, none, some 7⟩
      ((mixedPair 1024 (by decide)).disk unchecked).flattenedLength)
      ((mixedPair 1024 (by decide)).disk unchecked).size = 1024 := DraftPair.min_stop_whole _
  have hfail : (s.total cutPair).fault ≠ none := by
    have hy := @yields_of_fittingBlocks _ cutPair _ _ (chained_of_open hopen).hasFittingBlocks hs
    rw [hrange] at hy
    exact fun hn => not_readable_cutPair (hy.fault_iff.mp hn)
  refine ⟨s, t, hs, ht, ?_, hfail, ?_⟩
  · obtain ⟨-, -, heq⟩ | ⟨hne, -⟩ := hwhole
    · exact heq
    · exact absurd hend hne
  · obtain ⟨hn, -⟩ | ⟨-, hne, -⟩ := hcut
    · exact absurd hn hfail
    · exact hne

end DiskStream

end VirtualDisk
