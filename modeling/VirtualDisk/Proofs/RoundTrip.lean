import VirtualDisk.Proofs.Slices
import VirtualDisk.Proofs.FixedFooter

namespace VirtualDisk

namespace Level

variable {files : Files} {options : OpenOptions} {path : Path} {place : Place} {level : Level}
  {footer : Footer}

/-- What opening finds at the end of an image, and what it makes of it. -/
structure HasFooter (level : Level) (options : OpenOptions) : Prop where
  ofSector_eq : Footer.ofSector level.footer.raw = .ok level.footer
  flattened_eq : level.flattenedFooter = level.footer.toFixed options.creator
  isIntact : options.verifyChecksums = true → level.footer.isIntact = true

theorem hasFooter_of_read (h : Level.read files options path = .ok level) :
    level.HasFooter options := by
  obtain ⟨place, footer, sparse, -, hfooter, hintact, -, rfl⟩ := Level.read_eq_ok h
  constructor
  · unfold lastFooter Footer.parse at hfooter
    split at hfooter
    · cases hfooter
    · split at hfooter
      · rwa [(Footer.reads_of_ofSector hfooter).raw_eq]
      · cases hfooter
  · rfl
  · intro hv
    rw [OpenOptions.checkIntact, hv, Bool.true_and] at hintact
    split at hintact
    · cases hintact
    · next hi => simpa using hi

def ofFixed (options : OpenOptions) (path : Path) (place : Place) (footer : Footer) : Level where
  path
  place
  options
  footer
  flattenedFooter := footer
  sparse := none
  attempts := []

theorem open_ofFixed (hp : files.openFile path = .ok place)
    (hf : lastFooter (files.contents place) = .ok footer) (ht : footer.diskType = .fixed)
    (hi : options.verifyChecksums = true → footer.isIntact = true)
    (hflat : footer.toFixed options.creator = footer)
    (hsize : footer.flattenedLength ≤ (files.contents place).size) :
    Disk.open files options path = .ok ⟨ofFixed options path place footer, []⟩ := by
  have hintact : options.checkIntact footer.isIntact "footer" path = .ok () := by
    apply if_neg
    rw [Bool.and_eq_true, Bool.not_eq_true']
    rintro ⟨hv, hn⟩
    rw [hi hv] at hn
    cases hn
  have hlayout : readLayout options path (files.contents place) footer = .ok none := by
    unfold readLayout
    rw [ht]
    exact if_neg (Nat.not_lt.mpr hsize)
  have hread : Level.read files options path = .ok (ofFixed options path place footer) := by
    refine bind_eq_ok.mpr ⟨_, hp, bind_eq_ok.mpr ⟨_, hf, bind_eq_ok.mpr ⟨_, hintact,
      bind_eq_ok.mpr ⟨_, hlayout, ?_⟩⟩⟩⟩
    rw [hflat]
    rfl
  have hdiff : (ofFixed options path place footer).isDifferencing = false := by
    simp [isDifferencing, ofFixed, ht]
  rw [Disk.open, Disk.openWithin, bind_eq_ok]
  refine ⟨_, hread, ?_⟩
  rw [hdiff]
  rfl

end Level

variable {files files' : Files} {options : OpenOptions} {path path' : Path} {place : Place}
  {level : Level} {ancestors chain : List Level}

theorem Chained.hasFooter (h : Chained files options (level :: ancestors)) :
    level.HasFooter options := by
  cases h with
  | base hr _ => exact Level.hasFooter_of_read hr
  | child hr _ _ _ =>
    have hread := Level.hasFooter_of_read hr
    exact ⟨hread.ofSector_eq, hread.flattened_eq, hread.isIntact⟩

section image

variable {image : ByteArray}

/-- A file with the bytes of a flattened chain. -/
def IsImage (files : Files) (chain : List Level) (image : ByteArray) : Prop :=
  (octets image).map some = span (flattened files chain) 0 (extent chain + Footer.size)

theorem IsImage.size_eq (h : IsImage files chain image) :
    image.size = extent chain + Footer.size := by
  have hlen := congrArg List.length h
  rwa [List.length_map, length_octets, length_span] at hlen

theorem IsImage.byteAt_eq (h : IsImage files chain image) {o : Nat}
    (ho : o < extent chain + Footer.size) : byteAt image o = flattened files chain o := by
  have hget := congrArg (·[o]?) h
  simp only [List.getElem?_map] at hget
  rw [getElem?_span (by omega), Nat.zero_add] at hget
  obtain ⟨b, hb, hf⟩ := Option.map_eq_some_iff.mp hget
  rw [byteAt, hb, hf]

theorem flattened_footer (top : Level) {o : Nat} :
    flattened files (top :: ancestors) (extent (top :: ancestors) + o)
      = byteAt top.flattenedFooter.bytes o := by
  rw [flattened, if_neg (by omega), Nat.add_sub_cancel_left]
  rfl

theorem IsImage.slice_eq (h : IsImage files (level :: ancestors) image) :
    slice image (image.size - Footer.size) Footer.size = packed level.flattenedFooter.raw := by
  apply octets_injective
  apply List.ext_getElem?
  intro i
  rw [h.size_eq, Nat.add_sub_cancel, octets_slice, List.getElem?_take]
  split
  · next hi =>
    rw [List.getElem?_drop]
    exact (h.byteAt_eq (Nat.add_lt_add_left hi _)).trans (flattened_footer level)
  · next hi =>
    rw [List.getElem?_eq_none]
    rw [length_octets, size_packed]
    exact Nat.le_of_not_lt hi

theorem IsImage.lastFooter_eq (h : IsImage files (level :: ancestors) image) :
    lastFooter image = Footer.ofSector level.flattenedFooter.raw :=
  lastFooter_of_slice (h.size_eq ▸ Nat.le_add_left _ _) h.slice_eq

theorem IsImage.flattened_ofFixed {flat : Footer}
    (h : IsImage files (level :: ancestors) (files'.contents place))
    (hf : level.footer.IsFlattened flat options.creator)
    (hflat : level.flattenedFooter = level.footer.toFixed options.creator) {o : Nat}
    (ho : o < extent (level :: ancestors) + Footer.size) :
    flattened files' [Level.ofFixed options path place flat] o
      = byteAt (files'.contents place) o := by
  have hextent : extent [Level.ofFixed options path place flat] = extent (level :: ancestors) :=
    hf.currentSize_eq
  by_cases hlt : o < extent (level :: ancestors)
  · rw [flattened, hextent, if_pos hlt, content_cons, Level.byte_of_fixed _ _ rfl]
    rfl
  · have hraw : flat.bytes = level.flattenedFooter.bytes := by
      rw [Footer.bytes, Footer.bytes, hf.raw_eq, hflat]
    obtain ⟨k, rfl⟩ := Nat.exists_eq_add_of_le (Nat.not_lt.mp hlt)
    rw [h.byteAt_eq ho, flattened_footer, ← hextent, flattened_footer, ← hraw]
    rfl

end image

namespace DiskStream

variable {d : Disk} {buffer? : Option Nat} {w : DiskStream d}

theorem isImage_of_whole {image : ByteArray} (h : Chained files options d.levels)
    (hw : d.stream ⟨none, none, buffer?⟩ = .ok w) (hend : (w.total files).fault = none)
    (hc : octets image = (w.total files).bytes) : IsImage files d.levels image := by
  rw [IsImage, hc]
  exact (yields h hw).complete hend

/-- The stream of the whole file, opened as a fixed image, is the file. -/
theorem total_ofFixed {flat : Footer} (ho : Disk.open files' options path
      = .ok ⟨Level.ofFixed options path place flat, []⟩)
    (hi : IsImage files (level :: ancestors) (files'.contents place))
    (hf : level.footer.IsFlattened flat options.creator)
    (hflat : level.flattenedFooter = level.footer.toFixed options.creator)
    {w : DiskStream ⟨Level.ofFixed options path place flat, []⟩}
    (hw : Disk.stream ⟨Level.ofFixed options path place flat, []⟩ ⟨none, none, none⟩ = .ok w) :
    w.total files' = ⟨octets (files'.contents place), none⟩ := by
  have hy := yields (chained_of_open ho) hw
  have hsize : Disk.flattenedLength ⟨Level.ofFixed options path place flat, []⟩
      = extent (level :: ancestors) + Footer.size := congrArg (· + Footer.size) hf.currentSize_eq
  have hstop : RangeRequest.stop ⟨none, none, none⟩
      (Disk.flattenedLength ⟨Level.ofFixed options path place flat, []⟩)
        = extent (level :: ancestors) + Footer.size := hsize
  rw [hstop] at hy
  have hend : (w.total files').fault = none := by
    apply hy.fault_iff.mpr
    change Level.Readable _ _ _ _ _ _
    rw [Level.readable_of_fixed _ _ rfl]
    intro _
    exact hi.size_eq ▸ Nat.min_le_left _ _
  have hbytes : (w.total files').bytes = octets (files'.contents place) := by
    apply (List.map_inj_right fun _ _ => Option.some.inj).mp
    rw [hy.complete hend, hi]
    apply span_congr
    intro o _ ho
    exact (hi.flattened_ofFixed hf hflat ho).trans (hi.byteAt_eq ho)
  rw [← hend, ← hbytes]

/-- If the stream of a whole disk comes to its end, a file with its bytes opens as a
fixed disk with the same identifier and size, and each range that can be asked of the
disk has the same bytes there. Unless the disk was fixed, the checksum is right. -/
theorem opens_flattened (ho : Disk.open files options path = .ok d)
    (hw : d.stream ⟨none, none, buffer?⟩ = .ok w) (hend : (w.total files).fault = none)
    (hp : files'.openFile path' = .ok place)
    (hc : octets (files'.contents place) = (w.total files).bytes) :
    ∃ d', Disk.open files' options path' = .ok d' ∧ d'.top.footer.diskType = .fixed ∧
      d'.depth = 1 ∧ d'.top.footer.uniqueId = d.top.footer.uniqueId ∧ d'.size = d.size ∧
      (∀ request s, d.stream request = .ok s →
        ∃ s', d'.stream request = .ok s' ∧ s'.total files' = s.total files) ∧
      (∀ w', d'.stream ⟨none, none, none⟩ = .ok w' →
        w'.total files' = ⟨octets (files'.contents place), none⟩) ∧
      (d.top.footer.diskType ≠ .fixed →
        ∃ strict, Disk.open files' { options with verifyChecksums := true } path'
          = .ok strict) := by
  have h := chained_of_open ho
  have hfooter := h.hasFooter
  have hi := isImage_of_whole h hw hend hc
  obtain ⟨flat, hsector, hf⟩ := Footer.ofSector_toFixed hfooter.ofSector_eq options.creator
  have hlast : lastFooter (files'.contents place) = .ok flat := by
    rw [hi.lastFooter_eq, hfooter.flattened_eq, hsector]
  have hsize : flat.flattenedLength ≤ (files'.contents place).size := by
    rw [hi.size_eq]
    exact Nat.le_of_eq (congrArg (· + Footer.size) hf.currentSize_eq)
  have hintact : options.verifyChecksums = true → flat.isIntact = true := by
    intro hv
    by_cases ht : d.top.footer.diskType = .fixed
    · rw [hf.eq_of_fixed ht]
      exact hfooter.isIntact hv
    · exact hf.isIntact ht
  have hopen := Level.open_ofFixed hp hlast hf.type_eq hintact hf.toFixed_eq hsize
  have hwhole {w' : DiskStream ⟨Level.ofFixed options path' place flat, []⟩} (hw') :=
    @total_ofFixed files files' options path' place d.top d.ancestors flat hopen hi hf
      hfooter.flattened_eq w' hw'
  refine ⟨_, hopen, hf.type_eq, rfl, hf.uniqueId_eq, hf.currentSize_eq, ?_, fun _ => hwhole, ?_⟩
  · intro request s hs
    obtain ⟨w', hw'⟩ := stream_whole ⟨Level.ofFixed options path' place flat, []⟩
    obtain ⟨s', hs'⟩ := @stream_of_aligned request ⟨Level.ofFixed options path' place flat, []⟩
      (stream_eq_ok_iff.mp hs).1
    have hD : w.total files = ⟨octets (files'.contents place), none⟩ := by rw [← hend, hc]
    refine ⟨s', hs', ?_⟩
    rw [total_eq_slice h hw hD hs, total_eq_slice (chained_of_open hopen) hw' (hwhole hw') hs']
  · intro ht
    exact ⟨_, @Level.open_ofFixed files' { options with verifyChecksums := true } path' place flat
      hp hlast hf.type_eq (fun _ => hf.isIntact ht) hf.toFixed_eq hsize⟩

def oneFile (contents : ByteArray) : Files :=
  FileTree.host ⟨[], [], [([['f']], contents)]⟩

/-- A pair of a differencing disk and its parent is written out as one image. -/
theorem opens_flattened_mixedPair :
    ∃ (w : DiskStream ((mixedPair 1024 (by decide)).disk unchecked)) (d' : Disk),
      Disk.stream ((mixedPair 1024 (by decide)).disk unchecked) ⟨none, none, none⟩ = .ok w ∧
      Disk.open (oneFile ⟨(w.total (mixedPair 1024 (by decide)).files).bytes.toArray⟩)
        unchecked ⟨"f"⟩
          = .ok d' ∧
      d'.top.footer.diskType = .fixed ∧ d'.depth = 1 ∧ d'.size = 1024 := by
  obtain ⟨w, hw⟩ := stream_whole ((mixedPair 1024 (by decide)).disk unchecked)
  have hp : (oneFile ⟨(w.total (mixedPair 1024 (by decide)).files).bytes.toArray⟩).openFile ⟨"f"⟩
      = .ok [['f']] := rfl
  obtain ⟨d', hopen, htype, hdepth, -, hsize, -⟩ :=
    opens_flattened ((mixedPair 1024 (by decide)).open_disk rfl) hw (fault_mixedPair hw) hp rfl
  exact ⟨w, d', hw, hopen, htype, hdepth, hsize⟩

end DiskStream

end VirtualDisk
