import VirtualDisk.FileTree
import VirtualDisk.Stream.DiskStream
import VirtualDisk.Proofs.Draft
import VirtualDisk.Proofs.Coverage
import VirtualDisk.Proofs.FixedFooter
import VirtualDisk.Proofs.Readability

namespace VirtualDisk

def Files.pair (child base : ByteArray) : Files :=
  FileTree.host ⟨[], [], [([['c']], child), ([['b']], base)]⟩

section pair

variable (child base : ByteArray)

theorem openFile_child : (Files.pair child base).openFile ⟨"c"⟩ = .ok [['c']] := rfl

theorem openFile_base : (Files.pair child base).openFile ⟨"b"⟩ = .ok [['b']] := rfl

theorem holds_base : (Files.pair child base).Holds ⟨"b"⟩ [['b']] := ⟨rfl, rfl⟩

theorem contents_child : (Files.pair child base).contents [['c']] = child := rfl

theorem contents_base : (Files.pair child base).contents [['b']] = base := rfl

end pair

theorem outcome_of_holds {files : Files} {expected : UniqueId} {candidate : Path} {place : Place}
    (h : files.Holds candidate place) :
    ParentSearch.outcome files expected candidate
      = match lastFooter (files.contents place) with
        | .error e => .unreadable e.text
        | .ok footer =>
          if footer.uniqueId = expected then .accepted else .mismatch footer.uniqueId := by
  have hpeek : ParentSearch.peek files candidate
      = lastFooter (files.contents place) >>= fun footer => pure footer.uniqueId := by
    rw [ParentSearch.peek, h.opens]
    rfl
  rw [ParentSearch.outcome, h.isFile, if_pos rfl, hpeek]
  cases lastFooter (files.contents place) with
  | error e => rfl
  | ok footer => rfl

theorem outcome_eq_accepted {files : Files} {expected : UniqueId} {candidate : Path}
    {place : Place} {footer : Footer} (hp : files.Holds candidate place)
    (hf : lastFooter (files.contents place) = .ok footer) (hid : footer.uniqueId = expected) :
    ParentSearch.outcome files expected candidate = .accepted := by
  simp only [outcome_of_holds hp, hf, hid, if_true]

theorem find_of_first {files : Files} {child candidate : Path} {header : SparseHeader}
    {more : List Path}
    (hl : ParentSearch.listed child header.parentName header.locators = candidate :: more)
    (ho : ParentSearch.outcome files header.parentId candidate = .accepted) :
    ParentSearch.find files child header = .ok (candidate, [⟨candidate, .accepted⟩]) := by
  rw [ParentSearch.find, ParentSearch.candidates, hl, ParentSearch.distinct, ParentSearch.attempt]
  simp only [ho, if_true]

def filled (n : Nat) (x : UInt8) : ByteArray := ⟨Array.replicate n x⟩

@[simp] theorem size_filled (n : Nat) (x : UInt8) : (filled n x).size = n := Array.size_replicate

theorem byteAt_filled {n o : Nat} (x : UInt8) (h : o < n) : byteAt (filled n x) o = some x := by
  simp [byteAt, filled, octets, h]

def storedName : Vector UInt8 512 :=
  ⟨(0x00 :: 0x62 :: List.replicate 510 0).toArray, by
    rw [List.size_toArray, List.length_cons, List.length_cons, List.length_replicate]⟩

theorem nameOf_storedName : SparseHeader.nameOf storedName.toList = "b" := rfl

def baseId : UniqueId := ⟨Vector.replicate 16 0⟩

def childId : UniqueId := ⟨Vector.replicate 16 1⟩

namespace Draft

def oneSector : BlockSize := ⟨512, ⟨9, rfl⟩, by decide, by decide⟩

def twoSectors : BlockSize := ⟨1024, ⟨10, rfl⟩, by decide, by decide⟩

theorem isSparse_dynamic : DiskType.dynamic = .dynamic ∨ DiskType.dynamic = .differencing :=
  .inl rfl

theorem isSparse_differencing :
    DiskType.differencing = .dynamic ∨ DiskType.differencing = .differencing := .inr rfl

theorem twoSectors_le_safeNumber : 1024 ≤ Limits.safeNumber := by decide

theorem twoSectors_le_block : 1024 ≤ 1024 := Nat.le_refl 1024

theorem oneEntry_le : 1 * 4 ≤ Limits.allocation := by decide

def withSums (d : Draft) (footerSum headerSum : UInt32) : Draft := { d with footerSum, headerSum }

section withSums

variable (d : Draft) (footerSum headerSum : UInt32)

theorem type_withSums : (d.withSums footerSum headerSum).type = d.type := rfl

theorem id_withSums : (d.withSums footerSum headerSum).id = d.id := rfl

theorem parentId_withSums : (d.withSums footerSum headerSum).parentId = d.parentId := rfl

theorem parentName_withSums : (d.withSums footerSum headerSum).parentName = d.parentName := rfl

theorem footerSector_withSums : (d.withSums footerSum headerSum).footerSector
    = overwrite d.footerFields 64 (numberBytes 4 footerSum.toNat) := rfl

theorem headerBlock_withSums : (d.withSums footerSum headerSum).headerBlock
    = overwrite d.headerFields 36 (numberBytes 4 headerSum.toNat) := rfl

end withSums

/-- The image with the checksums that it should have. -/
def summed (d : Draft) : Draft :=
  d.withSums (checksum d.footerFields 64) (checksum d.headerFields 36)

theorem isIntact_footer_summed (d : Draft) : d.summed.footer.isIntact = true :=
  Footer.isIntact_of_raw (d.footerSector_withSums _ _)

theorem isIntact_header (d : Draft) :
    d.header.isIntact = true ↔ checksum d.headerBlock 36 = d.headerSum := beq_iff_eq

theorem isIntact_header_summed (d : Draft) : d.summed.header.isIntact = true := by
  rw [isIntact_header, summed, headerBlock_withSums, checksum_overwrite]
  rfl

variable (type : DiskType) (h : type = .dynamic ∨ type = .differencing) (id : UniqueId)

/-- An image that stores the one block of its disk, which is filled with `x`. The
bitmap of the block starts with `bits`. -/
def oneBlock (size : Nat) (hs : size ≤ 1024) (bits x : UInt8) : Draft where
  type
  isSparse := h
  id
  size
  size_le := Nat.le_trans hs (by decide)
  blockSize := twoSectors
  entries := #[3]
  entries_le := by decide
  blocks := filled 508 0 ++ (filled 1 bits ++ (filled 511 0 ++ filled 1024 x))
  parentId := baseId
  parentName := storedName

def noBlock (size : Nat) (hs : size ≤ Limits.safeNumber) (blockSize : BlockSize) (count : Nat)
    (hc : count * 4 ≤ Limits.allocation) : Draft where
  type
  isSparse := h
  id
  size
  size_le := hs
  blockSize
  entries := Array.replicate count BlockTable.unused
  entries_le := by rwa [Array.size_replicate]
  blocks := ByteArray.empty
  parentId := baseId
  parentName := storedName

variable {type h id}

section noBlock

variable {size count : Nat} (hs : size ≤ Limits.safeNumber) {blockSize : BlockSize}
  (hc : count * 4 ≤ Limits.allocation)

theorem length_noBlock : (noBlock type h id size hs blockSize count hc).table.length = count :=
  Array.size_replicate

theorem sector?_noBlock (index : Nat) :
    (noBlock type h id size hs blockSize count hc).table.sector? index = none := by
  simp only [BlockTable.sector?, table, noBlock, Array.getElem?_replicate]
  split
  · next entry he =>
    split at he
    · cases he
      rfl
    · cases he
  · rfl

theorem isPresent_noBlock (index : Nat) :
    (noBlock type h id size hs blockSize count hc).table.isPresent index = false := by
  rw [BlockTable.isPresent, sector?_noBlock]
  rfl

theorem within_noBlock : (noBlock type h id size hs blockSize count hc).table.Within
    (noBlock type h id size hs blockSize count hc).file := by
  constructor
  · intro index start hb
    rw [BlockTable.bitmapOffset?, sector?_noBlock] at hb
    cases hb
  · intro index start hd
    rw [BlockTable.dataOffset?, sector?_noBlock] at hd
    cases hd

end noBlock

section oneBlock

variable {size : Nat} (hs : size ≤ 1024) {bits x : UInt8}

theorem sector?_oneBlock (index : Nat) :
    (oneBlock type h id size hs bits x).table.sector? index
      = if index = 0 then some 3 else none := by
  cases index with
  | zero => rfl
  | succ index => rfl

theorem isPresent_oneBlock {index : Nat} :
    (oneBlock type h id size hs bits x).table.isPresent index = true ↔ index = 0 := by
  rw [BlockTable.isPresent, sector?_oneBlock]
  split <;> simp_all

theorem byteAt_oneBlock {o : Nat} (ho : o < 2044) :
    byteAt (oneBlock type h id size hs bits x).file (1028 + o)
      = byteAt (filled 508 0 ++ (filled 1 bits ++ (filled 511 0 ++ filled 1024 x))) o := by
  apply byteAt_file
  simp only [oneBlock, ByteArray.size_append, size_filled]
  exact ho

theorem bitmapSize_oneBlock : (oneBlock type h id size hs bits x).table.bitmapSize = 1 := by
  simp only [BlockTable.bitmapSize, table, oneBlock, twoSectors, sectorSize]

theorem bitmapSectors_oneBlock : (oneBlock type h id size hs bits x).table.bitmapSectors = 1 := by
  rw [BlockTable.bitmapSectors, bitmapSize_oneBlock]
  rfl

theorem dataOffset?_oneBlock {index start : Nat}
    (hd : (oneBlock type h id size hs bits x).table.dataOffset? index = some start) :
    index = 0 ∧ start = 2048 := by
  rw [BlockTable.dataOffset?, sector?_oneBlock, bitmapSectors_oneBlock] at hd
  split at hd
  · next hi =>
    cases hd
    exact ⟨hi, rfl⟩
  · cases hd

theorem within_oneBlock : (oneBlock type h id size hs bits x).table.Within
    (oneBlock type h id size hs bits x).file := by
  have hsize : (oneBlock type h id size hs bits x).file.size = 3584 := by
    rw [size_file]
    simp only [oneBlock, ByteArray.size_append, size_filled]
    rfl
  constructor
  · intro index start hb
    rw [BlockTable.bitmapOffset?, sector?_oneBlock] at hb
    split at hb
    · cases hb
      rw [hsize, bitmapSize_oneBlock]
      decide
    · cases hb
  · intro index start hd
    obtain ⟨-, rfl⟩ := dataOffset?_oneBlock hs hd
    have hblock : (oneBlock type h id size hs bits x).table.blockSize = 1024 := rfl
    rw [hsize, hblock]
    decide

variable {o : Nat}

theorem blockOf_oneBlock (ho : o < 1024) :
    (oneBlock type h id size hs bits x).table.blockOf o = 0 := Nat.div_eq_of_lt ho

theorem ownByte_oneBlock (ho : o < 1024) :
    (oneBlock type h id size hs bits x).table.ownByte (oneBlock type h id size hs bits x).file o
      = some x := by
  have hphysical : (oneBlock type h id size hs bits x).table.physical? o
      = some (1028 + (1020 + o)) := by
    have hmod : (oneBlock type h id size hs bits x).table.withinBlock o = o := Nat.mod_eq_of_lt ho
    have hdata : (oneBlock type h id size hs bits x).table.dataOffset? 0 = some 2048 := by
      rw [BlockTable.dataOffset?, sector?_oneBlock, bitmapSectors_oneBlock]
      rfl
    rw [BlockTable.physical?, blockOf_oneBlock hs ho, hmod, hdata, Option.map_some]
    congr 1
    omega
  rw [BlockTable.ownByte, hphysical, Option.bind_some, byteAt_oneBlock hs (by omega)]
  simp only [byteAt_append, size_filled]
  rw [if_neg (by omega), if_neg (by omega), if_neg (by omega), byteAt_filled]
  omega

theorem ownBit_oneBlock (ho : o < 1024) :
    (oneBlock type h id size hs bits x).table.ownBit (oneBlock type h id size hs bits x).file o
      = some (bits.toNat.testBit (7 - o / 512)) := by
  have hmod : (oneBlock type h id size hs bits x).table.withinBlock o = o := Nat.mod_eq_of_lt ho
  have hstart : (oneBlock type h id size hs bits x).table.bitmapOffset? 0 = some 1536 := by
    rw [BlockTable.bitmapOffset?, sector?_oneBlock]
    rfl
  have hbyte : byteAt (oneBlock type h id size hs bits x).file (1536 + o / 512 / 8)
      = some bits := by
    rw [show 1536 + o / 512 / 8 = 1028 + 508 by omega, byteAt_oneBlock hs (by omega)]
    simp only [byteAt_append, size_filled]
    rw [if_neg (by omega), if_pos (by omega), byteAt_filled _ (by omega)]
  rw [BlockTable.ownBit, blockOf_oneBlock hs ho, hstart, Option.bind_some, bitAt, hmod]
  rw [show o / sectorSize = o / 512 from rfl, hbyte, Option.map_some,
    show o / 512 % 8 = o / 512 by omega]

end oneBlock

end Draft

theorem Draft.find_named {child base : Draft} {files : Files} {place : Place} {path : Path}
    (hname : SparseHeader.nameOf child.parentName.toList = "b") (hid : child.parentId = base.id)
    (hfile : files.Holds ⟨"b"⟩ place) (hcontents : files.contents place = base.file) :
    ParentSearch.find files path child.header = .ok (⟨"b"⟩, [⟨⟨"b"⟩, .accepted⟩]) := by
  have hparent : child.header.parentName = "b" := hname
  have hlisted : ∃ more, ParentSearch.listed path child.header.parentName
      child.header.locators = ⟨"b"⟩ :: more := by
    unfold ParentSearch.listed
    rw [hparent, ParentLocator.texts_of_isEmpty child.isEmpty_locators,
      ParentLocator.texts_of_isEmpty child.isEmpty_locators]
    exact ⟨_, rfl⟩
  obtain ⟨more, hmore⟩ := hlisted
  have hbase : base.footer.uniqueId = child.header.parentId := hid.symm
  have hfooter : lastFooter (files.contents place) = .ok base.footer := by
    rw [hcontents]
    exact base.lastFooter_file
  exact find_of_first hmore (outcome_eq_accepted hfile hfooter hbase)

/-- A differencing image and its parent, to be written beside each other. -/
structure DraftPair where
  child : Draft
  base : Draft
  child_type : child.type = .differencing
  base_type : base.type = .dynamic
  id_eq : child.parentId = base.id
  name_eq : SparseHeader.nameOf child.parentName.toList = "b"

namespace DraftPair

/-- The pair with the checksums that its images should have. -/
def summed (p : DraftPair) : DraftPair where
  child := p.child.summed
  base := p.base.summed
  child_type := (p.child.type_withSums _ _).trans p.child_type
  base_type := (p.base.type_withSums _ _).trans p.base_type
  id_eq := (p.child.parentId_withSums _ _).trans (p.id_eq.trans (p.base.id_withSums _ _).symm)
  name_eq := by
    rw [Draft.summed, Draft.parentName_withSums]
    exact p.name_eq

variable (p : DraftPair) {options : OpenOptions}

def files : Files := Files.pair p.child.file p.base.file

def baseLevel (options : OpenOptions) : Level := p.base.level options ⟨"b"⟩ [['b']]

def disk (options : OpenOptions) : Disk :=
  Disk.above { p.child.level options ⟨"c"⟩ [['c']] with attempts := [⟨⟨"b"⟩, .accepted⟩] }
    ⟨p.baseLevel options, []⟩

theorem find_base : ParentSearch.find p.files ⟨"c"⟩ p.child.header
    = .ok (⟨"b"⟩, [⟨⟨"b"⟩, .accepted⟩]) :=
  Draft.find_named p.name_eq p.id_eq (holds_base _ _) (contents_base _ _)

theorem openWithin_base (room : Nat) (hv : options.verifyChecksums = false) :
    Disk.openWithin p.files options (room + 1) ⟨"b"⟩ = .ok ⟨p.baseLevel options, []⟩ := by
  have hread : Level.read p.files options ⟨"b"⟩ = .ok (p.baseLevel options) :=
    Draft.read_level hv (openFile_base _ _) (contents_base _ _)
  apply openWithin_of_base hread
  simp [Level.parentHeader?, Level.isDifferencing, baseLevel, Draft.level, Draft.footer,
    p.base_type]

theorem openWithin_child (room : Nat) (hv : options.verifyChecksums = false) :
    Disk.openWithin p.files options (room + 2) ⟨"c"⟩ = .ok (p.disk options) := by
  have hread : Level.read p.files options ⟨"c"⟩ = .ok (p.child.level options ⟨"c"⟩ [['c']]) :=
    Draft.read_level hv (openFile_child _ _) (contents_child _ _)
  have hheader : (p.child.level options ⟨"c"⟩ [['c']]).parentHeader? = some p.child.header := by
    refine parentHeader?_eq_some.mpr ⟨?_, p.child.layout, rfl, rfl⟩
    simp [Level.isDifferencing, Draft.level, Draft.footer, p.child_type]
  refine (openWithin_of_header hread hheader).trans (bind_eq_ok.mpr ⟨_, p.find_base, ?_⟩)
  exact map_eq_ok.mpr ⟨_, p.openWithin_base room hv, rfl⟩

theorem open_disk (hv : options.verifyChecksums = false) :
    Disk.open p.files options ⟨"c"⟩ = .ok (p.disk options) :=
  p.openWithin_child 63 hv

def childLayout (options : OpenOptions) : SparseLayout :=
  { p.child.layout with
    coverage := Coverage.compute p.child.table.indices p.child.table.length
      (p.baseLevel options).coverageForChild }

theorem complete (hc : p.child.table.Within p.child.file) (hb : p.base.table.Within p.base.file) :
    Complete p.files (p.disk options).levels := by
  intro level hm layout hl
  rcases List.mem_cons.mp hm with rfl | hm
  · have hlayout : some (p.childLayout options) = some layout := hl
    cases hlayout
    exact (contents_child p.child.file p.base.file).symm ▸ hc
  · rw [List.mem_singleton.mp hm] at hl ⊢
    have hlayout : some p.base.layout = some layout := hl
    cases hlayout
    exact (contents_base p.child.file p.base.file).symm ▸ hb

theorem isDifferencing_top (options : OpenOptions) :
    (p.disk options).top.isDifferencing = true := by
  simp [Level.isDifferencing, disk, Disk.above, Level.above, Draft.level, Draft.footer,
    p.child_type]

theorem chained_disk (hv : options.verifyChecksums = false) :
    Chained p.files options (p.disk options).levels :=
  chained_of_open (p.open_disk hv)

theorem sectorSize_dvd (hc : sectorSize ∣ p.child.size) (hb : sectorSize ∣ p.base.size) :
    ∀ level ∈ (p.disk options).levels, sectorSize ∣ level.footer.currentSize := by
  intro level hm
  rcases List.mem_cons.mp hm with rfl | hm
  · exact hc
  · rw [List.mem_singleton.mp hm]
    exact hb

theorem holds_base_iff (index : Nat) :
    (∃ l ∈ (p.disk options).ancestors, l.Holds index) ↔ p.base.table.isPresent index = true := by
  constructor
  · rintro ⟨l, hm, hl⟩
    rw [List.mem_singleton.mp hm] at hl
    exact hl
  · exact fun h => ⟨p.baseLevel options, List.mem_singleton.mpr rfl, h⟩

theorem sparse_top : (p.disk options).top.sparse = some (p.childLayout options) := rfl

theorem contents_top : p.files.contents (p.disk options).top.place = p.child.file :=
  contents_child _ _

theorem stop_whole : RangeRequest.stop ⟨none, none, none⟩ (p.disk options).flattenedLength
    = p.child.size + 512 := rfl

theorem size_disk : (p.disk options).size = p.child.size := rfl

theorem min_stop_whole : min (RangeRequest.stop ⟨none, none, none⟩ (p.disk options).flattenedLength)
    (p.disk options).size = p.child.size := by
  rw [stop_whole, size_disk]
  omega

theorem inherits_iff (hv : options.verifyChecksums = false) (index : Nat) :
    (p.childLayout options).inherits true index = true ↔ p.base.table.isPresent index = true := by
  rw [← p.holds_base_iff, SparseLayout.inherits, Bool.true_and]
  exact (p.chained_disk hv).mayBeInParent_iff (List.cons_ne_nil _ _) p.sparse_top index

variable {p} {o : Nat}

theorem blockSize_base {size : Nat} (h : p.base.table.blockSize = size) :
    ∀ l ∈ (p.disk options).ancestors, ∀ layout, l.sparse = some layout →
      layout.table.blockSize = size := by
  intro l hm layout hl
  rw [List.mem_singleton.mp hm] at hl
  cases hl
  exact h

theorem lt_stop_whole (ho : o < p.child.size) :
    o < RangeRequest.stop ⟨none, none, none⟩ (p.disk options).flattenedLength := by
  rw [stop_whole]
  omega

theorem inherited_ancestors (ho : o < p.base.size) :
    inherited p.files (p.disk options).ancestors o
      = p.base.layout.byte p.base.file false (fun _ => some 0) o := by
  have hsparse : (p.baseLevel options).sparse = some p.base.layout := rfl
  have hbelow : inherited p.files [] = fun _ => some 0 := by
    funext o
    rw [inherited, content, ite_self]
  change inherited p.files [p.baseLevel options] o = _
  rw [inherited, if_pos (show o < extent [p.baseLevel options] from ho), content_cons,
    Level.byte_of_sparse _ _ hsparse, hbelow]
  exact congrArg (p.base.layout.byte · false _ o) (contents_base p.child.file p.base.file)

theorem inherited_of_present (ho : o < p.base.size)
    (hlen : p.base.table.blockOf o < p.base.table.length)
    (hp : p.base.table.isPresent (p.base.table.blockOf o) = true) :
    inherited p.files (p.disk options).ancestors o = p.base.table.ownByte p.base.file o := by
  have htable : p.base.layout.table = p.base.table := rfl
  rw [inherited_ancestors ho]
  simp only [SparseLayout.byte, SparseLayout.inherits, htable, hp, if_neg (Nat.not_le.mpr hlen),
    Bool.false_and]

theorem inherited_of_oneBlock {type : DiskType} {h : type = .dynamic ∨ type = .differencing}
    {id : UniqueId} {size : Nat} (hs : size ≤ 1024) {bits x : UInt8}
    (hb : p.base = Draft.oneBlock type h id size hs bits x) (ho : o < size) :
    inherited p.files (p.disk options).ancestors o = some x := by
  have hlt : o < 1024 := Nat.lt_of_lt_of_le ho hs
  have hblock : p.base.table.blockOf o = 0 := hb ▸ Draft.blockOf_oneBlock hs hlt
  rw [inherited_of_present (hb ▸ ho)]
  · rw [hb]
    exact Draft.ownByte_oneBlock hs hlt
  · rw [hblock, hb]
    exact Nat.zero_lt_one
  · rw [hblock, hb]
    exact (Draft.isPresent_oneBlock hs).mpr rfl

theorem inherited_of_absent (hp : p.base.table.isPresent (p.base.table.blockOf o) = false) :
    inherited p.files (p.disk options).ancestors o = some 0 := by
  by_cases ho : o < p.base.size
  · have htable : p.base.layout.table = p.base.table := rfl
    rw [inherited_ancestors ho]
    simp only [SparseLayout.byte, SparseLayout.inherits, htable, hp, Bool.false_and, ite_self]
  · exact if_neg ho

end DraftPair

end VirtualDisk
