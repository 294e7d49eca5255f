import VirtualDisk.Proofs.Fields
import VirtualDisk.Proofs.Opened

namespace VirtualDisk

theorem slice_append_right (a b : ByteArray) : slice (a ++ b) a.size b.size = b := by
  apply octets_injective
  rw [octets_slice, octets_append, ← length_octets a, List.drop_left, ← length_octets b,
    List.take_length]

theorem slice_append_left (a b : ByteArray) : slice (a ++ b) 0 a.size = a := by
  apply octets_injective
  rw [octets_slice, octets_append, ← length_octets a, List.drop_zero, List.take_left]

theorem slice_append_middle (a b c : ByteArray) : slice (a ++ b ++ c) a.size b.size = b := by
  apply octets_injective
  rw [octets_slice, octets_append, octets_append, List.append_assoc, ← length_octets a,
    List.drop_left, ← length_octets b, List.take_left]

theorem byteAt_append (a b : ByteArray) (o : Nat) :
    byteAt (a ++ b) o = if o < a.size then byteAt a o else byteAt b (o - a.size) := by
  rw [byteAt, octets_append, ← length_octets a, List.getElem?_append]
  rfl

theorem vectorAt_packed {n : Nat} (v : Vector UInt8 n) (h : 0 + n ≤ (packed v).size) :
    vectorAt (packed v) 0 n h = v := by
  ext i hi
  simp [vectorAt, packed, ByteArray.getElem_eq_getElem_data]

theorem BlockSize.ofNat_bytes (s : BlockSize) : BlockSize.ofNat s.bytes = .ok s := by
  rw [BlockSize.ofNat, dif_pos s.isPowerOfTwo, dif_pos s.sectorSize_le, dif_pos s.le_limit]

namespace ParentLocator

theorem texts_of_isEmpty {locators : List ParentLocator} (h : ∀ l ∈ locators, l.isEmpty = true)
    (code : Vector UInt8 4) : SparseHeader.texts locators code = [] := by
  have hnone : locators.filter (fun l => !l.isEmpty && l.code == code) = [] := by
    rw [List.filter_eq_nil_iff]
    intro l hm
    simp [h l hm]
  rw [SparseHeader.texts, hnone]
  rfl

theorem loadAll_of_isEmpty {contents : ByteArray} {locators : List ParentLocator}
    (h : ∀ l ∈ locators, l.isEmpty = true) : loadAll contents locators = (locators, none) := by
  induction locators with
  | nil => rfl
  | cons l rest ih =>
    have hl : l.load contents = .ok l := by rw [load, if_pos (h l List.mem_cons_self)]
    rw [loadAll, hl, ih fun l hm => h l (List.mem_cons_of_mem _ hm)]

end ParentLocator

theorem lastFooter_of_slice {contents : ByteArray} {raw : Vector UInt8 512}
    (hsize : Footer.size ≤ contents.size)
    (h : slice contents (contents.size - Footer.size) Footer.size = packed raw) :
    lastFooter contents = Footer.ofSector raw := by
  have hle : Footer.size ≤ (packed raw).size := Nat.le_of_eq (size_packed raw).symm
  rw [lastFooter, if_neg (Nat.not_lt.mpr hsize), h, Footer.parse, dif_pos hle, vectorAt_packed]

/-- A sparse image that is to be written. -/
structure Draft where
  type : DiskType
  isSparse : type = .dynamic ∨ type = .differencing
  id : UniqueId
  size : Nat
  size_le : size ≤ Limits.safeNumber
  blockSize : BlockSize
  entries : Array UInt32
  entries_le : entries.size * 4 ≤ Limits.allocation
  blocks : ByteArray
  parentId : UniqueId
  parentName : Vector UInt8 512
  footerSum : UInt32 := 0
  headerSum : UInt32 := 0

namespace Draft

variable (d : Draft)

def footerFields : Vector UInt8 512 :=
  let blank := overwrite (Vector.replicate 512 0) 0 Footer.cookie
  let versioned := overwrite blank 12 (numberBytes 4 Footer.version.toNat)
  let sized := overwrite (overwrite versioned 40 (numberBytes 8 d.size)) 48 (numberBytes 8 d.size)
  overwrite (overwrite sized 60 (numberBytes 4 d.type.code)) 68 d.id.octets

def footerSector : Vector UInt8 512 :=
  overwrite d.footerFields 64 (numberBytes 4 d.footerSum.toNat)

def footer : Footer where
  features := 0
  dataOffset := some 0
  timestamp := 0
  creator := Vector.replicate 4 0
  creatorVersion := 0
  creatorSystem := 0
  initialSize := d.size
  currentSize := d.size
  geometry := Geometry.ofBytes (Vector.replicate 4 0)
  diskType := d.type
  convertedType := d.type
  checksum := d.footerSum
  uniqueId := d.id
  savedState := 0
  raw := d.footerSector

theorem ofSector_footerSector : Footer.ofSector d.footerSector = .ok d.footer := by
  have hsize : d.size < capacity 8 := Nat.lt_of_le_of_lt d.size_le (by decide)
  have hcode : d.type.code < capacity 4 := by cases d.type <;> decide
  have hcookie : field d.footerSector 0 8 = Footer.cookie := by
    simp (disch := omega) only [footerSector, footerFields, field_overwrite_of_disjoint,
      field_overwrite_self]
  have hversion : number d.footerSector 12 4 = Footer.version.toNat := by
    simp (disch := omega) only [footerSector, footerFields, number_overwrite_of_disjoint]
    exact number_overwrite_self _ (by decide)
  have htype : number d.footerSector 60 4 = d.type.code := by
    simp (disch := omega) only [footerSector, footerFields, number_overwrite_of_disjoint]
    exact number_overwrite_self _ hcode
  have hoffset : number d.footerSector 16 8 = 0 := by
    simp (disch := omega) only [footerSector, footerFields, number_overwrite_of_disjoint,
      number_replicate_zero]
  have hinitial : number d.footerSector 40 8 = d.size := by
    simp (disch := omega) only [footerSector, footerFields, number_overwrite_of_disjoint]
    exact number_overwrite_self _ hsize
  have hcurrent : number d.footerSector 48 8 = d.size := by
    simp (disch := omega) only [footerSector, footerFields, number_overwrite_of_disjoint]
    exact number_overwrite_self _ hsize
  have hid : field d.footerSector 68 16 = d.id.octets := by
    simp (disch := omega) only [footerSector, footerFields, field_overwrite_of_disjoint,
      field_overwrite_self]
  have hrequired (what : String) : StoredSize.required d.size what = .ok d.size := by
    have hle := d.size_le
    have hne : d.size ≠ StoredSize.absent := by
      unfold Limits.safeNumber at hle
      unfold StoredSize.absent
      omega
    rw [StoredSize.required, if_neg hne, StoredSize.checked, if_neg (Nat.not_lt.mpr hle)]
  have hcode? : DiskType.ofCode? d.type.code = some d.type := DiskType.ofCode?_eq_some_iff.mpr rfl
  have hsum : UInt32.ofNat (number d.footerSector 64 4) = d.footerSum := by
    rw [footerSector, number_overwrite_self _ d.footerSum.toNat_lt, UInt32.ofNat_toNat]
  have hblank : number d.footerSector 8 4 = 0 ∧ number d.footerSector 24 4 = 0 ∧
      number d.footerSector 32 4 = 0 ∧ number d.footerSector 36 4 = 0 := by
    simp (disch := omega) only [footerSector, footerFields, number_overwrite_of_disjoint,
      number_replicate_zero, and_self]
  have hcreator : field d.footerSector 28 4 = Vector.replicate 4 0 := by
    simp (disch := omega) only [footerSector, footerFields, field_overwrite_of_disjoint,
      field_replicate]
  have hgeometry : field d.footerSector 56 4 = Vector.replicate 4 0 := by
    simp (disch := omega) only [footerSector, footerFields, field_overwrite_of_disjoint,
      field_replicate]
  have hstate : d.footerSector[84] = 0 := by
    simp [footerSector, footerFields, getElem_overwrite]
  obtain ⟨hfeatures, htime, hcreatorVersion, hsystem⟩ := hblank
  unfold Footer.ofSector
  simp only [hcookie, hversion, htype, hoffset, hinitial, hcurrent, hid, hrequired, hcode?,
    hfeatures, htime, hcreatorVersion, hsystem, hsum, hcreator, hgeometry, hstate]
  rfl

def headerFields : Vector UInt8 1024 :=
  let blank := overwrite (Vector.replicate 1024 0) 0 SparseHeader.cookie
  let placed := overwrite blank 16 (numberBytes 8 1024)
  let counted := overwrite placed 28 (numberBytes 4 d.entries.size)
  let sized := overwrite counted 32 (numberBytes 4 d.blockSize.bytes)
  overwrite (overwrite sized 40 d.parentId.octets) 64 d.parentName

def headerBlock : Vector UInt8 1024 :=
  overwrite d.headerFields 36 (numberBytes 4 d.headerSum.toNat)

theorem length_locators : (List.ofFn (SparseHeader.locatorAt d.headerBlock)).length = 8 :=
  List.length_ofFn

def header : SparseHeader where
  dataOffset := some 0
  tableOffset := 1024
  version := 0
  tableLength := d.entries.size
  blockSize := d.blockSize
  checksum := d.headerSum
  parentId := d.parentId
  parentTimestamp := 0
  parentName := SparseHeader.nameOf d.parentName.toList
  locators := List.ofFn (SparseHeader.locatorAt d.headerBlock)
  length_locators := d.length_locators
  raw := d.headerBlock

theorem ofBlock_headerBlock : SparseHeader.ofBlock d.headerBlock = .ok d.header := by
  have hentries : d.entries.size < capacity 4 := by
    have hle := Nat.le_trans (Nat.le_mul_of_pos_right d.entries.size (by decide)) d.entries_le
    exact Nat.lt_of_le_of_lt hle (by decide)
  have hblock : d.blockSize.bytes < capacity 4 :=
    Nat.lt_of_le_of_lt d.blockSize.le_limit (by decide)
  have hcookie : field d.headerBlock 0 8 = SparseHeader.cookie := by
    simp (disch := omega) only [headerBlock, headerFields, field_overwrite_of_disjoint,
      field_overwrite_self]
  have hoffset : number d.headerBlock 8 8 = 0 := by
    simp (disch := omega) only [headerBlock, headerFields, number_overwrite_of_disjoint,
      number_replicate_zero]
  have htable : number d.headerBlock 16 8 = 1024 := by
    simp (disch := omega) only [headerBlock, headerFields, number_overwrite_of_disjoint]
    exact number_overwrite_self _ (by decide)
  have hlength : number d.headerBlock 28 4 = d.entries.size := by
    simp (disch := omega) only [headerBlock, headerFields, number_overwrite_of_disjoint]
    exact number_overwrite_self _ hentries
  have hsize : number d.headerBlock 32 4 = d.blockSize.bytes := by
    simp (disch := omega) only [headerBlock, headerFields, number_overwrite_of_disjoint]
    exact number_overwrite_self _ hblock
  have hid : field d.headerBlock 40 16 = d.parentId.octets := by
    simp (disch := omega) only [headerBlock, headerFields, field_overwrite_of_disjoint,
      field_overwrite_self]
  have hname : field d.headerBlock 64 512 = d.parentName := by
    simp (disch := omega) only [headerBlock, headerFields, field_overwrite_of_disjoint,
      field_overwrite_self]
  have hsum : UInt32.ofNat (number d.headerBlock 36 4) = d.headerSum := by
    rw [headerBlock, number_overwrite_self _ d.headerSum.toNat_lt, UInt32.ofNat_toNat]
  have hblank : number d.headerBlock 24 4 = 0 ∧ number d.headerBlock 56 4 = 0 := by
    simp (disch := omega) only [headerBlock, headerFields, number_overwrite_of_disjoint,
      number_replicate_zero, and_self]
  obtain ⟨hversion, htime⟩ := hblank
  unfold SparseHeader.ofBlock
  simp only [hcookie, hoffset, htable, hlength, hsize, hid, hname, BlockSize.ofNat_bytes, hversion,
    hsum, htime]
  rfl

theorem parse_headerBlock : SparseHeader.parse (packed d.headerBlock) = .ok d.header := by
  have hle : SparseHeader.size ≤ (packed d.headerBlock).size := Nat.le_of_eq (size_packed _).symm
  rw [SparseHeader.parse, dif_pos hle, vectorAt_packed, ofBlock_headerBlock]

theorem isEmpty_locators : ∀ l ∈ d.header.locators, l.isEmpty = true := by
  intro l hl
  obtain ⟨k, rfl⟩ := List.mem_ofFn.mp hl
  have hfield : field d.headerBlock (576 + 24 * k.val) 24 (by omega) = Vector.replicate 24 0 := by
    simp (disch := omega) only [headerBlock, headerFields, field_overwrite_of_disjoint,
      field_replicate]
  rw [SparseHeader.locatorAt, hfield]
  rfl

def tableBytes : ByteArray :=
  ⟨Array.ofFn fun k : Fin (d.entries.size * 4) =>
    (numberBytes 4 d.entries[k.val / 4].toNat)[k.val % 4]⟩

def file : ByteArray :=
  packed d.headerBlock ++ d.tableBytes ++ d.blocks ++ packed d.footerSector

theorem size_tableBytes : d.tableBytes.size = d.entries.size * 4 := Array.size_ofFn

def table : BlockTable := ⟨d.entries, d.blockSize.bytes, d.blockSize.bytes_pos⟩

theorem lastFooter_file : lastFooter d.file = .ok d.footer := by
  have hsize : d.file.size = (packed d.headerBlock ++ d.tableBytes ++ d.blocks).size
      + Footer.size := by
    rw [file, ByteArray.size_append, size_packed]
    rfl
  have hslice : slice d.file (d.file.size - Footer.size) Footer.size = packed d.footerSector := by
    rw [hsize, Nat.add_sub_cancel]
    have h := slice_append_right (packed d.headerBlock ++ d.tableBytes ++ d.blocks)
      (packed d.footerSector)
    rwa [size_packed] at h
  rw [lastFooter_of_slice (by omega) hslice, d.ofSector_footerSector]

theorem readAt_header (what : String) :
    readAt d.file 0 SparseHeader.size what = .ok (packed d.headerBlock) := by
  have hfile : d.file
      = packed d.headerBlock ++ (d.tableBytes ++ d.blocks ++ packed d.footerSector) := by
    rw [file, ByteArray.append_assoc, ByteArray.append_assoc, ByteArray.append_assoc]
  have hslice : slice d.file 0 SparseHeader.size = packed d.headerBlock := by
    have h := slice_append_left (packed d.headerBlock)
      (d.tableBytes ++ d.blocks ++ packed d.footerSector)
    rwa [size_packed, ← hfile] at h
  have hsize : SparseHeader.size ≤ d.file.size := by
    rw [hfile, ByteArray.size_append, size_packed]
    exact Nat.le_add_right _ _
  rw [readAt_eq, if_pos (.inl (by omega)), hslice]

theorem getElem_tableBytes {i j : Nat} (hi : i < d.entries.size) (hj : j < 4)
    (h : 4 * i + j < d.tableBytes.size) :
    d.tableBytes[4 * i + j] = (numberBytes 4 d.entries[i].toNat)[j] := by
  have hdiv : (4 * i + j) / 4 = i := by omega
  have hmod : (4 * i + j) % 4 = j := by omega
  simp [tableBytes, ByteArray.getElem_eq_getElem_data, hdiv, hmod]

theorem entryAt_tableBytes (i : Fin (d.tableBytes.size / 4)) (hi : i.val < d.entries.size) :
    BlockTable.entryAt d.tableBytes i = d.entries[i.val] := by
  have hlist : [d.tableBytes[4 * i.val], d.tableBytes[4 * i.val + 1], d.tableBytes[4 * i.val + 2],
      d.tableBytes[4 * i.val + 3]] = bigEndianBytes 4 d.entries[i.val].toNat := by
    have hbound (j : Nat) (hj : j < 4) : 4 * i.val + j < d.tableBytes.size := by
      have := i.isLt
      omega
    have hget (j : Nat) (hj : j < 4) := d.getElem_tableBytes hi hj (hbound j hj)
    have hfirst : d.tableBytes[4 * i.val] = (numberBytes 4 d.entries[i.val].toNat)[0] :=
      hget 0 (by decide)
    rw [hfirst, hget 1 (by decide), hget 2 (by decide), hget 3 (by decide)]
    rfl
  rw [BlockTable.entryAt, hlist, bigEndian_bigEndianBytes d.entries[i.val].toNat_lt]
  simp

theorem read_table : BlockTable.read d.file d.header = .ok d.table := by
  have hle := d.entries_le
  have hproduct : Limits.checkProduct d.entries.size 4 "BAT size" = .ok (d.entries.size * 4) := by
    have hlt : d.entries.size * 4 < Limits.machineWord := Nat.lt_of_le_of_lt hle (by decide)
    rw [Limits.checkProduct, if_pos hlt]
  have hallocation : Limits.checkAllocation (d.entries.size * 4) Limits.allocation "BAT"
      = .ok (d.entries.size * 4) := by
    rw [Limits.checkAllocation, if_neg (Nat.not_lt.mpr hle)]
  have hread : readAt d.file 1024 (d.entries.size * 4) "block allocation table"
      = .ok d.tableBytes := by
    have h := slice_append_middle (packed d.headerBlock) d.tableBytes
      (d.blocks ++ packed d.footerSector)
    rw [← ByteArray.append_assoc, size_packed, size_tableBytes] at h
    have hsize : 1024 + d.entries.size * 4 ≤ d.file.size := by
      rw [file, ByteArray.size_append, ByteArray.size_append, ByteArray.size_append, size_packed,
        size_tableBytes]
      omega
    rw [readAt_eq, if_pos (.inl hsize)]
    exact congrArg _ h
  have hparse : BlockTable.parse d.tableBytes d.blockSize.bytes d.blockSize.bytes_pos
      = .ok d.table := by
    have hentries : Array.ofFn (BlockTable.entryAt d.tableBytes) = d.entries := by
      apply Array.ext
      · rw [Array.size_ofFn, size_tableBytes]
        omega
      · intro i h1 h2
        rw [Array.getElem_ofFn]
        exact d.entryAt_tableBytes _ h2
    rw [BlockTable.parse, if_neg (by rw [size_tableBytes]; omega), hentries]
    rfl
  exact bind_eq_ok.mpr ⟨_, hproduct, bind_eq_ok.mpr ⟨_, hallocation,
    bind_eq_ok.mpr ⟨_, hread, hparse⟩⟩⟩

def layout : SparseLayout where
  header := d.header
  table := d.table
  coverage := Coverage.compute d.table.indices d.table.length .orphan

variable {d} {options : OpenOptions}

theorem checkIntact_eq (hv : options.verifyChecksums = false) (isIntact : Bool) (what : String)
    (path : Path) : options.checkIntact isIntact what path = .ok () := by
  rw [OpenOptions.checkIntact, hv]
  rfl

theorem readHeader_file (hv : options.verifyChecksums = false) (path : Path) :
    SparseLayout.readHeader options path d.file d.footer = .ok d.header := by
  have hload : d.header.loadLocators d.file = (d.header, none) := by
    simp only [SparseHeader.loadLocators, ParentLocator.loadAll_of_isEmpty d.isEmpty_locators]
  refine bind_eq_ok.mpr ⟨_, d.readAt_header _, bind_eq_ok.mpr ⟨_, d.parse_headerBlock,
    bind_eq_ok.mpr ⟨_, checkIntact_eq hv _ _ _, ?_⟩⟩⟩
  rw [hload]
  split <;> rfl

theorem read_layout (hv : options.verifyChecksums = false) (path : Path) :
    SparseLayout.read options path d.file d.footer = .ok d.layout :=
  bind_eq_ok.mpr ⟨_, readHeader_file hv path, bind_eq_ok.mpr ⟨_, d.read_table, rfl⟩⟩

def level (d : Draft) (options : OpenOptions) (path : Path) (place : Place) : Level where
  path
  place
  options
  footer := d.footer
  flattenedFooter := d.footer.toFixed options.creator
  sparse := some d.layout
  attempts := []

theorem read_level {files : Files} {path : Path} {place : Place}
    (hv : options.verifyChecksums = false) (hp : files.openFile path = .ok place)
    (hc : files.contents place = d.file) :
    Level.read files options path = .ok (d.level options path place) := by
  have hlayout : Level.readLayout options path d.file d.footer = .ok (some d.layout) := by
    have hr := read_layout (d := d) hv path
    unfold Level.readLayout
    obtain ht | ht := d.isSparse
    · rw [show d.footer.diskType = .dynamic from ht]
      simp only [hr]
      rfl
    · rw [show d.footer.diskType = .differencing from ht]
      simp only [hr]
      rfl
  refine bind_eq_ok.mpr ⟨_, hp, bind_eq_ok.mpr ⟨d.footer, hc ▸ d.lastFooter_file,
    bind_eq_ok.mpr ⟨_, checkIntact_eq hv _ _ _, bind_eq_ok.mpr ⟨some d.layout, ?_, rfl⟩⟩⟩⟩
  rw [hc]
  exact hlayout

theorem size_file : d.file.size = 1024 + d.entries.size * 4 + d.blocks.size + 512 := by
  rw [file, ByteArray.size_append, ByteArray.size_append, ByteArray.size_append, size_packed,
    size_packed, size_tableBytes]

theorem byteAt_file {o : Nat} (h : o < d.blocks.size) :
    byteAt d.file (1024 + d.entries.size * 4 + o) = byteAt d.blocks o := by
  have hfront : (packed d.headerBlock ++ d.tableBytes).size = 1024 + d.entries.size * 4 := by
    rw [ByteArray.size_append, size_packed, size_tableBytes]
  rw [file, byteAt_append, byteAt_append, if_pos (by rw [ByteArray.size_append]; omega), hfront,
    if_neg (by omega), Nat.add_sub_cancel_left]

end Draft

end VirtualDisk
