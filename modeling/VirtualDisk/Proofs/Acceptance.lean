import VirtualDisk.Proofs.Requirement
import VirtualDisk.Proofs.RoundTrip

namespace VirtualDisk

open Requirement

namespace Level

variable {files : Files} {options : OpenOptions} {path : Path} {place : Place}

/-- A sparse image, as far as its header tells: the header is intact, the locators in use
and the table are of a sound size and lie in the file. -/
structure HasHeader (o : OpenOptions) (contents : ByteArray) (type : DiskType)
    (header : SparseHeader) : Prop where
  isIntact : o.verifyChecksums = true → header.isIntact = true
  locators : type = .differencing → ∀ l ∈ header.activeLocators,
    l.length ≤ 65536 ∧ l.offset ≤ 9007199254740991 ∧ l.offset + l.length ≤ contents.size
  table_le : 4 * header.tableLength ≤ 268435456
  table_within : header.tableLength = 0 ∨
    header.tableOffset + 4 * header.tableLength ≤ contents.size

/-- A file that opens as an image, before its parent is looked for. -/
def WellFormed (o : OpenOptions) (contents : ByteArray) : Prop :=
  512 ≤ contents.size ∧
  ∃ footer, Footer.parse (slice contents (contents.size - 512) 512) = .ok footer ∧
    (o.verifyChecksums = true → footer.isIntact = true) ∧
    (footer.diskType = .fixed ∧ footer.currentSize + 512 ≤ contents.size ∨
      (footer.diskType = .dynamic ∨ footer.diskType = .differencing) ∧
        ∃ d, footer.dataOffset = some d ∧ d + 1024 ≤ contents.size ∧
          ∃ header, SparseHeader.parse (slice contents d 1024) = .ok header ∧
            HasHeader o contents footer.diskType header)

theorem hasHeader_iff {contents : ByteArray} {type : DiskType} {header : SparseHeader} :
    HasHeader options contents type header ↔
      ∀ r ∈ header.requirements options path contents type, r.isMet = true := by
  have hlocators : (type = .differencing → ∀ l ∈ header.activeLocators,
      l.length ≤ 65536 ∧ l.offset ≤ 9007199254740991 ∧ l.offset + l.length ≤ contents.size) ↔
      ∀ r ∈ (if type = .differencing then
        header.activeLocators.flatMap (ParentLocator.requirements contents) else []),
        r.isMet = true := by
    by_cases ht : type = .differencing
    · rw [if_pos ht, List.forall_mem_flatMap]
      simp [ht, ParentLocator.requirements]
    · simp [ht]
  have htable : (4 * header.tableLength ≤ 268435456 ∧ (header.tableLength = 0 ∨
      header.tableOffset + 4 * header.tableLength ≤ contents.size)) ↔
      ∀ r ∈ header.tableRequirements contents, r.isMet = true := by
    simp [SparseHeader.tableRequirements]
  rw [SparseHeader.requirements, List.forall_mem_cons, List.forall_mem_append, ← hlocators,
    ← htable,
    decide_eq_true_iff]
  constructor
  · exact fun h => ⟨h.isIntact, h.locators, h.table_le, h.table_within⟩
  · exact fun ⟨hi, hl, hle, hin⟩ => ⟨hi, hl, hle, hin⟩

theorem sparse_iff {contents : ByteArray} {footer : Footer} :
    (∃ d, footer.dataOffset = some d ∧ d + 1024 ≤ contents.size ∧
      ∃ header, SparseHeader.parse (slice contents d 1024) = .ok header ∧
        HasHeader options contents footer.diskType header) ↔
      ∀ r ∈ sparseRequirements options path contents footer, r.isMet = true := by
  unfold sparseRequirements
  cases footer.dataOffset with
  | none => simp
  | some d => simp [forall_ofReading_iff, ← hasHeader_iff]

theorem type_iff {contents : ByteArray} {footer : Footer} :
    (footer.diskType = .fixed ∧ footer.currentSize + 512 ≤ contents.size ∨
      (footer.diskType = .dynamic ∨ footer.diskType = .differencing) ∧
        ∃ d, footer.dataOffset = some d ∧ d + 1024 ≤ contents.size ∧
          ∃ header, SparseHeader.parse (slice contents d 1024) = .ok header ∧
            HasHeader options contents footer.diskType header) ↔
      ∀ r ∈ typeRequirements options path contents footer, r.isMet = true := by
  rw [@sparse_iff options path]
  unfold typeRequirements
  cases footer.diskType <;> simp

theorem wellFormed_iff {contents : ByteArray} : WellFormed options contents ↔
    ∀ r ∈ requirements options path contents, r.isMet = true := by
  simp only [WellFormed, requirements, @type_iff options path, List.forall_mem_cons,
    forall_ofReading_iff, decide_eq_true_iff]

structure Holding (level : Level) (o : OpenOptions) (contents : ByteArray) : Prop where
  footer_eq : Footer.parse (slice contents (contents.size - 512) 512) = .ok level.footer
  flattened_eq : level.flattenedFooter = level.footer.toFixed o.creator
  isSome_iff : level.sparse.isSome = true ↔ level.footer.diskType ≠ .fixed
  layout_eq : ∀ layout, level.sparse = some layout → ∃ d header,
    level.footer.dataOffset = some d ∧ SparseHeader.parse (slice contents d 1024) = .ok header ∧
    layout.header = header.loaded contents level.footer.diskType ∧
    BlockTable.parse (slice contents header.tableOffset (4 * header.tableLength))
      header.blockSize.bytes header.blockSize.bytes_pos = .ok layout.table ∧
    layout.table.length = header.tableLength

theorem slice_of_readAt {contents bytes : ByteArray} {offset length : Nat} {what : String}
    (h : readAt contents offset length what = .ok bytes) :
    slice contents offset length = bytes ∧ bytes.size = length := by
  rw [readAt_eq] at h
  split at h
  · cases h
    refine ⟨rfl, ?_⟩
    rw [size_slice]
    omega
  · cases h

theorem table_of_read {contents : ByteArray} {header : SparseHeader} {table : BlockTable}
    (h : BlockTable.read contents header = .ok table) :
    BlockTable.parse (slice contents header.tableOffset (4 * header.tableLength))
      header.blockSize.bytes header.blockSize.bytes_pos = .ok table ∧
    table.length = header.tableLength := by
  unfold BlockTable.read at h
  obtain ⟨product, hproduct, h⟩ := bind_eq_ok.mp h
  obtain ⟨length, hlength, h⟩ := bind_eq_ok.mp h
  obtain ⟨bytes, hbytes, h⟩ := bind_eq_ok.mp h
  have hcount : length = 4 * header.tableLength := by
    unfold Limits.checkProduct at hproduct
    unfold Limits.checkAllocation at hlength
    split at hproduct <;> cases hproduct
    split at hlength <;> cases hlength
    exact Nat.mul_comm _ _
  obtain ⟨hslice, hsize⟩ := slice_of_readAt hbytes
  rw [← hcount, hslice]
  refine ⟨h, ?_⟩
  unfold BlockTable.parse at h
  split at h
  · cases h
  · cases h
    rw [BlockTable.length, Array.size_ofFn]
    omega

theorem header_of_readHeader {contents : ByteArray} {footer : Footer} {found : SparseHeader}
    (h : SparseLayout.readHeader options path contents footer = .ok found) :
    ∃ d header, footer.dataOffset = some d ∧
      SparseHeader.parse (slice contents d 1024) = .ok header ∧
      found = header.loaded contents footer.diskType := by
  unfold SparseLayout.readHeader at h
  cases hd : footer.dataOffset with
  | none =>
    rw [hd] at h
    cases h
  | some d =>
    rw [hd] at h
    obtain ⟨bytes, hbytes, h⟩ := bind_eq_ok.mp h
    obtain ⟨header, hheader, h⟩ := bind_eq_ok.mp h
    obtain ⟨_, -, h⟩ := bind_eq_ok.mp h
    rw [← (slice_of_readAt hbytes).1] at hheader
    exact ⟨d, header, rfl, hheader, (SparseHeader.loaded_of_loading h).symm⟩

theorem layout_of_readLayout {contents : ByteArray} {footer : Footer} {layout : SparseLayout}
    (h : readLayout options path contents footer = .ok (some layout)) :
    SparseLayout.read options path contents footer = .ok layout := by
  unfold readLayout at h
  split at h
  · split at h <;> cases h
  · obtain ⟨_, hr, he⟩ := map_eq_ok.mp h
    cases he
    exact hr
  · obtain ⟨_, hr, he⟩ := map_eq_ok.mp h
    cases he
    exact hr
  · cases h

theorem holding_of_read {level : Level} (h : Level.read files options path = .ok level) :
    level.Holding options (files.contents level.place) := by
  obtain ⟨place, footer, sparse, -, hfooter, -, hsparse, rfl⟩ := read_eq_ok h
  constructor
  · unfold lastFooter at hfooter
    split at hfooter
    · cases hfooter
    · exact hfooter
  · rfl
  · cases hs : sparse with
    | none => exact ⟨fun hn => (nomatch hn), fun hn => absurd (fixed_of_read h hs).1 hn⟩
    | some layout => exact ⟨fun _ => (sparse_of_read h hs).1, fun _ => rfl⟩
  · rintro layout rfl
    obtain ⟨header, hheader, hr⟩ := bind_eq_ok.mp (layout_of_readLayout hsparse)
    obtain ⟨table, htable, hr⟩ := bind_eq_ok.mp hr
    cases hr
    obtain ⟨d, parsed, hd, hparse, rfl⟩ := header_of_readHeader hheader
    obtain ⟨htable, hlength⟩ := table_of_read htable
    refine ⟨d, parsed, hd, hparse, rfl, ?_⟩
    unfold SparseHeader.loaded at htable hlength
    split at htable
    · next ht =>
      rw [if_pos ht] at hlength
      exact ⟨htable, hlength⟩
    · next ht =>
      rw [if_neg ht] at hlength
      exact ⟨htable, hlength⟩

/-- An image opens just if its file is well-formed, that is, meets all requirements. The
error is that of the first requirement that is not met. -/
theorem read_iff_wellFormed (hp : files.openFile path = .ok place) :
    ((∃ level, Level.read files options path = .ok level) ↔
      WellFormed options (files.contents place)) ∧
    (WellFormed options (files.contents place) ↔
      ∀ r ∈ requirements options path (files.contents place), r.isMet = true) ∧
    (∀ e, Level.read files options path = .error e ↔
      firstFault (requirements options path (files.contents place)) = some e) ∧
    ∀ level, Level.read files options path = .ok level →
      level.Holding options (files.contents place) := by
  have hgoverns := @governs_read files options path place hp
  refine ⟨hgoverns.ok_iff.trans wellFormed_iff.symm, wellFormed_iff, hgoverns.error_iff, ?_⟩
  intro level hr
  obtain ⟨found, footer, sparse, hfound, -, -, -, rfl⟩ := read_eq_ok hr
  cases hp.symm.trans hfound
  exact holding_of_read hr

/-- The child of a pair is well-formed where checksums are not verified, and a file that
is a byte too short for a footer is refused. -/
theorem read_iff_wellFormed_mixedPair :
    WellFormed DiskStream.unchecked (DiskStream.mixedPair 1024 (by decide)).child.file ∧
    Level.read (DiskStream.oneFile (filled 511 0)) DiskStream.unchecked ⟨"f"⟩
      = .error (.format .fileTooSmall) := by
  constructor
  · have hread := @Draft.read_level (DiskStream.mixedPair 1024 (by decide)).child
      DiskStream.unchecked (DiskStream.mixedPair 1024 (by decide)).files ⟨"c"⟩ [['c']] rfl
      (openFile_child _ _) (contents_child _ _)
    have hiff := @read_iff_wellFormed (DiskStream.mixedPair 1024 (by decide)).files
      DiskStream.unchecked ⟨"c"⟩ [['c']] (openFile_child _ _)
    exact hiff.1.mp ⟨_, hread⟩
  · have hiff := @read_iff_wellFormed (DiskStream.oneFile (filled 511 0)) DiskStream.unchecked
      ⟨"f"⟩ [['f']] rfl
    refine (hiff.2.2.1 _).mpr ?_
    have hsize : ((DiskStream.oneFile (filled 511 0)).contents [['f']]).size = 511 :=
      size_filled 511 0
    have hfail : decide (512 ≤ 511) = false := rfl
    rw [requirements, firstFault, hsize, hfail]
    rfl

end Level

end VirtualDisk
