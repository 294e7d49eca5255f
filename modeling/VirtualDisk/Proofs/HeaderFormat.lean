import VirtualDisk.Proofs.Flattening
import VirtualDisk.Proofs.Layout

namespace VirtualDisk

open Requirement

namespace BlockSize

/-- What is asked of the size of a block. A power of two can only be too large or too small. -/
def requirement (n : Nat) : Requirement :=
  ⟨decide (n.isPowerOfTwo ∧ 512 ≤ n ∧ n ≤ 268435456),
    if n.isPowerOfTwo ∧ 268435456 < n then .limit (.blockSize n 268435456)
    else if n.isPowerOfTwo then .format (.blockSizeBelowSector n)
    else .format (.blockSizeNotPowerOfTwo n)⟩

theorem governs_ofNat (n : Nat) : Governs [requirement n] (ofNat n) := by
  unfold ofNat sectorSize Limits.blockSize
  apply governs_cons
  · intro h
    have hnot := of_decide_eq_false h
    by_cases hpower : n.isPowerOfTwo
    · rw [dif_pos hpower]
      by_cases hleast : 512 ≤ n
      · have hmost : ¬n ≤ 268435456 := fun hle => hnot ⟨hpower, hleast, hle⟩
        rw [dif_pos hleast, dif_neg hmost, requirement, if_pos ⟨hpower, Nat.lt_of_not_le hmost⟩]
      · rw [dif_neg hleast, requirement, if_neg (by omega), if_pos hpower]
    · rw [dif_neg hpower, requirement, if_neg fun hp => hpower hp.1, if_neg hpower]
  · intro h
    obtain ⟨hpower, hleast, hmost⟩ := of_decide_eq_true h
    rw [dif_pos hpower, dif_pos hleast, dif_pos hmost]
    exact governs_ok _

theorem kind_of_requirement (n : Nat) :
    (n.isPowerOfTwo ∧ 268435456 < n → ∃ fault, (requirement n).fault = .limit fault) ∧
    (¬(n.isPowerOfTwo ∧ 268435456 < n) → ∃ fault, (requirement n).fault = .format fault) := by
  unfold requirement
  refine ⟨fun h => ⟨_, if_pos h⟩, fun h => ?_⟩
  dsimp only
  rw [if_neg h]
  split
  · exact ⟨_, rfl⟩
  · exact ⟨_, rfl⟩

theorem bytes_of_ofNat {n : Nat} {s : BlockSize} (h : ofNat n = .ok s) : s.bytes = n := by
  unfold ofNat at h
  split at h
  · split at h
    · split at h
      · cases h
        rfl
      · cases h
    · cases h
  · cases h

end BlockSize

namespace ParentLocator

structure ReadsSlot (b : ByteArray) (pos : Nat) (l : ParentLocator) : Prop where
  code_eq : l.code.toList = bytesAt b pos 4
  space_eq : l.space.toNat = numberAt b (pos + 4) 4
  length_eq : l.length = numberAt b (pos + 8) 4
  offset_eq : l.offset = numberAt b (pos + 16) 8
  text_eq : l.text = none

theorem readsSlot_ofBytes {b : ByteArray} {pos : Nat} {v : Vector UInt8 24}
    (hv : v.toList = bytesAt b pos 24) : ReadsSlot b pos (ofBytes v) where
  code_eq := toList_field_of_toList hv (by decide)
  space_eq := (UInt32.toNat_ofNat_of_lt' (number_lt v _)).trans (number_of_toList hv _)
  length_eq := number_of_toList hv _
  offset_eq := number_of_toList hv _
  text_eq := rfl

end ParentLocator

namespace SparseHeader

/-- The first bytes of a byte string are a header. -/
structure HasFormat (b : ByteArray) : Prop where
  size_le : 1024 ≤ b.size
  cookie : bytesAt b 0 8 = letters "cxsparse"
  blockSize : (numberAt b 32 4).isPowerOfTwo ∧ 512 ≤ numberAt b 32 4 ∧ numberAt b 32 4 ≤ 268435456
  dataOffset : numberAt b 8 8 = 0xFFFFFFFFFFFFFFFF ∨ numberAt b 8 8 ≤ 9007199254740991
  tableOffset : numberAt b 16 8 ≤ 9007199254740991

def fieldRequirements (b : ByteArray) : List Requirement :=
  [⟨decide (bytesAt b 0 8 = letters "cxsparse"), .format (.headerCookie (bytesAt b 0 8))⟩,
    BlockSize.requirement (numberAt b 32 4),
    StoredSize.optionalRequirement "dynamic header data offset" (numberAt b 8 8),
    StoredSize.requiredRequirement "dynamic header table offset" (numberAt b 16 8)]

def formatRequirements (b : ByteArray) : List Requirement :=
  ⟨decide (1024 ≤ b.size), .format .headerTooShort⟩ :: fieldRequirements b

def storedFields (h : SparseHeader) : List (List UInt8) :=
  [SparseHeader.cookie.toList, bigEndianBytes 8 (StoredSize.stored h.dataOffset),
    bigEndianBytes 8 h.tableOffset, bigEndianBytes 4 h.version.toNat,
    bigEndianBytes 4 h.tableLength,
    bigEndianBytes 4 h.blockSize.bytes, bigEndianBytes 4 h.checksum.toNat, h.parentId.octets.toList,
    bigEndianBytes 4 h.parentTimestamp.toNat]

section requirements

variable {b : ByteArray} {raw : Vector UInt8 1024}

theorem hasFormat_iff : HasFormat b ↔ ∀ r ∈ formatRequirements b, r.isMet = true := by
  simp only [formatRequirements, fieldRequirements, StoredSize.optionalRequirement,
    StoredSize.requiredRequirement, BlockSize.requirement, List.forall_mem_cons, decide_eq_true_iff]
  constructor
  · exact fun h => ⟨h.size_le, h.cookie, h.blockSize, h.dataOffset, h.tableOffset,
      List.forall_mem_nil _⟩
  · rintro ⟨hs, hc, hb, ho, ht, -⟩
    exact ⟨hs, hc, hb, ho, ht⟩

theorem governs_ofBlock (hraw : raw.toList = bytesAt b 0 1024) :
    Governs (fieldRequirements b) (ofBlock raw) := by
  have hcookie : field raw 0 8 = SparseHeader.cookie ↔ bytesAt b 0 8 = letters "cxsparse" := by
    rw [← Vector.toList_inj, toList_field_front hraw]
    rfl
  unfold ofBlock
  simp only [number_front hraw, toList_field_front hraw, ne_eq, ite_not, hcookie]
  exact governs_ite fun _ => (BlockSize.governs_ofNat _).bind fun _ _ =>
    (StoredSize.governs_optional _ _).bind fun _ _ => (StoredSize.governs_required _ _).bind_ok _

theorem readsFront : ReadsFront ofBlock (.format .headerTooShort) parse where
  of_le h := dif_pos (show 1024 ≤ _ from h)
  of_not_le h := dif_neg h

theorem governs_parse (b : ByteArray) : Governs (formatRequirements b) (parse b) :=
  readsFront.governs fun _ => governs_ofBlock

end requirements

section fields

variable {b : ByteArray} {raw : Vector UInt8 1024} {header : SparseHeader}

structure Reads (raw : Vector UInt8 1024) (h : SparseHeader) : Prop where
  cookie_eq : field raw 0 8 = SparseHeader.cookie
  offset_eq : StoredSize.optional (number raw 8 8) "dynamic header data offset" = .ok h.dataOffset
  table_eq : StoredSize.required (number raw 16 8) "dynamic header table offset" = .ok h.tableOffset
  version_eq : h.version = UInt32.ofNat (number raw 24 4)
  length_eq : h.tableLength = number raw 28 4
  block_eq : h.blockSize.bytes = number raw 32 4
  checksum_eq : h.checksum = UInt32.ofNat (number raw 36 4)
  id_eq : h.parentId = ⟨field raw 40 16⟩
  timestamp_eq : h.parentTimestamp = UInt32.ofNat (number raw 56 4)
  name_eq : h.parentName = nameOf (field raw 64 512).toList
  locators_eq : h.locators = List.ofFn (locatorAt raw)
  raw_eq : h.raw = raw

theorem reads_of_ofBlock (h : ofBlock raw = .ok header) : Reads raw header := by
  unfold ofBlock at h
  simp only at h
  split at h
  · cases h
  next hcookie =>
  obtain ⟨size, hsize, h⟩ := bind_eq_ok.mp h
  obtain ⟨offset, hoffset, h⟩ := bind_eq_ok.mp h
  obtain ⟨table, htable, h⟩ := bind_eq_ok.mp h
  cases h
  exact ⟨Decidable.not_not.mp hcookie, hoffset, htable, rfl, rfl,
    BlockSize.bytes_of_ofNat hsize, rfl,
    rfl, rfl, rfl, rfl, rfl⟩

theorem storedFields_eq (hraw : raw.toList = bytesAt b 0 1024) (h : Reads raw header) :
    header.storedFields = fieldsAt b 0 [8, 8, 8, 4, 4, 4, 4, 16, 4] := by
  have hoffset := StoredSize.stored_of_optional h.offset_eq
  have htable := StoredSize.eq_of_required h.table_eq
  rw [storedFields, ← h.cookie_eq, hoffset, htable, h.version_eq, h.length_eq, h.block_eq,
    h.checksum_eq, h.id_eq, h.timestamp_eq]
  simp only [toList_field_front hraw, bigEndianBytes_front hraw, bigEndianBytes_word_front hraw]
  rfl

theorem version_halves (hraw : raw.toList = bytesAt b 0 1024) (hb : 1024 ≤ b.size)
    (h : Reads raw header) :
    header.version.toNat = 65536 * header.versionMajor.toNat + header.versionMinor.toNat := by
  have hmajor : header.versionMajor.toNat = numberAt b 24 2 := by
    rw [versionMajor, h.raw_eq, UInt16.toNat_ofNat_of_lt' (number_lt raw _), number_front hraw]
  have hminor : header.versionMinor.toNat = numberAt b 26 2 := by
    rw [versionMinor, h.raw_eq, UInt16.toNat_ofNat_of_lt' (number_lt raw _), number_front hraw]
  have hhalves : numberAt b 24 4 = numberAt b 24 2 * 65536 + numberAt b 26 2 :=
    numberAt_add (show 24 + (2 + 2) ≤ b.size by omega)
  rw [h.version_eq, UInt32.toNat_ofNat_of_lt' (number_lt raw _), number_front hraw, hmajor, hminor,
    hhalves, Nat.mul_comm]

theorem isIntact_iff (hraw : raw.toList = bytesAt b 0 1024) (h : Reads raw header) :
    header.isIntact = true ↔
      numberAt b 36 4 + byteSum (bytesAt b 0 36 ++ bytesAt b 40 984) = 4294967295 := by
  rw [isIntact, h.raw_eq, h.checksum_eq, beq_iff_eq, ← number_front hraw (by decide),
    ← outside_front hraw (by decide)]
  exact checksum_eq_ofNat_iff (byteSum_outside_lt raw 36 (by decide)) (number_lt raw _)

theorem readsSlot_locators (hraw : raw.toList = bytesAt b 0 1024) (h : Reads raw header) {k : Nat}
    (hk : k < 8) : ∃ l, header.locators[k]? = some l ∧ l.ReadsSlot b (576 + 24 * k) := by
  refine ⟨locatorAt raw ⟨k, hk⟩, ?_, ParentLocator.readsSlot_ofBytes (toList_field_front hraw _)⟩
  rw [h.locators_eq, List.getElem?_ofFn, dif_pos hk]

end fields

/-- What a byte string that is read as a header says. -/
structure Retains (b : ByteArray) (h : SparseHeader) : Prop where
  front : ∀ b', bytesAt b' 0 1024 = bytesAt b 0 1024 → parse b' = .ok h
  raw_eq : h.raw.toList = bytesAt b 0 1024
  fields_eq : h.storedFields = fieldsAt b 0 [8, 8, 8, 4, 4, 4, 4, 16, 4]
  name_eq : h.parentName = nameOf (bytesAt b 64 512)
  length_locators : h.locators.length = 8
  slots : ∀ k < 8, ∃ l, h.locators[k]? = some l ∧ l.ReadsSlot b (576 + 24 * k)
  version_eq : h.version.toNat = 65536 * h.versionMajor.toNat + h.versionMinor.toNat
  intact : h.isIntact = true ↔
    numberAt b 36 4 + byteSum (bytesAt b 0 36 ++ bytesAt b 40 984) = 4294967295

theorem retains_of_parse {b : ByteArray} {header : SparseHeader} (h : parse b = .ok header) :
    Retains b header := by
  have hsize : 1024 ≤ b.size := (hasFormat_iff.mpr ((governs_parse b).ok_iff.mp ⟨_, h⟩)).size_le
  obtain ⟨raw, hraw, hparse⟩ := readsFront.exists_front hsize
  have hblock := hparse.symm.trans h
  have hread := reads_of_ofBlock hblock
  refine ⟨fun b' hfront => (readsFront.congr hsize hfront).trans h, ?_, storedFields_eq hraw hread,
    ?_, header.length_locators,
    fun k hk => readsSlot_locators hraw hread hk, version_halves hraw hsize hread,
    isIntact_iff hraw hread⟩
  · rw [hread.raw_eq, hraw]
  · rw [hread.name_eq, toList_field_front hraw]

/-- How byte strings are read as headers. -/
structure ReadsFormat (b : ByteArray) : Prop where
  accepts : (∃ h, parse b = .ok h) ↔ HasFormat b
  refuses : ∀ e, parse b = .error e ↔ firstFault (formatRequirements b) = some e
  met : HasFormat b ↔ ∀ r ∈ formatRequirements b, r.isMet = true
  format : ∀ r ∈ (formatRequirements b).take 2, ∃ fault, r.fault = .format fault
  /-- A block size that is a power of two can be beyond the limit; any other is malformed. -/
  blockSize : ∀ r ∈ (formatRequirements b)[2]?,
    ((numberAt b 32 4).isPowerOfTwo ∧ 268435456 < numberAt b 32 4 →
      ∃ fault, r.fault = .limit fault) ∧
    (¬((numberAt b 32 4).isPowerOfTwo ∧ 268435456 < numberAt b 32 4) →
      ∃ fault, r.fault = .format fault)
  precision : ∀ r ∈ (formatRequirements b).drop 3, ∃ fault, r.fault = .precision fault
  retains : ∀ h, parse b = .ok h → Retains b h

/-- A byte string is read as a header just if it has the format, and then it holds eight
locators as they are stored, and a checksum. -/
theorem reads_block_format (b : ByteArray) : ReadsFormat b where
  accepts := (governs_parse b).ok_iff.trans hasFormat_iff.symm
  refuses := (governs_parse b).error_iff
  met := hasFormat_iff
  format := by simp [formatRequirements, fieldRequirements]
  blockSize := by
    intro r hr
    cases hr
    exact BlockSize.kind_of_requirement _
  precision := by
    simp [formatRequirements, fieldRequirements, StoredSize.optionalRequirement,
      StoredSize.requiredRequirement]
  retains := fun _ => retains_of_parse

theorem reads_block_format_mixedPair :
    HasFormat (packed (DiskStream.mixedPair 1024 (by decide)).child.headerBlock) ∧
    (∃ l, (DiskStream.mixedPair 1024 (by decide)).child.header.locators[7]? = some l ∧
      l.ReadsSlot (packed (DiskStream.mixedPair 1024 (by decide)).child.headerBlock) 744) ∧
    firstFault (formatRequirements ByteArray.empty) = some (.format .headerTooShort) := by
  have hparse := (DiskStream.mixedPair 1024 (by decide)).child.parse_headerBlock
  have hreads :=
    reads_block_format (packed (DiskStream.mixedPair 1024 (by decide)).child.headerBlock)
  exact ⟨hreads.accepts.mp ⟨_, hparse⟩, (hreads.retains _ hparse).slots 7 (by decide),
    ((reads_block_format ByteArray.empty).refuses _).mp rfl⟩

end SparseHeader

end VirtualDisk
