import VirtualDisk.Proofs.FooterEdits
import VirtualDisk.Proofs.Layout

namespace VirtualDisk

open Requirement

theorem DiskType.exists_ofCode?_iff {code : Nat} : (∃ t, ofCode? code = some t) ↔ code ≤ 6 := by
  constructor
  · rintro ⟨t, ht⟩
    rw [← ofCode?_eq_some_iff.mp ht]
    cases t <;> decide
  · intro h
    have hall : ∀ k : Fin 7, (ofCode? k.val).isSome = true := by decide
    exact Option.isSome_iff_exists.mp (hall ⟨code, Nat.lt_succ_of_le h⟩)

theorem Geometry.toBytes_ofBytes (v : Vector UInt8 4) : (ofBytes v).toBytes = v := by
  have hcylinders : (ofBytes v).cylinders.toNat = number v 0 2 :=
    UInt16.toNat_ofNat_of_lt' (number_lt v _)
  have hsplit : (ofBytes v).toBytes.toList
      = bigEndianBytes 2 (ofBytes v).cylinders.toNat ++ [v[2], v[3]] := rfl
  rw [← Vector.toList_inj, hsplit, hcylinders, bigEndianBytes_number, toList_field]
  apply List.ext_getElem
  · simp
  · intro i h1 h2
    have hi : i < 4 := by simpa using h2
    match i, hi with
    | 0, _ => simp
    | 1, _ => simp
    | 2, _ => simp
    | 3, _ => simp

namespace Footer

/-- The first sector of a byte string is one of a footer. -/
structure HasFormat (b : ByteArray) : Prop where
  size_le : 512 ≤ b.size
  cookie : bytesAt b 0 8 = letters "conectix"
  version : numberAt b 12 4 = 0x00010000
  diskType : numberAt b 60 4 ≤ 6
  dataOffset : numberAt b 16 8 = 0xFFFFFFFFFFFFFFFF ∨ numberAt b 16 8 ≤ 9007199254740991
  initialSize : numberAt b 40 8 ≤ 9007199254740991
  currentSize : numberAt b 48 8 ≤ 9007199254740991

def fieldRequirements (b : ByteArray) : List Requirement :=
  [⟨decide (bytesAt b 0 8 = letters "conectix"), .format (.footerCookie (bytesAt b 0 8))⟩,
    ⟨decide (numberAt b 12 4 = 0x00010000),
      .format (.footerVersion (UInt32.ofNat (numberAt b 12 4)))⟩,
    ⟨decide (numberAt b 60 4 ≤ 6), .format (.diskType (numberAt b 60 4))⟩,
    StoredSize.optionalRequirement "footer data offset" (numberAt b 16 8),
    StoredSize.requiredRequirement "footer original size" (numberAt b 40 8),
    StoredSize.requiredRequirement "footer current size" (numberAt b 48 8)]

/-- What is asked of a byte string, in this order. -/
def formatRequirements (b : ByteArray) : List Requirement :=
  ⟨decide (512 ≤ b.size), .format .footerTooShort⟩ :: fieldRequirements b

def storedFields (f : Footer) : List (List UInt8) :=
  [Footer.cookie.toList, bigEndianBytes 4 f.features.toNat, bigEndianBytes 4 Footer.version.toNat,
    bigEndianBytes 8 (StoredSize.stored f.dataOffset), bigEndianBytes 4 f.timestamp.toNat,
    f.creator.toList, bigEndianBytes 4 f.creatorVersion.toNat,
    bigEndianBytes 4 f.creatorSystem.toNat,
    bigEndianBytes 8 f.initialSize, bigEndianBytes 8 f.currentSize, f.geometry.toBytes.toList,
    bigEndianBytes 4 f.diskType.code, bigEndianBytes 4 f.checksum.toNat, f.uniqueId.octets.toList,
    [f.savedState]]

section requirements

variable {b : ByteArray} {raw : Vector UInt8 512} {f : Footer}

theorem hasFormat_iff : HasFormat b ↔ ∀ r ∈ formatRequirements b, r.isMet = true := by
  simp only [formatRequirements, fieldRequirements, StoredSize.optionalRequirement,
    StoredSize.requiredRequirement, List.forall_mem_cons, decide_eq_true_iff]
  constructor
  · exact fun h => ⟨h.size_le, h.cookie, h.version, h.diskType, h.dataOffset, h.initialSize,
      h.currentSize, List.forall_mem_nil _⟩
  · rintro ⟨hs, hc, hv, ht, ho, hi, hn, -⟩
    exact ⟨hs, hc, hv, ht, ho, hi, hn⟩

theorem governs_ofSector (hraw : raw.toList = bytesAt b 0 512) :
    Governs (fieldRequirements b) (ofSector raw) := by
  have hcookie : field raw 0 8 = Footer.cookie ↔ bytesAt b 0 8 = letters "conectix" := by
    rw [← Vector.toList_inj, toList_field_front hraw]
    rfl
  have hversion : UInt32.ofNat (numberAt b 12 4) = Footer.version ↔
      numberAt b 12 4 = 0x00010000 := by
    have hlt : numberAt b 12 4 < 4294967296 := by
      rw [← number_front hraw (by decide)]
      exact number_lt raw _
    rw [← UInt32.toNat_inj, UInt32.toNat_ofNat_of_lt' hlt]
    rfl
  unfold ofSector
  simp only [number_front hraw, toList_field_front hraw, ne_eq, ite_not, hcookie, hversion]
  refine governs_ite fun _ => governs_ite fun _ => governs_cons (fun h => ?_) fun h => ?_
  · have hnone : DiskType.ofCode? (numberAt b 60 4) = none := by
      rw [Option.eq_none_iff_forall_ne_some]
      exact fun t ht => of_decide_eq_false h (DiskType.exists_ofCode?_iff.mp ⟨t, ht⟩)
    rw [hnone]
  · obtain ⟨t, ht⟩ := DiskType.exists_ofCode?_iff.mpr (of_decide_eq_true h)
    rw [ht]
    exact (StoredSize.governs_optional _ _).bind fun _ _ =>
      (StoredSize.governs_required _ _).bind fun _ _ =>
        (StoredSize.governs_required _ _).bind_ok _

theorem readsFront : ReadsFront ofSector (.format .footerTooShort) parse where
  of_le h := dif_pos (show 512 ≤ _ from h)
  of_not_le h := dif_neg h

theorem governs_parse (b : ByteArray) : Governs (formatRequirements b) (parse b) :=
  readsFront.governs fun _ => governs_ofSector

end requirements

section fields

variable {b b' : ByteArray} {raw : Vector UInt8 512} {f : Footer}

structure ReadsRest (raw : Vector UInt8 512) (f : Footer) : Prop where
  features_eq : f.features = UInt32.ofNat (number raw 8 4)
  timestamp_eq : f.timestamp = UInt32.ofNat (number raw 24 4)
  creatorVersion_eq : f.creatorVersion = UInt32.ofNat (number raw 32 4)
  creatorSystem_eq : f.creatorSystem = UInt32.ofNat (number raw 36 4)
  geometry_eq : f.geometry = Geometry.ofBytes (field raw 56 4)
  savedState_eq : [f.savedState] = (field raw 84 1).toList

theorem readsRest_of_ofSector (h : ofSector raw = .ok f) : ReadsRest raw f := by
  have hread := reads_of_ofSector h
  unfold ofSector at h
  simp only [hread.cookie_eq, hread.version_eq, hread.type_eq, hread.offset_eq, hread.initial_eq,
    hread.current_eq, ne_eq, not_true, if_false] at h
  have hf := (Except.ok.inj h).symm
  exact ⟨congrArg features hf, congrArg timestamp hf, congrArg creatorVersion hf,
    congrArg creatorSystem hf, congrArg geometry hf, congrArg (fun g => [g.savedState]) hf⟩

theorem storedFields_eq (hraw : raw.toList = bytesAt b 0 512) (h : ofSector raw = .ok f) :
    f.storedFields = fieldsAt b 0 [8, 4, 4, 8, 4, 4, 4, 4, 8, 8, 4, 4, 4, 16, 1] := by
  have hread := reads_of_ofSector h
  have hrest := readsRest_of_ofSector h
  have hoffset := StoredSize.stored_of_optional hread.offset_eq
  have hinitial := StoredSize.eq_of_required hread.initial_eq
  have hcurrent := StoredSize.eq_of_required hread.current_eq
  have hcode : f.diskType.code = number raw 60 4 := DiskType.ofCode?_eq_some_iff.mp hread.type_eq
  rw [storedFields, ← hread.cookie_eq, ← hread.version_eq, hrest.features_eq, hoffset,
    hrest.timestamp_eq, hread.creator_eq, hrest.creatorVersion_eq, hrest.creatorSystem_eq, hinitial,
    hcurrent, hrest.geometry_eq, hcode, hread.checksum_eq, hread.id_eq, hrest.savedState_eq,
    Geometry.toBytes_ofBytes]
  simp only [toList_field_front hraw, bigEndianBytes_front hraw, bigEndianBytes_word_front hraw]
  rfl

end fields

/-- What is kept of a byte string that is read as a footer. -/
structure Retains (b : ByteArray) (f : Footer) : Prop where
  front : ∀ b', bytesAt b' 0 512 = bytesAt b 0 512 → parse b' = .ok f
  bytes_eq : octets f.bytes = bytesAt b 0 512
  fields_eq : f.storedFields = fieldsAt b 0 [8, 4, 4, 8, 4, 4, 4, 4, 8, 8, 4, 4, 4, 16, 1]
  flatten_eq : f.storedFields.flatten = bytesAt b 0 85

/-- How byte strings are read as footers. -/
structure ReadsFormat (b : ByteArray) : Prop where
  accepts : (∃ f, parse b = .ok f) ↔ HasFormat b
  /-- The first requirement that is not met gives the error. -/
  refuses : ∀ e, parse b = .error e ↔ firstFault (formatRequirements b) = some e
  met : HasFormat b ↔ ∀ r ∈ formatRequirements b, r.isMet = true
  format : ∀ r ∈ (formatRequirements b).take 4, ∃ fault, r.fault = .format fault
  precision : ∀ r ∈ (formatRequirements b).drop 4, ∃ fault, r.fault = .precision fault
  retains : ∀ f, parse b = .ok f → Retains b f

theorem retains_of_parse {b : ByteArray} {f : Footer} (h : parse b = .ok f) : Retains b f := by
  have hsize : 512 ≤ b.size := (hasFormat_iff.mpr ((governs_parse b).ok_iff.mp ⟨f, h⟩)).size_le
  obtain ⟨raw, hraw, hparse⟩ := readsFront.exists_front hsize
  have hsector := hparse.symm.trans h
  have hfields := storedFields_eq hraw hsector
  refine ⟨fun b' hfront => (readsFront.congr hsize hfront).trans h, ?_, hfields, ?_⟩
  · exact (congrArg Vector.toList (reads_of_ofSector hsector).raw_eq).trans hraw
  · rw [hfields, flatten_fieldsAt]
    rfl

theorem parse_draft (d : Draft) : parse d.footer.bytes = .ok d.footer :=
  (parse_bytes d.footer).trans d.ofSector_footerSector

/-- A byte string is read as a footer just if it has the format, and then nothing is lost. -/
theorem reads_format (b : ByteArray) : ReadsFormat b where
  accepts := (governs_parse b).ok_iff.trans hasFormat_iff.symm
  refuses := (governs_parse b).error_iff
  met := hasFormat_iff
  format := by
    simp [formatRequirements, fieldRequirements]
  precision := by
    simp [formatRequirements, fieldRequirements, StoredSize.optionalRequirement,
      StoredSize.requiredRequirement]
  retains := fun _ => retains_of_parse

theorem reads_format_mixedPair :
    HasFormat (DiskStream.mixedPair 1024 (by decide)).child.footer.bytes ∧
    (DiskStream.mixedPair 1024 (by decide)).child.footer.storedFields.flatten
      = bytesAt (DiskStream.mixedPair 1024 (by decide)).child.footer.bytes 0 85 ∧
    firstFault (formatRequirements ByteArray.empty) = some (.format .footerTooShort) := by
  have hparse := parse_draft (DiskStream.mixedPair 1024 (by decide)).child
  have hreads := reads_format (DiskStream.mixedPair 1024 (by decide)).child.footer.bytes
  exact ⟨hreads.accepts.mp ⟨_, hparse⟩, (hreads.retains _ hparse).flatten_eq,
    ((reads_format ByteArray.empty).refuses _).mp rfl⟩

end Footer

end VirtualDisk
