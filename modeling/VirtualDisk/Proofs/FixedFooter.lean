import VirtualDisk.Footer
import VirtualDisk.Proofs.Fields
import VirtualDisk.Proofs.Opened

namespace VirtualDisk

section checksum

variable {n : Nat}

theorem outside_congr {v w : Vector UInt8 n} {pos : Nat}
    (h : ∀ i (hi : i < n), ¬(pos ≤ i ∧ i < pos + 4) → v[i] = w[i]) :
    outside v pos = outside w pos := by
  have hget {i : Nat} (hi : i < pos ∨ pos + 4 ≤ i) : v.toList[i]? = w.toList[i]? := by
    rw [Vector.getElem?_toList, Vector.getElem?_toList]
    by_cases hn : i < n
    · rw [Vector.getElem?_eq_getElem hn, Vector.getElem?_eq_getElem hn, h i hn (by omega)]
    · rw [Vector.getElem?_eq_none (by omega), Vector.getElem?_eq_none (by omega)]
  unfold outside
  congr 1
  · apply List.ext_getElem?
    intro i
    rw [List.getElem?_take, List.getElem?_take]
    split
    · exact hget (.inl (by assumption))
    · rfl
  · apply List.ext_getElem?
    intro i
    rw [List.getElem?_drop, List.getElem?_drop]
    exact hget (.inr (by omega))

theorem outside_overwrite (v : Vector UInt8 n) (pos : Nat) (bytes : Vector UInt8 4) :
    outside (overwrite v pos bytes) pos = outside v pos :=
  outside_congr fun i hi hd => by rw [getElem_overwrite, dif_neg hd]

theorem checksum_overwrite (v : Vector UInt8 n) (pos : Nat) (bytes : Vector UInt8 4) :
    checksum (overwrite v pos bytes) pos = checksum v pos := by
  rw [checksum, checksum, outside_overwrite]

theorem byteSum_le (bytes : List UInt8) : byteSum bytes ≤ 255 * bytes.length := by
  have hfold (sum : Nat) :
      bytes.foldl (fun sum b => sum + b.toNat) sum ≤ sum + 255 * bytes.length := by
    induction bytes generalizing sum with
    | nil => exact Nat.le_refl sum
    | cons b more ih =>
      have hb := b.toNat_lt
      have hmore := ih (sum + b.toNat)
      rw [List.foldl_cons, List.length_cons]
      omega
  exact Nat.zero_add (255 * bytes.length) ▸ hfold 0

theorem length_outside_le (v : Vector UInt8 n) (pos : Nat) : (outside v pos).length ≤ n := by
  rw [outside, List.length_append, List.length_take, List.length_drop, Vector.length_toList]
  omega

theorem byteSum_outside_lt (v : Vector UInt8 n) (pos : Nat) (hn : 255 * n < 4294967296) :
    byteSum (outside v pos) < 4294967296 := by
  have hlength := length_outside_le v pos
  have hsum := byteSum_le (outside v pos)
  omega

theorem toNat_checksum {v : Vector UInt8 n} {pos : Nat}
    (hsum : byteSum (outside v pos) < 4294967296) :
    (checksum v pos).toNat = 4294967295 - byteSum (outside v pos) := by
  rw [checksum, UInt32.toNat_not, UInt32.toNat_ofNat_of_lt' hsum]
  rfl

/-- A checksum that is written to its own place is the one that is stored there. -/
theorem checksum_overwrite_checksum (v : Vector UInt8 n) {pos : Nat} (h : pos + 4 ≤ n) :
    let v' := overwrite v pos (numberBytes 4 (checksum v pos).toNat)
    checksum v' pos = UInt32.ofNat (number v' pos 4 h) := by
  intro v'
  have hstored : number v' pos 4 h = (checksum v pos).toNat :=
    number_overwrite_self _ (UInt32.toNat_lt _)
  rw [hstored, UInt32.ofNat_toNat, checksum_overwrite]

theorem checksum_eq_ofNat_iff {v : Vector UInt8 n} {pos value : Nat}
    (hsum : byteSum (outside v pos) < 4294967296) (hvalue : value < 4294967296) :
    checksum v pos = UInt32.ofNat value ↔ value + byteSum (outside v pos) = 4294967295 := by
  rw [← UInt32.toNat_inj, toNat_checksum hsum, UInt32.toNat_ofNat_of_lt' hvalue]
  omega

end checksum

namespace Footer

variable {raw : Vector UInt8 512} {f : Footer} {creator : Option (Vector UInt8 4)}

structure Reads (raw : Vector UInt8 512) (f : Footer) : Prop where
  cookie_eq : field raw 0 8 = cookie
  version_eq : UInt32.ofNat (number raw 12 4) = version
  type_eq : DiskType.ofCode? (number raw 60 4) = some f.diskType
  offset_eq : StoredSize.optional (number raw 16 8) "footer data offset" = .ok f.dataOffset
  initial_eq : StoredSize.required (number raw 40 8) "footer original size" = .ok f.initialSize
  current_eq : StoredSize.required (number raw 48 8) "footer current size" = .ok f.currentSize
  converted_eq : f.convertedType = f.diskType
  creator_eq : f.creator = field raw 28 4
  checksum_eq : f.checksum = UInt32.ofNat (number raw 64 4)
  id_eq : f.uniqueId = ⟨field raw 68 16⟩
  raw_eq : f.raw = raw

theorem reads_of_ofSector (h : ofSector raw = .ok f) : Reads raw f := by
  unfold ofSector at h
  simp only at h
  split at h
  · cases h
  next hcookie =>
  split at h
  · cases h
  next hversion =>
  split at h
  · cases h
  next hcode =>
  obtain ⟨offset, hoffset, h⟩ := bind_eq_ok.mp h
  obtain ⟨initial, hinitial, h⟩ := bind_eq_ok.mp h
  obtain ⟨current, hcurrent, h⟩ := bind_eq_ok.mp h
  cases h
  exact ⟨Decidable.not_not.mp hcookie, Decidable.not_not.mp hversion, hcode, hoffset, hinitial,
    hcurrent, rfl, rfl, rfl, rfl, rfl⟩

theorem ofSector_of_fields {type : DiskType} {offset : Option Nat} {initial current : Nat}
    (hcookie : field raw 0 8 = cookie) (hversion : UInt32.ofNat (number raw 12 4) = version)
    (htype : DiskType.ofCode? (number raw 60 4) = some type)
    (hoffset : StoredSize.optional (number raw 16 8) "footer data offset" = .ok offset)
    (hinitial : StoredSize.required (number raw 40 8) "footer original size" = .ok initial)
    (hcurrent : StoredSize.required (number raw 48 8) "footer current size" = .ok current) :
    ∃ f, ofSector raw = .ok f := by
  unfold ofSector
  simp only [hcookie, hversion, htype, ne_eq, not_true, if_false]
  exact ⟨_, bind_eq_ok.mpr ⟨_, hoffset, bind_eq_ok.mpr ⟨_, hinitial,
    bind_eq_ok.mpr ⟨_, hcurrent, rfl⟩⟩⟩⟩

theorem toFixed_of_fixed (h : f.convertedType = .fixed) : f.toFixed creator = f := if_pos h

/-- The sector of a footer that is converted, before its checksum is renewed. -/
def unsummed (raw : Vector UInt8 512) (creator : Option (Vector UInt8 4)) : Vector UInt8 512 :=
  let typed := overwrite raw 60 (numberBytes 4 DiskType.fixed.code)
  let unlinked := overwrite typed 16 (numberBytes 8 StoredSize.absent)
  match creator with
  | some tag => overwrite unlinked 28 tag
  | none => unlinked

theorem toFixed_of_sparse (h : f.convertedType ≠ .fixed) (creator : Option (Vector UInt8 4)) :
    f.toFixed creator
      = withChecksum { f with convertedType := .fixed, raw := unsummed f.raw creator } :=
  if_neg h

section unsummed

variable (raw) (creator)

theorem number_type_unsummed : number (unsummed raw creator) 60 4 = DiskType.fixed.code := by
  have htype : number (overwrite raw 60 (numberBytes 4 DiskType.fixed.code)) 60 4
      = DiskType.fixed.code := number_overwrite_self _ (by decide)
  cases creator with
  | none => rw [unsummed, number_overwrite_of_disjoint _ _ (by omega), htype]
  | some tag =>
    rw [unsummed, number_overwrite_of_disjoint _ _ (by omega),
      number_overwrite_of_disjoint _ _ (by omega), htype]

theorem field_offset_unsummed :
    field (unsummed raw creator) 16 8 = numberBytes 8 StoredSize.absent := by
  cases creator with
  | none => rw [unsummed, field_overwrite_self]
  | some tag => rw [unsummed, field_overwrite_of_disjoint _ _ (by omega), field_overwrite_self]

theorem number_offset_unsummed : number (unsummed raw creator) 16 8 = StoredSize.absent := by
  rw [number, field_offset_unsummed]
  exact bigEndian_bigEndianBytes (by decide)

theorem field_creator_unsummed :
    field (unsummed raw creator) 28 4 = creator.getD (field raw 28 4) := by
  cases creator with
  | none =>
    rw [unsummed, field_overwrite_of_disjoint _ _ (by omega),
      field_overwrite_of_disjoint _ _ (by omega)]
    rfl
  | some tag => rw [unsummed, field_overwrite_self, Option.getD_some]

theorem getElem_unsummed {i : Nat} (hi : i < 512)
    (hd : ¬(16 ≤ i ∧ i < 24) ∧ ¬(28 ≤ i ∧ i < 32) ∧ ¬(60 ≤ i ∧ i < 64)) :
    (unsummed raw creator)[i] = raw[i] := by
  cases creator with
  | none => simp (disch := omega) only [unsummed, getElem_overwrite, dif_neg]
  | some tag => simp (disch := omega) only [unsummed, getElem_overwrite, dif_neg]

theorem field_unsummed {pos width : Nat} (hn : pos + width ≤ 512)
    (hd : pos + width ≤ 16 ∨ 32 ≤ pos ∧ pos + width ≤ 60 ∨ 64 ≤ pos) :
    field (unsummed raw creator) pos width hn = field raw pos width hn := by
  ext i hi
  rw [getElem_field, getElem_field, getElem_unsummed _ _ _ (by omega)]

end unsummed

theorem raw_withChecksum (f : Footer) : f.withChecksum.raw
    = overwrite f.raw 64 (numberBytes 4 (VirtualDisk.checksum f.raw 64).toNat) := rfl

/-- A sector stays one of a footer if nothing changes but its type and the place of
the header, and both can still be read. -/
theorem ofSector_of_kept {raw' : Vector UInt8 512} {type : DiskType} {offset : Option Nat}
    (h : Reads raw f)
    (hkept : ∀ pos width (hn : pos + width ≤ 512), pos + width ≤ 16 ∨ 32 ≤ pos ∧ pos + width ≤ 60 →
      field raw' pos width hn = field raw pos width hn)
    (htype : DiskType.ofCode? (number raw' 60 4) = some type)
    (hoffset : StoredSize.optional (number raw' 16 8) "footer data offset" = .ok offset) :
    ∃ g, ofSector raw' = .ok g ∧ Reads raw' g ∧ g.diskType = type ∧
      g.currentSize = f.currentSize := by
  have hnumber (pos width : Nat) (hn : pos + width ≤ 512)
      (hd : pos + width ≤ 16 ∨ 32 ≤ pos ∧ pos + width ≤ 60) :
      number raw' pos width hn = number raw pos width hn := by
    rw [number, number, hkept pos width hn hd]
  have hcookie : field raw' 0 8 = cookie := (hkept 0 8 _ (by omega)).trans h.cookie_eq
  have hversion : UInt32.ofNat (number raw' 12 4) = version := by
    rw [hnumber 12 4 _ (by omega), h.version_eq]
  have hinitial := h.initial_eq
  have hcurrent := h.current_eq
  rw [← hnumber 40 8 _ (by omega)] at hinitial
  rw [← hnumber 48 8 _ (by omega)] at hcurrent
  obtain ⟨g, hg⟩ := ofSector_of_fields hcookie hversion htype hoffset hinitial hcurrent
  have hread := reads_of_ofSector hg
  exact ⟨g, hg, hread, Option.some.inj (hread.type_eq.symm.trans htype),
    Except.ok.inj (hread.current_eq.symm.trans hcurrent)⟩

/-- A footer that is read from the sector of the flattened disk of another. -/
structure IsFlattened (f flat : Footer) (creator : Option (Vector UInt8 4)) : Prop where
  type_eq : flat.diskType = .fixed
  currentSize_eq : flat.currentSize = f.currentSize
  uniqueId_eq : flat.uniqueId = f.uniqueId
  raw_eq : flat.raw = (f.toFixed creator).raw
  toFixed_eq : flat.toFixed creator = flat
  isIntact : f.diskType ≠ .fixed → flat.isIntact = true
  eq_of_fixed : f.diskType = .fixed → flat = f

theorem isIntact_congr {g : Footer} (h : g.raw = f.raw) : g.isIntact = f.isIntact := by
  rw [isIntact, isIntact, computedChecksum, computedChecksum, h]

theorem isIntact_of_raw {v : Vector UInt8 512}
    (h : f.raw = overwrite v 64 (numberBytes 4 (VirtualDisk.checksum v 64).toNat)) :
    f.isIntact = true := by
  rw [isIntact, computedChecksum, h, beq_iff_eq]
  exact checksum_overwrite_checksum v (by decide)

theorem isIntact_withChecksum (f : Footer) : f.withChecksum.isIntact = true :=
  isIntact_of_raw (raw_withChecksum f)

theorem isIntact_toFixed (h : f.convertedType ≠ .fixed) (creator : Option (Vector UInt8 4)) :
    (f.toFixed creator).isIntact = true := by
  rw [toFixed_of_sparse h]
  exact isIntact_withChecksum _

theorem ofSector_toFixed_of_sparse {g : Footer} (h : Reads f.raw g) (ht : f.convertedType ≠ .fixed)
    (creator : Option (Vector UInt8 4)) :
    ∃ flat, ofSector (f.toFixed creator).raw = .ok flat ∧ Reads (f.toFixed creator).raw flat ∧
      flat.diskType = .fixed ∧ flat.currentSize = g.currentSize := by
  have hraw : (f.toFixed creator).raw = overwrite (unsummed f.raw creator) 64
      (numberBytes 4 (VirtualDisk.checksum (unsummed f.raw creator) 64).toNat) := by
    rw [toFixed_of_sparse ht, raw_withChecksum]
  rw [hraw]
  apply ofSector_of_kept h
  · intro pos width hn hd
    rw [field_overwrite_of_disjoint _ _ (by omega), field_unsummed _ _ _ (by omega)]
  · rw [number_overwrite_of_disjoint _ _ (by omega), number_type_unsummed]
    rfl
  · rw [number_overwrite_of_disjoint _ _ (by omega), number_offset_unsummed]
    exact if_pos rfl

/-- The footer of a flattened disk is read as that of a fixed disk. -/
theorem ofSector_toFixed (h : ofSector f.raw = .ok f) (creator : Option (Vector UInt8 4)) :
    ∃ flat, ofSector (f.toFixed creator).raw = .ok flat ∧ f.IsFlattened flat creator := by
  have hread := reads_of_ofSector h
  by_cases ht : f.diskType = .fixed
  · have hfixed : f.toFixed creator = f := toFixed_of_fixed (hread.converted_eq.trans ht)
    refine ⟨f, hfixed.symm ▸ h, ht, rfl, rfl, congrArg raw hfixed.symm, hfixed, ?_, fun _ => rfl⟩
    exact fun hne => absurd ht hne
  · have hsparse : f.convertedType ≠ .fixed := hread.converted_eq ▸ ht
    obtain ⟨flat, hflat, hflatRead, htype, hsize⟩ :=
      ofSector_toFixed_of_sparse hread hsparse creator
    have hid : flat.uniqueId = f.uniqueId := by
      rw [hflatRead.id_eq, hread.id_eq, toFixed_of_sparse hsparse, raw_withChecksum,
        field_overwrite_of_disjoint _ _ (by omega), field_unsummed _ _ _ (by omega)]
    refine ⟨flat, hflat, htype, hsize, hid, hflatRead.raw_eq,
      toFixed_of_fixed (hflatRead.converted_eq.trans htype), fun _ => ?_, fun hf => absurd hf ht⟩
    exact (isIntact_congr hflatRead.raw_eq).trans (isIntact_toFixed hsparse creator)

end Footer

end VirtualDisk
