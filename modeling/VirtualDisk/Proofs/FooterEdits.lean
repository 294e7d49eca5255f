import VirtualDisk.Proofs.FixedFooter
import VirtualDisk.Proofs.Flattening

namespace VirtualDisk

inductive FooterEdit where
  | convert (creator : Option (Vector UInt8 4))
  | sum
  | reparse

namespace Footer

variable {origin f g : Footer} {creator : Option (Vector UInt8 4)} {bytes : ByteArray}

def edit (f : Footer) : FooterEdit → Except Error Footer
  | .convert creator => .ok (f.toFixed creator)
  | .sum => .ok f.withChecksum
  | .reparse => parse f.bytes

def edited (f : Footer) : List FooterEdit → Except Error Footer
  | [] => .ok f
  | e :: more => f.edit e >>= fun g => g.edited more

/-- The places that edits write to: the offset of the header, the tag of the creator,
the type and the checksum. -/
def IsEdited (i : Nat) : Prop := 16 ≤ i ∧ i < 24 ∨ 28 ≤ i ∧ i < 32 ∨ 60 ≤ i ∧ i < 68

/-- What edits of a footer that was read leave of it, and keep in agreement. -/
structure Keeps (origin f : Footer) : Prop where
  readable : ∃ g, ofSector f.raw = .ok g ∧ Reads f.raw g ∧ g.diskType = f.convertedType ∧
    g.currentSize = f.currentSize
  checksum_eq : number f.raw 64 4 = f.checksum.toNat
  getElem_eq : ∀ i (hi : i < 512), ¬IsEdited i → f.raw[i] = origin.raw[i]
  creator_eq : f.convertedType ≠ .fixed → field f.raw 28 4 = origin.creator
  currentSize_eq : f.currentSize = origin.currentSize

theorem parse_bytes (f : Footer) : parse f.bytes = ofSector f.raw := by
  have hle : size ≤ f.bytes.size := Nat.le_of_eq (size_packed f.raw).symm
  rw [parse, dif_pos hle]
  exact congrArg ofSector (vectorAt_packed f.raw _)

theorem number_checksum_of_reads {raw : Vector UInt8 512} (h : Reads raw f) :
    number raw 64 4 = f.checksum.toNat := by
  rw [h.checksum_eq, UInt32.toNat_ofNat_of_lt' (number_lt raw _)]

theorem keeps_of_parse (h : parse bytes = .ok f) : f.Keeps f := by
  unfold parse at h
  split at h
  · have hread := reads_of_ofSector h
    rw [← hread.raw_eq] at h hread
    constructor
    · exact ⟨f, h, hread, hread.converted_eq.symm, rfl⟩
    · exact number_checksum_of_reads hread
    · exact fun _ _ _ => rfl
    · exact fun _ => hread.creator_eq.symm
    · rfl
  · cases h

theorem withChecksum_withChecksum (f : Footer) : f.withChecksum.withChecksum = f.withChecksum := by
  have hsum : f.withChecksum.computedChecksum = f.computedChecksum := checksum_overwrite _ _ _
  have hraw : overwrite f.withChecksum.raw 64 (numberBytes 4 f.computedChecksum.toNat)
      = f.withChecksum.raw := by
    ext i hi
    rw [getElem_overwrite]
    split
    · next hd => rw [raw_withChecksum, getElem_overwrite, dif_pos hd]; rfl
    · rfl
  rw [withChecksum.eq_1 f.withChecksum, hsum]
  exact congrArg (fun raw => { f.withChecksum with raw }) hraw

namespace Keeps

theorem number_type (h : origin.Keeps f) : number f.raw 60 4 = f.convertedType.code := by
  obtain ⟨g, -, hread, htype, -⟩ := h.readable
  rw [← htype]
  exact (DiskType.ofCode?_eq_some_iff.mp hread.type_eq).symm

theorem isFixed_iff (h : origin.Keeps f) :
    number f.raw 60 4 = DiskType.fixed.code ↔ f.convertedType = .fixed := by
  rw [h.number_type]
  cases f.convertedType <;> decide

protected theorem withChecksum (h : origin.Keeps f) : origin.Keeps f.withChecksum := by
  have hfield (pos width : Nat) (hn : pos + width ≤ 512) (hd : pos + width ≤ 64 ∨ 68 ≤ pos) :
      field f.withChecksum.raw pos width hn = field f.raw pos width hn :=
    field_overwrite_of_disjoint _ _ hd
  have hnumber (pos width : Nat) (hn : pos + width ≤ 512) (hd : pos + width ≤ 64 ∨ 68 ≤ pos) :
      number f.withChecksum.raw pos width hn = number f.raw pos width hn :=
    number_overwrite_of_disjoint _ _ hd
  obtain ⟨g, -, hread, htype, hsize⟩ := h.readable
  have htype' := hread.type_eq
  have hoffset := hread.offset_eq
  rw [← hnumber 60 4 _ (by omega), htype] at htype'
  rw [← hnumber 16 8 _ (by omega)] at hoffset
  obtain ⟨g', hg', hread', hconverted, hcurrent⟩ := ofSector_of_kept hread
    (fun pos width hn hd => hfield pos width hn (by omega)) htype' hoffset
  constructor
  · exact ⟨g', hg', hread', hconverted, hcurrent.trans hsize⟩
  · exact number_overwrite_self _ (UInt32.toNat_lt _)
  · intro i hi hd
    rw [← h.getElem_eq i hi hd, raw_withChecksum, getElem_overwrite, dif_neg]
    exact fun hc => hd (.inr (.inr (by omega)))
  · exact fun ht => (hfield 28 4 _ (by omega)).trans (h.creator_eq ht)
  · exact h.currentSize_eq

protected theorem toFixed (h : origin.Keeps f) (creator : Option (Vector UInt8 4)) :
    origin.Keeps (f.toFixed creator) := by
  by_cases ht : f.convertedType = .fixed
  · rwa [toFixed_of_fixed ht]
  · obtain ⟨g, -, hread, -, hsize⟩ := h.readable
    obtain ⟨flat, hflat, hflatRead, htype, hcurrent⟩ := ofSector_toFixed_of_sparse hread ht creator
    rw [toFixed_of_sparse ht] at hflat hflatRead ⊢
    constructor
    · exact ⟨flat, hflat, hflatRead, htype, hcurrent.trans hsize⟩
    · exact number_overwrite_self _ (UInt32.toNat_lt _)
    · intro i hi hd
      unfold IsEdited at hd
      rw [← h.getElem_eq i hi hd, raw_withChecksum, getElem_overwrite, dif_neg (by omega),
        getElem_unsummed _ _ hi (by omega)]
    · exact fun hne => absurd rfl hne
    · exact h.currentSize_eq

protected theorem parse (h : origin.Keeps f) :
    ∃ g, parse f.bytes = .ok g ∧ origin.Keeps g ∧ g.raw = f.raw := by
  obtain ⟨g, hg, hread, htype, hsize⟩ := h.readable
  have hraw := hread.raw_eq
  have hconverted : g.convertedType = f.convertedType := hread.converted_eq.trans htype
  refine ⟨g, (parse_bytes f).trans hg, ?_, hraw⟩
  constructor
  · rw [hraw]
    exact ⟨g, hg, hread, hread.converted_eq.symm, rfl⟩
  · rw [hraw]
    exact number_checksum_of_reads hread
  · rw [hraw]
    exact h.getElem_eq
  · rw [hraw, hconverted]
    exact h.creator_eq
  · exact hsize.trans h.currentSize_eq

/-- An edit succeeds, keeps the agreement, and does not spoil a right checksum. -/
protected theorem edit (h : origin.Keeps f) (e : FooterEdit) :
    ∃ g, f.edit e = .ok g ∧ origin.Keeps g ∧ (f.isIntact = true → g.isIntact = true) := by
  cases e with
  | convert creator =>
    refine ⟨f.toFixed creator, rfl, h.toFixed creator, fun hi => ?_⟩
    by_cases ht : f.convertedType = .fixed
    · rwa [toFixed_of_fixed ht]
    · exact isIntact_toFixed ht creator
  | sum => exact ⟨f.withChecksum, rfl, h.withChecksum, fun _ => isIntact_withChecksum f⟩
  | reparse =>
    obtain ⟨g, hg, hkeeps, hraw⟩ := h.parse
    exact ⟨g, hg, hkeeps, fun hi => (isIntact_congr hraw).trans hi⟩

protected theorem edited (h : origin.Keeps f) (edits : List FooterEdit) :
    ∃ g, f.edited edits = .ok g ∧ origin.Keeps g ∧ (f.isIntact = true → g.isIntact = true) := by
  induction edits generalizing f with
  | nil => exact ⟨f, rfl, h, id⟩
  | cons e more ih =>
    obtain ⟨next, hnext, hkeeps, hintact⟩ := h.edit e
    obtain ⟨g, hg, hlast, hstays⟩ := ih hkeeps
    exact ⟨g, bind_eq_ok.mpr ⟨next, hnext, hg⟩, hlast, hstays ∘ hintact⟩

end Keeps

/-- The checksum is right and stays so, whatever edits follow. -/
def StaysIntact (f : Footer) : Prop := ∀ more, ∃ g, f.edited more = .ok g ∧ g.isIntact = true

theorem Keeps.staysIntact (h : origin.Keeps f) (hi : f.isIntact = true) : f.StaysIntact := by
  intro more
  obtain ⟨g, hg, -, hstays⟩ := h.edited more
  exact ⟨g, hg, hstays hi⟩

/-- A footer that conversion leaves of one that was not fixed. -/
structure IsConverted (f : Footer) (creator : Vector UInt8 4) : Prop where
  type_eq : number f.raw 60 4 = DiskType.fixed.code
  offset_eq : field f.raw 16 8 = Vector.replicate 8 0xFF
  creator_eq : field f.raw 28 4 = creator
  staysIntact : f.StaysIntact

theorem Keeps.isConverted (h : origin.Keeps f) (ht : f.convertedType ≠ .fixed)
    (creator : Option (Vector UInt8 4)) :
    (f.toFixed creator).IsConverted (creator.getD origin.creator) := by
  have hstays := (h.toFixed creator).staysIntact (isIntact_toFixed ht creator)
  rw [toFixed_of_sparse ht] at hstays ⊢
  constructor
  · rw [raw_withChecksum, number_overwrite_of_disjoint _ _ (by omega), number_type_unsummed]
  · rw [raw_withChecksum, field_overwrite_of_disjoint _ _ (by omega), field_offset_unsummed]
    rfl
  · rw [raw_withChecksum, field_overwrite_of_disjoint _ _ (by omega), field_creator_unsummed,
      h.creator_eq ht]
  · exact hstays

structure IsEditOf (g : Footer) (bytes : ByteArray) (origin : Footer) : Prop where
  reparses : ∃ again, parse g.bytes = .ok again
  byteAt_eq : ∀ i < 512, ¬IsEdited i → byteAt g.bytes i = byteAt bytes i
  checksum_eq : number g.raw 64 4 = g.checksum.toNat
  type_eq : number g.raw 60 4 = g.convertedType.code
  currentSize_eq : g.currentSize = origin.currentSize
  flattenedLength_eq : g.flattenedLength = origin.currentSize + 512
  toFixed_of_fixed : number g.raw 60 4 = DiskType.fixed.code → ∀ creator, g.toFixed creator = g
  toFixed_of_not_fixed : number g.raw 60 4 ≠ DiskType.fixed.code →
    ∀ creator, (g.toFixed creator).IsConverted (creator.getD origin.creator)
  /-- Only the first of some conversions counts. -/
  foldl_toFixed : ∀ creator (more : List (Option (Vector UInt8 4))),
    more.foldl toFixed (g.toFixed creator) = g.toFixed creator
  withChecksum : g.withChecksum.StaysIntact ∧ g.withChecksum.withChecksum = g.withChecksum
  staysIntact : g.isIntact = true → g.StaysIntact

theorem convertedType_toFixed (f : Footer) (creator : Option (Vector UInt8 4)) :
    (f.toFixed creator).convertedType = .fixed := by
  by_cases ht : f.convertedType = .fixed
  · rw [Footer.toFixed_of_fixed ht, ht]
  · rw [toFixed_of_sparse ht]
    rfl

theorem foldl_toFixed_of_fixed (h : f.convertedType = .fixed)
    (creators : List (Option (Vector UInt8 4))) : creators.foldl toFixed f = f := by
  induction creators with
  | nil => rfl
  | cons creator more ih => rw [List.foldl_cons, Footer.toFixed_of_fixed h, ih]

theorem byteAt_bytes (f : Footer) {i : Nat} (hi : i < 512) : byteAt f.bytes i = some f.raw[i] := by
  simp [byteAt, octets, bytes, packed, hi]

theorem byteAt_of_parse (h : parse bytes = .ok f) {i : Nat} (hi : i < 512) :
    byteAt bytes i = some f.raw[i] := by
  unfold parse at h
  split at h
  · simp [byteAt, octets, (reads_of_ofSector h).raw_eq, vectorAt, ByteArray.getElem_eq_getElem_data]
  · cases h

/-- Whatever edits are made on a footer that was read, they succeed, its sector differs
from the one that was read at few places only, and the fields stay those of the sector. -/
theorem edits_agree (h : parse bytes = .ok f) (edits : List FooterEdit) :
    ∃ g, f.edited edits = .ok g ∧ g.IsEditOf bytes f := by
  obtain ⟨g, hg, hkeeps, -⟩ := (keeps_of_parse h).edited edits
  refine ⟨g, hg, ?_⟩
  constructor
  case reparses =>
    obtain ⟨again, hagain, -⟩ := hkeeps.parse
    exact ⟨again, hagain⟩
  case byteAt_eq =>
    intro i hi hd
    rw [byteAt_bytes g hi, byteAt_of_parse h hi, hkeeps.getElem_eq i hi hd]
  case checksum_eq => exact hkeeps.checksum_eq
  case type_eq => exact hkeeps.number_type
  case currentSize_eq => exact hkeeps.currentSize_eq
  case flattenedLength_eq => exact congrArg (· + 512) hkeeps.currentSize_eq
  case toFixed_of_fixed =>
    intro ht creator
    exact Footer.toFixed_of_fixed (hkeeps.isFixed_iff.mp ht)
  case toFixed_of_not_fixed =>
    intro ht creator
    exact hkeeps.isConverted (fun hf => ht (hkeeps.isFixed_iff.mpr hf)) creator
  case foldl_toFixed =>
    intro creator more
    exact foldl_toFixed_of_fixed (convertedType_toFixed g creator) more
  case withChecksum =>
    exact ⟨hkeeps.withChecksum.staysIntact (isIntact_withChecksum g), withChecksum_withChecksum g⟩
  case staysIntact => exact hkeeps.staysIntact

/-- The footer of an image without a right checksum is given one, read back and then
converted. -/
theorem edits_agree_mixedPair :
    ∃ g, (DiskStream.mixedPair 1024 (by decide)).child.footer.edited
        [.sum, .reparse, .convert (some #v[0x66, 0x6C, 0x61, 0x74]), .convert none, .reparse]
          = .ok g ∧
      g.IsEditOf (packed (DiskStream.mixedPair 1024 (by decide)).child.footerSector)
        (DiskStream.mixedPair 1024 (by decide)).child.footer := by
  have hparse : parse (packed (DiskStream.mixedPair 1024 (by decide)).child.footerSector)
      = .ok (DiskStream.mixedPair 1024 (by decide)).child.footer :=
    (parse_bytes (DiskStream.mixedPair 1024 (by decide)).child.footer).trans
      (DiskStream.mixedPair 1024 (by decide)).child.ofSector_footerSector
  exact edits_agree hparse _

end Footer

end VirtualDisk
