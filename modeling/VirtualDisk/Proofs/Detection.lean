import VirtualDisk.Proofs.FooterFormat
import VirtualDisk.Proofs.HeaderFormat

namespace VirtualDisk

section OneApart

variable {α : Type} {xs ys : List α} {x y : α}

/-- Two lists that differ in one place. -/
def OneApart (xs ys : List α) : Prop :=
  ∃ front x y rest, x ≠ y ∧ xs = front ++ x :: rest ∧ ys = front ++ y :: rest

theorem OneApart.ne (h : OneApart xs ys) : xs ≠ ys := by
  obtain ⟨front, x, y, rest, hne, rfl, rfl⟩ := h
  intro he
  exact hne (List.cons.inj (List.append_cancel_left he)).1

theorem OneApart.length_eq (h : OneApart xs ys) : xs.length = ys.length := by
  obtain ⟨front, x, y, rest, -, rfl, rfl⟩ := h
  rw [List.length_append, List.length_append, List.length_cons, List.length_cons]

theorem OneApart.append_left (h : OneApart xs ys) (more : List α) :
    OneApart (more ++ xs) (more ++ ys) := by
  obtain ⟨front, x, y, rest, hne, rfl, rfl⟩ := h
  exact ⟨more ++ front, x, y, rest, hne, (List.append_assoc _ _ _).symm,
    (List.append_assoc _ _ _).symm⟩

theorem OneApart.append_right (h : OneApart xs ys) (more : List α) :
    OneApart (xs ++ more) (ys ++ more) := by
  obtain ⟨front, x, y, rest, hne, rfl, rfl⟩ := h
  exact ⟨front, x, y, rest ++ more, hne, List.append_assoc _ _ _, List.append_assoc _ _ _⟩

theorem OneApart.cut (h : OneApart xs ys) (k : Nat) :
    OneApart (xs.take k) (ys.take k) ∧ xs.drop k = ys.drop k ∨
      xs.take k = ys.take k ∧ OneApart (xs.drop k) (ys.drop k) := by
  obtain ⟨front, x, y, rest, hne, rfl, rfl⟩ := h
  rw [List.take_append, List.take_append, List.drop_append, List.drop_append]
  by_cases hk : k ≤ front.length
  · right
    have hzero : k - front.length = 0 := Nat.sub_eq_zero_of_le hk
    rw [hzero]
    exact ⟨rfl, front.drop k, x, y, rest, hne, rfl, rfl⟩
  · left
    obtain ⟨j, hj⟩ : ∃ j, k - front.length = j + 1 := ⟨k - front.length - 1, by omega⟩
    have hall : front.take k = front := List.take_of_length_le (by omega)
    rw [hj, hall]
    exact ⟨⟨front, x, y, rest.take j, hne, rfl, rfl⟩, rfl⟩

theorem OneApart.within_or_outside (h : OneApart xs ys) (pos width : Nat) :
    OneApart ((xs.drop pos).take width) ((ys.drop pos).take width) ∧
        xs.take pos ++ xs.drop (pos + width) = ys.take pos ++ ys.drop (pos + width) ∨
      (xs.drop pos).take width = (ys.drop pos).take width ∧
        OneApart (xs.take pos ++ xs.drop (pos + width)) (ys.take pos ++ ys.drop (pos + width)) := by
  simp only [← List.drop_drop]
  obtain ⟨hfront, hbehind⟩ | ⟨hfront, hbehind⟩ := h.cut pos
  · rw [hbehind]
    exact .inr ⟨rfl, hfront.append_right _⟩
  · rw [hfront]
    obtain ⟨hin, hrest⟩ | ⟨hin, hrest⟩ := hbehind.cut width
    · rw [hrest]
      exact .inl ⟨hin, rfl⟩
    · exact .inr ⟨hin, hrest.append_left _⟩

theorem oneApart_set {i : Nat} (hi : i < xs.length) (hx : xs[i] ≠ x) :
    OneApart xs (xs.set i x) := by
  refine ⟨xs.take i, xs[i], x, xs.drop (i + 1), hx, ?_, ?_⟩
  · rw [List.getElem_cons_drop, List.take_append_drop]
  · rw [List.set_eq_take_append_cons_drop, if_pos hi]

end OneApart

section sums

variable {xs ys bytes : List UInt8}

theorem byteSum_append (xs ys : List UInt8) : byteSum (xs ++ ys) = byteSum xs + byteSum ys := by
  induction ys using List.reverseRecOn with
  | nil => rw [List.append_nil]; rfl
  | append_singleton ys y ih =>
    have hlast (zs : List UInt8) : byteSum (zs ++ [y]) = byteSum zs + y.toNat := by
      simp [byteSum]
    rw [← List.append_assoc, hlast, hlast, ih, Nat.add_assoc]

theorem byteSum_cons (x : UInt8) (xs : List UInt8) : byteSum (x :: xs) = x.toNat + byteSum xs := by
  have hfirst : byteSum [x] = x.toNat := Nat.zero_add _
  rw [← hfirst, ← byteSum_append, List.singleton_append]

theorem OneApart.byteSum_ne (h : OneApart xs ys) : byteSum xs ≠ byteSum ys := by
  obtain ⟨front, x, y, rest, hne, rfl, rfl⟩ := h
  rw [byteSum_append, byteSum_append, byteSum_cons, byteSum_cons]
  intro he
  exact hne (UInt8.toNat_inj.mp (by omega))

theorem bigEndian_injective (hl : xs.length = ys.length) (h : bigEndian xs = bigEndian ys) :
    xs = ys := by
  rw [← bigEndianBytes_bigEndian xs, ← bigEndianBytes_bigEndian ys, hl, h]

/-- The sum of bytes as it is kept in a word, one byte after the other. -/
def wordSum (bytes : List UInt8) : UInt32 := bytes.foldl (fun sum b => sum + b.toUInt32) 0

theorem wordSum_eq (bytes : List UInt8) : wordSum bytes = UInt32.ofNat (byteSum bytes) := by
  induction bytes using List.reverseRecOn with
  | nil => rfl
  | append_singleton bytes b ih =>
    have hb : byteSum [b] = b.toNat := Nat.zero_add _
    have hword : wordSum (bytes ++ [b]) = wordSum bytes + b.toUInt32 := by simp [wordSum]
    rw [hword, ih, byteSum_append, hb, UInt32.ofNat_add, UInt32.ofNat_uInt8ToNat]

theorem toNat_wordSum (h : 255 * bytes.length < 4294967296) :
    (wordSum bytes).toNat = byteSum bytes := by
  rw [wordSum_eq]
  exact UInt32.toNat_ofNat_of_lt' (Nat.lt_of_le_of_lt (byteSum_le bytes) h)

end sums

section checksum

variable {n m pos : Nat}

/-- What the checksums tell of blocks of `n` bytes, where they are stored at `pos`. -/
structure ChecksumTells (n pos : Nat) : Prop where
  checksum_eq : ∀ v : Vector UInt8 n, checksum v pos = ~~~ wordSum (outside v pos)
  exact : ∀ (v : Vector UInt8 n) (front : List UInt8), front <+: outside v pos →
    (wordSum front).toNat = byteSum front
  ignores : ∀ v w : Vector UInt8 n,
    (∀ i (hi : i < n), ¬(pos ≤ i ∧ i < pos + 4) → v[i] = w[i]) → checksum v pos = checksum w pos
  differs : ∀ (m : Nat) (v : Vector UInt8 n) (w : Vector UInt8 m), 255 * m < 4294967296 →
    (checksum v pos ≠ checksum w pos ↔ byteSum (outside v pos) ≠ byteSum (outside w pos))

theorem checksum_eq_checksum_iff {v : Vector UInt8 n} {w : Vector UInt8 m}
    (hn : 255 * n < 4294967296) (hm : 255 * m < 4294967296) :
    checksum v pos = checksum w pos ↔ byteSum (outside v pos) = byteSum (outside w pos) := by
  have hv := byteSum_outside_lt v pos hn
  have hw := byteSum_outside_lt w pos hm
  rw [← UInt32.toNat_inj, toNat_checksum hv, toNat_checksum hw]
  omega

theorem checksumTells (hn : 255 * n < 4294967296) (pos : Nat) : ChecksumTells n pos where
  checksum_eq := fun v => congrArg (~~~ ·) (wordSum_eq (outside v pos)).symm
  exact := by
    intro v front hfront
    have hlength : front.length ≤ n := Nat.le_trans hfront.length_le (length_outside_le v pos)
    exact toNat_wordSum (by omega)
  ignores := fun v w h => congrArg (fun bytes => ~~~ UInt32.ofNat (byteSum bytes)) (outside_congr h)
  differs := fun _ _ _ hm => not_congr (checksum_eq_checksum_iff hn hm)

/-- One changed byte leaves no block with a right checksum. -/
theorem OneApart.checksum_ne {v w : Vector UInt8 n} (h : OneApart v.toList w.toList)
    (hn : 255 * n < 4294967296) (hpos : pos + 4 ≤ n)
    (hv : checksum v pos = UInt32.ofNat (number v pos 4 hpos)) :
    checksum w pos ≠ UInt32.ofNat (number w pos 4 hpos) := by
  intro hw
  rw [checksum_eq_ofNat_iff (byteSum_outside_lt _ _ hn) (number_lt _ _)] at hv hw
  rw [number, toList_field, outside] at hv hw
  have hlength (v : Vector UInt8 n) : ((v.toList.drop pos).take 4).length = 4 := by
    rw [List.length_take, List.length_drop, Vector.length_toList]
    omega
  obtain ⟨hin, hout⟩ | ⟨hin, hout⟩ := h.within_or_outside pos 4
  · rw [hout] at hv
    exact hin.ne (bigEndian_injective ((hlength v).trans (hlength w).symm) (by omega))
  · rw [hin] at hv
    exact hout.byteSum_ne (by omega)

theorem oneApart_overwrite {v : Vector UInt8 n} {x : UInt8} (hpos : pos < n) (hx : v[pos] ≠ x) :
    OneApart v.toList (overwrite v pos #v[x]).toList := by
  have hlt : pos < v.toList.length := by rwa [Vector.length_toList]
  have hset : (overwrite v pos #v[x]).toList = v.toList.set pos x := by
    apply List.ext_getElem
    · rw [List.length_set, Vector.length_toList, Vector.length_toList]
    · intro i h1 h2
      rw [List.getElem_set, Vector.getElem_toList, Vector.getElem_toList, getElem_overwrite]
      by_cases hi : pos = i
      · rw [dif_pos (by omega), if_pos hi]
        simp [hi]
      · rw [dif_neg (by omega), if_neg hi]
  rw [hset]
  exact oneApart_set hlt hx

end checksum

section detection

variable {b b' : ByteArray}

namespace Footer

theorem toList_raw {f : Footer} (hb : b.size = 512) (h : parse b = .ok f) :
    f.raw.toList = octets b := by
  rw [← bytesAt_size, hb]
  exact (retains_of_parse h).bytes_eq

theorem isIntact_of_oneApart {f f' : Footer} (hb : b.size = 512) (hf : parse b = .ok f)
    (hintact : f.isIntact = true) (h : OneApart (octets b) (octets b')) (hf' : parse b' = .ok f') :
    f'.isIntact = false := by
  have hb' : b'.size = 512 := by rw [← length_octets, ← h.length_eq, length_octets, hb]
  rw [← toList_raw hb hf, ← toList_raw hb' hf'] at h
  exact beq_false_of_ne (h.checksum_ne (by decide) (by decide) (eq_of_beq hintact))

theorem parse_overwrite_last (f : Footer) (h : ofSector f.raw = .ok f) (x : UInt8) :
    ∃ f', parse (packed (overwrite f.raw 511 #v[x])) = .ok f' := by
  have hreads := reads_of_ofSector h
  have hkept (pos width : Nat) (hn : pos + width ≤ 512) (hd : pos + width ≤ 511) :
      field (overwrite f.raw 511 #v[x]) pos width hn = field f.raw pos width hn :=
    field_overwrite_of_disjoint _ _ (.inl hd)
  have htype : DiskType.ofCode? (number (overwrite f.raw 511 #v[x]) 60 4) = some f.diskType := by
    rw [number, hkept _ _ _ (by omega)]
    exact hreads.type_eq
  have hoffset : StoredSize.optional (number (overwrite f.raw 511 #v[x]) 16 8) "footer data offset"
      = .ok f.dataOffset := by
    rw [number, hkept _ _ _ (by omega)]
    exact hreads.offset_eq
  obtain ⟨f', hf', -⟩ := ofSector_of_kept hreads
    (fun pos width hn hd => hkept pos width hn (by omega)) htype hoffset
  have hle : size ≤ (packed (overwrite f.raw 511 #v[x])).size := Nat.le_of_eq (size_packed _).symm
  exact ⟨f', by rw [parse, dif_pos hle, vectorAt_packed, hf']⟩

end Footer

namespace SparseHeader

theorem toList_raw {header : SparseHeader} (hb : b.size = 1024) (h : parse b = .ok header) :
    header.raw.toList = octets b := by
  rw [← bytesAt_size, hb]
  exact (retains_of_parse h).raw_eq

theorem checksum_of_parse {header : SparseHeader} (h : parse b = .ok header) :
    header.checksum = UInt32.ofNat (number header.raw 36 4) := by
  have hformat := hasFormat_iff.mpr ((governs_parse b).ok_iff.mp ⟨header, h⟩)
  obtain ⟨raw, -, hparse⟩ := readsFront.exists_front hformat.size_le
  have hreads := reads_of_ofBlock (hparse.symm.trans h)
  rw [hreads.checksum_eq, hreads.raw_eq]

theorem isIntact_of_oneApart {header header' : SparseHeader} (hb : b.size = 1024)
    (hh : parse b = .ok header) (hintact : header.isIntact = true)
    (h : OneApart (octets b) (octets b')) (hh' : parse b' = .ok header') :
    header'.isIntact = false := by
  have hb' : b'.size = 1024 := by rw [← length_octets, ← h.length_eq, length_octets, hb]
  rw [← toList_raw hb hh, ← toList_raw hb' hh'] at h
  have hsum := (eq_of_beq hintact).trans (checksum_of_parse hh)
  rw [isIntact, checksum_of_parse hh']
  exact beq_false_of_ne (h.checksum_ne (by decide) (by decide) hsum)

theorem HasFormat.of_front (h : HasFormat b) (hb' : 1024 ≤ b'.size)
    (hfront : bytesAt b' 0 36 = bytesAt b 0 36) : HasFormat b' := by
  have hbytes (pos width : Nat) (hle : pos + width ≤ 36) :
      bytesAt b' pos width = bytesAt b pos width := by
    have hpart (b : ByteArray) : bytesAt b pos width = ((bytesAt b 0 36).drop pos).take width := by
      rw [bytesAt, bytesAt, List.drop_zero, List.drop_take, List.take_take,
        Nat.min_eq_left (by omega)]
    rw [hpart b', hpart b, hfront]
  have hnumber (pos width : Nat) (hle : pos + width ≤ 36) :
      numberAt b' pos width = numberAt b pos width := congrArg bigEndian (hbytes pos width hle)
  constructor
  case size_le => exact hb'
  case cookie => rw [hbytes 0 8 (by decide), h.cookie]
  case blockSize => rw [hnumber 32 4 (by decide)]; exact h.blockSize
  case dataOffset => rw [hnumber 8 8 (by decide)]; exact h.dataOffset
  case tableOffset => rw [hnumber 16 8 (by decide)]; exact h.tableOffset

end SparseHeader

/-- A footer or a header with a right checksum does not survive the change of one byte, for
sums of so few bytes are exact. -/
theorem one_byte_detected :
    (∀ b b' f f', b.size = 512 → Footer.parse b = .ok f → f.isIntact = true →
      OneApart (octets b) (octets b') → Footer.parse b' = .ok f' → f'.isIntact = false) ∧
    (∀ b b' h h', b.size = 1024 → SparseHeader.parse b = .ok h → h.isIntact = true →
      OneApart (octets b) (octets b') → SparseHeader.parse b' = .ok h' → h'.isIntact = false) ∧
    ∀ n pos, 255 * n < 4294967296 → ChecksumTells n pos :=
  ⟨fun _ _ _ _ => Footer.isIntact_of_oneApart, fun _ _ _ _ => SparseHeader.isIntact_of_oneApart,
    fun _ pos hn => checksumTells hn pos⟩

end detection

namespace Draft

variable (d : Draft)

theorem parse_of_getElem_eq {v : Vector UInt8 1024}
    (h : ∀ i (hi : i < 36), v[i] = d.headerBlock[i]) :
    ∃ header, SparseHeader.parse (packed v) = .ok header := by
  have hblock : SparseHeader.HasFormat (packed d.headerBlock) :=
    SparseHeader.hasFormat_iff.mpr
      ((SparseHeader.governs_parse _).ok_iff.mp ⟨_, d.parse_headerBlock⟩)
  have hsize : 1024 ≤ (packed v).size := Nat.le_of_eq (size_packed v).symm
  have hfront : bytesAt (packed v) 0 36 = bytesAt (packed d.headerBlock) 0 36 := by
    apply List.ext_getElem
    · rw [length_bytesAt (by rw [size_packed]; decide),
        length_bytesAt (by rw [size_packed]; decide)]
    · intro i h1 h2
      rw [length_bytesAt (by rw [size_packed]; decide)] at h1
      simp [bytesAt, octets, packed, h i h1]
  exact (SparseHeader.governs_parse _).ok_iff.mpr
    (SparseHeader.hasFormat_iff.mp (hblock.of_front hsize hfront))

theorem parse_overwrite_last (x : UInt8) :
    ∃ header, SparseHeader.parse (packed (overwrite d.headerBlock 1023 #v[x])) = .ok header := by
  apply d.parse_of_getElem_eq
  intro i hi
  rw [getElem_overwrite, dif_neg (by omega)]

theorem last_footerSector : d.footerSector[511] = 0 := by
  simp [footerSector, footerFields, getElem_overwrite]

theorem last_headerBlock : d.headerBlock[1023] = 0 := by
  simp [headerBlock, headerFields, getElem_overwrite]

end Draft

/-- A footer and a header with their checksums, of which the last byte is changed. -/
theorem one_byte_detected_mixedPair :
    (∃ f f', Footer.parse f.bytes = .ok f ∧ f.isIntact = true ∧
      Footer.parse (packed (overwrite f.raw 511 #v[1])) = .ok f' ∧ f'.isIntact = false) ∧
    (∃ h h', SparseHeader.parse (packed h.raw) = .ok h ∧ h.isIntact = true ∧
      SparseHeader.parse (packed (overwrite h.raw 1023 #v[1])) = .ok h' ∧ h'.isIntact = false) ∧
    ChecksumTells 1024 36 := by
  have hnonzero : (0 : UInt8) ≠ 1 := by decide
  obtain ⟨child, hfooter, hheader⟩ :
      ∃ d : Draft, d.footer.isIntact = true ∧ d.header.isIntact = true :=
    ⟨_, (DiskStream.mixedPair 1024 (by decide)).child.isIntact_footer_summed,
      (DiskStream.mixedPair 1024 (by decide)).child.isIntact_header_summed⟩
  refine ⟨?footer, ?header, one_byte_detected.2.2 1024 36 (by decide)⟩
  case footer =>
    have hsector := child.ofSector_footerSector
    obtain ⟨f', hf'⟩ := Footer.parse_overwrite_last child.footer hsector 1
    have hparse := Footer.parse_draft child
    have hne : child.footerSector[511] ≠ 1 := by rwa [child.last_footerSector]
    have hapart : OneApart (octets child.footer.bytes)
        (octets (packed (overwrite child.footerSector 511 #v[1]))) := by
      rw [octets_packed]
      exact oneApart_overwrite (by decide) hne
    exact ⟨child.footer, f', hparse, hfooter, hf', one_byte_detected.1 child.footer.bytes _ _ f'
      (size_packed child.footerSector) hparse hfooter hapart hf'⟩
  case header =>
    obtain ⟨h', hh'⟩ := child.parse_overwrite_last 1
    have hparse := child.parse_headerBlock
    have hne : child.headerBlock[1023] ≠ 1 := by rwa [child.last_headerBlock]
    have hapart : OneApart (octets (packed child.headerBlock))
        (octets (packed (overwrite child.headerBlock 1023 #v[1]))) := by
      rw [octets_packed, octets_packed]
      exact oneApart_overwrite (by decide) hne
    exact ⟨child.header, h', hparse, hheader, hh', one_byte_detected.2.1 (packed child.headerBlock)
      _ _ h' (size_packed child.headerBlock) hparse hheader hapart hh'⟩

end VirtualDisk
