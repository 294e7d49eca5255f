import VirtualDisk.Proofs.HeaderFormat
import VirtualDisk.Proofs.Spelling

namespace VirtualDisk

namespace ParentLocator

variable {contents : ByteArray} {l : ParentLocator} {text : String} {bytes : List UInt8}

/-- NULs behind a text that does not end with one are cut off. -/
theorem trimNuls_append_nuls {chars : List Char} (h : chars.getLast? ≠ some '\x00') (count : Nat) :
    trimNuls (chars ++ nuls count) = chars := by
  have hnuls : ∀ c ∈ nuls count, (c == '\x00') = true := by
    intro c hc
    rw [(List.mem_replicate.mp hc).2]
    rfl
  have hkept : chars.reverse.dropWhile (· == '\x00') = chars.reverse := by
    rw [← List.head?_reverse] at h
    cases hr : chars.reverse with
    | nil => rfl
    | cons c more =>
      rw [hr] at h
      have hc : (c == '\x00') = false := beq_false_of_ne fun he => h (congrArg some he)
      rw [List.dropWhile_cons_of_neg (by rw [hc]; exact Bool.false_ne_true)]
  have hreverse : (nuls count).reverse = nuls count := List.reverse_replicate
  rw [trimNuls, List.reverse_append, hreverse, List.dropWhile_append_of_pos hnuls, hkept,
    List.reverse_reverse]

structure Locates (contents : ByteArray) (l : ParentLocator) (bytes : List UInt8) : Prop where
  length_pos : 1 ≤ l.length
  length_le : l.length ≤ 65536
  offset_le : l.offset ≤ 9007199254740991
  length_eq : bytes.length = l.length
  bytes_eq : bytesAt contents l.offset l.length = bytes

theorem Locates.load_eq (h : Locates contents l bytes) (hcode : l.code ≠ Vector.replicate 4 0) :
    l.load contents = .ok { l with text := some (decode l.code bytes) } := by
  have hlength := h.length_eq
  have hpos := h.length_pos
  have hempty : l.isEmpty = false := by
    rw [isEmpty, beq_false_of_ne hcode, Bool.false_or]
    exact beq_false_of_ne (Nat.ne_of_gt hpos)
  have hfile : l.offset + l.length ≤ contents.size := by
    rw [← h.bytes_eq, bytesAt, List.length_take, List.length_drop, length_octets] at hlength
    omega
  have hslice : octets (slice contents l.offset l.length) = bytes := by
    rw [octets_slice]
    exact h.bytes_eq
  have hlimit : ¬Limits.locatorLength < l.length := Nat.not_lt.mpr h.length_le
  have hsafe : ¬Limits.safeNumber < l.offset := Nat.not_lt.mpr h.offset_le
  rw [load, hempty, if_neg Bool.false_ne_true, if_neg hlimit, if_neg hsafe, readAt_eq,
    if_pos (.inl hfile), ← hslice]
  rfl

theorem decode_of_isWide (hcode : l.code = relativeCode ∨ l.code = absoluteCode) {odd : List UInt8}
    (hodd : odd.length < 2) (htext : text.toList.getLast? ≠ some '\x00') (count : Nat) :
    decode l.code (Utf16.bytesLowFirst (Utf16.encode text.toList ++ List.replicate count 0) ++ odd)
      = text := by
  have hnuls : Utf16.encode (text.toList ++ nuls count)
      = Utf16.encode text.toList ++ List.replicate count 0 := flatMap_append_nuls rfl _ _
  rw [decode, if_pos hcode, Utf16.unitsLowFirst_append _ hodd, ← hnuls,
    Utf16.decode_encode, trimNuls_append_nuls htext, String.ofList_toList]

theorem decode_of_not_isWide (hcode : ¬(l.code = relativeCode ∨ l.code = absoluteCode))
    (htext : text.toList.getLast? ≠ some '\x00') (count : Nat) :
    decode l.code (octets text.toUTF8 ++ List.replicate count 0) = text := by
  have hnuls : Utf8.encode (text.toList ++ nuls count)
      = Utf8.encode text.toList ++ List.replicate count 0 := flatMap_append_nuls rfl _ _
  rw [decode, if_neg hcode, Utf8.octets_toUTF8, ← hnuls, Utf8.decode_encode,
    trimNuls_append_nuls htext, String.ofList_toList]

end ParentLocator

namespace SparseHeader

variable {b : ByteArray} {text : String} {bytes : List UInt8}

/-- The field of a name starts with the units of a text. A zero unit ends them, unless the
text needs the whole field. -/
def StoresName (text : String) (bytes : List UInt8) : Prop :=
  ∃ rest, bytes = Utf16.bytesHighFirst (Utf16.encode text.toList) ++ rest ∧
    ((Utf16.encode text.toList).length < 256 → ∃ more, rest = 0 :: 0 :: more)

theorem nameOf_of_storesName (h : StoresName text bytes) (hbytes : bytes.length = 512)
    (htext : '\x00' ∉ text.toList) : nameOf bytes = text := by
  obtain ⟨rest, rfl, hrest⟩ := h
  have hunits : ∀ u ∈ Utf16.encode text.toList, decide (u ≠ 0) = true := by
    intro u hu
    have hzero := Utf16.zero_not_mem_encode htext
    exact decide_eq_true fun he => hzero (he ▸ hu)
  have hstop : (Utf16.unitsHighFirst rest).takeWhile (fun u => decide (u ≠ 0)) = [] := by
    by_cases hfull : (Utf16.encode text.toList).length < 256
    · obtain ⟨more, rfl⟩ := hrest hfull
      rfl
    · rw [List.length_append, Utf16.length_bytesHighFirst] at hbytes
      have hnil : rest = [] := List.eq_nil_of_length_eq_zero (by omega)
      rw [hnil]
      rfl
  rw [nameOf, Utf16.unitsHighFirst_append, List.takeWhile_append_of_pos hunits, hstop,
    List.append_nil, Utf16.text, Utf16.decode_encode, String.ofList_toList]

theorem parse_of_storesName (h : HasFormat b) (htext : '\x00' ∉ text.toList)
    (hname : StoresName text (bytesAt b 64 512)) :
    ∃ header, parse b = .ok header ∧ header.parentName = text := by
  obtain ⟨header, hparse⟩ := (governs_parse b).ok_iff.mpr (hasFormat_iff.mp h)
  have hlength : (bytesAt b 64 512).length = 512 :=
    length_bytesAt (Nat.le_trans (by decide) h.size_le)
  refine ⟨header, hparse, ?_⟩
  rw [(retains_of_parse hparse).name_eq, nameOf_of_storesName hname hlength htext]

end SparseHeader

open ParentLocator SparseHeader

/-- A text is found as it was written: in a locator of either kind, where zeros may follow it,
and as the name in a header, where anything may follow the zero unit that ends it. -/
theorem finds_stored_names :
    (∀ contents l text count odd, l.code = relativeCode ∨ l.code = absoluteCode →
      text.toList.getLast? ≠ some '\x00' → odd.length < 2 →
      Locates contents l
        (Utf16.bytesLowFirst (Utf16.encode text.toList ++ List.replicate count 0) ++ odd) →
      l.load contents = .ok { l with text := some text }) ∧
    (∀ contents l text count, l.code ≠ Vector.replicate 4 0 →
      ¬(l.code = relativeCode ∨ l.code = absoluteCode) → text.toList.getLast? ≠ some '\x00' →
      Locates contents l (octets text.toUTF8 ++ List.replicate count 0) →
      l.load contents = .ok { l with text := some text }) ∧
    ∀ b text, HasFormat b → '\x00' ∉ text.toList → StoresName text (bytesAt b 64 512) →
      ∃ header, parse b = .ok header ∧ header.parentName = text := by
  refine ⟨?wide, ?narrow, fun _ _ hb htext hname => parse_of_storesName hb htext hname⟩
  case wide =>
    intro contents l text count odd hcode htext hodd hlocates
    have hused : l.code ≠ Vector.replicate 4 0 := by
      obtain h | h := hcode
      · rw [h]
        decide
      · rw [h]
        decide
    rw [hlocates.load_eq hused, decode_of_isWide hcode hodd htext]
  case narrow =>
    intro contents l text count hused hcode htext hlocates
    rw [hlocates.load_eq hused, decode_of_not_isWide hcode htext]

section wideText

def wideChars : List Char := ['b', Char.ofNat 0x1F600]

def wideFile : ByteArray :=
  ⟨(0xFF :: Utf16.bytesLowFirst (Utf16.encode wideChars ++ [0]) ++ Utf8.encode wideChars).toArray⟩

def wideName : Vector UInt8 512 :=
  ⟨(Utf16.bytesHighFirst (Utf16.encode wideChars) ++ List.replicate 506 0).toArray, by
    rw [List.size_toArray, List.length_append, Utf16.length_bytesHighFirst, List.length_replicate]
    rfl⟩

def wideDraft : Draft :=
  { (DiskStream.mixedPair 1024 Draft.twoSectors_le_block).child with parentName := wideName }

theorem bytesAt_name (d : Draft) :
    bytesAt (packed d.headerBlock) 64 512 = d.parentName.toList := by
  have hfield : field d.headerBlock 64 512 = d.parentName := by
    simp (disch := omega) only [Draft.headerBlock, Draft.headerFields, field_overwrite_of_disjoint,
      field_overwrite_self]
  rw [← hfield, toList_field_front (bytesAt_packed d.headerBlock).symm]

theorem finds_stored_names_wideText :
    load wideFile ⟨relativeCode, 1, 8, 1, none⟩
      = .ok ⟨relativeCode, 1, 8, 1, some (String.ofList wideChars)⟩ ∧
    load wideFile ⟨#v[0x4D, 0x61, 0x63, 0x58], 1, 5, 9, none⟩
      = .ok ⟨#v[0x4D, 0x61, 0x63, 0x58], 1, 5, 9, some (String.ofList wideChars)⟩ ∧
    ∃ header, parse (packed wideDraft.headerBlock) = .ok header ∧
      header.parentName = String.ofList wideChars := by
  have htext : (String.ofList wideChars).toList = wideChars := String.toList_ofList
  have hlast : (String.ofList wideChars).toList.getLast? ≠ some '\x00' := by
    rw [htext]
    decide
  refine ⟨?wide, ?narrow, ?name⟩
  case wide =>
    refine finds_stored_names.1 _ _ _ 1 [] (.inl rfl) hlast (by decide) ?_
    rw [htext]
    exact ⟨by decide, by decide, by decide, rfl, rfl⟩
  case narrow =>
    refine finds_stored_names.2.1 _ _ _ 0 (by decide) (by decide) hlast ?_
    rw [Utf8.octets_toUTF8, htext]
    exact ⟨by decide, by decide, by decide, rfl, rfl⟩
  case name =>
    have hformat : HasFormat (packed wideDraft.headerBlock) :=
      hasFormat_iff.mpr ((governs_parse _).ok_iff.mp ⟨_, wideDraft.parse_headerBlock⟩)
    refine finds_stored_names.2.2 _ _ hformat ?_ ?_
    · rw [htext]
      decide
    · rw [bytesAt_name]
      exact ⟨List.replicate 506 0, by rw [htext]; rfl, fun _ => ⟨List.replicate 504 0, rfl⟩⟩

end wideText

end VirtualDisk
