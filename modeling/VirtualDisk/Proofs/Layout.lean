import Mathlib.Data.List.Induction
import VirtualDisk.Proofs.Requirement

namespace VirtualDisk

open Requirement

def bytesAt (b : ByteArray) (pos width : Nat) : List UInt8 := ((octets b).drop pos).take width

def numberAt (b : ByteArray) (pos width : Nat) : Nat := bigEndian (bytesAt b pos width)

section bytesAt

variable {b b' : ByteArray} {n start pos width : Nat} {v : Vector UInt8 n}

theorem length_bytesAt (h : pos + width ≤ b.size) : (bytesAt b pos width).length = width := by
  rw [bytesAt, List.length_take, List.length_drop, length_octets]
  omega

theorem size_of_bytesAt (h : bytesAt b' 0 n = bytesAt b 0 n) (hn : n ≤ b.size) : n ≤ b'.size := by
  have hlength : (bytesAt b' 0 n).length = n := by rw [h, length_bytesAt (by omega)]
  rw [bytesAt, List.drop_zero, List.length_take, length_octets] at hlength
  omega

theorem bytesAt_append (b : ByteArray) (pos v w : Nat) :
    bytesAt b pos (v + w) = bytesAt b pos v ++ bytesAt b (pos + v) w := by
  rw [bytesAt, List.take_add, List.drop_drop]
  rfl

theorem octets_packed (v : Vector UInt8 n) : octets (packed v) = v.toList := rfl

theorem bytesAt_size (b : ByteArray) : bytesAt b 0 b.size = octets b := by
  rw [bytesAt, List.drop_zero, ← length_octets, List.take_length]

theorem bytesAt_packed (v : Vector UInt8 n) : bytesAt (packed v) 0 n = v.toList := by
  have hsize := bytesAt_size (packed v)
  rwa [size_packed, octets_packed] at hsize

/-- The fields from `pos` on, one behind the other, with these widths. -/
def fieldsAt (b : ByteArray) : Nat → List Nat → List (List UInt8)
  | _, [] => []
  | pos, width :: widths => bytesAt b pos width :: fieldsAt b (pos + width) widths

theorem flatten_fieldsAt (b : ByteArray) (pos : Nat) (widths : List Nat) :
    (fieldsAt b pos widths).flatten = bytesAt b pos (widths.foldr (· + ·) 0) := by
  induction widths generalizing pos with
  | nil => rfl
  | cons width widths ih => rw [fieldsAt, List.flatten_cons, ih, List.foldr_cons, bytesAt_append]

def letters (text : String) : List UInt8 := text.toList.map fun c => UInt8.ofNat c.toNat

theorem toList_vectorAt (h : 0 + n ≤ b.size) : (vectorAt b 0 n h).toList = bytesAt b 0 n := by
  apply List.ext_getElem
  · rw [Vector.length_toList, length_bytesAt h]
  · intro i h1 h2
    simp [vectorAt, bytesAt, octets, ByteArray.getElem_eq_getElem_data]

theorem toList_field (v : Vector UInt8 n) (h : pos + width ≤ n) :
    (field v pos width h).toList = (v.toList.drop pos).take width := by
  apply List.ext_getElem
  · rw [Vector.length_toList, List.length_take, List.length_drop, Vector.length_toList]
    omega
  · intro i h1 h2
    simp [field]

theorem toList_field_of_toList (hv : v.toList = bytesAt b start n) (h : pos + width ≤ n) :
    (field v pos width h).toList = bytesAt b (start + pos) width := by
  rw [toList_field, hv, bytesAt, bytesAt, List.drop_take, List.take_take, List.drop_drop,
    Nat.min_eq_left (by omega)]

theorem number_of_toList (hv : v.toList = bytesAt b start n) (h : pos + width ≤ n) :
    number v pos width h = numberAt b (start + pos) width :=
  congrArg bigEndian (toList_field_of_toList hv h)

/-- A number that is written in as many bytes as it was read from gives them back. -/
theorem bigEndianBytes_bigEndian (bytes : List UInt8) :
    bigEndianBytes bytes.length (bigEndian bytes) = bytes := by
  induction bytes using List.reverseRecOn with
  | nil => rfl
  | append_singleton bytes x ih =>
    have hx := x.toNat_lt
    have hfront : (bigEndian bytes * 256 + x.toNat) / 256 = bigEndian bytes := by omega
    have hlast : UInt8.ofNat (bigEndian bytes * 256 + x.toNat) = x := by
      apply UInt8.toNat_inj.mp
      rw [UInt8.toNat_ofNat']
      omega
    rw [List.length_append, List.length_singleton, bigEndian_append_singleton, bigEndianBytes,
      hfront, hlast, ih]

theorem bigEndianBytes_number (v : Vector UInt8 n) (h : pos + width ≤ n) :
    bigEndianBytes width (number v pos width h) = (field v pos width h).toList := by
  have hback := bigEndianBytes_bigEndian (field v pos width h).toList
  rwa [Vector.length_toList] at hback

theorem bigEndian_append (xs ys : List UInt8) :
    bigEndian (xs ++ ys) = bigEndian xs * capacity ys.length + bigEndian ys := by
  induction ys using List.reverseRecOn with
  | nil => simp [bigEndian, capacity]
  | append_singleton ys y ih =>
    rw [← List.append_assoc, bigEndian_append_singleton, ih, bigEndian_append_singleton,
      List.length_append, List.length_singleton, capacity, Nat.add_mul, Nat.mul_assoc,
      Nat.mul_comm 256, Nat.add_assoc]

theorem numberAt_add {low : Nat} (h : pos + (width + low) ≤ b.size) :
    numberAt b pos (width + low)
      = numberAt b pos width * capacity low + numberAt b (pos + width) low := by
  rw [numberAt, bytesAt_append, bigEndian_append, length_bytesAt (by omega)]
  rfl

section front

variable (hv : v.toList = bytesAt b 0 n) (h : pos + width ≤ n)
include hv

theorem toList_field_front : (field v pos width h).toList = bytesAt b pos width := by
  rw [toList_field_of_toList hv, Nat.zero_add]

theorem number_front : number v pos width h = numberAt b pos width :=
  congrArg bigEndian (toList_field_front hv h)

theorem bigEndianBytes_front :
    bigEndianBytes width (number v pos width h) = bytesAt b pos width := by
  rw [bigEndianBytes_number, toList_field_front hv]

theorem bigEndianBytes_word_front (h : pos + 4 ≤ n) :
    bigEndianBytes 4 (UInt32.ofNat (number v pos 4 h)).toNat = bytesAt b pos 4 := by
  rw [UInt32.toNat_ofNat_of_lt' (number_lt v h), bigEndianBytes_front hv]

theorem outside_front (h : pos + 4 ≤ n) :
    outside v pos = bytesAt b 0 pos ++ bytesAt b (pos + 4) (n - (pos + 4)) := by
  rw [outside, hv, bytesAt, bytesAt, bytesAt, List.take_take, List.drop_take, List.drop_drop,
    Nat.min_eq_left (by omega), Nat.zero_add]

end front

end bytesAt

/-- A structure is read from the first `n` bytes of a byte string, if there are so many. -/
structure ReadsFront {α : Type} {n : Nat} (ofFront : Vector UInt8 n → Except Error α)
    (tooShort : Error) (parse : ByteArray → Except Error α) : Prop where
  of_le {b : ByteArray} (h : 0 + n ≤ b.size) : parse b = ofFront (vectorAt b 0 n h)
  of_not_le {b : ByteArray} : ¬n ≤ b.size → parse b = .error tooShort

section readsFront

variable {α : Type} {n : Nat} {ofFront : Vector UInt8 n → Except Error α} {tooShort : Error}
  {parse : ByteArray → Except Error α} {b b' : ByteArray} {rs : List Requirement}

theorem ReadsFront.exists_front (h : ReadsFront ofFront tooShort parse) (hn : n ≤ b.size) :
    ∃ raw : Vector UInt8 n, raw.toList = bytesAt b 0 n ∧ parse b = ofFront raw := by
  have hb : 0 + n ≤ b.size := by rwa [Nat.zero_add]
  exact ⟨vectorAt b 0 n hb, toList_vectorAt hb, h.of_le hb⟩

theorem ReadsFront.congr (h : ReadsFront ofFront tooShort parse) (hn : n ≤ b.size)
    (hfront : bytesAt b' 0 n = bytesAt b 0 n) : parse b' = parse b := by
  obtain ⟨raw, hraw, hparse⟩ := h.exists_front hn
  obtain ⟨raw', hraw', hparse'⟩ := h.exists_front (size_of_bytesAt hfront hn)
  rw [hparse, hparse', Vector.toList_inj.mp (hraw'.trans (hfront.trans hraw.symm))]

theorem ReadsFront.governs (h : ReadsFront ofFront tooShort parse)
    (hg : ∀ raw : Vector UInt8 n, raw.toList = bytesAt b 0 n → Governs rs (ofFront raw)) :
    Governs (⟨decide (n ≤ b.size), tooShort⟩ :: rs) (parse b) := by
  apply governs_cons
  · exact fun hn => h.of_not_le (of_decide_eq_false hn)
  · intro hn
    obtain ⟨raw, hraw, hparse⟩ := h.exists_front (of_decide_eq_true hn)
    rw [hparse]
    exact hg raw hraw

end readsFront

namespace StoredSize

variable {value found : Nat} {field : String}

def optionalRequirement (field : String) (value : Nat) : Requirement :=
  ⟨decide (value = 0xFFFFFFFFFFFFFFFF ∨ value ≤ 9007199254740991),
    .precision (.tooLarge field value)⟩

def requiredRequirement (field : String) (value : Nat) : Requirement :=
  ⟨decide (value ≤ 9007199254740991),
    .precision (if value = 0xFFFFFFFFFFFFFFFF then .absent field else .tooLarge field value)⟩

theorem checked_of_le (h : value ≤ 9007199254740991) : checked value field = .ok value :=
  if_neg (Nat.not_lt.mpr h)

theorem checked_of_not_le (h : ¬value ≤ 9007199254740991) :
    checked value field = .error (.precision (.tooLarge field value)) :=
  if_pos (Nat.lt_of_not_le h)

theorem governs_optional (field : String) (value : Nat) :
    Governs [optionalRequirement field value] (optional value field) := by
  apply governs_cons
  · intro h
    obtain ⟨habsent, hle⟩ := not_or.mp (of_decide_eq_false h)
    rw [optional, absent, if_neg habsent, checked_of_not_le hle]
    rfl
  · intro h
    by_cases habsent : value = absent
    · rw [optional, if_pos habsent]
      exact governs_ok none
    · have hle := (of_decide_eq_true h).resolve_left habsent
      rw [optional, if_neg habsent, checked_of_le hle]
      exact governs_ok (some value)

theorem governs_required (field : String) (value : Nat) :
    Governs [requiredRequirement field value] (required value field) := by
  apply governs_cons
  · intro h
    have hle := of_decide_eq_false h
    by_cases habsent : value = 0xFFFFFFFFFFFFFFFF
    · rw [required, absent, if_pos habsent, requiredRequirement, if_pos habsent]
    · rw [required, absent, if_neg habsent, checked_of_not_le hle, requiredRequirement,
        if_neg habsent]
  · intro h
    have hle := of_decide_eq_true h
    have habsent : value ≠ absent := by
      unfold absent
      omega
    rw [required, if_neg habsent, checked_of_le hle]
    exact governs_ok value

theorem eq_of_checked (h : checked value field = .ok found) : found = value := by
  unfold checked at h
  split at h
  · cases h
  · exact (Except.ok.inj h).symm

theorem stored_of_optional {o : Option Nat} (h : optional value field = .ok o) :
    stored o = value := by
  unfold optional at h
  split at h
  · next habsent =>
    cases h
    exact habsent.symm
  · cases hc : checked value field with
    | error e =>
      rw [hc] at h
      cases h
    | ok n =>
      rw [hc] at h
      cases h
      exact eq_of_checked hc

theorem eq_of_required (h : required value field = .ok found) : found = value := by
  unfold required at h
  split at h
  · cases h
  · exact eq_of_checked h

theorem le_of_required (h : required value field = .ok found) : found ≤ Limits.safeNumber := by
  have hmet := (governs_required field value).ok_iff.mp ⟨found, h⟩
  rw [eq_of_required h]
  exact of_decide_eq_true (hmet _ List.mem_cons_self)

end StoredSize

end VirtualDisk
