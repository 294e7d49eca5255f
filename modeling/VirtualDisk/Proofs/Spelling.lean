import VirtualDisk.Proofs.Octets
import VirtualDisk.Proofs.Quotation

namespace VirtualDisk

def nuls (count : Nat) : List Char := List.replicate count '\x00'

theorem flatMap_append_nuls {α : Type} {spell : Char → List α} {zero : α}
    (h : spell '\x00' = [zero]) (chars : List Char) (count : Nat) :
    (chars ++ nuls count).flatMap spell = chars.flatMap spell ++ List.replicate count zero := by
  rw [List.flatMap_append, nuls, List.flatMap_replicate, h, List.flatten_replicate_singleton]

namespace Utf16

variable {units : List UInt16} {chars : List Char}

theorem decode_of_decode? (h : decode? units = some chars) : decode units = chars := by
  fun_induction decode? units generalizing chars with
  | case1 => exact Option.some.inj h
  | case2 u rest hlow => cases h
  | case3 u hlow hhigh v tail hv ih =>
    obtain ⟨more, hmore, rfl⟩ := Option.map_eq_some_iff.mp h
    rw [decode.eq_def]
    simp only [hlow, hhigh, hv, ih hmore, if_true, if_false, Bool.false_eq_true]
  | case4 u hlow hhigh v tail hv => cases h
  | case5 u hlow hhigh => cases h
  | case6 u rest hlow hhigh ih =>
    obtain ⟨more, hmore, rfl⟩ := Option.map_eq_some_iff.mp h
    rw [decode.eq_def]
    simp only [hlow, hhigh, ih hmore, if_false, Bool.false_eq_true]

theorem decode_encode (chars : List Char) : decode (encode chars) = chars :=
  decode_of_decode? (decode?_encode chars)

theorem mem_encodeChar_of_zero {c : Char} (h : 0 ∈ encodeChar c) : c = '\x00' := by
  obtain ⟨u, he, -, -, hc⟩ | ⟨u, v, he, hu, hv, -⟩ := encodeChar_cases c
  · rw [he, List.mem_singleton] at h
    rw [← hc, ← h]
    rfl
  · rw [he, List.mem_cons, List.mem_singleton] at h
    obtain rfl | rfl := h
    · exact absurd hu (by decide)
    · exact absurd hv (by decide)

theorem zero_not_mem_encode (h : '\x00' ∉ chars) : 0 ∉ encode chars := by
  intro hmem
  obtain ⟨c, hc, hzero⟩ := List.mem_flatMap.mp hmem
  rw [mem_encodeChar_of_zero hzero] at hc
  exact h hc

theorem ofNat_high_low (u : UInt16) :
    UInt16.ofNat ((UInt8.ofNat (u.toNat / 256)).toNat * 256 + (UInt8.ofNat u.toNat).toNat) = u := by
  have hu := u.toNat_lt
  apply UInt16.toNat_inj.mp
  rw [UInt16.toNat_ofNat', UInt8.toNat_ofNat', UInt8.toNat_ofNat']
  omega

theorem unitsLowFirst_append (units : List UInt16) {odd : List UInt8} (hodd : odd.length < 2) :
    unitsLowFirst (bytesLowFirst units ++ odd) = units := by
  induction units with
  | nil =>
    match odd, hodd with
    | [], _ => rfl
    | [_], _ => rfl
  | cons u rest ih =>
    rw [bytesLowFirst, List.flatMap_cons, ← bytesLowFirst, List.append_assoc, List.cons_append,
      List.singleton_append, unitsLowFirst, ih, ofNat_high_low]

theorem unitsHighFirst_append (units : List UInt16) (rest : List UInt8) :
    unitsHighFirst (bytesHighFirst units ++ rest) = units ++ unitsHighFirst rest := by
  induction units with
  | nil => rfl
  | cons u more ih =>
    rw [bytesHighFirst, List.flatMap_cons, ← bytesHighFirst, List.append_assoc, List.cons_append,
      List.singleton_append, unitsHighFirst, ih, ofNat_high_low, List.cons_append]

theorem length_bytesHighFirst (units : List UInt16) :
    (bytesHighFirst units).length = 2 * units.length := by
  induction units with
  | nil => rfl
  | cons u more ih =>
    rw [bytesHighFirst, List.flatMap_cons, ← bytesHighFirst, List.length_append, ih]
    simp only [List.length_cons, List.length_nil]
    omega

end Utf16

namespace Utf8

variable {b c d e : UInt8} {rest : List UInt8}

theorem within_iff {lo hi : UInt8} :
    (lo ≤ b && b ≤ hi) = true ↔ lo.toNat ≤ b.toNat ∧ b.toNat ≤ hi.toNat := by
  rw [Bool.and_eq_true, decide_eq_true_iff, decide_eq_true_iff, UInt8.le_iff_toNat_le,
    UInt8.le_iff_toNat_le]

theorem isContinuation_iff : isContinuation c = true ↔ 0x80 ≤ c.toNat ∧ c.toNat ≤ 0xBF := within_iff

theorem isSecond_iff {first last least most : UInt8} (hne : first ≠ last)
    (hleast : 0x80 ≤ least.toNat) (hmost : most.toNat ≤ 0xBF) :
    (if b == first then least ≤ c && c ≤ 0xBF
      else if b == last then 0x80 ≤ c && c ≤ most else isContinuation c) = true ↔
    (0x80 ≤ c.toNat ∧ c.toNat ≤ 0xBF) ∧ (b = first → least.toNat ≤ c.toNat) ∧
      (b = last → c.toNat ≤ most.toNat) := by
  have h80 : (0x80 : UInt8).toNat = 0x80 := rfl
  have hBF : (0xBF : UInt8).toNat = 0xBF := rfl
  by_cases hf : b = first
  · have hl : b ≠ last := fun h => hne (hf.symm.trans h)
    rw [if_pos (beq_iff_eq.mpr hf), within_iff, hBF]
    constructor
    · exact fun ⟨hlo, hhi⟩ => ⟨⟨Nat.le_trans hleast hlo, hhi⟩, fun _ => hlo, fun h => absurd h hl⟩
    · exact fun ⟨⟨_, hhi⟩, hlo, _⟩ => ⟨hlo hf, hhi⟩
  · rw [if_neg (fun h => hf (beq_iff_eq.mp h))]
    by_cases hl : b = last
    · rw [if_pos (beq_iff_eq.mpr hl), within_iff, h80]
      constructor
      · exact fun ⟨hlo, hhi⟩ => ⟨⟨hlo, Nat.le_trans hhi hmost⟩, fun h => absurd h hf, fun _ => hhi⟩
      · exact fun ⟨⟨hlo, _⟩, _, hhi⟩ => ⟨hlo, hhi hl⟩
    · rw [if_neg (fun h => hl (beq_iff_eq.mp h)), isContinuation_iff]
      exact ⟨fun h => ⟨h, fun hb => absurd hb hf, fun hb => absurd hb hl⟩, fun h => h.1⟩

theorem isSecondOfThree_iff : isSecondOfThree b c = true ↔ (0x80 ≤ c.toNat ∧ c.toNat ≤ 0xBF) ∧
    (b = 0xE0 → 0xA0 ≤ c.toNat) ∧ (b = 0xED → c.toNat ≤ 0x9F) :=
  isSecond_iff (by decide) (by decide) (by decide)

theorem isSecondOfFour_iff : isSecondOfFour b c = true ↔ (0x80 ≤ c.toNat ∧ c.toNat ≤ 0xBF) ∧
    (b = 0xF0 → 0x90 ≤ c.toNat) ∧ (b = 0xF4 → c.toNat ≤ 0x8F) :=
  isSecond_iff (by decide) (by decide) (by decide)

section decode

theorem decode_one (hb : b.toNat < 0x80) :
    decode (b :: rest) = Char.ofNat b.toNat :: decode rest := by
  have hone : b < 0x80 := hb
  rw [decode.eq_def]
  simp only [hone, if_true]

theorem not_within {lo hi : UInt8} (h : b.toNat < lo.toNat ∨ hi.toNat < b.toNat) :
    ¬(lo ≤ b && b ≤ hi) = true := by
  rw [within_iff]
  omega

theorem decode_two (hb : 0xC2 ≤ b.toNat ∧ b.toNat ≤ 0xDF) (hc : isContinuation c = true) :
    decode (b :: c :: rest) = scalarOfTwo b c :: decode rest := by
  have hone : ¬b < 0x80 := Nat.not_lt.mpr (show 0x80 ≤ b.toNat by omega)
  have htwo : (0xC2 ≤ b && b ≤ 0xDF) = true := within_iff.mpr hb
  rw [decode.eq_def]
  simp only [hone, htwo, hc, if_true, if_false]

theorem decode_three (hb : 0xE0 ≤ b.toNat ∧ b.toNat ≤ 0xEF) (hc : isSecondOfThree b c = true)
    (hd : isContinuation d = true) :
    decode (b :: c :: d :: rest) = scalarOfThree b c d :: decode rest := by
  have hone : ¬b < 0x80 := Nat.not_lt.mpr (show 0x80 ≤ b.toNat by omega)
  have htwo : ¬(0xC2 ≤ b && b ≤ 0xDF) = true := not_within (.inr (show 0xDF < b.toNat by omega))
  have hthree : (0xE0 ≤ b && b ≤ 0xEF) = true := within_iff.mpr hb
  rw [decode.eq_def]
  simp only [hone, htwo, hthree, hc, hd, if_true, if_false, Bool.not_true, Bool.false_eq_true]

theorem decode_four (hb : 0xF0 ≤ b.toNat ∧ b.toNat ≤ 0xF4) (hc : isSecondOfFour b c = true)
    (hd : isContinuation d = true) (he : isContinuation e = true) :
    decode (b :: c :: d :: e :: rest) = scalarOfFour b c d e :: decode rest := by
  have hone : ¬b < 0x80 := Nat.not_lt.mpr (show 0x80 ≤ b.toNat by omega)
  have htwo : ¬(0xC2 ≤ b && b ≤ 0xDF) = true := not_within (.inr (show 0xDF < b.toNat by omega))
  have hthree : ¬(0xE0 ≤ b && b ≤ 0xEF) = true := not_within (.inr (show 0xEF < b.toNat by omega))
  have hfour : (0xF0 ≤ b && b ≤ 0xF4) = true := within_iff.mpr hb
  rw [decode.eq_def]
  simp only [hone, htwo, hthree, hfour, hc, hd, he, if_true, if_false, Bool.not_true,
    Bool.false_eq_true]

end decode

section spelled

variable {n : Nat}

theorem toNat_continuation (n : Nat) : (UInt8.ofNat (0x80 + n % 64)).toNat = 0x80 + n % 64 :=
  UInt8.toNat_ofNat_of_lt (show _ < 256 by omega)

theorem isContinuation_continuation (n : Nat) :
    isContinuation (UInt8.ofNat (0x80 + n % 64)) = true := by
  rw [isContinuation_iff, toNat_continuation]
  omega

theorem decode_spelled_two (hle : 0x80 ≤ n) (hlt : n < 0x800) :
    decode (UInt8.ofNat (0xC0 + n / 64) :: UInt8.ofNat (0x80 + n % 64) :: rest)
      = Char.ofNat n :: decode rest := by
  have hb : (UInt8.ofNat (0xC0 + n / 64)).toNat = 0xC0 + n / 64 :=
    UInt8.toNat_ofNat_of_lt (show _ < 256 by omega)
  have hsum : (0xC0 + n / 64) % 32 * 64 + (0x80 + n % 64) % 64 = n := by omega
  rw [decode_two (by omega) (isContinuation_continuation n), scalarOfTwo, payload,
    toNat_continuation, hb, hsum]

theorem decode_spelled_three (hle : 0x800 ≤ n) (hlt : n < 0x10000) (hvalid : n.isValidChar) :
    decode (UInt8.ofNat (0xE0 + n / 4096) :: UInt8.ofNat (0x80 + n / 64 % 64) ::
      UInt8.ofNat (0x80 + n % 64) :: rest) = Char.ofNat n :: decode rest := by
  have hb : (UInt8.ofNat (0xE0 + n / 4096)).toNat = 0xE0 + n / 4096 :=
    UInt8.toNat_ofNat_of_lt (show _ < 256 by omega)
  have hc : isSecondOfThree (UInt8.ofNat (0xE0 + n / 4096)) (UInt8.ofNat (0x80 + n / 64 % 64))
      = true := by
    rw [isSecondOfThree_iff, toNat_continuation, ← UInt8.toNat_inj, ← UInt8.toNat_inj, hb]
    refine ⟨by omega, fun hfirst => ?_, fun hlast => ?_⟩
    · have : 0xE0 + n / 4096 = 0xE0 := hfirst
      omega
    · have : 0xE0 + n / 4096 = 0xED := hlast
      unfold Nat.isValidChar at hvalid
      omega
  have hsum : (0xE0 + n / 4096) % 16 * 4096 + (0x80 + n / 64 % 64) % 64 * 64
      + (0x80 + n % 64) % 64 = n := by omega
  rw [decode_three (by omega) hc (isContinuation_continuation n), scalarOfThree, payload, payload,
    toNat_continuation, toNat_continuation, hb, hsum]

theorem decode_spelled_four (hle : 0x10000 ≤ n) (hlt : n < 0x110000) :
    decode (UInt8.ofNat (0xF0 + n / 262144) :: UInt8.ofNat (0x80 + n / 4096 % 64) ::
      UInt8.ofNat (0x80 + n / 64 % 64) :: UInt8.ofNat (0x80 + n % 64) :: rest)
      = Char.ofNat n :: decode rest := by
  have hb : (UInt8.ofNat (0xF0 + n / 262144)).toNat = 0xF0 + n / 262144 :=
    UInt8.toNat_ofNat_of_lt (show _ < 256 by omega)
  have hc : isSecondOfFour (UInt8.ofNat (0xF0 + n / 262144)) (UInt8.ofNat (0x80 + n / 4096 % 64))
      = true := by
    rw [isSecondOfFour_iff, toNat_continuation, ← UInt8.toNat_inj, ← UInt8.toNat_inj, hb]
    refine ⟨by omega, fun hfirst => ?_, fun hlast => ?_⟩
    · have : 0xF0 + n / 262144 = 0xF0 := hfirst
      omega
    · have : 0xF0 + n / 262144 = 0xF4 := hlast
      omega
  have hsum : (0xF0 + n / 262144) % 8 * 262144 + (0x80 + n / 4096 % 64) % 64 * 4096
      + (0x80 + n / 64 % 64) % 64 * 64 + (0x80 + n % 64) % 64 = n := by omega
  rw [decode_four (by omega) hc (isContinuation_continuation _) (isContinuation_continuation _),
    scalarOfFour, payload, payload, payload, toNat_continuation, toNat_continuation,
    toNat_continuation, hb, hsum]

end spelled

/-- A character in front of any bytes is read before them. -/
theorem decode_encodeChar_append (c : Char) (rest : List UInt8) :
    decode (encodeChar c ++ rest) = c :: decode rest := by
  have hvalid : c.toNat.isValidChar := c.valid
  have hlt : c.toNat < 0x110000 := by
    unfold Nat.isValidChar at hvalid
    omega
  unfold encodeChar
  simp only
  split
  · next h =>
    have hb : (UInt8.ofNat c.toNat).toNat = c.toNat :=
      UInt8.toNat_ofNat_of_lt (show _ < 256 by omega)
    rw [List.singleton_append, decode_one (by omega), hb, Char.ofNat_toNat]
  · split
    · rw [List.cons_append, List.singleton_append, decode_spelled_two (by omega) (by omega),
        Char.ofNat_toNat]
    · split
      · rw [List.cons_append, List.cons_append, List.singleton_append,
          decode_spelled_three (by omega) (by omega) hvalid, Char.ofNat_toNat]
      · rw [List.cons_append, List.cons_append, List.cons_append, List.singleton_append,
          decode_spelled_four (by omega) hlt, Char.ofNat_toNat]

theorem decode_encode (chars : List Char) : decode (encode chars) = chars := by
  induction chars with
  | nil => rw [encode, List.flatMap_nil, decode]
  | cons c rest ih => rw [encode, List.flatMap_cons, decode_encodeChar_append, ← encode, ih]

theorem encodeChar_eq (c : Char) : String.utf8EncodeChar c = encodeChar c := by
  have hlt : c.val.toNat < 0x110000 := by
    have hvalid : c.toNat.isValidChar := c.valid
    unfold Nat.isValidChar at hvalid
    show c.toNat < 0x110000
    omega
  have hn : c.toNat = c.val.toNat := rfl
  have hone : c.val.toNat < 0x80 ↔ c.val.toNat ≤ 127 := by omega
  have htwo : c.val.toNat < 0x800 ↔ c.val.toNat ≤ 2047 := by omega
  have hthree : c.val.toNat < 0x10000 ↔ c.val.toNat ≤ 65535 := by omega
  unfold String.utf8EncodeChar encodeChar
  simp only [hn, hone, htwo, hthree]
  split
  · rfl
  split
  · have hfirst : c.val.toNat / 64 % 32 + 192 = 0xC0 + c.val.toNat / 64 := by omega
    rw [hfirst, Nat.add_comm _ 128]
  split
  · have hfirst : c.val.toNat / 4096 % 16 + 224 = 0xE0 + c.val.toNat / 4096 := by omega
    rw [hfirst, Nat.add_comm _ 128, Nat.add_comm _ 128]
  · have hfirst : c.val.toNat / 262144 % 8 + 240 = 0xF0 + c.val.toNat / 262144 := by omega
    rw [hfirst, Nat.add_comm _ 128, Nat.add_comm _ 128, Nat.add_comm _ 128]

theorem octets_toUTF8 (text : String) : octets text.toUTF8 = encode text.toList := by
  have hbytes : text.toUTF8 = text.toList.utf8Encode := String.utf8Encode_toList.symm
  have hchars : String.utf8EncodeChar = encodeChar := funext encodeChar_eq
  rw [hbytes, List.utf8Encode, octets, List.data_toByteArray, List.toList_toArray, encode, hchars]

end Utf8

end VirtualDisk
