import VirtualDisk.Json.Grammar

namespace VirtualDisk

namespace Utf16

variable {u v : UInt16}

theorem isHigh_iff : isHigh u = true ↔ 0xD800 ≤ u.toNat ∧ u.toNat ≤ 0xDBFF := by
  simp [isHigh, UInt16.le_iff_toNat_le]

theorem isLow_iff : isLow u = true ↔ 0xDC00 ≤ u.toNat ∧ u.toNat ≤ 0xDFFF := by
  simp [isLow, UInt16.le_iff_toNat_le]

theorem isLow_of_isHigh (h : isHigh u = true) : isLow u = false := by
  apply Bool.eq_false_iff.mpr
  rw [Ne, isLow_iff]
  have := isHigh_iff.mp h
  omega

theorem toNat_ofNat_of_valid {n : Nat} (h : n.isValidChar) : (Char.ofNat n).toNat = n := by
  rw [Char.ofNat, dif_pos h]
  rfl

theorem toNat_scalarOfPair (hu : isHigh u = true) (hv : isLow v = true) :
    (scalarOfPair u v).toNat = 0x10000 + (u.toNat - 0xD800) * 0x400 + (v.toNat - 0xDC00) := by
  have := isHigh_iff.mp hu
  have := isLow_iff.mp hv
  apply toNat_ofNat_of_valid
  right
  omega

theorem encodeChar_scalarOfPair (hu : isHigh u = true) (hv : isLow v = true) :
    encodeChar (scalarOfPair u v) = [u, v] := by
  have := isHigh_iff.mp hu
  have := isLow_iff.mp hv
  have hn := toNat_scalarOfPair hu hv
  have hhigh : 0xD800 + ((scalarOfPair u v).toNat - 0x10000) / 0x400 = u.toNat := by omega
  have hlow : 0xDC00 + ((scalarOfPair u v).toNat - 0x10000) % 0x400 = v.toNat := by omega
  rw [encodeChar, if_neg (by omega), hhigh, hlow, UInt16.ofNat_toNat, UInt16.ofNat_toNat]

theorem encodeChar_ofNat (hu : isHigh u = false) (hl : isLow u = false) :
    encodeChar (Char.ofNat u.toNat) = [u] := by
  have := u.toNat_lt
  rw [Bool.eq_false_iff, Ne, isHigh_iff] at hu
  rw [Bool.eq_false_iff, Ne, isLow_iff] at hl
  have hn : (Char.ofNat u.toNat).toNat = u.toNat := by
    apply toNat_ofNat_of_valid
    unfold Nat.isValidChar
    omega
  rw [encodeChar, hn, if_pos this, UInt16.ofNat_toNat]

/-- A character is written as a unit that is no surrogate, or as a pair. -/
theorem encodeChar_cases (c : Char) :
    (∃ u, encodeChar c = [u] ∧ isHigh u = false ∧ isLow u = false ∧ Char.ofNat u.toNat = c) ∨
      ∃ u v, encodeChar c = [u, v] ∧ isHigh u = true ∧ isLow v = true ∧ scalarOfPair u v = c := by
  have hvalid : c.toNat < 0xD800 ∨ 0xDFFF < c.toNat ∧ c.toNat < 0x110000 := c.valid
  by_cases hc : c.toNat < 0x10000
  · left
    have hu : (UInt16.ofNat c.toNat).toNat = c.toNat := UInt16.toNat_ofNat_of_lt hc
    refine ⟨UInt16.ofNat c.toNat, if_pos hc, ?_, ?_, by rw [hu, Char.ofNat_toNat]⟩
    · rw [Bool.eq_false_iff, Ne, isHigh_iff, hu]
      omega
    · rw [Bool.eq_false_iff, Ne, isLow_iff, hu]
      omega
  · right
    have hu : (UInt16.ofNat (0xD800 + (c.toNat - 0x10000) / 0x400)).toNat
        = 0xD800 + (c.toNat - 0x10000) / 0x400 := UInt16.toNat_ofNat_of_lt (show _ < 65536 by omega)
    have hv : (UInt16.ofNat (0xDC00 + (c.toNat - 0x10000) % 0x400)).toNat
        = 0xDC00 + (c.toNat - 0x10000) % 0x400 := UInt16.toNat_ofNat_of_lt (show _ < 65536 by omega)
    have hhigh : isHigh (UInt16.ofNat (0xD800 + (c.toNat - 0x10000) / 0x400)) = true := by
      rw [isHigh_iff, hu]
      omega
    have hlow : isLow (UInt16.ofNat (0xDC00 + (c.toNat - 0x10000) % 0x400)) = true := by
      rw [isLow_iff, hv]
      omega
    refine ⟨_, _, if_neg hc, hhigh, hlow, ?_⟩
    apply Char.toNat_inj.mp
    rw [toNat_scalarOfPair hhigh hlow, hu, hv]
    omega

theorem decode?_encode (chars : List Char) : decode? (encode chars) = some chars := by
  induction chars with
  | nil => rfl
  | cons c rest ih =>
    rw [encode, List.flatMap_cons, ← encode]
    obtain ⟨u, he, hhigh, hlow, hc⟩ | ⟨u, v, he, hhigh, hlow, hc⟩ := encodeChar_cases c
    · rw [he, List.singleton_append, decode?.eq_def]
      simp only [hlow, hhigh, ih, ← hc]
      rfl
    · rw [he, List.cons_append, List.singleton_append, decode?.eq_def]
      simp only [isLow_of_isHigh hhigh, hhigh, hlow, ih, ← hc]
      rfl

end Utf16

namespace Hex

theorem value?_digitChar {n : Nat} (h : n < 16) : value? (Nat.digitChar n) = some n := by
  have hall : ∀ n < 16, value? (Nat.digitChar n) = some n := by decide
  exact hall n h

theorem toList_ofNat_succ (width n : Nat) : (ofNat (width + 2) n).toList
    = (ofNat (width + 1) (n / 16)).toList ++ [Nat.digitChar (n % 16)] := by
  simp only [ofNat, String.toList_ofList]
  by_cases h : n < 16
  · have hzero : n / 16 = 0 := Nat.div_eq_of_lt h
    rw [Nat.toDigits_of_lt_base h, hzero, Nat.mod_eq_of_lt h]
    exact congrArg (· ++ _) List.replicate_succ'
  · have hwidth : width + 2 - ((Nat.toDigits 16 (n / 16)).length + 1)
        = width + 1 - (Nat.toDigits 16 (n / 16)).length := by omega
    rw [Nat.toDigits_of_base_le (by decide) (Nat.le_of_not_lt h), List.length_append,
      List.length_singleton, hwidth, List.append_assoc]

theorem toList_ofNat_one {n : Nat} (h : n < 16) : (ofNat 1 n).toList = [Nat.digitChar n] := by
  simp only [ofNat, String.toList_ofList, Nat.toDigits_of_lt_base h]
  rfl

theorem toList_ofNat_four {n : Nat} (h : n < 0x10000) : (ofNat 4 n).toList
    = [n / 16 / 16 / 16, n / 16 / 16 % 16, n / 16 % 16, n % 16].map Nat.digitChar := by
  rw [toList_ofNat_succ, toList_ofNat_succ, toList_ofNat_succ, toList_ofNat_one (by omega)]
  rfl

end Hex

namespace Json

open Utf16

variable {units : List UInt16} {chars : List Char}

theorem unit?_toDigits (u : UInt16) :
    unit? (Nat.digitChar (u.toNat / 16 / 16 / 16)) (Nat.digitChar (u.toNat / 16 / 16 % 16))
      (Nat.digitChar (u.toNat / 16 % 16)) (Nat.digitChar (u.toNat % 16)) = some u := by
  have hu := u.toNat_lt
  have hsum : ((u.toNat / 16 / 16 / 16 * 16 + u.toNat / 16 / 16 % 16) * 16
      + u.toNat / 16 % 16) * 16 + u.toNat % 16 = u.toNat := by omega
  rw [unit?, Hex.value?_digitChar (by omega), Hex.value?_digitChar (by omega),
    Hex.value?_digitChar (by omega), Hex.value?_digitChar (by omega)]
  simp only [Option.bind_eq_bind, Option.bind_some, Option.pure_def, hsum, UInt16.ofNat_toNat]

theorem SpellsUnits.unitEscape (h : SpellsUnits units chars) (u : UInt16) :
    SpellsUnits (u :: units) (unitEscape u ++ chars) := by
  rw [Json.unitEscape, Hex.toList_ofNat_four u.toNat_lt]
  exact .unit (unit?_toDigits u) h

theorem letter?_cases (c : Char) :
    (∃ letter, letter? c = some letter ∧ ofLetter? letter = some c) ∨
      letter? c = none ∧ c ≠ '"' ∧ c ≠ '\\' := by
  unfold letter?
  split
  all_goals first
    | exact .inl ⟨_, rfl, rfl⟩
    | exact .inr ⟨rfl, by assumption, by assumption⟩

theorem SpellsUnits.writeChar (h : SpellsUnits units chars) (c : Char) :
    SpellsUnits (encodeChar c ++ units) (writeChar c ++ chars) := by
  obtain ⟨letter, hletter, hc⟩ | ⟨hnone, hq, hb⟩ := letter?_cases c
  · rw [Json.writeChar, hletter]
    exact .letter hc h
  · rw [Json.writeChar, hnone]
    by_cases hctl : c < ' '
    · have hlt : c.toNat < 32 := hctl
      have hu : encodeChar c = [UInt16.ofNat c.toNat] := if_pos (by omega)
      simp only [if_pos hctl]
      rw [hu]
      exact h.unitEscape _
    · simp only [if_neg hctl]
      exact .plain hq hb hctl h

theorem spells_writeUnits (units : List UInt16) : SpellsUnits units (writeUnits units) := by
  fun_induction writeUnits units with
  | case1 => exact .nil
  | case2 u units hlow ih => exact ih.unitEscape u
  | case3 u hlow hhigh v tail hv ih =>
    have hpair := ih.writeChar (scalarOfPair u v)
    rwa [encodeChar_scalarOfPair hhigh hv] at hpair
  | case4 u hlow hhigh v tail hv ih => exact ih.unitEscape u
  | case5 u hlow hhigh =>
    have hlast := SpellsUnits.nil.unitEscape u
    rwa [List.append_nil] at hlast
  | case6 u units hlow hhigh ih =>
    have hchar := ih.writeChar (Char.ofNat u.toNat)
    rwa [encodeChar_ofNat (Bool.eq_false_iff.mpr hhigh) (Bool.eq_false_iff.mpr hlow)] at hchar

theorem SpellsUnits.read (h : SpellsUnits units chars) (rest : List Char) :
    readUnits (chars ++ '"' :: rest) = some (units, rest) := by
  induction h with
  | nil => exact readUnits.eq_2 rest
  | plain hq hb hc _ ih =>
    rw [List.cons_append, readUnits, if_neg hc, ih]
    · rfl
    · exact hq
    · intro _ _ _ _ _ he
      exact absurd he hb
    · intro _ _ he
      exact absurd he hb
  | letter hl _ ih =>
    rw [List.cons_append, List.cons_append, readUnits, hl, ih]
    · rfl
    · rintro _ _ _ _ _ rfl
      cases hl
  | unit hu _ ih =>
    simp only [List.cons_append]
    rw [readUnits, hu, ih]
    rfl

end Json

end VirtualDisk
