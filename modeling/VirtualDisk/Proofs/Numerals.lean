import Mathlib.Data.List.TakeWhile
import VirtualDisk.Json.Value
import VirtualDisk.UniqueId

namespace VirtualDisk

namespace Json

theorem isDigit_of_mem_toDigits {n : Nat} : ∀ c ∈ Nat.toDigits 10 n, c.isDigit = true :=
  fun _ hc => Nat.isDigit_of_mem_toDigits (by decide) (by decide) hc

theorem head?_toDigits_ne {n : Nat} (h : 0 < n) : (Nat.toDigits 10 n).head? ≠ some '0' := by
  induction n using Nat.strongRecOn with
  | ind n ih =>
    by_cases hn : n < 10
    · rw [Nat.toDigits_of_lt_base hn, List.head?_cons, Ne, Option.some.injEq,
        Nat.digitChar_eq_zero]
      omega
    · obtain ⟨c, rest, hcons⟩ := List.exists_cons_of_ne_nil (@Nat.toDigits_ne_nil (n / 10) 10)
      have hhead := ih (n / 10) (by omega) (by omega)
      rw [Nat.toDigits_of_base_le (by decide) (Nat.le_of_not_lt hn)]
      rw [hcons] at hhead ⊢
      exact hhead

theorem isNumber_of_digits {word : List Char} (hd : ∀ c ∈ word, c.isDigit = true) (hne : word ≠ [])
    (hzero : word.length = 1 ∨ word.head? ≠ some '0') : isNumber word = true := by
  have htake : word.takeWhile Char.isDigit = word := List.takeWhile_eq_self_iff.mpr hd
  have hdrop : word.dropWhile Char.isDigit = [] := List.dropWhile_eq_nil_iff.mpr hd
  have hempty : word.isEmpty = false := List.isEmpty_eq_false_iff.mpr hne
  have hlead : (word.length == 1 || word.head? != some '0') = true := by
    rw [Bool.or_eq_true, beq_iff_eq, bne_iff_ne]
    exact hzero
  unfold isNumber
  split
  · cases hd '-' List.mem_cons_self
  · simp only [htake, hdrop, hempty, hlead]
    rfl

theorem isNumber_toDigits (n : Nat) : isNumber (Nat.toDigits 10 n) = true := by
  apply isNumber_of_digits isDigit_of_mem_toDigits Nat.toDigits_ne_nil
  by_cases hn : n = 0
  · rw [hn]
    exact .inl rfl
  · exact .inr (head?_toDigits_ne (Nat.pos_of_ne_zero hn))

theorem nat?_ofNat (n : Nat) : (ofNat n).nat? = some n := by
  have hall : (Nat.toDigits 10 n).all Char.isDigit = true :=
    List.all_eq_true.mpr isDigit_of_mem_toDigits
  rw [ofNat, nat?, if_pos hall, Nat.ofDigitChars_ten_toDigits]

end Json

namespace Hex

theorem bytes?_ofBytes (bytes : List UInt8) : bytes? (ofBytes bytes) = some bytes := by
  have hdigit : ∀ n < 16, value? (digit n) = some n := by decide
  induction bytes with
  | nil => rfl
  | cons b rest ih =>
    have hb := b.toNat_lt
    have hsum : b.toNat / 16 * 16 + b.toNat % 16 = b.toNat := by omega
    rw [ofBytes, List.flatMap_cons, ← ofBytes, ofByte, List.cons_append, List.singleton_append,
      bytes?, hdigit _ (by omega), hdigit _ (by omega), ih]
    simp only [Option.bind_eq_bind, Option.bind_some, Option.pure_def, hsum, UInt8.ofNat_toNat]

theorem length_ofBytes (bytes : List UInt8) : (ofBytes bytes).length = 2 * bytes.length := by
  induction bytes with
  | nil => rfl
  | cons b rest ih =>
    rw [ofBytes, List.flatMap_cons, ← ofBytes, List.length_append, ih, List.length_cons]
    exact (Nat.add_comm _ _)

end Hex

namespace UniqueId

theorem length_hyphenated {digits : List Char} (h : digits.length = 32) :
    (hyphenated digits).length = 36 := by
  simp [hyphenated, h]

theorem ofHyphenated?_hyphenated {digits : List Char} (h : digits.length = 32) :
    ofHyphenated? (hyphenated digits) = (Hex.bytes? digits).bind ofBytes? := by
  have hdigits : (hyphenated digits).take 8 ++ ((hyphenated digits).drop 9).take 4
      ++ ((hyphenated digits).drop 14).take 4 ++ ((hyphenated digits).drop 19).take 4
      ++ (hyphenated digits).drop 24 = digits := by
    have hpart (n : Nat) : (digits.drop n).take 4 ++ digits.drop (n + 4) = digits.drop n := by
      rw [← List.drop_drop, List.take_append_drop]
    simp [hyphenated, h, List.drop_append, List.drop_take, hpart 16, hpart 12,
      hpart 8]
  unfold ofHyphenated?
  simp only [hdigits, if_pos]

theorem ofChars?_toChars (id : UniqueId) : ofChars? id.toChars = some id := by
  have hlength : id.octets.toList.length = 16 := Vector.length_toList
  have hdigits : (Hex.ofBytes id.octets.toList).length = 32 := by
    rw [Hex.length_ofBytes, hlength]
  unfold ofChars? toChars
  rw [length_hyphenated hdigits]
  simp only
  rw [ofHyphenated?_hyphenated hdigits, Hex.bytes?_ofBytes, Option.bind_some, ofBytes?,
    dif_pos hlength]
  rfl

end UniqueId

end VirtualDisk
