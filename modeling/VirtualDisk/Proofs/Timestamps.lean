import Mathlib.Data.List.TakeWhile
import VirtualDisk.Instant.Reading
import VirtualDisk.Proofs.Calendar

namespace VirtualDisk.Instant

variable {width n : Nat} {rest : List Char}

theorem isDigit_of_mem_padded : ∀ c ∈ padded width n, c.isDigit = true := by
  intro c hc
  obtain hzero | hdigit := List.mem_append.mp hc
  · rw [(List.mem_replicate.mp hzero).2]
    rfl
  · exact Nat.isDigit_of_mem_toDigits (by decide) (by decide) hdigit

theorem length_padded (h : (Nat.toDigits 10 n).length ≤ width) :
    (padded width n).length = width := by
  simp only [padded, List.length_append, List.length_replicate]
  omega

theorem ofDigitChars_padded : Nat.ofDigitChars 10 (padded width n) 0 = n := by
  simp only [padded]
  rw [Nat.ofDigitChars_append, Nat.ofDigitChars_replicate_zero, Nat.mul_zero,
    Nat.ofDigitChars_ten_toDigits]

theorem padded_ne_nil : padded width n ≠ [] := by
  intro h
  exact Nat.toDigits_ne_nil (List.append_eq_nil_iff.mp h).2

theorem not_blank_of_isDigit {c : Char} (h : c.isDigit = true) : Blank.contains c = false := by
  have hc : 48 ≤ c.toNat ∧ c.toNat ≤ 57 := by
    simpa [Char.isDigit, UInt32.le_iff_toNat_le] using h
  have hspace : c ≠ ' ' := by
    rintro rfl
    cases h
  have hcontrol : ¬c ≤ '\r' := by
    intro hle
    have : c.toNat ≤ 13 := hle
    omega
  simp [Blank.contains, Blank.ranges, hspace, hcontrol]
  omega

theorem trim_of_not_blank {c : Char} (h : Blank.contains c = false) :
    Blank.trim (c :: rest) = c :: rest := by
  rw [Blank.trim, List.dropWhile_cons_of_neg (Bool.eq_false_iff.mp h)]

theorem trim_padded : Blank.trim (padded width n ++ rest) = padded width n ++ rest := by
  obtain ⟨c, digits, hcons⟩ := List.exists_cons_of_ne_nil (@padded_ne_nil width n)
  have hc : c.isDigit = true := isDigit_of_mem_padded c (hcons ▸ List.mem_cons_self)
  rw [hcons]
  exact trim_of_not_blank (not_blank_of_isDigit hc)

theorem readNumber_padded (h : (Nat.toDigits 10 n).length ≤ width) :
    readNumber (some width) (padded width n ++ rest) = some (n, rest) := by
  have hlength := length_padded h
  have htake : (padded width n ++ rest).take width = padded width n := List.take_left' hlength
  have hdrop : (padded width n ++ rest).drop width = rest := List.drop_left' hlength
  have hdigits : (padded width n).takeWhile Char.isDigit = padded width n :=
    List.takeWhile_eq_self_iff.mpr isDigit_of_mem_padded
  have hempty : (padded width n).isEmpty = false := List.isEmpty_eq_false_iff.mpr padded_ne_nil
  unfold readNumber
  simp only [htake, hdigits, hempty, hlength, hdrop, ofDigitChars_padded]
  rfl

theorem readPart_padded (h : n < 100) : readPart (padded 2 n ++ rest) = some (n, rest) := by
  rw [readPart, trim_padded]
  exact readNumber_padded ((Nat.length_toDigits_le_iff (by decide) (by decide)).mpr h)

theorem readMark_cons {mark : Char} (h : Blank.contains mark = false) :
    readMark mark (mark :: rest) = some ((), rest) := by
  rw [readMark, trim_of_not_blank h]
  exact if_pos rfl

theorem readYear_yearChars {year : Int} (h0 : 0 ≤ year) (h1 : year ≤ 9999) :
    readYear (yearChars year ++ rest) = some (year, rest) := by
  have hread : readNumber (some 4) (padded 4 year.toNat ++ rest) = some (year.toNat, rest) :=
    readNumber_padded ((Nat.length_toDigits_le_iff (by decide) (by decide)).mpr (by omega))
  obtain ⟨c, digits, hcons⟩ := List.exists_cons_of_ne_nil (@padded_ne_nil 4 year.toNat)
  have hc : c.isDigit = true := isDigit_of_mem_padded c (hcons ▸ List.mem_cons_self)
  rw [yearChars, if_pos ⟨h0, h1⟩, readYear, trim_padded]
  split
  · next heq =>
    rw [hcons] at heq
    cases heq
    cases hc
  · next heq =>
    rw [hcons] at heq
    cases heq
    cases hc
  · rw [hread, Option.map_some, Int.toNat_of_nonneg h0]

theorem isWithinRange_of_year {d : Date} (h0 : 0 ≤ d.year) (h1 : d.year ≤ 9999) :
    isWithinRange d = true := by
  simp only [isWithinRange, Bool.and_eq_true, decide_eq_true_eq]
  omega

theorem readDate_append {d : Date} (hv : d.isValid = true) (h0 : 0 ≤ d.year) (h1 : d.year ≤ 9999) :
    readDate (yearChars d.year ++ '-' :: padded 2 d.month ++ '-' :: padded 2 d.day ++ rest)
      = some (d, rest) := by
  have hrange : isWithinRange d = true := isWithinRange_of_year h0 h1
  have hdash : Blank.contains '-' = false := by decide
  obtain ⟨hmonth, hday⟩ := Date.lt_of_isValid hv
  simp only [List.append_assoc, List.cons_append, readDate, Option.bind_eq_bind, Option.bind_some,
    readYear_yearChars h0 h1, readMark_cons hdash, readPart_padded hmonth, readPart_padded hday]
  rw [if_pos (by rw [hv, hrange]; rfl)]
  rfl

theorem readTime_append {s : Nat} (hs : s < 86400) {c : Char} (hc : c ≠ '.') :
    readTime (padded 2 (s / 3600) ++ ':' :: padded 2 (s / 60 % 60) ++ ':' :: padded 2 (s % 60)
      ++ c :: rest) = some ((s, 0), c :: rest) := by
  have hcolon : Blank.contains ':' = false := by decide
  have hfraction : readFraction (c :: rest) = some (0, c :: rest) := by
    unfold readFraction
    split
    · next heq =>
      cases heq
      exact absurd rfl hc
    · rfl
  have hhour : s / 3600 < 100 := by omega
  have hminute : s / 60 % 60 < 100 := by omega
  have hsecond : s % 60 < 100 := by omega
  have hbounds : s / 3600 ≤ 23 ∧ s / 60 % 60 ≤ 59 ∧ s % 60 ≤ 60 := by omega
  have hleap : ¬s % 60 = 60 := by omega
  have hsum : s / 3600 * 3600 + s / 60 % 60 * 60 + min (s % 60) 59 = s := by omega
  simp only [List.append_assoc, List.cons_append, readTime, Option.bind_eq_bind, Option.bind_some,
    readPart_padded hhour, readPart_padded hminute, readPart_padded hsecond, readMark_cons hcolon,
    hfraction, if_pos hbounds, if_neg hleap, hsum]
  rfl

theorem ofChars?_textZulu {t : Instant} (hn : t.nanoseconds = 0) (h0 : 0 ≤ t.date.year)
    (h1 : t.date.year ≤ 9999) : ofChars? t.textZulu.toList = some t := by
  have hs : t.secondOfDay < 86400 := by
    simp only [secondOfDay]
    omega
  have hchars : t.textZulu.toList = yearChars t.date.year ++ '-' :: padded 2 t.date.month
      ++ '-' :: padded 2 t.date.day
      ++ ('T' :: (padded 2 (t.secondOfDay / 3600) ++ ':' :: padded 2 (t.secondOfDay / 60 % 60)
        ++ ':' :: padded 2 (t.secondOfDay % 60) ++ 'Z' :: [])) := by
    simp [textZulu, toChars, hn, fractionChars]
  have hsum : t.date.toDays * 86400 + t.secondOfDay - 0 = t.seconds := by
    rw [date, Date.toDays_ofDays, secondOfDay]
    omega
  have hdate : t.date.isValid = true := Date.isValid_ofDays _
  have hrange : isWithinRange t.date = true := isWithinRange_of_year h0 h1
  have hgap (rest : List Char) : readGap ('T' :: rest) = some ((), rest) := rfl
  have hoffset : readOffset ['Z'] = some (0, []) := by decide
  have htime := @readTime_append [] _ hs 'Z' (by decide)
  have hinstant : (⟨t.seconds, 0⟩ : Instant) = t := by
    rw [← hn]
  rw [hchars, ofChars?, readDate_append hdate h0 h1]
  simp only [Option.bind_eq_bind, Option.bind_some, hgap, htime, hoffset, hsum, hinstant]
  rw [if_pos (by rw [hrange]; rfl)]
  rfl

theorem ofChars?_ofTimestamp (timestamp : UInt32) :
    ofChars? (ofTimestamp timestamp).textZulu.toList = some (ofTimestamp timestamp) := by
  have hlt := timestamp.toNat_lt
  have hday : 4 * 146097 ≤ (ofTimestamp timestamp).seconds / 86400 + 719468 ∧
      (ofTimestamp timestamp).seconds / 86400 + 719468 < 6 * 146097 := by
    simp only [ofTimestamp, imageEpoch]
    omega
  obtain ⟨hlow, hhigh⟩ := Date.year_ofDays_bounds hday.1 hday.2
  apply ofChars?_textZulu rfl
  · exact Int.le_trans (by decide) hlow
  · exact Int.le_trans hhigh (by decide)

end VirtualDisk.Instant
