import VirtualDisk.Instant

namespace VirtualDisk.Date

/-- The date of a day in a year that is counted from March on. -/
def ofMarch (year dayOfYear : Int) : Date :=
  let monthFromMarch := (5 * dayOfYear + 2) / 153
  let day := dayOfYear - (153 * monthFromMarch + 2) / 5 + 1
  let month := if monthFromMarch < 10 then monthFromMarch + 3 else monthFromMarch - 9
  ⟨year + (if month ≤ 2 then 1 else 0), month.toNat, day.toNat⟩

/-- The parts of a day in a group of four hundred years: whole centuries, whole spans of
four years and whole years before it, and the days from the first of March on. A year
has its day 365 if the year behind its February is a leap year. -/
structure Parts (dayOfGroup century span year day : Int) : Prop where
  sum : dayOfGroup = 36524 * century + 1461 * span + 365 * year + day
  century_bounds : 0 ≤ century ∧ century ≤ 3
  span_bounds : 0 ≤ span ∧ span ≤ 24
  year_bounds : 0 ≤ year ∧ year ≤ 3
  day_bounds : 0 ≤ day ∧ day ≤ 365
  leap : day = 365 → year = 3 ∧ (span < 24 ∨ century = 3)

variable {dayOfGroup century span year day : Int}

theorem exists_parts (h0 : 0 ≤ dayOfGroup) (h1 : dayOfGroup < 146097) :
    ∃ century span year day, Parts dayOfGroup century span year day := by
  obtain ⟨c, hc0, hc3, hs0, hs1⟩ : ∃ c, 0 ≤ c ∧ c ≤ 3 ∧ 0 ≤ dayOfGroup - 36524 * c ∧
      dayOfGroup - 36524 * c < 36525 ∧ (c < 3 → dayOfGroup - 36524 * c < 36524) := by
    by_cases hlast : dayOfGroup < 146096
    · exact ⟨dayOfGroup / 36524, by omega⟩
    · exact ⟨3, by omega⟩
  obtain ⟨k, hk0, hk1⟩ : ∃ k, 0 ≤ k ∧ k ≤ 24 ∧ 0 ≤ dayOfGroup - 36524 * c - 1461 * k ∧
      dayOfGroup - 36524 * c - 1461 * k < 1461 :=
    ⟨(dayOfGroup - 36524 * c) / 1461, by omega⟩
  obtain ⟨z, hz0, hz1⟩ : ∃ z, 0 ≤ z ∧ z ≤ 3 ∧ 0 ≤ dayOfGroup - 36524 * c - 1461 * k - 365 * z ∧
      dayOfGroup - 36524 * c - 1461 * k - 365 * z ≤ 365 ∧
      (z < 3 → dayOfGroup - 36524 * c - 1461 * k - 365 * z < 365) := by
    by_cases hlast : dayOfGroup - 36524 * c - 1461 * k < 1460
    · exact ⟨(dayOfGroup - 36524 * c - 1461 * k) / 365, by omega⟩
    · exact ⟨3, by omega⟩
  exact ⟨c, k, z, dayOfGroup - 36524 * c - 1461 * k - 365 * z, by omega, by omega, by omega,
    by omega, by omega, by omega⟩

theorem Parts.yearOfGroup_eq (h : Parts dayOfGroup century span year day) :
    (dayOfGroup - dayOfGroup / 1460 + dayOfGroup / 36524 - dayOfGroup / 146096) / 365
      = 100 * century + 4 * span + year := by
  obtain ⟨hsum, ⟨hc0, hc3⟩, ⟨hk0, hk⟩, ⟨hz0, hz⟩, ⟨hd0, hd⟩, hleap⟩ := h
  by_cases hlast : span = 24 ∧ day = 365
  · -- the last day of the group
    obtain ⟨rfl, rfl⟩ := hlast
    omega
  · have hwithin : 1461 * span + 365 * year + day < 36524 := by omega
    have hcentury : dayOfGroup / 36524 = century := by omega
    have hfour : dayOfGroup / 146096 = 0 := by omega
    have hspan : dayOfGroup / 1460 = 25 * century + span
        + (24 * century + span + 365 * year + day) / 1460 := by omega
    rw [hcentury, hfour, hspan]
    omega

theorem ofDays_eq (days : Int) : ∃ century span year day,
    Parts ((days + 719468) % 146097) century span year day ∧
      ofDays days
        = ofMarch (100 * century + 4 * span + year + (days + 719468) / 146097 * 400) day := by
  obtain ⟨century, span, year, day, h⟩ := @exists_parts ((days + 719468) % 146097)
    (Int.emod_nonneg _ (by decide)) (Int.emod_lt_of_pos _ (by decide))
  refine ⟨century, span, year, day, h, ?_⟩
  have hday : (days + 719468) % 146097 - (365 * (100 * century + 4 * span + year)
      + (100 * century + 4 * span + year) / 4 - (100 * century + 4 * span + year) / 100) = day := by
    have := h.sum
    have := h.span_bounds
    have := h.year_bounds
    omega
  unfold ofDays
  simp only [h.yearOfGroup_eq, hday]
  rfl

theorem month_bounds (h0 : 0 ≤ day) (h1 : day ≤ 365) :
    0 ≤ (5 * day + 2) / 153 ∧ (5 * day + 2) / 153 ≤ 11 ∧
      (153 * ((5 * day + 2) / 153) + 2) / 5 ≤ day := by
  omega

theorem toDays_ofMarch (year : Int) (h0 : 0 ≤ day) (h1 : day ≤ 365) :
    (ofMarch year day).toDays = year / 400 * 146097
      + (year % 400 * 365 + year % 400 / 4 - year % 400 / 100 + day) - 719468 := by
  obtain ⟨hm0, hm1, hm⟩ := month_bounds h0 h1
  unfold ofMarch toDays
  generalize (5 * day + 2) / 153 = m at hm0 hm1 hm ⊢
  by_cases hlate : m < 10
  · have hmonth : ((((m + 3).toNat + 9) % 12 : Nat) : Int) = m := by omega
    simp only [if_pos hlate, hmonth]
    have hnotSoon : ¬(m + 3 ≤ 2) := by omega
    have hnotSoon' : ¬((m + 3).toNat ≤ 2) := by omega
    simp only [if_neg hnotSoon, if_neg hnotSoon']
    omega
  · have hmonth : ((((m - 9).toNat + 9) % 12 : Nat) : Int) = m := by omega
    simp only [if_neg hlate, hmonth]
    have hsoon : m - 9 ≤ 2 := by omega
    have hsoon' : (m - 9).toNat ≤ 2 := by omega
    simp only [if_pos hsoon, if_pos hsoon']
    omega

/-- The day that is found is the day of the date. -/
theorem toDays_ofDays (days : Int) : (ofDays days).toDays = days := by
  obtain ⟨century, span, year, day, h, hd⟩ := ofDays_eq days
  rw [hd, toDays_ofMarch _ h.day_bounds.1 h.day_bounds.2]
  obtain ⟨hsum, ⟨hc0, hc3⟩, ⟨hk0, hk⟩, ⟨hz0, hz⟩, -, -⟩ := h
  omega

theorem isValid_ofMarch {year : Int} (h0 : 0 ≤ day) (h1 : day ≤ 365)
    (hleap : day = 365 → isLeapYear (year + 1) = true) : (ofMarch year day).isValid = true := by
  obtain ⟨hm0, hm1, hm⟩ := month_bounds h0 h1
  obtain ⟨m, hmonth⟩ : ∃ m, (5 * day + 2) / 153 = m := ⟨_, rfl⟩
  have hday : 153 * m ≤ 5 * day + 2 ∧ 5 * day + 2 < 153 * m + 153 := by omega
  rw [hmonth] at hm0 hm1
  unfold ofMarch isValid
  simp only [hmonth, Bool.and_eq_true, decide_eq_true_eq]
  have hcases : m = 0 ∨ m = 1 ∨ m = 2 ∨ m = 3 ∨ m = 4 ∨ m = 5 ∨ m = 6 ∨ m = 7 ∨ m = 8 ∨ m = 9 ∨
      m = 10 ∨ m = 11 := by omega
  obtain rfl | rfl | rfl | rfl | rfl | rfl | rfl | rfl | rfl | rfl | rfl | rfl := hcases
  case inr.inr.inr.inr.inr.inr.inr.inr.inr.inr.inr =>
    -- February
    refine ⟨⟨⟨by decide, by decide⟩, by omega⟩, ?_⟩
    by_cases hlast : day = 365
    · simp [monthLength, hlast, hleap hlast]
    · have hfebruary (y : Int) : 28 ≤ monthLength y 2 := by
        unfold monthLength
        simp only
        split <;> omega
      exact Nat.le_trans (by omega) (hfebruary _)
  all_goals
    refine ⟨⟨⟨by decide, by decide⟩, by omega⟩, ?_⟩
    simp [monthLength]
    omega

theorem isValid_ofDays (days : Int) : (ofDays days).isValid = true := by
  obtain ⟨century, span, year, day, h, hd⟩ := ofDays_eq days
  rw [hd]
  obtain ⟨hsum, ⟨hc0, hc3⟩, ⟨hk0, hk⟩, ⟨hz0, hz⟩, ⟨hd0, hd1⟩, hleap⟩ := h
  apply isValid_ofMarch hd0 hd1
  intro hlast
  obtain ⟨rfl, hspan⟩ := hleap hlast
  unfold isLeapYear
  simp only [Bool.and_eq_true, Bool.or_eq_true, decide_eq_true_eq, ne_eq]
  omega

theorem year_ofDays_bounds {days low high : Int} (h0 : low * 146097 ≤ days + 719468)
    (h1 : days + 719468 < high * 146097) :
    low * 400 ≤ (ofDays days).year ∧ (ofDays days).year ≤ high * 400 := by
  have hgroup : low ≤ (days + 719468) / 146097 ∧ (days + 719468) / 146097 < high := by omega
  obtain ⟨century, span, year, day, h, hd⟩ := ofDays_eq days
  obtain ⟨-, ⟨hc0, hc3⟩, ⟨hk0, hk⟩, ⟨hz0, hz⟩, -, -⟩ := h
  have hyear : 0 ≤ 100 * century + 4 * span + year ∧ 100 * century + 4 * span + year < 400 := by
    omega
  have hnext (month : Int) : 0 ≤ (if month ≤ 2 then 1 else 0 : Int) ∧
      (if month ≤ 2 then 1 else 0 : Int) ≤ 1 := by
    split <;> decide
  rw [hd]
  generalize (days + 719468) / 146097 = group at hgroup
  constructor
  · have hsum : low * 400 ≤ 100 * century + 4 * span + year + group * 400 := by omega
    exact Int.le_trans hsum (Int.le_add_of_nonneg_right (hnext _).1)
  · have hsum : 100 * century + 4 * span + year + group * 400 + 1 ≤ high * 400 := by omega
    exact Int.le_trans (Int.add_le_add_left (hnext _).2 _) hsum

theorem lt_of_isValid {d : Date} (h : d.isValid = true) : d.month < 100 ∧ d.day < 100 := by
  have hlength : monthLength d.year d.month ≤ 31 := by
    unfold monthLength
    split
    · split <;> decide
    all_goals decide
  simp only [isValid, Bool.and_eq_true, decide_eq_true_eq] at h
  omega

end VirtualDisk.Date
