import RemoteDesktopTool.Timestamps

namespace RemoteDesktopTool

open MachineInts Gregorian

section Inverse

variable {era : Int} {yoe doe doy mp day : Nat}

/-- The steps back from the month and the day to the day of the year. -/
theorem doy_back_steps (hmp : mp ≤ 11) (hday : day ≤ 31)
    (hdoy : doy = marchStart mp + (day - 1)) (hpos : 1 ≤ day) :
    u64 (153 * (mp : Int)) = some (153 * (mp : Int)) ∧
      u64 (153 * (mp : Int) + 2) = some (153 * (mp : Int) + 2) ∧
      u64 ((153 * (mp : Int) + 2) / 5 + day) = some ((153 * (mp : Int) + 2) / 5 + day) ∧
      u64 ((153 * (mp : Int) + 2) / 5 + day - 1) = some (doy : Int) := by
  unfold marchStart at hdoy
  exact ⟨u64_of_range _ (by omega) (by omega), u64_of_range _ (by omega) (by omega),
    u64_of_range _ (by omega) (by omega), u64_of_eq (by omega) (by omega) (by omega)⟩

/-- The steps back from the year of the era to the day of it. -/
theorem doe_back_steps (hyoe : yoe < 400) (hdoe : doe ≤ 146096)
    (hdoy : doe = 365 * yoe + yoe / 4 - yoe / 100 + doy) :
    u64 ((yoe : Int) * 365) = some ((yoe : Int) * 365) ∧
      u64 ((yoe : Int) * 365 + yoe / 4) = some ((yoe : Int) * 365 + yoe / 4) ∧
      u64 ((yoe : Int) * 365 + yoe / 4 - yoe / 100) =
        some ((yoe : Int) * 365 + yoe / 4 - yoe / 100) ∧
      u64 ((yoe : Int) * 365 + yoe / 4 - yoe / 100 + doy) = some (doe : Int) ∧
      asI64 (doe : Int) = doe :=
  ⟨u64_of_range _ (by omega) (by omega), u64_of_range _ (by omega) (by omega),
    u64_of_range _ (by omega) (by omega), u64_of_eq (by omega) (by omega) (by omega),
    asI64_of_range (by omega) (by omega)⟩

/-- The steps back from the year to the era and the year of it. -/
theorem yoe_back_steps (date : Date) (hlo : -0x10000000000000 ≤ date.era)
    (hhi : date.era ≤ 0x10000000000000) :
    (if (date.month : Int) ≤ 2 then i64 (date.year - 1) else some date.year) =
        some date.marchYear ∧
      (∃ dividend, (if 0 ≤ date.marchYear then some date.marchYear
        else i64 (date.marchYear - 399)) = some dividend ∧ dividend.tdiv 400 = date.era) ∧
      i64 (date.era * 400) = some (date.era * 400) ∧
      i64 (date.marchYear - date.era * 400) = some (date.yearOfEra : Int) ∧
      asU64 (date.yearOfEra : Int) = date.yearOfEra := by
  have hyear := date.marchYear_era
  have hlt := date.yearOfEra_lt
  have hy : date.marchYear = if date.month ≤ 2 then date.year - 1 else date.year := rfl
  obtain ⟨dividend, hdividend, hquotient⟩ := tdiv_of_lowered date.marchYear 400
    (date.marchYear - 399) rfl (by omega) (by omega) (by omega)
  refine ⟨?_, ⟨dividend, hdividend, hquotient⟩, i64_of_range _ (by omega) (by omega),
    i64_of_eq (by omega) (by omega) (by omega), asU64_of_range (by omega) (by omega)⟩
  split at hy
  next hwinter =>
    rw [if_pos (by omega)]
    exact i64_of_eq hy.symm (by omega) (by omega)
  next hmarch => rw [if_neg (by omega), hy]

theorem month_back_step (date : Date) :
    (if 2 < (date.month : Int) then u64 (date.month - 3) else u64 (date.month + 9)) =
      some (date.marchMonth : Int) := by
  have hle := date.month_le
  have hmp : date.marchMonth = if 2 < date.month then date.month - 3 else date.month + 9 := rfl
  split at hmp
  next hmarch =>
    rw [if_pos (by omega)]
    exact u64_of_eq (by omega) (by omega) (by omega)
  next hwinter =>
    rw [if_neg (by omega)]
    exact u64_of_eq (by omega) (by omega) (by omega)

/-- The steps back from the era and the day of it to the day's number. -/
theorem days_back_steps {days : Int} (hdays : days + 719468 = 146097 * era + doe)
    (hlo : -0x4000000000000000 ≤ days) (hhi : days ≤ 0x4000000000000000) (hdoe : doe ≤ 146096) :
    i64 (era * 146097) = some (era * 146097) ∧
      i64 (era * 146097 + doe) = some (era * 146097 + doe) ∧
      i64 (era * 146097 + doe - 719468) = some days :=
  ⟨i64_of_range _ (by omega) (by omega), i64_of_range _ (by omega) (by omega),
    i64_of_eq (by omega) (by omega) (by omega)⟩

end Inverse

/-- The inverse of the algorithm computes the number of a calendar date. -/
theorem daysSinceCivil_ordinal (date : Date) {days : Int} (hdays : days + 719163 = date.ordinal)
    (hlo : -0x4000000000000000 ≤ days) (hhi : days ≤ 0x4000000000000000) :
    daysSinceCivil date.year date.month date.day = some days := by
  have hordinal := date.ordinal_era
  have hdoe := date.dayOfEra_le
  have hdayLe : date.day ≤ 31 := Nat.le_trans date.day_le (monthLength_le _ _)
  obtain ⟨hy, ⟨dividend, hdividend, hera⟩, heraYears, hoffset, hyoeCast⟩ :=
    yoe_back_steps date (by omega) (by omega)
  have hmp := month_back_step date
  obtain ⟨hpattern, hpatternTwo, hthrough, hdoy⟩ :=
    doy_back_steps date.marchMonth_le hdayLe (show date.marchDay = _ from rfl) date.day_pos
  obtain ⟨hyears, hleaps, hbefore, hdoeInt, hdoeCast⟩ :=
    doe_back_steps date.yearOfEra_lt hdoe rfl
  obtain ⟨heraDays, hsum, hresult⟩ :=
    days_back_steps (show days + 719468 = 146097 * date.era + date.dayOfEra by omega) hlo hhi hdoe
  unfold daysSinceCivil
  rw [hy, some_bind, hdividend, some_bind, hera]
  dsimp only
  rw [heraYears, some_bind, hoffset, some_bind, hyoeCast, hmp, some_bind, hpattern, some_bind,
    hpatternTwo, some_bind, hthrough, some_bind, hdoy, some_bind, hyears, some_bind, hleaps,
    some_bind, hbefore, some_bind, hdoeInt, some_bind, heraDays, some_bind, hdoeCast, hsum,
    some_bind, hresult]

section Padded

/-- The number that digits are read as, behind a sign. -/
def signedOfText : Text → Int
  | '-' :: digits => -(Nat.ofDigitChars 10 digits 0 : Nat)
  | digits => (Nat.ofDigitChars 10 digits 0 : Nat)

theorem ofDigitChars_zeros (k n : Nat) :
    Nat.ofDigitChars 10 (List.replicate k '0' ++ decimal n) 0 = n := by
  have hdigits : decimal n = Nat.toDigits 10 n := Nat.toList_repr
  rw [hdigits, Nat.ofDigitChars_append, Nat.ofDigitChars_replicate_zero, Nat.mul_zero,
    Nat.ofDigitChars_ten_toDigits]

theorem isDigit_of_mem_zeros {k n : Nat} {c : Char} (h : c ∈ List.replicate k '0' ++ decimal n) :
    c.isDigit = true := by
  have hdigits : decimal n = Nat.toDigits 10 n := Nat.toList_repr
  rw [hdigits] at h
  rcases List.mem_append.mp h with hzero | hdigit
  · rw [List.eq_of_mem_replicate hzero]
    rfl
  · exact Nat.isDigit_of_mem_toDigits (by decide) (by decide) hdigit

theorem signedOfText_of_digits {digits : Text} (h : ∀ c ∈ digits, c.isDigit = true) :
    signedOfText digits = (Nat.ofDigitChars 10 digits 0 : Nat) := by
  unfold signedOfText
  split
  next rest =>
    have hminus := h '-' List.mem_cons_self
    cases hminus
  next => rfl

theorem signedOfText_padded (width : Nat) (x : Int) : signedOfText (padded width x) = x := by
  unfold padded
  dsimp only
  split
  next hneg =>
    have hsigned (digits : Text) :
        signedOfText ('-' :: digits) = -(Nat.ofDigitChars 10 digits 0 : Nat) := rfl
    rw [hsigned, ofDigitChars_zeros]
    omega
  next hnonneg =>
    rw [signedOfText_of_digits fun c hc => isDigit_of_mem_zeros hc, ofDigitChars_zeros]
    omega

theorem padded_injective (width : Nat) : Function.Injective (padded width) :=
  Function.LeftInverse.injective (signedOfText_padded width)

theorem length_padded {width n : Nat} (hpos : 0 < width) (h : n < 10 ^ width) :
    (padded width n).length = width := by
  have hdigits : decimal n = Nat.toDigits 10 n := Nat.toList_repr
  have hle : (decimal n).length ≤ width := by
    rw [hdigits]
    exact (Nat.length_toDigits_le_iff (by decide) hpos).mpr h
  have hnonneg : ¬((n : Int) < 0) := by omega
  unfold padded
  dsimp only
  rw [if_neg hnonneg, Int.natAbs_natCast, List.length_append, List.length_replicate]
  omega

/-- A number of fixed width is read off the end, with what stands in front of it. -/
theorem append_padded_inj {front other : Text} {c : Char} {width m n : Nat} (hpos : 0 < width)
    (hm : m < 10 ^ width) (hn : n < 10 ^ width)
    (h : front ++ c :: padded width m = other ++ c :: padded width n) : front = other ∧ m = n := by
  have hlength : (c :: padded width m).length = (c :: padded width n).length := by
    rw [List.length_cons, List.length_cons, length_padded hpos hm, length_padded hpos hn]
  obtain ⟨hfront, hpadded⟩ := List.append_inj' h hlength
  have hnumber := padded_injective width (List.cons.inj hpadded).2
  exact ⟨hfront, by omega⟩

end Padded

/-- 1970-01-01. -/
def epoch : Date := .newYear 1970

/-- The calendar date so many days after the epoch. -/
def dateOfDay (n : Nat) : Date := Date.next^[n] epoch

theorem ordinal_dateOfDay (n : Nat) : (n : Int) + 719163 = (dateOfDay n).ordinal := by
  have hepoch : epoch.ordinal = 719163 := rfl
  rw [dateOfDay, Date.ordinal_iterate_next, hepoch]
  omega

theorem civilFromDays_dateOfDay {n : Nat} (h : n ≤ 0x4000000000000000) :
    civilFromDays n = some (dateFields (dateOfDay n)) :=
  civilFromDays_ordinal (dateOfDay n) (ordinal_dateOfDay n) (by omega) (by omega)

theorem dateOfDay_inj {m n : Nat} (hm : m ≤ 0x4000000000000000) (hn : n ≤ 0x4000000000000000)
    (hyear : (dateOfDay m).year = (dateOfDay n).year)
    (hmonth : (dateOfDay m).month = (dateOfDay n).month)
    (hday : (dateOfDay m).day = (dateOfDay n).day) : m = n := by
  have hback := daysSinceCivil_ordinal (dateOfDay m) (ordinal_dateOfDay m) (by omega) (by omega)
  rw [hyear, hmonth, hday,
    daysSinceCivil_ordinal (dateOfDay n) (ordinal_dateOfDay n) (by omega) (by omega)] at hback
  have hnumber := Option.some.inj hback
  omega

theorem formatRfc3339_eq (millis : UInt64) :
    formatRfc3339 millis =
      let date := dateOfDay (millis.toNat / 86400000)
      let remainder := millis.toNat % 86400000
      some (padded 4 date.year ++ '-' :: padded 2 date.month ++ '-' :: padded 2 date.day ++
        'T' :: padded 2 (remainder / 3600000 : Nat) ++
        ':' :: padded 2 (remainder % 3600000 / 60000 : Nat) ++
        ':' :: padded 2 (remainder % 60000 / 1000 : Nat) ++
        '.' :: padded 3 (remainder % 1000 : Nat) ++ ['Z']) := by
  have hmillis := millis.toNat_lt
  have hcast : asI64 ((millis.toNat : Int) / 86400000) = (millis.toNat / 86400000 : Nat) :=
    asI64_of_range (by omega) (by omega)
  unfold formatRfc3339
  rw [hcast, civilFromDays_dateOfDay (by omega), some_bind, dateFields]

theorem formatRfc3339_injective : Function.Injective formatRfc3339 := by
  intro a b h
  rw [formatRfc3339_eq, formatRfc3339_eq] at h
  dsimp only at h
  have ha := a.toNat_lt
  have hb := b.toNat_lt
  have hmonth (n : Nat) := (dateOfDay n).month_le
  have hday (n : Nat) := Nat.le_trans (dateOfDay n).day_le (monthLength_le _ _)
  obtain ⟨hmillis, hmilli⟩ := append_padded_inj (by decide) (by omega) (by omega)
    (List.append_cancel_right (Option.some.inj h))
  obtain ⟨hseconds, hsecond⟩ := append_padded_inj (by decide) (by omega) (by omega) hmillis
  obtain ⟨hminutes, hminute⟩ := append_padded_inj (by decide) (by omega) (by omega) hseconds
  obtain ⟨hhours, hhour⟩ := append_padded_inj (by decide) (by omega) (by omega) hminutes
  obtain ⟨hdays, hdayEq⟩ := append_padded_inj (by decide) (by
    have hle := hday (a.toNat / 86400000)
    omega) (by
    have hle := hday (b.toNat / 86400000)
    omega) hhours
  obtain ⟨hyears, hmonthEq⟩ := append_padded_inj (by decide) (by
    have hle := hmonth (a.toNat / 86400000)
    omega) (by
    have hle := hmonth (b.toNat / 86400000)
    omega) hdays
  have hnumber := dateOfDay_inj (by omega) (by omega) (padded_injective 4 hyears) hmonthEq hdayEq
  exact UInt64.toNat_inj.mp (by omega)

/-- The date of every day that milliseconds in 64 bits reach is the one of the calendar, so that the
day after it has the next date, and the number is found back; the texts differ. -/
theorem dates_follow_calendar (n : Nat) (h : n ≤ 0xFFFFFFFFFFFFFFFF / 86400000) :
    (civilFromDays n = some (dateFields (dateOfDay n)) ∧
      civilFromDays (n + 1 : Nat) = some (dateFields (dateOfDay n).next) ∧
      daysSinceCivil (dateOfDay n).year (dateOfDay n).month (dateOfDay n).day = some (n : Int)) ∧
      (∀ millis, (formatRfc3339 millis).isSome) ∧ Function.Injective formatRfc3339 := by
  have hnext : dateOfDay (n + 1) = (dateOfDay n).next := Function.iterate_succ_apply' _ _ _
  refine ⟨⟨civilFromDays_dateOfDay (by omega), ?_, ?_⟩, fun millis => ?_, formatRfc3339_injective⟩
  · rw [← hnext]
    exact civilFromDays_dateOfDay (by omega)
  · exact daysSinceCivil_ordinal (dateOfDay n) (ordinal_dateOfDay n) (by omega) (by omega)
  · rw [formatRfc3339_eq]
    rfl

theorem century_leap_day :
    dateFields (dateOfDay 11016) = (2000, 2, 29) ∧
      dateFields (dateOfDay 11016).next = (2000, 3, 1) := by
  obtain ⟨⟨hday, hnext, -⟩, -⟩ := dates_follow_calendar 11016 (by decide)
  have hdayFields : civilFromDays (11016 : Nat) = some (2000, 2, 29) := rfl
  have hnextFields : civilFromDays (11016 + 1 : Nat) = some (2000, 3, 1) := rfl
  exact ⟨Option.some.inj (hday.symm.trans hdayFields),
    Option.some.inj (hnext.symm.trans hnextFields)⟩

end RemoteDesktopTool
