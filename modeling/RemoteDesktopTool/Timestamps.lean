import RemoteDesktopTool.MachineInts
import RemoteDesktopTool.Gregorian
import RemoteDesktopTool.Strings

namespace RemoteDesktopTool

open MachineInts Gregorian

/-- A number with the flags `{:0width}`: zeros in front, behind the sign. -/
def padded (width : Nat) (x : Int) : Text :=
  let digits := decimal x.natAbs
  if x < 0 then '-' :: (List.replicate (width - 1 - digits.length) '0' ++ digits)
  else List.replicate (width - digits.length) '0' ++ digits

/-- Every machine integer is its value; none where a step overflows. -/
def civilFromDays (daysSinceEpoch : Int) : Option (Int × Int × Int) := do
  let z ← i64 (daysSinceEpoch + 719468)
  let era := (← (if 0 ≤ z then some z else i64 (z - 146096))).tdiv 146097
  let doe := asU64 (← i64 (z - (← i64 (era * 146097))))
  let yoe := (← u64 ((← u64 ((← u64 (doe - doe / 1460)) + doe / 36524)) - doe / 146096)) / 365
  let y ← i64 (asI64 yoe + (← i64 (era * 400)))
  let doy ← u64 (doe - (← u64 ((← u64 ((← u64 (365 * yoe)) + yoe / 4)) - yoe / 100)))
  let mp := (← u64 ((← u64 (5 * doy)) + 2)) / 153
  let d := asU32 (← u64 ((← u64 (doy - (← u64 ((← u64 (153 * mp)) + 2)) / 5)) + 1))
  let m := asU32 (← (if mp < 10 then u64 (mp + 3) else u64 (mp - 9)))
  let year ← (if m ≤ 2 then i64 (y + 1) else some y)
  some (year, m, d)

/-- The inverse that the tests have. -/
def daysSinceCivil (year month day : Int) : Option Int := do
  let y ← (if month ≤ 2 then i64 (year - 1) else some year)
  let era := (← (if 0 ≤ y then some y else i64 (y - 399))).tdiv 400
  let yoe := asU64 (← i64 (y - (← i64 (era * 400))))
  let m := month
  let mp ← (if 2 < m then u64 (m - 3) else u64 (m + 9))
  let doy ← u64 ((← u64 ((← u64 ((← u64 (153 * mp)) + 2)) / 5 + day)) - 1)
  let doe ← u64 ((← u64 ((← u64 ((← u64 (yoe * 365)) + yoe / 4)) - yoe / 100)) + doy)
  i64 ((← i64 ((← i64 (era * 146097)) + asI64 doe)) - 719468)

def formatRfc3339 (millis : UInt64) : Option Text := do
  let (year, month, day) ← civilFromDays (asI64 (millis.toNat / 86400000))
  let remainder := millis.toNat % 86400000
  let hour := remainder / 3600000
  let minute := (remainder % 3600000) / 60000
  let second := (remainder % 60000) / 1000
  let milli := remainder % 1000
  some (padded 4 year ++ '-' :: padded 2 month ++ '-' :: padded 2 day ++
    'T' :: padded 2 hour ++ ':' :: padded 2 minute ++ ':' :: padded 2 second ++
    '.' :: padded 3 milli ++ ['Z'])

section Steps

variable {days era : Int} {doe yoe doy mp day : Nat}

/-- The steps that find the era and the day of it. -/
theorem era_steps (hdays : days + 719468 = 146097 * era + doe)
    (hlo : -0x4000000000000000 ≤ days) (hhi : days ≤ 0x4000000000000000) (hdoe : doe ≤ 146096) :
    i64 (days + 719468) = some (146097 * era + doe) ∧
      (∃ dividend, (if 0 ≤ 146097 * era + doe then some (146097 * era + doe)
        else i64 (146097 * era + doe - 146096)) = some dividend ∧ dividend.tdiv 146097 = era) ∧
      i64 (era * 146097) = some (era * 146097) ∧
      i64 (146097 * era + doe - era * 146097) = some (doe : Int) := by
  obtain ⟨dividend, hdividend, hquotient⟩ := tdiv_of_lowered (146097 * era + doe) 146097
    (146097 * era + doe - 146096) rfl (by omega) (by omega) (by omega)
  exact ⟨i64_of_eq hdays (by omega) (by omega), ⟨dividend, hdividend, by omega⟩,
    i64_of_range _ (by omega) (by omega), i64_of_eq (by omega) (by omega) (by omega)⟩

/-- The steps that find the year of the era. -/
theorem yoe_steps (hdoe : doe ≤ 146096)
    (hyoe : (doe - doe / 1460 + doe / 36524 - doe / 146096) / 365 = yoe) :
    u64 ((doe : Int) - doe / 1460) = some ((doe : Int) - doe / 1460) ∧
      u64 ((doe : Int) - doe / 1460 + doe / 36524) =
        some ((doe : Int) - doe / 1460 + doe / 36524) ∧
      u64 ((doe : Int) - doe / 1460 + doe / 36524 - doe / 146096) =
        some ((doe : Int) - doe / 1460 + doe / 36524 - doe / 146096) ∧
      ((doe : Int) - doe / 1460 + doe / 36524 - doe / 146096) / 365 = yoe :=
  ⟨u64_of_range _ (by omega) (by omega), u64_of_range _ (by omega) (by omega),
    u64_of_range _ (by omega) (by omega), by omega⟩

/-- The steps that find the day of the year. -/
theorem doy_steps (hyoe : yoe < 400) (hdoe : doe ≤ 146096)
    (hdoy : doe = 365 * yoe + yoe / 4 - yoe / 100 + doy) :
    u64 (365 * (yoe : Int)) = some (365 * (yoe : Int)) ∧
      u64 (365 * (yoe : Int) + yoe / 4) = some (365 * (yoe : Int) + yoe / 4) ∧
      u64 (365 * (yoe : Int) + yoe / 4 - yoe / 100) =
        some (365 * (yoe : Int) + yoe / 4 - yoe / 100) ∧
      u64 ((doe : Int) - (365 * yoe + yoe / 4 - yoe / 100)) = some (doy : Int) :=
  ⟨u64_of_range _ (by omega) (by omega), u64_of_range _ (by omega) (by omega),
    u64_of_range _ (by omega) (by omega), u64_of_eq (by omega) (by omega) (by omega)⟩

/-- The steps that find the month from March on and the day. -/
theorem day_steps (hmp : (5 * doy + 2) / 153 = mp) (hdoy : doy ≤ 365)
    (hday : doy = marchStart mp + (day - 1)) (hpos : 1 ≤ day) :
    u64 (5 * (doy : Int)) = some (5 * (doy : Int)) ∧
      u64 (5 * (doy : Int) + 2) = some (5 * (doy : Int) + 2) ∧
      (5 * (doy : Int) + 2) / 153 = mp ∧
      u64 (153 * (mp : Int)) = some (153 * (mp : Int)) ∧
      u64 (153 * (mp : Int) + 2) = some (153 * (mp : Int) + 2) ∧
      u64 ((doy : Int) - (153 * mp + 2) / 5) = some ((doy : Int) - (153 * mp + 2) / 5) ∧
      u64 ((doy : Int) - (153 * mp + 2) / 5 + 1) = some (day : Int) ∧
      asU32 (day : Int) = day := by
  unfold marchStart at hday
  exact ⟨u64_of_range _ (by omega) (by omega), u64_of_range _ (by omega) (by omega), by omega,
    u64_of_range _ (by omega) (by omega), u64_of_range _ (by omega) (by omega),
    u64_of_range _ (by omega) (by omega), u64_of_eq (by omega) (by omega) (by omega),
    asU32_of_range (by omega) (by omega)⟩

theorem month_steps (date : Date) :
    (if (date.marchMonth : Int) < 10 then u64 (date.marchMonth + 3)
      else u64 (date.marchMonth - 9)) = some (date.month : Int) ∧
      asU32 (date.month : Int) = date.month := by
  have hpos := date.month_pos
  have hle := date.month_le
  have hmp : date.marchMonth = if 2 < date.month then date.month - 3 else date.month + 9 := rfl
  refine ⟨?_, asU32_of_range (by omega) (by omega)⟩
  split at hmp
  next hmarch =>
    rw [if_pos (by omega)]
    exact u64_of_eq (by omega) (by omega) (by omega)
  next hwinter =>
    rw [if_neg (by omega)]
    exact u64_of_eq (by omega) (by omega) (by omega)

theorem year_steps (date : Date) (hlo : -0x10000000000000 ≤ date.era)
    (hhi : date.era ≤ 0x10000000000000) :
    asI64 (date.yearOfEra : Int) = date.yearOfEra ∧
      i64 (date.era * 400) = some (date.era * 400) ∧
      i64 (date.yearOfEra + date.era * 400) = some date.marchYear ∧
      (if (date.month : Int) ≤ 2 then i64 (date.marchYear + 1) else some date.marchYear) =
        some date.year := by
  have hyear := date.marchYear_era
  have hlt := date.yearOfEra_lt
  have hy : date.marchYear = if date.month ≤ 2 then date.year - 1 else date.year := rfl
  refine ⟨asI64_of_range (by omega) (by omega), i64_of_range _ (by omega) (by omega),
    i64_of_eq (by omega) (by omega) (by omega), ?_⟩
  split at hy
  next hwinter =>
    rw [if_pos (by omega)]
    exact i64_of_eq (by omega) (by omega) (by omega)
  next hmarch => rw [if_neg (by omega), hy]

end Steps

def dateFields (date : Date) : Int × Int × Int := (date.year, date.month, date.day)

/-- The algorithm computes the calendar date of a day's number. -/
theorem civilFromDays_ordinal (date : Date) {days : Int} (hdays : days + 719163 = date.ordinal)
    (hlo : -0x4000000000000000 ≤ days) (hhi : days ≤ 0x4000000000000000) :
    civilFromDays days = some (dateFields date) := by
  have hordinal := date.ordinal_era
  have hdoe := date.dayOfEra_le
  have hdoyLe : date.marchDay ≤ 365 := by
    have hle := date.marchDay_le
    omega
  obtain ⟨hz, ⟨dividend, hdividend, hera⟩, heraDays, hoffset⟩ :=
    era_steps (show days + 719468 = 146097 * date.era + date.dayOfEra by omega) hlo hhi hdoe
  have hdoeCast : asU64 (date.dayOfEra : Int) = date.dayOfEra :=
    asU64_of_range (by omega) (by omega)
  obtain ⟨hfours, hcenturies, heras, hyoe⟩ := yoe_steps hdoe date.yearOfEra_of_dayOfEra
  obtain ⟨hyoeCast, heraYears, hy, hyear⟩ := year_steps date (by omega) (by omega)
  obtain ⟨hyears, hleaps, hbefore, hdoy⟩ := doy_steps date.yearOfEra_lt hdoe rfl
  obtain ⟨hfive, hfiveTwo, hmp, hpattern, hpatternTwo, hfirst, hd, hdayCast⟩ :=
    day_steps date.marchMonth_of_marchDay hdoyLe rfl date.day_pos
  obtain ⟨hm, hmonthCast⟩ := month_steps date
  unfold civilFromDays
  rw [hz, some_bind, hdividend, some_bind, hera]
  dsimp only
  rw [heraDays, some_bind, hoffset, some_bind, hdoeCast, hfours, some_bind, hcenturies, some_bind,
    heras, some_bind, hyoe, hyoeCast, heraYears, some_bind, hy, some_bind, hyears, some_bind,
    hleaps, some_bind, hbefore, some_bind, hdoy, some_bind, hfive, some_bind, hfiveTwo, some_bind,
    hmp, hpattern, some_bind, hpatternTwo, some_bind, hfirst, some_bind, hd, some_bind, hdayCast,
    hm, some_bind, hmonthCast, hyear, some_bind, dateFields]

end RemoteDesktopTool
