import RemoteDesktopTool.CivilDates
import RemoteDesktopTool.LexBlocks

namespace RemoteDesktopTool

open Gregorian LexBlocks

section Padded

theorem padded_nat (width n : Nat) : padded width n =
    List.replicate (width - (Nat.toDigits 10 n).length) '0' ++ Nat.toDigits 10 n := by
  have hdigits : decimal n = Nat.toDigits 10 n := Nat.toList_repr
  have hnonneg : ¬((n : Int) < 0) := by omega
  unfold padded
  dsimp only
  rw [if_neg hnonneg, Int.natAbs_natCast, hdigits]

/-- The last digit stands behind the other ones. -/
theorem padded_succ {width : Nat} (hpos : 0 < width) (n : Nat) :
    padded (width + 1) n = padded width (n / 10 : Nat) ++ [Nat.digitChar (n % 10)] := by
  rw [padded_nat, padded_nat]
  rcases Nat.lt_or_ge n 10 with hlt | hge
  · have hzero : n / 10 = 0 := by omega
    have hself : n % 10 = n := by omega
    obtain ⟨w, rfl⟩ : ∃ w, width = w + 1 := ⟨width - 1, by omega⟩
    rw [hzero, hself, Nat.toDigits_of_lt_base hlt, Nat.toDigits_of_lt_base (by decide)]
    simp [List.replicate_succ', Nat.digitChar]
  · have hdigits : Nat.toDigits 10 n = Nat.toDigits 10 (n / 10) ++ [Nat.digitChar (n % 10)] :=
      Nat.toDigits_of_base_le (by decide) hge
    rw [hdigits, List.length_append, List.length_singleton, Nat.add_sub_add_right,
      List.append_assoc]

theorem digitChar_lt {m n : Nat} (h : m < n) (hn : n < 10) :
    Nat.digitChar m < Nat.digitChar n := by
  have hdigits : ∀ n < 10, ∀ m < n, Nat.digitChar m < Nat.digitChar n := by decide
  exact hdigits n hn m h

/-- Numbers of one width sort as their digits. -/
theorem padded_lt {width m n : Nat} (hpos : 0 < width) (h : m < n) (hn : n < 10 ^ width) :
    padded width m < padded width n := by
  induction width, hpos using Nat.le_induction generalizing m n with
  | base =>
    have hten : n < 10 := by omega
    rw [padded_nat, padded_nat, Nat.toDigits_of_lt_base (by omega), Nat.toDigits_of_lt_base hten]
    exact List.cons_lt_cons_iff.mpr (Or.inl (digitChar_lt h hten))
  | succ width hpos ih =>
    have hfront : n / 10 < 10 ^ width := by
      rw [Nat.pow_succ] at hn
      omega
    rw [padded_succ hpos, padded_succ hpos]
    rcases Nat.lt_or_ge (m / 10) (n / 10) with hlt | hge
    · refine append_lt_append ?_ (ih hlt hfront) _ _
      rw [length_padded hpos (by omega), length_padded hpos hfront]
    · have heq : m / 10 = n / 10 := by omega
      rw [heq]
      refine List.append_left_lt (List.cons_lt_cons_iff.mpr (Or.inl (digitChar_lt ?_ ?_)))
      · omega
      · omega

/-- A number of fixed width in front decides, or leaves it to the rest. -/
theorem padded_append_lt {width m n : Nat} (hpos : 0 < width) (hm : m < 10 ^ width)
    (hn : n < 10 ^ width) {x y : Text} (h : m < n ∨ m = n ∧ x < y) :
    padded width m ++ x < padded width n ++ y := by
  rcases h with hlt | ⟨rfl, hrest⟩
  · refine append_lt_append ?_ (padded_lt hpos hlt hn) x y
    rw [length_padded hpos hm, length_padded hpos hn]
  · exact List.append_left_lt hrest

end Padded

theorem before_dateOfDay {m n : Nat} (h : m < n) : (dateOfDay m).Before (dateOfDay n) := by
  obtain ⟨k, rfl⟩ : ∃ k, n = k + m := ⟨n - m, by omega⟩
  rw [dateOfDay, dateOfDay, Function.iterate_add_apply]
  exact Date.before_iterate_next _ (by omega)

/-- The same when a separator follows and leaves it to the rest. -/
theorem padded_cons_lt {width m n : Nat} (hpos : 0 < width) (hm : m < 10 ^ width)
    (hn : n < 10 ^ width) (c : Char) {P : Prop} {x y : Text} (hrest : P → x < y)
    (h : m < n ∨ m = n ∧ P) : padded width m ++ c :: x < padded width n ++ c :: y := by
  refine padded_append_lt hpos hm hn (h.imp_right fun ⟨heq, hp⟩ => ⟨heq, ?_⟩)
  exact List.cons_lt_cons_iff.mpr (Or.inr ⟨rfl, hrest hp⟩)

/-- The first millisecond of the year 10000. -/
def yearTenThousand : Nat := 253402300800000

theorem year_dateOfDay {n : Nat} (h : n < yearTenThousand / 86400000) :
    1970 ≤ (dateOfDay n).year ∧ (dateOfDay n).year ≤ 9999 := by
  have hlast : (dateOfDay 2932896).year = 9999 := by
    have hfields : dateFields (dateOfDay 2932896) = (9999, 12, 31) :=
      Option.some.inj ((civilFromDays_dateOfDay (by omega)).symm.trans (by decide +kernel))
    exact (Prod.mk.inj hfields).1
  have hdays : yearTenThousand / 86400000 = 2932897 := rfl
  constructor
  · rcases Nat.eq_zero_or_pos n with rfl | hpos
    · exact Int.le_refl 1970
    · have hbefore := before_dateOfDay hpos
      have hepoch : (dateOfDay 0).year = 1970 := rfl
      unfold Date.Before at hbefore
      omega
  · rcases Nat.lt_or_ge n 2932896 with hlt | hge
    · have hbefore := before_dateOfDay hlt
      unfold Date.Before at hbefore
      omega
    · have heq : n = 2932896 := by omega
      rw [heq, hlast]

/-- The parts of a stamp as it is shown. -/
def stampText (year month day hour minute second milli : Nat) : Text :=
  padded 4 year ++ ('-' :: (padded 2 month ++ ('-' :: (padded 2 day ++ ('T' :: (padded 2 hour ++
    (':' :: (padded 2 minute ++ (':' :: (padded 2 second ++ ('.' :: (padded 3 milli ++
      ['Z']))))))))))))

/-- The parts in front decide. -/
theorem stampText_lt {year month day hour minute second milli : Nat}
    {year' month' day' hour' minute' second' milli' : Nat} (hyear : year < 10 ^ 4)
    (hyear' : year' < 10 ^ 4) (hmonth : month < 10 ^ 2) (hmonth' : month' < 10 ^ 2)
    (hday : day < 10 ^ 2) (hday' : day' < 10 ^ 2) (hhour : hour < 10 ^ 2) (hhour' : hour' < 10 ^ 2)
    (hminute : minute < 10 ^ 2) (hminute' : minute' < 10 ^ 2) (hsecond : second < 10 ^ 2)
    (hsecond' : second' < 10 ^ 2) (hmilli : milli < 10 ^ 3) (hmilli' : milli' < 10 ^ 3)
    (h : year < year' ∨ year = year' ∧ (month < month' ∨ month = month' ∧
      (day < day' ∨ day = day' ∧ (hour < hour' ∨ hour = hour' ∧
        (minute < minute' ∨ minute = minute' ∧
          (second < second' ∨ second = second' ∧ milli < milli')))))) :
    stampText year month day hour minute second milli <
      stampText year' month' day' hour' minute' second' milli' := by
  refine padded_cons_lt (by decide) hyear hyear' '-' ?_ h
  refine padded_cons_lt (by decide) hmonth hmonth' '-' ?_
  refine padded_cons_lt (by decide) hday hday' 'T' ?_
  refine padded_cons_lt (by decide) hhour hhour' ':' ?_
  refine padded_cons_lt (by decide) hminute hminute' ':' ?_
  refine padded_cons_lt (by decide) hsecond hsecond' '.' ?_
  exact fun h => padded_append_lt (by decide) hmilli hmilli' (Or.inl h)

theorem formatRfc3339_stampText {millis : UInt64} (h : millis.toNat < yearTenThousand) :
    formatRfc3339 millis = some (stampText (dateOfDay (millis.toNat / 86400000)).year.toNat
      (dateOfDay (millis.toNat / 86400000)).month (dateOfDay (millis.toNat / 86400000)).day
      (millis.toNat % 86400000 / 3600000) (millis.toNat % 86400000 % 3600000 / 60000)
      (millis.toNat % 86400000 % 60000 / 1000) (millis.toNat % 86400000 % 1000)) := by
  have hlimit : yearTenThousand = 253402300800000 := rfl
  have hyear := year_dateOfDay (n := millis.toNat / 86400000) (by omega)
  have hcast : (((dateOfDay (millis.toNat / 86400000)).year.toNat : Nat) : Int) =
      (dateOfDay (millis.toNat / 86400000)).year := by omega
  rw [formatRfc3339_eq, stampText, hcast]
  simp only [List.append_assoc, List.cons_append]

/-- A later time of one day is later on the clock. -/
theorem clock_lt {r r' : Nat} (h : r < r') :
    r / 3600000 < r' / 3600000 ∨ r / 3600000 = r' / 3600000 ∧
      (r % 3600000 / 60000 < r' % 3600000 / 60000 ∨
        r % 3600000 / 60000 = r' % 3600000 / 60000 ∧
          (r % 60000 / 1000 < r' % 60000 / 1000 ∨ r % 60000 / 1000 = r' % 60000 / 1000 ∧
            r % 1000 < r' % 1000)) := by
  rcases Nat.lt_or_ge (r / 3600000) (r' / 3600000) with hhour | hhour
  · exact Or.inl hhour
  refine Or.inr ⟨by omega, ?_⟩
  rcases Nat.lt_or_ge (r % 3600000 / 60000) (r' % 3600000 / 60000) with hminute | hminute
  · exact Or.inl hminute
  refine Or.inr ⟨by omega, ?_⟩
  rcases Nat.lt_or_ge (r % 60000 / 1000) (r' % 60000 / 1000) with hsecond | hsecond
  · exact Or.inl hsecond
  exact Or.inr ⟨by omega, by omega⟩

/-- A later stamp is shown as a later text. -/
theorem formatRfc3339_lt {a b : UInt64} (hb : b.toNat < yearTenThousand) (h : a < b) {s t : Text}
    (hs : formatRfc3339 a = some s) (ht : formatRfc3339 b = some t) : s < t := by
  have hlt : a.toNat < b.toNat := UInt64.lt_iff_toNat_lt.mp h
  have hlimit : yearTenThousand = 253402300800000 := rfl
  rw [formatRfc3339_stampText (by omega)] at hs
  rw [formatRfc3339_stampText hb] at ht
  rw [← Option.some.inj hs, ← Option.some.inj ht]
  have hyear (n : Nat) (hn : n < yearTenThousand) :
      (dateOfDay (n / 86400000)).year.toNat < 10 ^ 4 := by
    have hrange := year_dateOfDay (n := n / 86400000) (by omega)
    omega
  have hmonth (n : Nat) : (dateOfDay n).month < 10 ^ 2 :=
    Nat.lt_of_le_of_lt (dateOfDay n).month_le (by decide)
  have hday (n : Nat) : (dateOfDay n).day < 10 ^ 2 :=
    Nat.lt_of_le_of_lt (Nat.le_trans (dateOfDay n).day_le (monthLength_le _ _)) (by decide)
  have hclock (n : Nat) : n % 86400000 / 3600000 < 10 ^ 2 ∧
      n % 86400000 % 3600000 / 60000 < 10 ^ 2 ∧ n % 86400000 % 60000 / 1000 < 10 ^ 2 ∧
      n % 86400000 % 1000 < 10 ^ 3 := by omega
  obtain ⟨hhourA, hminuteA, hsecondA, hmilliA⟩ := hclock a.toNat
  obtain ⟨hhourB, hminuteB, hsecondB, hmilliB⟩ := hclock b.toNat
  refine stampText_lt (hyear _ (by omega)) (hyear _ hb) (hmonth _) (hmonth _) (hday _) (hday _)
    hhourA hhourB hminuteA hminuteB hsecondA hsecondB hmilliA hmilliB ?_
  rcases Nat.lt_or_ge (a.toNat / 86400000) (b.toNat / 86400000) with hdays | hdays
  · have hyearA := (year_dateOfDay (n := a.toNat / 86400000) (by omega)).1
    rcases before_dateOfDay hdays with hyears | ⟨hyears, hmonths | ⟨hmonths, hdays⟩⟩
    · exact Or.inl (by omega)
    · exact Or.inr ⟨congrArg Int.toNat hyears, Or.inl hmonths⟩
    · exact Or.inr ⟨congrArg Int.toNat hyears, Or.inr ⟨hmonths, Or.inl hdays⟩⟩
  · have heq : a.toNat / 86400000 = b.toNat / 86400000 := by omega
    rw [heq]
    exact Or.inr ⟨rfl, Or.inr ⟨rfl, Or.inr ⟨rfl, clock_lt (by omega)⟩⟩⟩

/-- Until the year 10000 stamps sort as the texts that show them, and no longer. -/
theorem stamps_sort :
    (∀ a b : UInt64, a.toNat < yearTenThousand → b.toNat < yearTenThousand →
      ∀ s t, formatRfc3339 a = some s → formatRfc3339 b = some t → (s < t ↔ a < b)) ∧
    ∃ s t, formatRfc3339 (UInt64.ofNat (yearTenThousand - 1)) = some s ∧
      formatRfc3339 (UInt64.ofNat yearTenThousand) = some t ∧ t < s := by
  refine ⟨fun a b ha hb s t hs ht => ⟨fun h => ?_, fun h => formatRfc3339_lt hb h hs ht⟩, ?_⟩
  · rcases Nat.lt_trichotomy a.toNat b.toNat with hlt | heq | hgt
    · exact UInt64.lt_iff_toNat_lt.mpr hlt
    · cases UInt64.toNat_inj.mp heq
      cases hs.symm.trans ht
      exact absurd h (List.lt_irrefl s)
    · have hback := formatRfc3339_lt ha (UInt64.lt_iff_toNat_lt.mpr hgt) ht hs
      exact absurd h (List.lt_asymm hback)
  · exact ⟨"9999-12-31T23:59:59.999Z".toList, "10000-01-01T00:00:00.000Z".toList, by decide +kernel⟩

theorem stamps_sort_midnight :
    "2024-02-29T23:59:59.999Z".toList < "2024-03-01T00:00:00.000Z".toList ↔
      (1709251199999 : UInt64) < 1709251200000 :=
  stamps_sort.1 1709251199999 1709251200000 (by decide) (by decide) _ _ (by decide +kernel)
    (by decide +kernel)

end RemoteDesktopTool
