import ClobIndexer.Bars
import ClobIndexer.Lib.Civil
/-!
# Buckets follow each other

`bucket_start` of a later time is not earlier, for the intervals of a fixed length and
for the calendar month, as long as the year fits into the 32 bits it is kept in.
-/

namespace ClobIndexer

open Lib Lib.Civil

/-- Days from the first of March of the year 0 to the epoch. -/
def epochDays : Nat := 719468

/-- The year that `civil_from_days` finds for a day since the epoch, at its full width. -/
def civilYear (days : Nat) : Nat :=
  let doe := (days + epochDays) % eraDays
  let y := yearOf doe + (days + epochDays) / eraDays * 400
  if monthOf (dayOfYear doe) < 10 then y else y + 1

def InCalendar (ts : UInt64) : Prop := civilYear (ts.toNat / 86400) < 2 ^ 31

instance (ts : UInt64) : Decidable (InCalendar ts) := inferInstanceAs (Decidable (_ < _))

theorem wrapI32_of_lt {y : Nat} (h : y < 2 ^ 31) : wrapI32 y = y := by
  unfold wrapI32
  rw [Int.bmod_eq_emod_of_lt] <;> omega

theorem era_natCast (z : Nat) :
    (if 0 ≤ (z : Int) then (z : Int) else z - 146096).tdiv 146097 = ((z / eraDays : Nat) : Int) ∧
      ((z : Int) - ((z / eraDays : Nat) : Int) * 146097).toNat = z % eraDays := by
  constructor
  · rw [if_pos (Int.natCast_nonneg z)]
    rfl
  · unfold eraDays
    omega

/-- `civil_from_days` finds the date of the calendar; only the year is cut to 32 bits. -/
theorem civilFromDays_natCast (days : Nat) :
    (civilFromDays days).1 = wrapI32 (civilYear days) ∧
      (civilFromDays days).2 = (dateOf (days + epochDays)).2 := by
  have hz : (days : Int) + 719468 = ((days + epochDays : Nat) : Int) := rfl
  generalize hn : days + epochDays = z at hz
  obtain ⟨hera, hdoe⟩ := era_natCast z
  have hmp : monthOf (dayOfYear (z % eraDays)) < 12 :=
    monthOf_lt (dayOfYear_lt (Nat.mod_lt z (by decide)))
  unfold civilFromDays civilYear dateOf
  dsimp only
  rw [hz, hera, hdoe, hn]
  refine ⟨?_, rfl⟩
  let mp := monthOf (dayOfYear (z % eraDays))
  let y : Int := (yearOf (z % eraDays) : Nat) + (z / eraDays : Nat) * 400
  change wrapI32 (if (if mp < 10 then mp + 3 else mp - 9) ≤ 2 then y + 1 else y) = _
  congr 1
  by_cases hmarch : mp < 10
  · rw [if_pos hmarch, if_neg (by omega), if_pos hmarch]
    rfl
  · have hnext : mp - 9 ≤ 2 := by omega
    rw [if_neg hmarch, if_pos hnext, if_neg hmarch]
    rfl

theorem daysFromCivil_inMonth {days : Nat} (h : civilYear days < 2 ^ 31) {dom : Nat}
    (hdom : dom < 31) :
    daysFromCivil (civilFromDays days).1 (civilFromDays days).2.1 (dom + 1) =
      some (((monthStart (days + epochDays) + dom : Nat) : Int) - epochDays) := by
  obtain ⟨hyear, hmonth⟩ := civilFromDays_natCast days
  rw [hyear, hmonth, wrapI32_of_lt h]
  have hdoe : (days + epochDays) % eraDays < eraDays := Nat.mod_lt _ (by decide)
  have hmp := monthOf_lt (dayOfYear_lt hdoe)
  have hyoe := yearOf_lt hdoe
  unfold civilYear at h ⊢
  unfold dateOf monthStart civilMonth
  dsimp only at h ⊢
  generalize (days + epochDays) / eraDays = era at h ⊢
  generalize hmpdef : monthOf (dayOfYear ((days + epochDays) % eraDays)) = mp at h hmp ⊢
  generalize yearOf ((days + epochDays) % eraDays) = yoe at h hyoe ⊢
  -- either branch finds the year that begins in March and the month counted from it
  have hkey : ∀ year m, m ≤ 12 → 1 ≤ m →
      (if m ≤ 2 then wrapI32 (year - 1) else year) = ((yoe + era * 400 : Nat) : Int) →
      (if 2 < m then m - 3 else m + 9) = mp →
      daysFromCivil year m (dom + 1) =
        some (((era * eraDays + (yearStart yoe + monthOffset mp) + dom : Nat) : Int) -
          epochDays) := by
    intro year m hm12 hm1 hy hm
    have hera : (if 0 ≤ ((yoe + era * 400 : Nat) : Int) then ((yoe + era * 400 : Nat) : Int)
        else ((yoe + era * 400 : Nat) : Int) - 399).tdiv 400 = era := by
      rw [if_pos (Int.natCast_nonneg _), Int.natCast_tdiv_eq_ediv]
      omega
    have hyear : (((yoe + era * 400 : Nat) : Int) - era * 400).toNat = yoe := by omega
    unfold daysFromCivil
    rw [if_neg (by omega)]
    dsimp only
    rw [hy, hera, hyear, hm]
    unfold yearStart monthOffset eraDays epochDays
    rw [Option.some.injEq]
    omega
  by_cases hmarch : mp < 10
  · rw [if_pos hmarch, if_pos hmarch]
    apply hkey
    · omega
    · omega
    · rw [if_neg (by omega)]
    · rw [if_pos (by omega)]
      omega
  · rw [if_neg hmarch] at h
    rw [if_neg hmarch, if_neg hmarch]
    apply hkey
    · omega
    · omega
    · rw [if_pos (by omega), ← wrapI32_of_lt (y := yoe + era * 400) (by omega)]
      congr 1
      omega
    · rw [if_neg (by omega)]
      omega

def monthStartSecs (t : Nat) : Nat := (monthStart (t / 86400 + epochDays) - epochDays) * 86400

theorem epochDays_le (days : Nat) : epochDays ≤ monthStart (days + epochDays) := by
  have hepoch : monthStart epochDays = epochDays := by decide +kernel
  have hmono : monthStart epochDays ≤ monthStart (days + epochDays) :=
    monthStart_mono (Nat.le_add_left epochDays days)
  exact hepoch.symm.le.trans hmono

theorem monthStartSecs_le (t : Nat) : monthStartSecs t ≤ t := by
  have hdays : monthStart (t / 86400 + epochDays) - epochDays ≤ t / 86400 :=
    Nat.sub_le_of_le_add (monthStart_le (t / 86400 + epochDays))
  calc
    monthStartSecs t ≤ t / 86400 * 86400 := Nat.mul_le_mul_right 86400 hdays
    _ ≤ t := Nat.div_mul_le_self t 86400

theorem monthStartSecs_mono {t t' : Nat} (h : t ≤ t') : monthStartSecs t ≤ monthStartSecs t' := by
  have hdays : t / 86400 + epochDays ≤ t' / 86400 + epochDays :=
    Nat.add_le_add_right (Nat.div_le_div_right h) _
  unfold monthStartSecs
  exact Nat.mul_le_mul_right _ (Nat.sub_le_sub_right (monthStart_mono hdays) _)

theorem calendarMonthStartUtc_eq {ts : UInt64} (h : InCalendar ts) :
    calendarMonthStartUtc ts = some (UInt64.ofNat (monthStartSecs ts.toNat)) := by
  have hbound := monthStartSecs_le ts.toNat
  have hlt := ts.toNat_lt
  have hstart := epochDays_le (ts.toNat / 86400)
  have hdays : ((monthStart (ts.toNat / 86400 + epochDays) : Int) - epochDays) =
      ((monthStart (ts.toNat / 86400 + epochDays) - epochDays : Nat) : Int) := by omega
  have hcast : (ts.toNat : Int) / 86400 = ((ts.toNat / 86400 : Nat) : Int) := rfl
  have hfirst := daysFromCivil_inMonth h (show 0 < 31 by decide)
  rw [Nat.zero_add, Nat.add_zero] at hfirst
  unfold calendarMonthStartUtc
  rw [hcast]
  generalize civilFromDays ((ts.toNat / 86400 : Nat) : Int) = civil at hfirst ⊢
  obtain ⟨year, month, day⟩ := civil
  dsimp only at hfirst ⊢
  rw [hfirst, hdays, Option.map_some]
  unfold monthStartSecs at hbound ⊢
  generalize monthStart (ts.toNat / 86400 + epochDays) - epochDays = days at hbound
  have hmul : (UInt64.ofInt (days : Int)).toNat = days := by
    change (UInt64.ofNat ((days : Int) % 2 ^ 64).toNat).toNat = days
    rw [UInt64.toNat_ofNat']
    omega
  rw [Option.some.injEq, ← UInt64.toNat_inj, UInt64.toNat_ofNat', Word.satMul, Word.toNat_clamp,
    hmul]
  change min (days * 86400) Word.u64Max = _
  unfold Word.u64Max
  omega

/-! ## Every time falls in a bucket -/

/-- The start of the bucket of a time. -/
def bucketOf (interval : BarInterval) (ts : UInt64) : UInt64 := (bucketStart ts interval).getD 0

/-- The same in seconds: a multiple of the length, or the start of the month. -/
def bucketSecs (interval : BarInterval) (t : Nat) : Nat :=
  match intervalSecs interval with
  | some secs => t / secs * secs
  | none => monthStartSecs t

variable (interval : BarInterval)

theorem bucketSecs_le (t : Nat) : bucketSecs interval t ≤ t := by
  unfold bucketSecs
  cases intervalSecs interval with
  | some secs => exact Nat.div_mul_le_self t secs
  | none => exact monthStartSecs_le t

theorem bucketSecs_mono {t t' : Nat} (h : t ≤ t') :
    bucketSecs interval t ≤ bucketSecs interval t' := by
  unfold bucketSecs
  cases intervalSecs interval with
  | some secs => exact Nat.mul_le_mul_right secs (Nat.div_le_div_right h)
  | none => exact monthStartSecs_mono h

theorem bucketStart_eq_secs {ts : UInt64} (h : InCalendar ts) :
    bucketStart ts interval = some (UInt64.ofNat (bucketSecs interval ts.toNat)) := by
  unfold bucketStart bucketSecs
  cases interval with
  | month => exact calendarMonthStartUtc_eq h
  | _ => rfl

theorem bucketStart_eq {ts : UInt64} (h : InCalendar ts) :
    bucketStart ts interval = some (bucketOf interval ts) := by
  unfold bucketOf
  rw [bucketStart_eq_secs interval h, Option.getD_some]

theorem toNat_bucketOf {ts : UInt64} (h : InCalendar ts) :
    (bucketOf interval ts).toNat = bucketSecs interval ts.toNat := by
  unfold bucketOf
  rw [bucketStart_eq_secs interval h, Option.getD_some, UInt64.toNat_ofNat']
  exact Nat.mod_eq_of_lt (Nat.lt_of_le_of_lt (bucketSecs_le interval _) ts.toNat_lt)

theorem bucketOf_mono {ts ts' : UInt64} (h : InCalendar ts) (h' : InCalendar ts') (hle : ts ≤ ts') :
    bucketOf interval ts ≤ bucketOf interval ts' := by
  rw [UInt64.le_iff_toNat_le, toNat_bucketOf interval h, toNat_bucketOf interval h']
  exact bucketSecs_mono interval (UInt64.le_iff_toNat_le.mp hle)

/-! ## Months of the Gregorian calendar -/

def civilDate (ts : UInt64) : Nat × Nat × Nat :=
  ((civilFromDays (ts.toNat / 86400 : Nat)).1.toNat, (civilFromDays (ts.toNat / 86400 : Nat)).2)

def IsMonthStart (ts : UInt64) : Prop := ts.toNat % 86400 = 0 ∧ (civilDate ts).2.2 = 1

structure MonthBegins (ts start : UInt64) : Prop where
  le : start ≤ ts
  first : IsMonthStart start
  last : ∀ t, IsMonthStart t → t ≤ ts → t ≤ start

structure ValidDate (date : Nat × Nat × Nat) : Prop where
  month_pos : 1 ≤ date.2.1
  month_le : date.2.1 ≤ 12
  day_pos : 1 ≤ date.2.2
  day_le : date.2.2 ≤ monthLength date.1 date.2.1

theorem validDate_dateOf (z : Nat) : ValidDate (dateOf z) := by
  have hdoe : z % eraDays < eraDays := Nat.mod_lt z (by decide)
  have hmonth := monthOf_lt (dayOfYear_lt hdoe)
  have hday := dayOfMonth_lt hdoe (z / eraDays)
  unfold dateOf
  dsimp only at hday ⊢
  obtain ⟨hpos, hle⟩ := civilMonth_bounds hmonth
  exact ⟨hpos, hle, Nat.le_add_left 1 _, hday⟩

theorem civilDate_snd (ts : UInt64) :
    (civilDate ts).2 = (dateOf (ts.toNat / 86400 + epochDays)).2 := by
  unfold civilDate
  rw [(civilFromDays_natCast (ts.toNat / 86400)).2]

theorem civilDate_eq {ts : UInt64} (h : InCalendar ts) :
    civilDate ts = dateOf (ts.toNat / 86400 + epochDays) := by
  refine Prod.ext ?_ (civilDate_snd ts)
  unfold civilDate
  rw [(civilFromDays_natCast (ts.toNat / 86400)).1, wrapI32_of_lt h, Int.toNat_natCast]
  rfl

theorem isMonthStart_iff (ts : UInt64) :
    IsMonthStart ts ↔ ts.toNat % 86400 = 0 ∧
      dayOfMonth (dayOfYear ((ts.toNat / 86400 + epochDays) % eraDays)) = 0 := by
  unfold IsMonthStart
  rw [civilDate_snd]
  unfold dateOf
  dsimp only
  rw [Nat.add_eq_right]

theorem toNat_bucketOf_month {ts : UInt64} (h : InCalendar ts) :
    (bucketOf .month ts).toNat = monthStartSecs ts.toNat := toNat_bucketOf .month h

theorem days_monthStartSecs (t : Nat) :
    monthStartSecs t % 86400 = 0 ∧
      monthStartSecs t / 86400 + epochDays = monthStart (t / 86400 + epochDays) := by
  have hle := epochDays_le (t / 86400)
  unfold monthStartSecs
  rw [Nat.mul_mod_left, Nat.mul_div_cancel _ (by decide)]
  omega

theorem monthBegins_bucketOf {ts : UInt64} (h : InCalendar ts) :
    MonthBegins ts (bucketOf .month ts) := by
  have hsecs := toNat_bucketOf_month h
  obtain ⟨hmidnight, hdays⟩ := days_monthStartSecs ts.toNat
  refine ⟨?_, ?_, ?_⟩
  · rw [UInt64.le_iff_toNat_le, hsecs]
    exact monthStartSecs_le _
  · rw [isMonthStart_iff, hsecs, hdays]
    exact ⟨hmidnight, (monthStart_parts _).2.2.2⟩
  · intro t ht hle
    rw [isMonthStart_iff] at ht
    rw [UInt64.le_iff_toNat_le] at hle ⊢
    rw [hsecs]
    have hday : t.toNat / 86400 + epochDays ≤ ts.toNat / 86400 + epochDays :=
      Nat.add_le_add_right (Nat.div_le_div_right hle) _
    have hfirst := le_monthStart hday ht.2
    unfold monthStartSecs
    omega

theorem inCalendar_bucketOf {ts : UInt64} (h : InCalendar ts) :
    InCalendar (bucketOf .month ts) := by
  obtain ⟨hera, hyear, hmonth, -⟩ := monthStart_parts (ts.toNat / 86400 + epochDays)
  unfold InCalendar civilYear at h ⊢
  dsimp only at h ⊢
  rw [toNat_bucketOf_month h, (days_monthStartSecs ts.toNat).2, hera, hyear, hmonth]
  exact h

theorem bucketOf_bucketOf {ts : UInt64} (h : InCalendar ts) :
    bucketOf .month (bucketOf .month ts) = bucketOf .month ts := by
  rw [← UInt64.toNat_inj, toNat_bucketOf_month (inCalendar_bucketOf h), toNat_bucketOf_month h]
  change (monthStart (monthStartSecs ts.toNat / 86400 + epochDays) - epochDays) * 86400 = _
  rw [(days_monthStartSecs ts.toNat).2, monthStart_monthStart]
  rfl

theorem daysFromCivil_civilFromDays {days : Nat} (h : civilYear days < 2 ^ 31) :
    daysFromCivil (civilFromDays days).1 (civilFromDays days).2.1 (civilFromDays days).2.2 =
      some (days : Int) := by
  have hvalid := validDate_dateOf (days + epochDays)
  have hself := monthStart_add_dayOfMonth (days + epochDays)
  have hday : (civilFromDays days).2.2 =
      dayOfMonth (dayOfYear ((days + epochDays) % eraDays)) + 1 :=
    congrArg Prod.snd (civilFromDays_natCast days).2
  have hlt : dayOfMonth (dayOfYear ((days + epochDays) % eraDays)) < 31 :=
    calc
      _ < monthLength _ _ := hvalid.day_le
      _ ≤ 31 := by
        unfold monthLength
        split_ifs <;> decide
  rw [hday, daysFromCivil_inMonth h hlt, hself, Nat.cast_add, Int.add_sub_cancel]

/-- Days have the dates of the Gregorian calendar, one after the other, and the month of a
second begins where the bucket of its month does. -/
theorem calendar_gregorian {ts : UInt64} (h : InCalendar ts) :
    (daysFromCivil (civilFromDays (ts.toNat / 86400 : Nat)).1
        (civilFromDays (ts.toNat / 86400 : Nat)).2.1
        (civilFromDays (ts.toNat / 86400 : Nat)).2.2 = some ((ts.toNat / 86400 : Nat) : Int)) ∧
      ValidDate (civilDate ts) ∧
      (∀ next, InCalendar next → next.toNat / 86400 = ts.toNat / 86400 + 1 →
        civilDate next = nextDate (civilDate ts)) ∧
      ∃ start, calendarMonthStartUtc ts = some start ∧ MonthBegins ts start ∧
        calendarMonthStartUtc start = some start ∧
        ∀ later, InCalendar later → ts ≤ later →
          ∃ start', calendarMonthStartUtc later = some start' ∧ start ≤ start' := by
  refine ⟨daysFromCivil_civilFromDays h, ?_, ?_, bucketOf .month ts, ?_, ?_, ?_, ?_⟩
  · rw [civilDate_eq h]
    exact validDate_dateOf _
  · intro next hnext hday
    rw [civilDate_eq h, civilDate_eq hnext, hday, Nat.add_right_comm]
    exact dateOf_succ _
  · exact bucketStart_eq .month h
  · exact monthBegins_bucketOf h
  · have hstart := bucketStart_eq .month (inCalendar_bucketOf h)
    rwa [bucketOf_bucketOf h] at hstart
  · intro later hlater hle
    exact ⟨_, bucketStart_eq .month hlater, bucketOf_mono .month h hlater hle⟩

/-- The leap day of the year 2000. -/
theorem calendar_gregorian_leapDay :
    InCalendar 951782400 ∧ civilDate 951782400 = (2000, 2, 29) ∧
      ValidDate (civilDate 951782400) ∧
      ∃ start, calendarMonthStartUtc 951782400 = some start ∧ MonthBegins 951782400 start := by
  have hin : InCalendar 951782400 := by decide
  obtain ⟨-, hvalid, -, start, hstart, hbegins, -, -⟩ := calendar_gregorian hin
  exact ⟨hin, by decide, hvalid, start, hstart, hbegins⟩

end ClobIndexer
