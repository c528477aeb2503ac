import Mathlib.Order.Monotone.Basic
import Mathlib.Tactic.IntervalCases
/-!
# The civil calendar

Days are counted from the first of March of the year 0.  An era is 400 years of the
Gregorian calendar, which is 146097 days, and a year of it begins in March, so that
the leap day is its last.  Years and months of a day come from division alone; that
the month of a day begins no later than the day, and no earlier than the month of an
earlier day, is what the lemmas are for.
-/

namespace Lib.Civil

def eraDays : Nat := 146097

/-- Days of an era before a year of it. -/
def yearStart (yoe : Nat) : Nat := 365 * yoe + yoe / 4 - yoe / 100

def yearOf (doe : Nat) : Nat := (doe - doe / 1460 + doe / 36524 - doe / 146096) / 365

def dayOfYear (doe : Nat) : Nat := doe - yearStart (yearOf doe)

def monthOf (doy : Nat) : Nat := (5 * doy + 2) / 153

def monthOffset (mp : Nat) : Nat := (153 * mp + 2) / 5

def monthStart (z : Nat) : Nat :=
  let doe := z % eraDays
  z / eraDays * eraDays + (yearStart (yearOf doe) + monthOffset (monthOf (dayOfYear doe)))

variable {doe doe' : Nat}

theorem yearOf_le (hle : doe ≤ doe') (hera : doe' < eraDays) : yearOf doe ≤ yearOf doe' := by
  unfold yearOf
  apply Nat.div_le_div_right
  unfold eraDays at hera
  omega

theorem yearOf_yearStart : ∀ y < 400, yearOf (yearStart y) = y := by decide +kernel

theorem yearOf_before : ∀ y < 399, yearOf (yearStart (y + 1) - 1) = y := by decide +kernel

theorem yearOf_lt (h : doe < eraDays) : yearOf doe < 400 := by
  unfold yearOf
  unfold eraDays at h
  omega

theorem yearStart_lt {y : Nat} (h : y < 400) : yearStart y < eraDays := by
  unfold yearStart eraDays
  omega

theorem yearStart_le (h : doe < eraDays) : yearStart (yearOf doe) ≤ doe := by
  have hyear := yearOf_lt h
  by_contra hbefore
  cases hy : yearOf doe with
  | zero =>
      rw [hy] at hbefore
      exact hbefore (Nat.zero_le doe)
  | succ y =>
      rw [hy] at hbefore hyear
      have hle : doe ≤ yearStart (y + 1) - 1 := by omega
      have hera : yearStart (y + 1) - 1 < eraDays := by
        have := yearStart_lt hyear
        omega
      have hmono := yearOf_le hle hera
      rw [yearOf_before y (by omega), hy] at hmono
      omega

theorem lt_yearStart (h : doe < eraDays) {y : Nat} (hy : y < 400) (hlt : yearOf doe < y) :
    doe < yearStart y := by
  by_contra hnot
  have hmono := yearOf_le (Nat.le_of_not_lt hnot) h
  rw [yearOf_yearStart y hy] at hmono
  omega

theorem dayOfYear_lt (h : doe < eraDays) : dayOfYear doe < 366 := by
  have hyear := yearOf_lt h
  unfold dayOfYear
  rcases Nat.lt_or_ge (yearOf doe) 399 with hlt | hge
  · have hnext : doe < yearStart (yearOf doe + 1) := lt_yearStart h (by omega) (by omega)
    have hlength : yearStart (yearOf doe + 1) ≤ yearStart (yearOf doe) + 366 := by
      unfold yearStart
      omega
    omega
  · have hlast : yearOf doe = 399 := by omega
    rw [hlast]
    unfold yearStart
    unfold eraDays at h
    omega

theorem monthOf_lt {doy : Nat} (h : doy < 366) : monthOf doy < 12 := by
  unfold monthOf
  omega

theorem monthOffset_monthOf_le (doy : Nat) : monthOffset (monthOf doy) ≤ doy := by
  unfold monthOffset monthOf
  omega

theorem monthOffset_mono {doy doy' : Nat} (h : doy ≤ doy') :
    monthOffset (monthOf doy) ≤ monthOffset (monthOf doy') := by
  unfold monthOffset monthOf
  omega

theorem monthStart_era_le (h : doe < eraDays) :
    yearStart (yearOf doe) + monthOffset (monthOf (dayOfYear doe)) ≤ doe := by
  have hyear := yearStart_le h
  have hmonth : monthOffset (monthOf (dayOfYear doe)) ≤ dayOfYear doe := monthOffset_monthOf_le _
  unfold dayOfYear at hmonth ⊢
  omega

theorem monthStart_era_mono (hle : doe ≤ doe') (hera : doe' < eraDays) :
    yearStart (yearOf doe) + monthOffset (monthOf (dayOfYear doe)) ≤
      yearStart (yearOf doe') + monthOffset (monthOf (dayOfYear doe')) := by
  have hdoe : doe < eraDays := Nat.lt_of_le_of_lt hle hera
  rcases Nat.lt_or_ge (yearOf doe) (yearOf doe') with hlt | hge
  · calc
      yearStart (yearOf doe) + monthOffset (monthOf (dayOfYear doe)) ≤ doe := monthStart_era_le hdoe
      _ ≤ yearStart (yearOf doe') := (lt_yearStart hdoe (yearOf_lt hera) hlt).le
      _ ≤ _ := Nat.le_add_right _ _
  · have hsame : yearOf doe = yearOf doe' := Nat.le_antisymm (yearOf_le hle hera) hge
    have hday : dayOfYear doe ≤ dayOfYear doe' := by
      unfold dayOfYear
      rw [hsame]
      omega
    rw [hsame]
    exact Nat.add_le_add_left (monthOffset_mono hday) _

theorem monthStart_le (z : Nat) : monthStart z ≤ z := by
  have hera : z % eraDays < eraDays := Nat.mod_lt z (by decide)
  have hdays := monthStart_era_le hera
  have hsplit := Nat.div_add_mod' z eraDays
  unfold monthStart
  dsimp only
  omega

theorem monthStart_mono {z z' : Nat} (h : z ≤ z') : monthStart z ≤ monthStart z' := by
  have hera : z % eraDays < eraDays := Nat.mod_lt z (by decide)
  have hera' : z' % eraDays < eraDays := Nat.mod_lt z' (by decide)
  have hsplit := Nat.div_add_mod' z eraDays
  have hsplit' := Nat.div_add_mod' z' eraDays
  rcases Nat.lt_or_ge (z / eraDays) (z' / eraDays) with hlt | hge
  · have hnext : (z / eraDays + 1) * eraDays ≤ z' / eraDays * eraDays :=
      Nat.mul_le_mul_right eraDays hlt
    calc
      monthStart z ≤ z := monthStart_le z
      _ ≤ z' / eraDays * eraDays := by
        rw [Nat.add_mul] at hnext
        omega
      _ ≤ monthStart z' := Nat.le_add_right _ _
  · have hsame : z / eraDays = z' / eraDays :=
      Nat.le_antisymm (Nat.div_le_div_right h) hge
    have hday : z % eraDays ≤ z' % eraDays := by
      rw [hsame] at hsplit
      omega
    unfold monthStart
    dsimp only
    rw [hsame]
    exact Nat.add_le_add_left (monthStart_era_mono hday hera') _

/-! ## Dates -/

/-- The day of a month, from zero. -/
def dayOfMonth (doy : Nat) : Nat := doy - monthOffset (monthOf doy)

def Leap (year : Nat) : Prop := year % 4 = 0 ∧ (year % 100 ≠ 0 ∨ year % 400 = 0)

instance (year : Nat) : Decidable (Leap year) := inferInstanceAs (Decidable (_ ∧ _))

def monthLength (year month : Nat) : Nat :=
  if month = 2 then if Leap year then 29 else 28
  else if month = 4 ∨ month = 6 ∨ month = 9 ∨ month = 11 then 30
  else 31

/-- The civil number of a month counted from March. -/
def civilMonth (mp : Nat) : Nat := if mp < 10 then mp + 3 else mp - 9

/-- The civil year of a month, given the year that begins in March. -/
def civilYearOf (y mp : Nat) : Nat := if mp < 10 then y else y + 1

theorem civilMonth_bounds {mp : Nat} (h : mp < 12) : 1 ≤ civilMonth mp ∧ civilMonth mp ≤ 12 := by
  unfold civilMonth
  split_ifs <;> omega

theorem leap_add_era (y era : Nat) : Leap (y + era * 400) ↔ Leap y := by
  unfold Leap
  omega

/-- A year that begins in March is as long as the leap day at its end makes it. -/
theorem dayOfYear_lt_length (h : doe < eraDays) :
    dayOfYear doe < if Leap (yearOf doe + 1) then 366 else 365 := by
  have hyear := yearOf_lt h
  have hstart := yearStart_le h
  unfold dayOfYear
  rcases Nat.lt_or_ge (yearOf doe) 399 with hlt | hge
  · have hnext : doe < yearStart (yearOf doe + 1) := lt_yearStart h (by omega) (by omega)
    generalize yearOf doe = y at hnext hstart hlt ⊢
    unfold yearStart at hnext hstart ⊢
    by_cases hleap : Leap (y + 1)
    · rw [if_pos hleap]
      omega
    · rw [if_neg hleap]
      unfold Leap at hleap
      omega
  · have hlast : yearOf doe = 399 := by omega
    rw [hlast] at hstart ⊢
    rw [if_pos (by decide)]
    unfold eraDays at h
    unfold yearStart at hstart ⊢
    omega

theorem dayOfMonth_lt (h : doe < eraDays) (era : Nat) :
    let mp := monthOf (dayOfYear doe)
    dayOfMonth (dayOfYear doe) <
      monthLength (civilYearOf (yearOf doe + era * 400) mp) (civilMonth mp) := by
  have hlength := dayOfYear_lt_length h
  have hmp := monthOf_lt (dayOfYear_lt h)
  generalize dayOfYear doe = doy at hlength hmp ⊢
  dsimp only
  have hoffset : 5 * doy + 2 < 153 * (monthOf doy + 1) := by
    unfold monthOf
    omega
  unfold dayOfMonth
  generalize monthOf doy = mp at hmp hoffset ⊢
  unfold monthLength civilMonth civilYearOf monthOffset
  by_cases hfeb : mp = 11
  · subst hfeb
    have hleap : Leap (yearOf doe + era * 400 + 1) ↔ Leap (yearOf doe + 1) := by
      rw [Nat.add_right_comm]
      exact leap_add_era _ era
    simp only [show ¬(11 : Nat) < 10 by decide, if_false, if_true, show (11 : Nat) - 9 = 2 by rfl,
      hleap]
    split_ifs at hlength ⊢ <;> omega
  · interval_cases mp <;> simp <;> omega

theorem yearOf_monthStart (h : doe < eraDays) :
    let start := yearStart (yearOf doe) + monthOffset (monthOf (dayOfYear doe))
    yearOf start = yearOf doe ∧
      dayOfYear start = monthOffset (monthOf (dayOfYear doe)) := by
  have hle := monthStart_era_le h
  have hyear : yearOf (yearStart (yearOf doe) + monthOffset (monthOf (dayOfYear doe))) =
      yearOf doe := by
    apply Nat.le_antisymm (yearOf_le hle h)
    calc
      yearOf doe = yearOf (yearStart (yearOf doe)) := (yearOf_yearStart _ (yearOf_lt h)).symm
      _ ≤ _ := yearOf_le (Nat.le_add_right _ _) (Nat.lt_of_le_of_lt hle h)
  refine ⟨hyear, ?_⟩
  unfold dayOfYear at hyear ⊢
  rw [hyear]
  omega

theorem monthOf_monthOffset (mp : Nat) : monthOf (monthOffset mp) = mp := by
  unfold monthOf monthOffset
  omega

theorem monthStart_add_dayOfMonth (z : Nat) :
    monthStart z + dayOfMonth (dayOfYear (z % eraDays)) = z := by
  have hera : z % eraDays < eraDays := Nat.mod_lt z (by decide)
  have hyear := yearStart_le hera
  have hmonth := monthOffset_monthOf_le (dayOfYear (z % eraDays))
  have hsplit := Nat.div_add_mod' z eraDays
  unfold monthStart dayOfMonth
  unfold dayOfYear at hmonth ⊢
  dsimp only
  omega

/-- The first day of a month has the year and the month of every day of the month. -/
theorem monthStart_parts (z : Nat) :
    monthStart z / eraDays = z / eraDays ∧
      yearOf (monthStart z % eraDays) = yearOf (z % eraDays) ∧
      monthOf (dayOfYear (monthStart z % eraDays)) = monthOf (dayOfYear (z % eraDays)) ∧
      dayOfMonth (dayOfYear (monthStart z % eraDays)) = 0 := by
  have hera : z % eraDays < eraDays := Nat.mod_lt z (by decide)
  have hle := monthStart_era_le hera
  obtain ⟨hyear, hday⟩ := yearOf_monthStart hera
  have hstart : monthStart z = z / eraDays * eraDays +
      (yearStart (yearOf (z % eraDays)) + monthOffset (monthOf (dayOfYear (z % eraDays)))) := rfl
  have hlt := Nat.lt_of_le_of_lt hle hera
  have hdiv : monthStart z / eraDays = z / eraDays := by
    rw [hstart, Nat.add_comm, Nat.add_mul_div_right _ _ (by decide), Nat.div_eq_of_lt hlt,
      Nat.zero_add]
  have hmod : monthStart z % eraDays =
      yearStart (yearOf (z % eraDays)) + monthOffset (monthOf (dayOfYear (z % eraDays))) := by
    rw [hstart, Nat.add_comm, Nat.add_mul_mod_self_right, Nat.mod_eq_of_lt hlt]
  have hmonth : monthOf (monthOffset (monthOf (dayOfYear (z % eraDays)))) =
      monthOf (dayOfYear (z % eraDays)) := monthOf_monthOffset _
  rw [hmod, hyear, hday, hmonth]
  refine ⟨hdiv, rfl, rfl, ?_⟩
  unfold dayOfMonth
  rw [hmonth, Nat.sub_self]

theorem monthStart_monthStart (z : Nat) : monthStart (monthStart z) = monthStart z := by
  have hself := monthStart_add_dayOfMonth (monthStart z)
  rwa [(monthStart_parts z).2.2.2, Nat.add_zero] at hself

/-- A day that begins a month is no earlier than the month of an earlier one, and so none
comes between a day and the first of its month. -/
theorem le_monthStart {z z' : Nat} (hle : z' ≤ z)
    (hfirst : dayOfMonth (dayOfYear (z' % eraDays)) = 0) : z' ≤ monthStart z := by
  have hself := monthStart_add_dayOfMonth z'
  rw [hfirst, Nat.add_zero] at hself
  exact hself ▸ monthStart_mono hle

/-! ## The next day -/

/-- The civil date of a day: year, month, and day of the month. -/
def dateOf (z : Nat) : Nat × Nat × Nat :=
  let doe := z % eraDays
  let mp := monthOf (dayOfYear doe)
  (civilYearOf (yearOf doe + z / eraDays * 400) mp, civilMonth mp, dayOfMonth (dayOfYear doe) + 1)

def nextDate (date : Nat × Nat × Nat) : Nat × Nat × Nat :=
  let (year, month, day) := date
  if day < monthLength year month then (year, month, day + 1)
  else if month < 12 then (year, month + 1, 1)
  else (year + 1, 1, 1)

def lengthOf (yoe mp : Nat) : Nat := monthLength (civilYearOf yoe mp) (civilMonth mp)

theorem monthLength_era (yoe era mp : Nat) :
    monthLength (civilYearOf (yoe + era * 400) mp) (civilMonth mp) = lengthOf yoe mp := by
  unfold lengthOf monthLength civilYearOf
  split_ifs <;> simp_all [leap_add_era, Nat.add_right_comm]

theorem lengthOf_pos (yoe mp : Nat) : 0 < lengthOf yoe mp := by
  unfold lengthOf monthLength
  split_ifs <;> decide

theorem monthOffset_add_length {mp : Nat} (h : mp < 11) (yoe : Nat) :
    monthOffset mp + lengthOf yoe mp = monthOffset (mp + 1) := by
  unfold lengthOf monthLength civilMonth monthOffset
  interval_cases mp <;> rfl

theorem yearStart_add_length {yoe : Nat} (h : yoe < 399) :
    yearStart yoe + (monthOffset 11 + lengthOf yoe 11) = yearStart (yoe + 1) := by
  have hlength : lengthOf yoe 11 = if Leap (yoe + 1) then 29 else 28 := rfl
  rw [hlength]
  by_cases hleap : Leap (yoe + 1)
  · rw [if_pos hleap]
    unfold Leap at hleap
    unfold yearStart monthOffset
    omega
  · rw [if_neg hleap]
    unfold Leap at hleap
    unfold yearStart monthOffset
    omega

theorem yearStart_last : yearStart 399 + (monthOffset 11 + lengthOf 399 11) = eraDays := by decide

structure Placed (yoe mp dom : Nat) : Prop where
  year : yoe < 400
  month : mp < 12
  day : dom < lengthOf yoe mp

def dayAt (era yoe mp dom : Nat) : Nat :=
  era * eraDays + (yearStart yoe + (monthOffset mp + dom))

namespace Placed

variable {yoe mp dom : Nat}

theorem before_next (h : Placed yoe mp dom) :
    monthOffset mp + dom < monthOffset 11 + lengthOf yoe 11 := by
  have hday := h.day
  have hmonth := h.month
  rcases Nat.lt_or_ge mp 11 with hlt | hge
  · have hend := monthOffset_add_length hlt yoe
    have hoffset : monthOffset (mp + 1) ≤ monthOffset 11 := by
      unfold monthOffset
      omega
    omega
  · have hlast : mp = 11 := by omega
    subst hlast
    omega

theorem lt_era (h : Placed yoe mp dom) : yearStart yoe + (monthOffset mp + dom) < eraDays := by
  have hbefore := h.before_next
  have hyear := h.year
  rcases Nat.lt_or_ge yoe 399 with hlt | hge
  · have hend := yearStart_add_length hlt
    have hnext := yearStart_lt (show yoe + 1 < 400 by omega)
    omega
  · have hlast : yoe = 399 := by omega
    subst hlast
    have hend := yearStart_last
    omega

theorem yearOf_eq (h : Placed yoe mp dom) :
    yearOf (yearStart yoe + (monthOffset mp + dom)) = yoe := by
  have hera := h.lt_era
  have hbefore := h.before_next
  have hyear := h.year
  have hlow : yoe ≤ yearOf (yearStart yoe + (monthOffset mp + dom)) :=
    calc
      yoe = yearOf (yearStart yoe) := (yearOf_yearStart yoe hyear).symm
      _ ≤ _ := yearOf_le (Nat.le_add_right _ _) hera
  apply Nat.le_antisymm _ hlow
  rcases Nat.lt_or_ge yoe 399 with hlt | hge
  · have hend := yearStart_add_length hlt
    have hnext := yearStart_lt (show yoe + 1 < 400 by omega)
    calc
      _ ≤ yearOf (yearStart (yoe + 1) - 1) := yearOf_le (by omega) (by omega)
      _ = yoe := yearOf_before yoe hlt
  · have hlt := yearOf_lt hera
    omega

theorem dayOfYear_eq (h : Placed yoe mp dom) :
    dayOfYear (yearStart yoe + (monthOffset mp + dom)) = monthOffset mp + dom := by
  unfold dayOfYear
  rw [h.yearOf_eq, Nat.add_sub_cancel_left]

theorem monthOf_eq (h : Placed yoe mp dom) : monthOf (monthOffset mp + dom) = mp := by
  have hday := h.day
  have hmonth := h.month
  rcases Nat.lt_or_ge mp 11 with hlt | hge
  · have hend := monthOffset_add_length hlt yoe
    unfold monthOffset at hend ⊢
    unfold monthOf
    omega
  · have hlast : mp = 11 := by omega
    subst hlast
    have hlength : lengthOf yoe 11 ≤ 29 := by
      change (if Leap (yoe + 1) then 29 else 28) ≤ 29
      split_ifs <;> omega
    unfold monthOf monthOffset
    omega

/-- A day has the date of the month that it is placed in. -/
theorem dateOf_dayAt (h : Placed yoe mp dom) (era : Nat) :
    dateOf (dayAt era yoe mp dom) =
      (civilYearOf (yoe + era * 400) mp, civilMonth mp, dom + 1) := by
  have hera := h.lt_era
  have hmod : dayAt era yoe mp dom % eraDays = yearStart yoe + (monthOffset mp + dom) := by
    unfold dayAt
    rw [Nat.add_comm, Nat.add_mul_mod_self_right, Nat.mod_eq_of_lt hera]
  have hdiv : dayAt era yoe mp dom / eraDays = era := by
    unfold dayAt
    rw [Nat.add_comm, Nat.add_mul_div_right _ _ (by decide), Nat.div_eq_of_lt hera, Nat.zero_add]
  unfold dateOf
  dsimp only
  rw [hmod, hdiv, h.yearOf_eq, h.dayOfYear_eq, h.monthOf_eq]
  unfold dayOfMonth
  rw [h.monthOf_eq, Nat.add_sub_cancel_left]

end Placed

/-- Every day is placed in a month. -/
theorem exists_placed (z : Nat) :
    ∃ era yoe mp dom, Placed yoe mp dom ∧ z = dayAt era yoe mp dom := by
  have hera : z % eraDays < eraDays := Nat.mod_lt z (by decide)
  have hday := dayOfMonth_lt hera 0
  dsimp only at hday
  rw [monthLength_era] at hday
  refine ⟨z / eraDays, _, _, _, ⟨yearOf_lt hera, monthOf_lt (dayOfYear_lt hera), hday⟩, ?_⟩
  have hself := monthStart_add_dayOfMonth z
  unfold monthStart at hself
  dsimp only at hself
  unfold dayAt
  omega

/-- The days follow each other as the dates of the Gregorian calendar do. -/
theorem dateOf_succ (z : Nat) : dateOf (z + 1) = nextDate (dateOf z) := by
  obtain ⟨era, yoe, mp, dom, hplaced, rfl⟩ := exists_placed z
  rw [hplaced.dateOf_dayAt era]
  unfold nextDate
  dsimp only
  rw [monthLength_era]
  have hyear := hplaced.year
  have hmonth := hplaced.month
  have hday := hplaced.day
  by_cases hinside : dom + 1 < lengthOf yoe mp
  · have hnext : dayAt era yoe mp dom + 1 = dayAt era yoe mp (dom + 1) := by
      unfold dayAt
      omega
    rw [if_pos hinside, hnext, Placed.dateOf_dayAt ⟨hyear, hmonth, hinside⟩]
  rw [if_neg hinside]
  have hlast : dom + 1 = lengthOf yoe mp := by omega
  by_cases hmarch : mp < 11
  · -- the next month of the same year
    have hend := monthOffset_add_length hmarch yoe
    have hnext : dayAt era yoe mp dom + 1 = dayAt era yoe (mp + 1) 0 := by
      unfold dayAt
      rw [← hend, ← hlast]
      omega
    rw [hnext, Placed.dateOf_dayAt ⟨hyear, by omega, lengthOf_pos _ _⟩]
    unfold civilYearOf civilMonth
    interval_cases mp <;> simp
  have hfeb : mp = 11 := by omega
  subst hfeb
  by_cases hera : yoe < 399
  · have hend := yearStart_add_length hera
    have hnext : dayAt era yoe 11 dom + 1 = dayAt era (yoe + 1) 0 0 := by
      unfold dayAt
      have hzero : monthOffset 0 = 0 := rfl
      omega
    rw [hnext, Placed.dateOf_dayAt ⟨by omega, by omega, lengthOf_pos _ _⟩]
    simp [civilYearOf, civilMonth, Nat.add_right_comm]
  · have hlastYear : yoe = 399 := by omega
    subst hlastYear
    have hend := yearStart_last
    have hnext : dayAt era 399 11 dom + 1 = dayAt (era + 1) 0 0 0 := by
      unfold dayAt
      have hzero : monthOffset 0 = 0 := rfl
      have hstart : yearStart 0 = 0 := rfl
      rw [Nat.add_mul]
      omega
    rw [hnext, Placed.dateOf_dayAt ⟨by omega, by omega, lengthOf_pos _ _⟩]
    simp [civilYearOf, civilMonth]
    omega

end Lib.Civil
