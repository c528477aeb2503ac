import ClobIndexer.Lib.Text
import Mathlib.Algebra.Field.Rat
import Mathlib.Algebra.Order.Ring.Rat
import Mathlib.Data.Nat.Cast.Order.Field
import Mathlib.Tactic.FieldSimp
/-!
# Decimal numerals

The rational number that a decimal numeral denotes: digits, perhaps a point and more
digits, perhaps a minus sign in front.  A number printed in two parts, whole and
fraction, is read back exactly, whether the fraction is padded with zeros or has its
trailing ones trimmed.
-/

namespace Lib.Decimal

/-- The value of digits with perhaps a point and more digits. -/
def readUnsigned (cs : List Char) : Option ℚ :=
  let whole := cs.takeWhile Char.isDigit
  if whole = [] then none
  else
    match cs.dropWhile Char.isDigit with
    | [] => some (Nat.ofDigitChars 10 whole 0)
    | '.' :: fraction =>
        if fraction = [] ∨ fraction.any (fun c => !c.isDigit) then none
        else
          some (Nat.ofDigitChars 10 whole 0 +
            Nat.ofDigitChars 10 fraction 0 / 10 ^ fraction.length)
    | _ => none

def readChars : List Char → Option ℚ
  | '-' :: cs => (readUnsigned cs).map fun value => -value
  | cs => readUnsigned cs

/-- The value of a decimal numeral, if the text is one. -/
def read (s : String) : Option ℚ := readChars s.toList

/-- No zero stands at the end of what follows a point. -/
def Trimmed (s : String) : Prop :=
  ∀ whole fraction, s.toList = whole ++ '.' :: fraction → fraction.getLast? ≠ some '0'

structure Fraction (digits : List Char) (value : ℚ) : Prop where
  ne_nil : digits ≠ []
  isDigit : ∀ c ∈ digits, c.isDigit = true
  value_eq : (Nat.ofDigitChars 10 digits 0 : ℚ) / 10 ^ digits.length = value

/-! ## Reading -/

theorem repr_ne_nil (n : Nat) : (Nat.repr n).toList ≠ [] := by
  rw [Nat.toList_repr]
  exact Nat.toDigits_ne_nil

theorem ofDigitChars_repr (n : Nat) : Nat.ofDigitChars 10 (Nat.repr n).toList 0 = n := by
  rw [Nat.toList_repr, Nat.ofDigitChars_ten_toDigits]

private theorem takeWhile_repr (n : Nat) {rest : List Char}
    (hrest : ∀ c ∈ rest.head?, c.isDigit = false) :
    ((Nat.repr n).toList ++ rest).takeWhile Char.isDigit = (Nat.repr n).toList := by
  rw [List.takeWhile_append_of_pos fun c hc => Text.isDigit_of_mem_repr hc]
  cases rest with
  | nil => simp
  | cons c rest => simp [hrest c (by simp)]

private theorem dropWhile_repr (n : Nat) {rest : List Char}
    (hrest : ∀ c ∈ rest.head?, c.isDigit = false) :
    ((Nat.repr n).toList ++ rest).dropWhile Char.isDigit = rest := by
  rw [List.dropWhile_append_of_pos fun c hc => Text.isDigit_of_mem_repr hc]
  cases rest with
  | nil => simp
  | cons c rest => simp [hrest c (by simp)]

theorem readUnsigned_repr (n : Nat) : readUnsigned (Nat.repr n).toList = some (n : ℚ) := by
  have htake := @takeWhile_repr n [] (by simp)
  have hdrop := @dropWhile_repr n [] (by simp)
  rw [List.append_nil] at htake hdrop
  unfold readUnsigned
  rw [htake, hdrop]
  simp

theorem readUnsigned_point (n : Nat) {digits : List Char} {value : ℚ}
    (h : Fraction digits value) :
    readUnsigned ((Nat.repr n).toList ++ '.' :: digits) = some (n + value) := by
  have hpoint : ∀ c ∈ ('.' :: digits).head?, c.isDigit = false := by
    intro c hc
    simp only [List.head?_cons, Option.mem_def, Option.some.injEq] at hc
    subst hc
    decide
  have hdigits : ¬(digits = [] ∨ digits.any (fun c => !c.isDigit) = true) := by
    rw [not_or]
    refine ⟨h.ne_nil, ?_⟩
    simpa using h.isDigit
  unfold readUnsigned
  dsimp only
  rw [takeWhile_repr n hpoint, dropWhile_repr n hpoint]
  simp only [repr_ne_nil, if_false, hdigits, ofDigitChars_repr, h.value_eq]

theorem readChars_of_digit {c : Char} {cs : List Char} (hc : c.isDigit = true) :
    readChars (c :: cs) = readUnsigned (c :: cs) := by
  unfold readChars
  split
  · next heq =>
      simp only [List.cons.injEq] at heq
      rw [heq.1] at hc
      cases hc
  · rfl

theorem readChars_repr_append (n : Nat) (rest : List Char) :
    readChars ((Nat.repr n).toList ++ rest) = readUnsigned ((Nat.repr n).toList ++ rest) := by
  obtain ⟨c, cs, hcs⟩ := List.exists_cons_of_ne_nil (repr_ne_nil n)
  rw [hcs]
  apply readChars_of_digit
  apply Text.isDigit_of_mem_repr (n := n)
  simp [hcs]

theorem read_minus (s : String) :
    read ("-" ++ s) = (readUnsigned s.toList).map fun value => -value := by
  have hlist : ("-" ++ s).toList = '-' :: s.toList := by simp
  rw [read, hlist]
  rfl

theorem read_repr (n : Nat) : read (Nat.repr n) = some (n : ℚ) := by
  have hchars := readChars_repr_append n []
  rw [List.append_nil] at hchars
  rw [read, hchars, readUnsigned_repr]

/-! ## Fractions -/

theorem fraction_padZeros {width m : Nat} (hwidth : 0 < width) (hm : m < 10 ^ width) :
    Fraction (Text.padZeros width m).toList ((m : ℚ) / 10 ^ width) := by
  have hlength := Text.length_padZeros hwidth hm
  constructor
  · intro hnil
    rw [hnil, List.length_nil] at hlength
    omega
  · intro c hc
    simp only [Text.padZeros, String.toList_ofList, List.mem_append, List.mem_replicate] at hc
    rcases hc with ⟨-, rfl⟩ | hc
    · decide
    · exact Text.isDigit_of_mem_repr hc
  · rw [hlength, Text.ofDigitChars_padZeros]

theorem fraction_trim {width m : Nat} (hwidth : 0 < width) (hm : m < 10 ^ width) (hne : m ≠ 0) :
    Fraction (Text.trimEndMatches '0' (Text.padZeros width m)).toList ((m : ℚ) / 10 ^ width) := by
  have hpad := fraction_padZeros hwidth hm
  rw [Text.trimEndMatches, String.toList_ofList]
  obtain ⟨k, hk⟩ := Text.rdropWhile_append_replicate '0' (Text.padZeros width m).toList
  generalize (Text.padZeros width m).toList.rdropWhile (· == '0') = digits at hk
  have hvalue : Nat.ofDigitChars 10 (Text.padZeros width m).toList 0 =
      10 ^ k * Nat.ofDigitChars 10 digits 0 := by
    rw [hk, Nat.ofDigitChars_append, Nat.ofDigitChars_replicate_zero]
  rw [Text.ofDigitChars_padZeros] at hvalue
  have hlength : digits.length + k = width := by
    rw [← Text.length_padZeros hwidth hm, hk, List.length_append, List.length_replicate]
  constructor
  · intro hnil
    simp [hnil] at hvalue
    omega
  · intro c hc
    exact hpad.isDigit c (by simp [hk, hc])
  · rw [← hlength, hvalue, pow_add]
    push_cast
    field_simp

theorem getLast_trim (s : String) : (Text.trimEndMatches '0' s).toList.getLast? ≠ some '0' := by
  rw [Text.trimEndMatches, String.toList_ofList]
  intro hlast
  by_cases hnil : s.toList.rdropWhile (· == '0') = []
  · simp [hnil] at hlast
  · have hkept := List.rdropWhile_last_not (· == '0') s.toList hnil
    rw [List.getLast?_eq_some_getLast hnil, Option.some.injEq] at hlast
    simp [hlast] at hkept

/-! ## Numbers in two parts -/

variable {scale : Nat}

def parts (scale n : Nat) (fraction : String) : String :=
  if n % scale = 0 then Nat.repr (n / scale) else Nat.repr (n / scale) ++ "." ++ fraction

theorem readUnsigned_parts {n width : Nat} (hscale : scale = 10 ^ width) {fraction : String}
    (h : n % scale ≠ 0 → Fraction fraction.toList (((n % scale : ℕ) : ℚ) / 10 ^ width)) :
    readUnsigned (parts scale n fraction).toList = some ((n : ℚ) / 10 ^ width) := by
  have hdivide : (n : ℚ) = 10 ^ width * (n / scale : ℕ) + (n % scale : ℕ) := by
    have hnat := Nat.div_add_mod n scale
    rw [hscale] at hnat ⊢
    exact_mod_cast hnat.symm
  unfold parts
  split_ifs with hfrac
  · rw [readUnsigned_repr, hdivide, hfrac]
    simp
  · have hlist : (Nat.repr (n / scale) ++ "." ++ fraction).toList =
        (Nat.repr (n / scale)).toList ++ '.' :: fraction.toList := by
      simp
    rw [hlist, readUnsigned_point _ (h hfrac), hdivide]
    congr 1
    field_simp

theorem read_parts (n : Nat) (fraction : String) :
    read (parts scale n fraction) = readUnsigned (parts scale n fraction).toList := by
  have hchars : ∃ rest,
      (parts scale n fraction).toList = (Nat.repr (n / scale)).toList ++ rest := by
    unfold parts
    split_ifs
    · exact ⟨[], by simp⟩
    · exact ⟨'.' :: fraction.toList, by simp⟩
  obtain ⟨rest, hrest⟩ := hchars
  rw [read, hrest, readChars_repr_append]

theorem trimmed_parts (n : Nat) (s : String) :
    Trimmed (parts scale n (Text.trimEndMatches '0' s)) := by
  intro whole fraction hlist hzero
  unfold parts at hlist
  split_ifs at hlist
  · -- a whole number has no point
    have hdigit : Char.isDigit '.' = true := by
      apply Text.isDigit_of_mem_repr (n := n / scale)
      simp [hlist]
    revert hdigit
    decide
  · have hlast := congrArg List.getLast? hlist
    have htrim := getLast_trim s
    simp only [String.toList_append, List.getLast?_append, List.getLast?_cons, hzero] at hlast
    cases hend : (Text.trimEndMatches '0' s).toList.getLast? with
    | none => simp [hend] at hlast
    | some c =>
        rw [hend] at htrim
        simp [hend] at hlast
        simp [hlast] at htrim

end Lib.Decimal
