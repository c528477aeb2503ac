import Mathlib.Algebra.Group.Int.Defs
import Mathlib.Algebra.Group.Nat.Defs
import Mathlib.Data.List.DropRight
/-!
# String operations of the Rust standard library

`str::trim`, the ASCII case maps, `ends_with`, `rsplit_once` and the integer
formats, written over character lists so that they evaluate in the kernel.
-/

namespace Lib.Text

/-- The Unicode `White_Space` property, as `char::is_whitespace` tests it. -/
def isWhitespace (c : Char) : Bool :=
  let n := c.toNat
  (9 ≤ n && n ≤ 13) || n == 32 || n == 133 || n == 160 || n == 5760 ||
    (8192 ≤ n && n ≤ 8202) || n == 8232 || n == 8233 || n == 8239 || n == 8287 || n == 12288

def trim (s : String) : String :=
  String.ofList ((s.toList.dropWhile isWhitespace).rdropWhile isWhitespace)

def toAsciiLowercase (s : String) : String := String.ofList (s.toList.map Char.toLower)

def toAsciiUppercase (s : String) : String := String.ofList (s.toList.map Char.toUpper)

@[simp] theorem toAsciiUppercase_eq_empty {s : String} : toAsciiUppercase s = "" ↔ s = "" := by
  unfold toAsciiUppercase
  constructor
  · intro h
    have hlist := congrArg String.toList h
    rw [String.toList_ofList] at hlist
    exact String.toList_injective (List.map_eq_nil_iff.mp hlist)
  · rintro rfl
    rfl

def eqIgnoreAsciiCase (s t : String) : Bool := toAsciiLowercase s == toAsciiLowercase t

/-- `char::to_lowercase`, up to which non-ASCII characters stand in the result:
the Kelvin sign and the dotted capital I are the only non-ASCII characters whose
lower case holds an ASCII one. -/
def lowerChar (c : Char) : List Char :=
  if c.toNat = 0x212A then ['k']
  else if c.toNat = 0x130 then ['i', Char.ofNat 0x307]
  else [c.toLower]

/-- `str::to_lowercase`, with the same proviso. -/
def toLowercase (s : String) : String := String.ofList (s.toList.flatMap lowerChar)

def endsWith (s suffix : String) : Bool := suffix.toList.isSuffixOf s.toList

/-- `str::rsplit_once` on a character: split at its last occurrence. -/
def rsplitOnce (c : Char) (s : String) : Option (String × String) :=
  let tail := (s.toList.reverse.takeWhile (· != c)).reverse
  let rest := s.toList.reverse.dropWhile (· != c)
  match rest with
  | [] => none
  | _ :: head => some (String.ofList head.reverse, String.ofList tail)

def stripPrefix (pre s : String) : Option String :=
  if pre.toList.isPrefixOf s.toList then some (String.ofList (s.toList.drop pre.toList.length))
  else none

def afterPlus : List Char → List Char
  | '+' :: rest => rest
  | cs => cs

def parseU32 (s : String) : Option UInt32 :=
  let digits := afterPlus s.toList
  if digits = [] ∨ digits.any (fun c => !c.isDigit) then none
  else
    let n := Nat.ofDigitChars 10 digits 0
    if n < 2 ^ 32 then some (UInt32.ofNat n) else none

def parseI128 (s : String) : Option Int :=
  let (negative, digits) :=
    match s.toList with
    | '-' :: rest => (true, rest)
    | cs => (false, afterPlus cs)
  if digits = [] ∨ digits.any (fun c => !c.isDigit) then none
  else
    let n : Int := Nat.ofDigitChars 10 digits 0
    let n := if negative then -n else n
    if -2 ^ 127 ≤ n ∧ n < 2 ^ 127 then some n else none

example : parseI128 "-12" = some (-12) := by decide +kernel

/-- `{n:0w}`: decimal digits, padded with zeros on the left. -/
def padZeros (width n : Nat) : String :=
  let digits := (Nat.repr n).toList
  String.ofList (List.replicate (width - digits.length) '0' ++ digits)

def trimEndMatches (c : Char) (s : String) : String :=
  String.ofList (s.toList.rdropWhile (· == c))

private theorem dropWhile_rdropWhile_dropWhile (p : Char → Bool) (l : List Char) :
    ((l.dropWhile p).rdropWhile p).dropWhile p = (l.dropWhile p).rdropWhile p := by
  generalize hm : l.dropWhile p = m
  have hidem : m.dropWhile p = m := by
    rw [← hm]
    exact List.dropWhile_idempotent p l
  cases m with
  | nil => rfl
  | cons c m =>
      -- the head of `m` is kept by `dropWhile`, so it also survives on the right
      have hc : p c = false := by
        by_contra hne
        have htrue : p c = true := by simpa using hne
        rw [List.dropWhile_cons_of_pos htrue] at hidem
        have hlen := congrArg List.length hidem
        have hle := (List.dropWhile_sublist (l := m) p).length_le
        rw [List.length_cons] at hlen
        omega
      obtain ⟨t, ht⟩ := List.rdropWhile_prefix p (l := c :: m)
      cases hr : (c :: m).rdropWhile p with
      | nil => rfl
      | cons d r =>
          rw [hr, List.cons_append, List.cons.injEq] at ht
          rw [List.dropWhile_cons_of_neg]
          rw [ht.1, hc]
          exact Bool.false_ne_true

@[simp] theorem trim_trim (s : String) : trim (trim s) = trim s := by
  unfold trim
  rw [String.toList_ofList, dropWhile_rdropWhile_dropWhile, List.rdropWhile_idempotent]

theorem trim_ofList {l : List Char} (h : ∀ c ∈ l, isWhitespace c = false) :
    trim (String.ofList l) = String.ofList l := by
  have hdrop : l.dropWhile isWhitespace = l := by
    cases l with
    | nil => rfl
    | cons c l =>
        rw [List.dropWhile_cons_of_neg]
        rw [h c List.mem_cons_self]
        exact Bool.false_ne_true
  have hrdrop : l.rdropWhile isWhitespace = l := by
    rw [List.rdropWhile_eq_self_iff]
    intro hl
    rw [h _ (List.getLast_mem hl)]
    exact Bool.false_ne_true
  unfold trim
  rw [String.toList_ofList, hdrop, hrdrop]

/-! ## Decimal numbers -/

theorem ofDigitChars_padZeros (width n : Nat) :
    Nat.ofDigitChars 10 (padZeros width n).toList 0 = n := by
  rw [padZeros, String.toList_ofList, Nat.ofDigitChars_append, Nat.ofDigitChars_replicate_zero,
    Nat.mul_zero, Nat.toList_repr, Nat.ofDigitChars_ten_toDigits]

theorem length_padZeros {width n : Nat} (hwidth : 0 < width) (h : n < 10 ^ width) :
    (padZeros width n).toList.length = width := by
  have hle : (Nat.toDigits 10 n).length ≤ width :=
    (Nat.length_toDigits_le_iff (by decide) hwidth).mpr h
  rw [padZeros, String.toList_ofList, List.length_append, List.length_replicate, Nat.toList_repr]
  omega

theorem rdropWhile_append_replicate (c : Char) (l : List Char) :
    ∃ k, l = l.rdropWhile (· == c) ++ List.replicate k c := by
  induction l using List.reverseRecOn with
  | nil => exact ⟨0, rfl⟩
  | append_singleton l d ih =>
      by_cases hd : d = c
      · obtain ⟨k, hk⟩ := ih
        rw [List.rdropWhile_concat_pos (· == c) l d (by simpa using hd)]
        refine ⟨k + 1, ?_⟩
        rw [List.replicate_succ', ← List.append_assoc, ← hk, hd]
      · rw [List.rdropWhile_concat_neg (· == c) l d (by simpa using hd)]
        exact ⟨0, (List.append_nil _).symm⟩

/-- Trimming loses only the length. -/
theorem trimEndMatches_inj {c : Char} {s t : String}
    (hlength : s.toList.length = t.toList.length)
    (h : trimEndMatches c s = trimEndMatches c t) : s = t := by
  obtain ⟨j, hj⟩ := rdropWhile_append_replicate c s.toList
  obtain ⟨k, hk⟩ := rdropWhile_append_replicate c t.toList
  have htrim : s.toList.rdropWhile (· == c) = t.toList.rdropWhile (· == c) :=
    String.ofList_injective h
  rw [htrim] at hj
  have hjk : j = k := by
    have hs := congrArg List.length hj
    have ht := congrArg List.length hk
    rw [List.length_append, List.length_replicate] at hs ht
    omega
  apply String.toList_injective
  rw [hj, hjk]
  exact hk.symm

theorem padZeros_inj {width m n : Nat} (h : padZeros width m = padZeros width n) : m = n := by
  rw [← ofDigitChars_padZeros width m, h, ofDigitChars_padZeros]

theorem trimEndMatches_padZeros_inj {width m n : Nat} (hwidth : 0 < width)
    (hm : m < 10 ^ width) (hn : n < 10 ^ width) (c : Char)
    (h : trimEndMatches c (padZeros width m) = trimEndMatches c (padZeros width n)) : m = n := by
  have hlength : (padZeros width m).toList.length = (padZeros width n).toList.length := by
    rw [length_padZeros hwidth hm, length_padZeros hwidth hn]
  exact padZeros_inj (trimEndMatches_inj hlength h)

theorem repr_inj {m n : Nat} (h : Nat.repr m = Nat.repr n) : m = n := by
  have hlist := congrArg String.toList h
  rw [Nat.toList_repr, Nat.toList_repr] at hlist
  rw [← Nat.ofDigitChars_ten_toDigits (n := m), hlist, Nat.ofDigitChars_ten_toDigits]

private theorem dot_notMem_repr (n : Nat) : '.' ∉ (Nat.repr n).toList := by
  rw [Nat.toList_repr]
  intro h
  exact absurd (Nat.isDigit_of_mem_toDigits (by decide) (by decide) h) (by decide)

private theorem takeWhile_point {l : List Char} (h : '.' ∉ l) (rest : List Char) :
    (l ++ '.' :: rest).takeWhile (· != '.') = l := by
  rw [List.takeWhile_append_of_pos]
  · simp
  · intro c hc
    have hne : c ≠ '.' := fun heq => h (heq ▸ hc)
    simpa using hne

theorem repr_point_inj {m n : Nat} {s t : String}
    (h : Nat.repr m ++ "." ++ s = Nat.repr n ++ "." ++ t) : m = n ∧ s = t := by
  have hlist : (Nat.repr m).toList ++ '.' :: s.toList = (Nat.repr n).toList ++ '.' :: t.toList := by
    simpa using congrArg String.toList h
  have hwhole : (Nat.repr m).toList = (Nat.repr n).toList := by
    rw [← takeWhile_point (dot_notMem_repr m) s.toList, hlist,
      takeWhile_point (dot_notMem_repr n)]
  rw [hwhole, List.append_cancel_left_eq, List.cons.injEq] at hlist
  exact ⟨repr_inj (String.toList_injective hwhole), String.toList_injective hlist.2⟩

theorem repr_ne_point (m n : Nat) (s : String) : Nat.repr m ≠ Nat.repr n ++ "." ++ s := by
  intro h
  apply dot_notMem_repr m
  rw [h]
  simp

/-! ## Composite keys -/

theorem rsplitOnce_of_toList {c : Char} {s a b : String} (hs : s.toList = a.toList ++ c :: b.toList)
    (hb : c ∉ b.toList) : rsplitOnce c s = some (a, b) := by
  have hrev : s.toList.reverse = b.toList.reverse ++ c :: a.toList.reverse := by
    rw [hs, List.reverse_append, List.reverse_cons, List.append_assoc]
    rfl
  have hkeep : ∀ d ∈ b.toList.reverse, (d != c) = true := by
    intro d hd
    have hne : d ≠ c := fun heq => hb (heq ▸ List.mem_reverse.mp hd)
    simpa using hne
  have htake : s.toList.reverse.takeWhile (· != c) = b.toList.reverse := by
    rw [hrev, List.takeWhile_append_of_pos hkeep]
    simp
  have hdrop : s.toList.reverse.dropWhile (· != c) = c :: a.toList.reverse := by
    rw [hrev, List.dropWhile_append_of_pos hkeep]
    simp
  unfold rsplitOnce
  simp only [htake, hdrop, List.reverse_reverse, String.ofList_toList]

theorem exists_rsplitOnce {c : Char} {s : String} (hc : c ∈ s.toList) :
    ∃ a b, rsplitOnce c s = some (a, b) := by
  unfold rsplitOnce
  cases hrest : s.toList.reverse.dropWhile (· != c) with
  | nil =>
      have hall := List.dropWhile_eq_nil_iff.mp hrest c (List.mem_reverse.mpr hc)
      simp at hall
  | cons d head => exact ⟨_, _, rfl⟩

theorem rsplitOnce_colon (a : String) {b : String} (hb : ':' ∉ b.toList) :
    rsplitOnce ':' (a ++ ":" ++ b) = some (a, b) :=
  rsplitOnce_of_toList (by simp) hb

theorem colon_inj {a b a' b' : String} (hb : ':' ∉ b.toList) (hb' : ':' ∉ b'.toList)
    (h : a ++ ":" ++ b = a' ++ ":" ++ b') : a = a' ∧ b = b' := by
  have hsplit := rsplitOnce_colon a hb
  rw [h, rsplitOnce_colon a' hb', Option.some.injEq, Prod.mk.injEq] at hsplit
  exact ⟨hsplit.1.symm, hsplit.2.symm⟩

/-- A composite key ends in a part without separator only when that is its last part. -/
theorem endsWith_colon_iff (a : String) {b b' : String} (hb : ':' ∉ b.toList)
    (hb' : ':' ∉ b'.toList) : endsWith (a ++ ":" ++ b) (":" ++ b') = true ↔ b = b' := by
  unfold endsWith
  rw [List.isSuffixOf_iff_suffix]
  constructor
  · rintro ⟨t, ht⟩
    have hkey : String.ofList t ++ ":" ++ b' = a ++ ":" ++ b := by
      apply String.toList_injective
      simpa using ht
    exact (colon_inj hb' hb hkey).2.symm
  · rintro rfl
    exact ⟨a.toList, by simp⟩

theorem stripPrefix_eq_some {pre s rest : String} :
    stripPrefix pre s = some rest ↔ s = pre ++ rest := by
  unfold stripPrefix
  constructor
  · intro h
    split_ifs at h with hprefix
    rw [List.isPrefixOf_iff_prefix] at hprefix
    obtain ⟨t, ht⟩ := hprefix
    cases h
    apply String.toList_injective
    rw [String.toList_append, String.toList_ofList, ← ht, List.drop_left]
  · rintro rfl
    rw [String.toList_append, if_pos (List.isPrefixOf_iff_prefix.mpr ⟨rest.toList, rfl⟩),
      List.drop_left, String.ofList_toList]

theorem isDigit_of_mem_repr {n : Nat} {c : Char} (h : c ∈ (Nat.repr n).toList) :
    c.isDigit = true := by
  rw [Nat.toList_repr] at h
  exact Nat.isDigit_of_mem_toDigits (by decide) (by decide) h

theorem colon_notMem_repr (n : Nat) : ':' ∉ (Nat.repr n).toList :=
  fun h => absurd (isDigit_of_mem_repr h) (by decide)

private theorem afterPlus_repr (n : Nat) : afterPlus (Nat.repr n).toList = (Nat.repr n).toList := by
  unfold afterPlus
  split
  · rename_i rest h
    have hplus : '+' ∈ (Nat.repr n).toList := h ▸ List.mem_cons_self
    exact absurd (isDigit_of_mem_repr hplus) (by decide)
  · rfl

theorem parseU32_repr (n : UInt32) : parseU32 (Nat.repr n.toNat) = some n := by
  have hdigits : ¬((Nat.repr n.toNat).toList = [] ∨
      ((Nat.repr n.toNat).toList.any fun c => !c.isDigit) = true) := by
    rw [not_or]
    constructor
    · rw [Nat.toList_repr]
      exact Nat.toDigits_ne_nil
    · rw [List.any_eq_true]
      rintro ⟨c, hc, hnot⟩
      rw [isDigit_of_mem_repr hc] at hnot
      cases hnot
  have hvalue : Nat.ofDigitChars 10 (Nat.repr n.toNat).toList 0 = n.toNat := by
    rw [Nat.toList_repr, Nat.ofDigitChars_ten_toDigits]
  unfold parseU32
  rw [afterPlus_repr]
  dsimp only
  rw [if_neg hdigits, hvalue, if_pos n.toNat_lt, UInt32.ofNat_toNat]

private theorem mem_afterPlus {c : Char} {l : List Char} (hc : c ∈ l) (hne : c ≠ '+') :
    c ∈ afterPlus l := by
  unfold afterPlus
  split
  · exact (List.mem_cons.mp hc).resolve_left hne
  · exact hc

theorem colon_notMem_of_parseU32 {s : String} {n : UInt32} (h : parseU32 s = some n) :
    ':' ∉ s.toList := by
  intro hcolon
  have hmem : ':' ∈ afterPlus s.toList := mem_afterPlus hcolon (by decide)
  unfold parseU32 at h
  dsimp only at h
  rw [if_pos (.inr (List.any_eq_true.mpr ⟨':', hmem, by decide⟩))] at h
  cases h

theorem parse_stripPrefix_colon (a a' : String) (n : UInt32) :
    (stripPrefix (a ++ ":") (a' ++ ":" ++ Nat.repr n.toNat)).bind parseU32 =
      if a' = a then some n else none := by
  split_ifs with h
  · have hstrip : stripPrefix (a ++ ":") (a' ++ ":" ++ Nat.repr n.toNat) =
        some (Nat.repr n.toNat) := by
      rw [stripPrefix_eq_some, h]
    rw [hstrip]
    exact parseU32_repr n
  · rw [Option.bind_eq_none_iff]
    intro rest hrest
    rw [stripPrefix_eq_some] at hrest
    cases hparse : parseU32 rest with
    | none => rfl
    | some k =>
        exact absurd (colon_inj (colon_notMem_repr _) (colon_notMem_of_parseU32 hparse) hrest).1 h

/-! ## Case -/

theorem toNat_toLower (c : Char) :
    c.toLower.toNat = if 65 ≤ c.toNat ∧ c.toNat ≤ 90 then c.toNat + 32 else c.toNat := by
  unfold Char.toLower
  have hrange : (c.val ≥ 'A'.val ∧ c.val ≤ 'Z'.val) ↔ 65 ≤ c.toNat ∧ c.toNat ≤ 90 := Iff.rfl
  by_cases h : c.val ≥ 'A'.val ∧ c.val ≤ 'Z'.val
  · have hle := (hrange.mp h).2
    rw [dif_pos h, if_pos (hrange.mp h)]
    change (c.val + 32).toNat = c.val.toNat + 32
    rw [UInt32.toNat_add]
    change c.val.toNat ≤ 90 at hle
    have hsmall : (32 : UInt32).toNat = 32 := rfl
    omega
  · rw [dif_neg h, if_neg fun hn => h (hrange.mpr hn)]

theorem toLower_toLower (c : Char) : c.toLower.toLower = c.toLower := by
  apply Char.ext
  apply UInt32.toNat_inj.mp
  change c.toLower.toLower.toNat = c.toLower.toNat
  rw [toNat_toLower c.toLower, toNat_toLower c]
  split_ifs <;> omega

theorem isWhitespace_toLower (c : Char) : isWhitespace c.toLower = isWhitespace c := by
  unfold isWhitespace
  rw [toNat_toLower]
  split_ifs with h
  · rw [Bool.eq_iff_iff]
    simp only [Bool.or_eq_true, Bool.and_eq_true, decide_eq_true_eq, beq_iff_eq]
    omega
  · rfl

@[simp] theorem toAsciiLowercase_toAsciiLowercase (s : String) :
    toAsciiLowercase (toAsciiLowercase s) = toAsciiLowercase s := by
  unfold toAsciiLowercase
  rw [String.toList_ofList, List.map_map]
  congr 1
  exact List.map_congr_left fun c _ => toLower_toLower c

theorem trim_toAsciiLowercase (s : String) :
    trim (toAsciiLowercase s) = toAsciiLowercase (trim s) := by
  have hspace : isWhitespace ∘ Char.toLower = isWhitespace := funext isWhitespace_toLower
  unfold trim toAsciiLowercase List.rdropWhile
  rw [String.toList_ofList, String.toList_ofList, List.dropWhile_map, hspace, ← List.map_reverse,
    List.dropWhile_map, hspace, List.map_reverse]

theorem eqIgnoreAsciiCase_iff {s t : String} :
    eqIgnoreAsciiCase s t = true ↔ toAsciiLowercase s = toAsciiLowercase t := by
  unfold eqIgnoreAsciiCase
  exact beq_iff_eq

theorem toNat_toUpper (c : Char) :
    c.toUpper.toNat = if 97 ≤ c.toNat ∧ c.toNat ≤ 122 then c.toNat - 32 else c.toNat := by
  unfold Char.toUpper
  have hrange : (c.val ≥ 'a'.val ∧ c.val ≤ 'z'.val) ↔ 97 ≤ c.toNat ∧ c.toNat ≤ 122 := Iff.rfl
  by_cases h : c.val ≥ 'a'.val ∧ c.val ≤ 'z'.val
  · have hbounds := hrange.mp h
    rw [dif_pos h, if_pos hbounds]
    change (c.val + ('A'.val - 'a'.val)).toNat = c.val.toNat - 32
    rw [UInt32.toNat_add]
    change 97 ≤ c.val.toNat ∧ c.val.toNat ≤ 122 at hbounds
    have hsmall : ('A'.val - 'a'.val : UInt32).toNat = 2 ^ 32 - 32 := by decide
    omega
  · rw [dif_neg h, if_neg fun hn => h (hrange.mpr hn)]

theorem isWhitespace_toUpper (c : Char) : isWhitespace c.toUpper = isWhitespace c := by
  unfold isWhitespace
  rw [toNat_toUpper]
  split_ifs with h
  · rw [Bool.eq_iff_iff]
    simp only [Bool.or_eq_true, Bool.and_eq_true, decide_eq_true_eq, beq_iff_eq]
    omega
  · rfl

theorem trim_toAsciiUppercase (s : String) :
    trim (toAsciiUppercase s) = toAsciiUppercase (trim s) := by
  have hspace : isWhitespace ∘ Char.toUpper = isWhitespace := funext isWhitespace_toUpper
  unfold trim toAsciiUppercase List.rdropWhile
  rw [String.toList_ofList, String.toList_ofList, List.dropWhile_map, hspace, ← List.map_reverse,
    List.dropWhile_map, hspace, List.map_reverse]

theorem isSome_stripPrefix {pre s : String} :
    (stripPrefix pre s).isSome ↔ pre.toList <+: s.toList := by
  unfold stripPrefix
  split_ifs with h
  · rw [List.isPrefixOf_iff_prefix] at h
    exact iff_of_true rfl h
  · rw [List.isPrefixOf_iff_prefix] at h
    exact iff_of_false Bool.false_ne_true h

end Lib.Text
