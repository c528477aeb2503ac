import ClobIndexer.Lib.Segments
import ClobIndexer.Slug
import Mathlib
/-!
# The form of a slug

`slug_from_question` makes words of lower-case letters and digits joined by single
hyphens, one word for each run of such characters in the question.  What lower-casing
does to characters beyond ASCII does not matter, as far as none of them becomes a letter
or a digit.
-/

namespace ClobIndexer

open Lib Computability

/-- `[a-z0-9]`. -/
def isSlugChar (c : Char) : Bool := c.isLower || c.isDigit

/-- `[a-z0-9]+`. -/
def slugWord : Language Char := {word | word ≠ [] ∧ ∀ c ∈ word, isSlugChar c = true}

/-- `[a-z0-9]+(-[a-z0-9]+)*`. -/
def canonicalSlug : Language Char := slugWord * ({['-']} * slugWord)∗

/-- The maximal runs of ASCII letters and digits in a question, trimmed and lower-cased. -/
def slugRuns (question : String) : List (List Char) :=
  Segments.runs Char.isAlphanum (Text.toLowercase (Text.trim question)).toList

/-! ## Characters -/

theorem slugChars_eq_collapse (l : List Char) (lastHyphen : Bool) :
    slugChars l lastHyphen = Segments.collapse Char.isAlphanum '-' l lastHyphen := by
  induction l generalizing lastHyphen with
  | nil => rfl
  | cons c l ih => simp only [slugChars, Segments.collapse, ih]

theorem isSlugChar_of_lower {c : Char} (hupper : c.isUpper = false)
    (halnum : c.isAlphanum = true) : isSlugChar c = true := by
  simpa [isSlugChar, Char.isAlphanum, Char.isAlpha, hupper] using halnum

theorem isAlphanum_of_isSlugChar {c : Char} (h : isSlugChar c = true) : c.isAlphanum = true := by
  simp only [isSlugChar, Bool.or_eq_true] at h
  simp only [Char.isAlphanum, Char.isAlpha, Bool.or_eq_true]
  exact h.imp_left Or.inr

theorem toNat_of_isSlugChar {c : Char} (h : isSlugChar c = true) :
    48 ≤ c.toNat ∧ c.toNat ≤ 57 ∨ 97 ≤ c.toNat ∧ c.toNat ≤ 122 := by
  simp only [isSlugChar, Char.isLower, Char.isDigit, Bool.or_eq_true, Bool.and_eq_true,
    decide_eq_true_eq, UInt32.le_iff_toNat_le, ge_iff_le] at h
  exact h.symm

theorem isUpper_lowerChar {c d : Char} (h : d ∈ Text.lowerChar c) : d.isUpper = false := by
  unfold Text.lowerChar at h
  split_ifs at h
  · rw [List.mem_singleton.mp h]
    decide
  · simp only [List.mem_cons, List.not_mem_nil, or_false] at h
    rcases h with rfl | rfl <;> decide
  · rw [List.mem_singleton.mp h]
    exact Char.isUpper_toLower_eq_false c

theorem isUpper_toLowercase {s : String} {c : Char} (h : c ∈ (Text.toLowercase s).toList) :
    c.isUpper = false := by
  rw [Text.toLowercase, String.toList_ofList, List.mem_flatMap] at h
  obtain ⟨d, -, hd⟩ := h
  exact isUpper_lowerChar hd

theorem plain_of_slug {c : Char} (h : isSlugChar c = true ∨ c = '-') :
    Text.lowerChar c = [c] ∧ Text.isWhitespace c = false := by
  rcases h with h | rfl
  · have hrange := toNat_of_isSlugChar h
    have hupper : ¬c.isUpper = true := by
      simp only [Char.isUpper, decide_eq_true_eq, UInt32.le_iff_toNat_le, ge_iff_le]
      change ¬(65 ≤ c.toNat ∧ c.toNat ≤ 90)
      omega
    constructor
    · rw [Text.lowerChar, if_neg (by omega), if_neg (by omega),
        Char.toLower_eq_of_not_isUpper hupper]
    · simp only [Text.isWhitespace, Bool.or_eq_false_iff, Bool.and_eq_false_iff,
        decide_eq_false_iff_not, beq_eq_false_iff_ne]
      omega
  · decide

theorem toLowercase_of_slug {s : String}
    (h : ∀ c ∈ s.toList, isSlugChar c = true ∨ c = '-') : Text.toLowercase (Text.trim s) = s := by
  have htrim : Text.trim (String.ofList s.toList) = String.ofList s.toList :=
    Text.trim_ofList fun c hc => (plain_of_slug (h c hc)).2
  rw [String.ofList_toList] at htrim
  have hlower : s.toList.flatMap Text.lowerChar = s.toList.flatMap fun c => [c] :=
    List.flatMap_congr fun c hc => (plain_of_slug (h c hc)).1
  rw [htrim, Text.toLowercase, hlower, List.flatMap_singleton', String.ofList_toList]

/-! ## Words -/

theorem slugWord_of_mem_slugRuns {question : String} {run : List Char}
    (h : run ∈ slugRuns question) : run ∈ slugWord := by
  refine ⟨Segments.ne_nil_of_mem_runs h, fun c hc => ?_⟩
  apply isSlugChar_of_lower
  · exact isUpper_toLowercase (Segments.mem_of_mem_runs h hc)
  · exact Segments.keep_of_mem_runs h hc

theorem hyphen_notMem {word : List Char} (h : word ∈ slugWord) : '-' ∉ word := by
  intro hmem
  have hchar := h.2 '-' hmem
  revert hchar
  decide

theorem intercalate_mem_canonicalSlug {words : List (List Char)} (hne : words ≠ [])
    (hwords : ∀ word ∈ words, word ∈ slugWord) : ['-'].intercalate words ∈ canonicalSlug := by
  obtain ⟨first, rest, rfl⟩ := List.exists_cons_of_ne_nil hne
  have hjoin : ['-'].intercalate (first :: rest) =
      first ++ (rest.map fun word => ['-'] ++ word).flatten := by
    clear hne hwords
    induction rest generalizing first with
    | nil => simp
    | cons next rest ih =>
        rw [List.intercalate_cons_cons, ih next]
        simp
  rw [hjoin, canonicalSlug]
  refine Language.append_mem_mul (hwords first (by simp)) (Language.join_mem_kstar ?_)
  intro piece hpiece
  obtain ⟨word, hword, rfl⟩ := List.mem_map.mp hpiece
  exact Language.append_mem_mul rfl (hwords word (by simp [hword]))

/-- A slug is the runs of the question, joined by hyphens. -/
theorem slugFromQuestion_eq (question : String) :
    slugFromQuestion question =
      if slugRuns question = [] then "event"
      else String.ofList (['-'].intercalate (slugRuns question)) := by
  have hhyphen : Char.isAlphanum '-' = false := by decide
  have htrim : Segments.trim '-'
      (slugChars (Text.toLowercase (Text.trim question)).toList false) =
        ['-'].intercalate (slugRuns question) := by
    rw [slugChars_eq_collapse, Segments.trim_collapse hhyphen]
    rfl
  have hdef : slugFromQuestion question =
      if (Segments.trim '-'
          (slugChars (Text.toLowercase (Text.trim question)).toList false)).isEmpty then "event"
      else String.ofList (Segments.trim '-'
        (slugChars (Text.toLowercase (Text.trim question)).toList false)) := rfl
  rw [hdef, htrim]
  by_cases hempty : slugRuns question = []
  · simp [hempty]
  · obtain ⟨first, rest, hcons⟩ := List.exists_cons_of_ne_nil hempty
    have hfirst : first ≠ [] := by
      apply Segments.ne_nil_of_mem_runs (l := (Text.toLowercase (Text.trim question)).toList)
      change first ∈ slugRuns question
      rw [hcons]
      exact List.mem_cons_self
    rw [if_neg hempty, if_neg]
    rw [hcons, List.isEmpty_iff]
    cases rest <;> simp [hfirst]

/-- What lower-casing makes of the characters beyond ASCII does not change a slug, as long
as they stay beyond ASCII. -/
theorem slugChars_congr {l m : List Char}
    (h : List.Forall₂ (fun c d => c = d ∨ 128 ≤ c.toNat ∧ 128 ≤ d.toNat) l m)
    (lastHyphen : Bool) : slugChars l lastHyphen = slugChars m lastHyphen := by
  have hascii : ∀ c : Char, 128 ≤ c.toNat → c.isAlphanum = false := by
    intro c hc
    rw [Bool.eq_false_iff]
    intro halnum
    simp only [Char.isAlphanum, Char.isAlpha, Char.isUpper, Char.isLower, Char.isDigit,
      Bool.or_eq_true, Bool.and_eq_true, decide_eq_true_eq, UInt32.le_iff_toNat_le,
      ge_iff_le] at halnum
    change ((65 ≤ c.toNat ∧ c.toNat ≤ 90) ∨ 97 ≤ c.toNat ∧ c.toNat ≤ 122) ∨
      48 ≤ c.toNat ∧ c.toNat ≤ 57 at halnum
    omega
  rw [slugChars_eq_collapse, slugChars_eq_collapse]
  apply Segments.collapse_congr
  exact h.imp fun c d hcd => hcd.imp_right fun hboth => ⟨hascii c hboth.1, hascii d hboth.2⟩

/-- `slug_from_question` yields a canonical slug, whose words are the runs of letters and
digits of the question, and leaves slugs as they are. -/
theorem slugFromQuestion_canonical (question : String) :
    (slugFromQuestion question).toList ∈ canonicalSlug ∧
      (if slugRuns question = [] then slugFromQuestion question = "event"
        else (slugFromQuestion question).toList.splitOn '-' = slugRuns question) ∧
      slugFromQuestion (slugFromQuestion question) = slugFromQuestion question := by
  by_cases hempty : slugRuns question = []
  · have hevent : slugFromQuestion question = "event" := by
      rw [slugFromQuestion_eq, if_pos hempty]
    have hword : "event".toList ∈ slugWord := by
      have hchars : ∀ c ∈ "event".toList, isSlugChar c = true := by
        simp [isSlugChar]
      exact ⟨by simp, hchars⟩
    rw [if_pos hempty]
    refine ⟨?_, hevent, ?_⟩
    · rw [hevent]
      have hone : ['-'].intercalate ["event".toList] ∈ canonicalSlug :=
        intercalate_mem_canonicalSlug (by simp) (by simpa)
      rwa [List.intercalate_singleton] at hone
    · rw [hevent]
      decide +kernel
  · have hwords : ∀ word ∈ slugRuns question, word ∈ slugWord :=
      fun word hword => slugWord_of_mem_slugRuns hword
    have hslug : slugFromQuestion question =
        String.ofList (['-'].intercalate (slugRuns question)) := by
      rw [slugFromQuestion_eq, if_neg hempty]
    -- the runs of a slug are its words
    have hagain : slugRuns (String.ofList (['-'].intercalate (slugRuns question))) =
        slugRuns question := by
      have hplain : ∀ c ∈ (String.ofList (['-'].intercalate (slugRuns question))).toList,
          isSlugChar c = true ∨ c = '-' := by
        intro c hc
        rw [String.toList_ofList] at hc
        rcases Segments.mem_intercalate hc with hc | ⟨word, hword, hc⟩
        · exact .inr hc
        · exact .inl ((hwords word hword).2 c hc)
      rw [slugRuns, toLowercase_of_slug hplain, String.toList_ofList]
      apply Segments.runs_intercalate (by decide)
      · exact fun word hword => (hwords word hword).1
      · exact fun word hword c hc => isAlphanum_of_isSlugChar ((hwords word hword).2 c hc)
    rw [if_neg hempty]
    refine ⟨?_, ?_, ?_⟩
    · rw [hslug, String.toList_ofList]
      exact intercalate_mem_canonicalSlug hempty hwords
    · rw [hslug, String.toList_ofList]
      exact List.splitOn_intercalate '-'
        (fun word hword => hyphen_notMem (hwords word hword)) hempty
    · rw [hslug, slugFromQuestion_eq, hagain, if_neg hempty]

example : slugFromQuestion " — Will İstanbul's 3rd BRIDGE open?! " =
    "will-i-stanbul-s-3rd-bridge-open" := by decide +kernel

end ClobIndexer
