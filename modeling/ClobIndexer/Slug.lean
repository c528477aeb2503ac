import ClobIndexer.Lib.Text
import Mathlib.Data.List.Nodup
import Mathlib.Data.List.Perm.Subperm
/-!
# Event slugs

`src/slug.rs`: the slug of a question and the first free slug among the ones
already taken.
-/

namespace ClobIndexer

open Lib

/-- The loop of `slug_from_question`: keep ASCII alphanumerics, collapse every
other run into one hyphen. -/
def slugChars : List Char → Bool → List Char
  | [], _ => []
  | c :: rest, lastHyphen =>
      if c.isAlphanum then c :: slugChars rest false
      else if lastHyphen then slugChars rest true
      else '-' :: slugChars rest true

def slugFromQuestion (question : String) : String :=
  let chars := slugChars (Text.toLowercase (Text.trim question)).toList false
  let slug := (chars.dropWhile (· == '-')).rdropWhile (· == '-')
  if slug.isEmpty then "event" else String.ofList slug

/-- The loop of `allocate_unique_slug`, one step for every candidate tried. -/
def nextFreeSlug (existing : List String) (base : String) : Nat → Nat → String → String
  | 0, _, slug => slug
  | steps + 1, suffix, slug =>
      if slug ∈ existing then
        nextFreeSlug existing base steps (suffix + 1) (base ++ "-" ++ Nat.repr suffix)
      else slug

/-- `allocate_unique_slug`.  The candidates are pairwise distinct, so the loop
ends within one step more than there are slugs. -/
def allocateUniqueSlug (existing : List String) (question : String) : String :=
  let base := slugFromQuestion question
  nextFreeSlug existing base (existing.length + 1) 2 base

def slugCandidate (base : String) : Nat → String
  | 0 => base
  | k + 1 => base ++ "-" ++ Nat.repr (k + 2)

theorem slugCandidate_injective (base : String) : Function.Injective (slugCandidate base) := by
  have happend : ∀ k, slugCandidate base (k + 1) = base ++ ("-" ++ Nat.repr (k + 2)) :=
    fun k => String.append_assoc
  have hbase : ∀ k, base ≠ slugCandidate base (k + 1) := by
    intro k heq
    have hlength := congrArg String.length heq
    rw [happend, String.length_append, String.length_append] at hlength
    have hhyphen : "-".length = 1 := by decide
    omega
  intro m n heq
  match m, n with
  | 0, 0 => rfl
  | 0, n + 1 => exact absurd heq (hbase n)
  | m + 1, 0 => exact absurd heq.symm (hbase m)
  | m + 1, n + 1 =>
      change base ++ "-" ++ Nat.repr (m + 2) = base ++ "-" ++ Nat.repr (n + 2) at heq
      have hrepr := Text.repr_inj ((String.append_right_inj _).mp heq)
      omega

theorem candidates_taken {existing : List String} {base : String} (steps k : Nat)
    (h : nextFreeSlug existing base steps (k + 2) (slugCandidate base k) ∈ existing) :
    ∀ i ≤ steps, slugCandidate base (k + i) ∈ existing := by
  induction steps generalizing k with
  | zero =>
      intro i hi
      rw [Nat.le_zero.mp hi]
      exact h
  | succ steps ih =>
      unfold nextFreeSlug at h
      split_ifs at h with htaken
      · intro i hi
        cases i with
        | zero => exact htaken
        | succ i =>
            have hnext := ih (k + 1) h i (by omega)
            rw [show k + (i + 1) = k + 1 + i by omega]
            exact hnext
      · exact absurd h htaken

/-- There are more candidates than slugs, so one of them is free. -/
theorem nextFreeSlug_notMem (existing : List String) (base : String) :
    nextFreeSlug existing base existing.length 2 base ∉ existing := by
  intro htaken
  let candidates := (List.range (existing.length + 1)).map (slugCandidate base)
  have hnodup : candidates.Nodup := List.Nodup.map (slugCandidate_injective base) List.nodup_range
  have hsub : candidates ⊆ existing := by
    intro slug hslug
    obtain ⟨i, hi, rfl⟩ := List.mem_map.mp hslug
    have hall := candidates_taken existing.length 0 htaken i
      (Nat.lt_succ_iff.mp (List.mem_range.mp hi))
    rwa [Nat.zero_add] at hall
  have hlength := (List.subperm_of_subset hnodup hsub).length_le
  simp only [candidates, List.length_map, List.length_range] at hlength
  omega

theorem nextFreeSlug_succ {existing : List String} {base slug : String} {steps suffix : Nat}
    (h : nextFreeSlug existing base steps suffix slug ∉ existing) :
    nextFreeSlug existing base (steps + 1) suffix slug =
      nextFreeSlug existing base steps suffix slug := by
  induction steps generalizing suffix slug with
  | zero => exact if_neg h
  | succ steps ih =>
      unfold nextFreeSlug at h ⊢
      split_ifs at h ⊢ with htaken
      · exact ih h
      · rfl

theorem allocateUniqueSlug_eq (existing : List String) (question : String) :
    allocateUniqueSlug existing question =
      nextFreeSlug existing (slugFromQuestion question) existing.length 2
        (slugFromQuestion question) :=
  nextFreeSlug_succ (nextFreeSlug_notMem existing _)

theorem allocateUniqueSlug_notMem (existing : List String) (question : String) :
    allocateUniqueSlug existing question ∉ existing := by
  rw [allocateUniqueSlug_eq]
  exact nextFreeSlug_notMem existing _

theorem slugFromQuestion_ne_empty (question : String) : slugFromQuestion question ≠ "" := by
  unfold slugFromQuestion
  dsimp only
  split_ifs with h
  · decide
  · intro heq
    apply h
    rw [List.isEmpty_iff, ← String.toList_ofList (l := List.rdropWhile _ _), heq]
    rfl

theorem nextFreeSlug_ne_empty (existing : List String) {base slug : String} (hslug : slug ≠ "")
    (steps suffix : Nat) : nextFreeSlug existing base steps suffix slug ≠ "" := by
  induction steps generalizing suffix slug with
  | zero => exact hslug
  | succ steps ih =>
      unfold nextFreeSlug
      split_ifs
      · apply ih
        intro heq
        have hlength := congrArg String.length heq
        rw [String.length_append, String.length_append] at hlength
        have hhyphen : "-".length = 1 := by decide
        have hempty : "".length = 0 := by decide
        omega
      · exact hslug

theorem allocateUniqueSlug_ne_empty (existing : List String) (question : String) :
    allocateUniqueSlug existing question ≠ "" :=
  nextFreeSlug_ne_empty existing (slugFromQuestion_ne_empty question) _ _

/-! ## The loop on its machine integer -/

/-- The loop of `allocate_unique_slug` as it runs: the suffix is an `i32` that wraps, and only
a free slug ends the loop.  `none` if the loop is still running after this many rounds. -/
def slugLoop (existing : List String) (base : String) : Nat → Int32 → String → Option String
  | 0, _, _ => none
  | rounds + 1, suffix, slug =>
      if existing.any (· == slug) then
        slugLoop existing base rounds (suffix + 1) (base ++ "-" ++ suffix.toInt.repr)
      else some slug

/-- No suffix wraps before the free slug is found. -/
theorem slugLoop_eq_nextFreeSlug {existing : List String} {base slug : String}
    {steps suffix : Nat} (h : nextFreeSlug existing base steps suffix slug ∉ existing)
    (hsuffix : suffix + steps ≤ 2 ^ 31) {rounds : Nat} (hrounds : steps < rounds) :
    slugLoop existing base rounds (Int32.ofNat suffix) slug =
      some (nextFreeSlug existing base steps suffix slug) := by
  have hany : ∀ slug, existing.any (· == slug) = true ↔ slug ∈ existing := by
    intro slug
    simp
  induction steps generalizing rounds suffix slug with
  | zero =>
      obtain ⟨rounds, rfl⟩ := Nat.exists_eq_succ_of_ne_zero (Nat.ne_of_gt hrounds)
      exact if_neg (mt (hany slug).mp h)
  | succ steps ih =>
      obtain ⟨rounds, rfl⟩ :=
        Nat.exists_eq_succ_of_ne_zero (Nat.ne_of_gt (Nat.zero_lt_of_lt hrounds))
      have hnumber : (Int32.ofNat suffix).toInt = suffix :=
        Int32.toInt_ofNat_of_lt (by omega)
      have hnext : Int32.ofNat suffix + 1 = Int32.ofNat (suffix + 1) :=
        (Int32.ofNat_add suffix 1).symm
      unfold slugLoop
      unfold nextFreeSlug at h ⊢
      rw [hnumber, hnext]
      simp only [hany]
      split_ifs at h ⊢ with htaken
      · exact ih h (by omega) (by omega)
      · rfl

/-- The loop ends within as many rounds as there are slugs, and one more. -/
theorem slugLoop_eq {existing : List String} (hfew : existing.length + 1 < 2 ^ 31)
    (question : String) {rounds : Nat} (hrounds : existing.length < rounds) :
    slugLoop existing (slugFromQuestion question) rounds 2 (slugFromQuestion question) =
      some (allocateUniqueSlug existing question) := by
  rw [allocateUniqueSlug_eq]
  exact slugLoop_eq_nextFreeSlug (nextFreeSlug_notMem existing _) (by omega) hrounds

example : allocateUniqueSlug ["will-it-rain", "will-it-rain-2"] " Will it rain? " =
    "will-it-rain-3" := by decide

end ClobIndexer
