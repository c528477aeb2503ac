import ClobIndexer.Lib.Text
/-!
# Parameters of a listing

The parameters that `build_market_query` and `build_vault_query` read alike: texts separated
by commas, texts that may be blank, and the limit of a page.
-/

namespace ClobIndexer

open Lib

/-! ## Texts separated by commas -/

/-- `parse_csv`, which markets and vaults have in the same words. -/
def parseCsv : Option String → List String
  | none => []
  | some items =>
      ((items.toList.splitOn ',').map fun item => Text.trim (String.ofList item)).filter
        fun item => item ≠ ""

def csv (values : List String) : String :=
  String.ofList ([','].intercalate (values.map String.toList))

structure CsvValue (value : String) : Prop where
  trimmed : Text.trim value = value
  nonempty : value ≠ ""
  single : ',' ∉ value.toList

theorem notMem_of_mem_splitOn {c : Char} {l piece : List Char} (h : piece ∈ l.splitOn c) :
    c ∉ piece := by
  induction l generalizing piece with
  | nil =>
      rw [List.splitOn_nil, List.mem_singleton] at h
      rw [h]
      exact List.not_mem_nil
  | cons a l ih =>
      rw [List.splitOn_cons_eq_if_modifyHead] at h
      split_ifs at h with ha
      · rcases List.mem_cons.mp h with rfl | h
        · exact List.not_mem_nil
        · exact ih h
      · cases hl : l.splitOn c with
        | nil => exact absurd hl (List.splitOn_ne_nil c l)
        | cons head rest =>
            rw [hl, List.modifyHead_cons] at h
            rcases List.mem_cons.mp h with rfl | h
            · rw [List.mem_cons, not_or]
              refine ⟨?_, ih (hl ▸ List.mem_cons_self)⟩
              rintro rfl
              exact ha (beq_self_eq_true c)
            · exact ih (hl ▸ List.mem_cons_of_mem head h)

theorem toList_trim_subset {s : String} {c : Char} (h : c ∈ (Text.trim s).toList) :
    c ∈ s.toList := by
  unfold Text.trim at h
  rw [String.toList_ofList] at h
  exact (List.dropWhile_sublist _).subset ((List.rdropWhile_prefix _ _).subset h)

theorem csvValue_of_mem_parseCsv {value : Option String} {item : String}
    (h : item ∈ parseCsv value) : CsvValue item := by
  cases value with
  | none => exact absurd h List.not_mem_nil
  | some items =>
      unfold parseCsv at h
      rw [List.mem_filter, List.mem_map] at h
      obtain ⟨⟨piece, hpiece, rfl⟩, hne⟩ := h
      constructor
      · exact Text.trim_trim _
      · exact of_decide_eq_true hne
      · intro hcomma
        apply notMem_of_mem_splitOn hpiece
        have hmem := toList_trim_subset hcomma
        rwa [String.toList_ofList] at hmem

theorem parseCsv_csv {values : List String} (h : ∀ value ∈ values, CsvValue value) :
    parseCsv (some (csv values)) = values := by
  cases hvalues : values with
  | nil => decide +kernel
  | cons value rest =>
      rw [← hvalues]
      have hsplit : (csv values).toList.splitOn ',' = values.map String.toList := by
        unfold csv
        rw [String.toList_ofList]
        apply List.splitOn_intercalate
        · intro piece hpiece
          obtain ⟨value, hvalue, rfl⟩ := List.mem_map.mp hpiece
          exact (h value hvalue).single
        · rw [hvalues]
          exact List.cons_ne_nil _ _
      have htrim : (values.map String.toList).map
          (fun item => Text.trim (String.ofList item)) = values := by
        rw [List.map_map]
        calc
          _ = values.map id := List.map_congr_left fun value hvalue => by
            change Text.trim (String.ofList value.toList) = value
            rw [String.ofList_toList, (h value hvalue).trimmed]
          _ = values := List.map_id values
      unfold parseCsv
      dsimp only
      rw [hsplit, htrim, List.filter_eq_self]
      exact fun value hvalue => decide_eq_true (h value hvalue).nonempty

/-- The lists that can be read are those of values that stand among commas as they are. -/
theorem exists_parseCsv_iff {values : List String} :
    (∃ value, parseCsv value = values) ↔ ∀ value ∈ values, CsvValue value := by
  constructor
  · rintro ⟨value, rfl⟩ item hitem
    exact csvValue_of_mem_parseCsv hitem
  · intro h
    exact ⟨_, parseCsv_csv h⟩

/-! ## Texts that may be blank -/

/-- Trimmed, and left out when nothing remains. -/
def givenText (value : Option String) : Option String :=
  (value.map Text.trim).filter fun value => value ≠ ""

theorem givenText_of_trimmed {given : Option String}
    (h : ∀ s ∈ given, Text.trim s = s ∧ s ≠ "") : givenText given = given := by
  cases given with
  | none => rfl
  | some s =>
      obtain ⟨htrim, hne⟩ := h s rfl
      unfold givenText
      rw [Option.map_some, htrim, Option.filter_some, if_pos (decide_eq_true hne)]

theorem exists_givenText_iff {given : Option String} :
    (∃ value, givenText value = given) ↔ ∀ s ∈ given, Text.trim s = s ∧ s ≠ "" := by
  constructor
  · rintro ⟨value, rfl⟩ s hs
    obtain ⟨hs, hne⟩ := Option.mem_filter_iff.mp hs
    obtain ⟨v, -, rfl⟩ := Option.map_eq_some_iff.mp hs
    exact ⟨Text.trim_trim v, of_decide_eq_true hne⟩
  · intro h
    exact ⟨given, givenText_of_trimmed h⟩

/-! ## Limits -/

def clampLimit (low high limit : UInt32) : UInt32 :=
  if limit < low then low else if high < limit then high else limit

theorem clampLimit_bounds {low high : UInt32} (h : low.toNat ≤ high.toNat) (limit : UInt32) :
    low.toNat ≤ (clampLimit low high limit).toNat ∧
      (clampLimit low high limit).toNat ≤ high.toNat := by
  unfold clampLimit
  split_ifs with hlow hhigh
  · exact ⟨le_refl _, h⟩
  · exact ⟨h, le_refl _⟩
  · rw [UInt32.lt_iff_toNat_lt] at hlow hhigh
    omega

theorem clampLimit_of_bounds {low high limit : UInt32} (hlow : low.toNat ≤ limit.toNat)
    (hhigh : limit.toNat ≤ high.toNat) : clampLimit low high limit = limit := by
  unfold clampLimit
  rw [if_neg, if_neg]
  · rw [UInt32.lt_iff_toNat_lt]
    omega
  · rw [UInt32.lt_iff_toNat_lt]
    omega

end ClobIndexer
