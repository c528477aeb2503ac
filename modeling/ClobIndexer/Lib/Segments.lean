import Mathlib.Data.List.DropRight
import Mathlib.Data.List.Forall2
/-!
# Segments between separators

The maximal runs of those elements of a list that are kept, and the pass that keeps
them and puts one separator where anything else stands.  Without the separators at its
ends, what the pass leaves is the runs joined by single separators.
-/

namespace Lib.Segments

variable {A : Type} [DecidableEq A] (keep : A → Bool) (sep : A)

def runs (l : List A) : List (List A) :=
  (l.splitOnP fun a => !keep a).filter fun piece => !piece.isEmpty

/-- Keep elements, and put a separator where a run of others starts.  The flag says that
the last element was not kept. -/
def collapse : List A → Bool → List A
  | [], _ => []
  | a :: rest, skipped =>
      if keep a then a :: collapse rest false
      else if skipped then collapse rest true
      else sep :: collapse rest true

def trim (l : List A) : List A := (l.dropWhile (· == sep)).rdropWhile (· == sep)

/-- The pass over a list that has been split at the elements that are not kept. -/
def glue : List (List A) → Bool → List A
  | [], _ => []
  | [piece], _ => piece
  | piece :: next :: pieces, skipped =>
      if piece.isEmpty && skipped then glue (next :: pieces) true
      else piece ++ sep :: glue (next :: pieces) true

variable {keep sep}

/-! ## Runs -/

omit [DecidableEq A] in
theorem keep_of_mem_splitOnP {l piece : List A} {a : A}
    (hpiece : piece ∈ l.splitOnP fun a => !keep a) (ha : a ∈ piece) :
    keep a = true ∧ a ∈ l := by
  induction l generalizing piece with
  | nil =>
      simp only [List.splitOnP_nil, List.mem_singleton] at hpiece
      simp [hpiece] at ha
  | cons b l ih =>
      rw [List.splitOnP_cons_eq_if_modifyHead] at hpiece
      cases hb : keep b with
      | false =>
          simp only [hb, Bool.not_false, if_true, List.mem_cons] at hpiece
          rcases hpiece with rfl | hpiece
          · simp at ha
          · have hrest := ih hpiece ha
            exact ⟨hrest.1, List.mem_cons_of_mem b hrest.2⟩
      | true =>
          obtain ⟨first, pieces, hsplit⟩ :=
            List.exists_cons_of_ne_nil (List.splitOnP_ne_nil (fun a => !keep a) l)
          simp only [hb, hsplit, Bool.not_true, Bool.false_eq_true, if_false,
            List.modifyHead_cons, List.mem_cons] at hpiece
          rw [hsplit] at ih
          rcases hpiece with rfl | hpiece
          · rcases List.mem_cons.mp ha with rfl | ha
            · exact ⟨hb, by simp⟩
            · have hrest := ih (by simp) ha
              exact ⟨hrest.1, List.mem_cons_of_mem b hrest.2⟩
          · have hrest := ih (List.mem_cons_of_mem first hpiece) ha
            exact ⟨hrest.1, List.mem_cons_of_mem b hrest.2⟩

omit [DecidableEq A] in
theorem ne_nil_of_mem_runs {l run : List A} (h : run ∈ runs keep l) : run ≠ [] := by
  have hrun := (List.mem_filter.mp h).2
  intro heq
  simp [heq] at hrun

omit [DecidableEq A] in
theorem keep_of_mem_runs {l run : List A} {a : A} (h : run ∈ runs keep l) (ha : a ∈ run) :
    keep a = true :=
  (keep_of_mem_splitOnP (List.mem_filter.mp h).1 ha).1

omit [DecidableEq A] in
theorem mem_of_mem_runs {l run : List A} {a : A} (h : run ∈ runs keep l) (ha : a ∈ run) :
    a ∈ l :=
  (keep_of_mem_splitOnP (List.mem_filter.mp h).1 ha).2

omit [DecidableEq A] in
theorem runs_intercalate {segments : List (List A)} (hsep : keep sep = false)
    (hne : ∀ segment ∈ segments, segment ≠ [])
    (hkeep : ∀ segment ∈ segments, ∀ a ∈ segment, keep a = true) :
    runs keep ([sep].intercalate segments) = segments := by
  have hfilter : segments.filter (fun piece => !piece.isEmpty) = segments := by
    rw [List.filter_eq_self]
    intro segment hsegment
    simpa using hne segment hsegment
  have hsplit : segments ≠ [] →
      ([sep].intercalate segments).splitOnP (fun a => !keep a) = segments := by
    clear hfilter
    induction segments with
    | nil => simp
    | cons segment rest ih =>
        intro _
        have hfirst : ∀ a ∈ segment, (!keep a) = false := by
          intro a ha
          simp [hkeep segment (by simp) a ha]
        cases rest with
        | nil => simpa using List.splitOnP_eq_singleton hfirst
        | cons next rest =>
            rw [List.intercalate_cons_cons, List.append_assoc, List.singleton_append,
              List.splitOnP_append_cons_of_forall_mem hfirst sep (by simp [hsep])]
            rw [ih (fun s hs => hne s (by simp [hs])) (fun s hs => hkeep s (by simp [hs]))
              (by simp)]
  unfold runs
  by_cases hempty : segments = []
  · simp [hempty]
  · rw [hsplit hempty, hfilter]

omit [DecidableEq A] in
theorem mem_intercalate {segments : List (List A)} {a : A}
    (h : a ∈ [sep].intercalate segments) : a = sep ∨ ∃ segment ∈ segments, a ∈ segment := by
  induction segments with
  | nil => simp at h
  | cons segment rest ih =>
      by_cases hrest : rest = []
      · right
        exact ⟨segment, by simp, by simpa [hrest] using h⟩
      · rw [List.intercalate_cons_of_ne_nil hrest, List.mem_append, List.mem_append,
          List.mem_singleton] at h
        rcases h with (ha | ha) | ha
        · exact .inr ⟨segment, by simp, ha⟩
        · exact .inl ha
        · exact (ih ha).imp_right fun ⟨s, hs, hmem⟩ => ⟨s, List.mem_cons_of_mem segment hs, hmem⟩

/-! ## The pass -/

omit [DecidableEq A] in
theorem collapse_eq_glue (l : List A) (skipped : Bool) :
    collapse keep sep l skipped = glue sep (l.splitOnP fun a => !keep a) skipped := by
  induction l generalizing skipped with
  | nil => rfl
  | cons a l ih =>
      obtain ⟨first, pieces, hsplit⟩ :=
        List.exists_cons_of_ne_nil (List.splitOnP_ne_nil (fun a => !keep a) l)
      rw [collapse, List.splitOnP_cons_eq_if_modifyHead]
      simp only [ih, hsplit]
      cases hkeep : keep a with
      | false => cases skipped <;> simp [glue]
      | true => cases pieces <;> simp [glue]

omit [DecidableEq A] in
theorem exists_glue_eq (pieces : List (List A)) :
    ∃ n, glue sep pieces true =
      [sep].intercalate (pieces.filter fun piece => !piece.isEmpty) ++ List.replicate n sep := by
  induction pieces with
  | nil => exact ⟨0, rfl⟩
  | cons piece pieces ih =>
      cases pieces with
      | nil =>
          refine ⟨0, ?_⟩
          cases piece <;> simp [glue]
      | cons next pieces =>
          obtain ⟨n, hrest⟩ := ih
          cases piece with
          | nil => exact ⟨n, by simpa [glue] using hrest⟩
          | cons a piece =>
              have hfilter : ((a :: piece) :: next :: pieces).filter (fun piece => !piece.isEmpty) =
                  (a :: piece) :: (next :: pieces).filter fun piece => !piece.isEmpty :=
                List.filter_cons_of_pos (by simp)
              rw [glue, hrest, hfilter]
              by_cases hempty : ((next :: pieces).filter fun piece => !piece.isEmpty) = []
              · refine ⟨n + 1, ?_⟩
                rw [hempty]
                simp [List.replicate_succ]
              · refine ⟨n, ?_⟩
                rw [List.intercalate_cons_of_ne_nil hempty]
                simp

omit [DecidableEq A] in
theorem exists_collapse_eq (l : List A) (skipped : Bool) :
    ∃ m n, collapse keep sep l skipped =
      List.replicate m sep ++ ([sep].intercalate (runs keep l) ++ List.replicate n sep) := by
  rw [collapse_eq_glue]
  unfold runs
  obtain ⟨n, hglue⟩ := @exists_glue_eq A sep (l.splitOnP fun a => !keep a)
  cases skipped with
  | true => exact ⟨0, n, by simpa using hglue⟩
  | false =>
      generalize l.splitOnP (fun a => !keep a) = pieces at hglue
      match pieces with
      | [] => exact ⟨0, n, by simpa [glue] using hglue⟩
      | [piece] => exact ⟨0, n, by simpa [glue] using hglue⟩
      | [] :: next :: pieces => exact ⟨1, n, by simpa [glue] using hglue⟩
      | (a :: piece) :: next :: pieces => exact ⟨0, n, by simpa [glue] using hglue⟩

theorem trim_intercalate {segments : List (List A)} (hne : ∀ segment ∈ segments, segment ≠ [])
    (hsep : ∀ segment ∈ segments, sep ∉ segment) (m n : Nat) :
    trim sep (List.replicate m sep ++ ([sep].intercalate segments ++ List.replicate n sep)) =
      [sep].intercalate segments := by
  have hpad : ∀ (k : Nat) (l : List A),
      (l ++ List.replicate k sep).rdropWhile (· == sep) = l.rdropWhile (· == sep) := by
    intro k l
    induction k with
    | zero => simp
    | succ k ih =>
        rw [List.replicate_succ', ← List.append_assoc, List.rdropWhile_concat_pos _ _ _ (by simp),
          ih]
  have hlead : ∀ (k : Nat) (l : List A),
      (List.replicate k sep ++ l).dropWhile (· == sep) = l.dropWhile (· == sep) := by
    intro k l
    induction k with
    | zero => simp
    | succ k ih => simp [List.replicate_succ, ih]
  have hlast : ([sep].intercalate segments).rdropWhile (· == sep) =
      [sep].intercalate segments := by
    rw [List.rdropWhile_eq_self_iff]
    induction segments with
    | nil => simp
    | cons segment rest ih =>
        cases rest with
        | nil =>
            intro hnil
            have hmem := List.getLast_mem hnil
            simp only [List.intercalate_singleton] at hmem ⊢
            intro heq
            rw [beq_iff_eq.mp heq] at hmem
            exact hsep segment (by simp) hmem
        | cons next rest =>
            have htail := ih (fun s hs => hne s (by simp [hs])) (fun s hs => hsep s (by simp [hs]))
            have hnil : [sep].intercalate (next :: rest) ≠ [] := by
              have hnext := hne next (by simp)
              cases rest <;> simp [hnext]
            intro _
            simp only [List.intercalate_cons_cons]
            rw [List.getLast_append_of_ne_nil _ hnil]
            exact htail hnil
  unfold trim
  rw [hlead]
  cases hsegments : segments with
  | nil => simp
  | cons segment rest =>
      have hfirst : segment ≠ [] := hne segment (by simp [hsegments])
      obtain ⟨a, tail, rfl⟩ := List.exists_cons_of_ne_nil hfirst
      have ha : ¬(a == sep) = true := by
        intro heq
        exact hsep (a :: tail) (by simp [hsegments]) (by simp [beq_iff_eq.mp heq])
      have hfront : ∀ l : List A, (a :: l).dropWhile (· == sep) = a :: l :=
        fun l => List.dropWhile_cons_of_neg ha
      rw [hsegments] at hlast
      rw [List.intercalate_cons_cons_left, List.cons_append, hfront, ← List.cons_append, hpad,
        ← List.intercalate_cons_cons_left]
      exact hlast

/-- The pass, without separators at its ends, leaves the runs joined by single ones. -/
theorem trim_collapse (hsep : keep sep = false) (l : List A) (skipped : Bool) :
    trim sep (collapse keep sep l skipped) = [sep].intercalate (runs keep l) := by
  obtain ⟨m, n, hcollapse⟩ := @exists_collapse_eq A keep sep l skipped
  rw [hcollapse]
  apply trim_intercalate
  · exact fun segment hsegment => ne_nil_of_mem_runs hsegment
  · intro segment hsegment hmem
    rw [keep_of_mem_runs hsegment hmem] at hsep
    cases hsep

omit [DecidableEq A] in
theorem collapse_congr {l m : List A}
    (h : List.Forall₂ (fun a b => a = b ∨ keep a = false ∧ keep b = false) l m) (skipped : Bool) :
    collapse keep sep l skipped = collapse keep sep m skipped := by
  induction h generalizing skipped with
  | nil => rfl
  | cons hab _ ih =>
      rw [collapse, collapse, ih true, ih false]
      rcases hab with rfl | ⟨ha, hb⟩
      · rfl
      · simp [ha, hb]

end Lib.Segments
