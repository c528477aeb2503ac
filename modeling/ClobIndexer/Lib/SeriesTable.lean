import Mathlib.Data.List.DropRight
import Mathlib.Data.List.Perm.Subperm
import ClobIndexer.Lib.SortedStore
/-!
# Tables of series

A table with a primary key of a series and a time holds one sorted list of rows for each
series.  A trim keeps the newest rows of a series.  A row that was written last for its
key is there until it has made room for as many newer ones as a trim keeps.
-/

namespace Lib

namespace SortedStore

variable {K V : Type} [LinearOrder K]

/-- `DELETE` of the rows below the least of the `keep` newest. -/
def keepNewest (keep : Nat) (s : SortedStore K V) : SortedStore K V :=
  match (s.rows.reverse.take keep).getLast? with
  | none => s
  | some oldest =>
      { rows := s.rows.filter fun row => ¬row.1 < oldest.1, sorted := s.sorted.filter _ }

def newer (k : K) (s : SortedStore K V) : Nat := (s.rows.filter fun row => k < row.1).length

/-- The value of the key is `v`, unless the row made room for `keep` newer ones. -/
structure Kept (keep : Nat) (k : K) (v : V) (s : SortedStore K V) : Prop where
  value : ∀ v', (k, v') ∈ s.rows → v' = v
  room : (k, v) ∉ s.rows → keep ≤ s.newer k

variable {keep : Nat} {k k' : K} {v v' : V} {s : SortedStore K V}

theorem kept_put (keep : Nat) (k : K) (v : V) (s : SortedStore K V) :
    (s.put k v).Kept keep k v where
  value := by
    intro v' hv'
    rcases mem_put.mp hv' with ⟨-, rfl⟩ | ⟨hne, -⟩
    · rfl
    · exact absurd rfl hne
  room := fun hnot => absurd (mem_put.mpr (Or.inl ⟨rfl, rfl⟩)) hnot

theorem newer_le_newer_put (k k' : K) (v' : V) (s : SortedStore K V) :
    s.newer k ≤ (s.put k' v').newer k := by
  have hnodup : ((s.rows.filter fun row => k < row.1).map Prod.fst).Nodup :=
    List.pairwise_map.mpr ((s.sorted.filter _).imp fun hlt => ne_of_lt hlt)
  have hsub : (s.rows.filter fun row => k < row.1).map Prod.fst ⊆
      ((s.put k' v').rows.filter fun row => k < row.1).map Prod.fst := by
    intro key hkey
    obtain ⟨⟨key, value⟩, hrow, rfl⟩ := List.mem_map.mp hkey
    obtain ⟨hmem, hlt⟩ := List.mem_filter.mp hrow
    by_cases heq : key = k'
    · exact List.mem_map.mpr ⟨(key, v'), List.mem_filter.mpr
        ⟨mem_put.mpr (Or.inl ⟨heq, rfl⟩), hlt⟩, rfl⟩
    · exact List.mem_map.mpr ⟨(key, value), List.mem_filter.mpr
        ⟨mem_put.mpr (Or.inr ⟨heq, hmem⟩), hlt⟩, rfl⟩
  have hle := (List.subperm_of_subset hnodup hsub).length_le
  rwa [List.length_map, List.length_map] at hle

theorem Kept.put (h : s.Kept keep k v) (hne : k ≠ k') (v' : V) :
    (s.put k' v').Kept keep k v where
  value := by
    intro value hvalue
    rcases mem_put.mp hvalue with ⟨heq, -⟩ | ⟨-, hold⟩
    · exact absurd heq hne
    · exact h.value value hold
  room := by
    intro hnot
    have hroom := h.room fun hmem => hnot (mem_put.mpr (Or.inr ⟨hne, hmem⟩))
    exact hroom.trans (newer_le_newer_put k k' v' s)

/-! ## Trims -/

theorem filter_eq_take {rows : List (K × V)} (hrows : rows.Pairwise fun a b => b.1 < a.1)
    {oldest : K × V} (holdest : (rows.take keep).getLast? = some oldest) :
    rows.filter (fun row => ¬row.1 < oldest.1) = rows.take keep := by
  induction rows generalizing keep with
  | nil => simp
  | cons row rows ih =>
      rw [List.pairwise_cons] at hrows
      cases keep with
      | zero => simp at holdest
      | succ keep =>
          rw [List.take_succ_cons] at holdest ⊢
          cases hrest : (rows.take keep).getLast? with
          | none =>
              -- the first row is the only one to stay
              have hnil : rows.take keep = [] := List.getLast?_eq_none_iff.mp hrest
              rw [hnil, List.getLast?_singleton, Option.some.injEq] at holdest
              rw [hnil, ← holdest, List.filter_cons_of_pos (by simp)]
              simp only [List.cons.injEq, List.filter_eq_nil_iff, true_and]
              intro later hlater
              simpa using hrows.1 later hlater
          | some oldest' =>
              have hlast : oldest' = oldest := by
                rw [List.getLast?_cons, hrest] at holdest
                simpa using holdest
              subst hlast
              have hbefore : oldest'.1 < row.1 :=
                hrows.1 oldest' (List.mem_of_mem_take (List.mem_of_getLast? hrest))
              rw [List.filter_cons_of_pos (by simpa using hbefore.le), ih hrows.2 hrest]

theorem reverse_keepNewest (hkeep : 0 < keep) (s : SortedStore K V) :
    (s.keepNewest keep).rows.reverse = s.rows.reverse.take keep := by
  have hrows : s.rows.reverse.Pairwise fun a b => b.1 < a.1 :=
    List.pairwise_reverse.mpr s.sorted
  unfold keepNewest
  cases holdest : (s.rows.reverse.take keep).getLast? with
  | none =>
      have hnil : s.rows.reverse.take keep = [] := List.getLast?_eq_none_iff.mp holdest
      rw [hnil]
      rcases List.take_eq_nil_iff.mp hnil with hzero | hempty
      · omega
      · exact hempty
  | some oldest =>
      dsimp only
      rw [← List.filter_reverse]
      exact filter_eq_take hrows holdest

theorem newer_eq_reverse (k : K) (s : SortedStore K V) :
    s.newer k = (s.rows.reverse.filter fun row => k < row.1).length := by
  rw [List.filter_reverse, List.length_reverse]
  rfl

theorem length_filter_take {rows : List (K × V)} (hrows : rows.Pairwise fun a b => b.1 < a.1)
    (k : K) : ((rows.take keep).filter fun row => k < row.1).length =
      min keep (rows.filter fun row => k < row.1).length := by
  induction rows generalizing keep with
  | nil => simp
  | cons row rows ih =>
      rw [List.pairwise_cons] at hrows
      cases keep with
      | zero => simp
      | succ keep =>
          rw [List.take_succ_cons, List.filter_cons, List.filter_cons]
          by_cases hlt : k < row.1
          · rw [if_pos (by simpa using hlt), if_pos (by simpa using hlt), List.length_cons,
              List.length_cons, ih hrows.2]
            omega
          · have hnone : rows.filter (fun row => k < row.1) = [] := by
              rw [List.filter_eq_nil_iff]
              intro later hlater hk
              exact hlt ((of_decide_eq_true hk).trans (hrows.1 later hlater))
            rw [if_neg (by simpa using hlt), if_neg (by simpa using hlt), ih hrows.2, hnone]
            simp

theorem newer_keepNewest (hkeep : 0 < keep) (k : K) (s : SortedStore K V) :
    (s.keepNewest keep).newer k = min keep (s.newer k) := by
  have hrows : s.rows.reverse.Pairwise fun a b => b.1 < a.1 :=
    List.pairwise_reverse.mpr s.sorted
  rw [newer_eq_reverse, newer_eq_reverse, reverse_keepNewest hkeep]
  exact length_filter_take hrows k

/-- A trim lets a row go only for newer ones. -/
theorem Kept.keepNewest (h : s.Kept keep k v) (hkeep : 0 < keep) :
    (s.keepNewest keep).Kept keep k v := by
  have hmem : ∀ row, row ∈ (s.keepNewest keep).rows ↔ row ∈ s.rows.reverse.take keep := by
    intro row
    rw [← reverse_keepNewest hkeep, List.mem_reverse]
  constructor
  · intro v' hv'
    exact h.value v' (List.mem_reverse.mp (List.mem_of_mem_take ((hmem (k, v')).mp hv')))
  · intro hnot
    rw [newer_keepNewest hkeep]
    rw [hmem] at hnot
    by_cases hrow : (k, v) ∈ s.rows
    · -- the rows that stay are all newer
      have hsplit := List.take_append_drop keep s.rows.reverse
      have hsorted : s.rows.reverse.Pairwise fun a b => b.1 < a.1 :=
        List.pairwise_reverse.mpr s.sorted
      rw [← hsplit, List.pairwise_append] at hsorted
      have hdropped : (k, v) ∈ s.rows.reverse.drop keep := by
        have hall : (k, v) ∈ s.rows.reverse.take keep ++ s.rows.reverse.drop keep := by
          rw [hsplit]
          exact List.mem_reverse.mpr hrow
        exact (List.mem_append.mp hall).resolve_left hnot
      have hnewer : (s.rows.reverse.take keep).filter (fun row => k < row.1) =
          s.rows.reverse.take keep := by
        rw [List.filter_eq_self]
        intro row hrow
        exact decide_eq_true (hsorted.2.2 row hrow (k, v) hdropped)
      have hlength : (s.rows.reverse.take keep).length = keep := by
        have hpos := List.length_pos_of_mem hdropped
        rw [List.length_drop] at hpos
        rw [List.length_take]
        omega
      have hcount : ((s.rows.reverse.take keep).filter fun row => k < row.1).length =
          min keep (s.rows.reverse.filter fun row => k < row.1).length :=
        length_filter_take (List.pairwise_reverse.mpr s.sorted) k
      rw [hnewer, hlength, ← newer_eq_reverse] at hcount
      omega
    · have hroom := h.room hrow
      omega

/-! ## The newest rows -/

theorem reverse_put (k : K) (v : V) (s : SortedStore K V) :
    (s.put k v).rows.reverse =
      s.rows.reverse.filter (fun row => k < row.1) ++
        (k, v) :: s.rows.reverse.filter fun row => row.1 < k := by
  unfold put
  simp [List.filter_reverse]

theorem filter_of_below {rows : List (K × V)} {k : K} (hrows : ∀ row ∈ rows, row.1 < k) :
    rows.filter (fun row => k < row.1) = [] ∧ rows.filter (fun row => row.1 < k) = rows := by
  rw [List.filter_eq_nil_iff, List.filter_eq_self]
  constructor
  · intro row hrow hk
    exact lt_asymm (hrows row hrow) (of_decide_eq_true hk)
  · intro row hrow
    exact decide_eq_true (hrows row hrow)

/-- Newest first, the first rows after one is put depend on the first rows before. -/
theorem take_put {rows : List (K × V)} (hrows : rows.Pairwise fun a b => b.1 < a.1) (keep : Nat)
    (k : K) (v : V) :
    (rows.filter (fun row => k < row.1) ++ (k, v) :: rows.filter fun row => row.1 < k).take keep =
      ((rows.take keep).filter (fun row => k < row.1) ++
        (k, v) :: (rows.take keep).filter fun row => row.1 < k).take keep := by
  induction rows generalizing keep with
  | nil => simp
  | cons row rows ih =>
      rw [List.pairwise_cons] at hrows
      cases keep with
      | zero => simp
      | succ keep =>
          rw [List.take_succ_cons]
          rcases lt_trichotomy k row.1 with hlt | heq | hgt
          · -- the row stays first
            have hnot : ¬row.1 < k := lt_asymm hlt
            simp only [List.filter_cons, hlt, hnot, decide_true, decide_false, if_true,
              Bool.false_eq_true, if_false, List.cons_append, List.take_succ_cons]
            rw [ih hrows.2 keep]
          · -- the new row takes the place of the first one
            have hbelow : ∀ later ∈ rows, later.1 < k := heq ▸ hrows.1
            have hbelow' : ∀ later ∈ rows.take keep, later.1 < k :=
              fun later hlater => hbelow later (List.mem_of_mem_take hlater)
            obtain ⟨hnone, hall⟩ := filter_of_below hbelow
            obtain ⟨hnone', hall'⟩ := filter_of_below hbelow'
            subst heq
            rw [List.filter_cons_of_neg (by simp), List.filter_cons_of_neg (by simp),
              List.filter_cons_of_neg (by simp), List.filter_cons_of_neg (by simp), hnone, hall,
              hnone', hall', List.nil_append, List.nil_append, List.take_succ_cons,
              List.take_succ_cons, List.take_take, Nat.min_self]
          · -- the new row goes before the first one
            have hbelow : ∀ later ∈ row :: rows, later.1 < k :=
              List.forall_mem_cons.mpr ⟨hgt, fun later hlater => (hrows.1 later hlater).trans hgt⟩
            have hbelow' : ∀ later ∈ row :: rows.take keep, later.1 < k :=
              List.forall_mem_cons.mpr ⟨hgt, fun later hlater =>
                hbelow later (List.mem_cons_of_mem _ (List.mem_of_mem_take hlater))⟩
            obtain ⟨hnone, hall⟩ := filter_of_below hbelow
            obtain ⟨hnone', hall'⟩ := filter_of_below hbelow'
            rw [hnone, hall, hnone', hall', List.nil_append, List.nil_append,
              List.take_succ_cons, List.take_succ_cons]
            cases keep with
            | zero => simp
            | succ keep => simp [List.take_take]

/-- Both tables have the same newest rows. -/
def Alike (keep : Nat) (s s' : SortedStore K V) : Prop :=
  s.rows.reverse.take keep = s'.rows.reverse.take keep

theorem Alike.put {s' : SortedStore K V} (h : s.Alike keep s') (k : K) (v : V) :
    (s.put k v).Alike keep (s'.put k v) := by
  unfold Alike at h ⊢
  rw [reverse_put, reverse_put, take_put (List.pairwise_reverse.mpr s.sorted),
    take_put (List.pairwise_reverse.mpr s'.sorted), h]

theorem Alike.putAll {s' : SortedStore K V} (h : s.Alike keep s') (rows : List (K × V)) :
    (s.putAll rows).Alike keep (s'.putAll rows) := by
  unfold SortedStore.putAll
  induction rows generalizing s s' with
  | nil => exact h
  | cons row rows ih => exact ih (h.put row.1 row.2)

/-! ## Queries for the newest rows -/

/-- A query that reads the newest rows first, and is turned around at its end. -/
theorem reverse_select {A B : Type} (p : A → Bool) (f : A → B) (limit : Nat) (rows : List A) :
    (((rows.reverse.filter p).take limit).map f).reverse =
      ((rows.filter p).map f).rtake limit := by
  rw [List.rtake_eq_reverse_take_reverse, List.map_take, List.filter_reverse, List.map_reverse]

theorem filter_not_append_filter {A : Type} {p : A → Prop} [DecidablePred p] {rows : List A}
    (hrows : rows.Pairwise fun a b => p a → p b) :
    rows.filter (fun a => ¬p a) ++ rows.filter (fun a => p a) = rows := by
  induction rows with
  | nil => rfl
  | cons row rows ih =>
      rw [List.pairwise_cons] at hrows
      by_cases hp : p row
      · have hall : ∀ later ∈ row :: rows, p later :=
          List.forall_mem_cons.mpr ⟨hp, fun later hlater => hrows.1 later hlater hp⟩
        have hnone : (row :: rows).filter (fun a => ¬p a) = [] := by
          rw [List.filter_eq_nil_iff]
          intro later hlater
          simpa using hall later hlater
        rw [hnone, List.nil_append, List.filter_eq_self]
        intro later hlater
        simpa using hall later hlater
      · rw [List.filter_cons_of_pos (by simpa using hp), List.filter_cons_of_neg (by simpa using hp),
          List.cons_append, ih hrows.2]

/-- The newest rows do not show what stands before as many of them. -/
theorem rtake_append_iff {A : Type} (front back : List A) (n : Nat) :
    (front ++ back).rtake n = back.rtake n ↔ front = [] ∨ n ≤ back.length := by
  constructor
  · intro heq
    have hlength := congrArg List.length heq
    unfold List.rtake at hlength
    rw [List.length_drop, List.length_drop, List.length_append] at hlength
    rw [← List.length_eq_zero_iff]
    omega
  · rintro (rfl | hn)
    · rfl
    · unfold List.rtake
      rw [List.length_append, List.drop_append, List.drop_eq_nil_of_le (by omega),
        List.nil_append]
      congr 1
      omega

end SortedStore

/-! ## Series -/

abbrev SeriesTable (G K V : Type) [LinearOrder K] := Dict G (SortedStore K V)

namespace SeriesTable

variable {G K V : Type} [DecidableEq G] [LinearOrder K]

def series (g : G) (t : SeriesTable G K V) : SortedStore K V := (t.lookup g).getD .empty

def upsert (g : G) (k : K) (v : V) (t : SeriesTable G K V) : SeriesTable G K V :=
  t.insert g ((series g t).put k v)

def trim (g : G) (keep : Nat) (t : SeriesTable G K V) : SeriesTable G K V :=
  t.insert g ((series g t).keepNewest keep)

theorem series_insert (g g' : G) (s : SortedStore K V) (t : SeriesTable G K V) :
    series g (AList.insert g' s t) = if g = g' then s else series g t := by
  unfold series
  rw [Dict.lookup_insert_ite]
  split_ifs <;> rfl

def Kept (keep : Nat) (g : G) (k : K) (v : V) (t : SeriesTable G K V) : Prop :=
  (series g t).Kept keep k v

variable {keep : Nat} {g g' : G} {k k' : K} {v : V} {t : SeriesTable G K V}

theorem kept_upsert (keep : Nat) (g : G) (k : K) (v : V) (t : SeriesTable G K V) :
    Kept keep g k v (upsert g k v t) := by
  unfold Kept upsert
  rw [series_insert, if_pos rfl]
  exact SortedStore.kept_put keep k v _

theorem Kept.upsert (h : Kept keep g k v t) (hne : (g, k) ≠ (g', k')) (v' : V) :
    Kept keep g k v (upsert g' k' v' t) := by
  unfold Kept SeriesTable.upsert
  rw [series_insert]
  split_ifs with hg
  · subst hg
    exact SortedStore.Kept.put h (fun hk => hne (by rw [hk])) v'
  · exact h

theorem Kept.trim (h : Kept keep g k v t) (hkeep : 0 < keep) (g' : G) :
    Kept keep g k v (trim g' keep t) := by
  unfold Kept SeriesTable.trim
  rw [series_insert]
  split_ifs with hg
  · subst hg
    exact SortedStore.Kept.keepNewest h hkeep
  · exact h

/-! ## Rows that are read back -/

section

variable {A B : Type}

theorem mapM_of_map {f : A → Option B} {as : List A} {bs : List B}
    (h : as.map f = bs.map some) : as.mapM f = some bs := by
  induction as generalizing bs with
  | nil =>
      rw [List.map_nil, eq_comm, List.map_eq_nil_iff] at h
      rw [h]
      rfl
  | cons a as ih =>
      cases bs with
      | nil => simp at h
      | cons b bs =>
          rw [List.map_cons, List.map_cons, List.cons.injEq] at h
          rw [List.mapM_cons, h.1, ih h.2]
          rfl

theorem map_eq_map_filterMap {f : A → Option B} {as : List A} (h : ∀ a ∈ as, (f a).isSome) :
    as.map f = (as.filterMap f).map some := by
  induction as with
  | nil => rfl
  | cons a as ih =>
      obtain ⟨b, hb⟩ := Option.isSome_iff_exists.mp (h a List.mem_cons_self)
      rw [List.map_cons, List.filterMap_cons, hb, ih fun a' ha' => h a' (List.mem_cons_of_mem a ha'),
        List.map_cons]

theorem pairwise_mergeSort_decide (r : A → A → Prop) [DecidableRel r]
    (htrans : ∀ a b c, r a b → r b c → r a c) (htotal : ∀ a b, r a b ∨ r b a) (as : List A) :
    (as.mergeSort fun a b => r a b).Pairwise r := by
  have hsorted : (as.mergeSort fun a b => r a b).Pairwise fun a b => decide (r a b) = true := by
    apply List.pairwise_mergeSort
    · intro a b c hab hbc
      exact decide_eq_true (htrans a b c (of_decide_eq_true hab) (of_decide_eq_true hbc))
    · intro a b
      simpa using htotal a b
  exact hsorted.imp of_decide_eq_true

end

end SeriesTable

end Lib
