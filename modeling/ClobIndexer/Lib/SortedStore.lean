import Mathlib.Data.List.Lex
import Mathlib.Order.Lattice
import ClobIndexer.Lib.Dict
/-!
# Sorted tables of encoded rows

A table keeps its rows in the order of their keys, the values encoded.  A scan
decodes from the first row on and ends at the first value that does not decode,
without saying so.
-/

namespace Lib

structure SortedStore (K V : Type) [LinearOrder K] where
  rows : List (K × V)
  sorted : rows.Pairwise fun a b => a.1 < b.1

namespace SortedStore

variable {K V R : Type} [LinearOrder K]

def empty : SortedStore K V := ⟨[], List.Pairwise.nil⟩

def delete (k : K) (s : SortedStore K V) : SortedStore K V where
  rows := s.rows.filter fun row => row.1 ≠ k
  sorted := s.sorted.filter _

def put (k : K) (v : V) (s : SortedStore K V) : SortedStore K V where
  rows := s.rows.filter (fun row => row.1 < k) ++ (k, v) :: s.rows.filter fun row => k < row.1
  sorted := by
    rw [List.pairwise_append, List.pairwise_cons]
    refine ⟨s.sorted.filter _, ⟨?_, s.sorted.filter _⟩, ?_⟩
    · intro row hrow
      simpa using (List.mem_filter.mp hrow).2
    · intro a ha b hb
      have hlt : a.1 < k := by simpa using (List.mem_filter.mp ha).2
      rcases List.mem_cons.mp hb with rfl | hb
      · exact hlt
      · have hgt : k < b.1 := by simpa using (List.mem_filter.mp hb).2
        exact hlt.trans hgt

def deleteAll (keys : List K) (s : SortedStore K V) : SortedStore K V :=
  keys.foldl (fun s k => s.delete k) s

def putAll (rows : List (K × V)) (s : SortedStore K V) : SortedStore K V :=
  rows.foldl (fun s row => s.put row.1 row.2) s

def scanRows (decode : V → Option R) : List (K × V) → List (K × R)
  | [] => []
  | (k, v) :: rows =>
      match decode v with
      | none => []
      | some r => (k, r) :: scanRows decode rows

def scan (decode : V → Option R) (s : SortedStore K V) : List (K × R) := scanRows decode s.rows

/-! ## Rows -/

theorem mem_delete {s : SortedStore K V} {k k' : K} {v : V} :
    (k', v) ∈ (s.delete k).rows ↔ k' ≠ k ∧ (k', v) ∈ s.rows := by
  unfold delete
  simp [and_comm]

theorem mem_put {s : SortedStore K V} {k k' : K} {v v' : V} :
    (k', v') ∈ (s.put k v).rows ↔ (k' = k ∧ v' = v) ∨ (k' ≠ k ∧ (k', v') ∈ s.rows) := by
  have hne : k' ≠ k ↔ k' < k ∨ k < k' := ne_iff_lt_or_gt
  unfold put
  simp only [List.mem_append, List.mem_filter, List.mem_cons, decide_eq_true_eq, Prod.mk.injEq]
  rw [hne]
  tauto

theorem mem_deleteAll {keys : List K} {s : SortedStore K V} {k : K} {v : V} :
    (k, v) ∈ (s.deleteAll keys).rows ↔ k ∉ keys ∧ (k, v) ∈ s.rows := by
  unfold deleteAll
  induction keys generalizing s with
  | nil => simp
  | cons key keys ih =>
      rw [List.foldl_cons, ih, mem_delete, List.mem_cons, not_or]
      tauto

theorem mem_putAll {rows : List (K × V)} (hkeys : (rows.map Prod.fst).Nodup)
    {s : SortedStore K V} {k : K} {v : V} :
    (k, v) ∈ (s.putAll rows).rows ↔
      (k, v) ∈ rows ∨ (k ∉ rows.map Prod.fst ∧ (k, v) ∈ s.rows) := by
  unfold putAll
  induction rows generalizing s with
  | nil => simp
  | cons row rows ih =>
      obtain ⟨key, value⟩ := row
      rw [List.map_cons, List.nodup_cons] at hkeys
      rw [List.foldl_cons, ih hkeys.2, mem_put, List.map_cons, List.mem_cons, List.mem_cons,
        Prod.mk.injEq, not_or]
      have hlater : (k, v) ∈ rows → k ≠ key := by
        intro hmem heq
        rw [← heq] at hkeys
        exact hkeys.1 (List.mem_map.mpr ⟨(k, v), hmem, rfl⟩)
      by_cases hk : k = key
      · subst hk
        have hnot := hkeys.1
        tauto
      · tauto

theorem mem_of_mem_putAll {rows : List (K × V)} {s : SortedStore K V} {row : K × V}
    (hrow : row ∈ (s.putAll rows).rows) : row ∈ rows ∨ row ∈ s.rows := by
  unfold putAll at hrow
  induction rows generalizing s with
  | nil => exact Or.inr hrow
  | cons first rows ih =>
      rcases ih hrow with hlater | hput
      · exact Or.inl (List.mem_cons_of_mem _ hlater)
      · rcases mem_put.mp hput with ⟨hk, hv⟩ | ⟨-, hold⟩
        · exact Or.inl (List.mem_cons.mpr (Or.inl (Prod.ext hk hv)))
        · exact Or.inr hold

/-! ## Scans -/

theorem mem_scanRows {decode : V → Option R} {rows : List (K × V)}
    (hsorted : rows.Pairwise fun a b => a.1 < b.1) {k : K} {r : R} :
    (k, r) ∈ scanRows decode rows ↔
      (∃ v, (k, v) ∈ rows ∧ decode v = some r) ∧
        ∀ k' v', (k', v') ∈ rows → k' ≤ k → decode v' ≠ none := by
  induction rows with
  | nil => simp [scanRows]
  | cons row rows ih =>
      obtain ⟨key, value⟩ := row
      rw [List.pairwise_cons] at hsorted
      have hafter : ∀ k v, (k, v) ∈ rows → key < k := fun k v hmem => hsorted.1 (k, v) hmem
      unfold scanRows
      cases hdecode : decode value with
      | none =>
          -- the first row ends the scan, and it is not after any row
          refine iff_of_false (List.not_mem_nil) ?_
          rintro ⟨⟨v, hv, -⟩, hall⟩
          have hle : key ≤ k := by
            rcases List.mem_cons.mp hv with heq | hv
            · exact le_of_eq (Prod.mk.inj heq).1.symm
            · exact (hafter k v hv).le
          exact hall key value List.mem_cons_self hle hdecode
      | some first =>
          dsimp only
          rw [List.mem_cons, ih hsorted.2]
          constructor
          · rintro (heq | ⟨⟨v, hv, hr⟩, hall⟩)
            · obtain ⟨rfl, rfl⟩ := Prod.mk.inj heq
              refine ⟨⟨value, List.mem_cons_self, hdecode⟩, ?_⟩
              intro k' v' hmem hle
              rcases List.mem_cons.mp hmem with heq' | hmem
              · obtain ⟨rfl, rfl⟩ := Prod.mk.inj heq'
                simp [hdecode]
              · exact absurd (hafter k' v' hmem) (not_lt.mpr hle)
            · refine ⟨⟨v, List.mem_cons_of_mem _ hv, hr⟩, ?_⟩
              intro k' v' hmem hle
              rcases List.mem_cons.mp hmem with heq' | hmem
              · obtain ⟨rfl, rfl⟩ := Prod.mk.inj heq'
                simp [hdecode]
              · exact hall k' v' hmem hle
          · rintro ⟨⟨v, hv, hr⟩, hall⟩
            rcases List.mem_cons.mp hv with heq | hv
            · obtain ⟨rfl, rfl⟩ := Prod.mk.inj heq
              rw [hdecode] at hr
              cases hr
              exact Or.inl rfl
            · exact Or.inr ⟨⟨v, hv, hr⟩, fun k' v' hmem hle =>
                hall k' v' (List.mem_cons_of_mem _ hmem) hle⟩

/-- A scan returns a row when it decodes and no row up to it fails to. -/
theorem mem_scan {decode : V → Option R} {s : SortedStore K V} {k : K} {r : R} :
    (k, r) ∈ s.scan decode ↔
      (∃ v, (k, v) ∈ s.rows ∧ decode v = some r) ∧
        ∀ k' v', (k', v') ∈ s.rows → k' ≤ k → decode v' ≠ none :=
  mem_scanRows s.sorted

theorem nodup_scan_keys (decode : V → Option R) (s : SortedStore K V) :
    ((s.scan decode).map Prod.fst).Nodup := by
  have hsub : ∀ rows : List (K × V),
      ((scanRows decode rows).map Prod.fst).Sublist (rows.map Prod.fst) := by
    intro rows
    induction rows with
    | nil => exact List.Sublist.refl _
    | cons row rows ih =>
        unfold scanRows
        split
        · exact List.nil_sublist _
        · exact ih.cons_cons _
  have hkeys : (s.rows.map Prod.fst).Nodup :=
    List.pairwise_map.mpr (s.sorted.imp fun hlt => ne_of_lt hlt)
  exact hkeys.sublist (hsub s.rows)

end SortedStore

end Lib
