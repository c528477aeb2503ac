import Mathlib.Data.List.Sort
import Mathlib.Logic.Function.Iterate
import ClobIndexer.Lib.Paging
/-!
# Listings

A listing gives rows sorted by a key, a page of them at a time.  The rows are gathered from a
hash map, in an order of its own, which does not matter where no two rows have one key.  The
listing may grow while a reader asks for one page after the other: it then misses nothing
that was there when it began, and where nothing is added it reads the listing.
-/

namespace Lib.Listing

open Paging

variable {R K : Type}

/-- An order in which a hash map gives its values. -/
structure Iteration (R : Type) where
  order : List R → List R
  perm : ∀ rows, (order rows).Perm rows

/-! ## Sorting by a key -/

section

variable [LinearOrder K] {key : R → K} {ascending : Bool}

def Before (ascending : Bool) (a b : K) : Prop := if ascending then a ≤ b else b ≤ a

instance (ascending : Bool) (a b : K) : Decidable (Before ascending a b) := by
  unfold Before
  infer_instance

theorem Before.trans {a b c : K} (h : Before ascending a b) (h' : Before ascending b c) :
    Before ascending a c := by
  unfold Before at *
  split_ifs at *
  · exact h.trans h'
  · exact h'.trans h

theorem Before.total (ascending : Bool) (a b : K) :
    Before ascending a b ∨ Before ascending b a := by
  unfold Before
  split_ifs
  · exact le_total a b
  · exact le_total b a

theorem Before.antisymm {a b : K} (h : Before ascending a b) (h' : Before ascending b a) :
    a = b := by
  unfold Before at *
  split_ifs at *
  · exact le_antisymm h h'
  · exact le_antisymm h' h

instance : IsTrans K (Before ascending) := ⟨fun _ _ _ h h' => h.trans h'⟩

instance : Std.Total (Before (K := K) ascending) := ⟨Before.total ascending⟩

instance : Std.Antisymm (Before (K := K) ascending) := ⟨fun _ _ h h' => h.antisymm h'⟩

/-- Sorted by a key, up or down; rows with one key stay as they stood. -/
def sortBy (key : R → K) (ascending : Bool) (rows : List R) : List R :=
  rows.mergeSort fun a b => Before ascending (key a) (key b)

theorem perm_sortBy (key : R → K) (ascending : Bool) (rows : List R) :
    (sortBy key ascending rows).Perm rows := List.mergeSort_perm rows _

@[simp] theorem length_sortBy (key : R → K) (ascending : Bool) (rows : List R) :
    (sortBy key ascending rows).length = rows.length := (perm_sortBy key ascending rows).length_eq

@[simp] theorem mem_sortBy {rows : List R} {row : R} :
    row ∈ sortBy key ascending rows ↔ row ∈ rows := (perm_sortBy key ascending rows).mem_iff

theorem map_sortBy (key : R → K) (ascending : Bool) (rows : List R) :
    (sortBy key ascending rows).map key = sortBy (fun k => k) ascending (rows.map key) :=
  List.map_mergeSort fun _ _ _ _ => rfl

theorem pairwise_sortBy (ascending : Bool) (keys : List K) :
    (sortBy (fun k => k) ascending keys).Pairwise (Before ascending) :=
  List.pairwise_mergeSort' (Before ascending) keys

/-- Keys that are among others are, sorted, a part of the others sorted. -/
theorem sortBy_sublist {keys keys' : List K} (hnodup : keys.Nodup)
    (hsub : ∀ k ∈ keys, k ∈ keys') (ascending : Bool) :
    (sortBy (fun k => k) ascending keys).Sublist (sortBy (fun k => k) ascending keys') := by
  have hsubperm : (sortBy (fun k => k) ascending keys).Subperm
      (sortBy (fun k => k) ascending keys') := by
    apply List.subperm_of_subset ((perm_sortBy _ ascending keys).nodup_iff.mpr hnodup)
    intro k hk
    exact mem_sortBy.mpr (hsub k (mem_sortBy.mp hk))
  exact List.sublist_of_subperm_of_pairwise hsubperm (pairwise_sortBy ascending keys)
    (pairwise_sortBy ascending keys')

/-- In which order keys come to be sorted does not matter. -/
theorem sortBy_keys_perm (ascending : Bool) {keys keys' : List K} (hperm : keys'.Perm keys) :
    sortBy (fun k => k) ascending keys' = sortBy (fun k => k) ascending keys := by
  have hsorted : (sortBy (fun k => k) ascending keys').Perm
      (sortBy (fun k => k) ascending keys) :=
    (perm_sortBy _ ascending keys').trans (hperm.trans (perm_sortBy _ ascending keys).symm)
  exact hsorted.eq_of_pairwise' (pairwise_sortBy ascending keys') (pairwise_sortBy ascending keys)

/-- Nor does it for rows of which no two have one key. -/
theorem sortBy_perm {rows rows' : List R} (hkeys : (rows.map key).Nodup)
    (hperm : rows'.Perm rows) : sortBy key ascending rows' = sortBy key ascending rows := by
  have hsorted : ∀ l : List R, (sortBy key ascending l).Pairwise
      fun a b => Before ascending (key a) (key b) := by
    intro l
    have hpairwise := pairwise_sortBy ascending (l.map key)
    rw [← map_sortBy] at hpairwise
    exact List.pairwise_map.mp hpairwise
  refine List.Perm.eq_of_pairwise ?_ (hsorted rows') (hsorted rows)
    ((perm_sortBy key ascending rows').trans (hperm.trans (perm_sortBy key ascending rows).symm))
  intro a b ha hb hab hba
  have ha : a ∈ rows := hperm.mem_iff.mp (mem_sortBy.mp ha)
  exact List.inj_on_of_nodup_map hkeys ha (mem_sortBy.mp hb) (hab.antisymm hba)

end

/-! ## Reading page by page -/

theorem length_window (offset limit : Nat) (rows : List R) :
    (window offset limit rows).length = min limit (rows.length - offset) := by
  unfold window
  rw [List.length_take, List.length_drop]

theorem length_window_lt {offset limit : Nat} {rows : List R} (hlimit : 1 ≤ limit)
    (hend : rows.length < offset + limit) : (window offset limit rows).length < limit := by
  rw [length_window]
  omega

/-- A reader: the row it asks for next, what it read, and whether a page was not full. -/
structure Reader (R : Type) where
  next : Nat := 0
  seen : List R := []
  finished : Bool := false

def Reader.read (limit : Nat) (page : List R) (r : Reader R) : Reader R :=
  ⟨r.next + limit, r.seen ++ page, page.length < limit⟩

/-- What a reader knows of a listing that has grown since it began. -/
structure Reads (key : R → K) (start now : List K) (r : Reader R) : Prop where
  grown : start.Sublist now
  caught : ∀ k ∈ start, k ∈ now.take r.next → k ∈ r.seen.map key
  misses : r.finished = true → ∀ k ∈ start, k ∈ r.seen.map key
  same : now = start → r.seen.map key = start.take r.next
  whole : r.finished = true → now = start → r.seen.map key = start

variable {key : R → K} {start now now' : List K} {r : Reader R}

theorem mem_take_of_sublist {l l' : List K} (hsub : l.Sublist l') (hnodup : l'.Nodup) {n : Nat}
    {k : K} (hk : k ∈ l) (htake : k ∈ l'.take n) : k ∈ l.take n := by
  induction hsub generalizing n with
  | slnil => exact htake
  | @cons l l' a hsub ih =>
      cases n with
      | zero => exact absurd htake (by simp)
      | succ n =>
          rw [List.nodup_cons] at hnodup
          rw [List.take_succ_cons, List.mem_cons] at htake
          rcases htake with rfl | htake
          · exact absurd (hsub.subset hk) hnodup.1
          · exact (List.take_sublist_take_left (Nat.le_succ n)).subset (ih hnodup.2 hk htake)
  | @cons_cons l l' a hsub ih =>
      cases n with
      | zero => exact absurd htake (by simp)
      | succ n =>
          rw [List.nodup_cons] at hnodup
          rw [List.take_succ_cons, List.mem_cons] at htake ⊢
          rcases htake with rfl | htake
          · exact .inl rfl
          · rcases List.mem_cons.mp hk with rfl | hk
            · exact .inl rfl
            · exact .inr (ih hnodup.2 hk htake)

theorem reads_start (key : R → K) (start : List K) : Reads key start start {} where
  grown := List.Sublist.refl start
  caught := fun k _ hk => by
    rw [List.take_zero] at hk
    exact absurd hk List.not_mem_nil
  misses := fun h => nomatch h
  same := fun _ => rfl
  whole := fun h => nomatch h

theorem Reads.grow (h : Reads key start now r) (hsub : now.Sublist now') (hnodup : now'.Nodup) :
    Reads key start now' r := by
  have hsame : now' = start → now = start := by
    rintro rfl
    exact hsub.antisymm h.grown
  constructor
  · exact h.grown.trans hsub
  · intro k hk htake
    exact h.caught k hk (mem_take_of_sublist hsub hnodup (h.grown.subset hk) htake)
  · exact h.misses
  · exact fun hnow => h.same (hsame hnow)
  · exact fun hfinished hnow => h.whole hfinished (hsame hnow)

theorem Reads.read (h : Reads key start now r) {limit : Nat} {page : List R}
    (hpage : page.map key = window r.next limit now) :
    Reads key start now (r.read limit page) := by
  have htake : now.take (r.next + limit) = now.take r.next ++ window r.next limit now :=
    List.take_add
  have hseen : (r.read limit page).seen.map key = r.seen.map key ++ window r.next limit now := by
    rw [← hpage]
    exact List.map_append
  have hcaught : ∀ k ∈ start, k ∈ now.take (r.next + limit) →
      k ∈ (r.read limit page).seen.map key := by
    intro k hk hmem
    rw [htake, List.mem_append] at hmem
    rw [hseen, List.mem_append]
    exact hmem.imp_left (h.caught k hk)
  have hsame : now = start →
      (r.read limit page).seen.map key = start.take (r.next + limit) := by
    rintro rfl
    rw [hseen, h.same rfl, htake]
  -- a page that is not full reaches the end
  have hend : (r.read limit page).finished = true → now.take (r.next + limit) = now := by
    intro hfinished
    have hshort : page.length < limit := of_decide_eq_true hfinished
    have hlength : page.length = min limit (now.length - r.next) := by
      rw [← List.length_map (f := key), hpage, length_window]
    apply List.take_of_length_le
    omega
  constructor
  · exact h.grown
  · exact hcaught
  · intro hfinished k hk
    apply hcaught k hk
    rw [hend hfinished]
    exact h.grown.subset hk
  · exact hsame
  · intro hfinished hnow
    rw [hsame hnow, ← hnow, hend hfinished, hnow]

/-- The page that reaches the end of the listing is the last. -/
theorem finished_read {limit : Nat} {page : List R} (hlimit : 1 ≤ limit)
    (hpage : page.map key = window r.next limit now) (hend : now.length < r.next + limit) :
    (r.read limit page).finished = true := by
  have hshort := length_window_lt hlimit hend
  rw [← hpage, List.length_map] at hshort
  exact decide_eq_true hshort

/-- A reader that asks on and on, each time from its next row, finishes. -/
theorem finished_iterate {S : Type} {ask : S → S} {reader : S → Reader R} {P : S → Prop}
    {size limit bound : Nat} (hkeeps : ∀ s, P s → P (ask s))
    (hstays : ∀ s, (reader s).finished = true → ask s = s)
    (hnext : ∀ s, P s → ¬(reader s).finished = true → (reader s).next < bound →
      (reader (ask s)).next = (reader s).next + limit)
    (hlast : ∀ s, P s → (reader s).next < bound → size < (reader s).next + limit →
      (reader (ask s)).finished = true)
    {s : S} (hs : P s) {k : Nat} (hbound : (reader s).next + k * limit < bound)
    (hend : size < (reader s).next + (k + 1) * limit) :
    (reader (ask^[k + 1] s)).finished = true := by
  induction k generalizing s with
  | zero => exact hlast s hs (by omega) (by omega)
  | succ k ih =>
      rw [Function.iterate_succ_apply]
      by_cases hdone : (reader s).finished = true
      · have hfixed := hstays s hdone
        rw [hfixed, Function.iterate_fixed hfixed]
        exact hdone
      · rw [Nat.succ_mul] at hbound hend
        have hread := hnext s hs hdone (by omega)
        apply ih (hkeeps s hs)
        · omega
        · omega

end Lib.Listing
