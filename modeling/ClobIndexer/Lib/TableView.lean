import ClobIndexer.Lib.TableWrites
import Mathlib.Data.List.Induction
/-!
# Tables that show a dictionary

A dictionary is kept in a table under printed keys and encoded values.  The view
of a dictionary through an injective key map and a partial row map is the table
that holds exactly its rows; a point update of the dictionary is a point update
of the view.  A write set of rows, written to an empty table, leaves exactly the
rows when no two of them compete for a key.
-/

namespace Lib

variable {K K' V R : Type} [DecidableEq K] [DecidableEq K']

/-- The table of the rows of a dictionary: entry `k, v` is kept at `f k` as
`g v`, or left out when that is `none`. -/
def keyedView (f : K → K') (g : V → Option R) (d : Dict K V) : Table K' R := fun k' =>
  (d.entries.find? fun e => f e.1 = k').bind fun e => g e.2

section View

variable {f : K → K'} {g : V → Option R}

theorem keyedView_apply (hf : Function.Injective f) (d : Dict K V) (k : K) :
    keyedView f g d (f k) = (d.lookup k).bind g := by
  obtain ⟨l, hl⟩ := d
  change ((l.find? fun e => f e.1 = f k).bind fun e => g e.2) = (l.dlookup k).bind g
  clear hl
  induction l with
  | nil => rfl
  | cons e l ih =>
      obtain ⟨a, v⟩ := e
      by_cases h : k = a
      · subst h
        rw [List.dlookup_cons_eq, List.find?_cons_of_pos (by simp)]
        rfl
      · have hne : f a ≠ f k := fun heq => h (hf heq).symm
        rw [List.dlookup_cons_ne _ _ h, List.find?_cons_of_neg (by simpa using hne)]
        exact ih

theorem keyedView_id (row : V → R) (d : Dict K V) :
    keyedView id (fun v => some (row v)) d = fun k => (d.lookup k).map row := by
  funext k
  have h := keyedView_apply (g := fun v => some (row v)) Function.injective_id d k
  rw [id_eq] at h
  rw [h, Option.map_eq_bind]
  rfl

omit [DecidableEq K] in
theorem keyedView_of_forall_ne (d : Dict K V) {k' : K'} (h : ∀ k, f k ≠ k') :
    keyedView f g d k' = none := by
  have hfind : d.entries.find? (fun e => decide (f e.1 = k')) = none := by
    rw [List.find?_eq_none]
    intro e _ he
    exact h e.1 (of_decide_eq_true he)
  unfold keyedView
  rw [hfind]
  rfl

omit [DecidableEq K] [DecidableEq K'] in
/-- Tables are equal when they agree on and off the range of the key map. -/
private theorem table_ext_of_range {t t' : Table K' R} (hon : ∀ k, t (f k) = t' (f k))
    (hoff : ∀ k', (∀ k, f k ≠ k') → t k' = t' k') : t = t' := by
  funext k'
  by_cases h : ∃ k, f k = k'
  · obtain ⟨k, rfl⟩ := h
    exact hon k
  · exact hoff k' (fun k hk => h ⟨k, hk⟩)

/-- What changes at one key is seen at its image. -/
theorem keyedView_update (hf : Function.Injective f) {d d' : Dict K V} {k : K} {v : Option V}
    (hlookup : ∀ k₁, d'.lookup k₁ = if k₁ = k then v else d.lookup k₁) :
    keyedView f g d' = Function.update (keyedView f g d) (f k) (v.bind g) := by
  apply table_ext_of_range (f := f)
  · intro k₁
    rw [keyedView_apply hf, hlookup]
    by_cases h : k₁ = k
    · subst h
      rw [if_pos rfl, Function.update_self]
    · rw [if_neg h, Function.update_of_ne (fun heq => h (hf heq)), keyedView_apply hf]
  · intro k' hk'
    rw [keyedView_of_forall_ne _ hk', Function.update_of_ne (fun heq => hk' k heq.symm),
      keyedView_of_forall_ne _ hk']

theorem keyedView_insert (hf : Function.Injective f) (d : Dict K V) (k : K) (v : V) :
    keyedView f g (d.insert k v) = Function.update (keyedView f g d) (f k) (g v) :=
  keyedView_update hf fun k₁ => Dict.lookup_insert_ite k k₁ v d

theorem keyedView_erase (hf : Function.Injective f) (d : Dict K V) (k : K) :
    keyedView f g (d.erase k) = Function.update (keyedView f g d) (f k) none :=
  keyedView_update hf fun k₁ => Dict.lookup_erase_ite k k₁ d

theorem keyedView_eq_some_iff (hf : Function.Injective f) (d : Dict K V) (k' : K') (r : R) :
    keyedView f g d k' = some r ↔ ∃ k v, d.lookup k = some v ∧ f k = k' ∧ g v = some r := by
  constructor
  · intro h
    by_cases hk : ∃ k, f k = k'
    · obtain ⟨k, rfl⟩ := hk
      rw [keyedView_apply hf, Option.bind_eq_some_iff] at h
      obtain ⟨v, hv, hr⟩ := h
      exact ⟨k, v, hv, rfl, hr⟩
    · rw [keyedView_of_forall_ne d (fun k hk' => hk ⟨k, hk'⟩)] at h
      cases h
  · rintro ⟨k, v, hv, rfl, hr⟩
    rw [keyedView_apply hf, hv]
    exact hr

end View

section Rows

theorem Dict.mem_of_lookup_insertAll {rows : List (Sigma fun _ : K => V)} {k : K} {v : V}
    (h : (Dict.insertAll rows ∅).lookup k = some v) : ⟨k, v⟩ ∈ rows := by
  induction rows using List.reverseRecOn with
  | nil => simp [Dict.insertAll] at h
  | append_singleton rows e ih =>
      have hstep : Dict.insertAll (rows ++ [e]) ∅ = (Dict.insertAll rows ∅).insert e.1 e.2 := by
        simp [Dict.insertAll]
      rw [hstep, Dict.lookup_insert_ite] at h
      rw [List.mem_append]
      split_ifs at h with hk
      · rw [Option.some.injEq] at h
        subst hk h
        exact Or.inr (List.mem_singleton.mpr rfl)
      · exact Or.inl (ih h)

theorem Dict.isSome_lookup_insertAll {rows : List (Sigma fun _ : K => V)} {k : K} {v : V}
    (h : ⟨k, v⟩ ∈ rows) : ((Dict.insertAll rows ∅).lookup k).isSome := by
  induction rows using List.reverseRecOn with
  | nil => cases h
  | append_singleton rows e ih =>
      have hstep : Dict.insertAll (rows ++ [e]) ∅ = (Dict.insertAll rows ∅).insert e.1 e.2 := by
        simp [Dict.insertAll]
      rw [hstep, Dict.lookup_insert_ite]
      split_ifs with hk
      · rfl
      · rw [List.mem_append, List.mem_singleton] at h
        rcases h with h | h
        · exact ih h
        · exact absurd (congrArg Sigma.fst h) hk

/-- The write set that stores a list of rows, later ones over earlier ones. -/
def TableWrites.ofRows (rows : List (Sigma fun _ : K => V)) : TableWrites K V where
  store := Dict.insertAll rows ∅
  delete := ∅
  disjoint := fun k _ => AList.notMem_empty k

/-- Rows that are exactly the entries of a table recreate it from an empty one. -/
theorem TableWrites.apply_ofRows {rows : List (Sigma fun _ : K => V)} {t : Table K V}
    (h : ∀ k v, ⟨k, v⟩ ∈ rows ↔ t k = some v) :
    (TableWrites.ofRows rows).apply (fun _ => none) = t := by
  funext k
  have happly : (TableWrites.ofRows rows).apply (fun _ => none) k =
      (Dict.insertAll rows ∅).lookup k := by
    unfold TableWrites.apply TableWrites.ofRows
    cases (Dict.insertAll rows ∅).lookup k with
    | none => simp
    | some v => rfl
  rw [happly]
  apply Option.ext
  intro v
  constructor
  · intro hv
    exact (h k v).mp (Dict.mem_of_lookup_insertAll hv)
  · intro hv
    obtain ⟨v', hv'⟩ := Option.isSome_iff_exists.mp
      (Dict.isSome_lookup_insertAll ((h k v).mpr hv))
    have heq : t k = some v' := (h k v').mp (Dict.mem_of_lookup_insertAll hv')
    rw [hv', ← heq, hv]

theorem TableWrites.apply_ofRows_entries {f : K → K'} (hf : Function.Injective f)
    (d : Dict K V) (key : K → V → K') (row : V → R)
    (hkey : ∀ k v, d.lookup k = some v → key k v = f k) :
    (TableWrites.ofRows (d.entries.map fun e => ⟨key e.1 e.2, row e.2⟩)).apply (fun _ => none) =
      keyedView f (fun v => some (row v)) d := by
  apply TableWrites.apply_ofRows
  intro k' r
  rw [keyedView_eq_some_iff hf, List.mem_map]
  constructor
  · rintro ⟨⟨k, v⟩, he, heq⟩
    have hv : d.lookup k = some v := Dict.mem_entries_iff.mp he
    obtain ⟨hk, hr⟩ := Sigma.mk.inj heq
    refine ⟨k, v, hv, ?_, congrArg some (eq_of_heq hr)⟩
    rw [← hkey k v hv]
    exact hk
  · rintro ⟨k, v, hv, hk, hr⟩
    refine ⟨⟨k, v⟩, Dict.mem_entries_iff.mpr hv, ?_⟩
    rw [Option.some.injEq] at hr
    subst hk hr
    simp [hkey k v hv]

end Rows

end Lib
