import ClobIndexer.Lib.Dict
import Mathlib.Data.List.Induction
import Mathlib.Data.Set.Insert
/-!
# Loading rows

A store that is filled row by row is the same for every order of the rows, when what the
rows read so far leave in it is told from the set of them.  For a dictionary this is the
set of the entries that it holds.
-/

namespace Lib

/-- What holds of the rows read so far, whichever they are, holds of all of them in the end. -/
theorem foldl_rows {S R : Type} {f : S → R → S} {P : Set R → S → Prop} {U : Set R}
    (hstep : ∀ done row s, done ⊆ U → row ∈ U → P done s → P (insert row done) (f s row))
    (rows : List R) (hrows : ∀ row ∈ rows, row ∈ U) {s : S} (hs : P ∅ s) :
    P {row | row ∈ rows} (rows.foldl f s) := by
  induction rows using List.reverseRecOn with
  | nil => simpa using hs
  | append_singleton rows row ih =>
      have hread : ∀ r ∈ rows, r ∈ U := fun r hr => hrows r (List.mem_append_left _ hr)
      have hset : {r | r ∈ rows ++ [row]} = insert row {r | r ∈ rows} := by
        ext r
        simp [or_comm]
      rw [List.foldl_append, hset]
      exact hstep _ row _ hread (hrows row (by simp)) (ih hread)

namespace Dict

variable {K V R : Type} [DecidableEq K] {d d' : Dict K V} {p q : K → V → Prop}

/-- The dictionary holds exactly these entries. -/
def Holds (d : Dict K V) (p : K → V → Prop) : Prop := ∀ k v, d.lookup k = some v ↔ p k v

theorem holds_empty : Holds (∅ : Dict K V) fun _ _ => False := by
  intro k v
  simp

theorem Holds.congr (h : Holds d p) (hpq : ∀ k v, p k v ↔ q k v) : Holds d q :=
  fun k v => (h k v).trans (hpq k v)

theorem Holds.lookup_eq (h : Holds d p) (h' : Holds d' p) (k : K) : d.lookup k = d'.lookup k := by
  apply Option.ext
  intro v
  rw [h k v, h' k v]

theorem Holds.unique (h : Holds d p) {k : K} {v v' : V} (hv : p k v) (hv' : p k v') : v = v' := by
  rw [← h] at hv hv'
  exact Option.some.inj (hv.symm.trans hv')

theorem Holds.insert (h : Holds d p) {k : K} {v : V} (hk : ∀ v', p k v' → v' = v) :
    Holds (d.insert k v) fun k' v' => k' = k ∧ v' = v ∨ p k' v' := by
  intro k' v'
  rw [lookup_insert_ite]
  split_ifs with heq
  · subst heq
    constructor
    · rintro hv
      cases hv
      exact .inl ⟨rfl, rfl⟩
    · rintro (⟨-, rfl⟩ | hp)
      · rfl
      · rw [hk v' hp]
  · rw [h k' v']
    exact ⟨.inr, fun hor => hor.resolve_left fun hand => heq hand.1⟩

/-! ## One entry a row -/

def Entries (key : R → K) (val : R → V) (rows : Set R) (k : K) (v : V) : Prop :=
  ∃ row ∈ rows, key row = k ∧ val row = v

variable {key : R → K} {val : R → V} {rows : Set R} {row : R}

omit [DecidableEq K] in
theorem entries_insert (k : K) (v : V) :
    Entries key val (Insert.insert row rows) k v ↔
      k = key row ∧ v = val row ∨ Entries key val rows k v := by
  unfold Entries
  simp only [Set.mem_insert_iff, or_and_right, exists_or, exists_eq_left]
  rw [eq_comm (a := k), eq_comm (a := v)]

theorem holds_entries_empty : Holds (∅ : Dict K V) (Entries key val ∅) :=
  holds_empty.congr fun k v => by simp [Entries]

theorem Holds.insertRow (h : Holds d (Entries key val rows))
    (hrow : ∀ r ∈ rows, key r = key row → val r = val row) :
    Holds (d.insert (key row) (val row)) (Entries key val (Insert.insert row rows)) := by
  have hk : ∀ v, Entries key val rows (key row) v → v = val row := by
    rintro v ⟨r, hr, hkey, rfl⟩
    exact hrow r hr hkey
  exact (h.insert hk).congr fun k v => (entries_insert k v).symm

/-- A dictionary filled from rows that agree on every key. -/
theorem holds_foldl_insert (rows : List R)
    (hrows : ∀ r ∈ rows, ∀ r' ∈ rows, key r = key r' → val r = val r') :
    Holds (rows.foldl (fun d r => d.insert (key r) (val r)) (∅ : Dict K V))
      (Entries key val {r | r ∈ rows}) := by
  refine foldl_rows (P := fun done d => Holds d (Entries key val done)) (U := {r | r ∈ rows})
    ?_ rows (fun r hr => hr) holds_entries_empty
  intro done row d hdone hrow h
  exact h.insertRow fun r hr => hrows r (hdone hr) row hrow

/-! ## An index over the values of a dictionary -/

section Indexed

variable {I W : Type} [DecidableEq I] {index : Dict K I} {values : Dict I W} {label : W → K}

/-- Where each value is found by its label, and a value is put that no other is mixed up with. -/
theorem Holds.insertIndexed
    (h : Holds index fun k i => ∃ w, values.lookup i = some w ∧ label w = k) {i : I} {w : W}
    (hother : ∀ i' w', values.lookup i' = some w' → label w' = label w → i' = i)
    (hold : ∀ w', values.lookup i = some w' → label w' = label w) :
    Holds (index.insert (label w) i) fun k i' =>
      ∃ w', (values.insert i w).lookup i' = some w' ∧ label w' = k := by
  have hk : ∀ i', (∃ w', values.lookup i' = some w' ∧ label w' = label w) → i' = i := by
    rintro i' ⟨w', hw', hlabel⟩
    exact hother i' w' hw' hlabel
  refine (h.insert hk).congr fun k i' => ?_
  rw [lookup_insert_ite]
  split_ifs with hi
  · subst hi
    constructor
    · rintro (⟨rfl, -⟩ | ⟨w', hw', rfl⟩)
      · exact ⟨w, rfl, rfl⟩
      · exact ⟨w, rfl, (hold w' hw').symm⟩
    · rintro ⟨w', heq, rfl⟩
      cases heq
      exact .inl ⟨rfl, rfl⟩
  · exact ⟨fun hor => hor.resolve_left fun hand => hi hand.2, .inr⟩

theorem Holds.replaceIndexed
    (h : Holds index fun k i => ∃ w, values.lookup i = some w ∧ label w = k) {i : I} {w w' : W}
    (hw : values.lookup i = some w) (hlabel : label w' = label w) :
    Holds index fun k i' => ∃ v, (values.insert i w').lookup i' = some v ∧ label v = k := by
  refine h.congr fun k i' => ?_
  rw [lookup_insert_ite]
  split_ifs with hi
  · subst hi
    rw [hw]
    simp [hlabel]
  · rfl

end Indexed

end Dict

end Lib
