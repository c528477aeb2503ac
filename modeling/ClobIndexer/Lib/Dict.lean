import Mathlib.Data.List.AList
import Mathlib.Algebra.BigOperators.Group.List.Basic
import Mathlib.Algebra.GroupWithZero.Nat
/-!
# Finite dictionaries

Hash maps, ordered maps and key sets over Mathlib's `AList`: an association
list with distinct keys.  The entry order stands for the unspecified iteration
order of a hash map, so a statement about every dictionary covers every order.
The lemmas are in `if` form, the shape in which `simp` and `split_ifs` consume
point updates.
-/

namespace Lib

/-- A finite map from `K` to `V`. -/
abbrev Dict (K V : Type) := AList fun _ : K => V

abbrev KeySet (K : Type) := Dict K Unit

namespace Dict

variable {K V W : Type} [DecidableEq K]

theorem lookup_insert_ite (k k' : K) (v : V) (d : Dict K V) :
    AList.lookup k' (d.insert k v) = if k' = k then some v else d.lookup k' := by
  split_ifs with h
  · subst h
    exact AList.lookup_insert d
  · exact AList.lookup_insert_ne h

theorem lookup_erase_ite (k k' : K) (d : Dict K V) :
    AList.lookup k' (d.erase k) = if k' = k then none else d.lookup k' := by
  split_ifs with h
  · subst h
    exact AList.lookup_erase k' d
  · exact AList.lookup_erase_ne h

theorem mem_iff_lookup {k : K} {d : Dict K V} : k ∈ d ↔ ∃ v, d.lookup k = some v := by
  rw [← AList.lookup_isSome, Option.isSome_iff_exists]

theorem mem_entries_iff {k : K} {v : V} {d : Dict K V} :
    (⟨k, v⟩ : Sigma fun _ : K => V) ∈ d.entries ↔ d.lookup k = some v := by
  exact (AList.mem_lookup_iff).symm

theorem lookup_orInsert (k k' : K) (v : V) (d : Dict K V) :
    AList.lookup k' (if k ∈ d then d else d.insert k v) =
      (d.lookup k').or (if k' = k then some v else none) := by
  split_ifs with hmem hk hk
  · subst hk
    obtain ⟨w, hw⟩ := mem_iff_lookup.mp hmem
    rw [hw, Option.some_or]
  · rw [Option.or_none]
  · subst hk
    rw [AList.lookup_insert, AList.lookup_eq_none.mpr hmem, Option.none_or]
  · rw [AList.lookup_insert_ne hk, Option.or_none]

/-- Rewrite every value, keeping keys and order. -/
def mapVal (f : V → W) (d : Dict K V) : Dict K W where
  entries := d.entries.map fun e => ⟨e.1, f e.2⟩
  nodupKeys := List.NodupKeys.map₂ (fun _ => f) d.entries d.nodupKeys

@[simp] theorem lookup_mapVal (f : V → W) (d : Dict K V) (k : K) :
    (mapVal f d).lookup k = (d.lookup k).map f := by
  obtain ⟨l, hl⟩ := d
  change List.dlookup k (l.map fun e => (⟨e.1, f e.2⟩ : Sigma fun _ : K => W)) =
    (List.dlookup k l).map f
  clear hl
  induction l with
  | nil => rfl
  | cons e l ih =>
      obtain ⟨a, b⟩ := e
      rw [List.map_cons]
      by_cases h : k = a
      · subst h
        rw [List.dlookup_cons_eq, List.dlookup_cons_eq, Option.map_some]
      · rw [List.dlookup_cons_ne _ _ h, List.dlookup_cons_ne _ _ h]
        exact ih

@[simp] theorem mem_mapVal {f : V → W} {d : Dict K V} {k : K} : k ∈ mapVal f d ↔ k ∈ d := by
  rw [← AList.lookup_isSome, ← AList.lookup_isSome, lookup_mapVal, Option.isSome_map]

omit [DecidableEq K] in
theorem entries_mapVal (f : V → W) (d : Dict K V) :
    (mapVal f d).entries = d.entries.map fun e => (⟨e.1, f e.2⟩ : Sigma fun _ : K => W) := rfl

theorem mapVal_insert (f : V → W) (k : K) (v : V) (d : Dict K V) :
    mapVal f (d.insert k v) = (mapVal f d).insert k (f v) := by
  apply AList.ext
  rw [entries_mapVal, AList.entries_insert, AList.entries_insert, entries_mapVal, List.map_cons]
  unfold List.kerase
  rw [List.eraseP_map]
  rfl

def retain (p : K → V → Bool) (d : Dict K V) : Dict K V where
  entries := d.entries.filter fun e => p e.1 e.2
  nodupKeys := d.nodupKeys.sublist List.filter_sublist

theorem lookup_retain (p : K → V → Bool) (d : Dict K V) (k : K) :
    (retain p d).lookup k = (d.lookup k).filter (p k) := by
  apply Option.ext
  intro v
  rw [← mem_entries_iff]
  change _ ∈ d.entries.filter _ ↔ _
  rw [List.mem_filter, mem_entries_iff, Option.filter_eq_some_iff]

theorem length_keys_insert_le (k : K) (v : V) (d : Dict K V) :
    (d.insert k v).keys.length ≤ d.keys.length + 1 := by
  rw [AList.keys_insert, List.length_cons]
  have herase : (d.keys.erase k).length ≤ d.keys.length := List.length_erase_le
  omega

omit [DecidableEq K] in
theorem length_keys_retain_le (p : K → V → Bool) (d : Dict K V) :
    (retain p d).keys.length ≤ d.keys.length := by
  change ((d.entries.filter _).map Sigma.fst).length ≤ (d.entries.map Sigma.fst).length
  rw [List.length_map, List.length_map]
  exact List.length_filter_le _ _

/-- Insert a list of entries, later ones overwriting earlier ones. -/
def insertAll (es : List (Sigma fun _ : K => V)) (d : Dict K V) : Dict K V :=
  es.foldl (fun d e => d.insert e.1 e.2) d

theorem lookup_insertAll {es : List (Sigma fun _ : K => V)} (hes : es.NodupKeys)
    (d : Dict K V) (k : K) :
    (insertAll es d).lookup k = (es.dlookup k).or (d.lookup k) := by
  induction es generalizing d with
  | nil => rfl
  | cons e es ih =>
      rw [List.nodupKeys_cons] at hes
      change (insertAll es (d.insert e.1 e.2)).lookup k = _
      rw [ih hes.2, lookup_insert_ite]
      obtain ⟨a, b⟩ := e
      by_cases h : k = a
      · subst h
        rw [if_pos rfl, List.dlookup_cons_eq, List.dlookup_eq_none.mpr hes.1]
        rfl
      · rw [if_neg h, List.dlookup_cons_ne _ _ h]

/-! ## Sums over the entries -/

def sumOf (f : K → V → Nat) (d : Dict K V) : Nat :=
  (d.entries.map fun e => f e.1 e.2).sum

omit [DecidableEq K] in
@[simp] theorem sumOf_empty (f : K → V → Nat) : sumOf f (∅ : Dict K V) = 0 := rfl

theorem sumOf_erase (f : K → V → Nat) (d : Dict K V) {k : K} {v : V}
    (h : d.lookup k = some v) : f k v + sumOf f (d.erase k) = sumOf f d := by
  obtain ⟨l, hl⟩ := d
  change f k v + ((List.kerase k l).map fun e => f e.1 e.2).sum =
    (l.map fun e => f e.1 e.2).sum
  change List.dlookup k l = some v at h
  clear hl
  induction l with
  | nil => simp at h
  | cons e l ih =>
      obtain ⟨a, b⟩ := e
      by_cases hk : k = a
      · subst hk
        rw [List.dlookup_cons_eq, Option.some.injEq] at h
        subst h
        have hhead : List.kerase k (⟨k, b⟩ :: l : List (Sigma fun _ : K => V)) = l :=
          List.kerase_cons_eq rfl
        rw [hhead, List.map_cons, List.sum_cons]
      · rw [List.dlookup_cons_ne _ _ hk] at h
        rw [List.kerase_cons_ne hk, List.map_cons, List.map_cons, List.sum_cons,
          List.sum_cons, ← ih h]
        omega

theorem sumOf_erase_of_notMem (f : K → V → Nat) (d : Dict K V) {k : K}
    (h : d.lookup k = none) : sumOf f (d.erase k) = sumOf f d := by
  have hk : k ∉ d.entries.keys := AList.lookup_eq_none.mp h
  change ((List.kerase k d.entries).map fun e => f e.1 e.2).sum = _
  rw [List.kerase_of_notMem_keys hk]
  rfl

theorem sumOf_insert (f : K → V → Nat) (d : Dict K V) (k : K) (v : V) :
    sumOf f (d.insert k v) = f k v + sumOf f (d.erase k) := by
  change ((⟨k, v⟩ :: List.kerase k d.entries : List (Sigma fun _ : K => V)).map
    fun e => f e.1 e.2).sum = _
  rw [List.map_cons, List.sum_cons]
  rfl

theorem le_sumOf (f : K → V → Nat) (d : Dict K V) {k : K} {v : V}
    (h : d.lookup k = some v) : f k v ≤ sumOf f d := by
  rw [← sumOf_erase f d h]
  exact Nat.le_add_right _ _

theorem sumOf_congr {f g : K → V → Nat} {d : Dict K V}
    (h : ∀ k v, d.lookup k = some v → f k v = g k v) : sumOf f d = sumOf g d := by
  unfold sumOf
  congr 1
  apply List.map_congr_left
  intro e he
  exact h e.1 e.2 (mem_entries_iff.mp he)

omit [DecidableEq K] in
theorem sumOf_mono {f g : K → V → Nat} (h : ∀ k v, f k v ≤ g k v) (d : Dict K V) :
    sumOf f d ≤ sumOf g d := by
  unfold sumOf
  induction d.entries with
  | nil => exact Nat.le_refl 0
  | cons e l ih => exact Nat.add_le_add (h e.1 e.2) ih

theorem sumOf_eq_zero {f : K → V → Nat} {d : Dict K V}
    (h : ∀ k v, d.lookup k = some v → f k v = 0) : sumOf f d = 0 := by
  rw [sumOf_congr (g := fun _ _ => 0) h]
  unfold sumOf
  rw [List.map_const']
  simp

omit [DecidableEq K] in
theorem sum_filter_values (p : V → Prop) [DecidablePred p] (f : V → Nat) (d : Dict K V) :
    (((d.entries.map Sigma.snd).filter fun v => p v).map f).sum =
      sumOf (fun _ v => if p v then f v else 0) d := by
  unfold sumOf
  induction d.entries with
  | nil => rfl
  | cons e l ih =>
      rw [List.map_cons, List.map_cons, List.sum_cons, ← ih, List.filter_cons]
      by_cases hp : p e.2
      · simp [hp]
      · simp [hp]

/-- Two sums agree when the entries of one dictionary are matched, one to one, by
entries of the other that carry the same summand, and no other entry counts. -/
theorem sumOf_eq_sumOf {K' V' : Type} [DecidableEq K'] (i : K' → K) (f : K → V → Nat)
    (g : K' → V' → Nat) (d : Dict K V) (d' : Dict K' V')
    (hinj : ∀ k ∈ d', ∀ k' ∈ d', i k = i k' → k = k')
    (hmap : ∀ k v, d'.lookup k = some v → ∃ w, d.lookup (i k) = some w ∧ f (i k) w = g k v)
    (hout : ∀ k w, d.lookup k = some w → (∀ k' ∈ d', i k' ≠ k) → f k w = 0) :
    sumOf f d = sumOf g d' := by
  induction d' using AList.insertRec generalizing d with
  | H0 =>
      rw [sumOf_empty]
      exact sumOf_eq_zero fun k w hw => hout k w hw fun k' hk' => absurd hk' (AList.notMem_empty k')
  | IH k v d' hk ih =>
      obtain ⟨w, hw, hfw⟩ := hmap k v (AList.lookup_insert d')
      have hnone : d'.lookup k = none := AList.lookup_eq_none.mpr hk
      rw [sumOf_insert, sumOf_erase_of_notMem g d' hnone, ← sumOf_erase f d hw, hfw]
      congr 1
      have hne : ∀ k' ∈ d', i k' ≠ i k := by
        intro k' hk' heq
        have := hinj k' (AList.mem_insert d' |>.mpr (Or.inr hk')) k
          (AList.mem_insert d' |>.mpr (Or.inl rfl)) heq
        exact hk (this ▸ hk')
      apply ih
      · intro a ha b hb
        exact hinj a (AList.mem_insert d' |>.mpr (Or.inr ha)) b
          (AList.mem_insert d' |>.mpr (Or.inr hb))
      · intro a u hu
        have ha : a ∈ d' := mem_iff_lookup.mpr ⟨u, hu⟩
        have hak : a ≠ k := fun h => hk (h ▸ ha)
        obtain ⟨x, hx, hfx⟩ := hmap a u (by rw [lookup_insert_ite, if_neg hak, hu])
        exact ⟨x, by rw [lookup_erase_ite, if_neg (hne a ha), hx], hfx⟩
      · intro a x hx hnot
        rw [lookup_erase_ite] at hx
        split_ifs at hx with hai
        refine hout a x hx fun k' hk' => ?_
        rcases (AList.mem_insert d').mp hk' with rfl | hk'
        · exact fun h => hai h.symm
        · exact hnot k' hk'

theorem sumOf_eq_of_lookup {f : K → V → Nat} {g : K → W → Nat}
    (d : Dict K V) (d' : Dict K W)
    (h : ∀ k, (d.lookup k).elim 0 (f k) = (d'.lookup k).elim 0 (g k)) : sumOf f d = sumOf g d' := by
  induction d' using AList.insertRec generalizing d with
  | H0 =>
      rw [sumOf_empty]
      apply sumOf_eq_zero
      intro k v hv
      have hk := h k
      rw [hv] at hk
      exact hk
  | IH k w d' hk ih =>
      have hnone : d'.lookup k = none := AList.lookup_eq_none.mpr hk
      rw [sumOf_insert, sumOf_erase_of_notMem g d' hnone]
      have hhere := h k
      rw [AList.lookup_insert] at hhere
      have hrest : ∀ k', k' ≠ k → (d.lookup k').elim 0 (f k') = (d'.lookup k').elim 0 (g k') := by
        intro k' hne
        rw [h k', Dict.lookup_insert_ite, if_neg hne]
      cases hv : d.lookup k with
      | none =>
          rw [hv] at hhere
          change 0 = g k w at hhere
          rw [← hhere, Nat.zero_add]
          apply ih
          intro k'
          by_cases hne : k' = k
          · rw [hne, hv, hnone]
            rfl
          · exact hrest k' hne
      | some v =>
          rw [hv] at hhere
          change f k v = g k w at hhere
          rw [← sumOf_erase f d hv, hhere]
          congr 1
          apply ih
          intro k'
          rw [lookup_erase_ite]
          split_ifs with hne
          · rw [hne, hnone]
            rfl
          · exact hrest k' hne

/-! ## Listing what meets a condition -/

theorem filterMap_erase {B : Type} (F : (Sigma fun _ : K => V) → Option B) (d : Dict K V) {k : K}
    (h : ∀ v, d.lookup k = some v → F ⟨k, v⟩ = none) :
    (d.erase k).entries.filterMap F = d.entries.filterMap F := by
  obtain ⟨l, hl⟩ := d
  change (List.kerase k l).filterMap F = l.filterMap F
  change ∀ v, List.dlookup k l = some v → F ⟨k, v⟩ = none at h
  clear hl
  induction l with
  | nil => rfl
  | cons e l ih =>
      obtain ⟨a, b⟩ := e
      by_cases hk : k = a
      · subst hk
        have hnone : F ⟨k, b⟩ = none := h b (List.dlookup_cons_eq _ _ _)
        have hhead : List.kerase k (⟨k, b⟩ :: l : List (Sigma fun _ : K => V)) = l :=
          List.kerase_cons_eq rfl
        rw [hhead, List.filterMap_cons, hnone]
      · rw [List.kerase_cons_ne hk, List.filterMap_cons, List.filterMap_cons, ih]
        intro v hv
        exact h v (by rw [List.dlookup_cons_ne _ _ hk, hv])

theorem filterMap_insert {B : Type} (F : (Sigma fun _ : K => V) → Option B) (d : Dict K V) {k : K}
    {v : V} (hnew : F ⟨k, v⟩ = none) (hold : ∀ w, d.lookup k = some w → F ⟨k, w⟩ = none) :
    (d.insert k v).entries.filterMap F = d.entries.filterMap F := by
  change (⟨k, v⟩ :: List.kerase k d.entries : List (Sigma fun _ : K => V)).filterMap F = _
  rw [List.filterMap_cons, hnew]
  exact filterMap_erase F d hold

end Dict

end Lib
