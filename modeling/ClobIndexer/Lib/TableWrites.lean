import ClobIndexer.Lib.Dict
/-!
# Row-level write sets

A write set collects the rows of one table to store and the keys to delete.
It is applied as one batch, all deletes before all stores.  The two key sets
are kept disjoint by construction, which is what makes the batch equal to the
individual writes performed one by one (`apply_put`, `apply_remove`) and the
merge of two sets equal to applying them in turn (`apply_merge`).
-/

namespace Lib

abbrev Table (K V : Type) := K → Option V

structure TableWrites (K V : Type) where
  store : Dict K V
  delete : KeySet K
  disjoint : ∀ k ∈ store, k ∉ delete

namespace TableWrites

variable {K V : Type} [DecidableEq K]

omit [DecidableEq K] in
@[ext] theorem ext {a b : TableWrites K V} (hs : a.store = b.store)
    (hd : a.delete = b.delete) : a = b := by
  cases a
  cases b
  cases hs
  cases hd
  rfl

instance [DecidableEq V] : DecidableEq (TableWrites K V) := fun a b =>
  decidable_of_iff (a.store = b.store ∧ a.delete = b.delete)
    ⟨fun h => TableWrites.ext h.1 h.2, fun h => h ▸ ⟨rfl, rfl⟩⟩

def empty : TableWrites K V where
  store := ∅
  delete := ∅
  disjoint := fun k hk => absurd hk (AList.notMem_empty k)

instance : Inhabited (TableWrites K V) := ⟨empty⟩

def put (k : K) (v : V) (w : TableWrites K V) : TableWrites K V where
  store := w.store.insert k v
  delete := w.delete.erase k
  disjoint := by
    intro k' hk' hdel
    rw [AList.mem_erase] at hdel
    rw [AList.mem_insert] at hk'
    rcases hk' with rfl | hk'
    · exact hdel.1 rfl
    · exact w.disjoint k' hk' hdel.2

def remove (k : K) (w : TableWrites K V) : TableWrites K V where
  store := w.store.erase k
  delete := w.delete.insert k ()
  disjoint := by
    intro k' hk' hdel
    rw [AList.mem_insert] at hdel
    rw [AList.mem_erase] at hk'
    rcases hdel with rfl | hdel
    · exact hk'.1 rfl
    · exact w.disjoint k' hk'.2 hdel

/-- Fold another set onto this one: its rows are put, its keys removed. -/
def merge (w other : TableWrites K V) : TableWrites K V :=
  let stored := other.store.entries.foldl (fun w e => w.put e.1 e.2) w
  other.delete.entries.foldl (fun w e => w.remove e.1) stored

/-- Apply the batch to a table: deletes, then stores. -/
def apply (w : TableWrites K V) (t : Table K V) : Table K V := fun k =>
  match w.store.lookup k with
  | some v => some v
  | none => if k ∈ w.delete then none else t k

def Touches (w : TableWrites K V) (k : K) : Prop := k ∈ w.store ∨ k ∈ w.delete

instance (w : TableWrites K V) (k : K) : Decidable (w.Touches k) :=
  inferInstanceAs (Decidable (k ∈ w.store ∨ k ∈ w.delete))

@[simp] theorem apply_empty (t : Table K V) : (empty : TableWrites K V).apply t = t := by
  funext k
  have hk : k ∉ (∅ : KeySet K) := AList.notMem_empty k
  simp [apply, empty]

theorem apply_put (k : K) (v : V) (w : TableWrites K V) (t : Table K V) :
    (w.put k v).apply t = Function.update (w.apply t) k (some v) := by
  funext k'
  by_cases h : k' = k
  · subst h
    simp [apply, put]
  · rw [Function.update_of_ne h]
    simp [apply, put, h]

theorem apply_remove (k : K) (w : TableWrites K V) (t : Table K V) :
    (w.remove k).apply t = Function.update (w.apply t) k none := by
  funext k'
  by_cases h : k' = k
  · subst h
    simp [apply, remove]
  · rw [Function.update_of_ne h]
    simp [apply, remove, h]

theorem apply_foldl_put (es : List (Sigma fun _ : K => V)) (w : TableWrites K V)
    (t : Table K V) (hes : es.NodupKeys) (k : K) :
    (es.foldl (fun w e => w.put e.1 e.2) w).apply t k =
      (es.dlookup k).or (w.apply t k) := by
  induction es generalizing w with
  | nil => rfl
  | cons e es ih =>
      obtain ⟨a, b⟩ := e
      rw [List.nodupKeys_cons] at hes
      rw [List.foldl_cons, ih _ hes.2, apply_put]
      by_cases h : k = a
      · subst h
        rw [Function.update_self, List.dlookup_cons_eq, List.dlookup_eq_none.mpr hes.1]
        rfl
      · rw [Function.update_of_ne h, List.dlookup_cons_ne _ _ h]

theorem apply_foldl_remove (es : List (Sigma fun _ : K => Unit)) (w : TableWrites K V)
    (t : Table K V) (k : K) :
    (es.foldl (fun w e => w.remove e.1) w).apply t k =
      if k ∈ es.keys then none else w.apply t k := by
  induction es generalizing w with
  | nil => rfl
  | cons e es ih =>
      rw [List.foldl_cons, ih, apply_remove, List.keys_cons]
      by_cases h : k = e.1
      · subst h
        simp
      · simp [h]

/-- Merging is applying in turn. -/
theorem apply_merge (w other : TableWrites K V) (t : Table K V) :
    (w.merge other).apply t = other.apply (w.apply t) := by
  funext k
  have hdel : k ∈ other.delete.entries.keys ↔ k ∈ other.delete := Iff.rfl
  unfold merge
  rw [apply_foldl_remove, apply_foldl_put _ _ _ other.store.nodupKeys]
  cases hs : other.store.lookup k with
  | none =>
      have hd : List.dlookup k other.store.entries = none := hs
      rw [hd, Option.none_or]
      by_cases hk : k ∈ other.delete
      · rw [if_pos (hdel.mpr hk)]
        simp [apply, hs, hk]
      · rw [if_neg (fun h => hk (hdel.mp h))]
        simp [apply, hs, hk]
  | some v =>
      have hmem : k ∈ other.store := Dict.mem_iff_lookup.mpr ⟨v, hs⟩
      have hd : List.dlookup k other.store.entries = some v := hs
      rw [if_neg (fun h => other.disjoint k hmem (hdel.mp h)), hd, Option.some_or]
      simp [apply, hs]

omit [DecidableEq K] in
theorem not_touches_empty (k : K) : ¬(empty : TableWrites K V).Touches k := by
  rintro (h | h)
  · exact AList.notMem_empty k h
  · exact AList.notMem_empty k h

theorem touches_put (k k' : K) (v : V) (w : TableWrites K V) :
    (w.put k v).Touches k' ↔ w.Touches k' ∨ k' = k := by
  unfold Touches put
  rw [AList.mem_insert, AList.mem_erase]
  by_cases h : k' = k <;> simp [h]

theorem touches_remove (k k' : K) (w : TableWrites K V) :
    (w.remove k).Touches k' ↔ w.Touches k' ∨ k' = k := by
  unfold Touches remove
  rw [AList.mem_insert, AList.mem_erase]
  by_cases h : k' = k <;> simp [h]

private theorem touches_foldl_put (es : List (Sigma fun _ : K => V)) (w : TableWrites K V)
    (k : K) :
    (es.foldl (fun w e => w.put e.1 e.2) w).Touches k ↔ w.Touches k ∨ k ∈ es.keys := by
  induction es generalizing w with
  | nil => simp
  | cons e es ih => rw [List.foldl_cons, ih, touches_put, List.keys_cons, List.mem_cons, or_assoc]

private theorem touches_foldl_remove (es : List (Sigma fun _ : K => Unit)) (w : TableWrites K V)
    (k : K) :
    (es.foldl (fun w e => w.remove e.1) w).Touches k ↔ w.Touches k ∨ k ∈ es.keys := by
  induction es generalizing w with
  | nil => simp
  | cons e es ih =>
      rw [List.foldl_cons, ih, touches_remove, List.keys_cons, List.mem_cons, or_assoc]

theorem touches_merge (w other : TableWrites K V) (k : K) :
    (w.merge other).Touches k ↔ w.Touches k ∨ other.Touches k := by
  unfold merge
  rw [touches_foldl_remove, touches_foldl_put, or_assoc]
  rfl

def Within (S : Set K) (w : TableWrites K V) : Prop := ∀ k, w.Touches k → k ∈ S

omit [DecidableEq K] in
theorem within_empty (S : Set K) : (empty : TableWrites K V).Within S :=
  fun k h => absurd h (not_touches_empty k)

theorem Within.put {S : Set K} {w : TableWrites K V} (h : w.Within S) {k : K} (hk : k ∈ S)
    (v : V) : (w.put k v).Within S := by
  intro k' htouches
  rcases (touches_put k k' v w).mp htouches with hold | hnew
  · exact h k' hold
  · exact hnew ▸ hk

theorem Within.remove {S : Set K} {w : TableWrites K V} (h : w.Within S) {k : K} (hk : k ∈ S) :
    (w.remove k).Within S := by
  intro k' htouches
  rcases (touches_remove k k' w).mp htouches with hold | hnew
  · exact h k' hold
  · exact hnew ▸ hk

theorem apply_of_not_touches {w : TableWrites K V} {k : K} (h : ¬w.Touches k)
    (t : Table K V) : w.apply t k = t k := by
  rw [Touches, not_or] at h
  simp [apply, AList.lookup_eq_none.mpr h.1, h.2]

theorem apply_of_touches {w : TableWrites K V} {k : K} (h : w.Touches k)
    (t t' : Table K V) : w.apply t k = w.apply t' k := by
  unfold apply
  cases hs : w.store.lookup k with
  | some v => rfl
  | none =>
      rcases h with h | h
      · exact absurd h (AList.lookup_eq_none.mp hs)
      · simp [h]

/-- A batch brings two tables together exactly when it touches every key on
which they differ. -/
theorem apply_eq_apply_iff (w : TableWrites K V) (t t' : Table K V) :
    w.apply t = w.apply t' ↔ ∀ k, t k = t' k ∨ w.Touches k := by
  constructor
  · intro h k
    by_cases hk : w.Touches k
    · exact Or.inr hk
    · left
      rw [← apply_of_not_touches hk t, ← apply_of_not_touches hk t', h]
  · intro h
    funext k
    by_cases hk : w.Touches k
    · exact apply_of_touches hk t t'
    · rw [apply_of_not_touches hk, apply_of_not_touches hk]
      exact (h k).resolve_right hk

/-! ## Clearing a table by the keys that a scan has found -/

def keysFound (t : Table K V) : K → Bool := fun k => (t k).isSome

def deleteFound (found : K → Bool) (t : Table K V) : Table K V := fun k =>
  if found k then none else t k

omit [DecidableEq K] in
theorem deleteFound_keysFound (t : Table K V) : deleteFound (keysFound t) t = fun _ => none := by
  funext k
  unfold deleteFound keysFound
  split_ifs with hk
  · rfl
  · exact Option.not_isSome_iff_eq_none.mp hk

/-- Each row of the table was found, or the batch writes its key. -/
def Covers (w : TableWrites K V) (found : K → Bool) (t : Table K V) : Prop :=
  ∀ k, (t k).isSome → found k = true ∨ w.Touches k

omit [DecidableEq K] in
theorem covers_keysFound (w : TableWrites K V) (t : Table K V) : w.Covers (keysFound t) t :=
  fun _ h => Or.inl h

/-- Clearing the keys found and applying the batch leaves the rows of the batch, and no
others, exactly when each row was found or is written. -/
theorem apply_deleteFound_iff (w : TableWrites K V) (found : K → Bool) (t : Table K V) :
    w.apply (deleteFound found t) = (fun k => w.store.lookup k) ↔ w.Covers found t := by
  rw [funext_iff]
  refine forall_congr' fun k => ?_
  unfold apply deleteFound Touches
  cases hstore : w.store.lookup k with
  | some v =>
      have hmem : k ∈ w.store := Dict.mem_iff_lookup.mpr ⟨v, hstore⟩
      exact iff_of_true rfl fun _ => Or.inr (Or.inl hmem)
  | none =>
      have hnot : k ∉ w.store := AList.lookup_eq_none.mp hstore
      dsimp only
      by_cases hdelete : k ∈ w.delete
      · rw [if_pos hdelete]
        exact iff_of_true rfl fun _ => Or.inr (Or.inr hdelete)
      · rw [if_neg hdelete, or_iff_left (not_or.mpr ⟨hnot, hdelete⟩)]
        by_cases hfound : found k = true
        · rw [if_pos hfound]
          exact iff_of_true rfl fun _ => hfound
        · rw [if_neg hfound]
          constructor
          · intro hrow hsome
            rw [hrow] at hsome
            cases hsome
          · intro h
            exact Option.not_isSome_iff_eq_none.mp fun hsome => hfound (h hsome)

/-! ## What a batch does with a key -/

def entry (w : TableWrites K V) (k : K) : Option (Option V) :=
  match w.store.lookup k with
  | some v => some (some v)
  | none => if k ∈ w.delete then some none else none

theorem entry_of_touches {w : TableWrites K V} {k : K} (h : w.Touches k) (t : Table K V) :
    w.entry k = some (w.apply t k) := by
  unfold entry apply
  cases hs : w.store.lookup k with
  | some v => rfl
  | none =>
      have hk : k ∈ w.delete := h.resolve_left (AList.lookup_eq_none.mp hs)
      simp [hk]

theorem entry_of_not_touches {w : TableWrites K V} {k : K} (h : ¬w.Touches k) :
    w.entry k = none := by
  rw [Touches, not_or] at h
  simp [entry, AList.lookup_eq_none.mpr h.1, h.2]

theorem entry_merge (w other : TableWrites K V) (k : K) :
    (w.merge other).entry k = (other.entry k).or (w.entry k) := by
  have hmerge := touches_merge w other k
  by_cases hother : other.Touches k
  · rw [entry_of_touches (hmerge.mpr (.inr hother)) fun _ => none, apply_merge,
      entry_of_touches hother (w.apply fun _ => none), Option.some_or]
  · rw [entry_of_not_touches hother, Option.none_or]
    by_cases hw : w.Touches k
    · rw [entry_of_touches (hmerge.mpr (.inl hw)) fun _ => none, apply_merge,
        apply_of_not_touches hother, entry_of_touches hw]
    · rw [entry_of_not_touches hw, entry_of_not_touches (by rw [hmerge, not_or]; exact ⟨hw, hother⟩)]

/-- Sets that hold the same rows and deletions. -/
structure Same (a b : TableWrites K V) : Prop where
  store : ∀ k, a.store.lookup k = b.store.lookup k
  delete : ∀ k, k ∈ a.delete ↔ k ∈ b.delete

theorem same_of_entry {a b : TableWrites K V} (h : ∀ k, a.entry k = b.entry k) : Same a b := by
  have hstore : ∀ (w : TableWrites K V) k, w.store.lookup k = (w.entry k).join := by
    intro w k
    unfold entry
    cases w.store.lookup k with
    | some v => rfl
    | none => dsimp only; split_ifs <;> rfl
  have hdelete : ∀ (w : TableWrites K V) k, k ∈ w.delete ↔ w.entry k = some none := by
    intro w k
    unfold entry
    cases hs : w.store.lookup k with
    | some v =>
        have hk : k ∉ w.delete := w.disjoint k (Dict.mem_iff_lookup.mpr ⟨v, hs⟩)
        simp [hk]
    | none => by_cases hk : k ∈ w.delete <;> simp [hk]
  constructor
  · intro k
    rw [hstore, hstore, h]
  · intro k
    rw [hdelete, hdelete, h]

/-- Sets that touch different keys are merged in any order. -/
theorem same_foldl_merge {O : Type} (ws : O → TableWrites K V) {l l' : List O}
    (hdisjoint : ∀ o ∈ l, ∀ p ∈ l, o ≠ p → ∀ k, (ws o).Touches k → ¬(ws p).Touches k)
    (w : TableWrites K V) (hperm : l.Perm l') :
    Same (l.foldl (fun w o => w.merge (ws o)) w) (l'.foldl (fun w o => w.merge (ws o)) w) := by
  have hentry : ∀ l : List O, (l.foldl (fun w o => w.merge (ws o)) w).entry =
      l.foldl (fun e o k => ((ws o).entry k).or (e k)) w.entry := by
    intro l
    refine (List.foldl_hom entry ?_).symm
    intro w o
    funext k
    exact (entry_merge w (ws o) k).symm
  apply same_of_entry
  intro k
  rw [hentry, hentry]
  refine congrFun (hperm.foldl_eq' ?_ w.entry) k
  intro o hmemo p hmemp e
  funext k
  dsimp only
  by_cases hop : o = p
  · rw [hop]
  · by_cases ho : (ws o).Touches k
    · rw [entry_of_not_touches (hdisjoint o hmemo p hmemp hop k ho), Option.none_or,
        Option.none_or]
    · rw [entry_of_not_touches ho, Option.none_or, Option.none_or]

theorem Within.same_foldl_merge {O : Type} {ws : O → TableWrites K V} {S : O → Set K}
    (hws : ∀ o, (ws o).Within (S o)) (hS : ∀ o p k, k ∈ S o → k ∈ S p → o = p) {l l' : List O}
    (w : TableWrites K V) (hperm : l.Perm l') :
    Same (l.foldl (fun w o => w.merge (ws o)) w) (l'.foldl (fun w o => w.merge (ws o)) w) := by
  apply TableWrites.same_foldl_merge ws _ w hperm
  intro o _ p _ hne k ho hp
  exact hne (hS o p k (hws o k ho) (hws p k hp))

end TableWrites

end Lib
