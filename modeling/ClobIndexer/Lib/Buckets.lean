import Mathlib.Data.List.Induction
import Mathlib.Algebra.GroupWithZero.Nat
import Mathlib.Order.Lattice
/-!
# Bucketed streams

A stream of items falls into buckets, and the items of each bucket are folded into one
value.  A fold in one pass keeps one bucket open; an item of another bucket or a tick
of the clock closes it.  Where the buckets come in order, the values are those of the
batch fold, one for each bucket with an item, and no bucket stays open behind the clock.
-/

namespace Lib

/-- How the items of a bucket are folded. -/
structure BucketFold (K T A : Type) where
  first : K → T → A
  next : A → T → A

variable {K T A : Type}

namespace BucketFold

variable (f : BucketFold K T A)

def batch (k : K) : List T → Option A
  | [] => none
  | t :: ts => some (ts.foldl f.next (f.first k t))

theorem batch_append_singleton (k : K) (ts : List T) (t : T) :
    f.batch k (ts ++ [t]) =
      some (match f.batch k ts with
        | none => f.first k t
        | some a => f.next a t) := by
  cases ts with
  | nil => rfl
  | cons t' ts => rw [List.cons_append, batch, List.foldl_append]; rfl

end BucketFold

/-- An item of a bucket, or a tick of the clock in a bucket. -/
inductive BucketStep (K T : Type) where
  | item (k : K) (t : T)
  | tick (k : K)

namespace BucketStep

def bucket : BucketStep K T → K
  | item k _ => k
  | tick k => k

variable [DecidableEq K]

def itemIn (k : K) : BucketStep K T → Option T
  | item k' t => if k' = k then some t else none
  | tick _ => none

def itemsIn (k : K) (steps : List (BucketStep K T)) : List T := steps.filterMap (itemIn k)

end BucketStep

/-- The open bucket and the closed ones, with their values. -/
structure Buckets (K A : Type) where
  forming : Option (K × A) := none
  closed : List (K × A) := []

namespace Buckets

def all (b : Buckets K A) : List (K × A) := b.closed ++ b.forming.toList

def closeIf (p : K → Prop) [DecidablePred p] (b : Buckets K A) : Buckets K A :=
  match b.forming with
  | none => b
  | some e => if p e.1 then ⟨none, b.closed ++ [e]⟩ else b

def grow (f : BucketFold K T A) (k : K) (t : T) : Option (K × A) → A
  | none => f.first k t
  | some e => f.next e.2 t

variable {f : BucketFold K T A} {b : Buckets K A}

theorem all_closeIf (p : K → Prop) [DecidablePred p] : (b.closeIf p).all = b.all := by
  unfold closeIf
  cases hforming : b.forming with
  | none => rfl
  | some e =>
      dsimp only
      split_ifs
      · simp [all, hforming]
      · rfl

theorem forming_closeIf {p : K → Prop} [DecidablePred p] {e : K × A}
    (h : e ∈ (b.closeIf p).forming) : e ∈ b.forming ∧ ¬p e.1 := by
  unfold closeIf at h
  cases hforming : b.forming with
  | none =>
      rw [hforming] at h
      dsimp only at h
      rw [hforming] at h
      cases h
  | some e' =>
      rw [hforming] at h
      dsimp only at h
      split_ifs at h with hp
      · cases h
      · rw [hforming, Option.mem_some_iff] at h
        subst h
        exact ⟨rfl, hp⟩

theorem closed_closeIf {p : K → Prop} [DecidablePred p] {e : K × A}
    (h : e ∈ (b.closeIf p).closed) : e ∈ b.closed ∨ e ∈ b.forming ∧ p e.1 := by
  unfold closeIf at h
  cases hforming : b.forming with
  | none =>
      rw [hforming] at h
      exact .inl h
  | some e' =>
      rw [hforming] at h
      dsimp only at h
      split_ifs at h with hp
      · rw [List.mem_append, List.mem_singleton] at h
        rcases h with hold | rfl
        · exact .inl hold
        · exact .inr ⟨rfl, hp⟩
      · exact .inl h

theorem closed_subset_closeIf {p : K → Prop} [DecidablePred p] :
    b.closed ⊆ (b.closeIf p).closed := by
  unfold closeIf
  cases hforming : b.forming with
  | none => exact List.Subset.refl _
  | some e =>
      dsimp only
      split_ifs
      · exact List.subset_append_left _ _
      · exact List.Subset.refl _

/-- Each bucket was opened once, and none of the closed ones is open. -/
def Distinct (b : Buckets K A) : Prop := (b.all.map Prod.fst).Nodup

theorem distinct_closeIf (p : K → Prop) [DecidablePred p] : (b.closeIf p).Distinct ↔ b.Distinct := by
  unfold Distinct
  rw [all_closeIf]

theorem Distinct.closed (h : b.Distinct) : (b.closed.map Prod.fst).Nodup := by
  unfold Distinct all at h
  rw [List.map_append] at h
  exact (List.nodup_append.mp h).1

variable [LinearOrder K]

def step (f : BucketFold K T A) (b : Buckets K A) : BucketStep K T → Buckets K A
  | .item k t =>
      let b := b.closeIf fun k' => k' ≠ k
      { b with forming := some (k, grow f k t b.forming) }
  | .tick k => b.closeIf fun k' => k' < k

def total (weight : A → Nat) (b : Buckets K A) : Nat := (b.all.map fun e => weight e.2).sum

theorem total_item {weight : A → Nat} {k : K} {t : T} (hfirst : weight (f.first k t) = 1)
    (hnext : ∀ e ∈ b.forming, weight (f.next e.2 t) = weight e.2 + 1) :
    (step f b (.item k t)).total weight = b.total weight + 1 := by
  let rolled := b.closeIf fun k' => k' ≠ k
  have hrolled : rolled.total weight = b.total weight := by
    unfold total
    rw [all_closeIf]
  have hsum : (step f b (.item k t)).total weight =
      (rolled.closed.map fun e => weight e.2).sum + weight (grow f k t rolled.forming) := by
    simp [total, all, step, rolled]
  rw [hsum, ← hrolled]
  unfold total all
  rw [List.map_append, List.sum_append]
  cases hforming : rolled.forming with
  | none => simp [grow, hfirst]
  | some e =>
      have he : e ∈ b.forming := (forming_closeIf (b := b) (by rw [hforming]; rfl)).1
      simp [grow, hnext e he, Nat.add_assoc]

/-- An item opens a bucket for the second time exactly if the bucket is closed. -/
theorem distinct_item_iff (h : b.Distinct) (k : K) (t : T) :
    (step f b (.item k t)).Distinct ↔ k ∉ b.closed.map Prod.fst := by
  let rolled := b.closeIf fun k' => k' ≠ k
  have hrolled : rolled.Distinct := (distinct_closeIf _).mpr h
  have hkeys : (step f b (.item k t)).all.map Prod.fst = rolled.closed.map Prod.fst ++ [k] := by
    simp [all, step, rolled]
  -- what the item closes is another bucket
  have hmem : k ∈ rolled.closed.map Prod.fst ↔ k ∈ b.closed.map Prod.fst := by
    rw [List.mem_map, List.mem_map]
    constructor
    · rintro ⟨e, he, hk⟩
      rcases closed_closeIf he with hold | ⟨-, hne⟩
      · exact ⟨e, hold, hk⟩
      · exact absurd hk hne
    · rintro ⟨e, he, hk⟩
      exact ⟨e, closed_subset_closeIf he, hk⟩
  change ((step f b (.item k t)).all.map Prod.fst).Nodup ↔ _
  rw [hkeys, ← hmem, List.nodup_append]
  constructor
  · intro hnodup hk
    exact hnodup.2.2 k hk k (List.mem_singleton_self k) rfl
  · intro hk
    refine ⟨hrolled.closed, by simp, ?_⟩
    intro k' hk' k'' hk'' heq
    rw [List.mem_singleton] at hk''
    rw [heq, hk''] at hk'
    exact hk hk'

/-- The buckets hold the batch values of the steps so far. -/
structure Reflects (f : BucketFold K T A) (past : List (BucketStep K T)) (b : Buckets K A) :
    Prop where
  /-- a bucket has the one value of its items -/
  values : ∀ k, b.all.filter (fun e => e.1 = k) =
    ((f.batch k (BucketStep.itemsIn k past)).map fun a => (k, a)).toList
  settled : ∀ e ∈ b.closed, ∃ s ∈ past, e.1 < s.bucket
  begun : ∀ e ∈ b.forming, ∃ s ∈ past, e.1 = s.bucket
  /-- the open bucket is not behind the clock -/
  live : ∀ e ∈ b.forming, ∀ s ∈ past, s.bucket ≤ e.1

variable {past : List (BucketStep K T)}

theorem reflects_empty : Reflects f [] ({} : Buckets K A) where
  values := fun _ => rfl
  settled := fun _ h => nomatch h
  begun := fun _ h => nomatch h
  live := fun _ h => nomatch h

theorem reflects_tick (h : Reflects f past b) (k : K) :
    Reflects f (past ++ [.tick k]) (step f b (.tick k)) where
  values := by
    intro k'
    have hitems : BucketStep.itemsIn k' (past ++ [.tick k]) = BucketStep.itemsIn k' past := by
      simp [BucketStep.itemsIn, BucketStep.itemIn]
    have hall : (step f b (.tick k)).all = b.all := all_closeIf fun k' => k' < k
    rw [hitems, hall]
    exact h.values k'
  settled := by
    intro e he
    rcases closed_closeIf he with hold | ⟨-, hlt⟩
    · obtain ⟨s, hs, hlt⟩ := h.settled e hold
      exact ⟨s, List.mem_append_left _ hs, hlt⟩
    · exact ⟨.tick k, List.mem_append_right _ (List.mem_singleton_self _), hlt⟩
  begun := by
    intro e he
    obtain ⟨s, hs, heq⟩ := h.begun e (forming_closeIf he).1
    exact ⟨s, List.mem_append_left _ hs, heq⟩
  live := by
    intro e he s hs
    obtain ⟨hold, hnot⟩ := forming_closeIf he
    rw [List.mem_append, List.mem_singleton] at hs
    rcases hs with hs | rfl
    · exact h.live e hold s hs
    · exact not_lt.mp hnot

theorem closed_before (h : Reflects f past b) {k : K} (hmono : ∀ s ∈ past, s.bucket ≤ k) :
    ∀ e ∈ (b.closeIf fun k' => k' ≠ k).closed, e.1 < k := by
  intro e he
  rcases closed_closeIf he with hold | ⟨hforming, hne⟩
  · obtain ⟨s, hs, hlt⟩ := h.settled e hold
    exact lt_of_lt_of_le hlt (hmono s hs)
  · obtain ⟨s, hs, heq⟩ := h.begun e hforming
    exact lt_of_le_of_ne (heq ▸ hmono s hs) hne

theorem reflects_item (h : Reflects f past b) {k : K} (t : T)
    (hmono : ∀ s ∈ past, s.bucket ≤ k) :
    Reflects f (past ++ [.item k t]) (step f b (.item k t)) := by
  let rolled := b.closeIf fun k' => k' ≠ k
  have hclosed : ∀ e ∈ rolled.closed, e.1 < k := closed_before h hmono
  have hforming : ∀ e ∈ rolled.forming, e.1 = k := fun e he => not_not.mp (forming_closeIf he).2
  have hvalues : ∀ k', rolled.all.filter (fun e => e.1 = k') =
      ((f.batch k' (BucketStep.itemsIn k' past)).map fun a => (k', a)).toList := by
    intro k'
    rw [all_closeIf]
    exact h.values k'
  have hnew : (step f b (.item k t)).all = rolled.closed ++ [(k, grow f k t rolled.forming)] := rfl
  constructor
  · intro k'
    have hitems : BucketStep.itemsIn k' (past ++ [.item k t]) =
        BucketStep.itemsIn k' past ++ (if k = k' then [t] else []) := by
      unfold BucketStep.itemsIn
      rw [List.filterMap_append]
      by_cases hk : k = k' <;> simp [BucketStep.itemIn, hk]
    have hold := hvalues k'
    rw [all, List.filter_append] at hold
    rw [hnew, hitems, List.filter_append]
    by_cases hk : k = k'
    · subst hk
      have hnone : rolled.closed.filter (fun e => e.1 = k) = [] := by
        rw [List.filter_eq_nil_iff]
        intro e he heq
        exact absurd (of_decide_eq_true heq) (ne_of_lt (hclosed e he))
      rw [hnone, List.nil_append] at hold
      rw [hnone, if_pos rfl, f.batch_append_singleton]
      -- the open bucket holds the batch value of the items so far
      cases hopen : rolled.forming with
      | none =>
          rw [hopen] at hold
          cases hbatch : f.batch k (BucketStep.itemsIn k past) with
          | none => simp [grow]
          | some a => simp [hbatch] at hold
      | some e =>
          have hkey := hforming e hopen
          rw [hopen] at hold
          cases hbatch : f.batch k (BucketStep.itemsIn k past) with
          | none => simp [hbatch, hkey] at hold
          | some a =>
              simp only [hbatch, hkey, Option.toList_some, Option.map_some, decide_true,
                List.filter_cons_of_pos, List.filter_nil, List.cons.injEq, and_true] at hold
              simp [grow, hold]
    · have hopen : rolled.forming.toList.filter (fun e => e.1 = k') = [] := by
        rw [List.filter_eq_nil_iff]
        intro e he heq
        rw [Option.mem_toList] at he
        exact hk ((hforming e he).symm.trans (of_decide_eq_true heq))
      rw [hopen, List.append_nil] at hold
      rw [hold, if_neg hk]
      simp [hk]
  · intro e he
    exact ⟨.item k t, List.mem_append_right _ (List.mem_singleton_self _), hclosed e he⟩
  · intro e he
    change e ∈ some (k, grow f k t rolled.forming) at he
    rw [Option.mem_some_iff] at he
    subst he
    exact ⟨.item k t, List.mem_append_right _ (List.mem_singleton_self _), rfl⟩
  · intro e he s hs
    change e ∈ some (k, grow f k t rolled.forming) at he
    rw [Option.mem_some_iff] at he
    subst he
    rw [List.mem_append, List.mem_singleton] at hs
    rcases hs with hs | rfl
    · exact hmono s hs
    · exact le_refl k

/-- A stream whose buckets come in order. -/
theorem reflects_run {steps : List (BucketStep K T)}
    (hordered : steps.Pairwise fun s s' => s.bucket ≤ s'.bucket) :
    Reflects f steps (steps.foldl (step f) {}) := by
  induction steps using List.reverseRecOn with
  | nil => exact reflects_empty
  | append_singleton past s ih =>
      rw [List.pairwise_append] at hordered
      obtain ⟨hpast, -, hlast⟩ := hordered
      have hmono : ∀ s' ∈ past, s'.bucket ≤ s.bucket :=
        fun s' hs' => hlast s' hs' s (List.mem_singleton_self s)
      rw [List.foldl_append]
      cases s with
      | item k t => exact reflects_item (ih hpast) t hmono
      | tick k => exact reflects_tick (ih hpast) k

end Buckets

end Lib
