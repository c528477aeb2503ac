import Mathlib.Data.List.Basic
import Mathlib.Data.List.DropRight
/-!
# Rings of stamped samples

A bounded list of samples, newest last.  A sample with the stamp of the newest one
replaces it; the oldest ones make room.
-/

namespace Lib.Ring

variable {T S : Type} [DecidableEq S] (stamp : T → S)

/-- Append a sample, or replace the newest one of the same stamp. -/
def record (x : T) (ring : List T) : List T :=
  match ring.getLast? with
  | some last => if stamp last = stamp x then ring.dropLast ++ [x] else ring ++ [x]
  | none => ring ++ [x]

def trim (limit : Nat) (ring : List T) : List T := ring.drop (ring.length - limit)

def push (limit : Nat) (x : T) (ring : List T) : List T := trim limit (record stamp x ring)

/-! ## The samples of a long run -/

/-- The samples that no later one shares its stamp with. -/
def lastOfEach : List T → List T
  | [] => []
  | x :: samples =>
      if ∃ y ∈ samples, stamp y = stamp x then lastOfEach samples else x :: lastOfEach samples

example : lastOfEach Prod.fst [(1, 10), (1, 11), (2, 12)] = [(1, 11), (2, 12)] := by decide

variable {stamp} {x y : T} {limit : Nat} {samples ring : List T}

omit [DecidableEq S] in
theorem trim_eq_rtake (limit : Nat) (ring : List T) : trim limit ring = ring.rtake limit := rfl

theorem rtake_rtake (n m : Nat) (ring : List T) :
    (ring.rtake m).rtake n = ring.rtake (min n m) := by
  rw [List.rtake_eq_reverse_take_reverse, List.rtake_eq_reverse_take_reverse,
    List.rtake_eq_reverse_take_reverse, List.reverse_reverse, List.take_take]

theorem record_concat (ring : List T) (y x : T) :
    record stamp x (ring ++ [y]) =
      if stamp y = stamp x then ring ++ [x] else ring ++ [y] ++ [x] := by
  unfold record
  rw [List.getLast?_concat, List.dropLast_concat]

theorem mem_lastOfEach_of_mem (h : x ∈ lastOfEach stamp samples) : x ∈ samples := by
  induction samples with
  | nil => exact h
  | cons y samples ih =>
      rw [lastOfEach] at h
      split_ifs at h with hlater
      · exact List.mem_cons_of_mem y (ih h)
      · rcases List.mem_cons.mp h with rfl | h
        · exact List.mem_cons_self
        · exact List.mem_cons_of_mem y (ih h)

theorem lastOfEach_concat (samples : List T) (x : T) :
    lastOfEach stamp (samples ++ [x]) =
      (lastOfEach stamp samples).filter (fun y => stamp y ≠ stamp x) ++ [x] := by
  induction samples with
  | nil => simp [lastOfEach]
  | cons y samples ih =>
      have hlater : (∃ z ∈ samples ++ [x], stamp z = stamp y) ↔
          (∃ z ∈ samples, stamp z = stamp y) ∨ stamp x = stamp y := by
        simp only [List.mem_append, List.mem_singleton, or_and_right, exists_or, exists_eq_left]
      rw [List.cons_append, lastOfEach, lastOfEach, ih]
      by_cases hsame : stamp x = stamp y
      · rw [if_pos (hlater.mpr (Or.inr hsame))]
        split_ifs
        · rfl
        · simp [hsame]
      · have hne : stamp y ≠ stamp x := fun heq => hsame heq.symm
        by_cases hmore : ∃ z ∈ samples, stamp z = stamp y
        · rw [if_pos (hlater.mpr (Or.inl hmore)), if_pos hmore]
        · rw [if_neg (fun h => (hlater.mp h).elim hmore hsame), if_neg hmore]
          simp [hne]

section

variable [LE S] [LT S] [Std.IsPartialOrder S] [Std.LawfulOrderLT S]

theorem lastOfEach_increasing (h : samples.Pairwise fun a b => stamp a ≤ stamp b) :
    (lastOfEach stamp samples).Pairwise fun a b => stamp a < stamp b := by
  induction samples using List.reverseRecOn with
  | nil => exact List.Pairwise.nil
  | append_singleton samples x ih =>
      obtain ⟨hsamples, -, hlast⟩ := List.pairwise_append.mp h
      rw [lastOfEach_concat]
      refine List.pairwise_append.mpr ⟨(ih hsamples).filter _, List.pairwise_singleton _ _, ?_⟩
      intro y hy z hz
      obtain ⟨hy, hne⟩ := List.mem_filter.mp hy
      have hle := hlast y (mem_lastOfEach_of_mem hy) z hz
      rw [List.mem_singleton.mp hz] at hle ⊢
      exact Std.lt_of_le_of_ne hle (of_decide_eq_true hne)

theorem filter_concat_eq_record (hring : ring.Pairwise fun a b => stamp a < stamp b)
    (hx : ∀ y ∈ ring, stamp y ≤ stamp x) :
    ring.filter (fun y => stamp y ≠ stamp x) ++ [x] = record stamp x ring := by
  induction ring using List.reverseRecOn with
  | nil => rfl
  | append_singleton front y =>
      obtain ⟨-, -, hfront⟩ := List.pairwise_append.mp hring
      have hkeep : front.filter (fun z => stamp z ≠ stamp x) = front := by
        refine List.filter_eq_self.mpr fun z hz => decide_eq_true fun heq => ?_
        have hlt := hfront z hz y (List.mem_singleton.mpr rfl)
        have hle := hx y (List.mem_append_right _ (List.mem_singleton.mpr rfl))
        rw [heq] at hlt
        exact Std.lt_irrefl (Std.lt_of_lt_of_le hlt hle)
      rw [record_concat, List.filter_append, hkeep]
      by_cases hsame : stamp y = stamp x
      · simp [hsame]
      · simp [hsame]

end

/-- A sample that replaces the newest one needs no eviction. -/
theorem record_eq_push (hlength : ring.length ≤ limit)
    (hlast : ring.getLast?.map stamp = some (stamp x)) :
    record stamp x ring = push stamp limit x ring := by
  induction ring using List.reverseRecOn with
  | nil => nomatch hlast
  | append_singleton front last =>
      rw [List.getLast?_concat, Option.map_some, Option.some.injEq] at hlast
      rw [List.length_append, List.length_singleton] at hlength
      have hfits : (front ++ [x]).length - limit = 0 := by
        rw [List.length_append, List.length_singleton]
        omega
      unfold push trim
      rw [record_concat, if_pos hlast, hfits, List.drop_zero]

theorem length_push_le (limit : Nat) (x : T) (ring : List T) :
    (push stamp limit x ring).length ≤ limit := by
  unfold push trim
  rw [List.length_drop]
  omega

theorem getLast?_record (x : T) (ring : List T) : (record stamp x ring).getLast? = some x := by
  unfold record
  split
  · split_ifs <;> exact List.getLast?_concat
  · exact List.getLast?_concat

theorem getLast?_push (h : 0 < limit) (x : T) (ring : List T) :
    (push stamp limit x ring).getLast? = some x := by
  have hlast : (record stamp x ring).getLast? = some x := getLast?_record x ring
  have hlength : 0 < (record stamp x ring).length := by
    rw [List.length_pos_iff]
    intro hnil
    rw [hnil] at hlast
    cases hlast
  unfold push trim
  rw [List.getLast?_drop, hlast, if_neg (by omega)]

/-- Eviction may come before or after a sample is recorded. -/
theorem push_rtake (limit : Nat) (x : T) (ring : List T) :
    push stamp limit x (ring.rtake limit) = (record stamp x ring).rtake limit := by
  unfold push
  rw [trim_eq_rtake]
  cases limit with
  | zero => rw [List.rtake_zero, List.rtake_zero]
  | succ limit =>
      induction ring using List.reverseRecOn with
      | nil => rw [List.rtake_nil]
      | append_singleton front y =>
          have hy : front.rtake limit ++ [y] = (front ++ [y]).rtake (limit + 1) :=
            (List.rtake_concat_succ front limit y).symm
          rw [← hy, record_concat, record_concat]
          split_ifs
          · rw [List.rtake_concat_succ, List.rtake_concat_succ, rtake_rtake, Nat.min_self]
          · rw [hy]
            generalize front ++ [y] = whole
            rw [List.rtake_concat_succ, List.rtake_concat_succ, rtake_rtake,
              Nat.min_eq_left (Nat.le_succ limit)]

theorem foldl_push [LE S] [LT S] [Std.IsPartialOrder S] [Std.LawfulOrderLT S]
    (h : samples.Pairwise fun a b => stamp a ≤ stamp b) :
    samples.foldl (fun ring x => push stamp limit x ring) [] =
      (lastOfEach stamp samples).rtake limit := by
  induction samples using List.reverseRecOn with
  | nil => exact (List.rtake_nil _).symm
  | append_singleton samples x ih =>
      obtain ⟨hsamples, -, hlast⟩ := List.pairwise_append.mp h
      have hx : ∀ y ∈ lastOfEach stamp samples, stamp y ≤ stamp x := fun y hy =>
        hlast y (mem_lastOfEach_of_mem hy) x (List.mem_singleton.mpr rfl)
      rw [List.foldl_append, List.foldl_cons, List.foldl_nil, ih hsamples, push_rtake,
        lastOfEach_concat, filter_concat_eq_record (lastOfEach_increasing hsamples) hx]

end Lib.Ring
