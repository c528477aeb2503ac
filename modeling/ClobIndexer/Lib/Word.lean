import Mathlib.Data.UInt
/-!
# Saturating 64-bit arithmetic

`u64::saturating_add`, `u64::saturating_sub`, `u64::saturating_mul` and the
reinterpreting casts between `u64` and `i64`, with their values in `Nat`.
-/

namespace Lib.Word

def u64Max : Nat := 2 ^ 64 - 1

/-- The word holding `n`, clamped at `u64::MAX`. -/
def clamp (n : Nat) : UInt64 := UInt64.ofNat (min n u64Max)

def satAdd (a b : UInt64) : UInt64 := clamp (a.toNat + b.toNat)

def satSub (a b : UInt64) : UInt64 := clamp (a.toNat - b.toNat)

def satMul (a b : UInt64) : UInt64 := clamp (a.toNat * b.toNat)

theorem toNat_le (a : UInt64) : a.toNat ≤ u64Max := by
  have h := a.toNat_lt
  unfold u64Max
  omega

@[simp] theorem toNat_clamp (n : Nat) : (clamp n).toNat = min n u64Max := by
  unfold clamp
  rw [UInt64.toNat_ofNat']
  apply Nat.mod_eq_of_lt
  have h : min n u64Max ≤ u64Max := Nat.min_le_right _ _
  unfold u64Max at h ⊢
  omega

@[simp] theorem toNat_satAdd (a b : UInt64) :
    (satAdd a b).toNat = min (a.toNat + b.toNat) u64Max := toNat_clamp _

@[simp] theorem toNat_satSub (a b : UInt64) : (satSub a b).toNat = a.toNat - b.toNat := by
  unfold satSub
  rw [toNat_clamp]
  apply Nat.min_eq_left
  exact (Nat.sub_le _ _).trans (toNat_le a)

theorem satAdd_one_of_lt {a : UInt64} (h : a.toNat < u64Max) : satAdd a 1 = a + 1 := by
  have hone : (1 : UInt64).toNat = 1 := rfl
  rw [← UInt64.toNat_inj, toNat_satAdd, UInt64.toNat_add, hone]
  unfold u64Max at h ⊢
  omega

theorem satAdd_clamp (n : Nat) (v : UInt64) : satAdd (clamp n) v = clamp (n + v.toNat) := by
  rw [← UInt64.toNat_inj, toNat_satAdd, toNat_clamp, toNat_clamp]
  omega

/-- Clamping on the way is clamping in the end. -/
theorem foldl_satAdd {A : Type} (f : A → UInt64) (l : List A) (n : Nat) :
    l.foldl (fun sum a => satAdd sum (f a)) (clamp n) =
      clamp (n + (l.map fun a => (f a).toNat).sum) := by
  induction l generalizing n with
  | nil => rfl
  | cons a l ih => rw [List.foldl_cons, satAdd_clamp, ih, List.map_cons, List.sum_cons, Nat.add_assoc]

theorem toNat_sub_of_le {a b : UInt64} (h : b.toNat ≤ a.toNat) :
    (a - b).toNat = a.toNat - b.toNat :=
  UInt64.toNat_sub_of_le a b (UInt64.le_iff_toNat_le.mpr h)

theorem eq_zero_iff (a : UInt64) : a = 0 ↔ a.toNat = 0 := by
  rw [← UInt64.toNat_inj]
  rfl

/-- `u64 as i64` keeps the bits, so casting back returns the word. -/
@[simp] theorem toUInt64_toInt64 (a : UInt64) : a.toInt64.toUInt64 = a := rfl

theorem toInt64_injective : Function.Injective UInt64.toInt64 := by
  intro a b h
  rw [← toUInt64_toInt64 a, ← toUInt64_toInt64 b, h]

/-- `.max(0) as u64`. -/
def clampNeg (x : Int64) : UInt64 := (if x < 0 then 0 else x).toUInt64

theorem toNat_clampNeg (x : Int64) : (clampNeg x).toNat = x.toInt.toNat := by
  have hneg : x < 0 ↔ x.toInt < 0 := Int64.lt_iff_toInt_lt
  unfold clampNeg
  by_cases h : x < 0
  · rw [if_pos h, Int.toNat_of_nonpos (hneg.mp h).le]
    rfl
  · have hpos : 0 ≤ x.toInt := by
      by_contra hlt
      exact h (hneg.mpr (by omega))
    rw [if_neg h]
    change x.toBitVec.toNat = x.toBitVec.toInt.toNat
    change 0 ≤ x.toBitVec.toInt at hpos
    rw [BitVec.toInt_eq_toNat_cond] at hpos ⊢
    split_ifs at hpos ⊢ with hlow
    · rfl
    · have hlt := x.toBitVec.isLt
      omega

theorem clampNeg_mono {x y : Int64} (h : x ≤ y) : clampNeg x ≤ clampNeg y := by
  rw [UInt64.le_iff_toNat_le, toNat_clampNeg, toNat_clampNeg]
  exact Int.toNat_le_toNat (Int64.le_iff_toInt_le.mp h)

theorem clampNeg_toInt64 {a : UInt64} (h : ¬a.toInt64 < 0) : clampNeg a.toInt64 = a := by
  unfold clampNeg
  rw [if_neg h, toUInt64_toInt64]

theorem clampNeg_lt (x : Int64) : (clampNeg x).toNat < 2 ^ 63 := by
  rw [toNat_clampNeg]
  have hlt := Int64.toInt_lt x
  omega

/-- The cast to `i64` is positive exactly below `2 ^ 63`, zero aside. -/
theorem not_toInt64_nonpos_iff (a : UInt64) :
    ¬a.toInt64 ≤ 0 ↔ a ≠ 0 ∧ a.toNat < 2 ^ 63 := by
  rw [Int64.le_iff_toInt_le, ne_eq, eq_zero_iff]
  have hlt := a.toNat_lt
  have hcast : a.toInt64.toInt = (a.toNat : Int).bmod (2 ^ 64) := by
    change a.toInt64.toBitVec.toInt = _
    rw [BitVec.toInt_eq_toNat_bmod]
    rfl
  have hzero : (0 : Int64).toInt = 0 := by decide
  rw [hcast, hzero, Int.bmod_def]
  split_ifs with h <;> omega

end Lib.Word
