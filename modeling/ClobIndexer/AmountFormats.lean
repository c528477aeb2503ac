import ClobIndexer.Lib.Decimal
import ClobIndexer.Paper
import Mathlib.Data.Set.Function
import Mathlib.Tactic.Ring
/-!
# Amounts as texts

The four amount formats, as decimal numerals.  Levels of a book are told apart by their
texts, so a format has to print different amounts differently, and nothing but zero as
"0".  Prices are multiplied by a hundred first, which saturates above `u64::MAX / 100`.
-/

namespace ClobIndexer

open Lib

/-- A format prints the exact value of each number of its domain, different numbers
differently, and only zero as "0". -/
structure ExactFormat {A : Type} [OfNat A 0] (domain : Set A) (value : A → ℚ)
    (format : A → String) : Prop where
  exact : ∀ raw ∈ domain, Decimal.read (format raw) = some (value raw)
  injective : Set.InjOn format domain
  zero : ∀ raw ∈ domain, format raw = "0" ↔ raw = 0

theorem exactFormat_of_read {A : Type} [OfNat A 0] {domain : Set A} {value : A → ℚ}
    {format : A → String}
    (hread : ∀ raw, raw ∈ domain → Decimal.read (format raw) = some (value raw))
    (hinj : Function.Injective value) (hvalue : value 0 = 0) (hzero : format 0 = "0") :
    ExactFormat domain value format where
  exact := hread
  injective := by
    intro a ha b hb heq
    have hvalues := hread a ha
    rw [heq, hread b hb, Option.some.injEq] at hvalues
    exact hinj hvalues.symm
  zero := by
    intro raw hraw
    constructor
    · intro heq
      have hnothing : Decimal.read "0" = some 0 := by
        exact_mod_cast Decimal.read_repr 0
      have hvalues := hread raw hraw
      rw [heq, hnothing, Option.some.injEq] at hvalues
      exact hinj (hvalues.symm.trans hvalue.symm)
    · intro heq
      rw [heq, hzero]

/-! ## The texts -/

theorem tokenScale_eq : tokenScale = 10 ^ 6 := by decide

theorem frac_lt (n : Nat) : n % tokenScale < 10 ^ 6 := by
  rw [tokenScale_eq]
  exact Nat.mod_lt n (by omega)

theorem readUnsigned_padded (n : Nat) :
    Decimal.readUnsigned
        (Decimal.parts tokenScale n (Text.padZeros 6 (n % tokenScale))).toList =
      some ((n : ℚ) / 10 ^ 6) := by
  apply Decimal.readUnsigned_parts tokenScale_eq
  intro _
  exact Decimal.fraction_padZeros (by omega) (frac_lt n)

theorem readUnsigned_trimmed (n : Nat) :
    Decimal.readUnsigned (Decimal.parts tokenScale n
        (Text.trimEndMatches '0' (Text.padZeros 6 (n % tokenScale)))).toList =
      some ((n : ℚ) / 10 ^ 6) := by
  apply Decimal.readUnsigned_parts tokenScale_eq
  intro hne
  exact Decimal.fraction_trim (by omega) (frac_lt n) hne

theorem formatTokenAmount_eq (raw : UInt64) :
    formatTokenAmount raw =
      Decimal.parts tokenScale raw.toNat (Text.padZeros 6 (raw.toNat % tokenScale)) := rfl

theorem formatOracleHuman_eq (raw : UInt64) :
    formatOracleHuman raw = Decimal.parts tokenScale raw.toNat
      (Text.trimEndMatches '0' (Text.padZeros 6 (raw.toNat % tokenScale))) := rfl

theorem formatPricePieces_eq (raw : UInt64) :
    formatPricePieces raw = Decimal.parts tokenScale (Word.satMul raw 100).toNat
      (Text.trimEndMatches '0' (Text.padZeros 6 ((Word.satMul raw 100).toNat % tokenScale))) := rfl

theorem formatI128Token_eq (raw : Int) :
    formatI128Token raw = (if raw < 0 then "-" else "") ++
      Decimal.parts tokenScale raw.natAbs (Text.padZeros 6 (raw.natAbs % tokenScale)) := by
  unfold formatI128Token Decimal.parts
  dsimp only
  split_ifs <;> simp [String.append_assoc]

theorem read_formatTokenAmount (raw : UInt64) :
    Decimal.read (formatTokenAmount raw) = some ((raw.toNat : ℚ) / 10 ^ 6) := by
  rw [formatTokenAmount_eq, Decimal.read_parts, readUnsigned_padded]

theorem read_formatOracleHuman (raw : UInt64) :
    Decimal.read (formatOracleHuman raw) = some ((raw.toNat : ℚ) / 10 ^ 6) := by
  rw [formatOracleHuman_eq, Decimal.read_parts, readUnsigned_trimmed]

theorem read_formatI128Token (raw : Int) :
    Decimal.read (formatI128Token raw) = some ((raw : ℚ) / 10 ^ 6) := by
  rw [formatI128Token_eq]
  by_cases hneg : raw < 0
  · have habs : ((raw.natAbs : ℕ) : ℚ) = -raw := by
      have hint : (raw.natAbs : Int) = -raw := by omega
      rw [← Int.cast_natCast, hint, Int.cast_neg]
    rw [if_pos hneg, Decimal.read_minus, readUnsigned_padded, habs]
    simp [neg_div]
  · have habs : ((raw.natAbs : ℕ) : ℚ) = raw := by
      have hint : (raw.natAbs : Int) = raw := by omega
      rw [← Int.cast_natCast, hint]
    rw [if_neg hneg, String.empty_append, Decimal.read_parts, readUnsigned_padded, habs]

theorem read_formatPricePieces {raw : UInt64} (hraw : raw.toNat ≤ Word.u64Max / 100) :
    Decimal.read (formatPricePieces raw) = some ((raw.toNat : ℚ) / 10 ^ 4) := by
  have hnumerator : (Word.satMul raw 100).toNat = raw.toNat * 100 := by
    rw [Word.satMul, Word.toNat_clamp]
    apply Nat.min_eq_left
    exact (Nat.le_div_iff_mul_le (by decide)).mp hraw
  rw [formatPricePieces_eq, Decimal.read_parts, readUnsigned_trimmed, hnumerator]
  congr 1
  push_cast
  ring

/-! ## Exactness -/

theorem injective_div_pow (k : Nat) :
    Function.Injective fun raw : UInt64 => (raw.toNat : ℚ) / 10 ^ k := by
  intro a b heq
  have hpow : (10 : ℚ) ^ k ≠ 0 := pow_ne_zero k (by norm_num)
  have hcast : (a.toNat : ℚ) = b.toNat := (div_left_inj' hpow).mp heq
  exact UInt64.toNat_inj.mp (by exact_mod_cast hcast)

/-- Each of the formats is exact on all numbers that the code can give it, prices below
the bound; a price carries no zero at the end of its fraction. -/
theorem amountFormats_exact :
    ExactFormat Set.univ (fun raw : UInt64 => (raw.toNat : ℚ) / 10 ^ 6) formatTokenAmount ∧
      ExactFormat Set.univ (fun raw : UInt64 => (raw.toNat : ℚ) / 10 ^ 6) formatOracleHuman ∧
      ExactFormat {raw : Int | -2 ^ 127 ≤ raw ∧ raw < 2 ^ 127} (fun raw => (raw : ℚ) / 10 ^ 6)
        formatI128Token ∧
      ExactFormat {raw : UInt64 | raw.toNat ≤ Word.u64Max / 100}
        (fun raw => (raw.toNat : ℚ) / 10 ^ 4) formatPricePieces ∧
      ∀ raw, Decimal.Trimmed (formatPricePieces raw) := by
  refine ⟨?_, ?_, ?_, ?_, ?_⟩
  · exact exactFormat_of_read (fun raw _ => read_formatTokenAmount raw) (injective_div_pow 6)
      (by simp) (by decide)
  · exact exactFormat_of_read (fun raw _ => read_formatOracleHuman raw) (injective_div_pow 6)
      (by simp) (by decide)
  · apply exactFormat_of_read (fun raw _ => read_formatI128Token raw)
    · intro a b heq
      have hcast : (a : ℚ) = b := (div_left_inj' (by norm_num)).mp heq
      exact_mod_cast hcast
    · simp
    · decide
  · exact exactFormat_of_read (fun raw hraw => read_formatPricePieces hraw) (injective_div_pow 4)
      (by simp) (by decide)
  · intro raw
    rw [formatPricePieces_eq]
    exact Decimal.trimmed_parts _ _

example : formatI128Token (-1500000) = "-1.500000" ∧ formatOracleHuman 1500000 = "1.5" := by
  decide

end ClobIndexer
