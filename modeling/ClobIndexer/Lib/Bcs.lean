import Mathlib.Data.Nat.Basic
import Mathlib.Tactic.Ring
/-!
# A positional binary codec

The parts of BCS that records are built from: little-endian words, lengths in
ULEB128, byte strings and text with their length in front, options with a tag.
Nothing in the bytes says which field they belong to.  A codec decodes what it
has encoded and leaves the bytes after it alone; encoding fails on a byte string
that is over the length limit.
-/

namespace Lib

abbrev Bytes := List UInt8

/-- Encoding to bytes, and reading back from the front of some bytes. -/
structure Codec (α : Type) where
  encode : α → Option Bytes
  decode : Bytes → Option (α × Bytes)
  decode_encode : ∀ a bytes rest, encode a = some bytes → decode (bytes ++ rest) = some (a, rest)

namespace Bcs

theorem toNat_toUInt8 {n : Nat} (h : n < 256) : n.toUInt8.toNat = n := by
  rw [Nat.toUInt8_eq, UInt8.toNat_ofNat']
  exact Nat.mod_eq_of_lt h

/-! ## Lengths -/

/-- A number in base 128, lowest digit first, with the high bit on all but the last
digit; the fuel is the number of digits at most. -/
def uleb128 : Nat → Nat → Bytes
  | 0, _ => []
  | digits + 1, n =>
      if n < 128 then [n.toUInt8] else (n % 128 + 128).toUInt8 :: uleb128 digits (n / 128)

/-- Read a number back; a last digit of zero after others is refused. -/
def readUleb128 : Nat → Bool → Bytes → Option (Nat × Bytes)
  | 0, _, _ => none
  | _, _, [] => none
  | digits + 1, first, b :: rest =>
      if b.toNat < 128 then
        if b.toNat = 0 ∧ first = false then none else some (b.toNat, rest)
      else
        match readUleb128 digits false rest with
        | none => none
        | some (n, rest) => some (b.toNat - 128 + 128 * n, rest)

theorem readUleb128_uleb128 (digits n : Nat) (first : Bool) (rest : Bytes) (h : n < 128 ^ digits)
    (hfirst : first = true ∨ n ≠ 0) (hdigits : 0 < digits) :
    readUleb128 digits first (uleb128 digits n ++ rest) = some (n, rest) := by
  induction digits generalizing n first with
  | zero => omega
  | succ digits ih =>
      unfold uleb128
      split_ifs with hsmall
      · have hbyte := toNat_toUInt8 (show n < 256 by omega)
        rw [List.singleton_append, readUleb128, hbyte, if_pos hsmall, if_neg]
        rintro ⟨hzero, hnot⟩
        rcases hfirst with hfirst | hfirst
        · rw [hfirst] at hnot
          cases hnot
        · exact hfirst hzero
      · have hbyte := toNat_toUInt8 (show n % 128 + 128 < 256 by omega)
        have hhigh : n / 128 < 128 ^ digits := by
          rw [pow_succ] at h
          exact Nat.div_lt_of_lt_mul (by omega)
        have hpos : 0 < digits := by
          rcases Nat.eq_zero_or_pos digits with rfl | hpos
          · simp at h
            omega
          · exact hpos
        have hrest := ih (n / 128) false hhigh (Or.inr (by omega)) hpos
        rw [List.cons_append, readUleb128, hbyte, if_neg (by omega), hrest]
        dsimp only
        congr 2
        omega

def maxSequenceLength : Nat := 2 ^ 31 - 1

/-! ## Words -/

def leBytes : Nat → Nat → Bytes
  | 0, _ => []
  | width + 1, n => (n % 256).toUInt8 :: leBytes width (n / 256)

def readLe : Nat → Bytes → Option (Nat × Bytes)
  | 0, rest => some (0, rest)
  | _ + 1, [] => none
  | width + 1, b :: rest =>
      match readLe width rest with
      | none => none
      | some (n, rest) => some (b.toNat + 256 * n, rest)

theorem readLe_leBytes (width n : Nat) (rest : Bytes) (h : n < 256 ^ width) :
    readLe width (leBytes width n ++ rest) = some (n, rest) := by
  induction width generalizing n with
  | zero =>
      have hn : n = 0 := by simpa using h
      rw [hn]
      rfl
  | succ width ih =>
      have hbyte := toNat_toUInt8 (show n % 256 < 256 by omega)
      have hhigh : n / 256 < 256 ^ width := by
        rw [pow_succ] at h
        exact Nat.div_lt_of_lt_mul (by omega)
      rw [leBytes, List.cons_append, readLe, ih (n / 256) hhigh]
      dsimp only
      rw [hbyte]
      congr 2
      omega

/-! ## Records -/

def concat (fields : List (Option Bytes)) : Option Bytes := (fields.mapM id).map List.flatten

/-- The bytes do not tell what they encode: decoding by what is found fails. -/
def deserializeAny {α : Type} (_ : Bytes) : Option (α × Bytes) := none

/-- A whole value; bytes left over are refused. -/
def fromBytes {α : Type} (decode : Bytes → Option (α × Bytes)) (input : Bytes) : Option α :=
  match decode input with
  | some (a, []) => some a
  | _ => none

end Bcs

namespace Codec

open Bcs

variable {α β : Type}

def uint64 : Codec UInt64 where
  encode n := some (leBytes 8 n.toNat)
  decode bytes := (readLe 8 bytes).map fun r => (UInt64.ofNat r.1, r.2)
  decode_encode := by
    intro n bytes rest h
    cases h
    rw [readLe_leBytes 8 n.toNat rest n.toNat_lt, Option.map_some, UInt64.ofNat_toNat]

def int64 : Codec Int64 where
  encode n := uint64.encode n.toUInt64
  decode bytes := (uint64.decode bytes).map fun r => (r.1.toInt64, r.2)
  decode_encode := by
    intro n bytes rest h
    rw [uint64.decode_encode _ _ rest h, Option.map_some, Int64.toInt64_toUInt64]

def bytes : Codec Bytes where
  encode content :=
    if content.length ≤ maxSequenceLength then some (uleb128 5 content.length ++ content) else none
  decode input :=
    match readUleb128 5 true input with
    | none => none
    | some (length, rest) =>
        if length ≤ maxSequenceLength ∧ length ≤ rest.length then
          some (rest.take length, rest.drop length)
        else none
  decode_encode := by
    intro content encoded rest h
    rw [Option.ite_none_right_eq_some] at h
    obtain ⟨hle, h⟩ := h
    cases h
    have hlength : content.length < 128 ^ 5 := by
      unfold maxSequenceLength at hle
      omega
    rw [List.append_assoc, readUleb128_uleb128 5 _ true _ hlength (Or.inl rfl) (by omega)]
    simp [hle]

def string : Codec String where
  encode s := bytes.encode s.toUTF8.data.toList
  decode input := do
    let (content, rest) ← bytes.decode input
    let s ← String.fromUTF8? ⟨content.toArray⟩
    return (s, rest)
  decode_encode := by
    intro s encoded rest h
    have hutf8 : String.fromUTF8? ⟨s.toUTF8.data.toList.toArray⟩ = some s := by
      unfold String.fromUTF8?
      exact dif_pos s.isValidUTF8
    rw [bytes.decode_encode _ _ rest h]
    dsimp only [Option.bind_eq_bind, Option.bind_some]
    rw [hutf8]
    rfl

def option (c : Codec α) : Codec (Option α) where
  encode
    | none => some [0]
    | some a => (c.encode a).map (1 :: ·)
  decode
    | [] => none
    | tag :: rest =>
        if tag = 0 then some (none, rest)
        else if tag = 1 then (c.decode rest).map fun r => (some r.1, r.2)
        else none
  decode_encode := by
    intro a encoded rest h
    cases a with
    | none =>
        cases h
        rfl
    | some a =>
        obtain ⟨content, hcontent, rfl⟩ := Option.map_eq_some_iff.mp h
        have hdecode := c.decode_encode a content rest hcontent
        simp [hdecode]

def pair (c : Codec α) (d : Codec β) : Codec (α × β) where
  encode p := do
    let first ← c.encode p.1
    let second ← d.encode p.2
    return first ++ second
  decode input := do
    let (a, rest) ← c.decode input
    let (b, rest) ← d.decode rest
    return ((a, b), rest)
  decode_encode := by
    rintro ⟨a, b⟩ encoded rest h
    simp only [Option.bind_eq_bind, Option.bind_eq_some_iff, Option.pure_def,
      Option.some.injEq] at h
    obtain ⟨first, hfirst, second, hsecond, rfl⟩ := h
    rw [List.append_assoc, c.decode_encode a first _ hfirst]
    dsimp only [Option.bind_eq_bind, Option.bind_some]
    rw [d.decode_encode b second rest hsecond]
    rfl

def map (c : Codec α) (f : α → β) (g : β → α) (h : ∀ b, f (g b) = b) : Codec β where
  encode b := c.encode (g b)
  decode input := (c.decode input).map fun r => (f r.1, r.2)
  decode_encode := by
    intro b encoded rest he
    rw [c.decode_encode _ _ rest he, Option.map_some, h]

end Codec

end Lib
