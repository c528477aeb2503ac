import Mathlib.Logic.Function.Basic
import Mathlib.Data.List.Basic
/-!
# Tickets

Owners draw tickets from one counter, and each keeps the newest of its own at the head
of a list.  Whatever they throw away, an owner's tickets decrease and no two owners hold
the same.
-/

namespace Lib

variable {O T : Type} [LE T] [LT T]

/-- The tickets that the owners hold, with the last number that was drawn. -/
structure Issued (last : T) (held : O → List T) : Prop where
  le : ∀ o, ∀ t ∈ held o, t ≤ last
  decreasing : ∀ o, (held o).Pairwise (· > ·)
  apart : ∀ o o', o ≠ o' → ∀ t ∈ held o, t ∉ held o'

namespace Issued

variable {last next : T} {held held' : O → List T}

theorem nil (last : T) : Issued last fun _ : O => [] where
  le _ _ ht := (List.not_mem_nil ht).elim
  decreasing _ := List.Pairwise.nil
  apart _ _ _ _ ht := (List.not_mem_nil ht).elim

theorem sublist (h : Issued last held) (hsub : ∀ o, (held' o).Sublist (held o)) :
    Issued last held' where
  le o t ht := h.le o t ((hsub o).mem ht)
  decreasing o := (h.decreasing o).sublist (hsub o)
  apart o o' ho t ht ht' := h.apart o o' ho t ((hsub o).mem ht) ((hsub o').mem ht')

theorem draw [DecidableEq O] [Std.IsPreorder T] [Std.LawfulOrderLT T] (h : Issued last held)
    (hnext : last < next) (o : O) :
    Issued next (Function.update held o (next :: held o)) := by
  have hnew : ∀ o, ∀ t ∈ held o, t < next := fun o t ht => Std.lt_of_le_of_lt (h.le o t ht) hnext
  have hmem : ∀ p, ∀ t ∈ Function.update held o (next :: held o) p,
      t ∈ held p ∨ p = o ∧ t = next := by
    intro p t ht
    by_cases hp : p = o
    · subst hp
      rw [Function.update_self, List.mem_cons] at ht
      exact ht.symm.imp_right fun heq => ⟨rfl, heq⟩
    · rw [Function.update_of_ne hp] at ht
      exact .inl ht
  constructor
  · intro p t ht
    rcases hmem p t ht with ht | ⟨-, rfl⟩
    · exact Std.le_of_lt (hnew p t ht)
    · exact Std.le_refl t
  · intro p
    by_cases hp : p = o
    · subst hp
      rw [Function.update_self, List.pairwise_cons]
      exact ⟨hnew p, h.decreasing p⟩
    · rw [Function.update_of_ne hp]
      exact h.decreasing p
  · intro p p' hp t ht ht'
    rcases hmem p t ht with hold | ⟨rfl, rfl⟩
    · rcases hmem p' t ht' with hold' | ⟨-, rfl⟩
      · exact h.apart p p' hp t hold hold'
      · exact Std.lt_irrefl (hnew p t hold)
    · rcases hmem p' t ht' with hold' | ⟨rfl, -⟩
      · exact Std.lt_irrefl (hnew p' t hold')
      · exact hp rfl

end Issued

end Lib
