import Mathlib.Data.List.Basic
/-!
# Views that are shown when they are marked

A state has a view at every key, and some of its keys are marked.  A step tells the truth
if it marks every key whose view it changes and unmarks none; steps that do, one after the
other, do so together.  A flush shows the views at the marked keys and unmarks them.  Then
every key that is not marked has last shown the view that it has now.
-/

namespace Lib.Dirty

variable {S K V : Type} (view : K → S → V) (marked : K → S → Prop)

/-- What changes is marked, and what is marked stays so. -/
structure Marks (s s' : S) : Prop where
  changed : ∀ k, marked k s' ∨ view k s' = view k s
  kept : ∀ k, marked k s → marked k s'

/-- A key that is not marked has last shown its present view. -/
def Fresh (shown : K → V) (s : S) : Prop := ∀ k, marked k s ∨ shown k = view k s

variable {view marked} {s s' s'' : S} {shown shown' : K → V}

theorem Marks.refl (s : S) : Marks view marked s s where
  changed := fun _ => Or.inr rfl
  kept := fun _ h => h

theorem Marks.trans (h : Marks view marked s s') (h' : Marks view marked s' s'') :
    Marks view marked s s'' where
  changed := by
    intro k
    rcases h'.changed k with hmarked | heq
    · exact Or.inl hmarked
    · rcases h.changed k with hmarked | hsame
      · exact Or.inl (h'.kept k hmarked)
      · exact Or.inr (heq.trans hsame)
  kept := fun k hk => h'.kept k (h.kept k hk)

theorem Marks.of_eq (hview : ∀ k, view k s' = view k s) (hmarked : ∀ k, marked k s → marked k s') :
    Marks view marked s s' where
  changed := fun k => Or.inr (hview k)
  kept := hmarked

/-- Some of the keys, or other names for them. -/
theorem Marks.restrict {K' : Type} (h : Marks view marked s s') (key : K' → K) :
    Marks (fun k => view (key k)) (fun k => marked (key k)) s s' where
  changed := fun k => h.changed (key k)
  kept := fun k => h.kept (key k)

theorem Fresh.steps (h : Fresh view marked shown s) (hmarks : Marks view marked s s') :
    Fresh view marked shown s' := by
  intro k
  rcases hmarks.changed k with hmarked | heq
  · exact Or.inl hmarked
  · rcases h k with hmarked | hshown
    · exact Or.inl (hmarks.kept k hmarked)
    · exact Or.inr (hshown.trans heq.symm)

theorem Fresh.flush (h : Fresh view marked shown s) (hview : ∀ k, view k s' = view k s)
    (hflush : ∀ k, marked k s → marked k s' ∨ shown' k = view k s)
    (hrest : ∀ k, ¬marked k s → shown' k = shown k) : Fresh view marked shown' s' := by
  intro k
  by_cases hmarked : marked k s
  · rcases hflush k hmarked with hstill | hshown
    · exact Or.inl hstill
    · exact Or.inr (hshown.trans (hview k).symm)
  · rcases h k with hmarked' | hshown
    · exact absurd hmarked' hmarked
    · exact Or.inr ((hrest k hmarked).trans (hshown.trans (hview k).symm))

end Lib.Dirty
