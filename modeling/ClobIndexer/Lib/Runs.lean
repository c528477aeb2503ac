import Mathlib.Data.List.Basic
/-!
# Runs

A run takes the steps of a list one after the other.  A property holds throughout a
run if it holds of the start and of every state reached; a condition on steps holds
along a run if every step meets it in the state in which it is taken.  What single
steps keep holds throughout, and where a step keeps the property exactly under a
condition, the property holds throughout exactly when the condition holds along.
-/

namespace Lib

variable {S E : Type} (f : S → E → S)

/-- The property holds of the start and of every state reached. -/
def Throughout (P : S → Prop) : List E → S → Prop
  | [], s => P s
  | e :: es, s => P s ∧ Throughout P es (f s e)

/-- Every step meets the condition in the state in which it is taken. -/
def Along (Q : S → E → Prop) : List E → S → Prop
  | [], _ => True
  | e :: es, s => Q s e ∧ Along Q es (f s e)

instance decidableAlong (Q : S → E → Prop) [∀ s e, Decidable (Q s e)] :
    ∀ (es : List E) (s : S), Decidable (Along f Q es s)
  | [], _ => .isTrue trivial
  | e :: es, s => @instDecidableAnd _ _ _ (decidableAlong Q es (f s e))

variable {f} {I P : S → Prop} {Q : S → E → Prop} {ok : E → Prop}

theorem Throughout.start {es : List E} {s : S} (h : Throughout f P es s) : P s := by
  cases es with
  | nil => exact h
  | cons e es => exact h.1

theorem Throughout.finish {es : List E} {s : S} (h : Throughout f P es s) : P (es.foldl f s) := by
  induction es generalizing s with
  | nil => exact h
  | cons e es ih => exact ih h.2

theorem Throughout.mono {P' : S → Prop} {es : List E} {s : S} (h : Throughout f P es s)
    (himp : ∀ s, P s → P' s) : Throughout f P' es s := by
  induction es generalizing s with
  | nil => exact himp s h
  | cons e es ih => exact ⟨himp s h.1, ih h.2⟩

theorem Throughout.and {P' : S → Prop} {es : List E} {s : S} (h : Throughout f P es s)
    (h' : Throughout f P' es s) : Throughout f (fun s => P s ∧ P' s) es s := by
  induction es generalizing s with
  | nil => exact ⟨h, h'⟩
  | cons e es ih => exact ⟨⟨h.1, h'.1⟩, ih h.2 h'.2⟩

theorem throughout_of_keeps (hkeeps : ∀ s e, ok e → P s → P (f s e)) {es : List E}
    (hok : ∀ e ∈ es, ok e) {s : S} (hs : P s) : Throughout f P es s := by
  induction es generalizing s with
  | nil => exact hs
  | cons e es ih =>
      have hstep : P (f s e) := hkeeps s e (hok e List.mem_cons_self) hs
      exact ⟨hs, ih (fun e' he' => hok e' (List.mem_cons_of_mem e he')) hstep⟩

theorem along_congr {Q' : S → E → Prop} (h : ∀ s e, Q s e ↔ Q' s e) (es : List E) (s : S) :
    Along f Q es s ↔ Along f Q' es s := by
  induction es generalizing s with
  | nil => exact Iff.rfl
  | cons e es ih => exact and_congr (h s e) (ih (f s e))

/-- Where an invariant makes two conditions on a step one, a run meets both or neither. -/
theorem along_iff_along {Q' : S → E → Prop} (hkeeps : ∀ s e, I s → I (f s e))
    (hstep : ∀ s e, I s → (Q s e ↔ Q' s e)) (es : List E) {s : S} (hI : I s) :
    Along f Q es s ↔ Along f Q' es s := by
  induction es generalizing s with
  | nil => exact Iff.rfl
  | cons e es ih => exact and_congr (hstep s e hI) (ih (hkeeps s e hI))

/-- Steps that meet a condition keep an invariant, and under the invariant they meet another
condition: so does a run. -/
theorem along_of_along {Q' : S → E → Prop} (hkeeps : ∀ s e, I s → Q s e → I (f s e))
    (hstep : ∀ s e, I s → Q s e → Q' s e) {es : List E} {s : S} (hI : I s)
    (h : Along f Q es s) : Along f Q' es s := by
  induction es generalizing s with
  | nil => trivial
  | cons e es ih => exact ⟨hstep s e hI h.1, ih (hkeeps s e hI h.1) h.2⟩

/-- What steps that meet a condition keep holds throughout a run of them. -/
theorem throughout_of_along (hkeeps : ∀ s e, I s → Q s e → I (f s e)) {es : List E} {s : S}
    (hI : I s) (h : Along f Q es s) : Throughout f I es s := by
  induction es generalizing s with
  | nil => exact hI
  | cons e es ih => exact ⟨hI, ih (hkeeps s e hI h.1) h.2⟩

/-- What grows by one at most, and only in some steps, stays below a bound that the number of
these steps keeps. -/
theorem along_of_countP {m : S → Nat} {p : E → Bool} {bound : Nat}
    (hgrow : ∀ s e, m (f s e) ≤ m s + if p e = true then 1 else 0) {es : List E} {s : S}
    (hbound : m s + es.countP p < bound) :
    Along f (fun s e => p e = true → m s + 1 < bound) es s := by
  induction es generalizing s with
  | nil => trivial
  | cons e es ih =>
      rw [List.countP_cons] at hbound
      constructor
      · intro he
        rw [if_pos he] at hbound
        omega
      · have hstep := hgrow s e
        exact ih (by omega)

/-- Where a step keeps the property exactly under a condition, so does a run. -/
theorem throughout_iff_along (hkeeps : ∀ s e, ok e → I s → I (f s e))
    (hstep : ∀ s e, ok e → I s → P s → (P (f s e) ↔ Q s e)) {es : List E}
    (hok : ∀ e ∈ es, ok e) {s : S} (hI : I s) (hP : P s) :
    Throughout f P es s ↔ Along f Q es s := by
  induction es generalizing s with
  | nil => exact iff_of_true hP trivial
  | cons e es ih =>
      have he : ok e := hok e List.mem_cons_self
      have hrest : P (f s e) → (Throughout f P es (f s e) ↔ Along f Q es (f s e)) :=
        ih (fun e' he' => hok e' (List.mem_cons_of_mem e he')) (hkeeps s e he hI)
      constructor
      · intro h
        exact ⟨(hstep s e he hI hP).mp h.2.start, (hrest h.2.start).mp h.2⟩
      · intro h
        have hnext : P (f s e) := (hstep s e he hI hP).mpr h.1
        exact ⟨hP, (hrest hnext).mpr h.2⟩

/-- The same where a stronger invariant carries the steps, and is kept as long as the
property holds. -/
theorem throughout_iff_along_of_strong (hstrong : ∀ s, I s → P s)
    (hstep : ∀ s e, I s → (P (f s e) ↔ Q s e)) (hkeeps : ∀ s e, I s → P (f s e) → I (f s e))
    {es : List E} {s : S} (hI : I s) : Throughout f P es s ↔ Along f Q es s := by
  induction es generalizing s with
  | nil => exact iff_of_true (hstrong s hI) trivial
  | cons e es ih =>
      constructor
      · intro h
        have hnext : I (f s e) := hkeeps s e hI h.2.start
        exact ⟨(hstep s e hI).mp h.2.start, (ih hnext).mp h.2⟩
      · intro h
        have hnext : I (f s e) := hkeeps s e hI ((hstep s e hI).mpr h.1)
        exact ⟨hstrong s hI, (ih hnext).mpr h.2⟩

end Lib
