import Mathlib.Logic.Function.Basic
import Mathlib.Data.List.Basic
/-!
# Interleaved tasks

One finite program for each owner, all acting on one shared state; a schedule says
whose action is next.  An action also has a local state of its owner.  If what an
action does, as its owner sees it, depends on nothing but what the owner sees, and
if nobody else sees any of it, then under every schedule each owner ends up as if
its program had run alone.
-/

namespace Lib

/-- Programs in progress. -/
structure Tasks (O S L A : Type) where
  shared : S
  locals : O → L
  todo : O → List A

namespace Tasks

variable {O S L A : Type} [DecidableEq O] (act : O → A → L × S → L × S)

def step (t : Tasks O S L A) (o : O) : Tasks O S L A :=
  match t.todo o with
  | [] => t
  | a :: rest =>
      let r := act o a (t.locals o, t.shared)
      ⟨r.2, Function.update t.locals o r.1, Function.update t.todo o rest⟩

def run (schedule : List O) (t : Tasks O S L A) : Tasks O S L A := schedule.foldl (step act) t

def Done (t : Tasks O S L A) : Prop := ∀ o, t.todo o = []

/-- What is left of an owner's program, run without the others. -/
def alone (t : Tasks O S L A) (o : O) : L × S :=
  (t.todo o).foldl (fun s a => act o a s) (t.locals o, t.shared)

def Admitted (ok : O → A → Prop) (t : Tasks O S L A) : Prop := ∀ o, ∀ a ∈ t.todo o, ok o a

def Minded (mine : O → L → Prop) (t : Tasks O S L A) : Prop := ∀ o, mine o (t.locals o)

/-- Admitted actions depend on what their owner sees, and no other owner sees them. -/
structure Local (ok : O → A → Prop) (mine : O → L → Prop) (inv : S → Prop)
    (sees : O → S → S → Prop) : Prop where
  refl : ∀ o s, sees o s s
  trans : ∀ {o s t u}, sees o s t → sees o t u → sees o s u
  keeps : ∀ {o a l s}, ok o a → mine o l → inv s →
    mine o (act o a (l, s)).1 ∧ inv (act o a (l, s)).2
  own : ∀ {o a l s t}, ok o a → mine o l → inv s → inv t → sees o s t →
    (act o a (l, s)).1 = (act o a (l, t)).1 ∧ sees o (act o a (l, s)).2 (act o a (l, t)).2
  frame : ∀ {o p a l s}, ok p a → mine p l → p ≠ o → inv s → sees o (act p a (l, s)).2 s

variable {act} {ok : O → A → Prop} {mine : O → L → Prop} {inv : S → Prop} {sees : O → S → S → Prop}

variable (act) in
theorem step_cases (t : Tasks O S L A) (o : O) :
    t.step act o = t ∨ ∃ a rest, t.todo o = a :: rest ∧
      t.step act o = ⟨(act o a (t.locals o, t.shared)).2,
        Function.update t.locals o (act o a (t.locals o, t.shared)).1,
        Function.update t.todo o rest⟩ := by
  unfold step
  cases htodo : t.todo o with
  | nil => exact .inl rfl
  | cons a rest => exact .inr ⟨a, rest, rfl, rfl⟩

theorem admitted_step {t : Tasks O S L A} (h : t.Admitted ok) (o : O) :
    (t.step act o).Admitted ok := by
  rcases step_cases act t o with heq | ⟨a, rest, htodo, heq⟩
  · rw [heq]
    exact h
  · rw [heq]
    intro p b hb
    by_cases hp : p = o
    · subst hp
      apply h p
      rw [htodo]
      simp only [Function.update_self] at hb
      exact List.mem_cons_of_mem a hb
    · simp only [Function.update_of_ne hp] at hb
      exact h p b hb

variable (act) in
theorem minded_step
    (hact : ∀ o a l s, ok o a → mine o l → inv s → mine o (act o a (l, s)).1)
    {t : Tasks O S L A} (hok : t.Admitted ok) (hmine : t.Minded mine) (hinv : inv t.shared) (o : O) :
    (t.step act o).Minded mine := by
  rcases step_cases act t o with heq | ⟨a, rest, htodo, heq⟩
  · rw [heq]
    exact hmine
  · have ha : ok o a := hok o a (htodo ▸ List.mem_cons_self)
    rw [heq]
    intro p
    dsimp only
    by_cases hp : p = o
    · subst hp
      rw [Function.update_self]
      exact hact p a _ _ ha (hmine p) hinv
    · rw [Function.update_of_ne hp]
      exact hmine p

variable (act) in
theorem shared_step {P : S → Prop}
    (hact : ∀ o a l s, ok o a → mine o l → inv s → P s → P (act o a (l, s)).2)
    {t : Tasks O S L A} (hok : t.Admitted ok) (hmine : t.Minded mine) (hinv : inv t.shared)
    (hP : P t.shared) (o : O) : P (t.step act o).shared := by
  rcases step_cases act t o with heq | ⟨a, rest, htodo, heq⟩
  · rw [heq]
    exact hP
  · rw [heq]
    exact hact o a _ _ (hok o a (htodo ▸ List.mem_cons_self)) (hmine o) hinv hP

namespace Local

variable (h : Local act ok mine inv sees)

include h

theorem keeps_step {t : Tasks O S L A} (hok : t.Admitted ok) (hmine : t.Minded mine)
    (hinv : inv t.shared) (o : O) :
    (t.step act o).Admitted ok ∧ (t.step act o).Minded mine ∧ inv (t.step act o).shared := by
  have hlocal : ∀ o a l s, ok o a → mine o l → inv s → mine o (act o a (l, s)).1 :=
    fun o a l s ha hl hs => (h.keeps ha hl hs).1
  have hshared : ∀ o a l s, ok o a → mine o l → inv s → inv s → inv (act o a (l, s)).2 :=
    fun o a l s ha hl hs _ => (h.keeps ha hl hs).2
  exact ⟨admitted_step hok o, minded_step act hlocal hok hmine hinv o,
    shared_step act hshared hok hmine hinv hinv o⟩

theorem keeps_run (schedule : List O) {t : Tasks O S L A} (hok : t.Admitted ok)
    (hmine : t.Minded mine) (hinv : inv t.shared) :
    (t.run act schedule).Admitted ok ∧ (t.run act schedule).Minded mine ∧
      inv (t.run act schedule).shared := by
  induction schedule generalizing t with
  | nil => exact ⟨hok, hmine, hinv⟩
  | cons o schedule ih =>
      obtain ⟨hok', hmine', hinv'⟩ := h.keeps_step hok hmine hinv o
      exact ih hok' hmine' hinv'

/-- What every admitted action keeps holds throughout. -/
theorem shared_run {P : S → Prop}
    (hact : ∀ o a l s, ok o a → mine o l → inv s → P s → P (act o a (l, s)).2)
    (schedule : List O) {t : Tasks O S L A} (hok : t.Admitted ok) (hmine : t.Minded mine)
    (hinv : inv t.shared) (hP : P t.shared) : P (t.run act schedule).shared := by
  induction schedule generalizing t with
  | nil => exact hP
  | cons o schedule ih =>
      obtain ⟨hok', hmine', hinv'⟩ := h.keeps_step hok hmine hinv o
      exact ih hok' hmine' hinv' (shared_step act hact hok hmine hinv hP o)

omit [DecidableEq O] in
theorem own_foldl {o : O} (program : List A) (hok : ∀ a ∈ program, ok o a) {l : L} {s t : S}
    (hl : mine o l) (hs : inv s) (ht : inv t) (hst : sees o s t) :
    (program.foldl (fun s a => act o a s) (l, s)).1 =
        (program.foldl (fun s a => act o a s) (l, t)).1 ∧
      sees o (program.foldl (fun s a => act o a s) (l, s)).2
        (program.foldl (fun s a => act o a s) (l, t)).2 := by
  induction program generalizing l s t with
  | nil => exact ⟨rfl, hst⟩
  | cons a program ih =>
      have ha := hok a List.mem_cons_self
      obtain ⟨hlocal, hsees⟩ := h.own ha hl hs ht hst
      have hrest := ih (fun b hb => hok b (List.mem_cons_of_mem a hb)) (h.keeps ha hl hs).1
        (h.keeps ha hl hs).2 (h.keeps ha hl ht).2 hsees
      have hpair : act o a (l, t) = ((act o a (l, s)).1, (act o a (l, t)).2) :=
        Prod.ext hlocal.symm rfl
      rw [List.foldl_cons, List.foldl_cons, hpair]
      exact hrest

theorem alone_step {t : Tasks O S L A} (hok : t.Admitted ok) (hmine : t.Minded mine)
    (hinv : inv t.shared) (p o : O) :
    ((t.step act p).alone act o).1 = (t.alone act o).1 ∧
      sees o ((t.step act p).alone act o).2 (t.alone act o).2 := by
  rcases step_cases act t p with heq | ⟨a, rest, htodo, heq⟩
  · rw [heq]
    exact ⟨rfl, h.refl o _⟩
  · have ha : ok p a := hok p a (htodo ▸ List.mem_cons_self)
    rw [heq]
    unfold alone
    dsimp only
    by_cases hp : p = o
    · subst hp
      rw [Function.update_self, Function.update_self, htodo]
      exact ⟨rfl, h.refl p _⟩
    · have ho : o ≠ p := fun heq => hp heq.symm
      rw [Function.update_of_ne ho, Function.update_of_ne ho]
      exact h.own_foldl (t.todo o) (hok o) (hmine o) (h.keeps ha (hmine p) hinv).2 hinv
        (h.frame ha (hmine p) hp hinv)

/-- Whatever has run so far, an owner's program has the same outcome ahead of it. -/
theorem alone_run (schedule : List O) {t : Tasks O S L A} (hok : t.Admitted ok)
    (hmine : t.Minded mine) (hinv : inv t.shared) (o : O) :
    ((t.run act schedule).alone act o).1 = (t.alone act o).1 ∧
      sees o ((t.run act schedule).alone act o).2 (t.alone act o).2 := by
  induction schedule generalizing t with
  | nil => exact ⟨rfl, h.refl o _⟩
  | cons p schedule ih =>
      obtain ⟨hok', hmine', hinv'⟩ := h.keeps_step hok hmine hinv p
      obtain ⟨hlocal, hsees⟩ := ih hok' hmine' hinv'
      obtain ⟨hlocal', hsees'⟩ := h.alone_step hok hmine hinv p o
      exact ⟨hlocal.trans hlocal', h.trans hsees hsees'⟩

/-- When all programs have ended, each owner is as if its own had run alone. -/
theorem outcome {schedule : List O} {t : Tasks O S L A} (hok : t.Admitted ok)
    (hmine : t.Minded mine) (hinv : inv t.shared) (hdone : (t.run act schedule).Done) (o : O) :
    (t.run act schedule).locals o = (t.alone act o).1 ∧
      sees o (t.run act schedule).shared (t.alone act o).2 := by
  have hrun := h.alone_run schedule hok hmine hinv o
  unfold alone at hrun
  rw [hdone o] at hrun
  exact hrun

end Local

/-! ## What a schedule leaves to do -/

variable (act) in
theorem todo_step (t : Tasks O S L A) (p o : O) :
    (t.step act p).todo o = if p = o then (t.todo o).drop 1 else t.todo o := by
  unfold step
  cases htodo : t.todo p with
  | nil =>
      dsimp only
      split_ifs with hp
      · rw [← hp, htodo, List.drop_nil]
      · rfl
  | cons a rest =>
      dsimp only
      split_ifs with hp
      · rw [← hp, Function.update_self, htodo]
        rfl
      · rw [Function.update_of_ne (fun heq => hp heq.symm)]

variable (act) in
theorem todo_run (schedule : List O) (t : Tasks O S L A) (o : O) :
    (t.run act schedule).todo o = (t.todo o).drop (schedule.count o) := by
  induction schedule generalizing t with
  | nil => rfl
  | cons p schedule ih =>
      change ((t.step act p).run act schedule).todo o = _
      rw [ih, todo_step]
      split_ifs with hp
      · rw [← hp, List.count_cons_self, List.drop_drop, Nat.add_comm]
      · rw [List.count_cons_of_ne hp]

variable (act) in
theorem done_run_iff (schedule : List O) (t : Tasks O S L A) :
    (t.run act schedule).Done ↔ ∀ o, (t.todo o).length ≤ schedule.count o := by
  refine forall_congr' fun o => ?_
  rw [todo_run, List.drop_eq_nil_iff]

variable (act) in
theorem locals_run_of_notMem {schedule : List O} {o : O} (h : o ∉ schedule) (t : Tasks O S L A) :
    (t.run act schedule).locals o = t.locals o := by
  induction schedule generalizing t with
  | nil => rfl
  | cons p schedule ih =>
      rw [List.mem_cons, not_or] at h
      change ((t.step act p).run act schedule).locals o = _
      rw [ih h.2]
      rcases step_cases act t p with heq | ⟨a, rest, -, heq⟩
      · rw [heq]
      · rw [heq]
        exact Function.update_of_ne h.1 _ _

/-! ## One program at a time -/

variable (act) in
/-- Scheduled often enough, a program runs alone to its end. -/
theorem run_replicate (t : Tasks O S L A) (o : O) :
    t.run act (List.replicate (t.todo o).length o) =
      ⟨(t.alone act o).2, Function.update t.locals o (t.alone act o).1,
        Function.update t.todo o []⟩ := by
  generalize htodo : t.todo o = program
  induction program generalizing t with
  | nil =>
      unfold alone
      rw [htodo]
      simp only [List.length_nil, List.replicate_zero, run, List.foldl_nil,
        Function.update_eq_self]
      rw [← htodo, Function.update_eq_self]
  | cons a program ih =>
      have hstep : t.step act o = ⟨(act o a (t.locals o, t.shared)).2,
          Function.update t.locals o (act o a (t.locals o, t.shared)).1,
          Function.update t.todo o program⟩ := by
        unfold step
        rw [htodo]
      have hrest := ih (t.step act o) (by rw [hstep]; exact Function.update_self _ _ _)
      have halone : (t.step act o).alone act o = t.alone act o := by
        unfold alone
        rw [hstep, htodo]
        simp only [Function.update_self, List.foldl_cons]
      rw [List.length_cons, List.replicate_succ, run, List.foldl_cons]
      rw [run] at hrest
      rw [hrest, halone, hstep]
      simp only [Function.update_idem]

end Tasks

end Lib
