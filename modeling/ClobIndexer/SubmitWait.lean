import ClobIndexer.Lib.Dict
/-!
# Waiting for receipts

`SubmitWaitRegistry` of `src/submit_wait.rs` and the two stages of a submit in
`src/submit_queue.rs`.  The registry keeps one sender for each digest: a second
submit of a transaction takes the place of the first, whose channel is closed by
that, and an error path removes whatever sender is registered for the digest.  A
run is a sequence of steps of any number of submits and of the blocks that
complete digests.
-/

namespace ClobIndexer

open Lib

variable {R : Type}

structure SubmitWaitResult (R : Type) where
  blockNum : UInt64
  receipt : R
deriving DecidableEq

inductive SubmitAnswer (R : Type) where
  | receipt (result : SubmitWaitResult R)
  | mempoolError
  | waiterDropped
  | timeout
deriving DecidableEq

/-- Where a submit is: in the ingress task, in its own task, or answered. -/
inductive SubmitPhase (R : Type) where
  | sending
  | waiting
  | answered (answer : SubmitAnswer R)
deriving DecidableEq

structure Submit (R : Type) where
  digest : String
  inbox : Option (SubmitWaitResult R)
  phase : SubmitPhase R
deriving DecidableEq

/-- The registry maps a digest to the submit whose sender it holds. -/
structure SubmitSystem (R : Type) where
  pending : Dict String Nat := ∅
  submits : Dict Nat (Submit R) := ∅
  ingress : Option Nat := none
deriving DecidableEq

inductive SubmitStep (R : Type) where
  | register (id : Nat) (digest : String)
  | accepted (id : Nat)
  | rejected (id : Nat)
  | poll (id : Nat) (timedOut : Bool)
  | complete (digest : String) (result : SubmitWaitResult R)
deriving DecidableEq

namespace Submit

def Open (s : Submit R) : Prop := s.phase = .sending ∨ s.phase = .waiting

end Submit

namespace SubmitSystem

def setSubmit (id : Nat) (submit : Submit R) (s : SubmitSystem R) : SubmitSystem R :=
  { s with submits := s.submits.insert id submit }

def cancel (digest : String) (s : SubmitSystem R) : SubmitSystem R :=
  { s with pending := s.pending.erase digest }

/-- The ingress task takes the next job, after it is done with the one before. -/
def register (id : Nat) (digest : String) (s : SubmitSystem R) : SubmitSystem R :=
  if s.ingress = none ∧ s.submits.lookup id = none then
    { pending := s.pending.insert digest id
      submits := s.submits.insert id ⟨digest, none, .sending⟩
      ingress := some id }
  else s

def accepted (id : Nat) (s : SubmitSystem R) : SubmitSystem R :=
  match s.submits.lookup id with
  | some submit =>
      if s.ingress = some id then
        { s.setSubmit id { submit with phase := .waiting } with ingress := none }
      else s
  | none => s

def rejected (id : Nat) (s : SubmitSystem R) : SubmitSystem R :=
  match s.submits.lookup id with
  | some submit =>
      if s.ingress = some id then
        { (s.cancel submit.digest).setSubmit id
            { submit with phase := .answered .mempoolError } with ingress := none }
      else s
  | none => s

/-- `wait_for_receipt`, polled once: a value in the channel comes first, then a
closed channel, then the timer. -/
def poll (id : Nat) (timedOut : Bool) (s : SubmitSystem R) : SubmitSystem R :=
  match s.submits.lookup id with
  | none => s
  | some submit =>
      match submit.phase, submit.inbox with
      | .waiting, some result => s.setSubmit id { submit with phase := .answered (.receipt result) }
      | .waiting, none =>
          if s.pending.lookup submit.digest ≠ some id then
            (s.cancel submit.digest).setSubmit id
              { submit with phase := .answered .waiterDropped }
          else if timedOut then
            (s.cancel submit.digest).setSubmit id { submit with phase := .answered .timeout }
          else s
      | _, _ => s

def complete (digest : String) (result : SubmitWaitResult R) (s : SubmitSystem R) :
    SubmitSystem R :=
  match s.pending.lookup digest with
  | none => s
  | some id =>
      match s.submits.lookup id with
      | none => s.cancel digest
      | some submit => (s.cancel digest).setSubmit id { submit with inbox := some result }

def step (s : SubmitSystem R) : SubmitStep R → SubmitSystem R
  | .register id digest => s.register id digest
  | .accepted id => s.accepted id
  | .rejected id => s.rejected id
  | .poll id timedOut => s.poll id timedOut
  | .complete digest result => s.complete digest result

def run (steps : List (SubmitStep R)) (s : SubmitSystem R) : SubmitSystem R :=
  steps.foldl step s

def answer (id : Nat) (s : SubmitSystem R) : Option (SubmitAnswer R) :=
  match s.submits.lookup id with
  | some ⟨_, _, .answered answer⟩ => some answer
  | _ => none

def completes (id : Nat) (s : SubmitSystem R) : SubmitStep R → Option (SubmitWaitResult R)
  | .complete digest result =>
      match s.submits.lookup id with
      | some ⟨digest', _, .sending⟩ => if digest' = digest then some result else none
      | some ⟨digest', _, .waiting⟩ => if digest' = digest then some result else none
      | _ => none
  | _ => none

/-- The first result that a block gives for the submit's digest after it registered
and before it answered. -/
def firstCompletion (id : Nat) : SubmitSystem R → List (SubmitStep R) →
    Option (SubmitWaitResult R)
  | _, [] => none
  | s, step :: steps => (s.completes id step).or (firstCompletion id (s.step step) steps)

/-- No registration of the run takes the place of a pending one. -/
def RegistersFree : SubmitSystem R → List (SubmitStep R) → Prop
  | _, [] => True
  | s, step :: steps =>
      (∀ id digest, step = .register id digest → s.pending.lookup digest = none) ∧
        RegistersFree (s.step step) steps

/-! ## Invariant -/

section Lookups

variable (s : SubmitSystem R) (id other : Nat) (submit : Submit R) (digest other' : String)

@[simp] theorem lookup_submits_setSubmit : (s.setSubmit id submit).submits.lookup other =
    if other = id then some submit else s.submits.lookup other :=
  Dict.lookup_insert_ite id other submit s.submits

@[simp] theorem pending_setSubmit : (s.setSubmit id submit).pending = s.pending := rfl

@[simp] theorem ingress_setSubmit : (s.setSubmit id submit).ingress = s.ingress := rfl

@[simp] theorem lookup_pending_cancel : (s.cancel digest).pending.lookup other' =
    if other' = digest then none else s.pending.lookup other' :=
  Dict.lookup_erase_ite digest other' s.pending

@[simp] theorem submits_cancel : (s.cancel digest).submits = s.submits := rfl

@[simp] theorem ingress_cancel : (s.cancel digest).ingress = s.ingress := rfl

end Lookups

def Fair (s : SubmitSystem R) (id : Nat) (submit : Submit R)
    (owed : Option (SubmitWaitResult R)) : Prop :=
  match submit.phase with
  | .sending => submit.inbox = owed ∧ s.ingress = some id ∧
      (s.pending.lookup submit.digest = none ∧ owed ≠ none ∨
        s.pending.lookup submit.digest = some id ∧ owed = none)
  | .waiting => submit.inbox = owed ∧ s.ingress ≠ some id ∧
      (owed = none → s.pending.lookup submit.digest = some id)
  | .answered answer => s.ingress ≠ some id ∧ ∀ result, owed = some result →
      answer = .mempoolError ∨ answer = .receipt result

/-- Submits have what they are owed, and the registry holds the senders of those
that are owed nothing yet. -/
structure Inv (owed : Nat → Option (SubmitWaitResult R)) (s : SubmitSystem R) : Prop where
  fair : ∀ id submit, s.submits.lookup id = some submit → s.Fair id submit (owed id)
  unknown : ∀ id, s.submits.lookup id = none → owed id = none
  owner : ∀ digest id, s.pending.lookup digest = some id → ∃ submit,
    s.submits.lookup id = some submit ∧ submit.digest = digest ∧ submit.inbox = none ∧ submit.Open

variable {s : SubmitSystem R} {owed : Nat → Option (SubmitWaitResult R)}

theorem inv_register {id : Nat} {digest : String} (h : Inv owed s)
    (hfree : s.pending.lookup digest = none) : Inv owed (s.register id digest) := by
  rw [register]
  split_ifs with hc
  case neg => exact h
  obtain ⟨hidle, hnew⟩ := hc
  constructor
  · intro other submit hother
    rw [Dict.lookup_insert_ite] at hother
    split_ifs at hother with heq
    · cases hother
      subst heq
      have hnone : owed other = none := h.unknown other hnew
      simp [Fair, hnone]
    · have hfair := h.fair other submit hother
      simp only [Fair, Dict.lookup_insert_ite] at hfair ⊢
      grind
  · intro other hother
    rw [Dict.lookup_insert_ite] at hother
    split_ifs at hother
    exact h.unknown other hother
  · intro d other hd
    simp only [Dict.lookup_insert_ite] at hd ⊢
    split_ifs at hd with heq
    · cases hd
      simp [heq, Submit.Open]
    · obtain ⟨submit, hsubmit, hrest⟩ := h.owner d other hd
      have hne : other ≠ id := by
        rintro rfl
        rw [hnew] at hsubmit
        cases hsubmit
      exact ⟨submit, by rw [if_neg hne, hsubmit], hrest⟩

theorem Inv.owns (h : Inv owed s) {id : Nat} {submit : Submit R} {digest : String}
    (hsubmit : s.submits.lookup id = some submit) (hd : s.pending.lookup digest = some id) :
    submit.digest = digest ∧ submit.inbox = none ∧ submit.Open := by
  obtain ⟨submit', hsubmit', hrest⟩ := h.owner digest id hd
  rw [hsubmit] at hsubmit'
  cases hsubmit'
  exact hrest

/-- A step that touches one submit keeps the invariant when that submit gets what it
is owed, the others keep what they have, and no sender enters the registry. -/
theorem Inv.touch {s' : SubmitSystem R} {owed' : Nat → Option (SubmitWaitResult R)} {id : Nat}
    {old : Submit R} (new : Submit R) (h : Inv owed s) (hold : s.submits.lookup id = some old)
    (hdigest : new.digest = old.digest)
    (hsubmits : ∀ other, s'.submits.lookup other =
      if other = id then some new else s.submits.lookup other)
    (howed : ∀ other, s.submits.lookup other = none → owed' other = owed other)
    (hpending : ∀ digest other, s'.pending.lookup digest = some other →
      s.pending.lookup digest = some other ∧ (other = id → new.inbox = none ∧ new.Open))
    (hmine : s'.Fair id new (owed' id))
    (hothers : ∀ other submit, other ≠ id → s.submits.lookup other = some submit →
      s.Fair other submit (owed other) → s'.Fair other submit (owed' other)) :
    Inv owed' s' := by
  constructor
  · intro other submit hother
    rw [hsubmits] at hother
    split_ifs at hother with heq
    · cases hother
      exact heq ▸ hmine
    · exact hothers other submit heq hother (h.fair other submit hother)
  · intro other hother
    rw [hsubmits] at hother
    split_ifs at hother
    rw [howed other hother]
    exact h.unknown other hother
  · intro digest other hd
    obtain ⟨hd, hnew⟩ := hpending digest other hd
    obtain ⟨submit, hsubmit, hdig, hrest⟩ := h.owner digest other hd
    rw [hsubmits]
    by_cases heq : other = id
    · subst heq
      rw [hold] at hsubmit
      cases hsubmit
      exact ⟨new, if_pos rfl, hdigest.trans hdig, hnew rfl⟩
    · exact ⟨submit, (if_neg heq).trans hsubmit, hdig, hrest⟩

theorem inv_accepted {id : Nat} (h : Inv owed s) : Inv owed (s.accepted id) := by
  rw [accepted]
  split
  case h_2 => exact h
  next submit hsubmit =>
    split_ifs with hc
    case neg => exact h
    have hmine := h.fair id submit hsubmit
    refine h.touch { submit with phase := .waiting } hsubmit rfl (lookup_submits_setSubmit s id · _)
      (fun _ _ => rfl) ?_ ?_ ?_
    · intro digest other hd
      refine ⟨hd, ?_⟩
      rintro rfl
      exact ⟨(h.owns hsubmit hd).2.1, .inr rfl⟩
    · simp only [Fair, pending_setSubmit] at hmine ⊢
      grind
    · intro other submit' hne _ hfair
      simp only [Fair, pending_setSubmit] at hfair ⊢
      grind

theorem inv_rejected {id : Nat} (h : Inv owed s) : Inv owed (s.rejected id) := by
  rw [rejected]
  split
  case h_2 => exact h
  next submit hsubmit =>
    split_ifs with hc
    case neg => exact h
    have hmine := h.fair id submit hsubmit
    refine h.touch { submit with phase := .answered .mempoolError } hsubmit rfl (lookup_submits_setSubmit _ id · _)
      (fun _ _ => rfl) ?_ ?_ ?_
    · intro digest other hd
      simp only [pending_setSubmit, lookup_pending_cancel] at hd
      split_ifs at hd with heq
      refine ⟨hd, ?_⟩
      rintro rfl
      exact absurd (h.owns hsubmit hd).1.symm heq
    · simp [Fair]
    · intro other submit' hne _ hfair
      simp only [Fair, pending_setSubmit, lookup_pending_cancel] at hmine hfair ⊢
      grind

/-- A submit answers a receipt that it has, and it only times out when it is owed
nothing: its channel is not closed before that. -/
theorem inv_poll {id : Nat} {timedOut : Bool} (h : Inv owed s) :
    Inv owed (s.poll id timedOut) := by
  rw [poll]
  split
  case h_1 => exact h
  next submit hsubmit =>
    have hmine := h.fair id submit hsubmit
    split
    case h_3 => exact h
    case h_1 result hphase hinbox =>
      refine h.touch { submit with phase := .answered (.receipt result) } hsubmit rfl (lookup_submits_setSubmit s id · _)
        (fun _ _ => rfl) ?_ ?_ ?_
      · intro digest other hd
        refine ⟨hd, ?_⟩
        rintro rfl
        have hnone := (h.owns hsubmit hd).2.1
        rw [hinbox] at hnone
        cases hnone
      · simp only [Fair, hphase, ingress_setSubmit] at hmine ⊢
        grind
      · intro other submit' hne _ hfair
        exact hfair
    case h_2 hphase hinbox =>
      have howner : s.pending.lookup submit.digest = some id := by
        simp only [Fair, hphase] at hmine
        exact hmine.2.2 (hmine.1.symm.trans hinbox)
      rw [if_neg (not_not_intro howner)]
      split_ifs
      case neg => exact h
      refine h.touch { submit with phase := .answered .timeout } hsubmit rfl (lookup_submits_setSubmit _ id · _)
        (fun _ _ => rfl) ?_ ?_ ?_
      · intro digest other hd
        simp only [pending_setSubmit, lookup_pending_cancel] at hd
        split_ifs at hd with heq
        refine ⟨hd, ?_⟩
        rintro rfl
        exact absurd (h.owns hsubmit hd).1.symm heq
      · simp only [Fair, hphase, ingress_setSubmit, ingress_cancel] at hmine ⊢
        grind
      · intro other submit' hne _ hfair
        simp only [Fair, pending_setSubmit, lookup_pending_cancel, ingress_setSubmit,
          ingress_cancel] at hfair ⊢
        grind

theorem completes_complete (id : Nat) (submit : Submit R) (digest : String)
    (result : SubmitWaitResult R) (hsubmit : s.submits.lookup id = some submit) :
    s.completes id (.complete digest result) =
      match submit.phase with
      | .answered _ => none
      | _ => if submit.digest = digest then some result else none := by
  obtain ⟨digest', inbox, phase⟩ := submit
  rw [completes, hsubmit]
  cases phase <;> rfl

theorem completes_of_unknown (step : SubmitStep R) {id : Nat}
    (hunknown : s.submits.lookup id = none) : s.completes id step = none := by
  cases step <;> simp [completes, hunknown]

theorem or_completes_of_not_owner {id : Nat} {submit : Submit R} {digest : String}
    (result : SubmitWaitResult R) {due : Option (SubmitWaitResult R)}
    (hsubmit : s.submits.lookup id = some submit) (hfair : s.Fair id submit due)
    (hother : s.pending.lookup digest ≠ some id) :
    due.or (s.completes id (.complete digest result)) = due := by
  cases due with
  | some r => rfl
  | none =>
      rw [completes_complete id submit digest result hsubmit, Option.none_or]
      have hne : s.pending.lookup submit.digest = some id → submit.digest ≠ digest := by
        intro howner heq
        exact hother (heq ▸ howner)
      simp only [Fair] at hfair
      cases hphase : submit.phase with
      | answered a => rfl
      | waiting =>
          simp only [hphase] at hfair
          exact if_neg (hne (hfair.2.2 trivial))
      | sending =>
          simp only [hphase] at hfair
          rcases hfair.2.2 with hnone | howner
          · exact absurd rfl hnone.2
          · exact if_neg (hne howner.1)

/-- The sender that a block takes is that of the one open submit of its digest that
is owed nothing yet. -/
theorem inv_complete {digest : String} {result : SubmitWaitResult R} (h : Inv owed s) :
    Inv (fun id => (owed id).or (s.completes id (.complete digest result)))
      (s.complete digest result) := by
  rw [complete]
  split
  case h_1 hnone =>
    refine ⟨?_, ?_, h.owner⟩
    · intro id submit hsubmit
      have hfair := h.fair id submit hsubmit
      rw [or_completes_of_not_owner result hsubmit hfair (by simp [hnone])]
      exact hfair
    · intro id hid
      rw [h.unknown id hid, completes_of_unknown _ hid]
      rfl
  case h_2 id hid =>
    obtain ⟨submit, hsubmit, hdigest, hinbox, hopen⟩ := h.owner digest id hid
    have hmine := h.fair id submit hsubmit
    simp only [hsubmit]
    refine h.touch { submit with inbox := some result } hsubmit rfl
      (lookup_submits_setSubmit _ id · _) ?_ ?_ ?_ ?_
    · intro other hother
      simp only [completes_of_unknown _ hother, Option.or_none]
    · intro digest' other hd
      simp only [pending_setSubmit, lookup_pending_cancel] at hd
      split_ifs at hd with heq
      refine ⟨hd, ?_⟩
      rintro rfl
      exact absurd ((h.owns hsubmit hd).1.symm.trans hdigest) heq
    · rw [completes_complete id submit digest result hsubmit]
      simp only [Fair, pending_setSubmit, lookup_pending_cancel, ingress_setSubmit,
        ingress_cancel] at hmine ⊢
      rcases hopen with hphase | hphase
      · simp only [hphase] at hmine ⊢
        grind
      · simp only [hphase] at hmine ⊢
        grind
    · intro other submit' hne hsubmit' hfair
      rw [or_completes_of_not_owner result hsubmit' hfair (by grind)]
      simp only [Fair, pending_setSubmit, lookup_pending_cancel, ingress_setSubmit,
        ingress_cancel] at hfair ⊢
      grind

theorem inv_step {step : SubmitStep R} (h : Inv owed s)
    (hfree : ∀ id digest, step = .register id digest → s.pending.lookup digest = none) :
    Inv (fun id => (owed id).or (s.completes id step)) (s.step step) := by
  cases step with
  | complete digest result => exact inv_complete h
  | register id digest => simpa [completes, step] using inv_register h (hfree id digest rfl)
  | accepted id => simpa [completes, step] using inv_accepted h
  | rejected id => simpa [completes, step] using inv_rejected h
  | poll id timedOut => simpa [completes, step] using inv_poll h

theorem inv_run {steps : List (SubmitStep R)} (h : Inv owed s) (hfree : s.RegistersFree steps) :
    Inv (fun id => (owed id).or (firstCompletion id s steps)) (s.run steps) := by
  induction steps generalizing s owed with
  | nil => simpa [firstCompletion, run] using h
  | cons step steps ih =>
      have hstep := ih (inv_step h hfree.1) hfree.2
      simp only [Option.or_assoc] at hstep
      exact hstep

namespace Sample

end Sample

end SubmitSystem

end ClobIndexer
