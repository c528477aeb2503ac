import ClobIndexer.SubmitWait
import Mathlib.Data.List.Induction
/-!
# The tasks of the submit queue

The ingress task, the tasks that wait for a receipt and the block processor of
`src/submit_queue.rs` and `src/submit_wait.rs`, one access to the registry at a time: an
error path has decided on its answer before it cancels, and `complete` takes a sender out
of the registry before it uses it.  All of them name a sender by its digest only.
-/

namespace ClobIndexer

open Lib

variable {R : Type}

structure SubmitTransactionResponse (R : Type) where
  digest : String
  blockNum : UInt64
  receipt : R
deriving DecidableEq

inductive SubmitError where
  | mempool (error : String)
  | internal (message : String)
  | timeout (message : String)
deriving DecidableEq

abbrev JobResult (R : Type) := Except SubmitError (SubmitTransactionResponse R)

/-- Where a job is.  One that is failing has yet to cancel, and one that is answering has yet
to send its result. -/
inductive JobPhase (R : Type) where
  | sending
  | waiting
  | failing (error : SubmitError)
  | answering (result : JobResult R)
  | finished (result : JobResult R)
deriving DecidableEq

structure SubmitJob (R : Type) where
  digest : String
  inbox : Option (SubmitWaitResult R)
  phase : JobPhase R
deriving DecidableEq

namespace SubmitJob

def Finished (job : SubmitJob R) : Prop := ∃ result, job.phase = .finished result

def hasReceiver (job : SubmitJob R) : Bool :=
  match job.phase with
  | .sending => true
  | .waiting => true
  | _ => false

/-- A sender of the job may be registered: it has not answered and not cancelled. -/
def Holding (job : SubmitJob R) : Prop :=
  match job.phase with
  | .sending => True
  | .waiting => True
  | .failing _ => True
  | _ => False

theorem Holding.not_finished {job : SubmitJob R} (h : job.Holding) : ¬job.Finished := by
  rintro ⟨result, hphase⟩
  unfold Holding at h
  rw [hphase] at h
  exact h

end SubmitJob

/-- The registry maps a digest to the job whose sender it holds. -/
structure SubmitJobs (R : Type) where
  pending : Dict String Nat := ∅
  jobs : Dict Nat (SubmitJob R) := ∅
  ingress : Option Nat := none
  /-- senders that `complete` has taken out of the registry and not used yet -/
  taken : List (Nat × SubmitWaitResult R) := []
deriving DecidableEq

inductive JobStep (R : Type) where
  | register (id : Nat) (digest : String)
  | accepted (id : Nat)
  | rejected (id : Nat) (error : String)
  | poll (id : Nat) (timedOut : Bool)
  | cancel (id : Nat)
  | respond (id : Nat)
  | take (digest : String) (result : SubmitWaitResult R)
  | send (n : Nat)
deriving DecidableEq

namespace SubmitJobs

def setJob (id : Nat) (job : SubmitJob R) (s : SubmitJobs R) : SubmitJobs R :=
  { s with jobs := s.jobs.insert id job }

/-- The ingress task takes the next job and registers it; a sender of the digest that was
registered is dropped. -/
def register (id : Nat) (digest : String) (s : SubmitJobs R) : SubmitJobs R :=
  if s.ingress = none ∧ s.jobs.lookup id = none then
    { s with
      pending := s.pending.insert digest id
      jobs := s.jobs.insert id ⟨digest, none, .sending⟩
      ingress := some id }
  else s

/-- The mempool has the transaction, and a task of its own waits for the receipt. -/
def accepted (id : Nat) (s : SubmitJobs R) : SubmitJobs R :=
  match s.jobs.lookup id with
  | none => s
  | some job =>
      match job.phase with
      | .sending => { s.setJob id { job with phase := .waiting } with ingress := none }
      | _ => s

def rejected (id : Nat) (error : String) (s : SubmitJobs R) : SubmitJobs R :=
  match s.jobs.lookup id with
  | none => s
  | some job =>
      match job.phase with
      | .sending => s.setJob id { job with phase := .failing (.mempool error) }
      | _ => s

def closed (id : Nat) (digest : String) (s : SubmitJobs R) : Bool :=
  decide (s.pending.lookup digest ≠ some id) && s.taken.all fun t => t.1 != id

/-- `wait_for_receipt`, polled once: a value in the channel comes first, then a closed
channel, then the timer. -/
def poll (id : Nat) (timedOut : Bool) (s : SubmitJobs R) : SubmitJobs R :=
  match s.jobs.lookup id with
  | none => s
  | some job =>
      match job.phase, job.inbox with
      | .waiting, some result =>
          s.setJob id
            { job with phase := .answering (.ok ⟨job.digest, result.blockNum, result.receipt⟩) }
      | .waiting, none =>
          if s.closed id job.digest then
            s.setJob id
              { job with
                phase := .failing
                  (.internal ("submit waiter dropped for transaction " ++ job.digest)) }
          else if timedOut then
            s.setJob id
              { job with
                phase := .failing (.timeout
                  ("timed out waiting for transaction " ++ job.digest ++ " to be committed")) }
          else s
      | _, _ => s

/-- `cancel`, on an error path: whatever sender is registered for the digest goes. -/
def cancel (id : Nat) (s : SubmitJobs R) : SubmitJobs R :=
  match s.jobs.lookup id with
  | none => s
  | some job =>
      match job.phase with
      | .failing error =>
          { s.setJob id { job with phase := .answering (.error error) } with
            pending := s.pending.erase job.digest }
      | _ => s

/-- The result goes to the caller; a job that the mempool refused leaves the ingress task
with it. -/
def respond (id : Nat) (s : SubmitJobs R) : SubmitJobs R :=
  match s.jobs.lookup id with
  | none => s
  | some job =>
      match job.phase with
      | .answering result =>
          { s.setJob id { job with phase := .finished result } with
            ingress := if s.ingress = some id then none else s.ingress }
      | _ => s

/-- The first half of `complete`. -/
def take (digest : String) (result : SubmitWaitResult R) (s : SubmitJobs R) : SubmitJobs R :=
  match s.pending.lookup digest with
  | none => s
  | some id => { s with pending := s.pending.erase digest, taken := s.taken ++ [(id, result)] }

/-- The second half of `complete`: the value is lost where the receiver is gone. -/
def send (n : Nat) (s : SubmitJobs R) : SubmitJobs R :=
  match s.taken[n]? with
  | none => s
  | some (id, result) =>
      let s := { s with taken := s.taken.eraseIdx n }
      match s.jobs.lookup id with
      | none => s
      | some job => if job.hasReceiver then s.setJob id { job with inbox := some result } else s

def step (s : SubmitJobs R) : JobStep R → SubmitJobs R
  | .register id digest => s.register id digest
  | .accepted id => s.accepted id
  | .rejected id error => s.rejected id error
  | .poll id timedOut => s.poll id timedOut
  | .cancel id => s.cancel id
  | .respond id => s.respond id
  | .take digest result => s.take digest result
  | .send n => s.send n

def run (steps : List (JobStep R)) : SubmitJobs R := steps.foldl step {}

/-! ## What holds of every run -/

/-- A block completed the digest with the result while the job was registered and had not
finished. -/
def Completed (steps : List (JobStep R)) (id : Nat) (digest : String)
    (result : SubmitWaitResult R) : Prop :=
  ∃ before after job, steps = before ++ .take digest result :: after ∧
    (run before).jobs.lookup id = some job ∧ job.digest = digest ∧ ¬job.Finished

/-- A registered sender is that of an unfinished job of the digest, and every result on its
way to a caller was completed for the job. -/
structure Sound (steps : List (JobStep R)) (s : SubmitJobs R) : Prop where
  owner : ∀ digest id, s.pending.lookup digest = some id →
    (∃ job, s.jobs.lookup id = some job ∧ job.digest = digest ∧ job.inbox = none ∧ job.Holding) ∧
      ∀ t ∈ s.taken, t.1 ≠ id
  taken : ∀ t ∈ s.taken, ∃ job, s.jobs.lookup t.1 = some job ∧
    Completed steps t.1 job.digest t.2
  inbox : ∀ id job result, s.jobs.lookup id = some job → job.inbox = some result →
    Completed steps id job.digest result
  answer : ∀ id job response, s.jobs.lookup id = some job →
    job.phase = .answering (.ok response) ∨ job.phase = .finished (.ok response) →
    response.digest = job.digest ∧
      Completed steps id job.digest ⟨response.blockNum, response.receipt⟩

theorem Completed.snoc {steps : List (JobStep R)} {id : Nat} {digest : String}
    {result : SubmitWaitResult R} (h : Completed steps id digest result) (step : JobStep R) :
    Completed (steps ++ [step]) id digest result := by
  obtain ⟨before, after, job, rfl, hjob⟩ := h
  refine ⟨before, after ++ [step], job, ?_, hjob⟩
  rw [List.append_assoc, List.cons_append]

section

variable {steps : List (JobStep R)} {s : SubmitJobs R}

theorem Sound.snoc (h : Sound steps s) (step : JobStep R) : Sound (steps ++ [step]) s where
  owner := h.owner
  taken := by
    intro t ht
    obtain ⟨job, hjob, hcompleted⟩ := h.taken t ht
    exact ⟨job, hjob, hcompleted.snoc step⟩
  inbox := fun id job result hjob hinbox => (h.inbox id job result hjob hinbox).snoc step
  answer := fun id job response hjob hphase =>
    (h.answer id job response hjob hphase).imp_right fun hcompleted => hcompleted.snoc step

theorem Sound.setJob (h : Sound steps s) {id : Nat} {old : SubmitJob R} (new : SubmitJob R)
    (hold : s.jobs.lookup id = some old) (hdigest : new.digest = old.digest)
    (howner : s.pending.lookup old.digest = some id → new.inbox = none ∧ new.Holding)
    (hinbox : ∀ result, new.inbox = some result → Completed steps id new.digest result)
    (hanswer : ∀ response,
      new.phase = .answering (.ok response) ∨ new.phase = .finished (.ok response) →
      response.digest = new.digest ∧
        Completed steps id new.digest ⟨response.blockNum, response.receipt⟩) :
    Sound steps (s.setJob id new) := by
  have hlookup : ∀ other, (s.setJob id new).jobs.lookup other =
      if other = id then some new else s.jobs.lookup other :=
    fun other => Dict.lookup_insert_ite id other new s.jobs
  constructor
  · intro digest other hother
    obtain ⟨⟨job, hjob, hkey, hholding⟩, htaken⟩ := h.owner digest other hother
    refine ⟨?_, htaken⟩
    rw [hlookup]
    by_cases heq : other = id
    · subst heq
      rw [hold, Option.some.injEq] at hjob
      subst hjob
      exact ⟨new, if_pos rfl, hdigest.trans hkey, howner (hkey ▸ hother)⟩
    · exact ⟨job, (if_neg heq).trans hjob, hkey, hholding⟩
  · intro t ht
    obtain ⟨job, hjob, hcompleted⟩ := h.taken t ht
    rw [hlookup]
    by_cases heq : t.1 = id
    · rw [heq, hold, Option.some.injEq] at hjob
      subst hjob
      exact ⟨new, if_pos heq, hdigest ▸ hcompleted⟩
    · exact ⟨job, (if_neg heq).trans hjob, hcompleted⟩
  · intro other job result hjob hresult
    rw [hlookup] at hjob
    split_ifs at hjob with heq
    · rw [heq, ← Option.some.inj hjob]
      exact hinbox result ((Option.some.inj hjob).symm ▸ hresult)
    · exact h.inbox other job result hjob hresult
  · intro other job response hjob hphase
    rw [hlookup] at hjob
    split_ifs at hjob with heq
    · rw [heq, ← Option.some.inj hjob]
      exact hanswer response ((Option.some.inj hjob).symm ▸ hphase)
    · exact h.answer other job response hjob hphase

theorem Sound.drop (h : Sound steps s) {s' : SubmitJobs R} (hjobs : s'.jobs = s.jobs)
    (hpending : ∀ digest id, s'.pending.lookup digest = some id →
      s.pending.lookup digest = some id)
    (htaken : ∀ t ∈ s'.taken, t ∈ s.taken) : Sound steps s' where
  owner := by
    intro digest id hid
    obtain ⟨hjob, hnot⟩ := h.owner digest id (hpending digest id hid)
    rw [hjobs]
    exact ⟨hjob, fun t ht => hnot t (htaken t ht)⟩
  taken := by
    intro t ht
    rw [hjobs]
    exact h.taken t (htaken t ht)
  inbox := by
    rw [hjobs]
    exact h.inbox
  answer := by
    rw [hjobs]
    exact h.answer

theorem lookup_erase_some {digest other : String} {id : Nat}
    (h : (s.pending.erase digest).lookup other = some id) :
    other ≠ digest ∧ s.pending.lookup other = some id := by
  rw [Dict.lookup_erase_ite] at h
  split_ifs at h with heq
  exact ⟨heq, h⟩

theorem sound_register (h : Sound steps s) (id : Nat) (digest : String) :
    Sound steps (s.register id digest) := by
  unfold register
  split_ifs with hfree
  case neg => exact h
  obtain ⟨-, hnew⟩ := hfree
  have hother : ∀ {other job}, s.jobs.lookup other = some job → other ≠ id := by
    rintro other job hjob rfl
    rw [hnew] at hjob
    nomatch hjob
  have hkept : ∀ {other job}, s.jobs.lookup other = some job →
      (s.jobs.insert id ⟨digest, none, .sending⟩).lookup other = some job := by
    intro other job hjob
    rw [AList.lookup_insert_ne (hother hjob)]
    exact hjob
  -- the new job has nothing yet
  have hold : ∀ {other job}, (s.jobs.insert id ⟨digest, none, .sending⟩).lookup other = some job →
      job.inbox = none ∧ job.phase = .sending ∨ s.jobs.lookup other = some job := by
    intro other job hjob
    rw [Dict.lookup_insert_ite] at hjob
    split_ifs at hjob
    · exact Or.inl (by rw [← Option.some.inj hjob]; exact ⟨rfl, rfl⟩)
    · exact Or.inr hjob
  constructor
  · intro d other hd
    dsimp only at hd ⊢
    rw [Dict.lookup_insert_ite] at hd
    split_ifs at hd with heq
    · obtain rfl := Option.some.inj hd
      refine ⟨⟨⟨digest, none, .sending⟩, AList.lookup_insert _, heq.symm, rfl, trivial⟩, ?_⟩
      intro t ht htid
      obtain ⟨job, hjob, -⟩ := h.taken t ht
      exact hother hjob htid
    · obtain ⟨⟨job, hjob, hrest⟩, htaken⟩ := h.owner d other hd
      exact ⟨⟨job, hkept hjob, hrest⟩, htaken⟩
  · intro t ht
    obtain ⟨job, hjob, hcompleted⟩ := h.taken t ht
    exact ⟨job, hkept hjob, hcompleted⟩
  · intro other job result hjob hresult
    rcases hold hjob with ⟨hnone, -⟩ | hjob
    · rw [hnone] at hresult
      nomatch hresult
    · exact h.inbox other job result hjob hresult
  · intro other job response hjob hphase
    rcases hold hjob with ⟨-, hsending⟩ | hjob
    · rw [hsending] at hphase
      rcases hphase with hphase | hphase <;> nomatch hphase
    · exact h.answer other job response hjob hphase

theorem Sound.setPhase (h : Sound steps s) {id : Nat} {job : SubmitJob R}
    (hjob : s.jobs.lookup id = some job) (phase : JobPhase R)
    (hholding : SubmitJob.Holding { job with phase }) :
    Sound steps (s.setJob id { job with phase }) := by
  refine h.setJob _ hjob rfl ?_ (h.inbox id job · hjob) ?_
  · intro hpending
    obtain ⟨⟨owner, howner, -, hinbox, -⟩, -⟩ := h.owner _ _ hpending
    rw [hjob, Option.some.injEq] at howner
    exact ⟨howner ▸ hinbox, hholding⟩
  · intro response hphase
    unfold SubmitJob.Holding at hholding
    rcases hphase with rfl | rfl
    · exact hholding.elim
    · exact hholding.elim

theorem sound_accepted (h : Sound steps s) (id : Nat) : Sound steps (s.accepted id) := by
  unfold accepted
  split
  · exact h
  · rename_i job hjob
    split
    · exact (h.setPhase hjob .waiting trivial).drop rfl (fun _ _ hid => hid) fun _ ht => ht
    · exact h

theorem sound_rejected (h : Sound steps s) (id : Nat) (error : String) :
    Sound steps (s.rejected id error) := by
  unfold rejected
  split
  · exact h
  · rename_i job hjob
    split
    · exact h.setPhase hjob _ trivial
    · exact h

theorem sound_poll (h : Sound steps s) (id : Nat) (timedOut : Bool) :
    Sound steps (s.poll id timedOut) := by
  unfold poll
  split
  · exact h
  · rename_i job hjob
    split
    · -- the value was put there by a block
      rename_i result hphase hresult
      refine h.setJob _ hjob rfl ?_ (h.inbox id job · hjob) ?_
      · intro hpending
        obtain ⟨⟨owner, howner, -, hinbox, -⟩, -⟩ := h.owner _ _ hpending
        rw [hjob, Option.some.injEq] at howner
        rw [← howner, hresult] at hinbox
        nomatch hinbox
      · rintro response (hresponse | hresponse)
        · cases hresponse
          exact ⟨rfl, h.inbox id job result hjob hresult⟩
        · nomatch hresponse
    · split_ifs
      · exact h.setPhase hjob _ trivial
      · exact h.setPhase hjob _ trivial
      · exact h
    · exact h

theorem sound_cancel (h : Sound steps s) (id : Nat) : Sound steps (s.cancel id) := by
  unfold cancel
  split
  · exact h
  · rename_i job hjob
    split
    · rename_i error hphase
      have herased : Sound steps { s with pending := s.pending.erase job.digest } :=
        h.drop rfl (fun _ _ hid => (lookup_erase_some hid).2) fun _ ht => ht
      refine herased.setJob _ hjob rfl ?_ (h.inbox id job · hjob) ?_
      · intro hpending
        exact absurd rfl (lookup_erase_some hpending).1
      · rintro response (hresponse | hresponse)
        · nomatch hresponse
        · nomatch hresponse
    · exact h

theorem sound_respond (h : Sound steps s) (id : Nat) : Sound steps (s.respond id) := by
  unfold respond
  split
  · exact h
  · rename_i job hjob
    split
    · rename_i result hphase
      refine (h.setJob { job with phase := .finished result } hjob rfl ?_
        (h.inbox id job · hjob) ?_).drop rfl (fun _ _ hid => hid) fun _ ht => ht
      · intro hpending
        obtain ⟨⟨owner, howner, -, -, hholding⟩, -⟩ := h.owner _ _ hpending
        rw [hjob, Option.some.injEq] at howner
        unfold SubmitJob.Holding at hholding
        rw [← howner, hphase] at hholding
        exact hholding.elim
      · rintro response (hresponse | hresponse)
        · nomatch hresponse
        · cases hresponse
          exact h.answer id job response hjob (Or.inl hphase)
    · exact h

theorem sound_take (h : Sound steps (run steps)) (digest : String)
    (result : SubmitWaitResult R) :
    Sound (steps ++ [.take digest result]) ((run steps).take digest result) := by
  have hsnoc := h.snoc (.take digest result)
  unfold take
  split
  · exact hsnoc
  · rename_i id hid
    obtain ⟨⟨job, hjob, hdigest, hinbox, hholding⟩, htaken⟩ := h.owner digest id hid
    constructor
    · intro other other' hother
      obtain ⟨hne, hother⟩ := lookup_erase_some hother
      obtain ⟨hjob', htaken'⟩ := h.owner other other' hother
      refine ⟨hjob', List.forall_mem_append.mpr ⟨htaken', ?_⟩⟩
      -- the sender that is taken is registered under one digest only
      rintro t ht rfl
      obtain ⟨⟨job', hjob', hdigest', -⟩, -⟩ := h.owner other _ hother
      rw [List.mem_singleton.mp ht, hjob, Option.some.injEq] at hjob'
      exact hne (hdigest'.symm.trans (hjob' ▸ hdigest))
    · refine List.forall_mem_append.mpr ⟨hsnoc.taken, ?_⟩
      intro t ht
      rw [List.mem_singleton.mp ht]
      exact ⟨job, hjob, steps, [], job, by rw [hdigest], hjob, rfl, hholding.not_finished⟩
    · exact hsnoc.inbox
    · exact hsnoc.answer

theorem sound_send (h : Sound steps s) (n : Nat) : Sound steps (s.send n) := by
  unfold send
  split
  · exact h
  · rename_i id result htaken
    have hmem : (id, result) ∈ s.taken := List.mem_of_getElem? htaken
    have hdropped : Sound steps { s with taken := s.taken.eraseIdx n } :=
      h.drop rfl (fun _ _ hid => hid) fun _ ht => List.mem_of_mem_eraseIdx ht
    dsimp only
    split
    · exact hdropped
    · rename_i job hjob
      split_ifs
      · refine hdropped.setJob { job with inbox := some result } hjob rfl ?_ ?_ ?_
        · intro hpending
          exact absurd rfl ((h.owner _ _ hpending).2 (id, result) hmem)
        · intro result' hresult
          obtain ⟨job', hjob', hcompleted⟩ := h.taken (id, result) hmem
          rw [hjob, Option.some.injEq] at hjob'
          rw [← Option.some.inj hresult, hjob']
          exact hcompleted
        · exact fun response hphase => h.answer id job response hjob hphase
      · exact hdropped

end

theorem sound_run (steps : List (JobStep R)) : Sound steps (run steps) := by
  induction steps using List.reverseRecOn with
  | nil =>
      constructor
      · intro digest id hid
        nomatch hid
      · exact fun t ht => absurd ht List.not_mem_nil
      · intro id job result hjob
        nomatch hjob
      · intro id job response hjob
        nomatch hjob
  | append_singleton steps step ih =>
      have hrun : run (steps ++ [step]) = (run steps).step step := List.foldl_concat ..
      rw [hrun]
      have hsnoc := ih.snoc step
      cases step with
      | register id digest => exact sound_register hsnoc id digest
      | accepted id => exact sound_accepted hsnoc id
      | rejected id error => exact sound_rejected hsnoc id error
      | poll id timedOut => exact sound_poll hsnoc id timedOut
      | cancel id => exact sound_cancel hsnoc id
      | respond id => exact sound_respond hsnoc id
      | take digest result => exact sound_take ih digest result
      | send n => exact sound_send hsnoc n

end SubmitJobs

open SubmitJobs

/-- In every run the registered digests are those of unfinished jobs, none is left when all
jobs have finished, and a job that succeeds reports its own digest and what a block completed
the digest with after the job had registered. -/
theorem submitJobs_sound (steps : List (JobStep R)) :
    let s := run steps
    (∀ digest ∈ s.pending, ∃ id job, s.jobs.lookup id = some job ∧ job.digest = digest ∧
      ¬job.Finished) ∧
    ((∀ id job, s.jobs.lookup id = some job → job.Finished) → s.pending = ∅) ∧
    ∀ id job response, s.jobs.lookup id = some job → job.phase = .finished (.ok response) →
      response.digest = job.digest ∧
        Completed steps id job.digest ⟨response.blockNum, response.receipt⟩ := by
  intro s
  have hsound : Sound steps s := sound_run steps
  have hpending : ∀ digest ∈ s.pending, ∃ id job, s.jobs.lookup id = some job ∧
      job.digest = digest ∧ ¬job.Finished := by
    intro digest hdigest
    obtain ⟨id, hid⟩ := Dict.mem_iff_lookup.mp hdigest
    obtain ⟨⟨job, hjob, hkey, -, hholding⟩, -⟩ := hsound.owner digest id hid
    exact ⟨id, job, hjob, hkey, hholding.not_finished⟩
  refine ⟨hpending, ?_, fun id job response hjob hphase =>
    hsound.answer id job response hjob (Or.inr hphase)⟩
  intro hall
  refine AList.ext (List.eq_nil_iff_forall_not_mem.mpr fun e he => ?_)
  have hmem : e.1 ∈ s.pending := Dict.mem_iff_lookup.mpr ⟨e.2, Dict.mem_entries_iff.mp he⟩
  obtain ⟨id, job, hjob, -, hopen⟩ := hpending e.1 hmem
  exact hopen (hall id job hjob)

/-! ## The coarser steps -/

def SubmitAnswer.result (digest : String) : SubmitAnswer R → JobResult R
  | receipt result => .ok ⟨digest, result.blockNum, result.receipt⟩
  | mempoolError => .error (.mempool "")
  | waiterDropped =>
      .error (.internal ("submit waiter dropped for transaction " ++ digest))
  | timeout =>
      .error (.timeout ("timed out waiting for transaction " ++ digest ++ " to be committed"))

def Submit.job (submit : Submit R) : SubmitJob R where
  digest := submit.digest
  inbox := submit.inbox
  phase :=
    match submit.phase with
    | .sending => .sending
    | .waiting => .waiting
    | .answered answer => .finished (answer.result submit.digest)

namespace SubmitSystem

/-- The tasks between two of the coarser steps. -/
def spread (s : SubmitSystem R) : SubmitJobs R where
  pending := s.pending
  jobs := Dict.mapVal Submit.job s.submits
  ingress := s.ingress
  taken := []

variable {s : SubmitSystem R}

def IngressSends (s : SubmitSystem R) : Prop :=
  ∀ id submit, s.ingress = some id → s.submits.lookup id = some submit → submit.phase = .sending

theorem IngressSends.setSubmit (h : s.IngressSends) {id : Nat} {old : Submit R}
    (hold : s.submits.lookup id = some old) (new : Submit R)
    (hphase : old.phase = .sending → new.phase = .sending) :
    (s.setSubmit id new).IngressSends := by
  intro other submit hother hsubmit
  rw [lookup_submits_setSubmit] at hsubmit
  split_ifs at hsubmit with heq
  · rw [← Option.some.inj hsubmit]
    exact hphase (h id old (heq ▸ hother) hold)
  · exact h other submit hother hsubmit

theorem ingressSends_step (h : s.IngressSends) (step : SubmitStep R) :
    (s.step step).IngressSends := by
  have hidle : ∀ {t : SubmitSystem R}, t.ingress = none → t.IngressSends := by
    intro t hnone id submit hid
    rw [hnone] at hid
    cases hid
  cases step with
  | register id digest =>
      intro other submit hother hsubmit
      simp only [SubmitSystem.step, SubmitSystem.register] at hother hsubmit
      split_ifs at hother hsubmit with hfree
      · dsimp only at hother hsubmit
        rw [← Option.some.inj hother, AList.lookup_insert] at hsubmit
        rw [← Option.some.inj hsubmit]
      · exact h other submit hother hsubmit
  | accepted id =>
      simp only [SubmitSystem.step, SubmitSystem.accepted]
      split
      · split_ifs
        · exact hidle rfl
        · exact h
      · exact h
  | rejected id =>
      simp only [SubmitSystem.step, SubmitSystem.rejected]
      split
      · split_ifs
        · exact hidle rfl
        · exact h
      · exact h
  | poll id timedOut =>
      simp only [SubmitSystem.step, SubmitSystem.poll]
      split
      · exact h
      · rename_i submit hsubmit
        have hcancelled : (s.cancel submit.digest).IngressSends := h
        split
        · rename_i result hphase hinbox
          exact h.setSubmit hsubmit _ fun hsending => by rw [hphase] at hsending; cases hsending
        · rename_i hphase hinbox
          split_ifs
          · exact hcancelled.setSubmit hsubmit _ fun hsending => by
              rw [hphase] at hsending; cases hsending
          · exact hcancelled.setSubmit hsubmit _ fun hsending => by
              rw [hphase] at hsending; cases hsending
          · exact h
        · exact h
  | complete digest result =>
      simp only [SubmitSystem.step, SubmitSystem.complete]
      split
      · exact h
      · rename_i id hid
        have hcancelled : (s.cancel digest).IngressSends := h
        split
        · exact hcancelled
        · rename_i submit hsubmit
          exact hcancelled.setSubmit hsubmit _ fun hsending => hsending

end SubmitSystem

namespace SubmitJobs

theorem foldl_fail {s : SubmitJobs R} {id : Nat} {job : SubmitJob R} {error : SubmitError}
    (hjob : s.jobs.lookup id = some job) (hphase : job.phase = .failing error) :
    [JobStep.cancel id, .respond id].foldl step s =
      { s with
        pending := s.pending.erase job.digest
        jobs := s.jobs.insert id { job with phase := .finished (.error error) }
        ingress := if s.ingress = some id then none else s.ingress } := by
  have hcancel : s.cancel id =
      { s.setJob id { job with phase := .answering (.error error) } with
        pending := s.pending.erase job.digest } := by
    unfold cancel
    simp only [hjob, hphase]
  change (s.cancel id).respond id = _
  rw [hcancel]
  unfold respond setJob
  simp only [AList.lookup_insert, AList.insert_insert]

end SubmitJobs

namespace SubmitSystem

open SubmitJobs

variable {s : SubmitSystem R}

theorem lookup_spread {id : Nat} {submit : Submit R} (h : s.submits.lookup id = some submit) :
    s.spread.jobs.lookup id = some submit.job := by
  change (Dict.mapVal Submit.job s.submits).lookup id = some submit.job
  rw [Dict.lookup_mapVal, h, Option.map_some]

theorem open_of_holding {submit : Submit R} (h : submit.job.Holding) : submit.Open := by
  unfold Submit.Open
  cases hphase : submit.phase with
  | sending => exact Or.inl rfl
  | waiting => exact Or.inr rfl
  | answered answer =>
      unfold SubmitJob.Holding Submit.job at h
      rw [hphase] at h
      exact h.elim

/-- A poll that decides on an error goes on to cancel and to answer. -/
theorem exists_steps_poll (hingress : s.IngressSends) {id : Nat} {submit : Submit R}
    (hsubmit : s.submits.lookup id = some submit) (timedOut : Bool) :
    ∃ steps : List (JobStep R),
      steps.foldl SubmitJobs.step s.spread = (s.poll id timedOut).spread := by
  have hjob := lookup_spread hsubmit
  have hidle : submit.phase = .waiting → ¬s.ingress = some id := by
    intro hphase hid
    rw [hingress id submit hid hsubmit] at hphase
    nomatch hphase
  -- the three steps of an error path
  have hfail : ∀ (error : SubmitError) (answer : SubmitAnswer R), submit.phase = .waiting →
      s.spread.poll id timedOut =
        s.spread.setJob id { submit.job with phase := .failing error } →
      answer.result submit.digest = .error error →
      [JobStep.poll id timedOut, .cancel id, .respond id].foldl SubmitJobs.step s.spread =
        ((s.cancel submit.digest).setSubmit id
          { submit with phase := .answered answer }).spread := by
    intro error answer hphase hpoll hanswer
    change [JobStep.cancel id, .respond id].foldl SubmitJobs.step (s.spread.poll id timedOut) = _
    have hanswered : Submit.job { submit with phase := .answered answer } =
        { submit.job with phase := .finished (.error error) } := by
      unfold Submit.job
      simp only [hanswer]
    rw [hpoll, foldl_fail (AList.lookup_insert _) rfl]
    unfold SubmitJobs.setJob spread
    simp only [setSubmit, SubmitSystem.cancel, Dict.mapVal_insert, AList.insert_insert,
      if_neg (hidle hphase), hanswered]
    rfl
  unfold SubmitSystem.poll
  rw [hsubmit]
  dsimp only
  split
  · rename_i result hphase hinbox
    refine ⟨[.poll id timedOut, .respond id], ?_⟩
    have hpoll : s.spread.poll id timedOut = s.spread.setJob id
        { submit.job with
          phase := .answering (.ok ⟨submit.digest, result.blockNum, result.receipt⟩) } := by
      unfold SubmitJobs.poll
      rw [hjob]
      unfold Submit.job
      simp only [hphase, hinbox]
    change (s.spread.poll id timedOut).respond id = _
    rw [hpoll]
    unfold respond SubmitJobs.setJob spread
    simp only [AList.lookup_insert, AList.insert_insert, setSubmit, Dict.mapVal_insert,
      if_neg (hidle hphase)]
    rfl
  · rename_i hphase hinbox
    have hclosed : s.spread.closed id submit.digest =
        decide (s.pending.lookup submit.digest ≠ some id) := Bool.and_true _
    have hpoll : s.spread.poll id timedOut =
        if s.pending.lookup submit.digest ≠ some id then
          s.spread.setJob id
            { submit.job with
              phase := .failing
                (.internal ("submit waiter dropped for transaction " ++ submit.digest)) }
        else if timedOut then
          s.spread.setJob id
            { submit.job with
              phase := .failing (.timeout
                ("timed out waiting for transaction " ++ submit.digest ++ " to be committed")) }
        else s.spread := by
      unfold SubmitJobs.poll
      rw [hjob]
      unfold Submit.job
      simp only [hphase, hinbox, hclosed, decide_eq_true_eq]
    split_ifs at hpoll ⊢ with hgone htimer
    · exact ⟨_, hfail _ .waiterDropped hphase hpoll rfl⟩
    · exact ⟨_, hfail _ .timeout hphase hpoll rfl⟩
    · exact ⟨[], rfl⟩
  · exact ⟨[], rfl⟩

/-- A coarser step is some steps of the tasks. -/
theorem exists_steps (hingress : s.IngressSends)
    (howner : ∀ digest id, s.pending.lookup digest = some id →
      ∃ submit, s.submits.lookup id = some submit ∧ submit.Open) (step : SubmitStep R) :
    ∃ steps : List (JobStep R), steps.foldl SubmitJobs.step s.spread = (s.step step).spread := by
  cases step with
  | register id digest =>
      refine ⟨[.register id digest], ?_⟩
      change s.spread.register id digest = (s.register id digest).spread
      unfold SubmitJobs.register SubmitSystem.register
      have hnew : s.spread.jobs.lookup id = none ↔ s.submits.lookup id = none := by
        change (Dict.mapVal Submit.job s.submits).lookup id = none ↔ _
        rw [Dict.lookup_mapVal, Option.map_eq_none_iff]
      by_cases hfree : s.ingress = none ∧ s.submits.lookup id = none
      · rw [if_pos hfree, if_pos ⟨hfree.1, hnew.mpr hfree.2⟩]
        unfold spread
        rw [Dict.mapVal_insert]
        rfl
      · rw [if_neg hfree, if_neg fun h => hfree ⟨h.1, hnew.mp h.2⟩]
  | accepted id =>
      cases hsubmit : s.submits.lookup id with
      | none =>
          refine ⟨[], ?_⟩
          simp only [SubmitSystem.step, SubmitSystem.accepted, hsubmit, List.foldl_nil]
      | some submit =>
          by_cases hid : s.ingress = some id
          · refine ⟨[.accepted id], ?_⟩
            have hphase : submit.job.phase = .sending := by
              unfold Submit.job
              rw [hingress id submit hid hsubmit]
            change s.spread.accepted id = (s.accepted id).spread
            unfold SubmitJobs.accepted SubmitSystem.accepted
            simp only [lookup_spread hsubmit, hphase, hsubmit, if_pos hid]
            unfold SubmitJobs.setJob spread
            simp only [setSubmit, Dict.mapVal_insert]
            rfl
          · refine ⟨[], ?_⟩
            simp only [SubmitSystem.step, SubmitSystem.accepted, hsubmit, if_neg hid,
              List.foldl_nil]
  | rejected id =>
      cases hsubmit : s.submits.lookup id with
      | none =>
          refine ⟨[], ?_⟩
          simp only [SubmitSystem.step, SubmitSystem.rejected, hsubmit, List.foldl_nil]
      | some submit =>
          by_cases hid : s.ingress = some id
          · refine ⟨[.rejected id "", .cancel id, .respond id], ?_⟩
            have hphase : submit.job.phase = .sending := by
              unfold Submit.job
              rw [hingress id submit hid hsubmit]
            have hrejected : s.spread.rejected id "" =
                s.spread.setJob id { submit.job with phase := .failing (.mempool "") } := by
              unfold SubmitJobs.rejected
              simp only [lookup_spread hsubmit, hphase]
            change [JobStep.cancel id, .respond id].foldl SubmitJobs.step
              (s.spread.rejected id "") = (s.rejected id).spread
            rw [hrejected, foldl_fail (AList.lookup_insert _) rfl]
            unfold SubmitSystem.rejected
            simp only [hsubmit, if_pos hid]
            unfold SubmitJobs.setJob spread
            simp only [setSubmit, SubmitSystem.cancel, Dict.mapVal_insert, AList.insert_insert,
              if_pos hid]
            rfl
          · refine ⟨[], ?_⟩
            simp only [SubmitSystem.step, SubmitSystem.rejected, hsubmit, if_neg hid,
              List.foldl_nil]
  | poll id timedOut =>
      cases hsubmit : s.submits.lookup id with
      | none =>
          refine ⟨[], ?_⟩
          simp only [SubmitSystem.step, SubmitSystem.poll, hsubmit, List.foldl_nil]
      | some submit => exact exists_steps_poll hingress hsubmit timedOut
  | complete digest result =>
      cases hid : s.pending.lookup digest with
      | none =>
          refine ⟨[], ?_⟩
          simp only [SubmitSystem.step, SubmitSystem.complete, hid, List.foldl_nil]
      | some id =>
          obtain ⟨submit, hsubmit, hopen⟩ := howner digest id hid
          refine ⟨[.take digest result, .send 0], ?_⟩
          have hreceiver : submit.job.hasReceiver = true := by
            unfold Submit.job SubmitJob.hasReceiver
            rcases hopen with hphase | hphase <;> rw [hphase]
          have htake : s.spread.take digest result =
              { s.spread with
                pending := s.pending.erase digest
                taken := [(id, result)] } := by
            unfold take
            rw [show s.spread.pending.lookup digest = some id from hid]
            rfl
          have hsend : (s.spread.take digest result).send 0 =
              { s.spread with
                pending := s.pending.erase digest
                jobs := s.spread.jobs.insert id { submit.job with inbox := some result } } := by
            rw [htake]
            unfold send
            simp only [List.getElem?_cons_zero, lookup_spread hsubmit, hreceiver, if_true]
            rfl
          change (s.spread.take digest result).send 0 = (s.complete digest result).spread
          rw [hsend]
          unfold SubmitSystem.complete
          simp only [hid, hsubmit]
          unfold spread
          simp only [setSubmit, SubmitSystem.cancel, Dict.mapVal_insert]
          rfl

/-- Every run of the coarser steps is one of the tasks, seen between their steps. -/
theorem exists_run (steps : List (SubmitStep R)) :
    ∃ fine : List (JobStep R), SubmitJobs.run fine = (SubmitSystem.run steps {}).spread := by
  suffices hrun : (SubmitSystem.run steps {}).IngressSends ∧
      ∃ fine : List (JobStep R), SubmitJobs.run fine = (SubmitSystem.run steps {}).spread from
    hrun.2
  induction steps using List.reverseRecOn with
  | nil =>
      refine ⟨fun id submit hid => ?_, [], rfl⟩
      nomatch hid
  | append_singleton steps step ih =>
      obtain ⟨hingress, fine, hfine⟩ := ih
      have hlast : SubmitSystem.run (steps ++ [step]) {} =
          (SubmitSystem.run steps {} : SubmitSystem R).step step := List.foldl_concat ..
      have howner : ∀ digest id, (SubmitSystem.run steps {}).pending.lookup digest = some id →
          ∃ submit, (SubmitSystem.run steps {}).submits.lookup id = some submit ∧
            submit.Open := by
        intro digest id hid
        obtain ⟨⟨job, hjob, -, -, hholding⟩, -⟩ := (sound_run fine).owner digest id (hfine ▸ hid)
        rw [hfine] at hjob
        change (Dict.mapVal Submit.job _).lookup id = some job at hjob
        rw [Dict.lookup_mapVal] at hjob
        obtain ⟨submit, hsubmit, rfl⟩ := Option.map_eq_some_iff.mp hjob
        exact ⟨submit, hsubmit, open_of_holding hholding⟩
      obtain ⟨more, hmore⟩ := exists_steps hingress howner step
      refine ⟨hlast ▸ ingressSends_step hingress step, fine ++ more, ?_⟩
      rw [hlast, ← hmore, ← hfine]
      exact List.foldl_append ..

end SubmitSystem

end ClobIndexer
