import ClobIndexer.HexSdk
import ClobIndexer.Indexer.Export
import ClobIndexer.Persist.IndexLane
/-!
# The checkpoint of an epoch

`checkpoint_once` of `src/indexer/mod.rs` waits for the persist queues, forces a full
write if the tables lag behind the head, waits again and clones the tables under the
number of the head.  Builds and writes that fail are only logged, and the second wait
may run out of time, so what is cloned is what the last successful write has left.
-/

namespace ClobIndexer

open Lib

structure IndexedBlockHead where
  blockNum : UInt64
  digest : String
  catchingUp : Bool := false
deriving DecidableEq

inductive CheckpointOutcome where
  | skipped
  | written (blockNum : UInt64) (digest : String)
deriving DecidableEq

namespace IndexLane

def inFlight (l : IndexLane) : List IndexWriteSet :=
  l.writing.toList.map BuiltIndexBatch.ws ++ l.batches.map BuiltIndexBatch.ws ++
    l.building.toList.map IndexBuild.ws ++ l.queue

/-- What the lane adds to `SharedPersist.pending`. -/
def pending (l : IndexLane) : Nat := l.inFlight.length

def run (l : IndexLane) (actions : List LaneAction) : IndexLane := actions.foldl apply l

end IndexLane

/-- How one call goes: what the lane does until the first wait ends and what the other
lanes still owe then, what it does until the forced set is sent and whether the pipeline
takes it, what it does until the clone holds the write gate, and whether the clone works. -/
structure CheckpointTiming where
  untilWaited : List LaneAction
  othersPending : Nat
  untilSent : List LaneAction := []
  accepted : Bool := true
  untilCloned : List LaneAction
  cloned : Bool := true

abbrev Checkpoints := Table UInt64 IndexTables

section CheckpointOnce

variable (sdk : Sdk) (s : IndexState) (head : IndexedBlockHead) (t : CheckpointTiming)

/-- `wait_idle`: whether nothing is pending when the wait ends. -/
def waitIdle (othersPending : Nat) (l : IndexLane) : Bool := l.pending + othersPending = 0

def checkpointSkips (skipIf : Option (UInt64 × String)) : Bool :=
  head.digest = "" ||
    match skipIf with
    | some last => head.catchingUp || (head.blockNum, head.digest) = last
    | none => false

/-- The full write is forced: still busy, or the tables are not at the head. -/
def forcesFullWrite (l : IndexLane) : Bool :=
  let waited := l.run t.untilWaited
  !waitIdle t.othersPending waited || waited.tables.head ≠ some (head.blockNum, head.digest)

def actionsAfterWait (l : IndexLane) : List LaneAction :=
  (if forcesFullWrite head t l then
    t.untilSent ++
      if t.accepted then
        [.enqueueIndexWrite (s.forceFullIndexWrite sdk head.blockNum head.digest)]
      else []
  else []) ++
    t.untilCloned

def checkpointActions (l : IndexLane) : List LaneAction :=
  t.untilWaited ++ actionsAfterWait sdk s head t l

def checkpointOnce (skipIf : Option (UInt64 × String)) (l : IndexLane) (ckpts : Checkpoints) :
    Option CheckpointOutcome × Checkpoints :=
  if checkpointSkips head skipIf then (some .skipped, ckpts)
  else if t.cloned then
    (some (.written head.blockNum head.digest),
      Function.update ckpts head.blockNum
        (some (l.run (checkpointActions sdk s head t l)).tables))
  else (none, ckpts)

end CheckpointOnce

/-! ## The last write -/

namespace IndexLane

def writes (l : IndexLane) : LaneAction → Option IndexWriteSet
  | .finishWrite true => l.writing.map BuiltIndexBatch.ws
  | _ => none

def written (l : IndexLane) : List LaneAction → List IndexWriteSet
  | [] => []
  | a :: actions => (l.writes a).toList ++ (l.apply a).written actions

def headAfter (written : List IndexWriteSet) (head : Option (UInt64 × String)) :
    Option (UInt64 × String) :=
  match written.getLast? with
  | some ws => some (ws.blockNum, ws.digest)
  | none => head

def enqueued (actions : List LaneAction) : List IndexWriteSet :=
  actions.filterMap fun a =>
    match a with
    | .enqueueIndexWrite ws => some ws
    | _ => none

theorem enqueued_append (first rest : List LaneAction) :
    enqueued (first ++ rest) = enqueued first ++ enqueued rest := List.filterMap_append

theorem writes_of_step_none {l : IndexLane} {a : LaneAction} (h : l.step a = none) :
    l.writes a = none := by
  cases a with
  | finishWrite ok =>
      cases ok with
      | false => rfl
      | true =>
          unfold step at h
          cases hwriting : l.writing with
          | none => simp [writes, hwriting]
          | some b => rw [hwriting] at h; cases h
  | _ => rfl

theorem head_apply (l : IndexLane) (a : LaneAction) :
    (l.apply a).tables.head = headAfter (l.writes a).toList l.tables.head := by
  unfold apply
  cases hstep : l.step a with
  | none =>
      rw [writes_of_step_none hstep]
      rfl
  | some l' =>
      have hcases := step_cases hstep
      rw [Option.getD_some]
      cases a with
      | enqueueIndexWrite ws => subst hcases; rfl
      | startBuild => obtain ⟨_, _, -, -, rfl⟩ := hcases; rfl
      | clearMap => obtain ⟨_, _, _, _, -, rfl⟩ := hcases; rfl
      | finishBuild ok => obtain ⟨_, -, rfl | ⟨-, -, rfl⟩⟩ := hcases <;> rfl
      | startWrite => obtain ⟨_, _, -, -, rfl⟩ := hcases; rfl
      | finishWrite ok =>
          obtain ⟨b, hwriting, rfl⟩ := hcases
          unfold writes
          cases ok with
          | false => rfl
          | true => rw [hwriting]; rfl

theorem headAfter_append (first rest : List IndexWriteSet) (head : Option (UInt64 × String)) :
    headAfter (first ++ rest) head = headAfter rest (headAfter first head) := by
  unfold headAfter
  rw [List.getLast?_append]
  cases rest.getLast? <;> rfl

/-- The tables are under the head of the last set that was written. -/
theorem head_run (actions : List LaneAction) (l : IndexLane) :
    (l.run actions).tables.head = headAfter (l.written actions) l.tables.head := by
  induction actions generalizing l with
  | nil => rfl
  | cons a actions ih =>
      have hrest : (l.run (a :: actions)) = (l.apply a).run actions := rfl
      rw [hrest, ih, head_apply, ← headAfter_append]
      rfl

theorem written_append (first rest : List LaneAction) (l : IndexLane) :
    l.written (first ++ rest) = l.written first ++ (l.run first).written rest := by
  induction first generalizing l with
  | nil => rfl
  | cons a first ih =>
      rw [List.cons_append, written, written, ih, List.append_assoc]
      rfl

/-! ## What is written was queued -/

theorem sublist_step {l l' : IndexLane} {a : LaneAction} (h : l.step a = some l') :
    ((l.writes a).toList ++ l'.inFlight).Sublist (l.inFlight ++ enqueued [a]) := by
  have hcases := step_cases h
  cases a with
  | enqueueIndexWrite ws =>
      subst hcases
      simp [writes, inFlight, enqueued]
  | startBuild =>
      obtain ⟨ws, queue, hqueue, hbuilding, rfl⟩ := hcases
      simp [writes, inFlight, enqueued, hqueue, hbuilding]
  | clearMap =>
      obtain ⟨ws, found, table, toClear, hbuilding, rfl⟩ := hcases
      simp [writes, inFlight, enqueued, hbuilding]
  | finishBuild ok =>
      obtain ⟨build, hbuilding, rfl | ⟨-, -, rfl⟩⟩ := hcases <;>
        simp [writes, inFlight, enqueued, hbuilding]
  | startWrite =>
      obtain ⟨b, batches, hbatches, hwriting, rfl⟩ := hcases
      simp [writes, inFlight, enqueued, hbatches, hwriting]
  | finishWrite ok =>
      obtain ⟨b, hwriting, rfl⟩ := hcases
      cases ok <;> simp [writes, inFlight, enqueued, hwriting]

theorem sublist_apply (l : IndexLane) (a : LaneAction) :
    ((l.writes a).toList ++ (l.apply a).inFlight).Sublist (l.inFlight ++ enqueued [a]) := by
  unfold apply
  cases hstep : l.step a with
  | none =>
      rw [writes_of_step_none hstep]
      exact List.sublist_append_left _ _
  | some l' => exact sublist_step hstep

/-- The sets are written in the order in which they were queued. -/
theorem written_sublist (actions : List LaneAction) (l : IndexLane) :
    (l.written actions).Sublist (l.inFlight ++ enqueued actions) := by
  have hall : (l.written actions ++ (l.run actions).inFlight).Sublist
      (l.inFlight ++ enqueued actions) := by
    induction actions generalizing l with
    | nil => simp [written, run, enqueued]
    | cons a actions ih =>
        have hrest : l.run (a :: actions) = (l.apply a).run actions := rfl
        have henqueued : enqueued (a :: actions) = enqueued [a] ++ enqueued actions :=
          enqueued_append [a] actions
        rw [hrest, henqueued]
        unfold written
        rw [List.append_assoc, ← List.append_assoc l.inFlight]
        have hfirst := (sublist_apply l a).append (List.Sublist.refl (enqueued actions))
        rw [List.append_assoc] at hfirst
        exact ((List.Sublist.refl _).append (ih (l.apply a))).trans hfirst
  exact (List.sublist_append_left _ _).trans hall

end IndexLane

section Reported

variable (sdk : Sdk) (s : IndexState) (head : IndexedBlockHead) (t : CheckpointTiming)
  (l : IndexLane)

/-- A checkpoint that is reported is there, under the head that is reported. -/
def CheckpointReported (result : Option CheckpointOutcome × Checkpoints) : Prop :=
  ∀ blockNum digest, result.1 = some (.written blockNum digest) →
    ∃ tables, result.2 blockNum = some tables ∧ tables.head = some (blockNum, digest)

/-- The last of the sets that are written until the clone is one of the head; if none is
written, the tables were at the head before. -/
def LastWriteOfHead : Prop :=
  IndexLane.headAfter (l.written (checkpointActions sdk s head t l)) l.tables.head =
    some (head.blockNum, head.digest)

/-- What is reported is what is cloned exactly when the call skips or fails, or the last
set that was written is one of the head. -/
theorem checkpointReported_iff (skipIf : Option (UInt64 × String)) (ckpts : Checkpoints) :
    CheckpointReported (checkpointOnce sdk s head t skipIf l ckpts) ↔
      (checkpointSkips head skipIf = false → t.cloned = true →
        LastWriteOfHead sdk s head t l) := by
  unfold CheckpointReported LastWriteOfHead checkpointOnce
  rw [← IndexLane.head_run]
  cases checkpointSkips head skipIf with
  | true => simp
  | false =>
      cases t.cloned with
      | false => simp
      | true =>
          rw [if_neg Bool.false_ne_true, if_pos rfl]
          constructor
          · intro h _ _
            obtain ⟨tables, htables, hhead⟩ := h _ _ rfl
            dsimp only at htables
            rw [Function.update_self] at htables
            cases htables
            exact hhead
          · intro h blockNum digest hwritten
            cases hwritten
            exact ⟨_, Function.update_self _ _ _, h rfl rfl⟩

/-- After an idle first wait nothing is in flight, so when only sets of the head can follow,
the clone is at the head if the tables were or if some set has been written since. -/
theorem lastWriteOfHead_iff_of_idle
    (hidle : waitIdle t.othersPending (l.run t.untilWaited) = true)
    (hgate : ∀ ws ∈ IndexLane.enqueued (t.untilSent ++ t.untilCloned),
      (ws.blockNum, ws.digest) = (head.blockNum, head.digest)) :
    LastWriteOfHead sdk s head t l ↔
      (l.run t.untilWaited).tables.head = some (head.blockNum, head.digest) ∨
        (l.run t.untilWaited).written (actionsAfterWait sdk s head t l) ≠ [] := by
  have hempty : (l.run t.untilWaited).inFlight = [] := by
    unfold waitIdle IndexLane.pending at hidle
    rw [decide_eq_true_eq, Nat.add_eq_zero_iff] at hidle
    exact List.length_eq_zero_iff.mp hidle.1
  have henqueued : ∀ ws ∈ IndexLane.enqueued (actionsAfterWait sdk s head t l),
      (ws.blockNum, ws.digest) = (head.blockNum, head.digest) := by
    intro ws hws
    rw [IndexLane.enqueued_append, List.forall_mem_append] at hgate
    unfold actionsAfterWait at hws
    rw [IndexLane.enqueued_append, List.mem_append] at hws
    rcases hws with hforced | hlater
    · split_ifs at hforced
      · rw [IndexLane.enqueued_append, List.mem_append] at hforced
        rcases hforced with hsent | hfull
        · exact hgate.1 ws hsent
        · cases List.mem_singleton.mp hfull
          rfl
      · rw [List.append_nil] at hforced
        exact hgate.1 ws hforced
      · cases hforced
    · exact hgate.2 ws hlater
  have hsublist := IndexLane.written_sublist (actionsAfterWait sdk s head t l)
    (l.run t.untilWaited)
  rw [hempty, List.nil_append] at hsublist
  unfold LastWriteOfHead checkpointActions
  rw [IndexLane.written_append, IndexLane.headAfter_append, ← IndexLane.head_run]
  unfold IndexLane.headAfter
  cases hlast : ((l.run t.untilWaited).written (actionsAfterWait sdk s head t l)).getLast? with
  | none =>
      rw [List.getLast?_eq_none_iff] at hlast
      simp [hlast]
  | some ws =>
      have hmem := hsublist.subset (List.mem_of_getLast? hlast)
      have hne : (l.run t.untilWaited).written (actionsAfterWait sdk s head t l) ≠ [] := by
        intro hnil
        rw [hnil] at hlast
        cases hlast
      exact iff_of_true (congrArg some (henqueued ws hmem)) (Or.inr hne)

end Reported

namespace Sample

def lagging : IndexLane where
  tables := { IndexTables.empty with head := some (7, "07") }

def failedBuild : CheckpointTiming where
  untilWaited := []
  othersPending := 0
  untilCloned := [.startBuild, .finishBuild false]

theorem failedBuild_reports :
    (checkpointOnce sdk {} ⟨8, "08", false⟩ failedBuild none lagging fun _ => none).1 =
        some (.written 8 "08") ∧
      ¬CheckpointReported
        (checkpointOnce sdk {} ⟨8, "08", false⟩ failedBuild none lagging fun _ => none) := by
  have hwritten : (checkpointOnce sdk {} ⟨8, "08", false⟩ failedBuild none lagging
      fun _ => none).1 = some (.written 8 "08") := by
    decide
  refine ⟨hwritten, ?_⟩
  intro h
  obtain ⟨tables, htables, hhead⟩ := h 8 "08" hwritten
  have hcloned : ((checkpointOnce sdk {} ⟨8, "08", false⟩ failedBuild none lagging
      fun _ => none).2 8).bind IndexTables.head = some (7, "07") := by
    decide
  rw [htables, Option.bind_some, hhead] at hcloned
  exact absurd hcloned (by decide)

end Sample

end ClobIndexer
