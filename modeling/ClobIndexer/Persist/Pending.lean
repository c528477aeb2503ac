import ClobIndexer.Persist.BlocksLane
import ClobIndexer.Persist.HistoryLane
import ClobIndexer.Persist.IndexLane
/-!
# The counter of pending operations

One counter for the three pipelines goes up before an operation is sent and down when it
is written or dropped.  A channel goes with its receiver, and what it holds then leaves
without the counter; so does a batch that the coalescer cannot hand on.
-/

namespace ClobIndexer

open Lib

/-! ## The pipelines to SQLite and their tasks -/

namespace SqliteLane

variable {Op Enc T : Type} {encode : Op → Option Enc} {write : List Enc → T → T}
  {l : SqliteLane Op Enc T}

def outstanding (l : SqliteLane Op Enc T) : Nat := l.inFlight.length + l.unencoded.length

theorem outstanding_enqueue (op : Op) (hroom : l.queue.length < persistQueueCapacity) :
    (l.apply encode write (.enqueue op)).outstanding = l.outstanding + 1 := by
  unfold apply step
  dsimp only
  rw [if_pos hroom]
  simp [outstanding, inFlight, unencoded, Nat.add_assoc]

theorem outstanding_take : (l.apply encode write .take).outstanding = l.outstanding := by
  unfold apply step
  dsimp only
  cases hqueue : l.queue with
  | nil => rfl
  | cons op queue =>
      dsimp only
      split_ifs
      · simp [outstanding, inFlight, unencoded, hqueue]
      · rfl

/-- An encoding that fails is one operation less; one that succeeds changes nothing. -/
theorem outstanding_finishEncode {worker : Nat} {op : Op} (hop : l.encoding[worker]? = some op)
    (ok : Bool) :
    (l.apply encode write (.finishEncode worker ok)).outstanding +
        (if ok = true ∧ (encode op).isSome then 0 else 1) = l.outstanding := by
  obtain ⟨hlt, -⟩ := List.getElem?_eq_some_iff.mp hop
  rw [apply_finishEncode hop]
  cases ok with
  | false =>
      simp [outstanding, inFlight, unencoded, List.length_eraseIdx, hlt]
      omega
  | true =>
      cases he : encode op with
      | none =>
          simp [outstanding, inFlight, unencoded, List.length_eraseIdx, hlt]
          omega
      | some e =>
          by_cases hroom : l.encoded.length < encodedCapacity
          · simp [outstanding, inFlight, unencoded, List.length_eraseIdx, hlt, hroom]
            omega
          · simp [hroom]

theorem outstanding_coalesce : (l.apply encode write .coalesce).outstanding = l.outstanding := by
  unfold apply step
  dsimp only
  cases hencoded : l.encoded with
  | nil => rfl
  | cons e encoded =>
      dsimp only
      split_ifs
      · simp [outstanding, inFlight, unencoded, hencoded]
      · rfl

theorem outstanding_closeBatch : (l.apply encode write .closeBatch).outstanding = l.outstanding := by
  unfold apply step
  dsimp only
  split_ifs <;> rfl

theorem outstanding_sendBatch : (l.apply encode write .sendBatch).outstanding = l.outstanding := by
  unfold apply step
  dsimp only
  split_ifs
  · simp [outstanding, inFlight, unencoded]
  · rfl

theorem outstanding_startWrite : (l.apply encode write .startWrite).outstanding = l.outstanding := by
  unfold apply step
  dsimp only
  cases hwriting : l.writing with
  | some batch => rfl
  | none =>
      cases hbatches : l.batches with
      | nil => rfl
      | cons batch batches => simp [outstanding, inFlight, unencoded, hwriting, hbatches]

theorem outstanding_finishWrite {batch : List Enc} (hwriting : l.writing = some batch) (ok : Bool) :
    (l.apply encode write (.finishWrite ok)).outstanding + batch.length = l.outstanding := by
  unfold apply step
  dsimp only
  rw [hwriting]
  simp [outstanding, inFlight, unencoded, hwriting]
  omega

end SqliteLane

/-- An operation that is counted and not yet in the queue; it waits for a place there or is
dropped when there is none. -/
structure Submission (Op : Type) where
  op : Op
  waits : Bool

structure SqliteTasks (Op Enc T : Type) where
  lane : SqliteLane Op Enc T
  submitting : List (Submission Op) := []
  encoders : Nat := persistEncodeWorkers
  coalescer : Bool := true
  writer : Bool := true

/-- What those who submit and the tasks do, and a task that stops; an encode worker stops
between two operations or with the one it has. -/
inductive SqliteTaskAction (Op : Type) where
  | submit (op : Op) (waits : Bool)
  | send (i : Nat)
  | take
  | finishEncode (worker : Nat) (ok : Bool)
  | coalesce
  | closeBatch
  | sendBatch
  | startWrite
  | finishWrite (ok : Bool)
  | stopEncoder (worker : Option Nat)
  | stopCoalescer
  | stopWriter

namespace SqliteTasks

variable {Op Enc T : Type} (encode : Op → Option Enc) (write : List Enc → T → T)

/-- One worker less; the queue goes with the last one. -/
def closeEncoder (t : SqliteTasks Op Enc T) : SqliteTasks Op Enc T :=
  { t with
    encoders := t.encoders - 1
    lane := { t.lane with queue := if t.encoders ≤ 1 then [] else t.lane.queue } }

def closeCoalescer (t : SqliteTasks Op Enc T) : SqliteTasks Op Enc T :=
  { t with
    coalescer := false
    lane := { t.lane with encoded := [], coalescing := [], closed := false } }

def closeWriter (t : SqliteTasks Op Enc T) : SqliteTasks Op Enc T :=
  { t with writer := false, lane := { t.lane with batches := [], writing := none } }

def step (pending : Nat) (t : SqliteTasks Op Enc T) : SqliteTaskAction Op → Nat × SqliteTasks Op Enc T
  | .submit op waits => (pending + 1, { t with submitting := t.submitting ++ [⟨op, waits⟩] })
  | .send i =>
      match t.submitting[i]? with
      | none => (pending, t)
      | some s =>
          let sent := { t with submitting := t.submitting.eraseIdx i }
          if t.encoders = 0 then (pending - 1, sent)
          else if t.lane.queue.length < persistQueueCapacity then
            (pending, { sent with lane := t.lane.apply encode write (.enqueue s.op) })
          else if s.waits then (pending, t)
          else (pending - 1, sent)
  | .take =>
      if t.lane.encoding.length < t.encoders then
        (pending, { t with lane := t.lane.apply encode write .take })
      else (pending, t)
  | .finishEncode worker ok =>
      match t.lane.encoding[worker]? with
      | none => (pending, t)
      | some op =>
          let done := { t with lane := t.lane.apply encode write (.finishEncode worker ok) }
          if ok = false ∨ encode op = none then (pending - 1, done)
          else if t.coalescer then (pending, done)
          else
            (pending - 1, closeEncoder
              { t with lane := { t.lane with encoding := t.lane.encoding.eraseIdx worker } })
  | .coalesce =>
      if t.coalescer then (pending, { t with lane := t.lane.apply encode write .coalesce })
      else (pending, t)
  | .closeBatch =>
      if t.coalescer then (pending, { t with lane := t.lane.apply encode write .closeBatch })
      else (pending, t)
  | .sendBatch =>
      if t.coalescer = false then (pending, t)
      else if t.writer then (pending, { t with lane := t.lane.apply encode write .sendBatch })
      else if t.lane.closed ∨ t.lane.coalescing.length = persistBatchMax then
        -- the batch is dropped, and the counter stays
        (pending, t.closeCoalescer)
      else (pending, t)
  | .startWrite =>
      if t.writer then (pending, { t with lane := t.lane.apply encode write .startWrite })
      else (pending, t)
  | .finishWrite ok =>
      match t.lane.writing with
      | none => (pending, t)
      | some batch =>
          (pending - batch.length, { t with lane := t.lane.apply encode write (.finishWrite ok) })
  | .stopEncoder none =>
      if t.lane.encoding.length < t.encoders then (pending, t.closeEncoder) else (pending, t)
  | .stopEncoder (some worker) =>
      match t.lane.encoding[worker]? with
      | none => (pending, t)
      | some _ =>
          (pending, closeEncoder
            { t with lane := { t.lane with encoding := t.lane.encoding.eraseIdx worker } })
  | .stopCoalescer => (pending, t.closeCoalescer)
  | .stopWriter => (pending, t.closeWriter)

/-- The operations that are enqueued and neither written nor dropped. -/
def outstanding (t : SqliteTasks Op Enc T) : Nat := t.submitting.length + t.lane.outstanding

def queueLost (t : SqliteTasks Op Enc T) : Nat := if t.encoders ≤ 1 then t.lane.queue.length else 0

/-- The operations that a task takes with it when it stops, in its hands or in the channel to
it, and that the counter keeps. -/
def lost (t : SqliteTasks Op Enc T) : SqliteTaskAction Op → Nat
  | .finishEncode worker ok =>
      match t.lane.encoding[worker]? with
      | none => 0
      | some op => if ok = false ∨ encode op = none ∨ t.coalescer then 0 else t.queueLost
  | .sendBatch =>
      if t.coalescer ∧ t.writer = false ∧
          (t.lane.closed ∨ t.lane.coalescing.length = persistBatchMax) then
        t.lane.coalescing.length + t.lane.encoded.length
      else 0
  | .stopEncoder none => if t.lane.encoding.length < t.encoders then t.queueLost else 0
  | .stopEncoder (some worker) =>
      match t.lane.encoding[worker]? with
      | none => 0
      | some _ => 1 + t.queueLost
  | .stopCoalescer => t.lane.coalescing.length + t.lane.encoded.length
  | .stopWriter => (t.lane.writing.getD []).length + t.lane.batches.flatten.length
  | _ => 0

variable {encode write} {t : SqliteTasks Op Enc T} {pending : Nat}

theorem outstanding_closeEncoder (t : SqliteTasks Op Enc T) :
    t.closeEncoder.outstanding + t.queueLost = t.outstanding := by
  unfold closeEncoder outstanding queueLost SqliteLane.outstanding SqliteLane.unencoded
  dsimp only
  split_ifs
  · simp [SqliteLane.inFlight]
    omega
  · rfl

theorem outstanding_closeCoalescer (t : SqliteTasks Op Enc T) :
    t.closeCoalescer.outstanding + (t.lane.coalescing.length + t.lane.encoded.length) =
      t.outstanding := by
  simp [closeCoalescer, outstanding, SqliteLane.outstanding, SqliteLane.inFlight,
    SqliteLane.unencoded]
  omega

theorem outstanding_closeWriter (t : SqliteTasks Op Enc T) :
    t.closeWriter.outstanding + ((t.lane.writing.getD []).length + t.lane.batches.flatten.length) =
      t.outstanding := by
  simp [closeWriter, outstanding, SqliteLane.outstanding, SqliteLane.inFlight,
    SqliteLane.unencoded]
  omega

theorem outstanding_dropEncoder {worker : Nat} {op : Op} (hop : t.lane.encoding[worker]? = some op) :
    (closeEncoder { t with
      lane := { t.lane with encoding := t.lane.encoding.eraseIdx worker } }).outstanding +
        (1 + t.queueLost) = t.outstanding := by
  obtain ⟨hlt, -⟩ := List.getElem?_eq_some_iff.mp hop
  have hclosed := outstanding_closeEncoder { t with
    lane := { t.lane with encoding := t.lane.encoding.eraseIdx worker } }
  have herased : ({ t with lane := { t.lane with encoding := t.lane.encoding.eraseIdx worker } } :
      SqliteTasks Op Enc T).outstanding + 1 = t.outstanding := by
    simp [outstanding, SqliteLane.outstanding, SqliteLane.inFlight, SqliteLane.unencoded,
      List.length_eraseIdx, hlt]
    omega
  change _ + t.queueLost = _ at hclosed
  omega

theorem pending_passed {lane : SqliteLane Op Enc T} (h : lane.outstanding = t.lane.outstanding) :
    pending + t.outstanding =
      pending + ({ t with lane := lane } : SqliteTasks Op Enc T).outstanding + 0 := by
  unfold outstanding
  dsimp only
  rw [h]
  rfl

def CountFollows (encode : Op → Option Enc) (write : List Enc → T → T) (pending : Nat)
    (t : SqliteTasks Op Enc T) (a : SqliteTaskAction Op) : Prop :=
  (t.step encode write pending a).1 + t.outstanding =
    pending + (t.step encode write pending a).2.outstanding + t.lost encode a

theorem follows_send (i : Nat) (hpending : t.outstanding ≤ pending) :
    t.CountFollows encode write pending (.send i) := by
  unfold CountFollows step lost
  dsimp only
  cases hsub : t.submitting[i]? with
  | none => rfl
  | some s =>
      obtain ⟨hlt, -⟩ := List.getElem?_eq_some_iff.mp hsub
      have hlength : (t.submitting.eraseIdx i).length + 1 = t.submitting.length :=
        List.length_eraseIdx_add_one hlt
      unfold outstanding at hpending ⊢
      dsimp only
      split_ifs with hclosed hroom hwaits
      · dsimp only
        omega
      · have hqueued : (t.lane.apply encode write (.enqueue s.op)).outstanding =
            t.lane.outstanding + 1 := SqliteLane.outstanding_enqueue s.op hroom
        dsimp only
        omega
      · dsimp only
        omega
      · dsimp only
        omega

theorem follows_finishEncode (worker : Nat) (ok : Bool) (hpending : t.outstanding ≤ pending) :
    t.CountFollows encode write pending (.finishEncode worker ok) := by
  unfold CountFollows step lost
  dsimp only
  cases hop : t.lane.encoding[worker]? with
  | none => rfl
  | some op =>
      have hdone : (t.lane.apply encode write (.finishEncode worker ok)).outstanding +
          (if ok = true ∧ (encode op).isSome then 0 else 1) = t.lane.outstanding :=
        SqliteLane.outstanding_finishEncode hop ok
      by_cases hfails : ok = false ∨ encode op = none
      · have hless : ¬(ok = true ∧ (encode op).isSome) := by
          rcases hfails with rfl | hnone
          · exact fun h => Bool.false_ne_true h.1
          · rw [hnone]
            exact fun h => Bool.false_ne_true h.2
        rw [if_neg hless] at hdone
        dsimp only
        rw [if_pos hfails, if_pos (hfails.imp_right Or.inl)]
        unfold outstanding at hpending ⊢
        dsimp only
        omega
      · have hpassed : ok = true ∧ (encode op).isSome := by
          rw [not_or, Bool.not_eq_false] at hfails
          exact ⟨hfails.1, Option.isSome_iff_ne_none.mpr hfails.2⟩
        rw [if_pos hpassed, Nat.add_zero] at hdone
        dsimp only
        rw [if_neg hfails]
        by_cases hcoalescer : t.coalescer = true
        · rw [if_pos hcoalescer, if_pos (Or.inr (Or.inr hcoalescer))]
          exact pending_passed hdone
        · rw [if_neg hcoalescer, if_neg (by tauto)]
          have hdropped := outstanding_dropEncoder hop
          dsimp only at hdropped ⊢
          omega

theorem follows_sendBatch : t.CountFollows encode write pending .sendBatch := by
  have hclosed := outstanding_closeCoalescer t
  unfold CountFollows step lost
  dsimp only
  by_cases hcoalescer : t.coalescer = true
  · rw [if_neg (by simp [hcoalescer])]
    by_cases hwriter : t.writer = true
    · rw [if_pos hwriter, if_neg (by simp [hwriter])]
      exact pending_passed SqliteLane.outstanding_sendBatch
    · rw [if_neg hwriter]
      have hstopped : t.writer = false := Bool.not_eq_true _ ▸ hwriter
      by_cases hready : t.lane.closed = true ∨ t.lane.coalescing.length = persistBatchMax
      · rw [if_pos hready, if_pos ⟨hcoalescer, hstopped, hready⟩]
        dsimp only
        omega
      · rw [if_neg hready, if_neg fun h => hready h.2.2]
        rfl
  · rw [if_pos (by simpa using hcoalescer), if_neg fun h => hcoalescer h.1]
    rfl

theorem follows_finishWrite (ok : Bool) (hpending : t.outstanding ≤ pending) :
    t.CountFollows encode write pending (.finishWrite ok) := by
  unfold CountFollows step lost
  dsimp only
  cases hwriting : t.lane.writing with
  | none => rfl
  | some batch =>
      have hdone : (t.lane.apply encode write (.finishWrite ok)).outstanding + batch.length =
          t.lane.outstanding := SqliteLane.outstanding_finishWrite hwriting ok
      unfold outstanding at hpending ⊢
      dsimp only
      omega

theorem follows_stopEncoder (worker : Option Nat) :
    t.CountFollows encode write pending (.stopEncoder worker) := by
  cases worker with
  | none =>
      have hclosed := outstanding_closeEncoder t
      unfold CountFollows step lost
      dsimp only
      split_ifs
      · dsimp only
        omega
      · rfl
  | some worker =>
      unfold CountFollows step lost
      dsimp only
      cases hop : t.lane.encoding[worker]? with
      | none => rfl
      | some op =>
          have hdropped := outstanding_dropEncoder hop
          dsimp only at hdropped ⊢
          omega

theorem pending_step (encode : Op → Option Enc) (write : List Enc → T → T)
    (hpending : t.outstanding ≤ pending) (a : SqliteTaskAction Op) :
    (t.step encode write pending a).1 + t.outstanding =
      pending + (t.step encode write pending a).2.outstanding + t.lost encode a := by
  cases a with
  | submit op waits =>
      simp [step, lost, outstanding]
      omega
  | send i => exact follows_send i hpending
  | take =>
      unfold step lost
      dsimp only
      split_ifs
      · exact pending_passed SqliteLane.outstanding_take
      · rfl
  | finishEncode worker ok => exact follows_finishEncode worker ok hpending
  | coalesce =>
      unfold step lost
      dsimp only
      split_ifs
      · exact pending_passed SqliteLane.outstanding_coalesce
      · rfl
  | closeBatch =>
      unfold step lost
      dsimp only
      split_ifs
      · exact pending_passed SqliteLane.outstanding_closeBatch
      · rfl
  | sendBatch => exact follows_sendBatch
  | startWrite =>
      unfold step lost
      dsimp only
      split_ifs
      · exact pending_passed SqliteLane.outstanding_startWrite
      · rfl
  | finishWrite ok => exact follows_finishWrite ok hpending
  | stopEncoder worker => exact follows_stopEncoder worker
  | stopCoalescer =>
      have hclosed := outstanding_closeCoalescer t
      unfold step lost
      dsimp only
      omega
  | stopWriter =>
      have hclosed := outstanding_closeWriter t
      unfold step lost
      dsimp only
      omega

end SqliteTasks

/-! ## The index-state pipeline and its tasks -/

structure IndexTasks where
  lane : IndexLane
  submitting : List IndexWriteSet := []
  builder : Bool := true
  writer : Bool := true

inductive IndexTaskAction where
  | submit (ws : IndexWriteSet)
  | send (i : Nat)
  | startBuild
  | clearMap
  | finishBuild (ok : Bool)
  | startWrite
  | finishWrite (ok : Bool)
  | stopBuilder
  | stopWriter

namespace IndexLane

def outstanding (l : IndexLane) : Nat :=
  l.queue.length + l.building.toList.length + l.batches.length + l.writing.toList.length

variable {l : IndexLane}

theorem outstanding_enqueueIndexWrite (ws : IndexWriteSet)
    (hroom : l.queue.length < indexWriteCapacity) :
    (l.apply (.enqueueIndexWrite ws)).outstanding = l.outstanding + 1 := by
  unfold apply step
  dsimp only
  rw [if_pos hroom]
  simp [outstanding]
  omega

theorem outstanding_startBuild : (l.apply .startBuild).outstanding = l.outstanding := by
  unfold apply step
  dsimp only
  cases hbuilding : l.building with
  | some build => rfl
  | none =>
      cases hqueue : l.queue with
      | nil => rfl
      | cons ws queue => simp [outstanding, hbuilding, hqueue]

theorem outstanding_clearMap : (l.apply .clearMap).outstanding = l.outstanding := by
  unfold apply step
  dsimp only
  cases hbuilding : l.building with
  | none => rfl
  | some build =>
      obtain ⟨ws, found, toClear⟩ := build
      cases toClear with
      | nil => rfl
      | cons table toClear => simp [outstanding, hbuilding]

theorem outstanding_finishBuild {build : IndexBuild} (hbuilding : l.building = some build)
    (ok : Bool) :
    (l.apply (.finishBuild ok)).outstanding + (if ok = false then 1 else 0) = l.outstanding := by
  unfold apply step
  dsimp only
  rw [hbuilding]
  cases ok with
  | false =>
      simp [outstanding, hbuilding]
      omega
  | true =>
      by_cases hready : build.toClear = [] ∧ l.batches.length < builtBatchCapacity
      · simp [outstanding, hbuilding, hready]
        omega
      · simp [hready]

theorem outstanding_startWrite : (l.apply .startWrite).outstanding = l.outstanding := by
  unfold apply step
  dsimp only
  cases hwriting : l.writing with
  | some batch => rfl
  | none =>
      cases hbatches : l.batches with
      | nil => rfl
      | cons batch batches =>
          simp [outstanding, hwriting, hbatches]
          omega

theorem outstanding_finishWrite {batch : BuiltIndexBatch} (hwriting : l.writing = some batch)
    (ok : Bool) : (l.apply (.finishWrite ok)).outstanding + 1 = l.outstanding := by
  unfold apply step
  dsimp only
  rw [hwriting]
  simp [outstanding, hwriting]

end IndexLane

namespace IndexTasks

def closeBuilder (t : IndexTasks) : IndexTasks :=
  { t with builder := false, lane := { t.lane with queue := [], building := none } }

def closeWriter (t : IndexTasks) : IndexTasks :=
  { t with writer := false, lane := { t.lane with batches := [], writing := none } }

def step (pending : Nat) (t : IndexTasks) : IndexTaskAction → Nat × IndexTasks
  | .submit ws => (pending + 1, { t with submitting := t.submitting ++ [ws] })
  | .send i =>
      match t.submitting[i]? with
      | none => (pending, t)
      | some ws =>
          let sent := { t with submitting := t.submitting.eraseIdx i }
          if t.builder = false then (pending - 1, sent)
          else if t.lane.queue.length < indexWriteCapacity then
            (pending, { sent with lane := t.lane.apply (.enqueueIndexWrite ws) })
          else (pending, t)
  | .startBuild =>
      if t.builder then (pending, { t with lane := t.lane.apply .startBuild }) else (pending, t)
  | .clearMap => (pending, { t with lane := t.lane.apply .clearMap })
  | .finishBuild ok =>
      match t.lane.building with
      | none => (pending, t)
      | some build =>
          let done := { t with lane := t.lane.apply (.finishBuild ok) }
          if ok = false then (pending - 1, done)
          else if t.writer then (pending, done)
          else if build.toClear = [] then (pending - 1, t.closeBuilder)
          else (pending, t)
  | .startWrite =>
      if t.writer then (pending, { t with lane := t.lane.apply .startWrite }) else (pending, t)
  | .finishWrite ok =>
      match t.lane.writing with
      | none => (pending, t)
      | some _ => (pending - 1, { t with lane := t.lane.apply (.finishWrite ok) })
  | .stopBuilder => (pending, t.closeBuilder)
  | .stopWriter => (pending, t.closeWriter)

def outstanding (t : IndexTasks) : Nat := t.submitting.length + t.lane.outstanding

def lost (t : IndexTasks) : IndexTaskAction → Nat
  | .finishBuild ok =>
      match t.lane.building with
      | none => 0
      | some build =>
          if ok ∧ t.writer = false ∧ build.toClear = [] then t.lane.queue.length else 0
  | .stopBuilder => t.lane.queue.length + t.lane.building.toList.length
  | .stopWriter => t.lane.batches.length + t.lane.writing.toList.length
  | _ => 0

variable {t : IndexTasks} {pending : Nat}

theorem outstanding_closeBuilder (t : IndexTasks) :
    t.closeBuilder.outstanding + (t.lane.queue.length + t.lane.building.toList.length) =
      t.outstanding := by
  simp [closeBuilder, outstanding, IndexLane.outstanding]
  omega

theorem outstanding_closeWriter (t : IndexTasks) :
    t.closeWriter.outstanding + (t.lane.batches.length + t.lane.writing.toList.length) =
      t.outstanding := by
  simp [closeWriter, outstanding, IndexLane.outstanding]
  omega

theorem pending_passed {lane : IndexLane} (h : lane.outstanding = t.lane.outstanding) :
    pending + t.outstanding = pending + ({ t with lane := lane } : IndexTasks).outstanding + 0 := by
  unfold outstanding
  dsimp only
  rw [h]
  rfl

def CountFollows (pending : Nat) (t : IndexTasks) (a : IndexTaskAction) : Prop :=
  (t.step pending a).1 + t.outstanding =
    pending + (t.step pending a).2.outstanding + t.lost a

theorem follows_send (i : Nat) (hpending : t.outstanding ≤ pending) :
    t.CountFollows pending (.send i) := by
  unfold CountFollows step lost
  dsimp only
  cases hsub : t.submitting[i]? with
  | none => rfl
  | some ws =>
      obtain ⟨hlt, -⟩ := List.getElem?_eq_some_iff.mp hsub
      have hlength : (t.submitting.eraseIdx i).length + 1 = t.submitting.length :=
        List.length_eraseIdx_add_one hlt
      unfold outstanding at hpending ⊢
      dsimp only
      split_ifs with hclosed hroom
      · dsimp only
        omega
      · have hqueued := IndexLane.outstanding_enqueueIndexWrite ws hroom
        dsimp only
        omega
      · dsimp only
        omega

theorem follows_finishBuild (ok : Bool) (hpending : t.outstanding ≤ pending) :
    t.CountFollows pending (.finishBuild ok) := by
  unfold CountFollows step lost
  dsimp only
  cases hbuilding : t.lane.building with
  | none => rfl
  | some build =>
      have hdone := IndexLane.outstanding_finishBuild hbuilding ok
      have hclosed := outstanding_closeBuilder t
      rw [hbuilding] at hclosed
      dsimp only
      cases ok with
      | false =>
          rw [if_pos rfl] at hdone
          rw [if_pos rfl, if_neg fun h => Bool.false_ne_true h.1]
          unfold outstanding at hpending ⊢
          dsimp only
          omega
      | true =>
          rw [if_neg (by decide), Nat.add_zero] at hdone
          rw [if_neg (by decide)]
          by_cases hwriter : t.writer = true
          · rw [if_pos hwriter, if_neg (by simp [hwriter])]
            exact pending_passed hdone
          · rw [if_neg hwriter]
            have hstopped : t.writer = false := by simpa using hwriter
            by_cases hready : build.toClear = []
            · rw [if_pos hready, if_pos ⟨rfl, hstopped, hready⟩]
              simp only [Option.toList_some, List.length_singleton] at hclosed
              dsimp only
              omega
            · rw [if_neg hready, if_neg fun h => hready h.2.2]
              rfl

theorem pending_step (hpending : t.outstanding ≤ pending) (a : IndexTaskAction) :
    (t.step pending a).1 + t.outstanding =
      pending + (t.step pending a).2.outstanding + t.lost a := by
  cases a with
  | submit ws =>
      simp [step, lost, outstanding]
      omega
  | send i => exact follows_send i hpending
  | startBuild =>
      unfold step lost
      dsimp only
      split_ifs
      · exact pending_passed IndexLane.outstanding_startBuild
      · rfl
  | clearMap => exact pending_passed IndexLane.outstanding_clearMap
  | finishBuild ok => exact follows_finishBuild ok hpending
  | startWrite =>
      unfold step lost
      dsimp only
      split_ifs
      · exact pending_passed IndexLane.outstanding_startWrite
      · rfl
  | finishWrite ok =>
      unfold step lost
      dsimp only
      cases hwriting : t.lane.writing with
      | none => rfl
      | some batch =>
          have hdone := IndexLane.outstanding_finishWrite hwriting ok
          unfold outstanding at hpending ⊢
          dsimp only
          omega
  | stopBuilder =>
      have hclosed := outstanding_closeBuilder t
      unfold step lost
      dsimp only
      omega
  | stopWriter =>
      have hclosed := outstanding_closeWriter t
      unfold step lost
      dsimp only
      omega

end IndexTasks

/-! ## The counter -/

structure PersistTasks where
  pending : Nat := 0
  blocks : SqliteTasks ReceiptBlock BlockRow BlockTable
  history : SqliteTasks PersistOp EncodedPersistOp StateStore
  index : IndexTasks

inductive PersistTaskAction where
  | blocks (a : SqliteTaskAction ReceiptBlock)
  | history (a : SqliteTaskAction PersistOp)
  | index (a : IndexTaskAction)

namespace PersistTasks

variable (sdk : Sdk) (json : HistoryJson) (encodeBlockPayload : ReceiptBlock → Option (List UInt8))

def step (p : PersistTasks) : PersistTaskAction → PersistTasks
  | .blocks a =>
      let done := p.blocks.step (encodeBlock encodeBlockPayload) BlockTable.applyEncodedBlocksBatch
        p.pending a
      { p with pending := done.1, blocks := done.2 }
  | .history a =>
      let done := p.history.step (encodePersistOp sdk json) (StateStore.applyEncodedStateBatch sdk)
        p.pending a
      { p with pending := done.1, history := done.2 }
  | .index a =>
      let done := p.index.step p.pending a
      { p with pending := done.1, index := done.2 }

/-- The counter is the number of operations that are enqueued and neither written nor
dropped. -/
def Counts (p : PersistTasks) : Prop :=
  p.pending = p.blocks.outstanding + p.history.outstanding + p.index.outstanding

def LosesNone (p : PersistTasks) : PersistTaskAction → Prop
  | .blocks a => p.blocks.lost (encodeBlock encodeBlockPayload) a = 0
  | .history a => p.history.lost (encodePersistOp sdk json) a = 0
  | .index a => p.index.lost a = 0

variable {sdk json encodeBlockPayload}

theorem counts_step_iff {p : PersistTasks} (h : p.Counts) (a : PersistTaskAction) :
    (p.step sdk json encodeBlockPayload a).Counts ↔ p.LosesNone sdk json encodeBlockPayload a := by
  unfold Counts at h
  cases a with
  | blocks a =>
      have hle : p.blocks.outstanding ≤ p.pending := by omega
      have hpending := SqliteTasks.pending_step (encodeBlock encodeBlockPayload)
        BlockTable.applyEncodedBlocksBatch hle a
      unfold Counts step LosesNone
      dsimp only
      omega
  | history a =>
      have hle : p.history.outstanding ≤ p.pending := by omega
      have hpending := SqliteTasks.pending_step (encodePersistOp sdk json)
        (StateStore.applyEncodedStateBatch sdk) hle a
      unfold Counts step LosesNone
      dsimp only
      omega
  | index a =>
      have hle : p.index.outstanding ≤ p.pending := by omega
      have hpending := IndexTasks.pending_step hle a
      unfold Counts step LosesNone
      dsimp only
      omega

/-- In every run the counter is right exactly if no task takes an operation with it. -/
theorem counts_throughout_iff (sdk : Sdk) (json : HistoryJson)
    (encodeBlockPayload : ReceiptBlock → Option (List UInt8)) (blocks : BlockTable)
    (history : StateStore) (index : IndexTables) (actions : List PersistTaskAction) :
    let start : PersistTasks :=
      { blocks := { lane := { tables := blocks } }, history := { lane := { tables := history } },
        index := { lane := { tables := index } } }
    Throughout (step sdk json encodeBlockPayload) Counts actions start ↔
      Along (step sdk json encodeBlockPayload) (LosesNone sdk json encodeBlockPayload) actions
        start := by
  intro start
  have hkeeps : ∀ (p : PersistTasks) (a : PersistTaskAction), True → True → True :=
    fun _ _ _ _ => trivial
  have hstep : ∀ (p : PersistTasks) (a : PersistTaskAction), True → True → p.Counts →
      ((p.step sdk json encodeBlockPayload a).Counts ↔
        p.LosesNone sdk json encodeBlockPayload a) :=
    fun _ a _ _ h => counts_step_iff h a
  exact throughout_iff_along hkeeps hstep (fun _ _ => trivial) trivial rfl

end PersistTasks

namespace Sample

def idleTasks : PersistTasks where
  blocks := { lane := { tables := .empty } }
  history := { lane := { tables := {} } }
  index := { lane := { tables := IndexTables.empty } }

/-- The writer of the history has stopped, and the coalescer cannot hand its batch on. -/
def refusedBatch : List PersistTaskAction :=
  [.stopWriter, .submit (.savePaperHouseHistory (houseAt 1)) false, .send 0, .take,
    .finishEncode 0 true, .coalesce, .closeBatch, .sendBatch].map .history

/-- The operation is dropped and the counter stays at one. -/
theorem refusedBatch_pending :
    ¬Throughout (PersistTasks.step sdk noJson fun _ => none) PersistTasks.Counts refusedBatch
      idleTasks := by
  intro h
  have hcounts := h.finish
  unfold PersistTasks.Counts at hcounts
  revert hcounts
  decide +kernel

end Sample

end ClobIndexer
