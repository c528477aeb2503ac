import ClobIndexer.Lib.Runs
/-!
# The pipelines to SQLite

`src/persist/workers.rs`: encode workers take operations from one queue and pass them
on as they get done, a coalescer collects them into batches, a writer writes each batch
in one transaction.  The pipeline of the blocks and that of the history differ in what
they encode and in the tables they write.
-/

namespace ClobIndexer

def persistQueueCapacity : Nat := 64

def persistEncodeWorkers : Nat := 4

def persistBatchMax : Nat := 128

def encodedCapacity : Nat := persistEncodeWorkers * 2

def encodedBatchCapacity : Nat := 2

/-- The queue, the operations in the workers, the channel of encoded ones, the batch being
collected, the channel of batches, the batch being written, and the tables. -/
structure SqliteLane (Op Enc T : Type) where
  queue : List Op := []
  encoding : List Op := []
  encoded : List Enc := []
  coalescing : List Enc := []
  closed : Bool := false
  batches : List (List Enc) := []
  writing : Option (List Enc) := none
  tables : T

/-- What the tasks and those who enqueue do.  An encoding that fails drops the operation, a
write that fails drops the batch. -/
inductive SqliteAction (Op : Type) where
  | enqueue (op : Op)
  | take
  | finishEncode (worker : Nat) (ok : Bool)
  | coalesce
  | closeBatch
  | sendBatch
  | startWrite
  | finishWrite (ok : Bool)

namespace SqliteLane

variable {Op Enc T : Type} (encode : Op → Option Enc) (write : List Enc → T → T)

def step (l : SqliteLane Op Enc T) : SqliteAction Op → Option (SqliteLane Op Enc T)
  | .enqueue op =>
      if l.queue.length < persistQueueCapacity then some { l with queue := l.queue ++ [op] }
      else none
  | .take =>
      match l.queue with
      | op :: queue =>
          if l.encoding.length < persistEncodeWorkers then
            some { l with queue := queue, encoding := l.encoding ++ [op] }
          else none
      | [] => none
  | .finishEncode worker ok =>
      match l.encoding[worker]? with
      | some op =>
          match if ok then encode op else none with
          | some e =>
              if l.encoded.length < encodedCapacity then
                some
                  { l with
                    encoding := l.encoding.eraseIdx worker
                    encoded := l.encoded ++ [e] }
              else none
          | none => some { l with encoding := l.encoding.eraseIdx worker }
      | none => none
  | .coalesce =>
      match l.encoded with
      | e :: encoded =>
          if l.closed = false ∧ l.coalescing.length < persistBatchMax then
            some { l with encoded := encoded, coalescing := l.coalescing ++ [e] }
          else none
      | [] => none
  | .closeBatch => if l.coalescing = [] then none else some { l with closed := true }
  | .sendBatch =>
      if (l.closed ∨ l.coalescing.length = persistBatchMax) ∧
          l.batches.length < encodedBatchCapacity then
        some { l with coalescing := [], closed := false, batches := l.batches ++ [l.coalescing] }
      else none
  | .startWrite =>
      match l.writing, l.batches with
      | none, batch :: batches => some { l with batches := batches, writing := some batch }
      | _, _ => none
  | .finishWrite ok =>
      match l.writing with
      | some batch =>
          some { l with writing := none, tables := if ok then write batch l.tables else l.tables }
      | none => none

/-- An action that cannot be taken changes nothing. -/
def apply (l : SqliteLane Op Enc T) (a : SqliteAction Op) : SqliteLane Op Enc T :=
  (l.step encode write a).getD l

def writes (l : SqliteLane Op Enc T) : SqliteAction Op → Option (List Enc)
  | .finishWrite true => l.writing
  | _ => none

/-- The tables change by the batches that are written. -/
theorem tables_apply (l : SqliteLane Op Enc T) (a : SqliteAction Op) :
    (l.apply encode write a).tables =
      match l.writes a with
      | some batch => write batch l.tables
      | none => l.tables := by
  unfold apply
  cases a with
  | enqueue op => unfold step; split_ifs <;> rfl
  | take => unfold step; dsimp only; split <;> [split_ifs <;> rfl; rfl]
  | finishEncode worker ok =>
      unfold step
      dsimp only
      cases l.encoding[worker]? with
      | none => rfl
      | some op =>
          dsimp only
          cases (if ok then encode op else none) with
          | none => rfl
          | some e => dsimp only; split_ifs <;> rfl
  | coalesce => unfold step; dsimp only; split <;> [split_ifs <;> rfl; rfl]
  | closeBatch => unfold step; dsimp only; split_ifs <;> rfl
  | sendBatch => unfold step; dsimp only; split_ifs <;> rfl
  | startWrite => unfold step; dsimp only; split <;> rfl
  | finishWrite ok =>
      unfold step writes
      cases l.writing with
      | none => cases ok <;> rfl
      | some batch => cases ok <;> rfl

/-! ## The order of the operations of a key -/

/-- What the workers have passed on and the tables do not have, oldest first. -/
def inFlight (l : SqliteLane Op Enc T) : List Enc :=
  l.writing.getD [] ++ l.batches.flatten ++ l.coalescing ++ l.encoded

def unencoded (l : SqliteLane Op Enc T) : List Op := l.encoding ++ l.queue

def accepts (l : SqliteLane Op Enc T) : SqliteAction Op → List Op
  | .enqueue op => if l.queue.length < persistQueueCapacity then [op] else []
  | _ => []

def Drained (l : SqliteLane Op Enc T) : Prop := l.inFlight = [] ∧ l.unencoded = []

variable {K : Type} [DecidableEq K] (key : Enc → K)

/-- What was accepted is written or on its way, for each key in the order of acceptance. -/
def Ordered (accepted : List Op) (written : List Enc) (l : SqliteLane Op Enc T) : Prop :=
  ∀ k, (accepted.filterMap encode).filter (fun e => key e = k) =
    (written ++ l.inFlight ++ l.unencoded.filterMap encode).filter fun e => key e = k

/-- No operation is lost by an encoding or a write that fails, and none is passed on before an
earlier one of its key that differs. -/
def InTurn (l : SqliteLane Op Enc T) : SqliteAction Op → Prop
  | .finishEncode worker ok => ∀ op ∈ l.encoding[worker]?, ∀ e ∈ encode op, ok = true ∧
      (l.encoded.length < encodedCapacity →
        ∀ earlier ∈ (l.encoding.take worker).filterMap encode, key earlier = key e → earlier = e)
  | .finishWrite ok => l.writing.getD [] ≠ [] → ok = true
  | _ => True

variable {encode write key} {accepted : List Op} {written : List Enc} {l : SqliteLane Op Enc T}

theorem ordered_of_eq {accepted' : List Op} {written' : List Enc} {l' : SqliteLane Op Enc T}
    (h : l.Ordered encode key accepted written) (ops : List Op)
    (haccepted : accepted' = accepted ++ ops)
    (hsame : written' ++ l'.inFlight ++ l'.unencoded.filterMap encode =
      written ++ l.inFlight ++ l.unencoded.filterMap encode ++ ops.filterMap encode) :
    l'.Ordered encode key accepted' written' := by
  intro k
  rw [hsame, haccepted, List.filterMap_append, List.filter_append, List.filter_append, h k]

theorem eq_nil_of_filter_eq {front lost back all : List Enc}
    (h : ∀ k, all.filter (fun e => key e = k) = (front ++ lost ++ back).filter fun e => key e = k)
    (h' : ∀ k, all.filter (fun e => key e = k) = (front ++ back).filter fun e => key e = k) :
    lost = [] := by
  cases lost with
  | nil => rfl
  | cons e lost =>
      have hlength := congrArg List.length ((h (key e)).symm.trans (h' (key e)))
      simp only [List.filter_append, List.length_append, List.filter_cons, decide_true, if_true,
        List.length_cons] at hlength
      omega

theorem cons_eq_append_singleton_iff (e : Enc) (es : List Enc) :
    e :: es = es ++ [e] ↔ ∀ e' ∈ es, e' = e := by
  induction es with
  | nil => simp
  | cons e' es ih =>
      rw [List.cons_append, List.cons.injEq, List.forall_mem_cons]
      constructor
      · rintro ⟨rfl, hrest⟩
        exact ⟨rfl, ih.mp hrest⟩
      · rintro ⟨rfl, hrest⟩
        exact ⟨rfl, ih.mpr hrest⟩

/-- An operation may go first exactly if the earlier ones of its key are the same. -/
theorem filter_first_iff (front back : List Enc) (e : Enc) :
    (∀ k, (e :: (front ++ back)).filter (fun e => key e = k) =
      (front ++ e :: back).filter fun e => key e = k) ↔
      ∀ earlier ∈ front, key earlier = key e → earlier = e := by
  have hown : (e :: (front ++ back)).filter (fun e' => key e' = key e) =
      (front ++ e :: back).filter (fun e' => key e' = key e) ↔
      ∀ earlier ∈ front, key earlier = key e → earlier = e := by
    have hfront := cons_eq_append_singleton_iff e (front.filter fun e' => key e' = key e)
    simp only [List.mem_filter, decide_eq_true_eq, and_imp] at hfront
    simp only [List.filter_cons, List.filter_append, decide_true, if_true]
    have hcancel : e :: front.filter (fun e' => key e' = key e) ++
        back.filter (fun e' => key e' = key e) = front.filter (fun e' => key e' = key e) ++ [e] ++
          back.filter (fun e' => key e' = key e) ↔ _ := List.append_left_inj _
    rw [← hfront, ← hcancel]
    simp
  constructor
  · exact fun h => hown.mp (h (key e))
  · intro h k
    by_cases hk : key e = k
    · subst hk
      exact hown.mpr h
    · simp [hk]

theorem apply_finishEncode {worker : Nat} {op : Op} (hop : l.encoding[worker]? = some op)
    (ok : Bool) :
    l.apply encode write (.finishEncode worker ok) =
      match if ok then encode op else none with
      | some e =>
          if l.encoded.length < encodedCapacity then
            { l with encoding := l.encoding.eraseIdx worker, encoded := l.encoded ++ [e] }
          else l
      | none => { l with encoding := l.encoding.eraseIdx worker } := by
  unfold apply step
  dsimp only
  rw [hop]
  dsimp only
  cases (if ok then encode op else none) with
  | none => rfl
  | some e => dsimp only; split_ifs <;> rfl

theorem ordered_finishEncode_iff (write : List Enc → T → T)
    (h : l.Ordered encode key accepted written) {worker : Nat} {op : Op}
    (hop : l.encoding[worker]? = some op) (ok : Bool) :
    (l.apply encode write (.finishEncode worker ok)).Ordered encode key accepted written ↔
      l.InTurn encode key (.finishEncode worker ok) := by
  obtain ⟨hlt, hget⟩ := List.getElem?_eq_some_iff.mp hop
  have hsplit : l.encoding = l.encoding.take worker ++ op :: l.encoding.drop (worker + 1) := by
    rw [← hget, List.getElem_cons_drop, List.take_append_drop]
  let front := (l.encoding.take worker).filterMap encode
  let back := (l.encoding.drop (worker + 1) ++ l.queue).filterMap encode
  have hunencoded : l.unencoded.filterMap encode = front ++ (encode op).toList ++ back := by
    unfold unencoded
    rw [hsplit]
    cases he : encode op <;> simp [front, back, he]
  have hrest : (l.encoding.eraseIdx worker ++ l.queue).filterMap encode = front ++ back := by
    rw [List.eraseIdx_eq_take_drop_succ]
    simp [front, back]
  have hdropped : ({ l with encoding := l.encoding.eraseIdx worker } : SqliteLane Op Enc T).Ordered
      encode key accepted written ↔ ∀ k, (accepted.filterMap encode).filter (fun e => key e = k) =
        (written ++ l.inFlight ++ front ++ back).filter fun e => key e = k := by
    unfold Ordered
    rw [List.append_assoc (written ++ l.inFlight), ← hrest]
    rfl
  unfold InTurn
  dsimp only
  rw [apply_finishEncode hop, hop]
  unfold Ordered at h
  rw [hunencoded] at h
  simp only [Option.mem_some_iff, forall_eq']
  cases he : encode op with
  | none =>
      rw [he] at h
      rw [ite_self]
      refine iff_of_true (hdropped.mpr fun k => ?_) nofun
      simpa using h k
  | some e =>
      rw [he] at h
      simp only [Option.mem_some_iff, forall_eq']
      cases ok with
      | false =>
          -- the operation is lost
          refine iff_of_false (fun hordered => ?_) fun hturn => Bool.false_ne_true hturn.1
          have hlost : [e] = [] := by
            apply eq_nil_of_filter_eq (fun k => ?_) (hdropped.mp hordered)
            simpa using h k
          exact List.cons_ne_nil e [] hlost
      | true =>
          simp only [if_true, true_and]
          by_cases hroom : l.encoded.length < encodedCapacity
          · have hpassed : ({ l with
                  encoding := l.encoding.eraseIdx worker
                  encoded := l.encoded ++ [e] } : SqliteLane Op Enc T).Ordered encode key accepted
                  written ↔ ∀ k, (accepted.filterMap encode).filter (fun e => key e = k) =
                    (written ++ l.inFlight ++ e :: (front ++ back)).filter fun e => key e = k := by
              unfold Ordered unencoded inFlight
              dsimp only
              rw [hrest]
              simp
            rw [if_pos hroom, forall_prop_of_true hroom, ← filter_first_iff front back e, hpassed]
            refine forall_congr' fun k => ?_
            rw [h k, List.filter_append, List.filter_append _ (e :: (front ++ back)),
              List.append_right_inj, eq_comm, Option.toList_some, List.append_assoc,
              List.singleton_append]
          · rw [if_neg hroom]
            refine iff_of_true ?_ fun hlt => absurd hlt hroom
            unfold Ordered
            rw [hunencoded, he]
            exact h

theorem ordered_finishWrite_iff (write : List Enc → T → T)
    (h : l.Ordered encode key accepted written) {batch : List Enc}
    (hwriting : l.writing = some batch) (ok : Bool) :
    (l.apply encode write (.finishWrite ok)).Ordered encode key accepted
        (written ++ (l.writes (.finishWrite ok)).getD []) ↔
      l.InTurn encode key (.finishWrite ok) := by
  let back := l.batches.flatten ++ l.coalescing ++ l.encoded ++ l.unencoded.filterMap encode
  have hall : ∀ k, (accepted.filterMap encode).filter (fun e => key e = k) =
      (written ++ batch ++ back).filter fun e => key e = k := by
    intro k
    rw [h k]
    simp [inFlight, hwriting, back]
  have hafter : ∀ written', (l.apply encode write (.finishWrite ok)).Ordered encode key accepted
      written' ↔ ∀ k, (accepted.filterMap encode).filter (fun e => key e = k) =
        (written' ++ back).filter fun e => key e = k := by
    intro written'
    refine forall_congr' fun k => ?_
    unfold apply step
    dsimp only
    rw [hwriting]
    simp [inFlight, unencoded, back]
  unfold InTurn writes
  dsimp only
  rw [hafter, hwriting]
  cases ok with
  | true => exact iff_of_true hall fun _ => rfl
  | false =>
      simp only [Option.getD_none, Option.getD_some, List.append_nil]
      constructor
      · -- otherwise the batch is lost
        exact fun hordered hbatch => absurd (eq_nil_of_filter_eq hall hordered) hbatch
      · intro hturn k
        have hbatch : batch = [] := by
          by_contra hne
          exact Bool.false_ne_true (hturn hne)
        rw [hall k, hbatch, List.append_nil]

/-- An action keeps the operations of each key in order exactly if it is in turn. -/
theorem ordered_apply_iff (h : l.Ordered encode key accepted written) (a : SqliteAction Op) :
    (l.apply encode write a).Ordered encode key (accepted ++ l.accepts a)
      (written ++ (l.writes a).getD []) ↔ l.InTurn encode key a := by
  have hidle : l.Ordered encode key (accepted ++ []) (written ++ []) := by
    rwa [List.append_nil, List.append_nil]
  cases a with
  | enqueue op =>
      refine iff_of_true ?_ trivial
      unfold apply step accepts
      dsimp only
      split_ifs
      · refine ordered_of_eq h [op] rfl ?_
        simp [writes, inFlight, unencoded]
      · exact hidle
  | take =>
      refine iff_of_true ?_ trivial
      unfold apply step
      dsimp only
      cases hqueue : l.queue with
      | nil => exact hidle
      | cons op queue =>
          dsimp only
          split_ifs
          · refine ordered_of_eq h [] rfl ?_
            simp [writes, inFlight, unencoded, hqueue]
          · exact hidle
  | finishEncode worker ok =>
      cases hop : l.encoding[worker]? with
      | none =>
          unfold apply step InTurn
          dsimp only
          rw [hop]
          exact iff_of_true hidle nofun
      | some op =>
          have hiff := ordered_finishEncode_iff write h hop ok
          simpa [accepts, writes] using hiff
  | coalesce =>
      refine iff_of_true ?_ trivial
      unfold apply step
      dsimp only
      cases hencoded : l.encoded with
      | nil => exact hidle
      | cons e encoded =>
          dsimp only
          split_ifs
          · refine ordered_of_eq h [] rfl ?_
            simp [writes, inFlight, unencoded, hencoded]
          · exact hidle
  | closeBatch =>
      refine iff_of_true ?_ trivial
      unfold apply step
      dsimp only
      split_ifs
      · exact hidle
      · refine ordered_of_eq h [] rfl ?_
        simp [writes, inFlight, unencoded]
  | sendBatch =>
      refine iff_of_true ?_ trivial
      unfold apply step
      dsimp only
      split_ifs
      · refine ordered_of_eq h [] rfl ?_
        simp [writes, inFlight, unencoded]
      · exact hidle
  | startWrite =>
      refine iff_of_true ?_ trivial
      unfold apply step
      dsimp only
      cases hwriting : l.writing with
      | some batch => exact hidle
      | none =>
          cases hbatches : l.batches with
          | nil => exact hidle
          | cons batch batches =>
              refine ordered_of_eq h [] rfl ?_
              simp [writes, inFlight, unencoded, hwriting, hbatches]
  | finishWrite ok =>
      cases hwriting : l.writing with
      | none =>
          unfold apply step InTurn
          dsimp only
          rw [hwriting]
          refine iff_of_true ?_ fun hne => absurd rfl hne
          cases ok <;> simpa [writes, hwriting, accepts] using h
      | some batch =>
          have hiff := ordered_finishWrite_iff write h hwriting ok
          simpa [accepts] using hiff

end SqliteLane

end ClobIndexer
