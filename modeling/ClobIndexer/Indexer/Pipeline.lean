import ClobIndexer.Indexer.Processor
/-!
# The live pipeline

`run_live_pipeline` of `src/indexer/pipeline.rs` has three workers with a bounded
channel between each two: one receives the messages of the node, one saves and
prepares the blocks, one applies them.  A run is a sequence of their actions in
any order.  The blocks keep the order in which they were received, so what has
been applied is always a prefix of what was sent.
-/

namespace ClobIndexer

inductive Message where
  | newBlock (block : ReceiptBlock)
  | receiptBlock (block : ReceiptBlock)
  | error (text : String)
deriving DecidableEq

/-- The blocks that a list of messages delivers: an error ends it. -/
def delivered : List Message → List ReceiptBlock
  | [] => []
  | .newBlock block :: messages => block :: delivered messages
  | .receiptBlock _ :: messages => delivered messages
  | .error _ :: _ => []

def pipelineRawCapacity : Nat := 64

def pipelinePreparedCapacity : Nat := 64

structure Pipeline where
  ws : List Message
  raw : List ReceiptBlock := []
  prepared : List PreparedBlock := []
  ctx : Ctx
  processed : List ReceiptBlock

inductive PipelineAction where
  | receive
  | decode
  | apply (quiet : Bool)
deriving DecidableEq

variable (env : Env)

namespace Pipeline

def receive (p : Pipeline) : Option Pipeline :=
  match p.ws with
  | [] => none
  | .newBlock block :: ws =>
      if p.raw.length < pipelineRawCapacity then some { p with ws, raw := p.raw ++ [block] }
      else none
  | .receiptBlock _ :: ws => some { p with ws }
  | .error _ :: _ => some { p with ws := [] }

/-- The next block is prepared against the index as it stands, blocks ahead of it
may not have been applied. -/
def decode (p : Pipeline) : Option Pipeline :=
  match p.raw with
  | [] => none
  | block :: raw =>
      if p.prepared.length < pipelinePreparedCapacity then
        some { p with raw, prepared := p.prepared ++ [prepareBlock env.sdk p.ctx.store block] }
      else none

/-- The next prepared block is applied, without messages when there is a backlog. -/
def apply (quiet : Bool) (p : Pipeline) : Option Pipeline :=
  match p.prepared with
  | [] => none
  | next :: prepared =>
      some
        { p with
          prepared
          ctx := p.ctx.processPreparedBlock env (if quiet then .quiet else {}) next
          processed := p.processed ++ [next.block] }

def step (p : Pipeline) : PipelineAction → Option Pipeline
  | .receive => p.receive
  | .decode => p.decode env
  | .apply quiet => p.apply env quiet

def run (actions : List PipelineAction) (p : Pipeline) : Option Pipeline :=
  actions.foldlM (step env) p

/-! ## Order is kept -/

def inFlight (p : Pipeline) : List ReceiptBlock :=
  p.prepared.map (·.block) ++ p.raw ++ delivered p.ws

variable {env}

theorem processed_inFlight_step {p q : Pipeline} {action : PipelineAction}
    (h : p.step env action = some q) :
    q.processed ++ q.inFlight = p.processed ++ p.inFlight := by
  unfold inFlight
  cases action with
  | receive =>
      unfold step receive at h
      cases hws : p.ws with
      | nil => simp [hws] at h
      | cons message ws =>
          cases message with
          | newBlock block =>
              simp only [hws, Option.ite_none_right_eq_some, Option.some.injEq] at h
              obtain ⟨-, rfl⟩ := h
              simp [delivered]
          | receiptBlock block =>
              simp only [hws, Option.some.injEq] at h
              subst h
              simp [delivered]
          | error text =>
              simp only [hws, Option.some.injEq] at h
              subst h
              simp [delivered]
  | decode =>
      unfold step decode at h
      cases hraw : p.raw with
      | nil => simp [hraw] at h
      | cons block raw =>
          simp only [hraw, Option.ite_none_right_eq_some, Option.some.injEq] at h
          obtain ⟨-, rfl⟩ := h
          simp [prepareBlock]
  | apply quiet =>
      unfold step apply at h
      cases hprepared : p.prepared with
      | nil => simp [hprepared] at h
      | cons next prepared =>
          simp only [hprepared, Option.some.injEq] at h
          subst h
          simp

theorem processed_inFlight_run {p q : Pipeline} {actions : List PipelineAction}
    (h : p.run env actions = some q) :
    q.processed ++ q.inFlight = p.processed ++ p.inFlight := by
  unfold run at h
  induction actions generalizing p with
  | nil =>
      cases h
      rfl
  | cons action actions ih =>
      rw [List.foldlM_cons, Option.bind_eq_bind, Option.bind_eq_some_iff] at h
      obtain ⟨next, hstep, hrest⟩ := h
      rw [ih hrest, processed_inFlight_step hstep]

/-- What has been applied is a prefix of what the pipeline holds at the start. -/
theorem processed_prefix {p q : Pipeline} {actions : List PipelineAction}
    (h : p.run env actions = some q) : q.processed <+: p.processed ++ p.inFlight :=
  ⟨q.inFlight, processed_inFlight_run h⟩

/-! ## Everything delivered can be applied -/

def drain : List Message → List PipelineAction
  | [] => []
  | .newBlock _ :: messages => .receive :: .decode :: .apply false :: drain messages
  | .receiptBlock _ :: messages => .receive :: drain messages
  | .error _ :: _ => []

variable (env) in
theorem run_drain (messages : List Message) (c : Ctx) (processed : List ReceiptBlock) :
    ∃ q, run env (drain messages) { ws := messages, ctx := c, processed := processed } = some q ∧
      q.processed = processed ++ delivered messages := by
  induction messages generalizing c processed with
  | nil => exact ⟨_, rfl, (List.append_nil _).symm⟩
  | cons message messages ih =>
      cases message with
      | newBlock block =>
          obtain ⟨q, hrun, hq⟩ := ih (c.processPreparedBlock env {}
            (prepareBlock env.sdk c.store block)) (processed ++ [block])
          refine ⟨q, hrun, ?_⟩
          rw [hq, List.append_assoc]
          rfl
      | receiptBlock block =>
          obtain ⟨q, hrun, hq⟩ := ih c processed
          exact ⟨q, hrun, hq⟩
      | error text => exact ⟨_, rfl, (List.append_nil _).symm⟩

end Pipeline

end ClobIndexer
