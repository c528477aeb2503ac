import ClobIndexer.Indexer.Routing
import Mathlib.Logic.Relation
/-!
# The decode and apply workers, event by event

`prepare_block` classifies the events of a block one after the other, and each
lookup reads the index as the apply worker has it at that moment: with blocks
waiting in the channel, and with the market tasks of one block half done.  An
order event writes `orders_by_id` at most once, so a lookup falls before or after
it; the steps of the two workers are therefore single events.

Each worker keeps, beside what the source keeps, the events it has done.
-/

namespace ClobIndexer

open Lib

structure Decoding where
  block : ReceiptBlock
  done : List (String × TransactionEvent) := []
  rest : List (String × TransactionEvent)
  groups : OrderGroups := {}

structure MarketTask where
  done : List MarketOrderEvent := []
  rest : List MarketOrderEvent
  ws : IndexWriteSet := {}

structure Applying where
  opts : ProcessOpts
  prepared : PreparedBlock
  tasks : Dict String MarketTask

structure Workers where
  ws : List Message
  raw : List ReceiptBlock := []
  decoding : Option Decoding := none
  prepared : List PreparedBlock := []
  applying : Option Applying := none
  ctx : Ctx
  processed : List ReceiptBlock := []

def preparedOf (block : ReceiptBlock) (groups : OrderGroups) : PreparedBlock where
  blockNum := block.blockNum
  blockDigest := block.digest
  txCount := block.transactionOutputs.length
  block := block
  markets := groups.markets
  unmapped := groups.unmapped

theorem prepareBlock_eq (sdk : Sdk) (s : IndexState) (block : ReceiptBlock) :
    prepareBlock sdk s block =
      preparedOf block (block.okEvents.foldl (OrderGroups.add sdk s.orders) {}) :=
  rfl

inductive WorkerAction where
  | receive
  | takeRaw
  | classify
  | send
  | takePrepared (quiet : Bool)
  | work (spotMarket : String)
  | finish
deriving DecidableEq

namespace Workers

def classified (sdk : Sdk) (w : Workers) (d : Decoding) (e : String × TransactionEvent)
    (rest : List (String × TransactionEvent)) : Workers :=
  { w with
    decoding := some
      { d with
        done := d.done ++ [e]
        rest
        groups := d.groups.add sdk w.ctx.store.orders e } }

/-- The apply worker takes a block: the serial part runs, the tasks are spawned. -/
def taken (env : Env) (w : Workers) (opts : ProcessOpts) (next : PreparedBlock)
    (prepared : List PreparedBlock) : Workers :=
  { w with
    prepared
    ctx := w.ctx.applySerial env opts next
    applying := some ⟨opts, next, Dict.mapVal (fun events => { rest := events }) next.markets⟩ }

def worked (env : Env) (w : Workers) (a : Applying) (spotMarket : String) (task : MarketTask)
    (e : MarketOrderEvent) (rest : List MarketOrderEvent) : Workers :=
  let c := ({ w.ctx with ws := task.ws }).applyMarketOrderEvent env a.opts a.prepared.blockNum
    spotMarket e
  { w with
    ctx := { c with ws := w.ctx.ws }
    applying := some
      { a with tasks := a.tasks.insert spotMarket ⟨task.done ++ [e], rest, c.ws⟩ } }

/-- All tasks are done: their write sets are merged. -/
def finished (w : Workers) (a : Applying) : Workers :=
  let ws := a.tasks.entries.foldl (fun ws task => ws.merge task.2.ws) w.ctx.ws
  { w with
    ctx := { w.ctx with ws :=
      { ws with blockNum := a.prepared.blockNum, digest := a.prepared.blockDigest } }
    applying := none
    processed := w.processed ++ [a.prepared.block] }

/-- What the workers can do, in any order. -/
inductive Step (env : Env) : Workers → WorkerAction → Workers → Prop where
  | newBlock {w : Workers} {block : ReceiptBlock} {ws : List Message}
      (hws : w.ws = .newBlock block :: ws) (hroom : w.raw.length < pipelineRawCapacity) :
      Step env w .receive { w with ws, raw := w.raw ++ [block] }
  | receiptBlock {w : Workers} {block : ReceiptBlock} {ws : List Message}
      (hws : w.ws = .receiptBlock block :: ws) : Step env w .receive { w with ws }
  | error {w : Workers} {text : String} {ws : List Message} (hws : w.ws = .error text :: ws) :
      Step env w .receive { w with ws := [] }
  | takeRaw {w : Workers} {block : ReceiptBlock} {raw : List ReceiptBlock}
      (hidle : w.decoding = none) (hraw : w.raw = block :: raw) :
      Step env w .takeRaw
        { w with raw, decoding := some { block, rest := block.okEvents } }
  | classify {w : Workers} {d : Decoding} {e : String × TransactionEvent}
      {rest : List (String × TransactionEvent)} (hdecoding : w.decoding = some d)
      (hrest : d.rest = e :: rest) : Step env w .classify (w.classified env.sdk d e rest)
  | send {w : Workers} {d : Decoding} (hdecoding : w.decoding = some d) (hrest : d.rest = [])
      (hroom : w.prepared.length < pipelinePreparedCapacity) :
      Step env w .send
        { w with decoding := none, prepared := w.prepared ++ [preparedOf d.block d.groups] }
  | takePrepared {w : Workers} {next : PreparedBlock} {prepared : List PreparedBlock}
      (quiet : Bool) (hidle : w.applying = none) (hprepared : w.prepared = next :: prepared) :
      Step env w (.takePrepared quiet)
        (w.taken env (if quiet then .quiet else {}) next prepared)
  | work {w : Workers} {a : Applying} {spotMarket : String} {task : MarketTask}
      {e : MarketOrderEvent} {rest : List MarketOrderEvent} (happlying : w.applying = some a)
      (htask : a.tasks.lookup spotMarket = some task) (hrest : task.rest = e :: rest) :
      Step env w (.work spotMarket) (w.worked env a spotMarket task e rest)
  | finish {w : Workers} {a : Applying} (happlying : w.applying = some a)
      (hrest : ∀ m task, a.tasks.lookup m = some task → task.rest = []) :
      Step env w .finish (w.finished a)

end Workers

namespace Applying

def doneAt (a : Applying) (m : String) : List MarketOrderEvent :=
  (a.tasks.lookup m).elim [] MarketTask.done

def restAt (a : Applying) (m : String) : List MarketOrderEvent :=
  (a.tasks.lookup m).elim [] MarketTask.rest

end Applying

variable (sdk : Sdk) (start : LiveOrders)

namespace Workers

def before (w : Workers) (queued : List PreparedBlock) : List ReceiptBlock :=
  w.processed ++ (w.applying.map (·.prepared.block)).toList ++ queued.map (·.block)

def ahead (w : Workers) : List ReceiptBlock := w.before w.prepared

def doneAt (w : Workers) (m : String) : List MarketOrderEvent :=
  w.applying.elim [] fun a => a.doneAt m

/-- The live orders of the stream up to what has been applied. -/
noncomputable def applied (w : Workers) : LiveOrders := fun m =>
  (w.doneAt m).foldl (fun ids e => keysAfter e.chainOrderId ids e)
    (start.after sdk w.processed m)

/-- The live orders of the stream before the event that is next to be classified. -/
noncomputable def streamed (w : Workers) (d : Decoding) : LiveOrders :=
  d.done.foldl (LiveOrders.advance sdk) (start.after sdk w.ahead)

/-- The events that are ahead and not yet applied leave the only live order under
the chain id of the next event, if that event carries no contract. -/
def Timely (w : Workers) : Prop :=
  ∀ d e rest, w.decoding = some d → d.rest = e :: rest → ∀ id, bareOrderId e.2 = some id →
    (w.applied sdk start).marketOf id = (w.streamed sdk start d).marketOf id

def toDecode (w : Workers) : List ReceiptBlock :=
  (w.decoding.map (·.block)).toList ++ w.raw ++ delivered w.ws

end Workers

structure Routed (names : Set String) (live : LiveOrders)
    (group : String → List MarketOrderEvent) (events : List (String × TransactionEvent)) :
    Prop where
  eq : ∀ m, group m = (live.routes sdk events).filterMap (atMarket m)
  fit : ∀ m, ∀ e ∈ group m, WorkFit sdk names m e

/-- The index mirrors what has been applied, and every group holds the stream's routes. -/
structure Workers.OnTrack (names : Set String) (w : Workers) : Prop where
  mirrors : Mirrors sdk names (w.applied sdk start) w.ctx.store.orders
  applying : ∀ a, w.applying = some a →
    Routed sdk names (start.after sdk w.processed) a.prepared.group a.prepared.block.okEvents ∧
      ∀ m, a.doneAt m ++ a.restAt m = a.prepared.group m
  queued : ∀ queued b later, w.prepared = queued ++ b :: later →
    Routed sdk names (start.after sdk (w.before queued)) b.group b.block.okEvents
  decoding : ∀ d, w.decoding = some d → d.block.okEvents = d.done ++ d.rest ∧
    Routed sdk names (start.after sdk w.ahead) d.groups.group d.done
  fit : ∀ block ∈ w.toDecode, block.Fit sdk names

namespace Workers.OnTrack

variable {env : Env} {start : LiveOrders} {names : Set String} {w w' : Workers}

theorem routed_add (lawful : LawfulSdk sdk) {live applied : LiveOrders} {idx : OrderIndex}
    (hmirrors : Mirrors sdk names applied idx) {block : ReceiptBlock}
    (hfit : block.Fit sdk names) {groups : OrderGroups}
    {done : List (String × TransactionEvent)} (h : Routed sdk names live groups.group done)
    {e : String × TransactionEvent} (he : e ∈ block.okEvents)
    (htimely : ∀ id, bareOrderId e.2 = some id →
      applied.marketOf id = (done.foldl (LiveOrders.advance sdk) live).marketOf id) :
    Routed sdk names live (groups.add sdk idx e).group (done ++ [e]) := by
  have hlookup : route sdk idx.lookupSpotMarketForChainOrder e = route sdk applied.marketOf e := by
    apply LiveOrders.route_congr
    intro id hid
    apply hmirrors.lookup_eq_marketOf
    unfold bareOrderId at hid
    split at hid
    · cases hid
      exact hfit.plain e he _ ‹_›
    · cases hid
      exact hfit.plain e he _ ‹_›
    · cases hid
  have hstream : route sdk applied.marketOf e =
      route sdk (LiveOrders.marketOf (done.foldl (LiveOrders.advance sdk) live)) e :=
    LiveOrders.route_congr htimely
  constructor
  · intro m
    rw [group_add, h.eq, LiveOrders.routes_append, List.filterMap_append, hlookup, hstream]
    congr 1
    unfold LiveOrders.routes LiveOrders.routes
    cases hroute : route sdk
        (LiveOrders.marketOf (done.foldl (LiveOrders.advance sdk) live)) e with
    | none => rfl
    | some r =>
        cases hat : atMarket m r with
        | none => simp [hat]
        | some work => simp [hat]
  · intro m work hwork
    rw [group_add, hlookup, List.mem_append, Option.mem_toList, Option.bind_eq_some_iff] at hwork
    rcases hwork with hold | ⟨⟨m', work'⟩, hroute, hat⟩
    · exact h.fit m work hold
    · unfold atMarket at hat
      split_ifs at hat with hm
      cases hat
      subst hm
      exact workFit_route lawful hmirrors hfit he hroute

theorem receive (h : OnTrack sdk start names w) {ws : List Message} {raw : List ReceiptBlock}
    (hfit : ∀ block ∈ raw ++ delivered ws, block ∈ w.raw ++ delivered w.ws) :
    OnTrack sdk start names { w with ws, raw } := by
  refine ⟨h.mirrors, h.applying, h.queued, h.decoding, ?_⟩
  intro block hblock
  apply h.fit
  unfold toDecode at hblock ⊢
  rw [List.append_assoc, List.mem_append] at hblock ⊢
  exact hblock.imp_right (hfit block)

theorem takeRaw (h : OnTrack sdk start names w) {block : ReceiptBlock} {raw : List ReceiptBlock}
    (hidle : w.decoding = none) (hraw : w.raw = block :: raw) :
    OnTrack sdk start names { w with raw, decoding := some { block, rest := block.okEvents } } := by
  refine ⟨h.mirrors, h.applying, h.queued, ?_, ?_⟩
  · rintro d ⟨⟩
    refine ⟨rfl, ?_, ?_⟩
    · exact fun m => rfl
    · exact fun m e he => absurd he List.not_mem_nil
  · intro block' hblock
    apply h.fit
    unfold toDecode at hblock ⊢
    rw [hidle, hraw]
    exact hblock

theorem classify (lawful : LawfulSdk sdk) (h : OnTrack sdk start names w) {d : Decoding}
    {e : String × TransactionEvent} {rest : List (String × TransactionEvent)}
    (hdecoding : w.decoding = some d) (hrest : d.rest = e :: rest)
    (htimely : w.Timely sdk start) : OnTrack sdk start names (w.classified sdk d e rest) := by
  obtain ⟨hevents, hrouted⟩ := h.decoding d hdecoding
  rw [hrest] at hevents
  have hfit : d.block.Fit sdk names := by
    apply h.fit
    unfold toDecode
    rw [hdecoding]
    exact List.mem_append_left _ List.mem_cons_self
  have he : e ∈ d.block.okEvents := by
    rw [hevents]
    exact List.mem_append_right _ List.mem_cons_self
  refine ⟨h.mirrors, h.applying, h.queued, ?_, ?_⟩
  · rintro d' ⟨⟩
    refine ⟨?_, ?_⟩
    · rw [hevents]
      exact List.append_cons ..
    · exact routed_add sdk lawful h.mirrors hfit hrouted he (htimely d e rest hdecoding hrest)
  · intro block hblock
    apply h.fit
    unfold toDecode classified at hblock
    unfold toDecode
    rw [hdecoding]
    exact hblock

theorem send (h : OnTrack sdk start names w) {d : Decoding} (hdecoding : w.decoding = some d)
    (hrest : d.rest = []) :
    OnTrack sdk start names
      { w with decoding := none, prepared := w.prepared ++ [preparedOf d.block d.groups] } := by
  obtain ⟨hevents, hrouted⟩ := h.decoding d hdecoding
  rw [hrest, List.append_nil] at hevents
  refine ⟨h.mirrors, h.applying, ?_, nofun, ?_⟩
  · intro before b later hprepared
    rcases List.eq_nil_or_concat later with rfl | ⟨later, last, rfl⟩
    · obtain ⟨hbefore, hb⟩ := List.append_inj' hprepared rfl
      cases hb
      rw [← hbefore]
      change Routed sdk names _ d.groups.group d.block.okEvents
      rw [hevents]
      exact hrouted
    · rw [List.concat_eq_append, ← List.cons_append, ← List.append_assoc] at hprepared
      exact h.queued before b later (List.append_inj' hprepared rfl).1
  · intro block hblock
    apply h.fit
    unfold toDecode at hblock ⊢
    rw [List.append_assoc] at hblock ⊢
    exact List.mem_append_right _ hblock

theorem takePrepared (h : OnTrack env.sdk start names w) {next : PreparedBlock}
    {prepared : List PreparedBlock} (opts : ProcessOpts) (hidle : w.applying = none)
    (hprepared : w.prepared = next :: prepared) :
    OnTrack env.sdk start names (w.taken env opts next prepared) := by
  have hahead : (w.taken env opts next prepared).ahead = w.ahead := by
    unfold ahead before taken
    rw [hidle, hprepared]
    simp
  have hdone : ∀ m, (w.taken env opts next prepared).doneAt m = [] := by
    intro m
    unfold Workers.doneAt taken Applying.doneAt
    dsimp only [Option.elim_some]
    rw [Dict.lookup_mapVal]
    cases next.markets.lookup m with
    | none => rfl
    | some events => rfl
  refine ⟨?_, ?_, ?_, ?_, h.fit⟩
  · have hmirrors := h.mirrors
    have hsame : (w.taken env opts next prepared).applied env.sdk start =
        w.applied env.sdk start := by
      funext m
      unfold applied
      rw [hdone]
      simp [Workers.doneAt, hidle, taken]
    rw [hsame]
    change Mirrors env.sdk names _ (w.ctx.applySerial env opts next).store.orders
    rw [Ctx.orders_applySerial]
    exact hmirrors
  · rintro a ⟨⟩
    constructor
    · have hrouted := h.queued [] next prepared hprepared
      unfold Workers.before at hrouted
      rw [hidle] at hrouted
      simpa [taken] using hrouted
    · intro m
      unfold Applying.doneAt Applying.restAt PreparedBlock.group
      dsimp only
      rw [Dict.lookup_mapVal]
      cases next.markets.lookup m with
      | none => rfl
      | some events => rfl
  · intro before b later hsplit
    have hrest : prepared = before ++ b :: later := hsplit
    have hqueue : w.prepared = (next :: before) ++ b :: later := by
      rw [hprepared, hrest]
      rfl
    have hrouted := h.queued (next :: before) b later hqueue
    unfold Workers.before at hrouted ⊢
    rw [hidle] at hrouted
    simpa [taken] using hrouted
  · intro d hdecoding
    rw [hahead]
    exact h.decoding d hdecoding

theorem work (lawful : LawfulSdk env.sdk) (hinj : Set.InjOn env.sdk.uuidV5 names)
    (h : OnTrack env.sdk start names w) {a : Applying} {spotMarket : String} {task : MarketTask}
    {e : MarketOrderEvent} {rest : List MarketOrderEvent} (happlying : w.applying = some a)
    (htask : a.tasks.lookup spotMarket = some task) (hrest : task.rest = e :: rest) :
    OnTrack env.sdk start names (w.worked env a spotMarket task e rest) := by
  obtain ⟨hrouted, hsplit⟩ := h.applying a happlying
  have hgroup := hsplit spotMarket
  simp only [Applying.doneAt, Applying.restAt, htask, Option.elim_some, hrest] at hgroup
  have hfit : WorkFit env.sdk names spotMarket e := by
    apply hrouted.fit
    rw [← hgroup]
    exact List.mem_append_right _ List.mem_cons_self
  have hmoved : (w.worked env a spotMarket task e rest).applied env.sdk start =
      (w.applied env.sdk start).moved (spotMarket, e) := by
    funext m
    unfold applied LiveOrders.moved Workers.doneAt worked Applying.doneAt
    dsimp only [Option.elim_some]
    rw [happlying, Dict.lookup_insert_ite, Option.elim_some]
    by_cases hm : m = spotMarket
    · subst hm
      rw [if_pos rfl, Function.update_self, htask, Option.elim_some, Option.elim_some,
        List.foldl_append]
      rfl
    · rw [if_neg hm, Function.update_of_ne hm]
      rfl
  refine ⟨?_, ?_, ?_, ?_, h.fit⟩
  · rw [hmoved]
    exact Mirrors.event (c := { w.ctx with ws := task.ws }) lawful hinj a.opts
      a.prepared.blockNum h.mirrors hfit
  · rintro a' ⟨⟩
    refine ⟨hrouted, ?_⟩
    intro m
    unfold Applying.doneAt Applying.restAt
    dsimp only
    rw [Dict.lookup_insert_ite]
    by_cases hm : m = spotMarket
    · subst hm
      rw [if_pos rfl, ← hgroup]
      exact (List.append_cons ..).symm
    · rw [if_neg hm]
      exact hsplit m
  · intro before b later hprepared
    have hqueued := h.queued before b later hprepared
    unfold Workers.before at hqueued
    rw [happlying] at hqueued
    exact hqueued
  · intro d hdecoding
    have hd := h.decoding d hdecoding
    unfold ahead before at hd
    rw [happlying] at hd
    exact hd

theorem finish (h : OnTrack env.sdk start names w) {a : Applying}
    (happlying : w.applying = some a)
    (hrest : ∀ m task, a.tasks.lookup m = some task → task.rest = []) :
    OnTrack env.sdk start names (w.finished a) := by
  obtain ⟨hrouted, hsplit⟩ := h.applying a happlying
  have hdone : ∀ m, a.doneAt m = a.prepared.group m := by
    intro m
    rw [← hsplit m]
    unfold Applying.restAt
    cases htask : a.tasks.lookup m with
    | none => simp
    | some task => simp [hrest m task htask]
  have hahead : (w.finished a).ahead = w.ahead := by
    unfold ahead before finished
    rw [happlying]
    simp
  refine ⟨?_, nofun, ?_, ?_, h.fit⟩
  · have hsame : (w.finished a).applied env.sdk start = w.applied env.sdk start := by
      funext m
      have hstart : (w.finished a).applied env.sdk start m =
          start.after env.sdk (w.processed ++ [a.prepared.block]) m := rfl
      rw [hstart, LiveOrders.after_append, LiveOrders.after_singleton,
        LiveOrders.foldl_advance_at, ← hrouted.eq m, ← hdone m]
      unfold applied Workers.doneAt
      rw [happlying]
      rfl
    rw [hsame]
    exact h.mirrors
  · intro before b later hprepared
    have hqueued := h.queued before b later hprepared
    unfold Workers.before at hqueued ⊢
    rw [happlying] at hqueued
    simpa [finished] using hqueued
  · intro d hdecoding
    rw [hahead]
    exact h.decoding d hdecoding

theorem step (lawful : LawfulSdk env.sdk) (hinj : Set.InjOn env.sdk.uuidV5 names)
    {action : WorkerAction} (hstep : Step env w action w')
    (htimely : action = .classify → w.Timely env.sdk start)
    (h : OnTrack env.sdk start names w) : OnTrack env.sdk start names w' := by
  cases hstep with
  | newBlock hws hroom =>
      apply h.receive
      intro block' hblock
      rw [hws]
      rw [List.append_assoc] at hblock
      exact hblock
  | receiptBlock hws =>
      apply h.receive
      intro block' hblock
      rw [hws]
      exact hblock
  | error hws =>
      apply h.receive
      intro block' hblock
      rw [hws]
      exact hblock
  | takeRaw hidle hraw => exact h.takeRaw _ hidle hraw
  | classify hdecoding hrest => exact h.classify _ lawful hdecoding hrest (htimely rfl)
  | send hdecoding hrest hroom => exact h.send _ hdecoding hrest
  | takePrepared quiet hidle hprepared => exact h.takePrepared _ hidle hprepared
  | work happlying htask hrest => exact h.work lawful hinj happlying htask hrest
  | finish happlying hrest => exact h.finish happlying hrest

end Workers.OnTrack

namespace Workers

variable (env : Env)

/-- A step of either worker that classifies no event too early. -/
def TimelyStep (w w' : Workers) : Prop :=
  ∃ action, Step env w action w' ∧ (action = .classify → w.Timely env.sdk start)

variable {env start} {names : Set String}

/-- The first event of a block is in time once all blocks ahead are applied. -/
theorem timely_of_caughtUp {w : Workers} (happlying : w.applying = none) (hprepared : w.prepared = [])
    (hdone : ∀ d, w.decoding = some d → d.done = []) : w.Timely sdk start := by
  intro d e rest hdecoding hrest id hid
  have happlied : w.applied sdk start = start.after sdk w.processed := by
    funext m
    simp [applied, Workers.doneAt, happlying]
  have hstreamed : w.streamed sdk start d = start.after sdk w.processed := by
    simp [streamed, hdone d hdecoding, ahead, before, happlying, hprepared]
  rw [happlied, hstreamed]

theorem onTrack_run (lawful : LawfulSdk env.sdk) (hinj : Set.InjOn env.sdk.uuidV5 names)
    {w w' : Workers} (h : OnTrack env.sdk start names w)
    (hrun : Relation.ReflTransGen (TimelyStep start env) w w') :
    OnTrack env.sdk start names w' := by
  induction hrun with
  | refl => exact h
  | tail _ hstep ih =>
      obtain ⟨action, hstep, htimely⟩ := hstep
      exact OnTrack.step lawful hinj hstep htimely ih

/-- In a run in which no event is classified too early, every prepared block groups
the events as if all before each had been applied: an event without contract whose
order is the only live one with its chain id is in the group of the order's market. -/
theorem prepared_routed (lawful : LawfulSdk env.sdk) (hinj : Set.InjOn env.sdk.uuidV5 names)
    {messages : List Message} {c : Ctx} (hmirrors : Mirrors env.sdk names start c.store.orders)
    (hfit : ∀ block ∈ delivered messages, block.Fit env.sdk names) {w : Workers}
    (hrun : Relation.ReflTransGen (TimelyStep start env) { ws := messages, ctx := c } w)
    {queued later : List PreparedBlock} {b : PreparedBlock}
    (hb : w.prepared = queued ++ b :: later) :
    let live := start.after env.sdk (w.before queued)
    (∀ m, b.group m = (live.routes env.sdk b.block.okEvents).filterMap (atMarket m)) ∧
      ∀ earlier sender event rest o id m,
        b.block.okEvents = earlier ++ (sender, event) :: rest → event.payload = .order o →
        bareOrderId event = some id →
        LiveOrders.Only (earlier.foldl (LiveOrders.advance env.sdk) live) id m →
        o.work sender ∈ b.group m := by
  intro live
  have hstart : OnTrack env.sdk start names { ws := messages, ctx := c } :=
    ⟨hmirrors, nofun, fun before b later hnil => by simp at hnil, nofun, hfit⟩
  have hrouted : Routed env.sdk names live b.group b.block.okEvents :=
    (onTrack_run lawful hinj hstart hrun).queued queued b later hb
  refine ⟨hrouted.eq, ?_⟩
  intro earlier sender event rest o id m hevents hpayload hid honly
  have hroute : route env.sdk
      (LiveOrders.marketOf (earlier.foldl (LiveOrders.advance env.sdk) live)) (sender, event) =
      some (m, o.work sender) := by
    have hm := LiveOrders.marketOf_eq_some_iff.mpr honly
    cases hcontract : event.contract with
    | some contract => simp [bareOrderId, hcontract] at hid
    | none =>
        cases o with
        | cancelled o =>
            simp only [bareOrderId, hcontract, hpayload, Option.some.injEq] at hid
            simp [route, hpayload, marketFor, spotMarketFromEventContract, hcontract, hid, hm]
        | updated o =>
            simp only [bareOrderId, hcontract, hpayload, Option.some.injEq] at hid
            simp [route, hpayload, marketFor, spotMarketFromEventContract, hcontract, hid, hm]
        | created o => simp [bareOrderId, hcontract, hpayload] at hid
        | filled o => simp [bareOrderId, hcontract, hpayload] at hid
        | executed o => simp [bareOrderId, hcontract, hpayload] at hid
  rw [hrouted.eq m, hevents, LiveOrders.routes_append, LiveOrders.routes, hroute,
    List.filterMap_append, List.filterMap_append]
  apply List.mem_append_right
  apply List.mem_append_left
  simp [atMarket]

end Workers

namespace Sample

def buyOrder : OrderCreatedEvent := ⟨"1", .buy, 10, account, market, .limit 500000, none⟩

def placing : String × TransactionEvent := (account, ⟨.order (.created buyOrder), none⟩)

def bareCancel : OrderCancelledEvent := ⟨"1", .buy, 500000, 10⟩

def cancelling : String × TransactionEvent :=
  (account, ⟨.order (.cancelled bareCancel), none⟩)

def oneByOne (blockNum : UInt64) (events : List (String × TransactionEvent)) : ReceiptBlock :=
  ⟨blockNum, "", 0, events.map fun e => ⟨true, e.1, [e.2]⟩⟩

theorem only_placed :
    LiveOrders.Only ([placing].foldl (LiveOrders.advance setting.sdk) fun _ => ∅) "1" market := by
  have hmarket : normalizeSpotMarketKey setting.sdk market = market := by decide +kernel
  have hlive : [placing].foldl (LiveOrders.advance setting.sdk) (fun _ => ∅) =
      Function.update (fun _ => ∅) market {"1"} := by
    change Function.update (fun _ : String => (∅ : Set String))
      (normalizeSpotMarketKey setting.sdk market) (insert "1" ∅) = _
    rw [hmarket, insert_empty_eq]
  rw [hlive]
  intro m
  by_cases hm : m = market
  · simp [hm]
  · simp [hm]

def together : ReceiptBlock := oneByOne 1 [placing, cancelling]

def classifying (block : ReceiptBlock) (done rest : List (String × TransactionEvent)) : Workers where
  ws := []
  decoding := some ⟨block, done, rest, done.foldl (OrderGroups.add setting.sdk {}) {}⟩
  ctx := { store := {} }

theorem step_classifying (block : ReceiptBlock) (done : List (String × TransactionEvent))
    (e : String × TransactionEvent) (rest : List (String × TransactionEvent)) :
    Workers.Step setting (classifying block done (e :: rest)) .classify
      (classifying block (done ++ [e]) rest) := by
  have hstep : Workers.Step setting (classifying block done (e :: rest)) .classify
      ((classifying block done (e :: rest)).classified setting.sdk
        ⟨block, done, e :: rest, done.foldl (OrderGroups.add setting.sdk {}) {}⟩ e rest) :=
    .classify rfl rfl
  unfold classifying at hstep ⊢
  rw [List.foldl_append]
  exact hstep

/-- One block places an order and cancels it: the cancellation is in no group. -/
theorem placed_cancelled_unrouted :
    ∃ (w : Workers) (b : PreparedBlock),
      Relation.ReflTransGen (fun w w' => ∃ action, Workers.Step setting w action w')
        { ws := [.newBlock together], ctx := { store := {} } } w ∧
      w.prepared = [b] ∧ b.block.okEvents = [placing] ++ cancelling :: [] ∧
      bareOrderId cancelling.2 = some "1" ∧
      LiveOrders.Only ([placing].foldl (LiveOrders.advance setting.sdk) fun _ => ∅) "1" market ∧
      .cancelled bareCancel ∉ b.group market := by
  let b := prepareBlock setting.sdk {} together
  have hgroup : MarketOrderEvent.cancelled bareCancel ∉ b.group market := by decide +kernel
  have hreceived : Workers.Step setting { ws := [.newBlock together], ctx := { store := {} } }
      .receive { ws := [], raw := [together], ctx := { store := {} } } :=
    .newBlock rfl (by decide)
  have htaken : Workers.Step setting { ws := [], raw := [together], ctx := { store := {} } }
      .takeRaw (classifying together [] [placing, cancelling]) := .takeRaw rfl rfl
  have hfirst := step_classifying together [] placing [cancelling]
  have hsecond := step_classifying together [placing] cancelling []
  have hsent : Workers.Step setting (classifying together [placing, cancelling] [])
      .send { ws := [], prepared := [b], ctx := { store := {} } } :=
    Workers.Step.send (w := classifying together [placing, cancelling] []) rfl rfl (by decide)
  refine ⟨{ ws := [], prepared := [b], ctx := { store := {} } }, b, ?_, rfl, rfl, rfl, only_placed,
    hgroup⟩
  exact .tail (.tail (.tail (.tail (.tail .refl ⟨_, hreceived⟩) ⟨_, htaken⟩) ⟨_, hfirst⟩)
    ⟨_, hsecond⟩) ⟨_, hsent⟩

def firstBlock : ReceiptBlock := oneByOne 1 [placing]

def secondBlock : ReceiptBlock := oneByOne 2 [cancelling]

theorem fit_block {block : ReceiptBlock} (h : block ∈ [firstBlock, secondBlock]) :
    block.Fit setting.sdk {market ++ ":1"} := by
  have hkey : onchainOrderId setting.sdk market "1" = market ++ ":1" := by decide +kernel
  rw [List.mem_pair] at h
  rcases h with rfl | rfl
  · constructor
    · intro e he o ho
      rw [List.mem_singleton.mp he] at ho
      cases ho
      exact (by decide : ':' ∉ "1".toList)
    · intro e he o ho
      rw [List.mem_singleton.mp he] at ho
      cases ho
      exact hkey
  · constructor
    · intro e he o ho
      rw [List.mem_singleton.mp he] at ho
      cases ho
      exact (by decide : ':' ∉ "1".toList)
    · intro e he o ho
      rw [List.mem_singleton.mp he] at ho
      cases ho

theorem run_decode {block : ReceiptBlock} {e : String × TransactionEvent}
    (hevents : block.okEvents = [e]) (ws : List Message) (c : Ctx)
    (processed : List ReceiptBlock) :
    Relation.ReflTransGen (Workers.TimelyStep (fun _ => ∅) setting)
      { ws := .newBlock block :: ws, ctx := c, processed }
      { ws, prepared := [prepareBlock setting.sdk c.store block], ctx := c, processed } := by
  let d : Decoding := { block, rest := block.okEvents }
  let w : Workers := { ws, decoding := some d, ctx := c, processed }
  have htimely : w.Timely setting.sdk fun _ => ∅ := by
    refine Workers.timely_of_caughtUp setting.sdk rfl rfl ?_
    rintro _ ⟨⟩
    rfl
  have hgroups : prepareBlock setting.sdk c.store block =
      preparedOf block (OrderGroups.add setting.sdk c.store.orders {} e) := by
    rw [prepareBlock_eq, hevents]
    rfl
  have hraw : ([] : List ReceiptBlock).length < pipelineRawCapacity := by decide
  have hroom : ([] : List PreparedBlock).length < pipelinePreparedCapacity := by decide
  rw [hgroups]
  refine .tail (b := w.classified setting.sdk d e []) ?_
    ⟨.send, .send (w := w.classified setting.sdk d e []) rfl rfl hroom, nofun⟩
  refine .tail (b := w) ?_ ⟨.classify, .classify rfl hevents, fun _ => htimely⟩
  refine .tail (b := { ws, raw := [block], ctx := c, processed }) ?_
    ⟨.takeRaw, .takeRaw rfl rfl, nofun⟩
  exact .tail .refl ⟨.receive, .newBlock rfl hraw, nofun⟩

theorem run_apply (ws : List Message) :
    ∃ c : Ctx, Relation.ReflTransGen (Workers.TimelyStep (fun _ => ∅) setting)
      { ws, prepared := [prepareBlock setting.sdk {} firstBlock], ctx := { store := {} } }
      { ws, ctx := c, processed := [firstBlock] } := by
  let p := prepareBlock setting.sdk {} firstBlock
  have hmarkets : p.markets =
      (∅ : Dict String (List MarketOrderEvent)).insert market [.created buyOrder] :=
    AList.ext (by decide +kernel)
  let a : Applying := ⟨{}, p, Dict.mapVal (fun events => { rest := events }) p.markets⟩
  have htask : a.tasks.lookup market = some { rest := [.created buyOrder] } := by
    change (Dict.mapVal _ p.markets).lookup market = _
    rw [Dict.lookup_mapVal, hmarkets, AList.lookup_insert]
    rfl
  have hother : ∀ m, m ≠ market → a.tasks.lookup m = none := by
    intro m hm
    change (Dict.mapVal _ p.markets).lookup m = _
    rw [Dict.lookup_mapVal, hmarkets, Dict.lookup_insert_ite, if_neg hm]
    rfl
  let w : Workers := { ws, prepared := [p], ctx := { store := {} } }
  have htaken : Workers.Step setting w (.takePrepared false) (w.taken setting {} p []) :=
    .takePrepared false rfl rfl
  let w' := (w.taken setting {} p []).worked setting a market { rest := [.created buyOrder] }
    (.created buyOrder) []
  have hworked : Workers.Step setting (w.taken setting {} p []) (.work market) w' :=
    .work rfl htask rfl
  have hfinished : ∃ a', Workers.Step setting w' .finish (w'.finished a') ∧ a'.prepared = p := by
    refine ⟨_, .finish rfl ?_, rfl⟩
    intro m task hlookup
    dsimp only at hlookup
    rw [Dict.lookup_insert_ite] at hlookup
    split_ifs at hlookup with hm
    · cases hlookup
      rfl
    · rw [hother m hm] at hlookup
      cases hlookup
  obtain ⟨a', hfinished, hp⟩ := hfinished
  have hlast : w'.finished a' = { ws, ctx := (w'.finished a').ctx, processed := [firstBlock] } := by
    unfold Workers.finished
    rw [hp]
    rfl
  refine ⟨(w'.finished a').ctx, ?_⟩
  rw [← hlast]
  exact .tail (.tail (.tail .refl ⟨_, htaken, nofun⟩) ⟨_, hworked, nofun⟩) ⟨_, hfinished, nofun⟩

/-- The order is placed in one block, which is applied, and cancelled in the next. -/
theorem placed_then_cancelled_routed :
    ∃ (w : Workers) (b : PreparedBlock),
      Relation.ReflTransGen (Workers.TimelyStep (fun _ => ∅) setting)
        { ws := [.newBlock firstBlock, .newBlock secondBlock], ctx := { store := {} } } w ∧
      w.prepared = [b] ∧ .cancelled bareCancel ∈ b.group market := by
  obtain ⟨c, happly⟩ := run_apply [.newBlock secondBlock]
  let b := prepareBlock setting.sdk c.store secondBlock
  let w : Workers := { ws := [], prepared := [b], ctx := c, processed := [firstBlock] }
  have hrun : Relation.ReflTransGen (Workers.TimelyStep (fun _ => ∅) setting)
      { ws := [.newBlock firstBlock, .newBlock secondBlock], ctx := { store := {} } } w :=
    ((run_decode (e := placing) rfl _ _ _).trans happly).trans
      (run_decode (e := cancelling) rfl _ c _)
  have hprepared : w.prepared = [] ++ b :: [] := rfl
  have hrouted := (Workers.prepared_routed lawful (Set.injOn_singleton _ _) Mirrors.empty
    (fun _ => fit_block) hrun hprepared).2
  exact ⟨w, b, hrun, rfl, hrouted [] account cancelling.2 [] (.cancelled bareCancel) "1" market rfl
    rfl rfl only_placed⟩

end Sample

end ClobIndexer
