import ClobIndexer.Indexer.Processor
/-!
# Order events step by step

The index is shared between the block pipeline and the request handlers, and
each of its operations is atomic on its own.  A market task is therefore a
sequence of steps between which others may run: for every event, what the task
reads or records first, the hydration of the book, the book, the orders, and what
is left to do.  Whether a created order was a duplicate is decided in the first
step and remembered.
-/

namespace ClobIndexer

open Lib

inductive Phase where
  | enter
  | hydrate
  | book
  | orders
  | finish
deriving DecidableEq

structure OrderStep where
  phase : Phase
  event : MarketOrderEvent
deriving DecidableEq

namespace MarketOrderEvent

def steps (e : MarketOrderEvent) : List OrderStep :=
  [⟨.enter, e⟩, ⟨.hydrate, e⟩, ⟨.book, e⟩, ⟨.orders, e⟩, ⟨.finish, e⟩]

end MarketOrderEvent

variable (env : Env) (opts : ProcessOpts) (blockNum : UInt64) (spotMarket : String)

namespace Ctx

def enter (c : Ctx) : MarketOrderEvent → Ctx × Bool
  | .created e => (c, c.store.orders.hasChainOrder env.sdk spotMarket e.orderId)
  | .executed e => (c, c.store.orders.hasChainOrder env.sdk spotMarket e.orderId)
  | .filled e _ => (c.recordLastTradePrice env.sdk spotMarket e.price, false)
  | .cancelled _ => (c, false)
  | .updated _ => (c, false)

def hydrateFor (skip : Bool) (c : Ctx) : MarketOrderEvent → Ctx
  | .created _ => if skip then c else c.ensureChainHydrated env spotMarket
  | .updated _ => c.ensureChainHydrated env spotMarket
  | .filled _ _ => c.ensureChainHydrated env spotMarket
  | .cancelled _ => c
  | .executed _ => c

def applyToBook (skip : Bool) (c : Ctx) : MarketOrderEvent → Ctx
  | .created e =>
      if skip then c
      else c.applyOrderCreatedToBook env blockNum e spotMarket opts.publishWs
  | .cancelled e => c.onBooks opts.publishWs fun t =>
      t.applyCancelled env.sdk spotMarket e.side e.price e.cancelledAmount blockNum
  | .updated e => c.onBooks opts.publishWs fun t =>
      t.applyUpdated env.sdk spotMarket e.side e.price e.oldAmount e.newAmount e.remainingAmount
        blockNum
  | .filled e _ => c.onBooks opts.publishWs fun t =>
      t.applyFilled env.sdk spotMarket e.side e.price e.fillAmount blockNum e.price
        (if c.store.tsMs = 0 then none else some c.store.tsMs) env.nowMs
  | .executed _ => c

def applyToOrders (skip : Bool) (c : Ctx) : MarketOrderEvent → Ctx
  | .created e => if skip then c else c.indexOrderCreated env e spotMarket none
  | .cancelled e => c.onOrders fun t =>
      t.updateOrderCancelled env.sdk c.store.tsMs spotMarket e.orderId
  | .updated e => c.onOrders fun t =>
      t.updateOrderAmount env.sdk c.store.tsMs spotMarket e.orderId e.newAmount e.remainingAmount
  | .filled e _ => c.onOrders fun t =>
      t.updateOrderFill env.sdk c.store.tsMs spotMarket e.orderId e.fillAmount e.remainingAmount
        e.isFullyFilled
  | .executed e =>
      if skip then c
      else
        let (c, order) := c.indexMarketOrderExecuted env e spotMarket
        if opts.publishWs then c.publishExecuted spotMarket blockNum e order else c

def finish (skip : Bool) (c : Ctx) : MarketOrderEvent → Ctx
  | .created e =>
      if skip then c
      else if opts.publishWs then c.publishUserOrderCreated env spotMarket e.orderId blockNum
      else c
  | .cancelled e =>
      if opts.publishWs then c.publishUserOrderCancelled env spotMarket e.orderId blockNum else c
  | .updated e =>
      if opts.publishWs then c.publishUserOrderUpdated env spotMarket e.orderId blockNum else c
  | .filled e txSender =>
      let c := c.applyVaultFill env spotMarket e
      if opts.publishWs then c.publishUserOrderFilled env e spotMarket blockNum txSender else c
  | .executed _ => c

/-- Run one step; the flag says whether the current event is skipped. -/
def exec (s : Ctx × Bool) (step : OrderStep) : Ctx × Bool :=
  match step.phase with
  | .enter => s.1.enter env spotMarket step.event
  | .hydrate => (s.1.hydrateFor env spotMarket s.2 step.event, s.2)
  | .book => (s.1.applyToBook env opts blockNum spotMarket s.2 step.event, s.2)
  | .orders => (s.1.applyToOrders env opts blockNum spotMarket s.2 step.event, s.2)
  | .finish => (s.1.finish env opts blockNum spotMarket s.2 step.event, s.2)

def execs (steps : List OrderStep) (s : Ctx × Bool) : Ctx × Bool :=
  steps.foldl (exec env opts blockNum spotMarket) s

/-- Uninterrupted, the steps of an event are its handler. -/
theorem execs_steps (e : MarketOrderEvent) (s : Ctx × Bool) :
    (execs env opts blockNum spotMarket e.steps s).1 =
      s.1.applyMarketOrderEvent env opts blockNum spotMarket e := by
  obtain ⟨c, flag⟩ := s
  cases e with
  | created e =>
      change _ = c.handleCreated env opts blockNum spotMarket e
      unfold handleCreated
      cases hdup : c.store.orders.hasChainOrder env.sdk spotMarket e.orderId with
      | true =>
          simp only [execs, MarketOrderEvent.steps, List.foldl_cons, List.foldl_nil, exec, enter,
            hydrateFor, applyToBook, applyToOrders, finish, hdup, if_true]
      | false =>
          simp only [execs, MarketOrderEvent.steps, List.foldl_cons, List.foldl_nil, exec, enter,
            hydrateFor, applyToBook, applyToOrders, finish, hdup, Bool.false_eq_true, if_false]
  | cancelled e => rfl
  | updated e => rfl
  | filled e txSender => rfl
  | executed e => rfl

section Messages

variable {env}

theorem publishStoredOrder_hub (c : Ctx) (event spotMarket chainOrderId : String)
    (blockNum : UInt64) :
    ∃ hub, c.publishStoredOrder env event spotMarket chainOrderId blockNum = { c with hub } := by
  unfold publishStoredOrder
  split
  · exact ⟨c.hub, rfl⟩
  · exact ⟨_, rfl⟩

theorem publishUserOrderFilled_hub (c : Ctx) (filled : OrderFilledEvent) (spotMarket : String)
    (blockNum : UInt64) (txSender : String) :
    ∃ hub, c.publishUserOrderFilled env filled spotMarket blockNum txSender = { c with hub } := by
  unfold publishUserOrderFilled
  dsimp only
  split
  · exact ⟨_, rfl⟩
  · split_ifs
    · exact ⟨_, rfl⟩
    · exact ⟨c.hub, rfl⟩

theorem publishExecuted_hub (c : Ctx) (spotMarket : String) (blockNum : UInt64)
    (executed : MarketOrderExecutedEvent) (order : Order) :
    ∃ hub, c.publishExecuted spotMarket blockNum executed order = { c with hub } := by
  unfold publishExecuted
  dsimp only
  split_ifs
  · exact ⟨_, rfl⟩
  · exact ⟨_, rfl⟩

end Messages

/-- What the last step of an event leaves but for the messages: a fill has reached the
holdings. -/
def settled (c : Ctx) : MarketOrderEvent → Ctx
  | .filled e _ => c.applyVaultFill env spotMarket e
  | _ => c

theorem finish_eq (c : Ctx) (skip : Bool) (e : MarketOrderEvent) :
    ∃ hub, c.finish env opts blockNum spotMarket skip e =
      { c.settled env spotMarket e with hub } := by
  cases e with
  | created e =>
      unfold finish
      dsimp only
      split_ifs
      · exact ⟨c.hub, rfl⟩
      · exact publishStoredOrder_hub c _ spotMarket e.orderId blockNum
      · exact ⟨c.hub, rfl⟩
  | cancelled e =>
      unfold finish
      dsimp only
      split_ifs
      · exact publishStoredOrder_hub c _ spotMarket e.orderId blockNum
      · exact ⟨c.hub, rfl⟩
  | updated e =>
      unfold finish
      dsimp only
      split_ifs
      · exact publishStoredOrder_hub c _ spotMarket e.orderId blockNum
      · exact ⟨c.hub, rfl⟩
  | filled e txSender =>
      unfold finish
      dsimp only
      split_ifs
      · exact publishUserOrderFilled_hub _ e spotMarket blockNum txSender
      · exact ⟨_, rfl⟩
  | executed e => exact ⟨c.hub, rfl⟩

end Ctx

end ClobIndexer
