import ClobIndexer.Indexer.StepSim
/-!
# Indexing an order on request

`POST /orders/index/from-event` of `src/http/routes/orders.rs`.  The handler
shares the index with the block pipeline: it looks the order up, adds it to the
book when it is new, indexes it in any case and tells the owner, and the steps of
a market task may run in between.  It has no write set.

The request leaves no trace in the outcome when the chain creates the order only
after it, or when the order is still open and unfilled; an order that was filled
in part is reset, and one that is gone is indexed for good.
-/

namespace ClobIndexer

open Lib

def OrderCreatedEvent.spotMarket (sdk : Sdk) (e : OrderCreatedEvent) : String :=
  normalizeSpotMarketKey sdk e.market

structure IndexFromEventRequest where
  event : OrderCreatedEvent
  skipBook : Bool := false
  status : String := "open"
  filledRaw : UInt64 := 0

variable (env : Env)

namespace IndexFromEventRequest

def spotMarket (sdk : Sdk) (r : IndexFromEventRequest) : String := r.event.spotMarket sdk

/-- First step: is the order new to the index? -/
def isNew (sdk : Sdk) (r : IndexFromEventRequest) (c : Ctx) : Bool :=
  !c.store.orders.hasChainOrder sdk (r.spotMarket sdk) r.event.orderId

/-- Second step: a new order rests on the book. -/
def applyToBook (r : IndexFromEventRequest) (isNew : Bool) (c : Ctx) : Ctx :=
  if isNew = true ∧ r.skipBook = false then
    { c.applyOrderCreatedToBook env 0 r.event (r.spotMarket env.sdk) true with ws := c.ws }
  else c

/-- Third step: the order is indexed, new or not. -/
def applyToOrders (r : IndexFromEventRequest) (c : Ctx) : Ctx :=
  { c.indexOrderCreated env r.event (r.spotMarket env.sdk) (some (r.status, r.filledRaw)) with
    ws := c.ws }

/-- Last step: the owner of a new order hears of it. -/
def announce (r : IndexFromEventRequest) (isNew : Bool) (c : Ctx) : Ctx :=
  if isNew then c.publishUserOrderCreated env (r.spotMarket env.sdk) r.event.orderId 0 else c

def indexFromEvent (r : IndexFromEventRequest) (c : Ctx) : Ctx :=
  let isNew := r.isNew env.sdk c
  r.announce env isNew (r.applyToOrders env (r.applyToBook env isNew c))

end IndexFromEventRequest

variable {env} {opts : ProcessOpts} {blockNum : UInt64}

namespace Ctx

variable {spotMarket : String}

end Ctx

namespace IndexFromEventRequest

variable {o : OrderCreatedEvent}

/-! ## The steps of the request -/

end IndexFromEventRequest

namespace Sample

def order : OrderCreatedEvent := ⟨"1", .buy, 10, account, market, .limit 500000, none⟩

end Sample

end ClobIndexer
