import ClobIndexer.Indexer.World
import ClobIndexer.Lib.Interleave
/-!
# Market tasks call by call

`join_all` runs the market tasks of a block concurrently.  A task can be suspended at
every call that it awaits, so its steps are those calls: one for each function of the
index, the node or the hub.  What it has learnt from one call and uses in a later one,
and the write set it fills, are its own.
-/

namespace ClobIndexer

open Lib

inductive TaskPhase where
  /-- `has_chain_order`, or `record_last_trade_price` -/
  | enter
  /-- `Bars::on_trade` -/
  | candles
  /-- `is_chain_hydrated` -/
  | probe
  /-- `get_book_with_depth_fallback` -/
  | fetch
  /-- `last_trade_price`, or `get_market_info` -/
  | price
  /-- `hydrate_from_chain` -/
  | install
  /-- the level change -/
  | book
  /-- `lookup_spot_market` -/
  | lookup
  /-- `ensure_standalone_spot_market` -/
  | register
  /-- `get_market` -/
  | describe
  /-- `insert_order`, or the update of the order -/
  | order
  /-- `stored_order_by_chain_id` -/
  | owner
  /-- `apply_vault_fill_to_portfolio` -/
  | vault
  /-- the messages -/
  | publish
deriving DecidableEq

structure TaskStep where
  phase : TaskPhase
  event : MarketOrderEvent
deriving DecidableEq

/-- What a task keeps to itself between two calls. -/
structure TaskLocal where
  ws : IndexWriteSet := {}
  /-- the order of the event is known already -/
  skip : Bool := false
  /-- the book has to be loaded -/
  loads : Bool := false
  answer : Option GetOrderBook := none
  view : Option (GetOrderBook × Option UInt64) := none
  mapped : Option (Uuid × String) := none
  texts : String × String := ("", "")
  owner : Option String := none

namespace MarketOrderEvent

def taskSteps (e : MarketOrderEvent) : List TaskStep :=
  [⟨.enter, e⟩, ⟨.candles, e⟩, ⟨.probe, e⟩, ⟨.fetch, e⟩, ⟨.price, e⟩, ⟨.install, e⟩, ⟨.book, e⟩,
    ⟨.lookup, e⟩, ⟨.register, e⟩, ⟨.describe, e⟩, ⟨.order, e⟩, ⟨.owner, e⟩, ⟨.vault, e⟩,
    ⟨.publish, e⟩]

def needsBook : MarketOrderEvent → Bool
  | .created _ => true
  | .updated _ => true
  | .filled _ _ => true
  | .cancelled _ => false
  | .executed _ => false

def indexesOrder : MarketOrderEvent → Bool
  | .created _ => true
  | .executed _ => true
  | .cancelled _ => false
  | .updated _ => false
  | .filled _ _ => false

end MarketOrderEvent

variable (env : Env) (opts : ProcessOpts) (blockNum : UInt64) (spotMarket : String)

def createdOrder (mapped : Uuid × String) (texts : String × String) (created : OrderCreatedEvent) :
    Order where
  id := orderUuid env.sdk spotMarket created.orderId
  marketId := mapped.1
  marketSlug := texts.2
  question := texts.1
  outcome := mapped.2
  side := created.side.str
  price := formatPricePieces (priceRawOf created.orderType)
  size := formatTokenAmount created.amount
  status := "open"
  cloid := created.cloid

def executedOrder (mapped : Uuid × String) (texts : String × String)
    (executed : MarketOrderExecutedEvent) : Order where
  id := orderUuid env.sdk spotMarket executed.orderId
  marketId := mapped.1
  marketSlug := texts.2
  question := texts.1
  outcome := mapped.2
  side := executed.side.str
  price := formatPricePieces (executed.avgFilledPrice.getD 0)
  size := formatTokenAmount executed.amount
  status := executedStatus executed
  cloid := none

namespace World

def onTask (f : Ctx → Ctx) (s : TaskLocal × World) : TaskLocal × World :=
  let c := f { s.2.ctx with ws := s.1.ws }
  ({ s.1 with ws := c.ws }, { s.2 with ctx := { c with ws := s.2.ctx.ws } })

def setCalls (calls : Nat) (w : World) : World := { w with ctx := { w.ctx with calls } }

def enter (s : TaskLocal × World) : MarketOrderEvent → TaskLocal × World
  | .created e =>
      ({ s.1 with skip := s.2.ctx.store.orders.hasChainOrder env.sdk spotMarket e.orderId }, s.2)
  | .executed e =>
      ({ s.1 with skip := s.2.ctx.store.orders.hasChainOrder env.sdk spotMarket e.orderId }, s.2)
  | .filled e _ =>
      onTask (fun c => c.recordLastTradePrice env.sdk spotMarket e.price)
        ({ s.1 with skip := false }, s.2)
  | .cancelled _ => ({ s.1 with skip := false }, s.2)
  | .updated _ => ({ s.1 with skip := false }, s.2)

def probe (s : TaskLocal × World) (e : MarketOrderEvent) : TaskLocal × World :=
  ({ s.1 with loads := e.needsBook && !s.1.skip &&
      !s.2.ctx.store.books.isChainHydrated env.sdk spotMarket }, s.2)

def fetch (s : TaskLocal × World) : TaskLocal × World :=
  match env.sdk.parseTokenContract spotMarket with
  | some contract =>
      if s.1.loads then
        let (answer, calls) := getBookWithDepthFallback env.chain contract defaultBookDepth
          defaultBookDepth s.2.ctx.calls
        ({ s.1 with answer }, s.2.setCalls calls)
      else ({ s.1 with answer := none }, s.2)
  | none => ({ s.1 with answer := none }, s.2)

def price (s : TaskLocal × World) : TaskLocal × World :=
  match s.1.answer, env.sdk.parseTokenContract spotMarket with
  | some book, some contract =>
      match s.2.ctx.store.lastTradePrice.lookup (normalizeSpotMarketKey env.sdk spotMarket) with
      | some price => ({ s.1 with view := some (book, some price) }, s.2)
      | none =>
          ({ s.1 with view :=
              (env.chain.getMarketInfo s.2.ctx.calls contract).map fun price => (book, price) },
            s.2.setCalls (s.2.ctx.calls + 1))
  | _, _ => ({ s.1 with view := none }, s.2)

def install (s : TaskLocal × World) : TaskLocal × World :=
  match s.1.view with
  | some (book, price) => onTask (fun c => c.installBook env spotMarket book price) s
  | none => s

def lookup (s : TaskLocal × World) (e : MarketOrderEvent) : TaskLocal × World :=
  if e.indexesOrder && !s.1.skip then
    ({ s.1 with mapped := s.2.ctx.store.registry.lookupSpotMarket env.sdk spotMarket }, s.2)
  else s

def register (s : TaskLocal × World) (e : MarketOrderEvent) : TaskLocal × World :=
  if e.indexesOrder && !s.1.skip && s.1.mapped.isNone then
    let (reg, mapped) := s.2.ctx.store.registry.ensureStandaloneSpotMarket env.sdk spotMarket
    ({ s.1 with mapped := some mapped }, { s.2 with ctx := s.2.ctx.setRegistry reg })
  else s

def describe (s : TaskLocal × World) (e : MarketOrderEvent) : TaskLocal × World :=
  match s.1.mapped with
  | some mapped =>
      if e.indexesOrder && !s.1.skip then
        ({ s.1 with texts := marketTexts s.2.ctx.store.registry mapped.1 }, s.2)
      else s
  | none => s

def order (s : TaskLocal × World) : MarketOrderEvent → TaskLocal × World
  | .created e =>
      match s.1.mapped with
      | some mapped =>
          if s.1.skip then s
          else onTask (fun c => c.onOrders fun t =>
            t.insertOrder env.sdk c.store.tsMs (createdOrder env spotMarket mapped s.1.texts e)
              e.creator spotMarket e.orderId e.amount 0) s
      | none => s
  | .executed e =>
      match s.1.mapped with
      | some mapped =>
          if s.1.skip then s
          else onTask (fun c => c.onOrders fun t =>
            t.insertOrder env.sdk c.store.tsMs (executedOrder env spotMarket mapped s.1.texts e)
              e.creator spotMarket e.orderId e.amount e.filledAmount) s
      | none => s
  | .cancelled e => onTask (fun c => c.onOrders fun t =>
      t.updateOrderCancelled env.sdk c.store.tsMs spotMarket e.orderId) s
  | .updated e => onTask (fun c => c.onOrders fun t =>
      t.updateOrderAmount env.sdk c.store.tsMs spotMarket e.orderId e.newAmount
        e.remainingAmount) s
  | .filled e _ => onTask (fun c => c.onOrders fun t =>
      t.updateOrderFill env.sdk c.store.tsMs spotMarket e.orderId e.fillAmount e.remainingAmount
        e.isFullyFilled) s

def owner (s : TaskLocal × World) : MarketOrderEvent → TaskLocal × World
  | .filled e _ =>
      ({ s.1 with owner := (s.2.ctx.store.orders.storedOrderByChainId env.sdk spotMarket
          e.orderId).map fun found => found.2.1 }, s.2)
  | .created _ => s
  | .cancelled _ => s
  | .updated _ => s
  | .executed _ => s

def vault (s : TaskLocal × World) : MarketOrderEvent → TaskLocal × World
  | .filled e _ =>
      match s.1.owner with
      | some userAddress => onTask (fun c => c.onVaults fun t =>
          t.applyVaultFillToPortfolio env.sdk userAddress spotMarket e.side e.fillAmount) s
      | none => s
  | .created _ => s
  | .cancelled _ => s
  | .updated _ => s
  | .executed _ => s

/-- The messages of an event, as a function of the index that it leaves. -/
def publishTo (l : TaskLocal) (c : Ctx) : MarketOrderEvent → Ctx
  | .created e =>
      if l.skip then c else c.publishUserOrderCreated env spotMarket e.orderId blockNum
  | .cancelled e => c.publishUserOrderCancelled env spotMarket e.orderId blockNum
  | .updated e => c.publishUserOrderUpdated env spotMarket e.orderId blockNum
  | .filled e txSender => c.publishUserOrderFilled env e spotMarket blockNum txSender
  | .executed e =>
      match l.mapped with
      | some mapped =>
          if l.skip then c
          else c.publishExecuted spotMarket blockNum e
            (executedOrder env spotMarket mapped l.texts e)
      | none => c

def publish (s : TaskLocal × World) (e : MarketOrderEvent) : TaskLocal × World :=
  if opts.publishWs then
    onTask (fun c => publishTo env blockNum spotMarket s.1 c e) s
  else s

def perform (step : TaskStep) (s : TaskLocal × World) : TaskLocal × World :=
  match step.phase with
  | .enter => enter env spotMarket s step.event
  | .candles => (s.1, { s.2 with
      bars := s.2.bars.applyMarketOrderEvent env opts spotMarket step.event })
  | .probe => probe env spotMarket s step.event
  | .fetch => fetch env spotMarket s
  | .price => price env spotMarket s
  | .install => install env spotMarket s
  | .book => onTask (fun c => c.applyToBook env opts blockNum spotMarket s.1.skip step.event) s
  | .lookup => lookup env spotMarket s step.event
  | .register => register env spotMarket s step.event
  | .describe => describe s step.event
  | .order => order env spotMarket s step.event
  | .owner => owner env spotMarket s step.event
  | .vault => vault env spotMarket s step.event
  | .publish => publish env opts blockNum spotMarket s step.event

def performs (steps : List TaskStep) (s : TaskLocal × World) : TaskLocal × World :=
  steps.foldl (fun s step => perform env opts blockNum spotMarket step s) s

/-! ## A task that is not suspended -/

/-- The task is at a world, its own write set included; the block's is set aside. -/
structure At (aside : IndexWriteSet) (skip : Bool) (w : World) (s : TaskLocal × World) : Prop where
  skip : s.1.skip = skip
  world : s.2.setWs s.1.ws = w
  aside : s.2.ctx.ws = aside

variable {aside : IndexWriteSet} {skip : Bool} {w : World} {s : TaskLocal × World}

theorem At.ctx (h : At aside skip w s) : { s.2.ctx with ws := s.1.ws } = w.ctx :=
  congrArg World.ctx h.world

theorem At.onTask (h : At aside skip w s) (f : Ctx → Ctx) :
    At aside skip { w with ctx := f w.ctx } (World.onTask f s) := by
  have hctx := h.ctx
  obtain ⟨hskip, hworld, haside⟩ := h
  refine ⟨hskip, ?_, haside⟩
  unfold World.onTask setWs
  dsimp only
  rw [hctx, ← hworld]
  rfl

theorem At.learn (h : At aside skip w s) {l : TaskLocal} (hws : l.ws = s.1.ws)
    (hskip : l.skip = s.1.skip) : At aside skip w (l, s.2) := by
  refine ⟨hskip.trans h.skip, ?_, h.aside⟩
  rw [hws]
  exact h.world

theorem At.hydrate (h : At aside skip w s) (hloads : s.1.loads = true) :
    At aside skip { w with ctx := w.ctx.hydrateSpotFromChain env spotMarket }
      (install env spotMarket (price env spotMarket (fetch env spotMarket s))) := by
  obtain ⟨l, v⟩ := s
  obtain ⟨rfl, rfl, rfl⟩ := h
  dsimp only at hloads
  unfold fetch Ctx.hydrateSpotFromChain setWs
  dsimp only
  cases hparse : env.sdk.parseTokenContract spotMarket with
  | none => exact ⟨rfl, rfl, rfl⟩
  | some contract =>
      dsimp only
      rw [if_pos hloads]
      generalize getBookWithDepthFallback env.chain contract defaultBookDepth defaultBookDepth
        v.ctx.calls = answer
      obtain ⟨answer, calls⟩ := answer
      unfold price setCalls
      dsimp only
      rw [hparse]
      cases answer with
      | none => exact ⟨rfl, rfl, rfl⟩
      | some book =>
          dsimp only
          cases v.ctx.store.lastTradePrice.lookup (normalizeSpotMarketKey env.sdk spotMarket) with
          | some price => exact ⟨rfl, rfl, rfl⟩
          | none =>
              dsimp only
              cases env.chain.getMarketInfo calls contract with
              | none => exact ⟨rfl, rfl, rfl⟩
              | some lastPrice => exact ⟨rfl, rfl, rfl⟩

theorem At.idle (h : At aside skip w s) (hloads : s.1.loads = false) :
    At aside skip w (install env spotMarket (price env spotMarket (fetch env spotMarket s))) := by
  have hfetch : fetch env spotMarket s = ({ s.1 with answer := none }, s.2) := by
    unfold fetch
    rw [hloads]
    split <;> rfl
  rw [hfetch]
  exact h.learn rfl rfl

theorem At.load (h : At aside skip w s) (e : MarketOrderEvent) :
    At aside skip
      { w with ctx := if e.needsBook && !skip then w.ctx.ensureChainHydrated env spotMarket
        else w.ctx }
      (install env spotMarket (price env spotMarket (fetch env spotMarket
        (probe env spotMarket s e)))) := by
  have hprobe : At aside skip w (probe env spotMarket s e) := h.learn rfl rfl
  have hneeds : (probe env spotMarket s e).1.loads = (e.needsBook && !skip &&
      !w.ctx.store.books.isChainHydrated env.sdk spotMarket) := by
    rw [← h.skip, ← h.ctx]
    rfl
  unfold Ctx.ensureChainHydrated
  by_cases hload : (e.needsBook && !skip) = true
  · rw [if_pos hload]
    rw [hload, Bool.true_and] at hneeds
    by_cases hloaded : w.ctx.store.books.isChainHydrated env.sdk spotMarket = true
    · rw [if_pos hloaded]
      rw [hloaded] at hneeds
      exact hprobe.idle env spotMarket hneeds
    · rw [if_neg hloaded]
      rw [Bool.not_eq_true] at hloaded
      rw [hloaded] at hneeds
      exact hprobe.hydrate env spotMarket hneeds
  · rw [if_neg hload]
    rw [Bool.not_eq_true] at hload
    rw [hload, Bool.false_and] at hneeds
    exact hprobe.idle env spotMarket hneeds

theorem At.candles (h : At aside skip w s) (e : MarketOrderEvent) :
    At aside skip { w with bars := w.bars.applyMarketOrderEvent env opts spotMarket e }
      (s.1, { s.2 with bars := s.2.bars.applyMarketOrderEvent env opts spotMarket e }) := by
  obtain ⟨rfl, rfl, rfl⟩ := h
  exact ⟨rfl, rfl, rfl⟩

theorem At.resolve (h : At aside false w s) {e : MarketOrderEvent} (hindex : e.indexesOrder = true) :
    let r := w.ctx.store.registry.resolveSpotMarket env.sdk spotMarket
    let s' := describe (register env spotMarket (lookup env spotMarket s e) e) e
    At aside false { w with ctx := w.ctx.setRegistry r.1 } s' ∧ s'.1.mapped = some r.2 ∧
      s'.1.texts = marketTexts r.1 r.2.1 := by
  obtain ⟨l, v⟩ := s
  obtain ⟨hskip, rfl, rfl⟩ := h
  dsimp only at hskip
  intro r s'
  simp only [s', lookup, hindex, hskip, Bool.not_false, Bool.and_self, if_true]
  cases hmapped : v.ctx.store.registry.lookupSpotMarket env.sdk spotMarket with
  | some mapped =>
      have hr : r = (v.ctx.store.registry, mapped) := by
        simp only [r, setWs, Registry.resolveSpotMarket, hmapped]
      rw [hr]
      simp only [register, describe, hindex, Option.isNone_some, Bool.and_false,
        Bool.false_eq_true, if_false, Bool.not_false, Bool.and_self, if_true]
      exact ⟨⟨rfl, rfl, rfl⟩, trivial, trivial⟩
  | none =>
      have hr : r = v.ctx.store.registry.ensureStandaloneSpotMarket env.sdk spotMarket := by
        simp only [r, setWs, Registry.resolveSpotMarket, hmapped]
      rw [hr]
      simp only [register, describe, hindex, Option.isNone_none, Bool.not_false,
        Bool.and_self, if_true]
      exact ⟨⟨rfl, rfl, rfl⟩, trivial, rfl⟩

theorem At.publish (h : At aside skip w s) (e : MarketOrderEvent) :
    At aside skip
      (if opts.publishWs then
        { w with ctx := publishTo env blockNum spotMarket s.1 w.ctx e } else w)
      (World.publish env opts blockNum spotMarket s e) := by
  unfold World.publish
  split_ifs
  · exact h.onTask fun c => publishTo env blockNum spotMarket s.1 c e
  · exact h

theorem At.book (h : At aside skip w s) (e : MarketOrderEvent) :
    At aside skip { w with ctx := w.ctx.applyToBook env opts blockNum spotMarket skip e }
      (World.onTask (fun c => c.applyToBook env opts blockNum spotMarket s.1.skip e) s) := by
  rw [h.skip]
  exact h.onTask fun c => c.applyToBook env opts blockNum spotMarket skip e

theorem At.toBook (h : At aside skip w s) (e : MarketOrderEvent) :
    let loaded := if e.needsBook && !skip then w.ctx.ensureChainHydrated env spotMarket else w.ctx
    At aside skip
      { w with
        ctx := loaded.applyToBook env opts blockNum spotMarket skip e
        bars := w.bars.applyMarketOrderEvent env opts spotMarket e }
      (performs env opts blockNum spotMarket
        [⟨.candles, e⟩, ⟨.probe, e⟩, ⟨.fetch, e⟩, ⟨.price, e⟩, ⟨.install, e⟩, ⟨.book, e⟩] s) :=
  (((h.candles env opts spotMarket e).load env spotMarket e).book env opts blockNum spotMarket e)

theorem resolve_idle (s : TaskLocal × World) (e : MarketOrderEvent)
    (hidle : (e.indexesOrder && !s.1.skip) = false) :
    describe (register env spotMarket (lookup env spotMarket s e) e) e = s := by
  have hlookup : lookup env spotMarket s e = s := by
    unfold lookup
    rw [hidle, if_neg Bool.false_ne_true]
  have hregister : register env spotMarket s e = s := by
    unfold register
    rw [hidle, Bool.false_and, if_neg Bool.false_ne_true]
  have hdescribe : describe s e = s := by
    unfold describe
    rw [hidle]
    split <;> rfl
  rw [hlookup, hregister, hdescribe]

def performRest (e : MarketOrderEvent) (s : TaskLocal × World) : TaskLocal × World :=
  World.publish env opts blockNum spotMarket
    (vault env spotMarket (owner env spotMarket (World.order env spotMarket s e) e) e) e

def performIndex (e : MarketOrderEvent) (s : TaskLocal × World) : TaskLocal × World :=
  performRest env opts blockNum spotMarket e
    (describe (register env spotMarket (lookup env spotMarket s e) e) e)

theorem performs_taskSteps (e : MarketOrderEvent) (s : TaskLocal × World) :
    performs env opts blockNum spotMarket e.taskSteps s =
      performIndex env opts blockNum spotMarket e
        (performs env opts blockNum spotMarket
          [⟨.candles, e⟩, ⟨.probe, e⟩, ⟨.fetch, e⟩, ⟨.price, e⟩, ⟨.install, e⟩, ⟨.book, e⟩]
          (enter env spotMarket s e)) := rfl

theorem At.skipped (h : At aside true w s) {e : MarketOrderEvent} (hindex : e.indexesOrder = true) :
    At aside true w (performIndex env opts blockNum spotMarket e s) := by
  have hskip := h.skip
  have hpublish := h.publish env opts blockNum spotMarket e
  unfold performIndex performRest
  rw [resolve_idle env spotMarket s e (by rw [hskip]; exact Bool.and_false _)]
  cases e with
  | created e =>
      have horder : World.order env spotMarket s (.created e) = s := by
        unfold World.order
        dsimp only
        rw [hskip]
        split <;> rfl
      simp only [publishTo, hskip, if_true, ite_self] at hpublish
      rw [horder]
      exact hpublish
  | executed e =>
      have horder : World.order env spotMarket s (.executed e) = s := by
        unfold World.order
        dsimp only
        rw [hskip]
        split <;> rfl
      have hsilent : publishTo env blockNum spotMarket s.1 w.ctx (.executed e) = w.ctx := by
        unfold publishTo
        dsimp only
        rw [hskip]
        split <;> rfl
      rw [hsilent, ite_self] at hpublish
      rw [horder]
      exact hpublish
  | cancelled e => exact absurd hindex Bool.false_ne_true
  | updated e => exact absurd hindex Bool.false_ne_true
  | filled e txSender => exact absurd hindex Bool.false_ne_true

theorem At.indexCreated (h : At aside false w s) (e : OrderCreatedEvent) :
    let c := w.ctx.indexOrderCreated env e spotMarket none
    At aside false
      { w with ctx := if opts.publishWs then
          c.publishUserOrderCreated env spotMarket e.orderId blockNum else c }
      (performIndex env opts blockNum spotMarket (.created e) s) := by
  obtain ⟨hresolved, hmapped, htexts⟩ := h.resolve env spotMarket (e := .created e) rfl
  unfold performIndex
  generalize describe _ _ = s₂ at hresolved hmapped htexts ⊢
  have hskip := hresolved.skip
  have horder := hresolved.onTask fun c => c.onOrders fun t =>
    t.insertOrder env.sdk c.store.tsMs (createdOrder env spotMarket
      (w.ctx.store.registry.resolveSpotMarket env.sdk spotMarket).2
      (marketTexts (w.ctx.store.registry.resolveSpotMarket env.sdk spotMarket).1
        (w.ctx.store.registry.resolveSpotMarket env.sdk spotMarket).2.1) e)
      e.creator spotMarket e.orderId e.amount 0
  have hskip' := horder.skip
  have hpublish := horder.publish env opts blockNum spotMarket (.created e)
  simp only [publishTo, hskip', Bool.false_eq_true, if_false] at hpublish
  unfold performRest World.order
  dsimp only
  rw [hmapped, hskip, htexts]
  dsimp only
  rw [if_neg Bool.false_ne_true]
  split_ifs at hpublish ⊢ with hws
  · exact hpublish
  · exact hpublish

theorem At.indexExecuted (h : At aside false w s) (e : MarketOrderExecutedEvent) :
    let r := w.ctx.indexMarketOrderExecuted env e spotMarket
    At aside false
      { w with ctx := if opts.publishWs then r.1.publishExecuted spotMarket blockNum e r.2 else r.1 }
      (performIndex env opts blockNum spotMarket (.executed e) s) := by
  obtain ⟨hresolved, hmapped, htexts⟩ := h.resolve env spotMarket (e := .executed e) rfl
  unfold performIndex
  generalize describe _ _ = s₂ at hresolved hmapped htexts ⊢
  have hskip := hresolved.skip
  let order := executedOrder env spotMarket
    (w.ctx.store.registry.resolveSpotMarket env.sdk spotMarket).2
    (marketTexts (w.ctx.store.registry.resolveSpotMarket env.sdk spotMarket).1
      (w.ctx.store.registry.resolveSpotMarket env.sdk spotMarket).2.1) e
  have horder := hresolved.onTask fun c => c.onOrders fun t =>
    t.insertOrder env.sdk c.store.tsMs order e.creator spotMarket e.orderId e.amount e.filledAmount
  have hpublish := horder.publish env opts blockNum spotMarket (.executed e)
  have hmessage : ∀ f c, publishTo env blockNum spotMarket (World.onTask f s₂).1 c (.executed e) =
      c.publishExecuted spotMarket blockNum e order := by
    intro f c
    unfold publishTo World.onTask
    dsimp only
    rw [hmapped, hskip, htexts]
    dsimp only
    rw [if_neg Bool.false_ne_true]
  rw [hmessage] at hpublish
  unfold performRest World.order
  dsimp only
  rw [hmapped, hskip, htexts]
  dsimp only
  rw [if_neg Bool.false_ne_true]
  split_ifs at hpublish ⊢ with hws
  · exact hpublish
  · exact hpublish

theorem At.indexCancelled (h : At aside false w s) (e : OrderCancelledEvent) :
    let c := w.ctx.onOrders fun t =>
      t.updateOrderCancelled env.sdk w.ctx.store.tsMs spotMarket e.orderId
    At aside false
      { w with ctx := if opts.publishWs then
          c.publishUserOrderCancelled env spotMarket e.orderId blockNum else c }
      (performIndex env opts blockNum spotMarket (.cancelled e) s) := by
  have horder := h.onTask fun c => c.onOrders fun t =>
    t.updateOrderCancelled env.sdk c.store.tsMs spotMarket e.orderId
  have hpublish := horder.publish env opts blockNum spotMarket (.cancelled e)
  rw [performIndex, resolve_idle env spotMarket s _ rfl]
  split_ifs at hpublish ⊢ with hws
  · exact hpublish
  · exact hpublish

theorem At.indexUpdated (h : At aside false w s) (e : OrderUpdatedEvent) :
    let c := w.ctx.onOrders fun t =>
      t.updateOrderAmount env.sdk w.ctx.store.tsMs spotMarket e.orderId e.newAmount
        e.remainingAmount
    At aside false
      { w with ctx := if opts.publishWs then
          c.publishUserOrderUpdated env spotMarket e.orderId blockNum else c }
      (performIndex env opts blockNum spotMarket (.updated e) s) := by
  have horder := h.onTask fun c => c.onOrders fun t =>
    t.updateOrderAmount env.sdk c.store.tsMs spotMarket e.orderId e.newAmount e.remainingAmount
  have hpublish := horder.publish env opts blockNum spotMarket (.updated e)
  rw [performIndex, resolve_idle env spotMarket s _ rfl]
  split_ifs at hpublish ⊢ with hws
  · exact hpublish
  · exact hpublish

theorem At.settleVault (h : At aside false w s) (e : OrderFilledEvent) (txSender : String) :
    At aside false { w with ctx := w.ctx.applyVaultFill env spotMarket e }
      (vault env spotMarket (owner env spotMarket s (.filled e txSender)) (.filled e txSender)) := by
  have horders : s.2.ctx.store.orders = w.ctx.store.orders := by
    rw [← h.ctx]
  unfold vault owner Ctx.applyVaultFill
  dsimp only
  rw [horders]
  cases w.ctx.store.orders.storedOrderByChainId env.sdk spotMarket e.orderId with
  | none => exact h.learn rfl rfl
  | some found =>
      have hlearnt : At aside false w ({ s.1 with owner := some found.2.1 }, s.2) :=
        h.learn rfl rfl
      exact hlearnt.onTask fun c => c.onVaults fun t =>
        t.applyVaultFillToPortfolio env.sdk found.2.1 spotMarket e.side e.fillAmount

theorem At.indexFilled (h : At aside false w s) (e : OrderFilledEvent) (txSender : String) :
    let filled := w.ctx.onOrders fun t =>
      t.updateOrderFill env.sdk w.ctx.store.tsMs spotMarket e.orderId e.fillAmount
        e.remainingAmount e.isFullyFilled
    let c := filled.applyVaultFill env spotMarket e
    At aside false
      { w with ctx := if opts.publishWs then
          c.publishUserOrderFilled env e spotMarket blockNum txSender else c }
      (performIndex env opts blockNum spotMarket (.filled e txSender) s) := by
  have horder := h.onTask fun c => c.onOrders fun t =>
    t.updateOrderFill env.sdk c.store.tsMs spotMarket e.orderId e.fillAmount e.remainingAmount
      e.isFullyFilled
  have hvault := horder.settleVault env spotMarket e txSender
  have hpublish := hvault.publish env opts blockNum spotMarket (.filled e txSender)
  rw [performIndex, resolve_idle env spotMarket s _ rfl]
  split_ifs at hpublish ⊢ with hws
  · exact hpublish
  · exact hpublish

/-- An event of a task that is not suspended. -/
theorem At.event (h : At aside skip w s) (e : MarketOrderEvent) :
    ∃ skip, At aside skip (w.applyMarketOrderEvent env opts blockNum spotMarket e)
      (performs env opts blockNum spotMarket e.taskSteps s) := by
  rw [performs_taskSteps]
  have hdup : ∀ chainOrderId, At aside
      (w.ctx.store.orders.hasChainOrder env.sdk spotMarket chainOrderId) w
      ({ s.1 with skip := s.2.ctx.store.orders.hasChainOrder env.sdk spotMarket chainOrderId },
        s.2) := by
    intro chainOrderId
    refine ⟨?_, h.world, h.aside⟩
    rw [← h.ctx]
  have hnew : At aside false w ({ s.1 with skip := false }, s.2) := ⟨rfl, h.world, h.aside⟩
  cases e with
  | created e =>
      have hbook := (hdup e.orderId).toBook env opts blockNum spotMarket (.created e)
      unfold applyMarketOrderEvent Ctx.applyMarketOrderEvent Ctx.handleCreated
      dsimp only
      generalize w.ctx.store.orders.hasChainOrder env.sdk spotMarket e.orderId = dup at hbook ⊢
      cases dup with
      | true => exact ⟨true, hbook.skipped env opts blockNum spotMarket rfl⟩
      | false => exact ⟨false, hbook.indexCreated env opts blockNum spotMarket e⟩
  | executed e =>
      have hbook := (hdup e.orderId).toBook env opts blockNum spotMarket (.executed e)
      unfold applyMarketOrderEvent Ctx.applyMarketOrderEvent Ctx.handleExecuted
      dsimp only
      generalize w.ctx.store.orders.hasChainOrder env.sdk spotMarket e.orderId = dup at hbook ⊢
      cases dup with
      | true => exact ⟨true, hbook.skipped env opts blockNum spotMarket rfl⟩
      | false => exact ⟨false, hbook.indexExecuted env opts blockNum spotMarket e⟩
  | cancelled e =>
      have hbook := hnew.toBook env opts blockNum spotMarket (.cancelled e)
      exact ⟨false, hbook.indexCancelled env opts blockNum spotMarket e⟩
  | updated e =>
      have hbook := hnew.toBook env opts blockNum spotMarket (.updated e)
      exact ⟨false, hbook.indexUpdated env opts blockNum spotMarket e⟩
  | filled e txSender =>
      have hprice := hnew.onTask fun c => c.recordLastTradePrice env.sdk spotMarket e.price
      have hbook := hprice.toBook env opts blockNum spotMarket (.filled e txSender)
      exact ⟨false, hbook.indexFilled env opts blockNum spotMarket e txSender⟩

/-- A task that is never suspended is `apply_market_order_events`. -/
theorem At.events (h : At aside skip w s) (events : List MarketOrderEvent) :
    ∃ skip, At aside skip (w.applyMarketOrderEvents env opts blockNum spotMarket events)
      (performs env opts blockNum spotMarket (events.flatMap MarketOrderEvent.taskSteps) s) := by
  induction events generalizing skip w s with
  | nil => exact ⟨skip, h⟩
  | cons e es ih =>
      obtain ⟨skip', hevent⟩ := h.event env opts blockNum spotMarket e
      rw [List.flatMap_cons, performs, List.foldl_append]
      exact ih hevent

end World

end ClobIndexer
