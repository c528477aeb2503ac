import ClobIndexer.Indexer.Hydrate
/-!
# Applying blocks

`src/indexer/processor.rs`.  `prepare_block` groups the order events of a block
by market; `process_prepared_block` applies the other events serially, reloads
books for order events without a market, and then runs one task per market with a
write set of its own, merged in the order of the tasks.  What the same tasks do
to candles, paper markets and oracle marks is outside the index tables: `World`
runs it beside the index.
-/

namespace ClobIndexer

open Lib

structure ProcessOpts where
  publishWs : Bool := true
deriving DecidableEq

def ProcessOpts.quiet : ProcessOpts := ⟨false⟩

/-! ## Grouping a block -/

def spotMarketFromEventContract (sdk : Sdk) (event : TransactionEvent) : Option String :=
  event.contract.map (normalizeSpotMarketKey sdk)

def resolveSpotMarketForOrderEvent (sdk : Sdk) (idx : OrderIndex) (event : TransactionEvent)
    (chainOrderId : String) : Option String :=
  match spotMarketFromEventContract sdk event with
  | some spotMarket => some spotMarket
  | none => idx.lookupSpotMarketForChainOrder chainOrderId

structure OrderGroups where
  markets : Dict String (List MarketOrderEvent) := ∅
  unmapped : List UnmappedOrderEvent := []

namespace OrderGroups

def push (spotMarket : String) (e : MarketOrderEvent) (g : OrderGroups) : OrderGroups :=
  { g with markets :=
      g.markets.insert spotMarket ((g.markets.lookup spotMarket).getD [] ++ [e]) }

def pushUnmapped (e : UnmappedOrderEvent) (g : OrderGroups) : OrderGroups :=
  { g with unmapped := g.unmapped ++ [e] }

def add (sdk : Sdk) (idx : OrderIndex) (g : OrderGroups) (e : String × TransactionEvent) :
    OrderGroups :=
  match e.2.payload with
  | .order (.created created) =>
      g.push (normalizeSpotMarketKey sdk created.market) (.created created)
  | .order (.cancelled cancelled) =>
      match resolveSpotMarketForOrderEvent sdk idx e.2 cancelled.orderId with
      | some spotMarket => g.push spotMarket (.cancelled cancelled)
      | none => g.pushUnmapped (.cancelled cancelled.orderId)
  | .order (.updated updated) =>
      match resolveSpotMarketForOrderEvent sdk idx e.2 updated.orderId with
      | some spotMarket => g.push spotMarket (.updated updated)
      | none => g.pushUnmapped (.updated updated.orderId)
  | .order (.filled filled) =>
      g.push (normalizeSpotMarketKey sdk filled.market) (.filled filled e.1)
  | .order (.executed executed) =>
      match spotMarketFromEventContract sdk e.2 with
      | some spotMarket => g.push spotMarket (.executed executed)
      | none => g
  | .global _ => g
  | .ignored => g

end OrderGroups

def prepareBlock (sdk : Sdk) (s : IndexState) (block : ReceiptBlock) : PreparedBlock :=
  let groups := block.okEvents.foldl (OrderGroups.add sdk s.orders) {}
  { blockNum := block.blockNum
    blockDigest := block.digest
    txCount := block.transactionOutputs.length
    block := block
    markets := groups.markets
    unmapped := groups.unmapped }

variable (env : Env)

/-! ## Indexing orders -/

def priceRawOf : OrderEventType → UInt64
  | .limit price => price
  | .market => 0
  | .trigger limitPrice => limitPrice

def marketTexts (r : Registry) (marketId : Uuid) : String × String :=
  match r.getMarket marketId with
  | some market => (market.label, if market.slug ≠ "" then market.slug else market.name)
  | none => ("", "")

def orderOfCreated (r : Registry) (mapped : Uuid × String) (created : OrderCreatedEvent)
    (spotMarket status : String) : Order where
  id := orderUuid env.sdk spotMarket created.orderId
  marketId := mapped.1
  marketSlug := (marketTexts r mapped.1).2
  question := (marketTexts r mapped.1).1
  outcome := mapped.2
  side := created.side.str
  price := formatPricePieces (priceRawOf created.orderType)
  size := formatTokenAmount created.amount
  status := status
  cloid := created.cloid

/-- Final status of a market order: what was not filled is cancelled on chain. -/
def executedStatus (executed : MarketOrderExecutedEvent) : String :=
  if executed.filledAmount = 0 then "cancelled"
  else if executed.amount ≤ executed.filledAmount then "filled"
  else "cancelled"

def orderOfExecuted (r : Registry) (mapped : Uuid × String) (executed : MarketOrderExecutedEvent)
    (spotMarket : String) : Order where
  id := orderUuid env.sdk spotMarket executed.orderId
  marketId := mapped.1
  marketSlug := (marketTexts r mapped.1).2
  question := (marketTexts r mapped.1).1
  outcome := mapped.2
  side := executed.side.str
  price := formatPricePieces (executed.avgFilledPrice.getD 0)
  size := formatTokenAmount executed.amount
  status := executedStatus executed
  cloid := none

namespace Ctx

def applyOrderCreatedToBook (blockNum : UInt64) (created : OrderCreatedEvent)
    (spotMarket : String) (publishWs : Bool) (c : Ctx) : Ctx :=
  match created.orderType with
  | .limit price =>
      c.onBooks publishWs fun t =>
        t.applyCreated env.sdk spotMarket created.side price created.amount blockNum
  | .market => c
  | .trigger _ => c

def indexOrderCreated (created : OrderCreatedEvent) (spotMarket : String)
    (statusOverride : Option (String × UInt64)) (c : Ctx) : Ctx :=
  let (reg, mapped) := c.store.registry.resolveSpotMarket env.sdk spotMarket
  let (status, filledRaw) := statusOverride.getD ("open", 0)
  let order := orderOfCreated env reg mapped created spotMarket status
  (c.setRegistry reg).onOrders fun t =>
    t.insertOrder env.sdk c.store.tsMs order created.creator spotMarket created.orderId
      created.amount filledRaw

def indexMarketOrderExecuted (executed : MarketOrderExecutedEvent) (spotMarket : String)
    (c : Ctx) : Ctx × Order :=
  let (reg, mapped) := c.store.registry.resolveSpotMarket env.sdk spotMarket
  let order := orderOfExecuted env reg mapped executed spotMarket
  ((c.setRegistry reg).onOrders fun t =>
    t.insertOrder env.sdk c.store.tsMs order executed.creator spotMarket executed.orderId
      executed.amount executed.filledAmount,
    order)

/-! ## User messages -/

/-- Send the stored order to its owner; nothing when the order is not hot. -/
def publishStoredOrder (event spotMarket chainOrderId : String) (blockNum : UInt64) (c : Ctx) :
    Ctx :=
  match c.store.orders.storedOrderByChainId env.sdk spotMarket chainOrderId with
  | none => c
  | some (order, userAddress, _) =>
      c.publish (.order ⟨event, userAddress, chainOrderId, blockNum, spotMarket, order⟩)

def publishUserOrderCreated (spotMarket chainOrderId : String) (blockNum : UInt64) : Ctx → Ctx :=
  publishStoredOrder env "placement" spotMarket chainOrderId blockNum

def publishUserOrderCancelled (spotMarket chainOrderId : String) (blockNum : UInt64) :
    Ctx → Ctx :=
  publishStoredOrder env "cancellation" spotMarket chainOrderId blockNum

def publishUserOrderUpdated (spotMarket chainOrderId : String) (blockNum : UInt64) : Ctx → Ctx :=
  publishStoredOrder env "update" spotMarket chainOrderId blockNum

/-- `publish_user_order_filled`: without a stored order, a fill that carries a
`cloid` is sent to the sender of the transaction under the nil order id. -/
def publishUserOrderFilled (filled : OrderFilledEvent) (spotMarket : String) (blockNum : UInt64)
    (txSender : String) (c : Ctx) : Ctx :=
  let trade (userAddress : String) (orderId : Uuid) (marketSlug outcome : String)
      (cloid : Option String) : UserTradeMessage :=
    { userAddress := userAddress
      chainOrderId := filled.orderId
      orderId := orderId
      marketSlug := marketSlug
      outcome := outcome
      side := filled.side.str
      price := formatPricePieces filled.price
      fillAmount := formatTokenAmount filled.fillAmount
      remainingAmount := formatTokenAmount filled.remainingAmount
      isFullyFilled := filled.isFullyFilled
      spotMarket := spotMarket
      blockNum := blockNum
      cloid := cloid }
  match c.store.orders.storedOrderByChainId env.sdk spotMarket filled.orderId with
  | some (order, userAddress, _) =>
      (c.publish (.trade (trade userAddress order.id order.marketSlug order.outcome
        (filled.cloid.or order.cloid)))).publish
        (.order ⟨"update", userAddress, filled.orderId, blockNum, spotMarket, order⟩)
  | none =>
      if filled.cloid.isSome then
        c.publish (.trade (trade txSender Uuid.nil "" "" filled.cloid))
      else c

/-! ## Order events of one market -/

def handleCreated (opts : ProcessOpts) (blockNum : UInt64) (spotMarket : String)
    (created : OrderCreatedEvent) (c : Ctx) : Ctx :=
  if c.store.orders.hasChainOrder env.sdk spotMarket created.orderId then c
  else
    let c := c.ensureChainHydrated env spotMarket
    let c := c.applyOrderCreatedToBook env blockNum created spotMarket opts.publishWs
    let c := c.indexOrderCreated env created spotMarket none
    if opts.publishWs then c.publishUserOrderCreated env spotMarket created.orderId blockNum
    else c

def handleCancelled (opts : ProcessOpts) (blockNum : UInt64) (spotMarket : String)
    (cancelled : OrderCancelledEvent) (c : Ctx) : Ctx :=
  let c := c.onBooks opts.publishWs fun t =>
    t.applyCancelled env.sdk spotMarket cancelled.side cancelled.price cancelled.cancelledAmount
      blockNum
  let c := c.onOrders fun t =>
    t.updateOrderCancelled env.sdk c.store.tsMs spotMarket cancelled.orderId
  if opts.publishWs then c.publishUserOrderCancelled env spotMarket cancelled.orderId blockNum
  else c

def handleUpdated (opts : ProcessOpts) (blockNum : UInt64) (spotMarket : String)
    (updated : OrderUpdatedEvent) (c : Ctx) : Ctx :=
  let c := c.ensureChainHydrated env spotMarket
  let c := c.onBooks opts.publishWs fun t =>
    t.applyUpdated env.sdk spotMarket updated.side updated.price updated.oldAmount
      updated.newAmount updated.remainingAmount blockNum
  let c := c.onOrders fun t =>
    t.updateOrderAmount env.sdk c.store.tsMs spotMarket updated.orderId updated.newAmount
      updated.remainingAmount
  if opts.publishWs then c.publishUserOrderUpdated env spotMarket updated.orderId blockNum
  else c

def applyVaultFill (spotMarket : String) (filled : OrderFilledEvent) (c : Ctx) : Ctx :=
  match c.store.orders.storedOrderByChainId env.sdk spotMarket filled.orderId with
  | none => c
  | some (_, userAddress, _) =>
      c.onVaults fun t =>
        t.applyVaultFillToPortfolio env.sdk userAddress spotMarket filled.side filled.fillAmount

def applyFillToIndex (opts : ProcessOpts) (blockNum : UInt64) (spotMarket : String)
    (filled : OrderFilledEvent) (c : Ctx) : Ctx :=
  let c := c.recordLastTradePrice env.sdk spotMarket filled.price
  let c := c.ensureChainHydrated env spotMarket
  let tradeTimeMs := if c.store.tsMs = 0 then none else some c.store.tsMs
  let c := c.onBooks opts.publishWs fun t =>
    t.applyFilled env.sdk spotMarket filled.side filled.price filled.fillAmount blockNum
      filled.price tradeTimeMs env.nowMs
  let c := c.onOrders fun t =>
    t.updateOrderFill env.sdk c.store.tsMs spotMarket filled.orderId filled.fillAmount
      filled.remainingAmount filled.isFullyFilled
  c.applyVaultFill env spotMarket filled

def handleFilled (opts : ProcessOpts) (blockNum : UInt64) (spotMarket : String)
    (filled : OrderFilledEvent) (txSender : String) (c : Ctx) : Ctx :=
  let c := c.applyFillToIndex env opts blockNum spotMarket filled
  if opts.publishWs then c.publishUserOrderFilled env filled spotMarket blockNum txSender
  else c

def publishExecuted (spotMarket : String) (blockNum : UInt64)
    (executed : MarketOrderExecutedEvent) (order : Order) (c : Ctx) : Ctx :=
  let remaining := Word.satSub executed.amount executed.filledAmount
  let c := c.publish
    (.order ⟨"update", executed.creator, executed.orderId, blockNum, spotMarket, order⟩)
  if executed.filledAmount = 0 then c
  else
    c.publish (.trade
      { userAddress := executed.creator
        chainOrderId := executed.orderId
        orderId := order.id
        marketSlug := order.marketSlug
        outcome := order.outcome
        side := executed.side.str
        price := formatPricePieces (executed.avgFilledPrice.getD 0)
        fillAmount := formatTokenAmount executed.filledAmount
        remainingAmount := formatTokenAmount remaining
        isFullyFilled := executed.filledAmount ≠ 0 ∧ remaining = 0
        spotMarket := spotMarket
        blockNum := blockNum
        cloid := none })

def handleExecuted (opts : ProcessOpts) (blockNum : UInt64) (spotMarket : String)
    (executed : MarketOrderExecutedEvent) (c : Ctx) : Ctx :=
  if c.store.orders.hasChainOrder env.sdk spotMarket executed.orderId then c
  else
    let (c, order) := c.indexMarketOrderExecuted env executed spotMarket
    if opts.publishWs then c.publishExecuted spotMarket blockNum executed order else c

def applyMarketOrderEvent (opts : ProcessOpts) (blockNum : UInt64) (spotMarket : String)
    (c : Ctx) : MarketOrderEvent → Ctx
  | .created e => c.handleCreated env opts blockNum spotMarket e
  | .cancelled e => c.handleCancelled env opts blockNum spotMarket e
  | .updated e => c.handleUpdated env opts blockNum spotMarket e
  | .filled e txSender => c.handleFilled env opts blockNum spotMarket e txSender
  | .executed e => c.handleExecuted env opts blockNum spotMarket e

def applyMarketOrderEvents (opts : ProcessOpts) (blockNum : UInt64) (spotMarket : String)
    (events : List MarketOrderEvent) (c : Ctx) : Ctx :=
  events.foldl (applyMarketOrderEvent env opts blockNum spotMarket) c

/-! ## Global events -/

def indexSpotMarketCreated (created : MarketCreatedEvent) (c : Ctx) : Ctx :=
  (c.setRegistry (c.store.registry.registerNamedSpotMarket env.sdk created.name
    created.marketAddress created.creator)).ensureChainHydrated env created.marketAddress

def eventMarketOf (r : Registry) (created : EventContractCreatedEvent) : Market :=
  .event
    { id := marketUuid env.sdk created.marketAddress
      slug := r.allocateMarketSlug created.question
      question := created.question
      iconUrl := none
      marketAddress := created.marketAddress
      collateralToken := created.collateralToken
      yesToken := created.yesToken
      noToken := created.noToken
      yesSpotMarket := created.yesSpotMarket
      noSpotMarket := created.noSpotMarket
      state := created.state
      resolutionDeadline := created.resolutionDeadline
      deployer := created.creator }

def indexMarketCreated (created : EventContractCreatedEvent) (c : Ctx) : Ctx :=
  (c.onRegistry fun t =>
    t.upsertMarket env.sdk (eventMarketOf env t.reg created)).hydrateMarketSpots env
      created.yesSpotMarket created.noSpotMarket

def vaultOfCreated (created : VaultCreatedEvent) : Vault where
  id := vaultUuid env.sdk created.vault
  name := created.name
  vaultAddress := created.vault
  vaultAccount := env.sdk.vaultAccount created.vault
  manager := created.manager
  quoteToken := created.quoteToken
  shareToken := created.shareToken
  equity := "0"
  userDeposit := "0.00"
  portfolio := []
  allowDeposit := true
  isClosed := false

def indexVaultCreated (created : VaultCreatedEvent) (c : Ctx) : Ctx :=
  c.onVaults fun t => t.upsertVault (vaultOfCreated env created)

def applyGlobalEvent (c : Ctx) : GlobalEvent → Ctx
  | .eventContractCreated created => c.indexMarketCreated env created
  | .eventContractResolved marketAddress =>
      c.onRegistry fun t => t.updateMarketState marketAddress "Resolved"
  | .vaultCreated created => c.indexVaultCreated env created
  | .vaultDeposited vault equity =>
      c.onVaults fun t => t.updateVaultEquity vault (formatTokenAmount equity)
  | .vaultWithdrawn vault equity =>
      c.onVaults fun t => t.updateVaultEquity vault (formatTokenAmount equity)
  | .vaultManagerUpdated vault newManager =>
      c.onVaults fun t => t.updateVaultManager vault newManager
  | .vaultDepositPermissionUpdated vault allowDeposit =>
      c.onVaults fun t => t.updateVaultAllowDeposit vault allowDeposit
  | .vaultClosed vault => c.onVaults fun t => t.markVaultClosed vault
  | .marketCreated created => c.indexSpotMarketCreated env created
  | .secondary _ => c

/-- An order event without a market reloads every book, unless replaying. -/
def applyUnmapped (opts : ProcessOpts) (c : Ctx) : UnmappedOrderEvent → Ctx
  | .cancelled _ => if opts.publishWs then c.hydrateAllSpotMarkets env else c
  | .updated _ => if opts.publishWs then c.hydrateAllSpotMarkets env else c

/-! ## Blocks -/

/-- One market task: it starts from an empty write set, which is then merged. -/
def runMarketTask (opts : ProcessOpts) (blockNum : UInt64) (c : Ctx)
    (task : Sigma fun _ : String => List MarketOrderEvent) : Ctx :=
  let done := ({ c with ws := {} }).applyMarketOrderEvents env opts blockNum task.1 task.2
  { done with ws := c.ws.merge done.ws }

def beginBlock (block : ReceiptBlock) (c : Ctx) : Ctx :=
  { c with
    ws := {}
    store := { c.store with indexingBlockTimestampSecs := block.timestamp } }

def applySerial (opts : ProcessOpts) (prepared : PreparedBlock) (c : Ctx) : Ctx :=
  prepared.unmapped.foldl (applyUnmapped env opts)
    (prepared.block.globalEvents.foldl (applyGlobalEvent env) (c.beginBlock prepared.block))

/-- `process_prepared_block`; the write set of the result is the one returned. -/
def processPreparedBlock (opts : ProcessOpts) (prepared : PreparedBlock) (c : Ctx) : Ctx :=
  let c := prepared.markets.entries.foldl (runMarketTask env opts prepared.blockNum)
    (c.applySerial env opts prepared)
  { c with ws := { c.ws with blockNum := prepared.blockNum, digest := prepared.blockDigest } }

/-- `process_block`: prepare and apply; the write set is discarded. -/
def processBlock (opts : ProcessOpts) (block : ReceiptBlock) (c : Ctx) : Ctx :=
  { c.processPreparedBlock env opts (prepareBlock env.sdk c.store block) with ws := c.ws }

/-! ## Messages leave the index alone -/

section

variable {env}

theorem store_publishStoredOrder (c : Ctx) (event spotMarket chainOrderId : String)
    (blockNum : UInt64) :
    (c.publishStoredOrder env event spotMarket chainOrderId blockNum).store = c.store := by
  unfold publishStoredOrder
  split <;> rfl

theorem store_publishUserOrderFilled (c : Ctx) (filled : OrderFilledEvent) (spotMarket : String)
    (blockNum : UInt64) (txSender : String) :
    (c.publishUserOrderFilled env filled spotMarket blockNum txSender).store = c.store := by
  unfold publishUserOrderFilled
  dsimp only
  split
  · rfl
  · split_ifs <;> rfl

theorem store_publishExecuted (c : Ctx) (spotMarket : String) (blockNum : UInt64)
    (executed : MarketOrderExecutedEvent) (order : Order) :
    (c.publishExecuted spotMarket blockNum executed order).store = c.store := by
  unfold publishExecuted
  dsimp only
  split_ifs <;> rfl

variable (c : Ctx) (opts : ProcessOpts) (blockNum : UInt64) (spotMarket : String)

theorem store_handleCreated (e : OrderCreatedEvent)
    (hnew : c.store.orders.hasChainOrder env.sdk spotMarket e.orderId = false) :
    (c.handleCreated env opts blockNum spotMarket e).store =
      (((c.ensureChainHydrated env spotMarket).applyOrderCreatedToBook env blockNum e spotMarket
        opts.publishWs).indexOrderCreated env e spotMarket none).store := by
  unfold handleCreated
  dsimp only
  rw [hnew, if_neg Bool.false_ne_true]
  split_ifs
  · exact store_publishStoredOrder _ _ _ _ _
  · rfl

theorem store_handleCancelled (e : OrderCancelledEvent) :
    (c.handleCancelled env opts blockNum spotMarket e).store =
      ((c.onBooks opts.publishWs fun t =>
          t.applyCancelled env.sdk spotMarket e.side e.price e.cancelledAmount blockNum).onOrders
        fun t => t.updateOrderCancelled env.sdk c.store.tsMs spotMarket e.orderId).store := by
  unfold handleCancelled
  dsimp only
  split_ifs
  · exact store_publishStoredOrder _ _ _ _ _
  · rfl

theorem store_handleUpdated (e : OrderUpdatedEvent) :
    (c.handleUpdated env opts blockNum spotMarket e).store =
      (((c.ensureChainHydrated env spotMarket).onBooks opts.publishWs fun t =>
          t.applyUpdated env.sdk spotMarket e.side e.price e.oldAmount e.newAmount
            e.remainingAmount blockNum).onOrders
        fun t => t.updateOrderAmount env.sdk (c.ensureChainHydrated env spotMarket).store.tsMs
          spotMarket e.orderId e.newAmount e.remainingAmount).store := by
  unfold handleUpdated
  dsimp only
  split_ifs
  · exact store_publishStoredOrder _ _ _ _ _
  · rfl

theorem store_handleFilled (e : OrderFilledEvent) (txSender : String) :
    (c.handleFilled env opts blockNum spotMarket e txSender).store =
      (c.applyFillToIndex env opts blockNum spotMarket e).store := by
  unfold handleFilled
  dsimp only
  split_ifs
  · exact store_publishUserOrderFilled _ _ _ _ _
  · rfl

theorem store_handleExecuted (e : MarketOrderExecutedEvent)
    (hnew : c.store.orders.hasChainOrder env.sdk spotMarket e.orderId = false) :
    (c.handleExecuted env opts blockNum spotMarket e).store =
      (c.indexMarketOrderExecuted env e spotMarket).1.store := by
  unfold handleExecuted
  dsimp only
  rw [hnew, if_neg Bool.false_ne_true]
  split_ifs
  · exact store_publishExecuted _ _ _ _ _
  · rfl

end

/-! ## What a market order and a fill do to the orders -/

theorem isHot_executedStatus (e : MarketOrderExecutedEvent) :
    isHotOrderStatus (executedStatus e) = false := by
  unfold executedStatus
  split_ifs <;> rfl

variable {env} in
theorem orders_indexMarketOrderExecuted (c : Ctx) (spotMarket : String)
    (e : MarketOrderExecutedEvent) :
    (c.indexMarketOrderExecuted env e spotMarket).1.store.orders = c.store.orders ∧
      (c.indexMarketOrderExecuted env e spotMarket).1.ws.orders = c.ws.orders := by
  unfold indexMarketOrderExecuted onOrders OrderTx.insertOrder orderOfExecuted
  dsimp only
  rw [isHot_executedStatus, if_neg Bool.false_ne_true]
  exact ⟨rfl, rfl⟩

/-- The books, the pending book rows and the last trade are all a fill changes
before it reaches the orders. -/
private theorem fill_frame (c : Ctx) (spotMarket : String) (price : UInt64) :
    BooksOnly (c.recordLastTradePrice env.sdk spotMarket price)
      ((c.recordLastTradePrice env.sdk spotMarket price).ensureChainHydrated env spotMarket) :=
  booksOnly_ensureChainHydrated env _ spotMarket

variable {env} in
theorem store_applyVaultFill (c : Ctx) (spotMarket : String) (filled : OrderFilledEvent) :
    (c.applyVaultFill env spotMarket filled).store.orders = c.store.orders ∧
      (c.applyVaultFill env spotMarket filled).hub = c.hub := by
  unfold applyVaultFill
  split
  · exact ⟨rfl, rfl⟩
  · exact ⟨rfl, rfl⟩

/-- A fill changes the orders, and then the holdings as the orders have become. -/
theorem applyFillToIndex_eq (c : Ctx) (opts : ProcessOpts) (blockNum : UInt64)
    (spotMarket : String) (filled : OrderFilledEvent) :
    ∃ d : Ctx, c.applyFillToIndex env opts blockNum spotMarket filled =
        d.applyVaultFill env spotMarket filled ∧
      d.store.orders =
        (OrderTx.updateOrderFill env.sdk c.store.tsMs spotMarket filled.orderId filled.fillAmount
          filled.remainingAmount filled.isFullyFilled
          ⟨c.store.orders, c.ws.orders, c.history⟩).idx ∧
      d.store.vaults = c.store.vaults ∧ d.hub = c.hub := by
  have h := fill_frame env c spotMarket filled.price
  have hws := congrArg IndexWriteSet.orders h.ws
  have hts := h.tsMs
  unfold applyFillToIndex
  dsimp only at hws ⊢
  refine ⟨_, rfl, ?_, h.vaults, h.hub⟩
  unfold onOrders onBooks
  unfold IndexState.tsMs at hts ⊢
  dsimp only at hts ⊢
  rw [h.orders, h.history, hws, hts]
  rfl

theorem orders_applyFillToIndex (c : Ctx) (opts : ProcessOpts) (blockNum : UInt64)
    (spotMarket : String) (filled : OrderFilledEvent) :
    (c.applyFillToIndex env opts blockNum spotMarket filled).store.orders =
      (OrderTx.updateOrderFill env.sdk c.store.tsMs spotMarket filled.orderId filled.fillAmount
        filled.remainingAmount filled.isFullyFilled
        ⟨c.store.orders, c.ws.orders, c.history⟩).idx := by
  obtain ⟨d, heq, horders, -, -⟩ := applyFillToIndex_eq env c opts blockNum spotMarket filled
  rw [heq, (store_applyVaultFill _ _ _).1, horders]

theorem hub_applyFillToIndex (c : Ctx) (opts : ProcessOpts) (blockNum : UInt64)
    (spotMarket : String) (filled : OrderFilledEvent) :
    (c.applyFillToIndex env opts blockNum spotMarket filled).hub = c.hub := by
  obtain ⟨d, heq, -, -, hhub⟩ := applyFillToIndex_eq env c opts blockNum spotMarket filled
  rw [heq, (store_applyVaultFill _ _ _).2, hhub]

end Ctx

end ClobIndexer
