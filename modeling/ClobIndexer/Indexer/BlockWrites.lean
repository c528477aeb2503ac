import ClobIndexer.Indexer.Processor
import ClobIndexer.Indexer.Sync
/-!
# The write set of a block is complete

`Ctx.Tracks` says that writing the pending set to the tables gives the views of
the index.  Every handler of `Processor` keeps it: a handler is a composition of
lifts, and a lift keeps it when the operation it runs keeps its part synced.  A
market task starts from an empty set over the tables as the sets before it leave
them, and merging is applying in turn.
-/

namespace ClobIndexer

open Lib

variable {env : Env} {tables : IndexTables}

namespace Ctx

/-- The pending write set, written to the tables, shows the index. -/
structure Tracks (sdk : Sdk) (tables : IndexTables) (c : Ctx) : Prop where
  orders : OrderTx.Synced sdk tables.orders ⟨c.store.orders, c.ws.orders, c.history⟩
  books : BookTx.Synced sdk tables.bookLevels tables.bookMeta
    ⟨c.store.books, c.ws.bookLevels, c.ws.bookMeta⟩
  vaults : VaultTx.Synced sdk tables.vaults tables.vaultPortfolio
    ⟨c.store.vaults, c.ws.vaults, c.ws.vaultPortfolio⟩
  lastTrades : c.ws.lastTrades.apply tables.lastTrades = lastTradeView c.store.lastTradePrice
  lastTradeKeys : ∀ key price, c.store.lastTradePrice.lookup key = some price →
    normalizeSpotMarketKey sdk key = key
  incremental : c.ws.fullReplace = false

variable {c : Ctx}

/-! ## Lifts -/

theorem tracks_onBooks (h : c.Tracks env.sdk tables) (publishWs : Bool)
    {f : BookTx → BookTx × Option (OrderBookDelta × QuoteDelta)}
    (hf : ∀ t, BookTx.Synced env.sdk tables.bookLevels tables.bookMeta t →
      BookTx.Synced env.sdk tables.bookLevels tables.bookMeta (f t).1) :
    (c.onBooks publishWs f).Tracks env.sdk tables where
  orders := ⟨h.orders.wf, h.orders.eq⟩
  books := hf _ h.books
  vaults := h.vaults
  lastTrades := h.lastTrades
  lastTradeKeys := h.lastTradeKeys
  incremental := h.incremental

theorem tracks_onOrders (h : c.Tracks env.sdk tables) {f : OrderTx → OrderTx}
    (hf : ∀ t, OrderTx.Synced env.sdk tables.orders t →
      OrderTx.Synced env.sdk tables.orders (f t)) :
    (c.onOrders f).Tracks env.sdk tables where
  orders := hf _ h.orders
  books := h.books
  vaults := h.vaults
  lastTrades := h.lastTrades
  lastTradeKeys := h.lastTradeKeys
  incremental := h.incremental

theorem tracks_onVaults (h : c.Tracks env.sdk tables) {f : VaultTx → VaultTx}
    (hf : ∀ t, VaultTx.Synced env.sdk tables.vaults tables.vaultPortfolio t →
      VaultTx.Synced env.sdk tables.vaults tables.vaultPortfolio (f t)) :
    (c.onVaults f).Tracks env.sdk tables where
  orders := ⟨h.orders.wf, h.orders.eq⟩
  books := h.books
  vaults := hf _ h.vaults
  lastTrades := h.lastTrades
  lastTradeKeys := h.lastTradeKeys
  incremental := h.incremental

/-! The rows tracked here depend neither on the registry, nor on the messages
sent, nor on the number of node calls. -/

theorem tracks_setRegistry (h : c.Tracks env.sdk tables) (r : Registry) :
    (c.setRegistry r).Tracks env.sdk tables :=
  ⟨⟨h.orders.wf, h.orders.eq⟩, h.books, h.vaults, h.lastTrades, h.lastTradeKeys, h.incremental⟩

theorem tracks_onRegistry (h : c.Tracks env.sdk tables) (f : RegistryTx → RegistryTx) :
    (c.onRegistry f).Tracks env.sdk tables :=
  ⟨⟨h.orders.wf, h.orders.eq⟩, h.books, h.vaults, h.lastTrades, h.lastTradeKeys, h.incremental⟩

theorem tracks_publish (h : c.Tracks env.sdk tables) (message : UserWsMessage) :
    (c.publish message).Tracks env.sdk tables :=
  ⟨⟨h.orders.wf, h.orders.eq⟩, h.books, h.vaults, h.lastTrades, h.lastTradeKeys, h.incremental⟩

theorem tracks_calls (h : c.Tracks env.sdk tables) (calls : Nat) :
    Tracks env.sdk tables { c with calls } :=
  ⟨⟨h.orders.wf, h.orders.eq⟩, h.books, h.vaults, h.lastTrades, h.lastTradeKeys, h.incremental⟩

theorem tracks_recordLastTradePrice (lawful : LawfulSdk env.sdk) (h : c.Tracks env.sdk tables)
    (spotMarket : String) (price : UInt64) :
    (c.recordLastTradePrice env.sdk spotMarket price).Tracks env.sdk tables := by
  have hnorm := normalize_normalize lawful spotMarket
  refine ⟨⟨h.orders.wf, h.orders.eq⟩, h.books, h.vaults, ?_, ?_, h.incremental⟩
  · unfold recordLastTradePrice storeLastTrade
    dsimp only
    rw [TableWrites.apply_put, h.lastTrades, hnorm]
    funext key
    unfold lastTradeView
    rw [Dict.lookup_insert_ite]
    by_cases hk : key = normalizeSpotMarketKey env.sdk spotMarket
    · rw [if_pos hk, hk, Function.update_self]
      rfl
    · rw [if_neg hk, Function.update_of_ne hk]
  · intro key price' hl
    change (c.store.lastTradePrice.insert _ price).lookup key = some price' at hl
    rw [Dict.lookup_insert_ite] at hl
    split_ifs at hl with hk
    · rw [hk]
      exact hnorm
    · exact h.lastTradeKeys key price' hl

/-! ## Handlers -/

theorem tracks_hydrateSpotFromChain (lawful : LawfulSdk env.sdk) (h : c.Tracks env.sdk tables)
    (spotMarket : String) : (c.hydrateSpotFromChain env spotMarket).Tracks env.sdk tables := by
  rcases hydrateSpotFromChain_cases env spotMarket c with
    ⟨calls, heq⟩ | ⟨calls, chainBook, lastPrice, heq⟩
  · rw [heq]
    exact tracks_calls h calls
  · rw [heq]
    refine tracks_onBooks (tracks_calls h calls) false ?_
    intro t ht
    exact BookTx.synced_hydrateFromChain lawful ht spotMarket chainBook lastPrice

theorem tracks_ensureChainHydrated (lawful : LawfulSdk env.sdk) (h : c.Tracks env.sdk tables)
    (spotMarket : String) : (c.ensureChainHydrated env spotMarket).Tracks env.sdk tables := by
  unfold ensureChainHydrated
  split_ifs
  · exact h
  · exact tracks_hydrateSpotFromChain lawful h spotMarket

theorem tracks_hydrateAllSpotMarkets (lawful : LawfulSdk env.sdk)
    (h : c.Tracks env.sdk tables) : (c.hydrateAllSpotMarkets env).Tracks env.sdk tables := by
  unfold hydrateAllSpotMarkets
  exact List.foldlRecOn _ _ h fun _ hc spot _ => tracks_hydrateSpotFromChain lawful hc spot

theorem tracks_applyOrderCreatedToBook (lawful : LawfulSdk env.sdk)
    (h : c.Tracks env.sdk tables) (blockNum : UInt64) (created : OrderCreatedEvent)
    (spotMarket : String) (publishWs : Bool) :
    (c.applyOrderCreatedToBook env blockNum created spotMarket publishWs).Tracks env.sdk
      tables := by
  unfold applyOrderCreatedToBook
  split
  · apply tracks_onBooks h
    intro t ht
    exact BookTx.synced_applyCreated lawful ht _ _ _ _ _
  · exact h
  · exact h

theorem tracks_indexOrderCreated (h : c.Tracks env.sdk tables) (created : OrderCreatedEvent)
    (spotMarket : String) (statusOverride : Option (String × UInt64)) :
    (c.indexOrderCreated env created spotMarket statusOverride).Tracks env.sdk tables := by
  unfold indexOrderCreated
  dsimp only
  refine tracks_onOrders (tracks_setRegistry h _) ?_
  intro t ht
  exact OrderTx.synced_insertOrder ht _ _ _ _ _ _ _

theorem tracks_indexMarketOrderExecuted (h : c.Tracks env.sdk tables)
    (executed : MarketOrderExecutedEvent) (spotMarket : String) :
    (c.indexMarketOrderExecuted env executed spotMarket).1.Tracks env.sdk tables := by
  unfold indexMarketOrderExecuted
  dsimp only
  refine tracks_onOrders (tracks_setRegistry h _) ?_
  intro t ht
  exact OrderTx.synced_insertOrder ht _ _ _ _ _ _ _

theorem tracks_publishStoredOrder (h : c.Tracks env.sdk tables)
    (event spotMarket chainOrderId : String) (blockNum : UInt64) :
    (c.publishStoredOrder env event spotMarket chainOrderId blockNum).Tracks env.sdk tables := by
  unfold publishStoredOrder
  split
  · exact h
  · exact tracks_publish h _

theorem tracks_publishUserOrderFilled (h : c.Tracks env.sdk tables) (filled : OrderFilledEvent)
    (spotMarket : String) (blockNum : UInt64) (txSender : String) :
    (c.publishUserOrderFilled env filled spotMarket blockNum txSender).Tracks env.sdk
      tables := by
  unfold publishUserOrderFilled
  dsimp only
  split
  · exact tracks_publish (tracks_publish h _) _
  · split_ifs
    · exact tracks_publish h _
    · exact h

theorem tracks_applyVaultFill (lawful : LawfulSdk env.sdk) (h : c.Tracks env.sdk tables)
    (spotMarket : String) (filled : OrderFilledEvent) :
    (c.applyVaultFill env spotMarket filled).Tracks env.sdk tables := by
  unfold applyVaultFill
  split
  · exact h
  · apply tracks_onVaults h
    intro t ht
    exact VaultTx.synced_applyVaultFillToPortfolio lawful ht _ _ _ _

theorem tracks_publishExecuted (h : c.Tracks env.sdk tables) (spotMarket : String)
    (blockNum : UInt64) (executed : MarketOrderExecutedEvent) (order : Order) :
    (c.publishExecuted spotMarket blockNum executed order).Tracks env.sdk tables := by
  unfold publishExecuted
  dsimp only
  split_ifs
  · exact tracks_publish h _
  · exact tracks_publish (tracks_publish h _) _

theorem tracks_handleCreated (lawful : LawfulSdk env.sdk) (h : c.Tracks env.sdk tables)
    (opts : ProcessOpts) (blockNum : UInt64) (spotMarket : String) (e : OrderCreatedEvent) :
    (c.handleCreated env opts blockNum spotMarket e).Tracks env.sdk tables := by
  have hbook := tracks_applyOrderCreatedToBook lawful
    (tracks_ensureChainHydrated lawful h spotMarket) blockNum e spotMarket opts.publishWs
  have horder := tracks_indexOrderCreated hbook e spotMarket none
  unfold handleCreated
  dsimp only
  split_ifs
  · exact h
  · exact tracks_publishStoredOrder horder _ _ _ _
  · exact horder

theorem tracks_handleCancelled (lawful : LawfulSdk env.sdk) (h : c.Tracks env.sdk tables)
    (opts : ProcessOpts) (blockNum : UInt64) (spotMarket : String) (e : OrderCancelledEvent) :
    (c.handleCancelled env opts blockNum spotMarket e).Tracks env.sdk tables := by
  have hbook := tracks_onBooks h opts.publishWs fun t ht =>
    BookTx.synced_applyCancelled lawful ht spotMarket e.side e.price e.cancelledAmount blockNum
  have horder := tracks_onOrders hbook fun t ht =>
    OrderTx.synced_updateOrderCancelled ht c.store.tsMs spotMarket e.orderId
  unfold handleCancelled
  dsimp only
  split_ifs
  · exact tracks_publishStoredOrder horder _ _ _ _
  · exact horder

theorem tracks_handleUpdated (lawful : LawfulSdk env.sdk) (h : c.Tracks env.sdk tables)
    (opts : ProcessOpts) (blockNum : UInt64) (spotMarket : String) (e : OrderUpdatedEvent) :
    (c.handleUpdated env opts blockNum spotMarket e).Tracks env.sdk tables := by
  have hbook := tracks_onBooks (tracks_ensureChainHydrated lawful h spotMarket) opts.publishWs
    fun t ht => BookTx.synced_applyUpdated lawful ht spotMarket e.side e.price e.oldAmount
      e.newAmount e.remainingAmount blockNum
  have horder := tracks_onOrders hbook fun t ht =>
    OrderTx.synced_updateOrderAmount ht (c.ensureChainHydrated env spotMarket).store.tsMs
      spotMarket e.orderId e.newAmount e.remainingAmount
  unfold handleUpdated
  dsimp only
  split_ifs
  · exact tracks_publishStoredOrder horder _ _ _ _
  · exact horder

theorem tracks_handleFilled (lawful : LawfulSdk env.sdk) (h : c.Tracks env.sdk tables)
    (opts : ProcessOpts) (blockNum : UInt64) (spotMarket : String) (e : OrderFilledEvent)
    (txSender : String) :
    (c.handleFilled env opts blockNum spotMarket e txSender).Tracks env.sdk tables := by
  have hprice := tracks_recordLastTradePrice lawful h spotMarket e.price
  have hbook := fun time => tracks_onBooks (tracks_ensureChainHydrated lawful hprice spotMarket)
    opts.publishWs fun t ht => BookTx.synced_applyFilled lawful ht spotMarket e.side e.price
      e.fillAmount blockNum e.price time env.nowMs
  have horder := fun time ts => tracks_onOrders (hbook time) fun t ht =>
    OrderTx.synced_updateOrderFill ht ts spotMarket e.orderId e.fillAmount e.remainingAmount
      e.isFullyFilled
  have hvault := fun time ts => tracks_applyVaultFill lawful (horder time ts) spotMarket e
  unfold handleFilled
  dsimp only
  split_ifs
  · exact tracks_publishUserOrderFilled (hvault _ _) _ _ _ _
  · exact hvault _ _

theorem tracks_handleExecuted (h : c.Tracks env.sdk tables) (opts : ProcessOpts)
    (blockNum : UInt64) (spotMarket : String) (e : MarketOrderExecutedEvent) :
    (c.handleExecuted env opts blockNum spotMarket e).Tracks env.sdk tables := by
  have horder := tracks_indexMarketOrderExecuted h e spotMarket
  unfold handleExecuted
  dsimp only
  split_ifs
  · exact h
  · exact tracks_publishExecuted horder _ _ _ _
  · exact horder

/-- One order event keeps the pending writes in step with the index. -/
theorem tracks_applyMarketOrderEvent (lawful : LawfulSdk env.sdk) (h : c.Tracks env.sdk tables)
    (opts : ProcessOpts) (blockNum : UInt64) (spotMarket : String) (e : MarketOrderEvent) :
    (c.applyMarketOrderEvent env opts blockNum spotMarket e).Tracks env.sdk tables := by
  cases e with
  | created e => exact tracks_handleCreated lawful h opts blockNum spotMarket e
  | cancelled e => exact tracks_handleCancelled lawful h opts blockNum spotMarket e
  | updated e => exact tracks_handleUpdated lawful h opts blockNum spotMarket e
  | filled e txSender => exact tracks_handleFilled lawful h opts blockNum spotMarket e txSender
  | executed e => exact tracks_handleExecuted h opts blockNum spotMarket e

theorem tracks_applyMarketOrderEvents (lawful : LawfulSdk env.sdk)
    (h : c.Tracks env.sdk tables) (opts : ProcessOpts) (blockNum : UInt64) (spotMarket : String)
    (events : List MarketOrderEvent) :
    (c.applyMarketOrderEvents env opts blockNum spotMarket events).Tracks env.sdk tables :=
  List.foldlRecOn _ _ h fun _ hc e _ =>
    tracks_applyMarketOrderEvent lawful hc opts blockNum spotMarket e

theorem tracks_applyGlobalEvent (lawful : LawfulSdk env.sdk) (h : c.Tracks env.sdk tables)
    (e : GlobalEvent) : (c.applyGlobalEvent env e).Tracks env.sdk tables := by
  cases e with
  | eventContractCreated created =>
      have hreg := tracks_onRegistry h fun t =>
        t.upsertMarket env.sdk (eventMarketOf env t.reg created)
      exact tracks_hydrateSpotFromChain lawful
        (tracks_hydrateSpotFromChain lawful hreg created.yesSpotMarket) created.noSpotMarket
  | eventContractResolved marketAddress => exact tracks_onRegistry h _
  | vaultCreated created => exact tracks_onVaults h fun t ht => VaultTx.synced_upsertVault ht _
  | vaultDeposited vault equity =>
      exact tracks_onVaults h fun t ht => VaultTx.synced_modifyVault ht vault fun _ => rfl
  | vaultWithdrawn vault equity =>
      exact tracks_onVaults h fun t ht => VaultTx.synced_modifyVault ht vault fun _ => rfl
  | vaultManagerUpdated vault newManager =>
      exact tracks_onVaults h fun t ht => VaultTx.synced_modifyVault ht vault fun _ => rfl
  | vaultDepositPermissionUpdated vault allowDeposit =>
      exact tracks_onVaults h fun t ht => VaultTx.synced_modifyVault ht vault fun _ => rfl
  | vaultClosed vault =>
      exact tracks_onVaults h fun t ht => VaultTx.synced_modifyVault ht vault fun _ => rfl
  | marketCreated created =>
      exact tracks_ensureChainHydrated lawful (tracks_setRegistry h _) created.marketAddress
  | secondary e => exact h

theorem tracks_applyUnmapped (lawful : LawfulSdk env.sdk) (h : c.Tracks env.sdk tables)
    (opts : ProcessOpts) (e : UnmappedOrderEvent) :
    (c.applyUnmapped env opts e).Tracks env.sdk tables := by
  cases e with
  | cancelled chainOrderId =>
      unfold applyUnmapped
      split_ifs
      · exact tracks_hydrateAllSpotMarkets lawful h
      · exact h
  | updated chainOrderId =>
      unfold applyUnmapped
      split_ifs
      · exact tracks_hydrateAllSpotMarkets lawful h
      · exact h

/-! ## Blocks -/

theorem tracks_restart (h : c.Tracks env.sdk tables) :
    Tracks env.sdk (tables.applyIndexWriteSet c.ws) { c with ws := {} } := by
  have hbase : (if c.ws.fullReplace = true then IndexTables.empty else tables) = tables := by
    rw [h.incremental]
    rfl
  unfold IndexTables.applyIndexWriteSet
  simp only [hbase]
  refine ⟨⟨h.orders.wf, ?_⟩, ⟨h.books.wf, ?_, ?_⟩, ⟨h.vaults.wf, ?_, ?_⟩, ?_,
    h.lastTradeKeys, rfl⟩
  · exact (TableWrites.apply_empty _).trans h.orders.eq
  · exact (TableWrites.apply_empty _).trans h.books.levels
  · exact (TableWrites.apply_empty _).trans h.books.metas
  · exact (TableWrites.apply_empty _).trans h.vaults.vaults
  · exact (TableWrites.apply_empty _).trans h.vaults.portfolio
  · exact (TableWrites.apply_empty _).trans h.lastTrades

theorem tracks_merge {ws : IndexWriteSet} (hws : ws.fullReplace = false)
    (h : c.Tracks env.sdk (tables.applyIndexWriteSet ws)) :
    Tracks env.sdk tables { c with ws := ws.merge c.ws } := by
  have hbase : (if ws.fullReplace = true then IndexTables.empty else tables) = tables := by
    rw [hws]
    rfl
  unfold IndexTables.applyIndexWriteSet at h
  simp only [hbase] at h
  refine ⟨⟨h.orders.wf, ?_⟩, ⟨h.books.wf, ?_, ?_⟩, ⟨h.vaults.wf, ?_, ?_⟩, ?_,
    h.lastTradeKeys, ?_⟩
  · exact (TableWrites.apply_merge _ _ _).trans h.orders.eq
  · exact (TableWrites.apply_merge _ _ _).trans h.books.levels
  · exact (TableWrites.apply_merge _ _ _).trans h.books.metas
  · exact (TableWrites.apply_merge _ _ _).trans h.vaults.vaults
  · exact (TableWrites.apply_merge _ _ _).trans h.vaults.portfolio
  · exact (TableWrites.apply_merge _ _ _).trans h.lastTrades
  · change (ws.fullReplace || c.ws.fullReplace) = false
    rw [hws, h.incremental]
    rfl

theorem tracks_runMarketTask (lawful : LawfulSdk env.sdk) (h : c.Tracks env.sdk tables)
    (opts : ProcessOpts) (blockNum : UInt64)
    (task : Sigma fun _ : String => List MarketOrderEvent) :
    (c.runMarketTask env opts blockNum task).Tracks env.sdk tables :=
  tracks_merge h.incremental
    (tracks_applyMarketOrderEvents lawful (tracks_restart h) opts blockNum task.1 task.2)

/-- A block keeps the tables in step: its write set leads from the views of the
index before it to the views after it. -/
theorem tracks_processPreparedBlock (lawful : LawfulSdk env.sdk)
    (h : Tracks env.sdk tables { c with ws := {} }) (opts : ProcessOpts)
    (prepared : PreparedBlock) :
    (c.processPreparedBlock env opts prepared).Tracks env.sdk tables := by
  have hbegin : (c.beginBlock prepared.block).Tracks env.sdk tables :=
    ⟨h.orders, h.books, h.vaults, h.lastTrades, h.lastTradeKeys, h.incremental⟩
  have hglobal := List.foldlRecOn prepared.block.globalEvents (applyGlobalEvent env) hbegin
    fun _ hc e _ => tracks_applyGlobalEvent lawful hc e
  have hunmapped := List.foldlRecOn prepared.unmapped (applyUnmapped env opts) hglobal
    fun _ hc e _ => tracks_applyUnmapped lawful hc opts e
  have hmarkets := List.foldlRecOn prepared.markets.entries
    (runMarketTask env opts prepared.blockNum) hunmapped
    fun _ hc task _ => tracks_runMarketTask lawful hc opts prepared.blockNum task
  exact ⟨hmarkets.orders, hmarkets.books, hmarkets.vaults, hmarkets.lastTrades,
    hmarkets.lastTradeKeys, hmarkets.incremental⟩

end Ctx

end ClobIndexer
