import ClobIndexer.Indexer.BookShard
import ClobIndexer.Indexer.World
/-!
# Replaying without publishing

Two runs of one block, with publishing and without, against a node that answers both
alike.  Beside the messages, a quiet run leaves out the reload of the registered books
after an order event that could not be routed.  The two runs then differ in those
books only, and not in their trades; everything that order events decide, they decide
without looking at a book.
-/

namespace ClobIndexer

open Lib

/-! ## Books that differ in places -/

/-- Books with the same trades, and otherwise equal outside some markets. -/
structure Books.Twin (S : String → Prop) (b b' : Books) : Prop where
  tradeSeq : b.tradeSeq = b'.tradeSeq
  tape : ∀ key, (b.shard key).tape = (b'.shard key).tape
  outside : ∀ key, ¬S key → b.shards.lookup key = b'.shards.lookup key

namespace Books.Twin

variable {S : String → Prop} {b b' : Books}

theorem refl (S : String → Prop) (b : Books) : Twin S b b :=
  ⟨rfl, fun _ => rfl, fun _ _ => rfl⟩

theorem symm (h : Twin S b b') : Twin S b' b :=
  ⟨h.tradeSeq.symm, fun key => (h.tape key).symm, fun key hkey => (h.outside key hkey).symm⟩

theorem shard (h : Twin S b b') {key : String} (hkey : ¬S key) : b.shard key = b'.shard key := by
  unfold Books.shard
  rw [h.outside key hkey]

theorem apply (sdk : Sdk) {s t : BookTx} (h : Twin S s.books t.books) (op : BookOp) :
    Twin S (op.apply sdk s).1.books (op.apply sdk t).1.books := by
  have hfill : (s.books.shard (op.key sdk)).lastFill = (t.books.shard (op.key sdk)).lastFill :=
    congrArg Prod.fst (h.tape (op.key sdk))
  constructor
  · rw [BookOp.tradeSeq_apply, BookOp.tradeSeq_apply, h.tradeSeq, hfill]
  · intro key
    rw [BookOp.shard_apply, BookOp.shard_apply, h.tradeSeq]
    split_ifs
    · exact op.tape_onBook _ (h.tape key)
    · exact h.tape key
  · intro key hkey
    rw [BookOp.lookup_apply, BookOp.lookup_apply, h.tradeSeq, h.shard hkey, h.outside key hkey]

theorem hydrate (sdk : Sdk) {t : BookTx} (h : Twin S t.books b') {spotMarket : String}
    (hspot : S (normalizeSpotMarketKey sdk spotMarket)) (chainBook : GetOrderBook)
    (lastTradePrice : Option UInt64) :
    Twin S (t.hydrateFromChain sdk spotMarket chainBook lastTradePrice).books b' := by
  rw [BookTx.books_hydrateFromChain]
  constructor
  · exact h.tradeSeq
  · intro key
    rw [Books.shard_setShard]
    split_ifs with hkey
    · rw [← h.tape, hkey]
      rfl
    · exact h.tape key
  · intro key hkey
    have hne : key ≠ normalizeSpotMarketKey sdk spotMarket := fun heq => hkey (heq ▸ hspot)
    unfold Books.setShard
    dsimp only
    rw [Dict.lookup_insert_ite, if_neg hne]
    exact h.outside key hkey

end Books.Twin

/-! ## Contexts that differ in their books -/

/-- What two runs may have differently: the books with their rows, and the messages. -/
structure Outlook where
  books : Books
  levels : TableWrites LevelKey Int64
  metas : TableWrites String BookMetaRow
  hub : List UserWsMessage
  feed : List (OrderBookDelta × QuoteDelta)
  calls : Nat

namespace Ctx

def seenAs (c : Ctx) (v : Outlook) : Ctx :=
  { c with
    store := { c.store with books := v.books }
    ws := { c.ws with bookLevels := v.levels, bookMeta := v.metas }
    hub := v.hub
    feed := v.feed
    calls := v.calls }

def Twin (S : String → Prop) (c d : Ctx) : Prop :=
  ∃ v : Outlook, d = c.seenAs v ∧ c.store.books.Twin S v.books

variable {S : String → Prop} {c d : Ctx}

theorem Twin.refl (S : String → Prop) (c : Ctx) : Twin S c c :=
  ⟨⟨c.store.books, c.ws.bookLevels, c.ws.bookMeta, c.hub, c.feed, c.calls⟩, rfl,
    Books.Twin.refl S _⟩

theorem Twin.symm (h : Twin S c d) : Twin S d c := by
  obtain ⟨v, rfl, hbooks⟩ := h
  exact ⟨⟨c.store.books, c.ws.bookLevels, c.ws.bookMeta, c.hub, c.feed, c.calls⟩, rfl,
    hbooks.symm⟩

theorem Twin.orders (h : Twin S c d) : d.store.orders = c.store.orders := by
  obtain ⟨v, rfl, -⟩ := h
  rfl

theorem Twin.registry (h : Twin S c d) : d.store.registry = c.store.registry := by
  obtain ⟨v, rfl, -⟩ := h
  rfl

theorem Twin.tsMs (h : Twin S c d) : d.store.tsMs = c.store.tsMs := by
  obtain ⟨v, rfl, -⟩ := h
  rfl

theorem Twin.hub_left (h : Twin S c d) (hub : List UserWsMessage) : Twin S { c with hub } d := by
  obtain ⟨v, rfl, hbooks⟩ := h
  exact ⟨v, rfl, hbooks⟩

theorem Twin.hub_right (h : Twin S c d) (hub : List UserWsMessage) : Twin S c { d with hub } :=
  (h.symm.hub_left hub).symm

theorem twin_onOrders (h : Twin S c d) (f : OrderTx → OrderTx) :
    Twin S (c.onOrders f) (d.onOrders f) := by
  obtain ⟨v, rfl, hbooks⟩ := h
  exact ⟨v, rfl, hbooks⟩

theorem twin_onVaults (h : Twin S c d) (f : VaultTx → VaultTx) :
    Twin S (c.onVaults f) (d.onVaults f) := by
  obtain ⟨v, rfl, hbooks⟩ := h
  exact ⟨v, rfl, hbooks⟩

theorem twin_recordLastTradePrice (h : Twin S c d) (sdk : Sdk) (spotMarket : String)
    (price : UInt64) :
    Twin S (c.recordLastTradePrice sdk spotMarket price)
      (d.recordLastTradePrice sdk spotMarket price) := by
  obtain ⟨v, rfl, hbooks⟩ := h
  exact ⟨v, rfl, hbooks⟩

theorem tsMs_onBooks (c : Ctx) (publish : Bool)
    (f : BookTx → BookTx × Option (OrderBookDelta × QuoteDelta)) :
    (c.onBooks publish f).store.tsMs = c.store.tsMs := rfl

theorem twin_onBooks (h : Twin S c d) (sdk : Sdk) (op : BookOp) (publish publish' : Bool) :
    Twin S (c.onBooks publish (op.apply sdk)) (d.onBooks publish' (op.apply sdk)) := by
  obtain ⟨v, rfl, hbooks⟩ := h
  let s : BookTx := ⟨c.store.books, c.ws.bookLevels, c.ws.bookMeta⟩
  let t : BookTx := ⟨v.books, v.levels, v.metas⟩
  let r := op.apply sdk t
  exact ⟨⟨r.1.books, r.1.levels, r.1.metas, v.hub,
    if publish' then v.feed ++ r.2.toList else v.feed, v.calls⟩, rfl,
    Books.Twin.apply sdk (s := s) (t := t) hbooks op⟩

/-! ## Loading books -/

variable {env : Env}

theorem twin_installBook (h : Twin S c d) (spotMarket : String) (chainBook : GetOrderBook)
    (lastTradePrice : Option UInt64) :
    Twin S (c.installBook env spotMarket chainBook lastTradePrice)
      (d.installBook env spotMarket chainBook lastTradePrice) :=
  twin_onBooks h env.sdk (.hydrate spotMarket chainBook lastTradePrice) false false

theorem twin_calls (h : Twin S c d) (calls calls' : Nat) :
    Twin S { c with calls } { d with calls := calls' } := by
  obtain ⟨v, rfl, hbooks⟩ := h
  exact ⟨{ v with calls := calls' }, rfl, hbooks⟩

theorem twin_hydrateSpotFromChain (steady : env.chain.Steady) (h : Twin S c d)
    (spotMarket : String) :
    Twin S (c.hydrateSpotFromChain env spotMarket) (d.hydrateSpotFromChain env spotMarket) := by
  obtain ⟨calls, hc⟩ := hydrateSpotFromChain_steady steady spotMarket c
  obtain ⟨calls', hd⟩ := hydrateSpotFromChain_steady steady spotMarket d
  have hknown : d.store.lastTradePrice = c.store.lastTradePrice := by
    obtain ⟨v, rfl, -⟩ := h
    rfl
  rw [hc, hd, hknown]
  cases env.chainView spotMarket
      (c.store.lastTradePrice.lookup (normalizeSpotMarketKey env.sdk spotMarket)) with
  | none => exact twin_calls h calls calls'
  | some view => exact twin_installBook (twin_calls h calls calls') spotMarket view.1 view.2

theorem Twin.hydrate_left (h : Twin S c d) {spotMarket : String}
    (hspot : S (normalizeSpotMarketKey env.sdk spotMarket)) :
    Twin S (c.hydrateSpotFromChain env spotMarket) d := by
  rcases hydrateSpotFromChain_cases env spotMarket c with
    ⟨calls, heq⟩ | ⟨calls, chainBook, lastPrice, heq⟩
  · rw [heq]
    obtain ⟨v, rfl, hbooks⟩ := h
    exact ⟨v, rfl, hbooks⟩
  · rw [heq]
    obtain ⟨v, rfl, hbooks⟩ := h
    exact ⟨v, rfl, Books.Twin.hydrate env.sdk
      (t := ⟨c.store.books, c.ws.bookLevels, c.ws.bookMeta⟩) hbooks hspot chainBook lastPrice⟩

theorem twin_ensureChainHydrated (steady : env.chain.Steady) (h : Twin S c d)
    (spotMarket : String) :
    Twin S (c.ensureChainHydrated env spotMarket) (d.ensureChainHydrated env spotMarket) := by
  unfold ensureChainHydrated
  by_cases hspot : S (normalizeSpotMarketKey env.sdk spotMarket)
  · -- one of them may have the book already
    split_ifs
    · exact h
    · exact (h.symm.hydrate_left hspot).symm
    · exact h.hydrate_left hspot
    · exact twin_hydrateSpotFromChain steady h spotMarket
  · have hflag : d.store.books.isChainHydrated env.sdk spotMarket =
        c.store.books.isChainHydrated env.sdk spotMarket := by
      obtain ⟨v, rfl, hbooks⟩ := h
      unfold Books.isChainHydrated
      rw [hbooks.outside _ hspot]
      rfl
    rw [hflag]
    split_ifs
    · exact h
    · exact twin_hydrateSpotFromChain steady h spotMarket

/-! ## Order events -/

theorem Twin.published (h : Twin S c d) {f g : Ctx → Ctx} (hf : ∃ hub, f c = { c with hub })
    (hg : ∃ hub, g d = { d with hub }) (publish publish' : Bool) :
    Twin S (if publish then f c else c) (if publish' then g d else d) := by
  obtain ⟨hub, hf⟩ := hf
  obtain ⟨hub', hg⟩ := hg
  rw [hf, hg]
  split_ifs
  · exact (h.hub_left hub).hub_right hub'
  · exact h.hub_left hub
  · exact h.hub_right hub'
  · exact h

variable (opts opts' : ProcessOpts) (blockNum : UInt64) (spotMarket : String)

theorem twin_indexOrderCreated (h : Twin S c d) (e : OrderCreatedEvent) :
    Twin S (c.indexOrderCreated env e spotMarket none) (d.indexOrderCreated env e spotMarket none)
    := by
  obtain ⟨v, rfl, hbooks⟩ := h
  exact ⟨v, rfl, hbooks⟩

theorem twin_applyVaultFill (h : Twin S c d) (e : OrderFilledEvent) :
    Twin S (c.applyVaultFill env spotMarket e) (d.applyVaultFill env spotMarket e) := by
  unfold applyVaultFill
  rw [h.orders]
  split
  · exact h
  · exact twin_onVaults h _

theorem twin_handleCreated (steady : env.chain.Steady) (h : Twin S c d) (e : OrderCreatedEvent) :
    Twin S (c.handleCreated env opts blockNum spotMarket e)
      (d.handleCreated env opts' blockNum spotMarket e) := by
  have hloaded := twin_ensureChainHydrated steady h spotMarket
  have hbook : Twin S
      ((c.ensureChainHydrated env spotMarket).applyOrderCreatedToBook env blockNum e spotMarket
        opts.publishWs)
      ((d.ensureChainHydrated env spotMarket).applyOrderCreatedToBook env blockNum e spotMarket
        opts'.publishWs) := by
    unfold applyOrderCreatedToBook
    cases e.orderType with
    | limit price =>
        exact twin_onBooks hloaded env.sdk
          (.created spotMarket e.side price e.amount blockNum false) _ _
    | market => exact hloaded
    | trigger limitPrice => exact hloaded
  unfold handleCreated
  dsimp only
  rw [h.orders]
  by_cases hdup : c.store.orders.hasChainOrder env.sdk spotMarket e.orderId = true
  · rw [if_pos hdup, if_pos hdup]
    exact h
  · rw [if_neg hdup, if_neg hdup]
    exact (twin_indexOrderCreated spotMarket hbook e).published
      (publishStoredOrder_hub _ "placement" spotMarket e.orderId blockNum)
      (publishStoredOrder_hub _ "placement" spotMarket e.orderId blockNum) _ _

theorem twin_handleCancelled (h : Twin S c d) (e : OrderCancelledEvent) :
    Twin S (c.handleCancelled env opts blockNum spotMarket e)
      (d.handleCancelled env opts' blockNum spotMarket e) := by
  have hts : d.store.tsMs = c.store.tsMs := h.tsMs
  have hbook := twin_onBooks h env.sdk
    (.cancelled spotMarket e.side e.price e.cancelledAmount blockNum false) opts.publishWs
    opts'.publishWs
  have horders := twin_onOrders hbook fun t =>
    t.updateOrderCancelled env.sdk c.store.tsMs spotMarket e.orderId
  unfold handleCancelled
  dsimp only
  rw [tsMs_onBooks, tsMs_onBooks, hts]
  exact horders.published
    (publishStoredOrder_hub _ "cancellation" spotMarket e.orderId blockNum)
    (publishStoredOrder_hub _ "cancellation" spotMarket e.orderId blockNum) _ _

theorem twin_handleUpdated (steady : env.chain.Steady) (h : Twin S c d) (e : OrderUpdatedEvent) :
    Twin S (c.handleUpdated env opts blockNum spotMarket e)
      (d.handleUpdated env opts' blockNum spotMarket e) := by
  have hloaded := twin_ensureChainHydrated steady h spotMarket
  have hbook := twin_onBooks hloaded env.sdk
    (.updated spotMarket e.side e.price e.oldAmount e.newAmount e.remainingAmount blockNum false)
    opts.publishWs opts'.publishWs
  have horders := twin_onOrders hbook fun t =>
    t.updateOrderAmount env.sdk (c.ensureChainHydrated env spotMarket).store.tsMs spotMarket
      e.orderId e.newAmount e.remainingAmount
  unfold handleUpdated
  dsimp only
  rw [tsMs_onBooks, tsMs_onBooks, hloaded.tsMs]
  exact horders.published
    (publishStoredOrder_hub _ "update" spotMarket e.orderId blockNum)
    (publishStoredOrder_hub _ "update" spotMarket e.orderId blockNum) _ _

theorem twin_handleFilled (steady : env.chain.Steady) (h : Twin S c d) (e : OrderFilledEvent)
    (txSender : String) :
    Twin S (c.handleFilled env opts blockNum spotMarket e txSender)
      (d.handleFilled env opts' blockNum spotMarket e txSender) := by
  have hloaded := twin_ensureChainHydrated steady
    (twin_recordLastTradePrice h env.sdk spotMarket e.price) spotMarket
  have hts := hloaded.tsMs
  have hbook := fun tradeTimeMs => twin_onBooks hloaded env.sdk
    (.filled spotMarket e.side e.price e.fillAmount blockNum e.price false tradeTimeMs env.nowMs)
    opts.publishWs opts'.publishWs
  have hfill : Twin S (c.applyFillToIndex env opts blockNum spotMarket e)
      (d.applyFillToIndex env opts' blockNum spotMarket e) := by
    unfold applyFillToIndex
    dsimp only
    rw [tsMs_onBooks, tsMs_onBooks, hts]
    exact twin_applyVaultFill spotMarket (twin_onOrders (hbook _) _) e
  unfold handleFilled
  dsimp only
  exact hfill.published (publishUserOrderFilled_hub _ e spotMarket blockNum txSender)
    (publishUserOrderFilled_hub _ e spotMarket blockNum txSender) _ _

theorem twin_handleExecuted (h : Twin S c d) (e : MarketOrderExecutedEvent) :
    Twin S (c.handleExecuted env opts blockNum spotMarket e)
      (d.handleExecuted env opts' blockNum spotMarket e) := by
  have hindex : Twin S (c.indexMarketOrderExecuted env e spotMarket).1
      (d.indexMarketOrderExecuted env e spotMarket).1 := by
    obtain ⟨v, rfl, hbooks⟩ := h
    exact ⟨v, rfl, hbooks⟩
  unfold handleExecuted
  dsimp only
  rw [h.orders]
  by_cases hdup : c.store.orders.hasChainOrder env.sdk spotMarket e.orderId = true
  · rw [if_pos hdup, if_pos hdup]
    exact h
  · rw [if_neg hdup, if_neg hdup]
    exact hindex.published (publishExecuted_hub _ spotMarket blockNum e _)
      (publishExecuted_hub _ spotMarket blockNum e _) _ _

/-- An order event, published or not. -/
theorem twin_applyMarketOrderEvent (steady : env.chain.Steady) (h : Twin S c d)
    (e : MarketOrderEvent) :
    Twin S (c.applyMarketOrderEvent env opts blockNum spotMarket e)
      (d.applyMarketOrderEvent env opts' blockNum spotMarket e) := by
  cases e with
  | created e => exact twin_handleCreated opts opts' blockNum spotMarket steady h e
  | cancelled e => exact twin_handleCancelled opts opts' blockNum spotMarket h e
  | updated e => exact twin_handleUpdated opts opts' blockNum spotMarket steady h e
  | filled e txSender =>
      exact twin_handleFilled opts opts' blockNum spotMarket steady h e txSender
  | executed e => exact twin_handleExecuted opts opts' blockNum spotMarket h e

theorem twin_foldl {E : Type} {f g : Ctx → E → Ctx}
    (hstep : ∀ {c d : Ctx} (e : E), Twin S c d → Twin S (f c e) (g d e)) (es : List E)
    (h : Twin S c d) : Twin S (es.foldl f c) (es.foldl g d) := by
  induction es generalizing c d with
  | nil => exact h
  | cons e es ih => exact ih (hstep e h)

theorem twin_runMarketTask (steady : env.chain.Steady) (h : Twin S c d)
    (task : Sigma fun _ : String => List MarketOrderEvent) :
    Twin S (c.runMarketTask env opts blockNum task) (d.runMarketTask env opts' blockNum task) := by
  have hempty : Twin S { c with ws := {} } { d with ws := {} } := by
    obtain ⟨v, rfl, hbooks⟩ := h
    exact ⟨{ v with levels := .empty, metas := .empty }, rfl, hbooks⟩
  have hdone := twin_foldl
    (fun e => twin_applyMarketOrderEvent opts opts' blockNum task.1 steady (e := e)) task.2 hempty
  unfold runMarketTask applyMarketOrderEvents
  dsimp only
  obtain ⟨u, hd, -⟩ := h
  obtain ⟨v, hdone, hbooks⟩ := hdone
  rw [hdone]
  refine ⟨{ v with levels := ?_, metas := ?_ }, ?_, hbooks⟩
  · exact u.levels.merge v.levels
  · exact u.metas.merge v.metas
  · rw [hd]
    rfl

/-! ## Events without a market -/

def reloadable (env : Env) (c : Ctx) (key : String) : Prop :=
  ∃ spot ∈ c.store.registry.listSpotMarkets, key = normalizeSpotMarketKey env.sdk spot ∧
    (env.chainView spot (c.store.lastTradePrice.lookup key)).isSome

theorem Twin.lastTradePrice (h : Twin S c d) : d.store.lastTradePrice = c.store.lastTradePrice := by
  obtain ⟨v, rfl, -⟩ := h
  rfl

theorem Twin.reload_right (steady : env.chain.Steady) (h : Twin S c d)
    (hS : ∀ key, c.reloadable env key → S key) : Twin S c (d.hydrateAllSpotMarkets env) := by
  have hspots : ∀ (spots : List String) (d : Ctx),
      (∀ spot ∈ spots, spot ∈ c.store.registry.listSpotMarkets) → Twin S c d →
      Twin S c (spots.foldl (fun d spot => d.hydrateSpotFromChain env spot) d) := by
    intro spots
    induction spots with
    | nil => exact fun d _ hd => hd
    | cons spot spots ih =>
        intro d hmem hd
        apply ih _ fun other hother => hmem other (List.mem_cons_of_mem spot hother)
        obtain ⟨calls, heq⟩ := hydrateSpotFromChain_steady steady spot d
        cases hview : env.chainView spot
            (d.store.lastTradePrice.lookup (normalizeSpotMarketKey env.sdk spot)) with
        | none =>
            dsimp only
            rw [heq, hview]
            exact twin_calls hd c.calls calls
        | some view =>
            have hspot : S (normalizeSpotMarketKey env.sdk spot) := by
              refine hS _ ⟨spot, hmem spot List.mem_cons_self, rfl, ?_⟩
              rw [← hd.lastTradePrice, hview]
              rfl
            exact (hd.symm.hydrate_left hspot).symm
  unfold hydrateAllSpotMarkets
  refine hspots _ d ?_ h
  rw [h.registry]
  exact fun spot hspot => hspot

theorem applyUnmapped_quiet (c : Ctx) (e : UnmappedOrderEvent) :
    c.applyUnmapped env .quiet e = c := by
  cases e <;> rfl

/-- What a publishing run does with the events that have no market. -/
theorem Twin.applyUnmapped_right (steady : env.chain.Steady) (es : List UnmappedOrderEvent)
    (h : Twin S c d) (hS : es ≠ [] → ∀ key, c.reloadable env key → S key) :
    Twin S c (es.foldl (applyUnmapped env {}) d) := by
  induction es generalizing d with
  | nil => exact h
  | cons e es ih =>
      have hreload : Twin S c (d.applyUnmapped env {} e) := by
        cases e <;> exact h.reload_right steady (hS (List.cons_ne_nil _ _))
      exact ih hreload fun _ => hS (List.cons_ne_nil _ _)

end Ctx

/-! ## The paper market -/

namespace Paper

theorem fst_foldl {E M : Type} {f g : Paper × M → E → Paper × M}
    (h : ∀ p m m' e, (f (p, m) e).1 = (g (p, m') e).1) (es : List E) (p : Paper) (m m' : M) :
    (es.foldl f (p, m)).1 = (es.foldl g (p, m')).1 := by
  induction es generalizing p m m' with
  | nil => rfl
  | cons e es ih =>
      have hstep : g (p, m') e = ((f (p, m) e).1, (g (p, m') e).2) := Prod.ext (h p m m' e).symm rfl
      rw [List.foldl_cons, List.foldl_cons, hstep]
      exact ih _ _ _

variable (env : PaperEnv) (publish publish' : Bool)

theorem flushPaperHouseWs_fst {s t : Paper × List PaperWsMessage} (h : s.1 = t.1) :
    (flushPaperHouseWs env publish s).1 = (flushPaperHouseWs env publish' t).1 := by
  unfold flushPaperHouseWs
  dsimp only
  rw [h]
  apply fst_foldl
  intro p m m' market
  cases publish <;> cases publish' <;> rfl

theorem flushPaperStakeHistory_fst (chain : PaperChain) {s t : Paper × List PaperWsMessage}
    (h : s.1 = t.1) :
    (flushPaperStakeHistory env chain publish s).1 =
      (flushPaperStakeHistory env chain publish' t).1 := by
  unfold flushPaperStakeHistory
  dsimp only
  rw [h]
  apply fst_foldl
  intro p m m' market
  dsimp only
  split
  · rfl
  · cases publish <;> cases publish' <;> rfl

end Paper

/-! ## Blocks -/

namespace World

variable {env : Env} {paperChain : PaperChain}

/-- Two worlds with the same index, except for the books of some markets. -/
structure SameIndex (S : String → Prop) (w w' : World) : Prop where
  orders : w.ctx.store.orders = w'.ctx.store.orders
  registry : w.ctx.store.registry = w'.ctx.store.registry
  vaults : w.ctx.store.vaults = w'.ctx.store.vaults
  lastTradePrice : w.ctx.store.lastTradePrice = w'.ctx.store.lastTradePrice
  timestamp : w.ctx.store.indexingBlockTimestampSecs = w'.ctx.store.indexingBlockTimestampSecs
  paper : w.paper = w'.paper
  tradeSeq : w.ctx.store.books.tradeSeq = w'.ctx.store.books.tradeSeq
  /-- the trades and the last fill of every book -/
  tapes : ∀ key, (w.ctx.store.books.shard key).tape = (w'.ctx.store.books.shard key).tape
  /-- the books of all other markets -/
  books : ∀ key, ¬S key → w.ctx.store.books.shards.lookup key = w'.ctx.store.books.shards.lookup key

/-- The serial part of a block, up to the events without a market. -/
def applyGlobals (env : Env) (prepared : PreparedBlock) (w : World) : World :=
  prepared.block.globalEvents.foldl (applyGlobalEvent env prepared.blockNum)
    { w with ctx := w.ctx.beginBlock prepared.block }

/-- The markets whose books a publishing run of the block reloads. -/
def Reloads (env : Env) (prepared : PreparedBlock) (w : World) (key : String) : Prop :=
  prepared.unmapped ≠ [] ∧ (w.applyGlobals env prepared).ctx.reloadable env key

theorem foldl_applyUnmapped (opts : ProcessOpts) (es : List UnmappedOrderEvent) (w : World) :
    es.foldl (applyUnmapped env opts) w =
      { w with ctx := es.foldl (Ctx.applyUnmapped env opts) w.ctx } := by
  induction es generalizing w with
  | nil => rfl
  | cons e es ih =>
      rw [List.foldl_cons, ih]
      rfl

theorem twin_applySerial (steady : env.chain.Steady) (prepared : PreparedBlock) (w : World) :
    Ctx.Twin (w.Reloads env prepared) (w.applySerial env .quiet prepared).ctx
      (w.applySerial env {} prepared).ctx := by
  have hquiet : ∀ (es : List UnmappedOrderEvent) (c : Ctx),
      es.foldl (Ctx.applyUnmapped env .quiet) c = c := by
    intro es c
    exact List.foldl_fixed' (Ctx.applyUnmapped_quiet c) es
  change Ctx.Twin _
    (prepared.unmapped.foldl (applyUnmapped env .quiet) (w.applyGlobals env prepared)).ctx
    (prepared.unmapped.foldl (applyUnmapped env {}) (w.applyGlobals env prepared)).ctx
  rw [foldl_applyUnmapped, foldl_applyUnmapped]
  dsimp only
  rw [hquiet]
  exact (Ctx.Twin.refl _ _).applyUnmapped_right steady prepared.unmapped
    fun hne key hkey => ⟨hne, hkey⟩

/-- The paper market before the flushes is the one that the events left. -/
theorem paper_applyMarkets (opts : ProcessOpts) (prepared : PreparedBlock) (w : World) :
    ((w.applySerial env opts prepared).applyMarkets env opts prepared).paper =
      (w.applyGlobals env prepared).paper := by
  have hevents : ∀ (blockNum : UInt64) (spotMarket : String) (es : List MarketOrderEvent)
      (w : World), (w.applyMarketOrderEvents env opts blockNum spotMarket es).paper = w.paper := by
    intro blockNum spotMarket es
    induction es with
    | nil => exact fun w => rfl
    | cons e es ih => exact fun w => ih _
  have htasks : ∀ (tasks : List (Sigma fun _ : String => List MarketOrderEvent)) (w : World),
      (tasks.foldl (runMarketTask env opts prepared.blockNum) w).paper = w.paper := by
    intro tasks
    induction tasks with
    | nil => exact fun w => rfl
    | cons task tasks ih => exact fun w => (ih _).trans (hevents _ _ _ _)
  unfold applyMarkets
  rw [htasks]
  unfold applySerial
  rw [foldl_applyUnmapped]
  rfl

/-- A quiet run leaves the index that a publishing run leaves, except for the books
that the latter reloads, and of these the trades are the same too. -/
theorem sameIndex_quiet (steady : env.chain.Steady) (prepared : PreparedBlock) (w : World) :
    SameIndex (w.Reloads env prepared) (w.processPreparedBlock env paperChain .quiet prepared)
      (w.processPreparedBlock env paperChain {} prepared) := by
  let q := (w.applySerial env .quiet prepared).applyMarkets env .quiet prepared
  let l := (w.applySerial env {} prepared).applyMarkets env {} prepared
  have htwin : Ctx.Twin (w.Reloads env prepared) q.ctx l.ctx := by
    simp only [q, l, applyMarkets]
    rw [ctx_foldl (ctx_runMarketTask env .quiet prepared.blockNum),
      ctx_foldl (ctx_runMarketTask env {} prepared.blockNum)]
    exact Ctx.twin_foldl (fun task h => Ctx.twin_runMarketTask _ _ _ steady h task) _
      (twin_applySerial steady prepared w)
  have hpaper : q.paper = l.paper := by
    simp only [q, l]
    rw [paper_applyMarkets, paper_applyMarkets]
  have henv : q.paperEnv env prepared.blockNum = l.paperEnv env prepared.blockNum := by
    unfold paperEnv
    rw [htwin.tsMs]
  have hflushed : (q.endBlock env paperChain .quiet prepared).paper =
      (l.endBlock env paperChain {} prepared).paper := by
    unfold endBlock
    dsimp only
    rw [henv]
    exact Paper.flushPaperStakeHistory_fst _ _ _ _ (Paper.flushPaperHouseWs_fst _ _ _ hpaper)
  obtain ⟨v, hl, hbooks⟩ := htwin
  have hstore : l.ctx.store = { q.ctx.store with books := v.books } := by
    rw [hl]
    rfl
  change SameIndex _ (q.endBlock env paperChain .quiet prepared)
    (l.endBlock env paperChain {} prepared)
  refine ⟨?_, ?_, ?_, ?_, ?_, hflushed, ?_, ?_, ?_⟩
  all_goals
    simp only [endBlock, setWs]
    rw [hstore]
  · exact hbooks.tradeSeq
  · exact hbooks.tape
  · exact hbooks.outside

end World

namespace Sample

theorem steady_setting : setting.chain.Steady := ⟨fun _ _ _ _ => rfl, fun _ _ _ => rfl⟩

def noPaper : PaperChain := ⟨fun _ => none, fun _ => none⟩

/-- A market is created, and an order that nobody knows is cancelled, without a contract. -/
def strayCancel : ReceiptBlock :=
  ⟨1, "", 0, [⟨true, account,
    [⟨.global (.marketCreated ⟨market, "A", account⟩), none⟩,
      ⟨.order (.cancelled ⟨"1", .buy, 500000, 10⟩), none⟩]⟩]⟩

def unrouted : PreparedBlock := prepareBlock setting.sdk {} strayCancel

def fresh : World := { ctx := { store := {} } }

/-- The publishing run has loaded the book twice, the quiet one once. -/
theorem quiet_reloads_once :
    setting.chain.Steady ∧
      ((fresh.processPreparedBlock setting noPaper .quiet unrouted).ctx.store.books.shard
          market).sequence = 1 ∧
      ((fresh.processPreparedBlock setting noPaper {} unrouted).ctx.store.books.shard
          market).sequence = 2 := by
  refine ⟨steady_setting, ?_, ?_⟩
  · rw [World.ctx_processPreparedBlock]
    decide +kernel
  · rw [World.ctx_processPreparedBlock]
    decide +kernel

theorem sameIndex_unrouted :
    setting.chain.Steady ∧ World.SameIndex (fresh.Reloads setting unrouted)
      (fresh.processPreparedBlock setting noPaper .quiet unrouted)
      (fresh.processPreparedBlock setting noPaper {} unrouted) :=
  ⟨steady_setting, World.sameIndex_quiet steady_setting unrouted fresh⟩

end Sample

end ClobIndexer
