import ClobIndexer.Indexer.LevelMoves
import ClobIndexer.Indexer.RowsWritten
/-!
# The book rows a block writes

Books change in two ways: a load replaces a book by the chain's, a move changes
one level.  An observer notes something of each load and each move; what it notes
last along a block says which rows of `book_levels` and `book_meta` the write set
of the block holds, and the size that a written level is left with.
-/

namespace ClobIndexer

open Lib

def lastAlong {S E V : Type} (step : S → E → S) (note : S → E → Option V) :
    S → List E → Option V
  | _, [] => none
  | s, e :: es => (lastAlong step note (step s e) es).or (note s e)

theorem rel_lastAlong {S E V : Type} {step : S → E → S} {note : S → E → Option V}
    {R : Option V → S → S → Prop} (refl : ∀ s, R none s s)
    (trans : ∀ {w w' s t u}, R w s t → R w' t u → R (w'.or w) s u)
    (hstep : ∀ s e, R (note s e) s (step s e)) (s : S) (es : List E) :
    R (lastAlong step note s es) s (es.foldl step s) := by
  induction es generalizing s with
  | nil => exact refl s
  | cons e es ih => exact trans (hstep s e) (ih (step s e))

namespace GetOrderBook

def levels (book : GetOrderBook) : OrderSide → List ChainLevel
  | .buy => book.bestBids
  | .sell => book.bestAsks

end GetOrderBook

/-- What an observer notes of a load and of a move in a market. -/
structure BookWatch (V : Type) where
  load : Books → String → GetOrderBook → Option V
  move : Books → String → LevelMove → Option V

def levelWatch (key : LevelKey) : BookWatch UInt64 where
  load b spot book :=
    if key.1 = spot then
      (OrderSide.parse key.2.1).bind fun side =>
        match (BookTx.loaded (book.levels side) ∅).lookup key.2.2.toUInt64 with
        | some size => some size
        | none => if key.2.2.toUInt64 ∈ (b.shard spot).levels side then some 0 else none
    else none
  move b spot move :=
    if key = (spot, move.side.str, move.price.toInt64) then
      some (move.next ((b.shard spot).sizeAt move.side move.price))
    else none

def metaWatch (key : String) : BookWatch Unit where
  load _ spot _ := if key = spot then some () else none
  move _ spot _ := if key = spot then some () else none

/-! ## What is noted along a block -/

namespace Ctx

variable (env : Env) (opts : ProcessOpts) (blockNum : UInt64) {V : Type} (watch : BookWatch V)

def installs (spotMarket : String) (c : Ctx) : Option GetOrderBook :=
  (env.sdk.parseTokenContract spotMarket).bind fun contract =>
    let (answer, calls) :=
      getBookWithDepthFallback env.chain contract defaultBookDepth defaultBookDepth c.calls
    answer.bind fun chainBook =>
      match c.store.lastTradePrice.lookup (normalizeSpotMarketKey env.sdk spotMarket) with
      | some _ => some chainBook
      | none => (env.chain.getMarketInfo calls contract).map fun _ => chainBook

def notesHydrate (spotMarket : String) (c : Ctx) : Option V :=
  (c.installs env spotMarket).bind
    (watch.load c.store.books (normalizeSpotMarketKey env.sdk spotMarket))

def notesEnsure (spotMarket : String) (c : Ctx) : Option V :=
  if c.store.books.isChainHydrated env.sdk spotMarket then none
  else c.notesHydrate env watch spotMarket

def notesHydrateFor (spotMarket : String) (skip : Bool) (c : Ctx) : MarketOrderEvent → Option V
  | .created _ => if skip then none else c.notesEnsure env watch spotMarket
  | .updated _ => c.notesEnsure env watch spotMarket
  | .filled _ _ => c.notesEnsure env watch spotMarket
  | .cancelled _ => none
  | .executed _ => none

def notesEvent (spotMarket : String) (c : Ctx) (e : MarketOrderEvent) : Option V :=
  let (c, skip) := c.enter env spotMarket e
  ((e.levelMove skip).bind
    (watch.move (c.hydrateFor env spotMarket skip e).store.books
      (normalizeSpotMarketKey env.sdk spotMarket))).or
    (c.notesHydrateFor env watch spotMarket skip e)

def notesTask (c : Ctx) (task : Sigma fun _ : String => List MarketOrderEvent) : Option V :=
  lastAlong (applyMarketOrderEvent env opts blockNum task.1) (notesEvent env watch task.1)
    { c with ws := {} } task.2

def notesHydrateAll (c : Ctx) : Option V :=
  lastAlong (fun c spot => c.hydrateSpotFromChain env spot)
    (fun c spot => c.notesHydrate env watch spot) c c.store.registry.listSpotMarkets

def notesGlobal (c : Ctx) : GlobalEvent → Option V
  | .eventContractCreated created =>
      let c := c.onRegistry fun t => t.upsertMarket env.sdk (eventMarketOf env t.reg created)
      ((c.hydrateSpotFromChain env created.yesSpotMarket).notesHydrate env watch
        created.noSpotMarket).or (c.notesHydrate env watch created.yesSpotMarket)
  | .marketCreated created =>
      (c.setRegistry (c.store.registry.registerNamedSpotMarket env.sdk created.name
        created.marketAddress created.creator)).notesEnsure env watch created.marketAddress
  | _ => none

def notesUnmapped (c : Ctx) (_ : UnmappedOrderEvent) : Option V :=
  if opts.publishWs then c.notesHydrateAll env watch else none

def notesBlock (prepared : PreparedBlock) (c : Ctx) : Option V :=
  let begun := c.beginBlock prepared.block
  let globals := prepared.block.globalEvents.foldl (applyGlobalEvent env) begun
  (lastAlong (runMarketTask env opts prepared.blockNum) (notesTask env opts prepared.blockNum watch)
    (c.applySerial env opts prepared) prepared.markets.entries).or
    ((lastAlong (applyUnmapped env opts) (notesUnmapped env opts watch) globals
      prepared.unmapped).or
      (lastAlong (applyGlobalEvent env) (notesGlobal env watch) begun prepared.block.globalEvents))

/-! ## A relation traced by the notes -/

def bookTx (c : Ctx) : BookTx := ⟨c.store.books, c.ws.bookLevels, c.ws.bookMeta⟩

end Ctx

/-- A relation between books with their pending rows that every load and every move
satisfies with what is noted of it. -/
structure BookWatch.Traces {V : Type} (watch : BookWatch V) (sdk : Sdk)
    (R : Option V → BookTx → BookTx → Prop) : Prop where
  refl : ∀ t, R none t t
  trans : ∀ {w w' t t' t''}, R w t t' → R w' t' t'' → R (w'.or w) t t''
  load : ∀ t spotMarket chainBook lastTradePrice,
    R (watch.load t.books (normalizeSpotMarketKey sdk spotMarket) chainBook) t
      (t.hydrateFromChain sdk spotMarket chainBook lastTradePrice)
  move : ∀ t spotMarket move blockNum lastTradePrice,
    R (watch.move t.books (normalizeSpotMarketKey sdk spotMarket) move) t
      (t.changeLevel sdk spotMarket move.side move.price move.amount move.isAdd blockNum
        lastTradePrice).1
  /-- the fill marker and the trades leave no note -/
  shard : ∀ (t : BookTx) key book tradeSeq,
    (∀ side, book.levels side = (t.books.shard key).levels side) →
    R none t { t with books := { t.books.setShard key book with tradeSeq } }
  /-- a task starts from empty writes, which are merged in the end -/
  merge : ∀ {w : Option V} {b : Books} {t : BookTx} {levels metas}, R w ⟨b, .empty, .empty⟩ t →
    R w ⟨b, levels, metas⟩ ⟨t.books, levels.merge t.levels, metas.merge t.metas⟩

namespace BookWatch.Traces

variable {env : Env} {V : Type} {watch : BookWatch V} {R : Option V → BookTx → BookTx → Prop}

/-! ## Operations on the books -/

section Operations

variable {sdk : Sdk} (h : watch.Traces sdk R) (spotMarket : String) (t : BookTx)

include h

theorem unlessNothing (side : OrderSide) (price amount blockNum : UInt64) (isAdd : Bool)
    (hmove : ¬(price = 0 ∨ amount = 0)) :
    R ((LevelMove.unlessNothing side price isAdd amount).bind
        (watch.move t.books (normalizeSpotMarketKey sdk spotMarket))) t
      (t.changeLevel sdk spotMarket side price amount isAdd blockNum none).1 := by
  unfold LevelMove.unlessNothing
  rw [if_neg hmove]
  exact h.move t spotMarket ⟨side, price, isAdd, amount⟩ blockNum none

theorem applyCreated (side : OrderSide) (price amount blockNum : UInt64) :
    R ((LevelMove.unlessNothing side price true amount).bind
        (watch.move t.books (normalizeSpotMarketKey sdk spotMarket))) t
      (t.applyCreated sdk spotMarket side price amount blockNum).1 := by
  unfold BookTx.applyCreated
  split_ifs with h0
  · unfold LevelMove.unlessNothing
    rw [if_pos h0]
    exact h.refl t
  · exact h.unlessNothing spotMarket t side price amount blockNum true h0

theorem applyCancelled (side : OrderSide) (price amount blockNum : UInt64) :
    R ((LevelMove.unlessNothing side price false amount).bind
        (watch.move t.books (normalizeSpotMarketKey sdk spotMarket))) t
      (t.applyCancelled sdk spotMarket side price amount blockNum).1 := by
  unfold BookTx.applyCancelled
  split_ifs with h0
  · unfold LevelMove.unlessNothing
    rw [if_pos h0]
    exact h.refl t
  · exact h.unlessNothing spotMarket t side price amount blockNum false h0

theorem applyUpdated (e : OrderUpdatedEvent) (blockNum : UInt64) :
    R ((MarketOrderEvent.levelMove false (.updated e)).bind
        (watch.move t.books (normalizeSpotMarketKey sdk spotMarket))) t
      (t.applyUpdated sdk spotMarket e.side e.price e.oldAmount e.newAmount e.remainingAmount
        blockNum).1 := by
  rw [MarketOrderEvent.levelMove_updated]
  unfold BookTx.applyUpdated
  dsimp only
  split_ifs
  · exact h.refl t
  · exact h.move t spotMarket ⟨e.side, e.price, true, _⟩ blockNum none
  · exact h.move t spotMarket ⟨e.side, e.price, false, _⟩ blockNum none

theorem applyFilled (side : OrderSide) (price amount blockNum lastTradePrice : UInt64)
    (tradeTimeMs : Option UInt64) (nowMs : UInt64) :
    R ((LevelMove.unlessNothing side price false amount).bind
        (watch.move t.books (normalizeSpotMarketKey sdk spotMarket))) t
      (t.applyFilled sdk spotMarket side price amount blockNum lastTradePrice tradeTimeMs
        nowMs).1 := by
  unfold BookTx.applyFilled LevelMove.unlessNothing
  dsimp only
  split_ifs with h0 hlast
  · exact h.refl t
  · have hchange := h.move t spotMarket ⟨side, price, false, amount⟩ blockNum (some lastTradePrice)
    exact h.trans hchange (h.shard _ _ _ _ fun side => by cases side <;> rfl)
  · have hchange := h.move t spotMarket ⟨side, price, false, amount⟩ blockNum (some lastTradePrice)
    exact h.trans hchange (h.shard _ _ _ _ fun side => by cases side <;> rfl)

end Operations

/-! ## Events, tasks and blocks -/

variable (h : watch.Traces env.sdk R) (opts : ProcessOpts) (blockNum : UInt64)

include h

theorem hydrate (c : Ctx) (spotMarket : String) :
    R (c.notesHydrate env watch spotMarket) c.bookTx
      (c.hydrateSpotFromChain env spotMarket).bookTx := by
  unfold Ctx.notesHydrate Ctx.installs Ctx.hydrateSpotFromChain
  cases env.sdk.parseTokenContract spotMarket with
  | none => exact h.refl _
  | some contract =>
      dsimp only [Option.bind_some]
      generalize getBookWithDepthFallback env.chain contract defaultBookDepth defaultBookDepth
        c.calls = answer
      obtain ⟨answer, calls⟩ := answer
      cases answer with
      | none => exact h.refl _
      | some chainBook =>
          dsimp only [Option.bind_some]
          cases c.store.lastTradePrice.lookup (normalizeSpotMarketKey env.sdk spotMarket) with
          | some price => exact h.load c.bookTx spotMarket chainBook (some price)
          | none =>
              dsimp only
              cases env.chain.getMarketInfo calls contract with
              | none => exact h.refl _
              | some lastPrice => exact h.load c.bookTx spotMarket chainBook lastPrice

theorem ensure (c : Ctx) (spotMarket : String) :
    R (c.notesEnsure env watch spotMarket) c.bookTx
      (c.ensureChainHydrated env spotMarket).bookTx := by
  unfold Ctx.notesEnsure Ctx.ensureChainHydrated
  split_ifs
  · exact h.refl _
  · exact h.hydrate c spotMarket

theorem hydrateFor (spotMarket : String) (skip : Bool) (c : Ctx) (e : MarketOrderEvent) :
    R (c.notesHydrateFor env watch spotMarket skip e) c.bookTx
      (c.hydrateFor env spotMarket skip e).bookTx := by
  cases e with
  | created e =>
      unfold Ctx.notesHydrateFor Ctx.hydrateFor
      dsimp only
      split_ifs
      · exact h.refl _
      · exact h.ensure c spotMarket
  | updated e => exact h.ensure c spotMarket
  | filled e txSender => exact h.ensure c spotMarket
  | cancelled e => exact h.refl _
  | executed e => exact h.refl _

theorem applyToBook (spotMarket : String) (skip : Bool) (c : Ctx) (e : MarketOrderEvent) :
    R ((e.levelMove skip).bind
        (watch.move c.store.books (normalizeSpotMarketKey env.sdk spotMarket))) c.bookTx
      (c.applyToBook env opts blockNum spotMarket skip e).bookTx := by
  cases e with
  | created e =>
      unfold Ctx.applyToBook MarketOrderEvent.levelMove Ctx.applyOrderCreatedToBook
        OrderCreatedEvent.levelMove
      dsimp only
      split_ifs
      · exact h.refl _
      · cases e.orderType with
        | limit price => exact h.applyCreated spotMarket c.bookTx e.side price e.amount blockNum
        | market => exact h.refl _
        | trigger limitPrice => exact h.refl _
  | cancelled e =>
      exact h.applyCancelled spotMarket c.bookTx e.side e.price e.cancelledAmount blockNum
  | updated e => exact h.applyUpdated spotMarket c.bookTx e blockNum
  | filled e txSender =>
      exact h.applyFilled spotMarket c.bookTx e.side e.price e.fillAmount blockNum e.price _
        env.nowMs
  | executed e => exact h.refl _

omit h in
theorem bookTx_orders_finish (spotMarket : String) (skip : Bool) (c : Ctx) (e : MarketOrderEvent) :
    ((c.applyToOrders env opts blockNum spotMarket skip e).finish env opts blockNum spotMarket
      skip e).bookTx = c.bookTx := by
  obtain ⟨hub, hfinish⟩ := Ctx.finish_eq env opts blockNum spotMarket
    (c.applyToOrders env opts blockNum spotMarket skip e) skip e
  rw [hfinish]
  cases e with
  | created e =>
      unfold Ctx.settled Ctx.applyToOrders
      dsimp only
      split_ifs <;> rfl
  | cancelled e => rfl
  | updated e => rfl
  | filled e txSender =>
      unfold Ctx.settled Ctx.applyVaultFill
      dsimp only
      split <;> rfl
  | executed e =>
      unfold Ctx.settled Ctx.applyToOrders Ctx.publishExecuted
      dsimp only
      split_ifs <;> rfl

theorem event (spotMarket : String) (c : Ctx) (e : MarketOrderEvent) :
    R (c.notesEvent env watch spotMarket e) c.bookTx
      (c.applyMarketOrderEvent env opts blockNum spotMarket e).bookTx := by
  have henter : (c.enter env spotMarket e).1.bookTx = c.bookTx := by
    cases e <;> rfl
  rw [Ctx.applyMarketOrderEvent_eq]
  unfold Ctx.beforeOrders
  dsimp only
  rw [bookTx_orders_finish, ← henter]
  exact h.trans (h.hydrateFor spotMarket _ _ e) (h.applyToBook opts blockNum spotMarket _ _ e)

private theorem along {E : Type} {step : Ctx → E → Ctx} {note : Ctx → E → Option V}
    (hstep : ∀ c e, R (note c e) c.bookTx (step c e).bookTx) (c : Ctx) (es : List E) :
    R (lastAlong step note c es) c.bookTx (es.foldl step c).bookTx :=
  rel_lastAlong (R := fun w c d => R w c.bookTx d.bookTx) (fun c => h.refl c.bookTx) h.trans hstep
    c es

theorem task (c : Ctx) (task : Sigma fun _ : String => List MarketOrderEvent) :
    R (c.notesTask env opts blockNum watch task) c.bookTx
      (c.runMarketTask env opts blockNum task).bookTx := by
  have hevents := h.along (h.event opts blockNum task.1) { c with ws := {} } task.2
  exact h.merge hevents

theorem hydrateAll (c : Ctx) :
    R (c.notesHydrateAll env watch) c.bookTx (c.hydrateAllSpotMarkets env).bookTx :=
  h.along (fun c spot => h.hydrate c spot) c c.store.registry.listSpotMarkets

theorem global (c : Ctx) (e : GlobalEvent) :
    R (c.notesGlobal env watch e) c.bookTx (c.applyGlobalEvent env e).bookTx := by
  have hregistry : ∀ f, (c.onRegistry f).bookTx = c.bookTx := fun _ => rfl
  have hset : ∀ r, (c.setRegistry r).bookTx = c.bookTx := fun _ => rfl
  have hvaults : ∀ f, R none c.bookTx (c.onVaults f).bookTx := fun _ => h.refl _
  have hupserted : ∀ f, R none c.bookTx (c.onRegistry f).bookTx := fun _ => h.refl _
  cases e with
  | eventContractCreated created =>
      have hyes := h.hydrate (c.onRegistry fun t =>
        t.upsertMarket env.sdk (Ctx.eventMarketOf env t.reg created)) created.yesSpotMarket
      rw [hregistry] at hyes
      exact h.trans hyes (h.hydrate _ created.noSpotMarket)
  | marketCreated created =>
      have hensure := h.ensure (c.setRegistry (c.store.registry.registerNamedSpotMarket env.sdk
        created.name created.marketAddress created.creator)) created.marketAddress
      rw [hset] at hensure
      exact hensure
  | eventContractResolved marketAddress => exact hupserted _
  | vaultCreated created => exact hvaults _
  | vaultDeposited vault equity => exact hvaults _
  | vaultWithdrawn vault equity => exact hvaults _
  | vaultManagerUpdated vault newManager => exact hvaults _
  | vaultDepositPermissionUpdated vault allowDeposit => exact hvaults _
  | vaultClosed vault => exact hvaults _
  | secondary e => exact h.refl _

theorem unmapped (c : Ctx) (e : UnmappedOrderEvent) :
    R (c.notesUnmapped env opts watch e) c.bookTx (c.applyUnmapped env opts e).bookTx := by
  cases e <;>
  · unfold Ctx.notesUnmapped Ctx.applyUnmapped
    dsimp only
    split_ifs
    · exact h.hydrateAll c
    · exact h.refl _

theorem block (c : Ctx) (prepared : PreparedBlock) :
    R (c.notesBlock env opts watch prepared) ⟨c.store.books, .empty, .empty⟩
      (c.processPreparedBlock env opts prepared).bookTx := by
  have hglobals := h.along h.global (c.beginBlock prepared.block) prepared.block.globalEvents
  have hunmapped := h.trans hglobals (h.along (h.unmapped opts) _ prepared.unmapped)
  exact h.trans hunmapped (h.along (h.task opts prepared.blockNum) _ prepared.markets.entries)

end BookWatch.Traces

/-! ## Meta rows -/

/-- The pending rows of `book_meta` hold the market if it is noted. -/
theorem traces_metaWatch (sdk : Sdk) (lawful : LawfulSdk sdk) (key : String) :
    (metaWatch key).Traces sdk fun w t t' =>
      t'.metas.Touches key ↔ t.metas.Touches key ∨ w = some () where
  refl t := by simp
  trans := by
    intro w w' t t' t'' hw hw'
    rw [hw', hw]
    cases w' with
    | none => simp
    | some u => simp
  load t spotMarket chainBook lastTradePrice := by
    have hnorm := normalize_normalize lawful spotMarket
    unfold BookTx.hydrateFromChain metaWatch storeBookMeta
    dsimp only
    rw [TableWrites.touches_put, hnorm]
    simp
  move t spotMarket move blockNum lastTradePrice := by
    have hnorm := normalize_normalize lawful spotMarket
    unfold BookTx.changeLevel Books.applyLevelChange metaWatch storeBookMeta
    dsimp only
    rw [TableWrites.touches_put, hnorm]
    simp
  shard t key book tradeSeq _ := by simp
  merge := by
    intro w b t levels metas h
    dsimp only at h ⊢
    rw [TableWrites.touches_merge, h]
    have hempty : ¬(TableWrites.empty : TableWrites String BookMetaRow).Touches key :=
      TableWrites.not_touches_empty key
    simp [hempty]

/-! ## Level rows -/

namespace BookTx

theorem lookup_loaded (chainLevels : List ChainLevel) (acc : Dict UInt64 UInt64) (price : UInt64) :
    (loaded chainLevels acc).lookup price =
      ((loaded chainLevels ∅).lookup price).or (acc.lookup price) := by
  unfold loaded
  induction chainLevels generalizing acc with
  | nil => simp
  | cons level rest ih =>
      rw [List.foldl_cons, List.foldl_cons]
      split_ifs with h0
      · exact ih acc
      · rw [ih, ih (AList.insert level.price level.totalQuantity ∅), Option.or_assoc]
        congr 1
        rw [Dict.lookup_insert_ite, Dict.lookup_insert_ite]
        split_ifs <;> simp

variable {sdk : Sdk} (rows : Table LevelKey Int64)

theorem apply_loadSide_row (key : String) (side : OrderSide) (chainLevels : List ChainLevel)
    (acc : Dict UInt64 UInt64 × TableWrites LevelKey Int64) (k : LevelKey) :
    (loadSide sdk key side chainLevels acc).2.apply rows k =
      if k.1 = normalizeSpotMarketKey sdk key ∧ k.2.1 = side.str then
        ((loaded chainLevels ∅).lookup k.2.2.toUInt64).elim (acc.2.apply rows k) positiveRow
      else acc.2.apply rows k := by
  induction chainLevels generalizing acc with
  | nil =>
      unfold loadSide loaded
      simp
  | cons level rest ih =>
      have hloaded : loaded (level :: rest) ∅ =
          if level.totalQuantity = 0 then loaded rest ∅
          else loaded rest (AList.insert level.price level.totalQuantity ∅) := by
        unfold loaded
        rw [List.foldl_cons]
        split_ifs <;> rfl
      by_cases h0 : level.totalQuantity = 0
      · have hside : loadSide sdk key side (level :: rest) acc = loadSide sdk key side rest acc := by
          unfold loadSide
          rw [List.foldl_cons, if_pos h0]
        rw [hside, hloaded, if_pos h0]
        exact ih acc
      · have hside : loadSide sdk key side (level :: rest) acc =
            loadSide sdk key side rest
              (acc.1.insert level.price level.totalQuantity,
                storeBookLevel sdk key side.str level.price.toInt64 level.totalQuantity.toInt64
                  acc.2) := by
          unfold loadSide
          rw [List.foldl_cons, if_neg h0]
        rw [hside, ih, hloaded, if_neg h0,
          lookup_loaded rest (AList.insert level.price level.totalQuantity ∅), apply_storeBookLevel]
        obtain ⟨spot, text, price⟩ := k
        have hp : price = level.price.toInt64 ↔ price.toUInt64 = level.price :=
          ⟨fun h => by rw [h]; rfl, fun h => by rw [← h]; rfl⟩
        dsimp only
        by_cases hat : spot = normalizeSpotMarketKey sdk key ∧ text = side.str
        · rw [if_pos hat, if_pos hat, Function.update_apply, Dict.lookup_insert_ite]
          cases (loaded rest ∅).lookup price.toUInt64 with
          | some size => rfl
          | none =>
              simp only [Option.elim_none, Option.none_or, Prod.mk.injEq, hat.1, hat.2, true_and, hp]
              split_ifs <;> simp
        · rw [if_neg hat, if_neg hat, Function.update_of_ne]
          intro heq
          simp only [Prod.mk.injEq] at heq
          exact hat ⟨heq.1, heq.2.1⟩

theorem apply_changeLevel_row (lawful : LawfulSdk sdk) (t : BookTx) (spotMarket : String)
    (move : LevelMove) (blockNum : UInt64) (lastTradePrice : Option UInt64) (k : LevelKey) :
    (t.changeLevel sdk spotMarket move.side move.price move.amount move.isAdd blockNum
        lastTradePrice).1.levels.apply rows k =
      ((levelWatch k).move t.books (normalizeSpotMarketKey sdk spotMarket) move).elim
        (t.levels.apply rows k) positiveRow := by
  unfold changeLevel Books.applyLevelChange levelWatch LevelMove.next
  dsimp only
  have hnorm := normalize_normalize lawful spotMarket
  generalize normalizeSpotMarketKey sdk spotMarket = key at hnorm ⊢
  generalize (if move.isAdd = true then
      Word.satAdd ((t.books.shard key).sizeAt move.side move.price) move.amount
    else Word.satSub ((t.books.shard key).sizeAt move.side move.price) move.amount) = next
  rw [apply_changedLevel t.levels hnorm, Function.update_apply]
  split_ifs <;> rfl

theorem apply_dropBoth_row {key : String} (hkey : normalizeSpotMarketKey sdk key = key)
    (book : SpotBook) (w : TableWrites LevelKey Int64) (side : OrderSide) (price : Int64) :
    (dropSide sdk key .sell book.asks (dropSide sdk key .buy book.bids w)).apply rows
        (key, side.str, price) =
      if price.toUInt64 ∈ book.levels side then none else w.apply rows (key, side.str, price) := by
  have hsides : OrderSide.str .sell ≠ OrderSide.str .buy := by decide
  rw [apply_dropSide, apply_dropSide, hkey]
  cases side with
  | buy =>
      rw [if_neg fun hc => hsides hc.2.1.symm]
      exact if_congr ⟨fun hc => hc.2.2, fun hc => ⟨rfl, rfl, hc⟩⟩ rfl rfl
  | sell =>
      rw [if_neg fun hc : _ ∧ OrderSide.str .sell = OrderSide.str .buy ∧ _ => hsides hc.2.1]
      exact if_congr ⟨fun hc => hc.2.2, fun hc => ⟨rfl, rfl, hc⟩⟩ rfl rfl

theorem apply_hydrateFromChain_row (lawful : LawfulSdk sdk) (t : BookTx) (spotMarket : String)
    (chainBook : GetOrderBook) (lastTradePrice : Option UInt64) (k : LevelKey) :
    (t.hydrateFromChain sdk spotMarket chainBook lastTradePrice).levels.apply rows k =
      ((levelWatch k).load t.books (normalizeSpotMarketKey sdk spotMarket) chainBook).elim
        (t.levels.apply rows k) positiveRow := by
  unfold hydrateFromChain levelWatch
  dsimp only
  have hnorm := normalize_normalize lawful spotMarket
  generalize normalizeSpotMarketKey sdk spotMarket = key at hnorm ⊢
  rw [apply_loadSide_row, apply_loadSide_row, hnorm]
  obtain ⟨spot, text, price⟩ := k
  dsimp only
  by_cases hspot : spot = key
  · subst hspot
    have hsides : OrderSide.str .sell ≠ OrderSide.str .buy := by decide
    rw [if_pos rfl]
    cases hparse : OrderSide.parse text with
    | none =>
        have hne : ∀ side : OrderSide, text ≠ side.str := by
          intro side htext
          rw [htext, OrderSide.parse_str] at hparse
          cases hparse
        rw [apply_dropSide, apply_dropSide]
        simp [hne]
    | some side =>
        rw [OrderSide.parse_eq_some_iff] at hparse
        subst hparse
        rw [apply_dropBoth_row rows hnorm]
        generalize hdropped : (if price.toUInt64 ∈ (t.books.shard spot).levels side then none
          else t.levels.apply rows (spot, side.str, price)) = dropped
        -- each side is loaded by one of the two loops
        have hloops : (if spot = spot ∧ side.str = OrderSide.str .sell then
              ((loaded chainBook.bestAsks ∅).lookup price.toUInt64).elim
                (if spot = spot ∧ side.str = OrderSide.str .buy then
                  ((loaded chainBook.bestBids ∅).lookup price.toUInt64).elim dropped positiveRow
                else dropped) positiveRow
            else if spot = spot ∧ side.str = OrderSide.str .buy then
              ((loaded chainBook.bestBids ∅).lookup price.toUInt64).elim dropped positiveRow
            else dropped) =
            ((loaded (chainBook.levels side) ∅).lookup price.toUInt64).elim dropped positiveRow := by
          cases side with
          | buy =>
              rw [if_neg fun hc => hsides hc.2.symm, if_pos ⟨rfl, rfl⟩]
              rfl
          | sell =>
              rw [if_pos ⟨rfl, rfl⟩, if_neg fun hc => hsides hc.2]
              rfl
        refine hloops.trans ?_
        dsimp only [Option.bind_some]
        cases (loaded (chainBook.levels side) ∅).lookup price.toUInt64 with
        | some size => rfl
        | none =>
            dsimp only [Option.elim_none]
            rw [← hdropped]
            split_ifs <;> rfl
  · simp only [hspot, false_and, if_false]
    rw [apply_dropSide, apply_dropSide, hnorm]
    simp [hspot]

end BookTx

structure LevelMoved (key : LevelKey) (written : Option UInt64) (t t' : BookTx) : Prop where
  pending : ∀ rows, t'.levels.apply rows key = written.elim (t.levels.apply rows key) positiveRow
  exported : castLevelView t'.books key = written.elim (castLevelView t.books key) castRow

theorem castLevelView_of_shard_eq {b b' : Books} {key : LevelKey}
    (h : ∀ side, (b'.shard key.1).levels side = (b.shard key.1).levels side) :
    castLevelView b' key = castLevelView b key := by
  unfold castLevelView SpotBook.sizeAt
  simp only [h]

theorem castLevelView_setShard_of_ne (b : Books) {spot : String} (book : SpotBook) {key : LevelKey}
    (h : key.1 ≠ spot) : castLevelView (b.setShard spot book) key = castLevelView b key := by
  apply castLevelView_of_shard_eq
  intro side
  rw [Books.shard_setShard, if_neg h]

theorem traces_levelWatch (sdk : Sdk) (lawful : LawfulSdk sdk) (key : LevelKey) :
    (levelWatch key).Traces sdk (LevelMoved key) where
  refl t := ⟨fun _ => rfl, rfl⟩
  trans := by
    intro w w' t t' t'' h h'
    cases w' with
    | none => exact ⟨fun rows => (h'.pending rows).trans (h.pending rows),
        h'.exported.trans h.exported⟩
    | some size => exact ⟨h'.pending, h'.exported⟩
  load t spotMarket chainBook lastTradePrice := by
    refine ⟨fun rows => BookTx.apply_hydrateFromChain_row rows lawful t spotMarket chainBook
      lastTradePrice key, ?_⟩
    obtain ⟨-, hbids, hasks⟩ := BookTx.shard_hydrateFromChain sdk spotMarket t chainBook
      lastTradePrice
    unfold levelWatch
    dsimp only
    by_cases hspot : key.1 = normalizeSpotMarketKey sdk spotMarket
    · have hlevels : ∀ side, ((t.hydrateFromChain sdk spotMarket chainBook
          lastTradePrice).books.shard key.1).levels side =
          BookTx.loaded (chainBook.levels side) ∅ := by
        intro side
        rw [hspot]
        cases side with
        | buy => exact hbids
        | sell => exact hasks
      rw [if_pos hspot]
      unfold castLevelView SpotBook.sizeAt
      cases OrderSide.parse key.2.1 with
      | none => rfl
      | some side =>
          dsimp only [Option.bind_some]
          rw [hlevels, ← hspot]
          cases (BookTx.loaded (chainBook.levels side) ∅).lookup key.2.2.toUInt64 with
          | some size => rfl
          | none =>
              dsimp only
              split_ifs with hmem
              · rfl
              · rw [AList.lookup_eq_none.mpr hmem]
                rfl
    · rw [if_neg hspot]
      exact castLevelView_setShard_of_ne t.books _ hspot
  move t spotMarket move blockNum lastTradePrice := by
    refine ⟨fun rows => BookTx.apply_changeLevel_row rows lawful t spotMarket move blockNum
      lastTradePrice key, ?_⟩
    have hlevels := (BookTx.movesLevel_changeLevel sdk spotMarket t move.side move.price
      move.amount blockNum move.isAdd lastTradePrice).2
    have hother : key.1 ≠ normalizeSpotMarketKey sdk spotMarket →
        castLevelView (t.changeLevel sdk spotMarket move.side move.price move.amount move.isAdd
          blockNum lastTradePrice).1.books key = castLevelView t.books key :=
      castLevelView_setShard_of_ne t.books _
    generalize (t.changeLevel sdk spotMarket move.side move.price move.amount move.isAdd blockNum
      lastTradePrice).1.books = b' at hlevels hother ⊢
    generalize normalizeSpotMarketKey sdk spotMarket = spot at hlevels hother ⊢
    obtain ⟨spot', text, price⟩ := key
    unfold levelWatch
    dsimp only at hother ⊢
    by_cases hspot : spot' = spot
    · subst hspot
      have hsize : ∀ side p, (b'.shard spot').sizeAt side p =
          if side = move.side ∧ p = move.price then
            move.next ((t.books.shard spot').sizeAt move.side move.price)
          else (t.books.shard spot').sizeAt side p := by
        intro side p
        have hset := SpotBook.sizeAt_setSize (t.books.shard spot') move.side side move.price p
          (move.next ((t.books.shard spot').sizeAt move.side move.price))
        rw [← hset]
        unfold SpotBook.sizeAt
        rw [hlevels]
        rfl
      have hp : price = move.price.toInt64 ↔ price.toUInt64 = move.price :=
        ⟨fun h => by rw [h]; rfl, fun h => by rw [← h]; rfl⟩
      unfold castLevelView
      dsimp only
      cases hparse : OrderSide.parse text with
      | none =>
          have hne : text ≠ move.side.str := by
            intro htext
            rw [htext, OrderSide.parse_str] at hparse
            cases hparse
          simp [hne]
      | some side =>
          rw [OrderSide.parse_eq_some_iff] at hparse
          subst hparse
          have hside : side.str = move.side.str ↔ side = move.side :=
            OrderSide.str_injective.eq_iff
          simp only [Option.bind_some, hsize, Prod.mk.injEq, true_and, hside, hp]
          split_ifs <;> rfl
    · rw [if_neg fun heq => hspot (congrArg Prod.fst heq)]
      exact hother hspot
  shard t spot book tradeSeq hlevels := by
    refine ⟨fun _ => rfl, ?_⟩
    apply castLevelView_of_shard_eq
    intro side
    change ((t.books.setShard spot book).shard key.1).levels side = _
    rw [Books.shard_setShard]
    split_ifs with hkey
    · rw [hlevels, hkey]
    · rfl
  merge := by
    intro w b t levels metas h
    refine ⟨fun rows => ?_, h.exported⟩
    have hpending := h.pending (levels.apply rows)
    dsimp only at hpending ⊢
    rw [TableWrites.apply_merge, hpending, TableWrites.apply_empty]

end ClobIndexer
