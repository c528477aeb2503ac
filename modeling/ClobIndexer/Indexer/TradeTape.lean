import ClobIndexer.Candles
import ClobIndexer.Indexer.BookShard
import ClobIndexer.Indexer.World
/-!
# The trade tape and the candles

A trade reaches the indexer as two fills, one of each side, next to each other.  The
book takes a fill for the second half of a trade when it looks like the fill before
it; the candles count the buy side.  So the tape has one entry for each fill that
differs from the one before, and the candles one for each trade.

`on_trade` reads the wall clock at each trade.  Here the clock stands still over a block: it
decides which candle a trade falls in, and each trade is counted once whichever that is.
-/

namespace ClobIndexer

open Lib

/-! ## How often a fill differs from the one before -/

/-- The fills that differ from the one before. -/
def changes : Option FillKey → List FillKey → Nat
  | _, [] => 0
  | last, key :: keys => (if last = some key then 0 else 1) + changes (some key) keys

theorem changes_append (last : Option FillKey) (keys keys' : List FillKey) :
    changes last (keys ++ keys') = changes last keys + changes (keys.getLast?.or last) keys' := by
  induction keys generalizing last with
  | nil => simp [changes]
  | cons key keys ih =>
      have hlast : keys.getLast?.or (some key) = (key :: keys).getLast?.or last := by
        rw [List.getLast?_cons]
        cases keys.getLast? <;> rfl
      rw [List.cons_append, changes, changes, ih, hlast, Nat.add_assoc]

theorem changes_halves (last : Option FillKey) (keys : List FillKey) :
    changes last (keys.flatMap fun key => [key, key]) = changes last keys := by
  induction keys generalizing last with
  | nil => rfl
  | cons key keys ih =>
      rw [List.flatMap_cons, changes_append]
      simp [changes, ih]

theorem changes_le (last : Option FillKey) (keys : List FillKey) :
    changes last keys ≤ keys.length := by
  induction keys generalizing last with
  | nil => exact le_refl 0
  | cons key keys ih =>
      have hrest := ih (some key)
      rw [changes, List.length_cons]
      split_ifs <;> omega

/-- Every fill counts exactly when none repeats the one before. -/
theorem changes_eq_length_iff (last : Option FillKey) (keys : List FillKey) :
    changes last keys = keys.length ↔ (last :: keys.map some).IsChain (· ≠ ·) := by
  induction keys generalizing last with
  | nil => simp [changes]
  | cons key keys ih =>
      have hrest := changes_le (some key) keys
      rw [changes, List.length_cons, List.map_cons, List.isChain_cons_cons, ← ih]
      split_ifs with heq
      · constructor
        · intro h
          omega
        · exact fun h => absurd heq h.1
      · constructor
        · intro h
          exact ⟨heq, by omega⟩
        · intro h
          omega

/-! ## What a fill does to the tape -/

def tradesOn (sent : List (OrderBookDelta × QuoteDelta)) : List RecentTrade :=
  sent.filterMap fun message => message.1.trade

/-- The fills have been noted in the book, and the trades that they brought pushed. -/
structure SpotBook.Tapes (fills : List FillKey) (pushed : List RecentTrade)
    (book book' : SpotBook) : Prop where
  lastFill : book'.lastFill = fills.getLast?.or book.lastFill
  trades : book'.trades =
    pushed.foldl (fun tape trade => (trade :: tape).take recentTradeLimit) book.trades
  count : pushed.length = changes book.lastFill fills

namespace SpotBook

variable {fills fills' : List FillKey} {pushed pushed' : List RecentTrade}
  {book book' book'' : SpotBook}

theorem tapes_of_tape (h : book'.tape = book.tape) : Tapes [] [] book book' :=
  ⟨congrArg Prod.fst h, congrArg Prod.snd h, rfl⟩

theorem Tapes.trans (h : Tapes fills pushed book book') (h' : Tapes fills' pushed' book' book'') :
    Tapes (fills ++ fills') (pushed ++ pushed') book book'' := by
  constructor
  · rw [h'.lastFill, h.lastFill, List.getLast?_append, Option.or_assoc]
  · rw [h'.trades, h.trades, List.foldl_append]
  · rw [List.length_append, h.count, h'.count, h.lastFill, changes_append]

theorem tapes_noted (tradeSeq : UInt64) (side : OrderSide) (fill : FillKey)
    (tradeTimeMs : Option UInt64) (nowMs : UInt64) :
    ∃ pushed, Tapes [fill] pushed book (book.noted tradeSeq side fill tradeTimeMs nowMs) ∧
      pushed = if book.lastFill = some fill then []
        else [(Books.pushTrade tradeSeq side fill.priceRaw fill.sizeRaw fill.blockNum tradeTimeMs
          nowMs book).2.2] := by
  refine ⟨_, ?_, rfl⟩
  unfold noted
  dsimp only
  by_cases heq : book.lastFill = some fill
  · rw [if_pos heq, if_pos heq]
    exact ⟨rfl, rfl, by simp [changes, heq]⟩
  · rw [if_neg heq, if_neg heq]
    exact ⟨rfl, rfl, by simp [changes, heq]⟩

end SpotBook

variable {env : Env} {blockNum : UInt64} {spotMarket : String}

namespace MarketOrderEvent

/-- How the book remembers the fill of an event; a fill of nothing leaves no trace. -/
def fillKey (blockNum : UInt64) : MarketOrderEvent → Option FillKey
  | .filled e _ =>
      if e.price = 0 ∨ e.fillAmount = 0 then none else some ⟨blockNum, e.price, e.fillAmount⟩
  | .created _ => none
  | .cancelled _ => none
  | .updated _ => none
  | .executed _ => none

end MarketOrderEvent

namespace BookTx

variable {sdk : Sdk} {key : String}

theorem tape_changeLevel (t : BookTx) (side : OrderSide) (priceRaw amountRaw : UInt64)
    (isAdd : Bool) (blockNum : UInt64) (lastTradePrice : Option UInt64) :
    ((t.changeLevel sdk spotMarket side priceRaw amountRaw isAdd blockNum
      lastTradePrice).1.books.shard key).tape = (t.books.shard key).tape := by
  rw [books_changeLevel, Books.shard_setShard]
  split_ifs with heq
  · rw [heq, SpotBook.tape_levelled]
  · rfl

theorem tapes_withQuote_changeLevel (t : BookTx) (side : OrderSide) (priceRaw amountRaw : UInt64)
    (isAdd : Bool) (lastTradePrice : Option UInt64) :
    let r := withQuote sdk spotMarket
      (t.changeLevel sdk spotMarket side priceRaw amountRaw isAdd blockNum lastTradePrice)
    SpotBook.Tapes [] (tradesOn r.2.toList) (t.books.shard key) (r.1.books.shard key) :=
  SpotBook.tapes_of_tape (tape_changeLevel t side priceRaw amountRaw isAdd blockNum lastTradePrice)

theorem tapes_refl (t : BookTx) :
    SpotBook.Tapes [] (tradesOn (none : Option (OrderBookDelta × QuoteDelta)).toList)
      (t.books.shard key) (t.books.shard key) :=
  SpotBook.tapes_of_tape rfl

variable (sdk) in
theorem tapes_applyFilled (t : BookTx) (spotMarket : String) (side : OrderSide)
    (priceRaw fillAmountRaw blockNum lastTradePrice : UInt64) (tradeTimeMs : Option UInt64)
    (nowMs : UInt64) :
    let r := t.applyFilled sdk spotMarket side priceRaw fillAmountRaw blockNum lastTradePrice
      tradeTimeMs nowMs
    SpotBook.Tapes
      (if priceRaw = 0 ∨ fillAmountRaw = 0 then [] else [⟨blockNum, priceRaw, fillAmountRaw⟩])
      (tradesOn r.2.toList) (t.books.shard (normalizeSpotMarketKey sdk spotMarket))
      (r.1.books.shard (normalizeSpotMarketKey sdk spotMarket)) := by
  intro r
  by_cases h0 : priceRaw = 0 ∨ fillAmountRaw = 0
  · have hr : r = (t, none) := if_pos h0
    rw [hr, if_pos h0]
    exact tapes_refl t
  · let key := normalizeSpotMarketKey sdk spotMarket
    let fill : FillKey := ⟨blockNum, priceRaw, fillAmountRaw⟩
    let book := t.books.shard key
    let taken := book.levelled side priceRaw fillAmountRaw false (some lastTradePrice)
    have hbook : r.1.books.shard key =
        taken.noted t.books.tradeSeq side fill tradeTimeMs nowMs := by
      have hbooks := books_applyFilled sdk t spotMarket side priceRaw fillAmountRaw blockNum
        lastTradePrice tradeTimeMs nowMs
      rw [if_neg h0] at hbooks
      change (r.1.books).shard key = _
      rw [show r.1.books = _ from hbooks]
      exact (Books.shard_setShard t.books key key _).trans (if_pos rfl)
    have htape : SpotBook.Tapes [] [] book taken :=
      SpotBook.tapes_of_tape (SpotBook.tape_levelled ..)
    obtain ⟨pushed, hnoted, hpushed⟩ := @SpotBook.tapes_noted taken t.books.tradeSeq side
      fill tradeTimeMs nowMs
    have hsent : tradesOn r.2.toList = pushed := by
      rw [hpushed, SpotBook.lastFill_levelled]
      simp only [r, applyFilled, if_neg h0]
      have hshard : ((t.changeLevel sdk spotMarket side priceRaw fillAmountRaw false blockNum
          (some lastTradePrice)).1.books.shard key).lastFill = book.lastFill :=
        congrArg Prod.fst (tape_changeLevel t side priceRaw fillAmountRaw false blockNum _)
      rw [hshard]
      split_ifs
      · rfl
      · rfl
    rw [if_neg h0, hbook, hsent]
    exact htape.trans hnoted

end BookTx

namespace Ctx

def Tapes (key : String) (fills : List FillKey) (c c' : Ctx) : Prop :=
  ∃ sent, c'.feed = c.feed ++ sent ∧
    SpotBook.Tapes fills (tradesOn sent) (c.store.books.shard key) (c'.store.books.shard key)

variable {key : String} {fills fills' : List FillKey} {c c' c'' : Ctx}

theorem Tapes.trans (h : c.Tapes key fills c') (h' : c'.Tapes key fills' c'') :
    c.Tapes key (fills ++ fills') c'' := by
  obtain ⟨sent, hfeed, hbook⟩ := h
  obtain ⟨sent', hfeed', hbook'⟩ := h'
  refine ⟨sent ++ sent', ?_, ?_⟩
  · rw [hfeed', hfeed, List.append_assoc]
  · unfold tradesOn
    rw [List.filterMap_append]
    exact hbook.trans hbook'

theorem tapes_of_eq (hfeed : c'.feed = c.feed) (hbooks : c'.store.books = c.store.books) :
    c.Tapes key [] c' :=
  ⟨[], by rw [hfeed, List.append_nil], SpotBook.tapes_of_tape (by rw [hbooks])⟩

theorem tapes_onBooks (f : BookTx → BookTx × Option (OrderBookDelta × QuoteDelta))
    (h : ∀ t, SpotBook.Tapes fills (tradesOn (f t).2.toList) (t.books.shard key)
      ((f t).1.books.shard key)) :
    c.Tapes key fills (c.onBooks true f) :=
  ⟨_, rfl, h _⟩

theorem tapes_ensureChainHydrated (c : Ctx) :
    c.Tapes key [] (c.ensureChainHydrated env spotMarket) := by
  unfold ensureChainHydrated
  split_ifs
  · exact tapes_of_eq rfl rfl
  · rcases hydrateSpotFromChain_cases env spotMarket c with
      ⟨calls, heq⟩ | ⟨calls, chainBook, lastPrice, heq⟩
    · rw [heq]
      exact tapes_of_eq rfl rfl
    · rw [heq]
      refine ⟨[], (List.append_nil _).symm, SpotBook.tapes_of_tape ?_⟩
      change ((BookTx.hydrateFromChain env.sdk spotMarket chainBook lastPrice _).books.shard
        key).tape = _
      rw [BookTx.books_hydrateFromChain, Books.shard_setShard]
      split_ifs with hkey
      · rw [hkey]
        rfl
      · rfl

theorem tapes_applyToBook (c : Ctx) (skip : Bool) (e : MarketOrderEvent) :
    c.Tapes (normalizeSpotMarketKey env.sdk spotMarket) (e.fillKey blockNum).toList
      (c.applyToBook env ⟨true⟩ blockNum spotMarket skip e) := by
  cases e with
  | created e =>
      unfold applyToBook
      dsimp only
      split_ifs
      · exact tapes_of_eq rfl rfl
      · unfold applyOrderCreatedToBook
        cases e.orderType with
        | limit price =>
            refine tapes_onBooks _ fun t => ?_
            unfold BookTx.applyCreated
            split_ifs
            · exact BookTx.tapes_refl t
            · exact BookTx.tapes_withQuote_changeLevel t e.side price e.amount true none
        | market => exact tapes_of_eq rfl rfl
        | trigger limitPrice => exact tapes_of_eq rfl rfl
  | cancelled e =>
      refine tapes_onBooks _ fun t => ?_
      unfold BookTx.applyCancelled
      split_ifs
      · exact BookTx.tapes_refl t
      · exact BookTx.tapes_withQuote_changeLevel t e.side e.price e.cancelledAmount false none
  | updated e =>
      refine tapes_onBooks _ fun t => ?_
      unfold BookTx.applyUpdated
      dsimp only
      split_ifs
      · exact BookTx.tapes_refl t
      · exact BookTx.tapes_withQuote_changeLevel t e.side e.price _ true none
      · exact BookTx.tapes_withQuote_changeLevel t e.side e.price _ false none
  | filled e txSender =>
      refine tapes_onBooks _ fun t => ?_
      have hfilled := BookTx.tapes_applyFilled env.sdk t spotMarket e.side e.price e.fillAmount
        blockNum e.price (if c.store.tsMs = 0 then none else some c.store.tsMs) env.nowMs
      have hkeys : ((MarketOrderEvent.filled e txSender).fillKey blockNum).toList =
          if e.price = 0 ∨ e.fillAmount = 0 then [] else [⟨blockNum, e.price, e.fillAmount⟩] := by
        change (if _ then _ else _ : Option FillKey).toList = _
        split_ifs <;> rfl
      rw [hkeys]
      exact hfilled
  | executed e => exact tapes_of_eq rfl rfl

/-- What one event does to the tape of its market: the step on the book does it. -/
theorem tapes_applyMarketOrderEvent (c : Ctx) (e : MarketOrderEvent) :
    c.Tapes (normalizeSpotMarketKey env.sdk spotMarket) (e.fillKey blockNum).toList
      (c.applyMarketOrderEvent env ⟨true⟩ blockNum spotMarket e) := by
  let key := normalizeSpotMarketKey env.sdk spotMarket
  let entered := c.enter env spotMarket e
  let loaded := entered.1.hydrateFor env spotMarket entered.2 e
  let booked := loaded.applyToBook env ⟨true⟩ blockNum spotMarket entered.2 e
  let ordered := booked.applyToOrders env ⟨true⟩ blockNum spotMarket entered.2 e
  have hsteps : c.applyMarketOrderEvent env ⟨true⟩ blockNum spotMarket e =
      ordered.finish env ⟨true⟩ blockNum spotMarket entered.2 e :=
    (execs_steps env ⟨true⟩ blockNum spotMarket e (c, false)).symm
  have henter : c.Tapes key [] entered.1 := by
    cases e <;> exact tapes_of_eq rfl rfl
  have hload : entered.1.Tapes key [] loaded := by
    simp only [loaded]
    cases e with
    | created e =>
        unfold hydrateFor
        dsimp only
        split_ifs
        · exact tapes_of_eq rfl rfl
        · exact tapes_ensureChainHydrated _
    | cancelled e => exact tapes_of_eq rfl rfl
    | updated e => exact tapes_ensureChainHydrated _
    | filled e txSender => exact tapes_ensureChainHydrated _
    | executed e => exact tapes_of_eq rfl rfl
  have hbook : loaded.Tapes key (e.fillKey blockNum).toList booked :=
    tapes_applyToBook loaded entered.2 e
  have horders : booked.Tapes key [] ordered := by
    simp only [ordered]
    cases e with
    | created e =>
        unfold applyToOrders
        dsimp only
        split_ifs
        · exact tapes_of_eq rfl rfl
        · exact tapes_of_eq rfl rfl
    | cancelled e => exact tapes_of_eq rfl rfl
    | updated e => exact tapes_of_eq rfl rfl
    | filled e txSender => exact tapes_of_eq rfl rfl
    | executed e =>
        unfold applyToOrders
        dsimp only
        rw [if_pos rfl]
        split_ifs
        · exact tapes_of_eq rfl rfl
        · obtain ⟨hub, hhub⟩ := publishExecuted_hub
            (booked.indexMarketOrderExecuted env e spotMarket).1 spotMarket blockNum e
            (booked.indexMarketOrderExecuted env e spotMarket).2
          rw [hhub]
          exact tapes_of_eq rfl rfl
  have hfinish : ordered.Tapes key []
      (ordered.finish env ⟨true⟩ blockNum spotMarket entered.2 e) := by
    obtain ⟨hub, hhub⟩ := finish_eq env ⟨true⟩ blockNum spotMarket ordered entered.2 e
    rw [hhub]
    cases e with
    | filled e txSender =>
        unfold settled applyVaultFill
        dsimp only
        split
        · exact tapes_of_eq rfl rfl
        · exact tapes_of_eq rfl rfl
    | created e => exact tapes_of_eq rfl rfl
    | cancelled e => exact tapes_of_eq rfl rfl
    | updated e => exact tapes_of_eq rfl rfl
    | executed e => exact tapes_of_eq rfl rfl
  have hall := (((henter.trans hload).trans hbook).trans horders).trans hfinish
  rw [hsteps]
  simpa only [List.nil_append, List.append_nil] using hall

theorem tapes_applyMarketOrderEvents (c : Ctx) (events : List MarketOrderEvent) :
    c.Tapes (normalizeSpotMarketKey env.sdk spotMarket)
      (events.filterMap (MarketOrderEvent.fillKey blockNum))
      (c.applyMarketOrderEvents env ⟨true⟩ blockNum spotMarket events) := by
  induction events generalizing c with
  | nil => exact tapes_of_eq rfl rfl
  | cons e events ih =>
      have hstep : c.Tapes (normalizeSpotMarketKey env.sdk spotMarket) (e.fillKey blockNum).toList
          (c.applyMarketOrderEvent env ⟨true⟩ blockNum spotMarket e) :=
        tapes_applyMarketOrderEvent c e
      have hall := hstep.trans (ih _)
      rw [List.filterMap_cons]
      cases hfill : e.fillKey blockNum with
      | none =>
          rw [hfill] at hall
          exact hall
      | some fill =>
          rw [hfill] at hall
          exact hall

end Ctx

/-! ## Blocks whose fills come in pairs -/

structure MatchedTrade where
  first : OrderFilledEvent
  firstSender : String
  second : OrderFilledEvent
  secondSender : String
  opposite : first.side ≠ second.side
  price_eq : second.price = first.price
  fillAmount_eq : second.fillAmount = first.fillAmount
  price_ne_zero : first.price ≠ 0
  fillAmount_ne_zero : first.fillAmount ≠ 0

inductive TapeItem where
  | trade (t : MatchedTrade)
  | created (e : OrderCreatedEvent)
  | cancelled (e : OrderCancelledEvent)
  | updated (e : OrderUpdatedEvent)
  | executed (e : MarketOrderExecutedEvent)

namespace TapeItem

def events : TapeItem → List MarketOrderEvent
  | trade t => [.filled t.first t.firstSender, .filled t.second t.secondSender]
  | created e => [.created e]
  | cancelled e => [.cancelled e]
  | updated e => [.updated e]
  | executed e => [.executed e]

def trade? : TapeItem → Option MatchedTrade
  | trade t => some t
  | created _ => none
  | cancelled _ => none
  | updated _ => none
  | executed _ => none

end TapeItem

namespace MatchedTrade

def fillKey (blockNum : UInt64) (t : MatchedTrade) : FillKey :=
  ⟨blockNum, t.first.price, t.first.fillAmount⟩

/-- The candles after a trade: one of its halves is a buy. -/
theorem bars_events (env : Env) (spotMarket : String) (b : Bars) (t : MatchedTrade) :
    (TapeItem.trade t).events.foldl (Bars.applyMarketOrderEvent env ⟨true⟩ spotMarket) b =
      b.onTrade env.sdk spotMarket t.first.price t.first.fillAmount (env.nowMs / 1000) := by
  have hopposite := t.opposite
  simp only [TapeItem.events, List.foldl_cons, List.foldl_nil, Bars.applyMarketOrderEvent,
    t.price_eq, t.fillAmount_eq, true_and]
  cases hfirst : t.first.side <;> cases hsecond : t.second.side
  · exact absurd (hfirst.trans hsecond.symm) hopposite
  · simp
  · simp
  · exact absurd (hfirst.trans hsecond.symm) hopposite

end MatchedTrade

theorem fillKeys_items (items : List TapeItem) :
    (items.flatMap TapeItem.events).filterMap (MarketOrderEvent.fillKey blockNum) =
      ((items.filterMap TapeItem.trade?).map (MatchedTrade.fillKey blockNum)).flatMap
        fun key => [key, key] := by
  induction items with
  | nil => rfl
  | cons item items ih =>
      rw [List.flatMap_cons, List.filterMap_append, ih, List.filterMap_cons]
      cases item with
      | trade t =>
          have hfill : (TapeItem.trade t).events.filterMap (MarketOrderEvent.fillKey blockNum) =
              [t.fillKey blockNum, t.fillKey blockNum] := by
            simp [TapeItem.events, MarketOrderEvent.fillKey, MatchedTrade.fillKey, t.price_eq,
              t.fillAmount_eq, t.price_ne_zero, t.fillAmount_ne_zero]
          rw [hfill]
          rfl
      | created e => rfl
      | cancelled e => rfl
      | updated e => rfl
      | executed e => rfl

theorem bars_items (env : Env) (spotMarket : String) (items : List TapeItem) (b : Bars) :
    (items.flatMap TapeItem.events).foldl (Bars.applyMarketOrderEvent env ⟨true⟩ spotMarket) b =
      (items.filterMap TapeItem.trade?).foldl
        (fun b t => b.onTrade env.sdk spotMarket t.first.price t.first.fillAmount
          (env.nowMs / 1000)) b := by
  induction items generalizing b with
  | nil => rfl
  | cons item items ih =>
      rw [List.flatMap_cons, List.foldl_append, ih, List.filterMap_cons]
      cases item with
      | trade t =>
          rw [MatchedTrade.bars_events]
          rfl
      | created e => rfl
      | cancelled e => rfl
      | updated e => rfl
      | executed e => rfl

/-! ## What the candles count -/

theorem inCalendar_wallClock (nowMs : UInt64) : InCalendar (nowMs / 1000) := by
  have hlt := nowMs.toNat_lt
  have hsecs : (nowMs / 1000).toNat = nowMs.toNat / 1000 := by
    rw [UInt64.toNat_div]
    rfl
  unfold InCalendar civilYear Civil.yearOf epochDays Civil.eraDays
  dsimp only
  rw [hsecs]
  split_ifs <;> omega

namespace MatchedTrade

theorem counted_trades (env : Env) {spotMarket key : String} (trades : List MatchedTrade) (b : Bars)
    (hkey : normalizeSpotMarketKey env.sdk spotMarket = key) (h : (b.ofSpot key).Marked)
    (interval : BarInterval)
    (hroom : (b.ofSpot key).counted interval + trades.length ≤ Word.u64Max) :
    ((trades.foldl (fun b t => b.onTrade env.sdk spotMarket t.first.price t.first.fillAmount
      (env.nowMs / 1000)) b).ofSpot key).counted interval =
      (b.ofSpot key).counted interval + trades.length := by
  induction trades generalizing b with
  | nil => rfl
  | cons t trades ih =>
      rw [List.length_cons] at hroom ⊢
      have htrade : (b.onTrade env.sdk spotMarket t.first.price t.first.fillAmount
          (env.nowMs / 1000)).ofSpot key =
          (b.ofSpot key).onTrade key t.first.price t.first.fillAmount (env.nowMs / 1000) := by
        rw [Bars.ofSpot_onTrade]
        exact if_pos ⟨hkey.symm, t.fillAmount_ne_zero⟩
      obtain ⟨hmarked, hcounted⟩ := SpotBars.counted_onTrade h key t.first.price t.first.fillAmount
        (inCalendar_wallClock env.nowMs)
      have hone := hcounted interval (by omega)
      have hrest := ih (b.onTrade env.sdk spotMarket t.first.price t.first.fillAmount
        (env.nowMs / 1000))
      rw [htrade, hone] at hrest
      rw [List.foldl_cons, hrest hmarked (by omega)]
      omega

end MatchedTrade

namespace World

theorem bars_applyMarketOrderEvents (opts : ProcessOpts) (blockNum : UInt64) (spotMarket : String)
    (events : List MarketOrderEvent) (w : World) :
    (w.applyMarketOrderEvents env opts blockNum spotMarket events).bars =
      events.foldl (Bars.applyMarketOrderEvent env opts spotMarket) w.bars := by
  unfold applyMarketOrderEvents
  induction events generalizing w with
  | nil => rfl
  | cons e events ih => exact ih _

/-- In a block whose fills come in pairs, the tape gets an entry for each trade, as the
candles count them, exactly when no trade looks like the fill before it. -/
theorem trades_iff (env : Env) (blockNum : UInt64) (spotMarket : String) (items : List TapeItem)
    (w : World) :
    let key := normalizeSpotMarketKey env.sdk spotMarket
    let trades := items.filterMap TapeItem.trade?
    let done := w.applyMarketOrderEvents env ⟨true⟩ blockNum spotMarket
      (items.flatMap TapeItem.events)
    let book := w.ctx.store.books.shard key
    ∃ sent, done.ctx.feed = w.ctx.feed ++ sent ∧
      (done.ctx.store.books.shard key).trades = (tradesOn sent).foldl
        (fun tape trade => (trade :: tape).take recentTradeLimit) book.trades ∧
      ((w.bars.ofSpot key).Marked → ∀ interval,
        (w.bars.ofSpot key).counted interval + trades.length ≤ Word.u64Max →
          (done.bars.ofSpot key).counted interval =
            (w.bars.ofSpot key).counted interval + trades.length) ∧
      ((tradesOn sent).length = trades.length ↔
        (book.lastFill :: trades.map fun t => some (t.fillKey blockNum)).IsChain (· ≠ ·)) := by
  intro key trades done book
  have hctx : done.ctx = w.ctx.applyMarketOrderEvents env ⟨true⟩ blockNum spotMarket
      (items.flatMap TapeItem.events) :=
    ctx_foldl (g := Ctx.applyMarketOrderEvent env ⟨true⟩ blockNum spotMarket) (fun _ _ => rfl) _ w
  have htapes : w.ctx.Tapes key
      ((items.flatMap TapeItem.events).filterMap (MarketOrderEvent.fillKey blockNum)) done.ctx := by
    rw [hctx]
    exact Ctx.tapes_applyMarketOrderEvents w.ctx (items.flatMap TapeItem.events)
  obtain ⟨sent, hfeed, hbook⟩ := htapes
  refine ⟨sent, hfeed, hbook.trades, ?_, ?_⟩
  · intro hmarked interval hroom
    rw [show done.bars = _ from bars_applyMarketOrderEvents ⟨true⟩ blockNum spotMarket _ w,
      bars_items]
    exact MatchedTrade.counted_trades env trades w.bars rfl hmarked interval hroom
  · have hlength := changes_eq_length_iff book.lastFill (trades.map (MatchedTrade.fillKey blockNum))
    rw [hbook.count, fillKeys_items, changes_halves]
    rw [List.length_map, List.map_map] at hlength
    exact hlength

end World

namespace Sample

def filledOrder (orderId : String) (side : OrderSide) : OrderFilledEvent :=
  ⟨orderId, market, side, 500000, 10, 0, true, none⟩

/-- A buy order that meets two sell orders of its size at one price in a row. -/
def sweep (orderId : String) : MatchedTrade where
  first := filledOrder "1" .buy
  firstSender := account
  second := filledOrder orderId .sell
  secondSender := account
  opposite := nofun
  price_eq := rfl
  fillAmount_eq := rfl
  price_ne_zero := by decide
  fillAmount_ne_zero := by decide

def sweeps : List TapeItem := [.trade (sweep "2"), .trade (sweep "3")]

def swept : World :=
  World.applyMarketOrderEvents setting ⟨true⟩ 7 market (sweeps.flatMap TapeItem.events)
    { ctx := { store := {} } }

/-- The candles count two trades, the tape has one. -/
theorem sweeps_one_trade :
    (swept.bars.ofSpot market).counted .m1 = (sweeps.filterMap TapeItem.trade?).length ∧
      (tradesOn swept.ctx.feed).length ≠ (sweeps.filterMap TapeItem.trade?).length ∧
      (swept.ctx.store.books.shard market).trades.length ≠
        (sweeps.filterMap TapeItem.trade?).length := by
  refine ⟨?_, ?_, ?_⟩
  · decide +kernel
  · decide +kernel
  · decide +kernel

end Sample

end ClobIndexer
