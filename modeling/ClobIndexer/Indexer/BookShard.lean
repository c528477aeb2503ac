import ClobIndexer.Indexer.BookLog
/-!
# One operation, one book

Every book operation changes the book of one market, as a function of that book
and of the global trade counter alone.  Two further facts say what the parts of a
book have to do with each other: the trades and the last fill follow from the
trades and the last fill, whatever rests in the book; and the ids of the trades
reach nothing but the ids of trades.
-/

namespace ClobIndexer

open Lib

namespace SpotBook

def levelled (side : OrderSide) (priceRaw amountRaw : UInt64) (isAdd : Bool)
    (lastTradePrice : Option UInt64) (book : SpotBook) : SpotBook :=
  let current := book.sizeAt side priceRaw
  let next := if isAdd then Word.satAdd current amountRaw else Word.satSub current amountRaw
  { book.setSize side priceRaw next with
    sequence := Word.satAdd book.sequence 1
    lastTradePrice := lastTradePrice.or book.lastTradePrice }

def reloaded (chainBook : GetOrderBook) (lastTradePrice : Option UInt64) (book : SpotBook) :
    SpotBook :=
  { book with
    bids := BookTx.loaded chainBook.bestBids ∅
    asks := BookTx.loaded chainBook.bestAsks ∅
    sequence := Word.satAdd book.sequence 1
    lastTradePrice := lastTradePrice.or book.lastTradePrice
    chainHydrated := true }

def noted (tradeSeq : UInt64) (side : OrderSide) (fill : FillKey) (tradeTimeMs : Option UInt64)
    (nowMs : UInt64) (book : SpotBook) : SpotBook :=
  let marked := { book with lastFill := some fill }
  if book.lastFill = some fill then marked
  else
    (Books.pushTrade tradeSeq side fill.priceRaw fill.sizeRaw fill.blockNum tradeTimeMs nowMs
      marked).2.1

/-- The last fill and the trades. -/
def tape (book : SpotBook) : Option FillKey × List RecentTrade := (book.lastFill, book.trades)

/-- The book with the ids of its trades left out. -/
def anonymous (book : SpotBook) : SpotBook :=
  { book with trades := book.trades.map fun trade => { trade with id := 0 } }

theorem tape_levelled (side : OrderSide) (priceRaw amountRaw : UInt64) (isAdd : Bool)
    (lastTradePrice : Option UInt64) (book : SpotBook) :
    (book.levelled side priceRaw amountRaw isAdd lastTradePrice).tape = book.tape := by
  cases side <;> rfl

theorem lastFill_levelled (side : OrderSide) (priceRaw amountRaw : UInt64) (isAdd : Bool)
    (lastTradePrice : Option UInt64) (book : SpotBook) :
    (book.levelled side priceRaw amountRaw isAdd lastTradePrice).lastFill = book.lastFill :=
  congrArg Prod.fst (tape_levelled side priceRaw amountRaw isAdd lastTradePrice book)

theorem anonymous_levelled (side : OrderSide) (priceRaw amountRaw : UInt64) (isAdd : Bool)
    (lastTradePrice : Option UInt64) (book : SpotBook) :
    (book.levelled side priceRaw amountRaw isAdd lastTradePrice).anonymous =
      book.anonymous.levelled side priceRaw amountRaw isAdd lastTradePrice := by
  cases side <;> rfl

theorem tape_noted {a b : SpotBook} (h : a.tape = b.tape) (tradeSeq : UInt64) (side : OrderSide)
    (fill : FillKey) (tradeTimeMs : Option UInt64) (nowMs : UInt64) :
    (a.noted tradeSeq side fill tradeTimeMs nowMs).tape =
      (b.noted tradeSeq side fill tradeTimeMs nowMs).tape := by
  have hfill : a.lastFill = b.lastFill := congrArg Prod.fst h
  have htrades : a.trades = b.trades := congrArg Prod.snd h
  unfold noted
  dsimp only
  rw [hfill]
  split_ifs
  · simp only [tape, htrades]
  · simp only [tape, Books.pushTrade, htrades]

theorem anonymous_noted (tradeSeq tradeSeq' : UInt64) (side : OrderSide) (fill : FillKey)
    (tradeTimeMs : Option UInt64) (nowMs : UInt64) (book : SpotBook) :
    (book.noted tradeSeq side fill tradeTimeMs nowMs).anonymous =
      (book.anonymous.noted tradeSeq' side fill tradeTimeMs nowMs).anonymous := by
  have hfill : book.anonymous.lastFill = book.lastFill := rfl
  unfold noted
  dsimp only
  rw [hfill]
  split_ifs
  · simp only [anonymous, List.map_map, Function.comp_def]
  · simp only [anonymous, Books.pushTrade, List.map_take, List.map_cons, List.map_map,
      Function.comp_def]

end SpotBook

variable (sdk : Sdk)

namespace BookTx

theorem books_changeLevel (t : BookTx) (spotMarket : String) (side : OrderSide)
    (priceRaw amountRaw : UInt64) (isAdd : Bool) (blockNum : UInt64)
    (lastTradePrice : Option UInt64) :
    (t.changeLevel sdk spotMarket side priceRaw amountRaw isAdd blockNum lastTradePrice).1.books =
      t.books.setShard (normalizeSpotMarketKey sdk spotMarket)
        ((t.books.shard (normalizeSpotMarketKey sdk spotMarket)).levelled side priceRaw amountRaw
          isAdd lastTradePrice) := by
  cases side <;> rfl

theorem books_hydrateFromChain (t : BookTx) (spotMarket : String) (chainBook : GetOrderBook)
    (lastTradePrice : Option UInt64) :
    (t.hydrateFromChain sdk spotMarket chainBook lastTradePrice).books =
      t.books.setShard (normalizeSpotMarketKey sdk spotMarket)
        ((t.books.shard (normalizeSpotMarketKey sdk spotMarket)).reloaded chainBook
          lastTradePrice) := by
  unfold hydrateFromChain SpotBook.reloaded
  dsimp only
  rw [loadSide_fst, loadSide_fst]

theorem setShard_setShard (b : Books) (key : String) (book book' : SpotBook) :
    (b.setShard key book).setShard key book' = b.setShard key book' := by
  unfold Books.setShard
  dsimp only
  rw [AList.insert_insert]

theorem books_applyFilled (t : BookTx) (spotMarket : String) (side : OrderSide)
    (priceRaw fillAmountRaw blockNum lastTradePrice : UInt64) (tradeTimeMs : Option UInt64)
    (nowMs : UInt64) :
    (t.applyFilled sdk spotMarket side priceRaw fillAmountRaw blockNum lastTradePrice tradeTimeMs
        nowMs).1.books =
      if priceRaw = 0 ∨ fillAmountRaw = 0 then t.books
      else
        let key := normalizeSpotMarketKey sdk spotMarket
        let fill : FillKey := ⟨blockNum, priceRaw, fillAmountRaw⟩
        { t.books.setShard key
            (((t.books.shard key).levelled side priceRaw fillAmountRaw false
              (some lastTradePrice)).noted t.books.tradeSeq side fill tradeTimeMs nowMs) with
          tradeSeq :=
            if (t.books.shard key).lastFill = some fill then t.books.tradeSeq
            else t.books.tradeSeq + 1 } := by
  have hchange := books_changeLevel sdk t spotMarket side priceRaw fillAmountRaw false blockNum
    (some lastTradePrice)
  unfold applyFilled SpotBook.noted
  dsimp only
  by_cases h0 : priceRaw = 0 ∨ fillAmountRaw = 0
  · rw [if_pos h0, if_pos h0]
  · rw [if_neg h0, if_neg h0, hchange, Books.shard_setShard, if_pos rfl, SpotBook.lastFill_levelled]
    by_cases hlast : (t.books.shard (normalizeSpotMarketKey sdk spotMarket)).lastFill =
        some ⟨blockNum, priceRaw, fillAmountRaw⟩
    · rw [if_pos hlast, if_pos hlast, if_pos hlast]
      unfold withQuote
      dsimp only
      rw [setShard_setShard]
      rfl
    · rw [if_neg hlast, if_neg hlast, if_neg hlast]
      unfold withQuote
      dsimp only
      rw [setShard_setShard]
      rfl

theorem writes_changeLevel {s t : BookTx} (spotMarket : String)
    (hbook : (s.books.shard (normalizeSpotMarketKey sdk spotMarket)).anonymous =
      (t.books.shard (normalizeSpotMarketKey sdk spotMarket)).anonymous)
    (hlevels : s.levels = t.levels) (hmetas : s.metas = t.metas) (side : OrderSide)
    (priceRaw amountRaw : UInt64) (isAdd : Bool) (blockNum : UInt64)
    (lastTradePrice : Option UInt64) :
    let change (t : BookTx) :=
      t.changeLevel sdk spotMarket side priceRaw amountRaw isAdd blockNum lastTradePrice
    (change s).1.levels = (change t).1.levels ∧ (change s).1.metas = (change t).1.metas := by
  have hrows : ∀ u : BookTx,
      let key := normalizeSpotMarketKey sdk spotMarket
      let rows := (Books.applyLevelChange sdk key side priceRaw amountRaw isAdd blockNum
        lastTradePrice (u.books.shard key).anonymous u.levels u.metas).2
      (u.changeLevel sdk spotMarket side priceRaw amountRaw isAdd blockNum
          lastTradePrice).1.levels = rows.1 ∧
        (u.changeLevel sdk spotMarket side priceRaw amountRaw isAdd blockNum
          lastTradePrice).1.metas = rows.2.1 := by
    intro u
    cases side <;> exact ⟨rfl, rfl⟩
  intro change
  dsimp only [change]
  rw [(hrows s).1, (hrows s).2, (hrows t).1, (hrows t).2, hbook, hlevels, hmetas]
  exact ⟨rfl, rfl⟩

theorem writes_applyFilled (t : BookTx) (spotMarket : String) (side : OrderSide)
    (priceRaw fillAmountRaw blockNum lastTradePrice : UInt64) (tradeTimeMs : Option UInt64)
    (nowMs : UInt64) :
    let fill := t.applyFilled sdk spotMarket side priceRaw fillAmountRaw blockNum lastTradePrice
      tradeTimeMs nowMs
    let change := t.changeLevel sdk spotMarket side priceRaw fillAmountRaw false blockNum
      (some lastTradePrice)
    fill.1.levels = (if priceRaw = 0 ∨ fillAmountRaw = 0 then t.levels else change.1.levels) ∧
      fill.1.metas = (if priceRaw = 0 ∨ fillAmountRaw = 0 then t.metas else change.1.metas) := by
  intro fill change
  dsimp only [fill, change]
  unfold applyFilled
  dsimp only
  by_cases h0 : priceRaw = 0 ∨ fillAmountRaw = 0
  · rw [if_pos h0, if_pos h0, if_pos h0]
    exact ⟨rfl, rfl⟩
  · rw [if_neg h0, if_neg h0, if_neg h0]
    split_ifs
    · exact ⟨rfl, rfl⟩
    · exact ⟨rfl, rfl⟩

end BookTx

namespace BookOp

def spotMarket : BookOp → String
  | created spotMarket _ _ _ _ _ => spotMarket
  | cancelled spotMarket _ _ _ _ _ => spotMarket
  | updated spotMarket _ _ _ _ _ _ _ => spotMarket
  | filled spotMarket _ _ _ _ _ _ _ _ => spotMarket
  | hydrate spotMarket _ _ => spotMarket

def key (op : BookOp) : String := normalizeSpotMarketKey sdk op.spotMarket

/-- What rested before a resize, as the operation works it out. -/
def oldRemaining (oldAmountRaw newAmountRaw newRemainingRaw : UInt64) : UInt64 :=
  Word.satSub oldAmountRaw (Word.satSub newAmountRaw newRemainingRaw)

def idle : BookOp → Bool
  | created _ _ priceRaw amountRaw _ _ => priceRaw = 0 ∨ amountRaw = 0
  | cancelled _ _ priceRaw amountRaw _ _ => priceRaw = 0 ∨ amountRaw = 0
  | updated _ _ priceRaw oldAmountRaw newAmountRaw newRemainingRaw _ _ =>
      priceRaw = 0 ∨ oldRemaining oldAmountRaw newAmountRaw newRemainingRaw = newRemainingRaw
  | filled _ _ priceRaw fillAmountRaw _ _ _ _ _ => priceRaw = 0 ∨ fillAmountRaw = 0
  | hydrate _ _ _ => false

def onBook (tradeSeq : UInt64) (book : SpotBook) : BookOp → SpotBook
  | created _ side priceRaw amountRaw _ _ => book.levelled side priceRaw amountRaw true none
  | cancelled _ side priceRaw amountRaw _ _ => book.levelled side priceRaw amountRaw false none
  | updated _ side priceRaw oldAmountRaw newAmountRaw newRemainingRaw _ _ =>
      let old := oldRemaining oldAmountRaw newAmountRaw newRemainingRaw
      if old < newRemainingRaw then
        book.levelled side priceRaw (newRemainingRaw - old) true none
      else book.levelled side priceRaw (old - newRemainingRaw) false none
  | filled _ side priceRaw fillAmountRaw blockNum lastTradePrice _ tradeTimeMs nowMs =>
      (book.levelled side priceRaw fillAmountRaw false (some lastTradePrice)).noted tradeSeq side
        ⟨blockNum, priceRaw, fillAmountRaw⟩ tradeTimeMs nowMs
  | hydrate _ chainBook lastTradePrice => book.reloaded chainBook lastTradePrice

def nextSeq (tradeSeq : UInt64) (lastFill : Option FillKey) : BookOp → UInt64
  | filled _ _ priceRaw fillAmountRaw blockNum _ _ _ _ =>
      if lastFill = some ⟨blockNum, priceRaw, fillAmountRaw⟩ then tradeSeq else tradeSeq + 1
  | created _ _ _ _ _ _ => tradeSeq
  | cancelled _ _ _ _ _ _ => tradeSeq
  | updated _ _ _ _ _ _ _ _ => tradeSeq
  | hydrate _ _ _ => tradeSeq

/-- The books after an operation. -/
theorem books_apply (op : BookOp) (t : BookTx) :
    (op.apply sdk t).1.books =
      if op.idle then t.books
      else
        let book := t.books.shard (op.key sdk)
        { t.books.setShard (op.key sdk) (op.onBook t.books.tradeSeq book) with
          tradeSeq := op.nextSeq t.books.tradeSeq book.lastFill } := by
  cases op with
  | created spotMarket side priceRaw amountRaw blockNum publishWs =>
      simp only [apply, BookTx.applyCreated, idle, decide_eq_true_eq]
      split_ifs
      · rfl
      · exact BookTx.books_changeLevel sdk t spotMarket side priceRaw amountRaw true blockNum none
  | cancelled spotMarket side priceRaw amountRaw blockNum publishWs =>
      simp only [apply, BookTx.applyCancelled, idle, decide_eq_true_eq]
      split_ifs
      · rfl
      · exact BookTx.books_changeLevel sdk t spotMarket side priceRaw amountRaw false blockNum none
  | updated spotMarket side priceRaw oldAmountRaw newAmountRaw newRemainingRaw blockNum publishWs =>
      simp only [apply, idle, decide_eq_true_eq, onBook]
      unfold BookTx.applyUpdated oldRemaining
      dsimp only
      split_ifs
      · rfl
      · exact BookTx.books_changeLevel sdk t spotMarket side priceRaw _ true blockNum none
      · exact BookTx.books_changeLevel sdk t spotMarket side priceRaw _ false blockNum none
  | filled spotMarket side priceRaw fillAmountRaw blockNum lastTradePrice publishWs tradeTimeMs
      nowMs =>
      simp only [apply, idle, decide_eq_true_eq, onBook, nextSeq]
      exact BookTx.books_applyFilled sdk t spotMarket side priceRaw fillAmountRaw blockNum lastTradePrice
        tradeTimeMs nowMs
  | hydrate spotMarket chainBook lastTradePrice =>
      exact BookTx.books_hydrateFromChain sdk t spotMarket chainBook lastTradePrice

/-- The counter moves with the last fill of the book. -/
theorem tradeSeq_apply (op : BookOp) (t : BookTx) :
    (op.apply sdk t).1.books.tradeSeq =
      if op.idle then t.books.tradeSeq
      else op.nextSeq t.books.tradeSeq (t.books.shard (op.key sdk)).lastFill := by
  rw [books_apply]
  split_ifs <;> rfl

theorem lookup_apply (op : BookOp) (t : BookTx) (k : String) :
    (op.apply sdk t).1.books.shards.lookup k =
      if k = op.key sdk ∧ op.idle = false then
        some (op.onBook t.books.tradeSeq (t.books.shard k))
      else t.books.shards.lookup k := by
  rw [books_apply]
  cases op.idle with
  | true => simp
  | false =>
      rw [if_neg Bool.false_ne_true]
      unfold Books.setShard
      dsimp only
      rw [Dict.lookup_insert_ite]
      by_cases hk : k = op.key sdk
      · rw [if_pos hk, if_pos ⟨hk, rfl⟩, hk]
      · rw [if_neg hk, if_neg fun h => hk h.1]

theorem shard_apply (op : BookOp) (t : BookTx) (k : String) :
    (op.apply sdk t).1.books.shard k =
      if k = op.key sdk ∧ op.idle = false then op.onBook t.books.tradeSeq (t.books.shard k)
      else t.books.shard k := by
  conv_lhs => rw [Books.shard, lookup_apply]
  split_ifs <;> rfl

theorem tape_onBook (op : BookOp) (tradeSeq : UInt64) {a b : SpotBook} (h : a.tape = b.tape) :
    (op.onBook tradeSeq a).tape = (op.onBook tradeSeq b).tape := by
  cases op with
  | created spotMarket side priceRaw amountRaw blockNum publishWs =>
      simp only [onBook, SpotBook.tape_levelled, h]
  | cancelled spotMarket side priceRaw amountRaw blockNum publishWs =>
      simp only [onBook, SpotBook.tape_levelled, h]
  | updated spotMarket side priceRaw oldAmountRaw newAmountRaw newRemainingRaw blockNum publishWs =>
      simp only [onBook]
      split_ifs
      · simp only [SpotBook.tape_levelled, h]
      · simp only [SpotBook.tape_levelled, h]
  | filled spotMarket side priceRaw fillAmountRaw blockNum lastTradePrice publishWs tradeTimeMs
      nowMs =>
      apply SpotBook.tape_noted
      simp only [SpotBook.tape_levelled, h]
  | hydrate spotMarket chainBook lastTradePrice => exact h

/-- The ids of the trades reach nothing else, and neither does the counter. -/
theorem anonymous_onBook (op : BookOp) (tradeSeq tradeSeq' : UInt64) (book : SpotBook) :
    (op.onBook tradeSeq book).anonymous = (op.onBook tradeSeq' book.anonymous).anonymous := by
  have hidem : book.anonymous.anonymous = book.anonymous := by
    simp only [SpotBook.anonymous, List.map_map, Function.comp_def]
  cases op with
  | created spotMarket side priceRaw amountRaw blockNum publishWs =>
      simp only [onBook, SpotBook.anonymous_levelled, hidem]
  | cancelled spotMarket side priceRaw amountRaw blockNum publishWs =>
      simp only [onBook, SpotBook.anonymous_levelled, hidem]
  | updated spotMarket side priceRaw oldAmountRaw newAmountRaw newRemainingRaw blockNum publishWs =>
      simp only [onBook]
      split_ifs
      · simp only [SpotBook.anonymous_levelled, hidem]
      · simp only [SpotBook.anonymous_levelled, hidem]
  | filled spotMarket side priceRaw fillAmountRaw blockNum lastTradePrice publishWs tradeTimeMs
      nowMs =>
      simp only [onBook]
      rw [SpotBook.anonymous_noted tradeSeq tradeSeq', SpotBook.anonymous_levelled]
  | hydrate spotMarket chainBook lastTradePrice =>
      simp only [onBook, SpotBook.reloaded, SpotBook.anonymous, List.map_map, Function.comp_def]

/-- The rows that an operation records are read off the book, trade ids aside. -/
theorem writes_apply (op : BookOp) {s t : BookTx}
    (hbook : (s.books.shard (op.key sdk)).anonymous = (t.books.shard (op.key sdk)).anonymous)
    (hlevels : s.levels = t.levels) (hmetas : s.metas = t.metas) :
    (op.apply sdk s).1.levels = (op.apply sdk t).1.levels ∧
      (op.apply sdk s).1.metas = (op.apply sdk t).1.metas := by
  have hchange := BookTx.writes_changeLevel sdk op.spotMarket hbook hlevels hmetas
  cases op with
  | created spotMarket side priceRaw amountRaw blockNum publishWs =>
      simp only [apply, BookTx.applyCreated]
      split_ifs
      · exact ⟨hlevels, hmetas⟩
      · exact hchange side priceRaw amountRaw true blockNum none
  | cancelled spotMarket side priceRaw amountRaw blockNum publishWs =>
      simp only [apply, BookTx.applyCancelled]
      split_ifs
      · exact ⟨hlevels, hmetas⟩
      · exact hchange side priceRaw amountRaw false blockNum none
  | updated spotMarket side priceRaw oldAmountRaw newAmountRaw newRemainingRaw blockNum publishWs =>
      simp only [apply, BookTx.applyUpdated]
      split_ifs
      · exact ⟨hlevels, hmetas⟩
      · exact hchange side priceRaw _ true blockNum none
      · exact hchange side priceRaw _ false blockNum none
  | filled spotMarket side priceRaw fillAmountRaw blockNum lastTradePrice publishWs tradeTimeMs
      nowMs =>
      obtain ⟨hs, hs'⟩ := BookTx.writes_applyFilled sdk s spotMarket side priceRaw fillAmountRaw
        blockNum lastTradePrice tradeTimeMs nowMs
      obtain ⟨ht, ht'⟩ := BookTx.writes_applyFilled sdk t spotMarket side priceRaw fillAmountRaw
        blockNum lastTradePrice tradeTimeMs nowMs
      simp only [apply]
      rw [hs, hs', ht, ht']
      split_ifs
      · exact ⟨hlevels, hmetas⟩
      · exact hchange side priceRaw fillAmountRaw false blockNum (some lastTradePrice)
  | hydrate spotMarket chainBook lastTradePrice =>
      have hbids := congrArg SpotBook.bids hbook
      have hasks := congrArg SpotBook.asks hbook
      have hsequence := congrArg SpotBook.sequence hbook
      have hlast := congrArg SpotBook.lastTradePrice hbook
      simp only [SpotBook.anonymous, key, BookOp.spotMarket] at hbids hasks hsequence hlast
      simp only [apply, BookTx.hydrateFromChain, SpotBook.metaRow, hbids, hasks, hsequence, hlast,
        hlevels, hmetas, and_self]

end BookOp

end ClobIndexer
