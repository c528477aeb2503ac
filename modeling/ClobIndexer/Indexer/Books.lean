import ClobIndexer.Events
import ClobIndexer.Persist.IndexWriteSet
/-!
# Order books

`src/indexer/books.rs`: one book per normalized spot market.  A `BookTx` pairs
the books with the two write sets they feed, so that every operation is a
function of it.  The source passes the write set as an option; a caller without
one drops the returned sets.  Deltas and quotes are returned to the caller,
which publishes them.
-/

namespace ClobIndexer

open Lib

def recentTradeLimit : Nat := 50

structure FillKey where
  blockNum : UInt64
  priceRaw : UInt64
  sizeRaw : UInt64
deriving DecidableEq

structure RecentTrade where
  id : UInt64
  side : String
  price : String
  size : String
  timeMs : UInt64
  blockNum : UInt64
deriving DecidableEq

structure SpotBook where
  bids : Dict UInt64 UInt64 := ∅
  asks : Dict UInt64 UInt64 := ∅
  sequence : UInt64 := 0
  lastTradePrice : Option UInt64 := none
  chainHydrated : Bool := false
  lastFill : Option FillKey := none
  trades : List RecentTrade := []
deriving DecidableEq

structure Books where
  shards : Dict String SpotBook := ∅
  tradeSeq : UInt64 := 0
deriving DecidableEq

structure BookLevelDelta where
  price : String
  size : String
deriving DecidableEq

structure OrderBookDelta where
  spotMarket : String
  sequence : UInt64
  blockNum : UInt64
  bids : List BookLevelDelta
  asks : List BookLevelDelta
  lastTradePrice : Option String
  trade : Option RecentTrade
deriving DecidableEq

structure QuoteDelta where
  spotMarket : String
  sequence : UInt64
  blockNum : UInt64
  bestBid : Option BookLevelDelta
  bestAsk : Option BookLevelDelta
  lastTradePrice : Option String
deriving DecidableEq

structure ChainLevel where
  price : UInt64
  totalQuantity : UInt64
deriving DecidableEq

structure GetOrderBook where
  bestBids : List ChainLevel
  bestAsks : List ChainLevel
deriving DecidableEq

namespace SpotBook

def levels (book : SpotBook) : OrderSide → Dict UInt64 UInt64
  | .buy => book.bids
  | .sell => book.asks

def setLevels (book : SpotBook) (side : OrderSide) (levels : Dict UInt64 UInt64) : SpotBook :=
  match side with
  | .buy => { book with bids := levels }
  | .sell => { book with asks := levels }

theorem levels_setLevels (book : SpotBook) (side side' : OrderSide)
    (levels : Dict UInt64 UInt64) :
    (book.setLevels side levels).levels side' =
      if side' = side then levels else book.levels side' := by
  cases side <;> cases side' <;> rfl

/-- Resting size at a price, zero when the level is absent. -/
def sizeAt (book : SpotBook) (side : OrderSide) (price : UInt64) : UInt64 :=
  ((book.levels side).lookup price).getD 0

/-- Set the size at a price; an empty level has no entry. -/
def setSize (book : SpotBook) (side : OrderSide) (price size : UInt64) : SpotBook :=
  book.setLevels side
    (if size = 0 then (book.levels side).erase price else (book.levels side).insert price size)

theorem lookup_levels_setSize (book : SpotBook) (side side' : OrderSide)
    (price price' size : UInt64) :
    ((book.setSize side price size).levels side').lookup price' =
      if side' = side ∧ price' = price then (if size = 0 then none else some size)
      else (book.levels side').lookup price' := by
  unfold setSize
  rw [levels_setLevels]
  by_cases hside : side' = side
  · subst hside
    by_cases hp : price' = price
    · subst hp
      split_ifs <;> simp_all
    · split_ifs <;> simp_all
  · simp [hside]

def metaRow (book : SpotBook) : BookMetaRow where
  sequence := book.sequence.toInt64
  lastTradePrice := book.lastTradePrice.map UInt64.toInt64

end SpotBook

/-- The books together with the write sets of `book_levels` and `book_meta`. -/
structure BookTx where
  books : Books
  levels : TableWrites LevelKey Int64
  metas : TableWrites String BookMetaRow

variable (sdk : Sdk)

namespace Books

/-- `Books::shard`: the book of a market, a fresh one when there is none. -/
def shard (b : Books) (key : String) : SpotBook := (b.shards.lookup key).getD {}

def isChainHydrated (b : Books) (spotMarket : String) : Bool :=
  match b.shards.lookup (normalizeSpotMarketKey sdk spotMarket) with
  | some book => book.chainHydrated
  | none => false

def setShard (b : Books) (key : String) (book : SpotBook) : Books :=
  { b with shards := b.shards.insert key book }

theorem shard_setShard (b : Books) (key key' : String) (book : SpotBook) :
    (b.setShard key book).shard key' = if key' = key then book else b.shard key' := by
  unfold shard setShard
  dsimp only
  rw [Dict.lookup_insert_ite]
  split_ifs <;> rfl

def bestOf (better : UInt64 → UInt64 → Bool) (levels : Dict UInt64 UInt64) :
    Option (UInt64 × UInt64) :=
  levels.entries.foldl
    (fun best e =>
      match best with
      | none => some (e.1, e.2)
      | some (p, q) => if better e.1 p then some (e.1, e.2) else some (p, q))
    none

def formatLevel (level : UInt64 × UInt64) : BookLevelDelta :=
  ⟨formatPricePieces level.1, formatTokenAmount level.2⟩

def quoteFromBook (spotMarket : String) (blockNum : UInt64) (book : SpotBook) : QuoteDelta where
  spotMarket := spotMarket
  sequence := book.sequence
  blockNum := blockNum
  bestBid := (bestOf (fun a b => b < a) book.bids).map formatLevel
  bestAsk := (bestOf (fun a b => a < b) book.asks).map formatLevel
  lastTradePrice := book.lastTradePrice.map formatPricePieces

/-- `apply_level_change`: add to or take from one level, bump the sequence and
record the level and the meta row. -/
def applyLevelChange (key : String) (side : OrderSide) (priceRaw amountRaw : UInt64)
    (isAdd : Bool) (blockNum : UInt64) (lastTradePrice : Option UInt64) (book : SpotBook)
    (levels : TableWrites LevelKey Int64) (metas : TableWrites String BookMetaRow) :
    SpotBook × TableWrites LevelKey Int64 × TableWrites String BookMetaRow × OrderBookDelta :=
  let current := book.sizeAt side priceRaw
  let next := if isAdd then Word.satAdd current amountRaw else Word.satSub current amountRaw
  let levels :=
    if next = 0 then deleteBookLevel sdk key side.str priceRaw.toInt64 levels
    else storeBookLevel sdk key side.str priceRaw.toInt64 next.toInt64 levels
  let levelDelta : BookLevelDelta :=
    ⟨formatPricePieces priceRaw, if next = 0 then "0" else formatTokenAmount next⟩
  let book := book.setSize side priceRaw next
  let book := { book with
    sequence := Word.satAdd book.sequence 1
    lastTradePrice := lastTradePrice.or book.lastTradePrice }
  let delta : OrderBookDelta :=
    { spotMarket := key
      sequence := book.sequence
      blockNum := blockNum
      bids := match side with | .buy => [levelDelta] | .sell => []
      asks := match side with | .buy => [] | .sell => [levelDelta]
      lastTradePrice := book.lastTradePrice.map formatPricePieces
      trade := none }
  (book, levels, storeBookMeta sdk key book.metaRow metas, delta)

def pushTrade (tradeSeq : UInt64) (side : OrderSide) (priceRaw sizeRaw blockNum : UInt64)
    (tradeTimeMs : Option UInt64) (nowMs : UInt64) (book : SpotBook) :
    UInt64 × SpotBook × RecentTrade :=
  let timeMs :=
    match tradeTimeMs with
    | some ms => if ms = 0 then nowMs else ms
    | none => nowMs
  let trade : RecentTrade :=
    { id := Word.satAdd tradeSeq 1
      side := side.str
      price := formatPricePieces priceRaw
      size := formatTokenAmount sizeRaw
      timeMs := timeMs
      blockNum := blockNum }
  (tradeSeq + 1, { book with trades := (trade :: book.trades).take recentTradeLimit }, trade)

end Books

namespace BookTx

def changeLevel (spotMarket : String) (side : OrderSide) (priceRaw amountRaw : UInt64)
    (isAdd : Bool) (blockNum : UInt64) (lastTradePrice : Option UInt64) (t : BookTx) :
    BookTx × OrderBookDelta :=
  let key := normalizeSpotMarketKey sdk spotMarket
  let (book, levels, metas, delta) :=
    Books.applyLevelChange sdk key side priceRaw amountRaw isAdd blockNum lastTradePrice
      (t.books.shard key) t.levels t.metas
  (⟨t.books.setShard key book, levels, metas⟩, delta)

def withQuote (spotMarket : String) (r : BookTx × OrderBookDelta) :
    BookTx × Option (OrderBookDelta × QuoteDelta) :=
  let key := normalizeSpotMarketKey sdk spotMarket
  (r.1, some (r.2, Books.quoteFromBook key r.2.blockNum (r.1.books.shard key)))

def applyCreated (spotMarket : String) (side : OrderSide) (priceRaw amountRaw blockNum : UInt64)
    (t : BookTx) : BookTx × Option (OrderBookDelta × QuoteDelta) :=
  if priceRaw = 0 ∨ amountRaw = 0 then (t, none)
  else withQuote sdk spotMarket
    (t.changeLevel sdk spotMarket side priceRaw amountRaw true blockNum none)

def applyCancelled (spotMarket : String) (side : OrderSide) (priceRaw amountRaw blockNum : UInt64)
    (t : BookTx) : BookTx × Option (OrderBookDelta × QuoteDelta) :=
  if priceRaw = 0 ∨ amountRaw = 0 then (t, none)
  else withQuote sdk spotMarket
    (t.changeLevel sdk spotMarket side priceRaw amountRaw false blockNum none)

def applyUpdated (spotMarket : String) (side : OrderSide)
    (priceRaw oldAmountRaw newAmountRaw newRemainingRaw blockNum : UInt64)
    (t : BookTx) : BookTx × Option (OrderBookDelta × QuoteDelta) :=
  let filled := Word.satSub newAmountRaw newRemainingRaw
  let oldRemainingRaw := Word.satSub oldAmountRaw filled
  if priceRaw = 0 ∨ oldRemainingRaw = newRemainingRaw then (t, none)
  else if oldRemainingRaw < newRemainingRaw then
    withQuote sdk spotMarket
      (t.changeLevel sdk spotMarket side priceRaw (newRemainingRaw - oldRemainingRaw) true
        blockNum none)
  else
    withQuote sdk spotMarket
      (t.changeLevel sdk spotMarket side priceRaw (oldRemainingRaw - newRemainingRaw) false
        blockNum none)

/-- `apply_filled`: take the fill from its level and, unless it repeats the last
fill of the block, push a trade and attach it to the delta. -/
def applyFilled (spotMarket : String) (side : OrderSide)
    (priceRaw fillAmountRaw blockNum lastTradePrice : UInt64) (tradeTimeMs : Option UInt64)
    (nowMs : UInt64) (t : BookTx) : BookTx × Option (OrderBookDelta × QuoteDelta) :=
  if priceRaw = 0 ∨ fillAmountRaw = 0 then (t, none)
  else
    let key := normalizeSpotMarketKey sdk spotMarket
    let (t, delta) :=
      t.changeLevel sdk spotMarket side priceRaw fillAmountRaw false blockNum
        (some lastTradePrice)
    let book := t.books.shard key
    let fillKey : FillKey := ⟨blockNum, priceRaw, fillAmountRaw⟩
    let marked := { book with lastFill := some fillKey }
    if book.lastFill = some fillKey then
      withQuote sdk spotMarket ({ t with books := t.books.setShard key marked }, delta)
    else
      let (tradeSeq, traded, trade) :=
        Books.pushTrade t.books.tradeSeq side priceRaw fillAmountRaw blockNum tradeTimeMs nowMs
          marked
      withQuote sdk spotMarket
        ({ t with books := { t.books.setShard key traded with tradeSeq := tradeSeq } },
          { delta with trade := some trade })

def loadSide (key : String) (side : OrderSide) (chainLevels : List ChainLevel)
    (acc : Dict UInt64 UInt64 × TableWrites LevelKey Int64) :
    Dict UInt64 UInt64 × TableWrites LevelKey Int64 :=
  chainLevels.foldl
    (fun acc level =>
      if level.totalQuantity = 0 then acc
      else
        (acc.1.insert level.price level.totalQuantity,
          storeBookLevel sdk key side.str level.price.toInt64 level.totalQuantity.toInt64 acc.2))
    acc

def dropSide (key : String) (side : OrderSide) (resting : Dict UInt64 UInt64)
    (levels : TableWrites LevelKey Int64) : TableWrites LevelKey Int64 :=
  resting.entries.foldl
    (fun w e => deleteBookLevel sdk key side.str e.1.toInt64 w) levels

def hydrateFromChain (spotMarket : String) (chainBook : GetOrderBook)
    (lastTradePrice : Option UInt64) (t : BookTx) : BookTx :=
  let key := normalizeSpotMarketKey sdk spotMarket
  let book := t.books.shard key
  let dropped := dropSide sdk key .sell book.asks (dropSide sdk key .buy book.bids t.levels)
  let (bids, levels) := loadSide sdk key .buy chainBook.bestBids (∅, dropped)
  let (asks, levels) := loadSide sdk key .sell chainBook.bestAsks (∅, levels)
  let book := { book with
    bids := bids
    asks := asks
    sequence := Word.satAdd book.sequence 1
    lastTradePrice := lastTradePrice.or book.lastTradePrice
    chainHydrated := true }
  ⟨t.books.setShard key book, levels, storeBookMeta sdk key book.metaRow t.metas⟩

end BookTx

end ClobIndexer
