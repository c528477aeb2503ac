import ClobIndexer.HexSdk
import ClobIndexer.Indexer.LevelMoves
import Mathlib.Data.List.Sort
/-!
# The log of book deltas

A book as its subscribers see it: the snapshot of `book_to_ws_snapshot`, the
deltas that the book operations publish, and a client that starts from a
snapshot and applies a delta when its sequence is the next one.  The operations
of a run may be on any market and each may be silent; the client may be given
the deltas of its market in any order, and not all of them.
-/

namespace ClobIndexer

open Lib

structure OrderBookSnapshot where
  spotMarket : String
  sequence : UInt64
  bids : List BookLevelDelta
  asks : List BookLevelDelta
  lastTradePrice : Option String
deriving DecidableEq

namespace Books

def sortedLevels (before : UInt64 → UInt64 → Bool) (levels : Dict UInt64 UInt64) :
    List (UInt64 × UInt64) :=
  (levels.entries.map fun e => (e.1, e.2)).insertionSort fun a b => before a.1 b.1

def responseSide (before : UInt64 → UInt64 → Bool) (depth : Nat) (levels : Dict UInt64 UInt64) :
    List BookLevelDelta :=
  ((sortedLevels before levels).take depth).map formatLevel

/-- `book_to_ws_snapshot`: the best levels of both sides, formatted. -/
def bookToWsSnapshot (spotMarket : String) (book : SpotBook) (depth : Nat) :
    OrderBookSnapshot where
  spotMarket := spotMarket
  sequence := book.sequence
  bids := responseSide (fun a b => b ≤ a) depth book.bids
  asks := responseSide (fun a b => a ≤ b) depth book.asks
  lastTradePrice := book.lastTradePrice.map formatPricePieces

end Books

/-- The price format does not clamp the price. -/
def PriceFits (price : UInt64) : Prop := price.toNat ≤ Word.u64Max / 100

inductive BookOp where
  | created (spotMarket : String) (side : OrderSide) (priceRaw amountRaw blockNum : UInt64)
      (publishWs : Bool)
  | cancelled (spotMarket : String) (side : OrderSide) (priceRaw amountRaw blockNum : UInt64)
      (publishWs : Bool)
  | updated (spotMarket : String) (side : OrderSide)
      (priceRaw oldAmountRaw newAmountRaw newRemainingRaw blockNum : UInt64) (publishWs : Bool)
  | filled (spotMarket : String) (side : OrderSide)
      (priceRaw fillAmountRaw blockNum lastTradePrice : UInt64) (publishWs : Bool)
      (tradeTimeMs : Option UInt64) (nowMs : UInt64)
  | hydrate (spotMarket : String) (chainBook : GetOrderBook) (lastTradePrice : Option UInt64)

variable (sdk : Sdk)

namespace BookOp

def apply (t : BookTx) : BookOp → BookTx × Option (OrderBookDelta × QuoteDelta)
  | created spotMarket side priceRaw amountRaw blockNum _ =>
      t.applyCreated sdk spotMarket side priceRaw amountRaw blockNum
  | cancelled spotMarket side priceRaw amountRaw blockNum _ =>
      t.applyCancelled sdk spotMarket side priceRaw amountRaw blockNum
  | updated spotMarket side priceRaw oldAmountRaw newAmountRaw newRemainingRaw blockNum _ =>
      t.applyUpdated sdk spotMarket side priceRaw oldAmountRaw newAmountRaw newRemainingRaw
        blockNum
  | filled spotMarket side priceRaw fillAmountRaw blockNum lastTradePrice _ tradeTimeMs nowMs =>
      t.applyFilled sdk spotMarket side priceRaw fillAmountRaw blockNum lastTradePrice
        tradeTimeMs nowMs
  | hydrate spotMarket chainBook lastTradePrice =>
      (t.hydrateFromChain sdk spotMarket chainBook lastTradePrice, none)

def publishWs : BookOp → Bool
  | created _ _ _ _ _ publishWs => publishWs
  | cancelled _ _ _ _ _ publishWs => publishWs
  | updated _ _ _ _ _ _ _ publishWs => publishWs
  | filled _ _ _ _ _ _ publishWs _ _ => publishWs
  | hydrate _ _ _ => false

def published (t : BookTx) (op : BookOp) : Option OrderBookDelta :=
  if op.publishWs then (op.apply sdk t).2.map (·.1) else none

def Prices (fits : UInt64 → Prop) : BookOp → Prop
  | created _ _ priceRaw _ _ _ => fits priceRaw
  | cancelled _ _ priceRaw _ _ _ => fits priceRaw
  | updated _ _ priceRaw _ _ _ _ _ => fits priceRaw
  | filled _ _ priceRaw _ _ _ _ _ _ => fits priceRaw
  | hydrate _ chainBook _ =>
      ∀ level ∈ chainBook.bestBids ++ chainBook.bestAsks, fits level.price

def PricesFit (op : BookOp) : Prop := op.Prices PriceFits

theorem prices_true (op : BookOp) : op.Prices fun _ => True := by
  cases op <;> simp [Prices]

end BookOp

/-- The books that a market has along a run, the one before the run included. -/
def booksAlong (key : String) : BookTx → List BookOp → List SpotBook
  | t, [] => [t.books.shard key]
  | t, op :: ops => t.books.shard key :: booksAlong key (op.apply sdk t).1 ops

def deltasAlong (key : String) : BookTx → List BookOp → List OrderBookDelta
  | _, [] => []
  | t, op :: ops =>
      (op.published sdk t).toList.filter (fun delta => delta.spotMarket = key) ++
        deltasAlong key (op.apply sdk t).1 ops

/-! ## Clients -/

structure Replica where
  sequence : UInt64
  bids : Dict String String
  asks : Dict String String

namespace Replica

/-- Set the listed prices to the listed sizes, removing those of size `"0"`. -/
def applySide (levels : List BookLevelDelta) (shown : Dict String String) : Dict String String :=
  levels.foldl
    (fun shown level =>
      if level.size = "0" then shown.erase level.price else shown.insert level.price level.size)
    shown

def ofSnapshot (snapshot : OrderBookSnapshot) : Replica where
  sequence := snapshot.sequence
  bids := Dict.insertAll (snapshot.bids.map fun level => ⟨level.price, level.size⟩) ∅
  asks := Dict.insertAll (snapshot.asks.map fun level => ⟨level.price, level.size⟩) ∅

/-- A delta is applied when its sequence is one more than the replica's. -/
def receive (r : Replica) (delta : OrderBookDelta) : Replica :=
  if delta.sequence.toNat = r.sequence.toNat + 1 then
    { sequence := delta.sequence
      bids := applySide delta.bids r.bids
      asks := applySide delta.asks r.asks }
  else r

def levels (r : Replica) : OrderSide → Dict String String
  | .buy => r.bids
  | .sell => r.asks

end Replica

/-- The client's side holds the formatted levels and nothing else. -/
def ShowsSide (shown : Dict String String) (levels : Dict UInt64 UInt64) : Prop :=
  ∀ price size, shown.lookup price = some size ↔ ∃ priceRaw sizeRaw,
    levels.lookup priceRaw = some sizeRaw ∧ formatPricePieces priceRaw = price ∧
      formatTokenAmount sizeRaw = size

structure Shows (r : Replica) (book : SpotBook) : Prop where
  sequence : r.sequence = book.sequence
  side : ∀ side, ShowsSide (r.levels side) (book.levels side)

/-! ## What an operation does to a book -/

structure TellsLevel (key : String) (side : OrderSide) (price size : UInt64) (book : SpotBook)
    (delta : OrderBookDelta) : Prop where
  spotMarket : delta.spotMarket = key
  sequence : delta.sequence = book.sequence
  bids : delta.bids = if side = .buy then
    [⟨formatPricePieces price, if size = 0 then "0" else formatTokenAmount size⟩] else []
  asks : delta.asks = if side = .sell then
    [⟨formatPricePieces price, if size = 0 then "0" else formatTokenAmount size⟩] else []

/-- An operation leaves a book, moves one level and tells it, or loads a book without
telling.  The sequence goes up by one whenever the levels can have changed. -/
inductive BookMove (fits : UInt64 → Prop) (key : String) (book book' : SpotBook) (delta : Option OrderBookDelta) : Prop
  | same (hlevels : ∀ side, book'.levels side = book.levels side)
      (hsequence : book'.sequence = book.sequence)
      (hdelta : ∀ d, delta = some d → d.spotMarket ≠ key)
  | level (side : OrderSide) (price size : UInt64) (d : OrderBookDelta) (hprice : fits price)
      (hlevels : ∀ other, book'.levels other = (book.setSize side price size).levels other)
      (hsequence : book'.sequence = Word.satAdd book.sequence 1) (hdelta : delta = some d)
      (htells : TellsLevel key side price size book' d)
  | reload (hfits : ∀ side price size, (book'.levels side).lookup price = some size →
      fits price) (hsequence : book'.sequence = Word.satAdd book.sequence 1)
      (hdelta : delta = none)

variable {fits : UInt64 → Prop}

theorem BookMove.other {key : String} {book : SpotBook} {delta : Option OrderBookDelta}
    (hdelta : ∀ d, delta = some d → d.spotMarket ≠ key) : BookMove fits key book book delta :=
  .same (fun _ => rfl) rfl hdelta

/-- Only the levels and the sequence of a book count, and only the listed levels,
the market and the sequence of a delta. -/
theorem BookMove.congr {key : String} {book book' book'' : SpotBook} {d d' : OrderBookDelta}
    (h : BookMove fits key book book' (some d)) (hlevels : ∀ side, book''.levels side = book'.levels side)
    (hsequence : book''.sequence = book'.sequence) (hmarket : d'.spotMarket = d.spotMarket)
    (hdsequence : d'.sequence = d.sequence) (hbids : d'.bids = d.bids) (hasks : d'.asks = d.asks) :
    BookMove fits key book book'' (some d') := by
  cases h with
  | same hl hs hd =>
      refine .same (fun side => (hlevels side).trans (hl side)) (hsequence.trans hs) ?_
      intro e he
      cases he
      rw [hmarket]
      exact hd d rfl
  | level side price size e hprice hl hs he htells =>
      cases he
      refine .level side price size d' hprice (fun other => (hlevels other).trans (hl other))
        (hsequence.trans hs) rfl ?_
      exact ⟨hmarket.trans htells.spotMarket,
        (hdsequence.trans htells.sequence).trans hsequence.symm,
        hbids.trans htells.bids, hasks.trans htells.asks⟩
  | reload _ _ hd => cases hd

section Moves

variable (key spotMarket : String) (side : OrderSide) (t : BookTx)

theorem bookMove_changeLevel {priceRaw : UInt64} (hprice : fits priceRaw)
    (amountRaw blockNum : UInt64) (isAdd : Bool) (lastTradePrice : Option UInt64) :
    let r := t.changeLevel sdk spotMarket side priceRaw amountRaw isAdd blockNum lastTradePrice
    BookMove fits key (t.books.shard key) (r.1.books.shard key) (some r.2) := by
  intro r
  by_cases hkey : key = normalizeSpotMarketKey sdk spotMarket
  · subst hkey
    let current := (t.books.shard (normalizeSpotMarketKey sdk spotMarket)).sizeAt side priceRaw
    simp only [r, BookTx.changeLevel, Books.applyLevelChange, Books.shard_setShard, if_true]
    refine .level side priceRaw (if isAdd then Word.satAdd current amountRaw else
      Word.satSub current amountRaw) _ hprice ?_ ?_ rfl ?_
    · intro other
      cases other <;> rfl
    · cases side <;> rfl
    · constructor
      · rfl
      · rfl
      · cases side <;> rfl
      · cases side <;> rfl
  · have hshard : r.1.books.shard key = t.books.shard key := by
      simp only [r, BookTx.changeLevel, Books.shard_setShard, if_neg hkey]
    rw [hshard]
    apply BookMove.other
    intro d hd
    cases hd
    exact fun h => hkey h.symm

theorem bookMove_none : BookMove fits key (t.books.shard key) (t.books.shard key) none :=
  .other (by simp)

omit sdk in
theorem shown_setShard (b : Books) (k : String) (book : SpotBook)
    (hlevels : book.levels = (b.shard k).levels) (hsequence : book.sequence = (b.shard k).sequence) :
    (∀ other, ((b.setShard k book).shard key).levels other = (b.shard key).levels other) ∧
      ((b.setShard k book).shard key).sequence = (b.shard key).sequence := by
  rw [Books.shard_setShard]
  split_ifs with hkey
  · subst hkey
    exact ⟨fun other => congrFun hlevels other, hsequence⟩
  · exact ⟨fun _ => rfl, rfl⟩

theorem bookMove_applyFilled {priceRaw : UInt64} (hprice : fits priceRaw)
    (fillAmountRaw blockNum lastTradePrice : UInt64) (tradeTimeMs : Option UInt64)
    (nowMs : UInt64) :
    let r := t.applyFilled sdk spotMarket side priceRaw fillAmountRaw blockNum lastTradePrice
      tradeTimeMs nowMs
    BookMove fits key (t.books.shard key) (r.1.books.shard key) (r.2.map (·.1)) := by
  have hchange := bookMove_changeLevel sdk key spotMarket side t hprice fillAmountRaw
    blockNum false (some lastTradePrice)
  intro r
  simp only [r, BookTx.applyFilled]
  generalize t.changeLevel sdk spotMarket side priceRaw fillAmountRaw false blockNum
    (some lastTradePrice) = change at hchange ⊢
  let fillKey : FillKey := ⟨blockNum, priceRaw, fillAmountRaw⟩
  let book := change.1.books.shard (normalizeSpotMarketKey sdk spotMarket)
  let marked := { book with lastFill := some fillKey }
  -- the last fill and the trades are set on the book that the level change left
  split_ifs with hskip hlast
  · exact bookMove_none key t
  · have hshown := shown_setShard key change.1.books (normalizeSpotMarketKey sdk spotMarket)
      marked rfl rfl
    exact hchange.congr hshown.1 hshown.2 rfl rfl rfl rfl
  · have hshown := shown_setShard key change.1.books (normalizeSpotMarketKey sdk spotMarket)
      (Books.pushTrade change.1.books.tradeSeq side priceRaw fillAmountRaw blockNum
        tradeTimeMs nowMs marked).2.1 rfl rfl
    exact hchange.congr hshown.1 hshown.2 rfl rfl rfl rfl

omit sdk in
theorem prices_loaded {chainLevels : List ChainLevel}
    (hchain : ∀ level ∈ chainLevels, fits level.price) {price size : UInt64}
    (h : (BookTx.loaded chainLevels ∅).lookup price = some size) : fits price := by
  obtain ⟨-, level, hlevel, rfl, -⟩ := BookTx.exists_level_of_loaded h
  exact hchain level hlevel

theorem bookMove_hydrateFromChain (chainBook : GetOrderBook) (lastTradePrice : Option UInt64)
    (hchain : ∀ level ∈ chainBook.bestBids ++ chainBook.bestAsks, fits level.price) :
    BookMove fits key (t.books.shard key)
      ((t.hydrateFromChain sdk spotMarket chainBook lastTradePrice).books.shard key) none := by
  by_cases hkey : key = normalizeSpotMarketKey sdk spotMarket
  · subst hkey
    obtain ⟨-, hbids, hasks⟩ :=
      BookTx.shard_hydrateFromChain sdk spotMarket t chainBook lastTradePrice
    refine .reload ?_ ?_ rfl
    · intro side price size h
      cases side with
      | buy =>
          rw [SpotBook.levels, hbids] at h
          exact prices_loaded (fun l hl => hchain l (List.mem_append_left _ hl)) h
      | sell =>
          rw [SpotBook.levels, hasks] at h
          exact prices_loaded (fun l hl => hchain l (List.mem_append_right _ hl)) h
    · simp only [BookTx.hydrateFromChain, Books.shard_setShard, if_true]
  · have hshard : (t.hydrateFromChain sdk spotMarket chainBook lastTradePrice).books.shard key =
        t.books.shard key := by
      simp only [BookTx.hydrateFromChain, Books.shard_setShard, if_neg hkey]
    rw [hshard]
    exact bookMove_none key t

theorem bookMove_apply (op : BookOp) (hfit : op.Prices fits) :
    BookMove fits key (t.books.shard key) ((op.apply sdk t).1.books.shard key)
      ((op.apply sdk t).2.map (·.1)) := by
  cases op with
  | created spotMarket side priceRaw amountRaw blockNum publishWs =>
      simp only [BookOp.apply, BookTx.applyCreated]
      split_ifs
      · exact bookMove_none key t
      · exact bookMove_changeLevel sdk key spotMarket side t hfit amountRaw blockNum true none
  | cancelled spotMarket side priceRaw amountRaw blockNum publishWs =>
      simp only [BookOp.apply, BookTx.applyCancelled]
      split_ifs
      · exact bookMove_none key t
      · exact bookMove_changeLevel sdk key spotMarket side t hfit amountRaw blockNum false none
  | updated spotMarket side priceRaw oldAmountRaw newAmountRaw newRemainingRaw blockNum publishWs =>
      simp only [BookOp.apply, BookTx.applyUpdated]
      split_ifs
      · exact bookMove_none key t
      · exact bookMove_changeLevel sdk key spotMarket side t hfit _ blockNum true none
      · exact bookMove_changeLevel sdk key spotMarket side t hfit _ blockNum false none
  | filled spotMarket side priceRaw fillAmountRaw blockNum lastTradePrice publishWs tradeTimeMs
      nowMs =>
      exact bookMove_applyFilled sdk key spotMarket side t hfit fillAmountRaw blockNum
        lastTradePrice tradeTimeMs nowMs
  | hydrate spotMarket chainBook lastTradePrice =>
      exact bookMove_hydrateFromChain sdk key spotMarket t chainBook lastTradePrice hfit

end Moves

/-! ## The client follows the book -/

def BookFits (book : SpotBook) : Prop :=
  ∀ side price size, (book.levels side).lookup price = some size → PriceFits price

theorem BookMove.bookFits {key : String} {book book' : SpotBook} {delta : Option OrderBookDelta}
    (h : BookMove PriceFits key book book' delta) (hfits : BookFits book) : BookFits book' := by
  intro other price size hlookup
  cases h with
  | same hlevels =>
      rw [hlevels] at hlookup
      exact hfits other price size hlookup
  | level side moved next d hprice hlevels =>
      rw [hlevels, SpotBook.lookup_levels_setSize] at hlookup
      split_ifs at hlookup with hthere
      · rw [hthere.2]
        exact hprice
      · exact hfits other price size hlookup
  | reload hload => exact hload other price size hlookup

/-- Setting one shown level as a delta tells shows the side with that level set. -/
theorem showsSide_applySide {shown : Dict String String} {levels levels' : Dict UInt64 UInt64}
    {price size : UInt64} (hshows : ShowsSide shown levels) (hprice : PriceFits price)
    (hfits : ∀ p q, levels.lookup p = some q → PriceFits p)
    (hlevels : ∀ p, levels'.lookup p =
      if p = price then (if size = 0 then none else some size) else levels.lookup p) :
    ShowsSide (Replica.applySide
      [⟨formatPricePieces price, if size = 0 then "0" else formatTokenAmount size⟩] shown)
      levels' := by
  have hother : ∀ p q, levels.lookup p = some q →
      formatPricePieces p = formatPricePieces price → p = price :=
    fun p q hp heq => formatPricePieces_inj (hfits p q hp) hprice heq
  intro shownPrice shownSize
  by_cases hzero : size = 0
  · have happly : Replica.applySide
        [⟨formatPricePieces price, if size = 0 then "0" else formatTokenAmount size⟩] shown =
        shown.erase (formatPricePieces price) := by
      simp [Replica.applySide, hzero]
    rw [happly, Dict.lookup_erase_ite]
    split_ifs with hthere
    · simp only [false_iff, not_exists, not_and]
      intro p q hp hformat
      rw [hlevels, if_pos hzero] at hp
      split_ifs at hp with hne
      exact absurd (hother p q hp (hformat.trans hthere)) hne
    · rw [hshows]
      refine exists_congr fun p => exists_congr fun q => and_congr_left ?_
      rintro ⟨hformat, -⟩
      have hne : p ≠ price := fun h => hthere (h ▸ hformat.symm)
      rw [hlevels, if_neg hne]
  · have happly : Replica.applySide
        [⟨formatPricePieces price, if size = 0 then "0" else formatTokenAmount size⟩] shown =
        shown.insert (formatPricePieces price) (formatTokenAmount size) := by
      simp [Replica.applySide, hzero, formatTokenAmount_ne_zero hzero]
    rw [happly, Dict.lookup_insert_ite]
    split_ifs with hthere
    · constructor
      · intro h
        cases h
        exact ⟨price, size, by rw [hlevels, if_pos rfl, if_neg hzero], hthere.symm, rfl⟩
      · rintro ⟨p, q, hp, hformat, rfl⟩
        rw [hlevels, if_neg hzero] at hp
        split_ifs at hp with hne
        · cases hp
          rfl
        · exact absurd (hother p q hp (hformat.trans hthere)) hne
    · rw [hshows]
      refine exists_congr fun p => exists_congr fun q => and_congr_left ?_
      rintro ⟨hformat, -⟩
      have hne : p ≠ price := fun h => hthere (h ▸ hformat.symm)
      rw [hlevels, if_neg hne]

theorem toNat_of_bump {book book' : SpotBook} (hlt : book'.sequence.toNat < Word.u64Max)
    (hsequence : book'.sequence = Word.satAdd book.sequence 1) :
    book'.sequence.toNat = book.sequence.toNat + 1 := by
  rw [hsequence, Word.toNat_satAdd] at hlt ⊢
  have hone : (1 : UInt64).toNat = 1 := rfl
  omega

theorem BookMove.sequence_delta {key : String} {book book' : SpotBook} {d : OrderBookDelta}
    (h : BookMove PriceFits key book book' (some d)) (hmarket : d.spotMarket = key)
    (hlt : book'.sequence.toNat < Word.u64Max) :
    d.sequence = book'.sequence ∧ d.sequence.toNat = book.sequence.toNat + 1 := by
  cases h with
  | same _ _ hdelta => exact absurd hmarket (hdelta d rfl)
  | reload _ _ hdelta => cases hdelta
  | level side price size e hprice hlevels hsequence hdelta htells =>
      cases hdelta
      rw [htells.sequence]
      exact ⟨rfl, toNat_of_bump hlt hsequence⟩

/-- The next delta takes a client from the book before a level change to the one after. -/
theorem shows_receive {key : String} {book book' : SpotBook} {r : Replica} {d : OrderBookDelta}
    (hshows : Shows r book) (hfits : BookFits book) (hmove : BookMove PriceFits key book book' (some d))
    (hmarket : d.spotMarket = key) (hlt : book'.sequence.toNat < Word.u64Max) :
    Shows (r.receive d) book' := by
  have hnext := (hmove.sequence_delta hmarket hlt).2
  cases hmove with
  | same _ _ hdelta => exact absurd hmarket (hdelta d rfl)
  | reload _ _ hdelta => cases hdelta
  | level side price size e hprice hlevels hsequence hdelta htells =>
      cases hdelta
      have hreceive : r.receive d = ⟨d.sequence, Replica.applySide d.bids r.bids,
          Replica.applySide d.asks r.asks⟩ := by
        rw [Replica.receive, if_pos]
        rw [hshows.sequence, hnext]
      have hlookup : ∀ other p, (book'.levels other).lookup p =
          if other = side ∧ p = price then (if size = 0 then none else some size)
          else (book.levels other).lookup p := by
        intro other p
        rw [hlevels, SpotBook.lookup_levels_setSize]
      rw [hreceive]
      refine ⟨htells.sequence, ?_⟩
      intro other
      have hside : Replica.levels ⟨d.sequence, Replica.applySide d.bids r.bids,
          Replica.applySide d.asks r.asks⟩ other = Replica.applySide (if side = other then
            [⟨formatPricePieces price, if size = 0 then "0" else formatTokenAmount size⟩] else [])
            (r.levels other) := by
        cases other with
        | buy => rw [← htells.bids]; rfl
        | sell => rw [← htells.asks]; rfl
      rw [hside]
      by_cases heq : side = other
      · subst heq
        rw [if_pos rfl]
        apply showsSide_applySide (hshows.side side) hprice (hfits side)
        intro p
        simpa using hlookup side p
      · rw [if_neg heq]
        intro shownPrice shownSize
        rw [Replica.applySide, List.foldl_nil, hshows.side other]
        refine exists_congr fun p => exists_congr fun q => ?_
        rw [hlookup, if_neg (fun h => heq h.1.symm)]

section Runs

variable (key : String) (t : BookTx) (ops : List BookOp)

theorem mem_booksAlong_self : t.books.shard key ∈ booksAlong sdk key t ops := by
  cases ops <;> exact List.mem_cons_self

variable {key t ops}

theorem bookFits_booksAlong (hfit : ∀ op ∈ ops, op.PricesFit)
    (hfits : BookFits (t.books.shard key)) {book : SpotBook}
    (hbook : book ∈ booksAlong sdk key t ops) : BookFits book := by
  induction ops generalizing t with
  | nil =>
      rw [booksAlong, List.mem_singleton] at hbook
      exact hbook ▸ hfits
  | cons op ops ih =>
      rw [booksAlong, List.mem_cons] at hbook
      rcases hbook with hbook | hbook
      · exact hbook ▸ hfits
      · have hmove := bookMove_apply sdk key t op (hfit op List.mem_cons_self)
        exact ih (fun o ho => hfit o (List.mem_cons_of_mem _ ho)) (hmove.bookFits hfits) hbook

theorem bookMove_of_mem_deltasAlong (hfit : ∀ op ∈ ops, op.PricesFit) {d : OrderBookDelta}
    (hd : d ∈ deltasAlong sdk key t ops) :
    d.spotMarket = key ∧ ∃ book ∈ booksAlong sdk key t ops,
      ∃ book' ∈ booksAlong sdk key t ops, BookMove PriceFits key book book' (some d) := by
  induction ops generalizing t with
  | nil => cases hd
  | cons op ops ih =>
      rw [deltasAlong, List.mem_append] at hd
      rcases hd with hd | hd
      · rw [List.mem_filter, Option.mem_toList, decide_eq_true_iff] at hd
        have hmove := bookMove_apply sdk key t op (hfit op List.mem_cons_self)
        have hdelta : (op.apply sdk t).2.map (·.1) = some d := by
          have hsome := hd.1
          rw [BookOp.published] at hsome
          split_ifs at hsome
          exact hsome
        rw [hdelta] at hmove
        exact ⟨hd.2, _, List.mem_cons_self, _,
          List.mem_cons_of_mem _ (mem_booksAlong_self sdk key _ ops), hmove⟩
      · obtain ⟨hmarket, book, hbook, book', hbook', hmove⟩ :=
          ih (fun o ho => hfit o (List.mem_cons_of_mem _ ho)) hd
        exact ⟨hmarket, book, List.mem_cons_of_mem _ hbook, book',
          List.mem_cons_of_mem _ hbook', hmove⟩

theorem BookMove.sequence_cases {book book' : SpotBook} {delta : Option OrderBookDelta}
    (h : BookMove PriceFits key book book' delta) (hlt : book'.sequence.toNat < Word.u64Max) :
    (book'.sequence = book.sequence ∧ ∀ side, book'.levels side = book.levels side) ∨
      book'.sequence.toNat = book.sequence.toNat + 1 := by
  cases h with
  | same hlevels hsequence => exact .inl ⟨hsequence, hlevels⟩
  | level _ _ _ _ _ _ hsequence => exact .inr (toNat_of_bump hlt hsequence)
  | reload _ hsequence => exact .inr (toNat_of_bump hlt hsequence)

theorem sequence_booksAlong (hfit : ∀ op ∈ ops, op.PricesFit)
    (hlt : ∀ book ∈ booksAlong sdk key t ops, book.sequence.toNat < Word.u64Max)
    {book : SpotBook} (hbook : book ∈ booksAlong sdk key t ops) :
    (t.books.shard key).sequence.toNat ≤ book.sequence.toNat ∧
      (book.sequence = (t.books.shard key).sequence →
        ∀ side, book.levels side = (t.books.shard key).levels side) := by
  induction ops generalizing t with
  | nil =>
      rw [booksAlong, List.mem_singleton] at hbook
      subst hbook
      exact ⟨le_refl _, fun _ _ => rfl⟩
  | cons op ops ih =>
      rw [booksAlong, List.mem_cons] at hbook
      rcases hbook with rfl | hbook
      · exact ⟨le_refl _, fun _ _ => rfl⟩
      · obtain ⟨hle, hsame⟩ := ih (fun o ho => hfit o (List.mem_cons_of_mem _ ho))
          (fun b hb => hlt b (List.mem_cons_of_mem _ hb)) hbook
        have hmove := bookMove_apply sdk key t op (hfit op List.mem_cons_self)
        have hnext := hlt _ (List.mem_cons_of_mem _ (mem_booksAlong_self sdk key _ ops))
        rcases hmove.sequence_cases hnext with ⟨hsequence, hlevels⟩ | hsequence
        · rw [hsequence] at hle hsame
          refine ⟨hle, fun heq side => ?_⟩
          rw [hsame heq side, hlevels side]
        · refine ⟨by omega, fun heq => ?_⟩
          rw [heq] at hle
          omega

/-- A market has one book for each sequence of a run. -/
theorem levels_of_sequence_eq (hfit : ∀ op ∈ ops, op.PricesFit)
    (hlt : ∀ book ∈ booksAlong sdk key t ops, book.sequence.toNat < Word.u64Max)
    {book book' : SpotBook} (hbook : book ∈ booksAlong sdk key t ops)
    (hbook' : book' ∈ booksAlong sdk key t ops) (hsequence : book.sequence = book'.sequence)
    (side : OrderSide) : book.levels side = book'.levels side := by
  induction ops generalizing t with
  | nil =>
      rw [booksAlong, List.mem_singleton] at hbook hbook'
      rw [hbook, hbook']
  | cons op ops ih =>
      rw [booksAlong, List.mem_cons] at hbook hbook'
      rcases hbook with rfl | hbook
      · rcases hbook' with rfl | hbook'
        · rfl
        · have hlater := sequence_booksAlong sdk hfit hlt (List.mem_cons_of_mem _ hbook')
          exact (hlater.2 hsequence.symm side).symm
      · rcases hbook' with rfl | hbook'
        · have hlater := sequence_booksAlong sdk hfit hlt (List.mem_cons_of_mem _ hbook)
          exact hlater.2 hsequence side
        · exact ih (fun o ho => hfit o (List.mem_cons_of_mem _ ho))
            (fun b hb => hlt b (List.mem_cons_of_mem _ hb)) hbook hbook'

/-- However the deltas of a run reach a client, it shows some book of the run. -/
theorem shows_foldl_receive (hfit : ∀ op ∈ ops, op.PricesFit)
    (hfits : BookFits (t.books.shard key))
    (hlt : ∀ book ∈ booksAlong sdk key t ops, book.sequence.toNat < Word.u64Max)
    (received : List OrderBookDelta)
    (hreceived : ∀ d ∈ received, d ∈ deltasAlong sdk key t ops) {r : Replica} {book : SpotBook}
    (hbook : book ∈ booksAlong sdk key t ops) (hshows : Shows r book) :
    ∃ book' ∈ booksAlong sdk key t ops, Shows (received.foldl Replica.receive r) book' := by
  induction received generalizing r book with
  | nil => exact ⟨book, hbook, hshows⟩
  | cons d received ih =>
      have hrest := fun e he => hreceived e (List.mem_cons_of_mem _ he)
      by_cases hnext : d.sequence.toNat = r.sequence.toNat + 1
      · obtain ⟨hmarket, before, hbefore, after, hafter, hmove⟩ :=
          bookMove_of_mem_deltasAlong sdk hfit (hreceived d List.mem_cons_self)
        -- the delta's step starts at a book of the client's sequence, so at its levels
        have hsequence : before.sequence = book.sequence := by
          have hdelta := (hmove.sequence_delta hmarket (hlt after hafter)).2
          have hclient := congrArg UInt64.toNat hshows.sequence
          apply UInt64.toNat_inj.mp
          omega
        have hbefore' : Shows r before := by
          refine ⟨hshows.sequence.trans hsequence.symm, fun side => ?_⟩
          rw [levels_of_sequence_eq sdk hfit hlt hbefore hbook hsequence side]
          exact hshows.side side
        have hfitsBefore := bookFits_booksAlong sdk hfit hfits hbefore
        have hstep := shows_receive hbefore' hfitsBefore hmove hmarket (hlt after hafter)
        exact ih hrest hafter hstep
      · have hskip : r.receive d = r := if_neg hnext
        rw [List.foldl_cons, hskip]
        exact ih hrest hbook hshows

end Runs

namespace Books

theorem length_sortedLevels (before : UInt64 → UInt64 → Bool) (levels : Dict UInt64 UInt64) :
    (sortedLevels before levels).length = levels.entries.length := by
  rw [sortedLevels, List.length_insertionSort, List.length_map]

theorem mem_sortedLevels {before : UInt64 → UInt64 → Bool} {levels : Dict UInt64 UInt64}
    {p q : UInt64} : (p, q) ∈ sortedLevels before levels ↔ levels.lookup p = some q := by
  have hperm : (sortedLevels before levels).Perm (levels.entries.map fun e => (e.1, e.2)) :=
    List.perm_insertionSort _ _
  rw [hperm.mem_iff, List.mem_map, ← Dict.mem_entries_iff]
  constructor
  · rintro ⟨e, he, heq⟩
    cases heq
    exact he
  · intro h
    exact ⟨⟨p, q⟩, h, rfl⟩

theorem nodup_sortedLevels (before : UInt64 → UInt64 → Bool) (levels : Dict UInt64 UInt64) :
    ((sortedLevels before levels).map Prod.fst).Nodup := by
  have hperm : ((sortedLevels before levels).map Prod.fst).Perm levels.keys := by
    have hsorted : (sortedLevels before levels).Perm (levels.entries.map fun e => (e.1, e.2)) :=
      List.perm_insertionSort _ _
    have hkeys : levels.keys = (levels.entries.map fun e => (e.1, e.2)).map Prod.fst := by
      rw [List.map_map]
      rfl
    rw [hkeys]
    exact hsorted.map _
  exact hperm.nodup_iff.mpr levels.keys_nodup

end Books

/-- A snapshot that reaches down to the last level shows the side. -/
theorem showsSide_responseSide (before : UInt64 → UInt64 → Bool) {depth : Nat}
    {levels : Dict UInt64 UInt64} (hdepth : levels.entries.length ≤ depth)
    (hfits : ∀ p q, levels.lookup p = some q → PriceFits p) :
    ShowsSide (Dict.insertAll ((Books.responseSide before depth levels).map
      fun level => ⟨level.price, level.size⟩) ∅) levels := by
  let shown : UInt64 × UInt64 → Sigma fun _ : String => String :=
    fun level => ⟨formatPricePieces level.1, formatTokenAmount level.2⟩
  have hlist : (Books.responseSide before depth levels).map
      (fun level => (⟨level.price, level.size⟩ : Sigma fun _ : String => String)) =
      (Books.sortedLevels before levels).map shown := by
    rw [Books.responseSide, List.take_of_length_le, List.map_map]
    · rfl
    · rw [Books.length_sortedLevels]
      exact hdepth
  have hnodup : ((Books.sortedLevels before levels).map shown).NodupKeys := by
    rw [List.NodupKeys, List.keys, List.map_map]
    refine List.Nodup.map_on ?_ ?_
    · rintro ⟨p, q⟩ hpq ⟨p', q'⟩ hpq' heq
      rw [Books.mem_sortedLevels] at hpq hpq'
      have hprice : p = p' := formatPricePieces_inj (hfits p q hpq) (hfits p' q' hpq') heq
      subst hprice
      rw [hpq] at hpq'
      cases hpq'
      rfl
    · exact List.Nodup.of_map _ (Books.nodup_sortedLevels before levels)
  intro price size
  rw [hlist, Dict.lookup_insertAll hnodup]
  have hentry := List.mem_dlookup_iff (a := price) (b := size) hnodup
  rw [Option.mem_def] at hentry
  rw [AList.lookup_empty, Option.or_none, hentry, List.mem_map]
  constructor
  · rintro ⟨⟨p, q⟩, hpq, heq⟩
    cases heq
    exact ⟨p, q, Books.mem_sortedLevels.mp hpq, rfl, rfl⟩
  · rintro ⟨p, q, hpq, rfl, rfl⟩
    exact ⟨(p, q), Books.mem_sortedLevels.mpr hpq, rfl⟩

theorem shows_ofSnapshot (key : String) {book : SpotBook} {depth : Nat} (hfits : BookFits book)
    (hbids : book.bids.entries.length ≤ depth) (hasks : book.asks.entries.length ≤ depth) :
    Shows (Replica.ofSnapshot (Books.bookToWsSnapshot key book depth)) book := by
  refine ⟨rfl, fun side => ?_⟩
  cases side with
  | buy => exact showsSide_responseSide _ hbids (hfits .buy)
  | sell => exact showsSide_responseSide _ hasks (hfits .sell)

/-- A client that starts from a snapshot of all levels, taken anywhere in a run, and
gets deltas of the run in any order is at a sequence that the book had, and holds
what the book of that sequence formats to. -/
theorem replica_shows_book (key : String) (t : BookTx) (ops : List BookOp)
    (hfits : BookFits (t.books.shard key)) (hfit : ∀ op ∈ ops, op.PricesFit)
    (hlt : ∀ book ∈ booksAlong sdk key t ops, book.sequence.toNat < Word.u64Max)
    (start : SpotBook) (hstart : start ∈ booksAlong sdk key t ops) (depth : Nat)
    (hbids : start.bids.entries.length ≤ depth) (hasks : start.asks.entries.length ≤ depth)
    (received : List OrderBookDelta)
    (hreceived : ∀ d ∈ received, d ∈ deltasAlong sdk key t ops) :
    let replica := received.foldl Replica.receive
      (Replica.ofSnapshot (Books.bookToWsSnapshot key start depth))
    (∃ book ∈ booksAlong sdk key t ops, book.sequence = replica.sequence) ∧
      ∀ book ∈ booksAlong sdk key t ops, book.sequence = replica.sequence → Shows replica book := by
  intro replica
  have hsnapshot := shows_ofSnapshot key (bookFits_booksAlong sdk hfit hfits hstart) hbids hasks
  obtain ⟨book, hbook, hshows⟩ :=
    shows_foldl_receive sdk hfit hfits hlt received hreceived hstart hsnapshot
  refine ⟨⟨book, hbook, hshows.sequence.symm⟩, ?_⟩
  intro other hother hsequence
  refine ⟨hsequence.symm, fun side => ?_⟩
  rw [levels_of_sequence_eq sdk hfit hlt hother hbook (hsequence.trans hshows.sequence) side]
  exact hshows.side side

namespace Sample

def noBooks : BookTx := ⟨{}, .empty, .empty⟩

def bookOps : List BookOp :=
  [.created market .buy 4500 1500000 1 true, .created market .sell 6000 2000000 1 false,
    .filled market .buy 4500 1500000 2 4500 true none 0]

/-- A client of the empty book that gets the deltas in the wrong order stays at the
first order: the second was not published. -/
theorem replica_bookOps :
    (∀ d ∈ (deltasAlong Sample.sdk market noBooks bookOps).reverse,
      d ∈ deltasAlong Sample.sdk market noBooks bookOps) ∧
    ∀ book ∈ booksAlong Sample.sdk market noBooks bookOps,
      book.sequence = ((deltasAlong Sample.sdk market noBooks bookOps).reverse.foldl Replica.receive
        (Replica.ofSnapshot (Books.bookToWsSnapshot market {} 20))).sequence →
      Shows ((deltasAlong Sample.sdk market noBooks bookOps).reverse.foldl Replica.receive
        (Replica.ofSnapshot (Books.bookToWsSnapshot market {} 20))) book := by
  have hfit : ∀ op ∈ bookOps, op.PricesFit := by
    intro op hop
    simp only [bookOps, List.mem_cons, List.not_mem_nil, or_false] at hop
    rcases hop with rfl | rfl | rfl <;> simp only [BookOp.PricesFit, BookOp.Prices, PriceFits] <;> decide
  have hfits : BookFits (noBooks.books.shard market) := by
    intro side price size h
    cases side <;> cases h
  exact ⟨fun d hd => List.mem_reverse.mp hd,
    (replica_shows_book Sample.sdk market noBooks bookOps hfits hfit (by decide +kernel) {}
      List.mem_cons_self 20 (by decide) (by decide) _ (fun d hd => List.mem_reverse.mp hd)).2⟩

end Sample

end ClobIndexer
