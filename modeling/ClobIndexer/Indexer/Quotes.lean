import ClobIndexer.Indexer.BookInvariants
import Mathlib
/-!
# Quotes

The second feed of `src/indexer/books.rs`: along with every delta of a book goes a quote,
the best level of each side and the last price after it.  Unlike a delta a quote stands
alone, so a client may miss some and is told as much by the next.
-/

namespace ClobIndexer

open Lib

structure QuoteSnapshot where
  spotMarket : String
  sequence : UInt64
  bestBid : Option BookLevelDelta
  bestAsk : Option BookLevelDelta
  lastTradePrice : Option String
deriving DecidableEq

namespace Books

end Books

/-! ## The best level of a side -/

namespace OrderSide

def rank : OrderSide → UInt64 → Int
  | .buy, price => -(price.toNat : Int)
  | .sell, price => price.toNat

theorem rank_injective (side : OrderSide) : Function.Injective side.rank := by
  intro p q h
  apply UInt64.toNat_inj.mp
  cases side <;> simp only [rank] at h <;> omega

def better (side : OrderSide) (p q : UInt64) : Bool := side.rank p < side.rank q

end OrderSide

namespace SpotBook

def best (book : SpotBook) (side : OrderSide) : Option (UInt64 × UInt64) :=
  Books.bestOf side.better (book.levels side)

end SpotBook

namespace Books

theorem bestOf_eq_argmin (side : OrderSide) (levels : Dict UInt64 UInt64) :
    bestOf side.better levels =
      (levels.entries.argmin fun e => side.rank e.1).map fun e => (e.1, e.2) := by
  let pair : Option (Sigma fun _ : UInt64 => UInt64) → Option (UInt64 × UInt64) :=
    Option.map fun e => (e.1, e.2)
  symm
  change pair (List.foldl _ none levels.entries) = _
  refine (List.foldl_hom pair ?_).symm
  intro best e
  cases best with
  | none => rfl
  | some b =>
      simp only [pair, Option.map_some, List.argAux, OrderSide.better, decide_eq_true_eq]
      split_ifs <;> rfl

theorem bestOf_eq_none_iff {side : OrderSide} {levels : Dict UInt64 UInt64} :
    bestOf side.better levels = none ↔ ∀ p, levels.lookup p = none := by
  rw [bestOf_eq_argmin, Option.map_eq_none_iff, List.argmin_eq_none]
  constructor
  · intro h p
    rw [AList.lookup_eq_none]
    intro hp
    rw [AList.mem_keys, AList.keys, h] at hp
    cases hp
  · intro h
    rw [List.eq_nil_iff_forall_not_mem]
    rintro ⟨p, q⟩ he
    rw [Dict.mem_entries_iff, h p] at he
    cases he

theorem bestOf_eq_some_iff {side : OrderSide} {levels : Dict UInt64 UInt64} {p q : UInt64} :
    bestOf side.better levels = some (p, q) ↔
      levels.lookup p = some q ∧
        ∀ p' q', levels.lookup p' = some q' → side.rank p ≤ side.rank p' := by
  have hfound : ∀ p q, bestOf side.better levels = some (p, q) → levels.lookup p = some q ∧
      ∀ p' q', levels.lookup p' = some q' → side.rank p ≤ side.rank p' := by
    intro p q h
    rw [bestOf_eq_argmin, Option.map_eq_some_iff] at h
    obtain ⟨e, he, heq⟩ := h
    cases heq
    refine ⟨Dict.mem_entries_iff.mp (List.argmin_mem he), fun p' q' hp' => ?_⟩
    exact List.le_of_mem_argmin (f := fun e : Sigma fun _ : UInt64 => UInt64 => side.rank e.1)
      (Dict.mem_entries_iff.mpr hp') he
  refine ⟨hfound p q, ?_⟩
  rintro ⟨hp, hfirst⟩
  cases hbest : bestOf side.better levels with
  | none =>
      rw [bestOf_eq_none_iff.mp hbest p] at hp
      cases hp
  | some level =>
      obtain ⟨hlevel, hle⟩ := hfound level.1 level.2 hbest
      have heq : level.1 = p :=
        side.rank_injective (le_antisymm (hle p q hp) (hfirst level.1 level.2 hlevel))
      rw [heq, hp] at hlevel
      cases hlevel
      rw [← heq]

end Books

namespace OrderSide

theorem better_buy : OrderSide.buy.better = fun p q => decide (q < p) := by
  funext p q
  rw [better, decide_eq_decide, UInt64.lt_iff_toNat_lt]
  simp only [rank]
  omega

theorem better_sell : OrderSide.sell.better = fun p q => decide (p < q) := by
  funext p q
  rw [better, decide_eq_decide, UInt64.lt_iff_toNat_lt]
  simp only [rank]
  omega

end OrderSide

/-! ## What a quote tells -/

def QuoteDelta.best (quote : QuoteDelta) : OrderSide → Option BookLevelDelta
  | .buy => quote.bestBid
  | .sell => quote.bestAsk

def QuoteDelta.snapshot (quote : QuoteDelta) : QuoteSnapshot where
  spotMarket := quote.spotMarket
  sequence := quote.sequence
  bestBid := quote.bestBid
  bestAsk := quote.bestAsk
  lastTradePrice := quote.lastTradePrice

def OrderBookSnapshot.levels (snapshot : OrderBookSnapshot) : OrderSide → List BookLevelDelta
  | .buy => snapshot.bids
  | .sell => snapshot.asks

namespace Books

theorem best_quoteFromBook (spotMarket : String) (blockNum : UInt64) (book : SpotBook)
    (side : OrderSide) :
    (quoteFromBook spotMarket blockNum book).best side = (book.best side).map formatLevel := by
  unfold SpotBook.best
  cases side with
  | buy =>
      rw [OrderSide.better_buy]
      rfl
  | sell =>
      rw [OrderSide.better_sell]
      rfl

end Books

namespace SpotBook

structure SameShown (book book' : SpotBook) : Prop where
  levels : ∀ side, book'.levels side = book.levels side
  lastTradePrice : book'.lastTradePrice = book.lastTradePrice

variable {book book' book'' : SpotBook}

theorem SameShown.refl (book : SpotBook) : book.SameShown book := ⟨fun _ => rfl, rfl⟩

theorem SameShown.symm (h : book.SameShown book') : book'.SameShown book :=
  ⟨fun side => (h.levels side).symm, h.lastTradePrice.symm⟩

theorem SameShown.trans (h : book.SameShown book') (h' : book'.SameShown book'') :
    book.SameShown book'' :=
  ⟨fun side => (h'.levels side).trans (h.levels side),
    h'.lastTradePrice.trans h.lastTradePrice⟩

theorem SameShown.quote (h : book.SameShown book') (hsequence : book'.sequence = book.sequence)
    (spotMarket : String) (blockNum : UInt64) :
    Books.quoteFromBook spotMarket blockNum book' =
      Books.quoteFromBook spotMarket blockNum book := by
  have hbids : book'.bids = book.bids := h.levels .buy
  have hasks : book'.asks = book.asks := h.levels .sell
  unfold Books.quoteFromBook
  rw [hsequence, hbids, hasks, h.lastTradePrice]

end SpotBook

/-! ## What an operation sends -/

/-- The delta and the quote tell the book. -/
structure TellsBook (key : String) (book : SpotBook) (sent : OrderBookDelta × QuoteDelta) :
    Prop where
  spotMarket : sent.1.spotMarket = key
  sequence : sent.1.sequence = book.sequence
  lastTradePrice : sent.1.lastTradePrice = book.lastTradePrice.map formatPricePieces
  quote : sent.2 = Books.quoteFromBook key sent.1.blockNum book

variable (sdk : Sdk)

section Sent

variable (spotMarket : String) (side : OrderSide) (t : BookTx)

theorem tellsBook_withQuote {r : BookTx × OrderBookDelta} {sent : OrderBookDelta × QuoteDelta}
    (hmarket : r.2.spotMarket = normalizeSpotMarketKey sdk spotMarket)
    (hsequence : r.2.sequence =
      (r.1.books.shard (normalizeSpotMarketKey sdk spotMarket)).sequence)
    (hlast : r.2.lastTradePrice =
      (r.1.books.shard (normalizeSpotMarketKey sdk spotMarket)).lastTradePrice.map
        formatPricePieces)
    (hsent : (BookTx.withQuote sdk spotMarket r).2 = some sent) :
    TellsBook (normalizeSpotMarketKey sdk spotMarket)
      ((BookTx.withQuote sdk spotMarket r).1.books.shard (normalizeSpotMarketKey sdk spotMarket))
      sent := by
  unfold BookTx.withQuote at hsent
  cases hsent
  exact ⟨hmarket, hsequence, hlast, rfl⟩

theorem tellsBook_changeLevel {priceRaw amountRaw blockNum : UInt64} {isAdd : Bool}
    {lastTradePrice : Option UInt64} {sent : OrderBookDelta × QuoteDelta}
    (hsent : (BookTx.withQuote sdk spotMarket
      (t.changeLevel sdk spotMarket side priceRaw amountRaw isAdd blockNum lastTradePrice)).2 =
        some sent) :
    TellsBook (normalizeSpotMarketKey sdk spotMarket)
      ((t.changeLevel sdk spotMarket side priceRaw amountRaw isAdd blockNum
        lastTradePrice).1.books.shard (normalizeSpotMarketKey sdk spotMarket)) sent := by
  refine tellsBook_withQuote sdk spotMarket rfl ?_ ?_ hsent
  · simp only [BookTx.changeLevel, Books.applyLevelChange, Books.shard_setShard, if_true]
  · simp only [BookTx.changeLevel, Books.applyLevelChange, Books.shard_setShard, if_true]

end Sent

namespace BookOp

def publishedQuote (t : BookTx) (op : BookOp) : Option QuoteDelta :=
  if op.publishWs then (op.apply sdk t).2.map (·.2) else none

/-- An operation that sends something works on its book, and tells it as it leaves it. -/
theorem tellsBook_apply (op : BookOp) (t : BookTx) {sent : OrderBookDelta × QuoteDelta}
    (hsent : (op.apply sdk t).2 = some sent) :
    op.idle = false ∧
      TellsBook (op.key sdk) ((op.apply sdk t).1.books.shard (op.key sdk)) sent := by
  cases op with
  | created spotMarket side priceRaw amountRaw blockNum publishWs =>
      simp only [apply, BookTx.applyCreated] at hsent ⊢
      split_ifs at hsent ⊢ with hidle
      exact ⟨decide_eq_false hidle, tellsBook_changeLevel sdk spotMarket side t hsent⟩
  | cancelled spotMarket side priceRaw amountRaw blockNum publishWs =>
      simp only [apply, BookTx.applyCancelled] at hsent ⊢
      split_ifs at hsent ⊢ with hidle
      exact ⟨decide_eq_false hidle, tellsBook_changeLevel sdk spotMarket side t hsent⟩
  | updated spotMarket side priceRaw oldAmountRaw newAmountRaw newRemainingRaw blockNum publishWs =>
      simp only [apply, BookTx.applyUpdated] at hsent ⊢
      split_ifs at hsent ⊢ with hidle hgrown
      · exact ⟨decide_eq_false hidle, tellsBook_changeLevel sdk spotMarket side t hsent⟩
      · exact ⟨decide_eq_false hidle, tellsBook_changeLevel sdk spotMarket side t hsent⟩
  | filled spotMarket side priceRaw fillAmountRaw blockNum lastTradePrice publishWs tradeTimeMs
      nowMs =>
      simp only [apply, BookTx.applyFilled] at hsent ⊢
      split_ifs at hsent ⊢ with hidle hlast
      · refine ⟨decide_eq_false hidle, tellsBook_withQuote sdk spotMarket rfl ?_ ?_ hsent⟩
        · simp only [BookTx.changeLevel, Books.applyLevelChange, Books.shard_setShard, if_true]
        · simp only [BookTx.changeLevel, Books.applyLevelChange, Books.shard_setShard, if_true]
      · refine ⟨decide_eq_false hidle, tellsBook_withQuote sdk spotMarket rfl ?_ ?_ hsent⟩
        · simp only [BookTx.changeLevel, Books.applyLevelChange, Books.shard, Books.setShard,
            AList.lookup_insert, Books.pushTrade, Option.getD_some]
        · simp only [BookTx.changeLevel, Books.applyLevelChange, Books.shard, Books.setShard,
            AList.lookup_insert, Books.pushTrade, Option.getD_some]
  | hydrate spotMarket chainBook lastTradePrice => cases hsent

theorem exists_sent {op : BookOp} (hpublish : op.publishWs = true) (hbusy : op.idle = false)
    (t : BookTx) : ∃ sent, (op.apply sdk t).2 = some sent := by
  cases op with
  | created spotMarket side priceRaw amountRaw blockNum publishWs =>
      simp only [apply, BookTx.applyCreated, if_neg (of_decide_eq_false hbusy)]
      exact ⟨_, rfl⟩
  | cancelled spotMarket side priceRaw amountRaw blockNum publishWs =>
      simp only [apply, BookTx.applyCancelled, if_neg (of_decide_eq_false hbusy)]
      exact ⟨_, rfl⟩
  | updated spotMarket side priceRaw oldAmountRaw newAmountRaw newRemainingRaw blockNum publishWs =>
      simp only [apply, BookTx.applyUpdated]
      have hneg := of_decide_eq_false hbusy
      unfold oldRemaining at hneg
      rw [if_neg hneg]
      split_ifs
      · exact ⟨_, rfl⟩
      · exact ⟨_, rfl⟩
  | filled spotMarket side priceRaw fillAmountRaw blockNum lastTradePrice publishWs tradeTimeMs
      nowMs =>
      simp only [apply, BookTx.applyFilled, if_neg (of_decide_eq_false hbusy)]
      split_ifs
      · exact ⟨_, rfl⟩
      · exact ⟨_, rfl⟩
  | hydrate spotMarket chainBook lastTradePrice => cases hpublish

theorem advances_apply (op : BookOp) (t : BookTx) (key : String) :
    (t.books.shard key).Advances ((op.apply sdk t).1.books.shard key) := by
  rw [shard_apply]
  split_ifs
  · exact SpotBook.advances_of_bump (op.sequence_onBook _ _)
  · exact SpotBook.Advances.refl _

end BookOp

/-! ## Runs -/

def quotesAlong (key : String) : BookTx → List BookOp → List QuoteDelta
  | _, [] => []
  | t, op :: ops =>
      (op.publishedQuote sdk t).toList.filter (fun quote => quote.spotMarket = key) ++
        quotesAlong key (op.apply sdk t).1 ops

section Runs

variable (key : String) (t : BookTx)

/-- A step sends nothing to the channels of a market, or a delta and a quote that tell the
book after it. -/
theorem sent_cases (op : BookOp) :
    let deltas := (op.published sdk t).toList.filter fun delta => delta.spotMarket = key
    let quotes := (op.publishedQuote sdk t).toList.filter fun quote => quote.spotMarket = key
    (deltas = [] ∧ quotes = [] ∧
        (op.publishWs = true → op.key sdk = key → op.idle = true)) ∨
      ∃ sent, deltas = [sent.1] ∧ quotes = [sent.2] ∧ op.key sdk = key ∧ op.idle = false ∧
        TellsBook key ((op.apply sdk t).1.books.shard key) sent := by
  intro deltas quotes
  dsimp only [deltas, quotes]
  unfold BookOp.published BookOp.publishedQuote
  by_cases hpublish : op.publishWs = true
  · rw [if_pos hpublish, if_pos hpublish]
    cases hsent : (op.apply sdk t).2 with
    | none =>
        refine .inl ⟨rfl, rfl, fun _ _ => ?_⟩
        by_contra hbusy
        obtain ⟨sent, hsome⟩ := BookOp.exists_sent sdk hpublish (eq_false_of_ne_true hbusy) t
        rw [hsent] at hsome
        cases hsome
    | some sent =>
        obtain ⟨hbusy, htells⟩ := op.tellsBook_apply sdk t hsent
        have hquote : sent.2.spotMarket = op.key sdk := by
          rw [htells.quote]
          rfl
        simp only [Option.map_some, Option.toList_some, List.filter_singleton, hquote,
          htells.spotMarket]
        by_cases hkey : op.key sdk = key
        · rw [decide_eq_true hkey]
          exact .inr ⟨sent, rfl, rfl, hkey, hbusy, hkey ▸ htells⟩
        · rw [decide_eq_false hkey]
          exact .inl ⟨rfl, rfl, fun _ h => absurd h hkey⟩
  · rw [if_neg hpublish, if_neg hpublish]
    exact .inl ⟨rfl, rfl, fun h => absurd h hpublish⟩

variable (ops : List BookOp)

theorem exists_sentAlong :
    ∃ sent : List (OrderBookDelta × QuoteDelta),
      deltasAlong sdk key t ops = sent.map Prod.fst ∧
        quotesAlong sdk key t ops = sent.map Prod.snd ∧
        ∀ s ∈ sent, ∃ book ∈ booksAlong sdk key t ops, TellsBook key book s := by
  induction ops generalizing t with
  | nil => exact ⟨[], rfl, rfl, fun _ h => absurd h List.not_mem_nil⟩
  | cons op ops ih =>
      obtain ⟨rest, hdeltas, hquotes, htell⟩ := ih (op.apply sdk t).1
      have hlater : ∀ s ∈ rest,
          ∃ book ∈ booksAlong sdk key t (op :: ops), TellsBook key book s := by
        intro s hs
        obtain ⟨book, hbook, hs'⟩ := htell s hs
        exact ⟨book, List.mem_cons_of_mem _ hbook, hs'⟩
      rw [deltasAlong, quotesAlong, hdeltas, hquotes]
      rcases sent_cases sdk key t op with ⟨hnone, hnone', -⟩ | ⟨s, hs, hs', -, -, htells⟩
      · rw [hnone, hnone']
        exact ⟨rest, rfl, rfl, hlater⟩
      · rw [hs, hs']
        refine ⟨s :: rest, rfl, rfl, fun r hr => ?_⟩
        rcases List.mem_cons.mp hr with rfl | hr
        · exact ⟨_, List.mem_cons_of_mem _ (mem_booksAlong_self sdk key _ ops), htells⟩
        · exact hlater r hr

variable {key t ops}

/-- The sequence only grows, and what is shown stays while it does. -/
theorem sameShown_booksAlong
    (hlt : ∀ book ∈ booksAlong sdk key t ops, book.sequence.toNat < Word.u64Max)
    {book : SpotBook} (hbook : book ∈ booksAlong sdk key t ops) :
    (t.books.shard key).sequence.toNat ≤ book.sequence.toNat ∧
      (book.sequence = (t.books.shard key).sequence → (t.books.shard key).SameShown book) := by
  induction ops generalizing t with
  | nil =>
      rw [booksAlong, List.mem_singleton] at hbook
      subst hbook
      exact ⟨le_refl _, fun _ => SpotBook.SameShown.refl _⟩
  | cons op ops ih =>
      rw [booksAlong, List.mem_cons] at hbook
      rcases hbook with rfl | hbook
      · exact ⟨le_refl _, fun _ => SpotBook.SameShown.refl _⟩
      · obtain ⟨hle, hsame⟩ := ih (fun b hb => hlt b (List.mem_cons_of_mem _ hb)) hbook
        have hmove := op.advances_apply sdk t key
        refine ⟨hmove.le.trans hle, fun heq => ?_⟩
        have hnext : ((op.apply sdk t).1.books.shard key).sequence =
            (t.books.shard key).sequence := by
          apply UInt64.toNat_inj.mp
          have hge := hmove.le
          rw [heq] at hle
          omega
        obtain ⟨hlevels, hlast⟩ := hmove.same (hlt _ List.mem_cons_self) hnext
        exact SpotBook.SameShown.trans ⟨hlevels, hlast⟩ (hsame (heq.trans hnext.symm))

/-- A market shows one thing for each sequence of a run. -/
theorem sameShown_of_sequence_eq
    (hlt : ∀ book ∈ booksAlong sdk key t ops, book.sequence.toNat < Word.u64Max)
    {book book' : SpotBook} (hbook : book ∈ booksAlong sdk key t ops)
    (hbook' : book' ∈ booksAlong sdk key t ops) (hsequence : book'.sequence = book.sequence) :
    book.SameShown book' := by
  induction ops generalizing t with
  | nil =>
      rw [booksAlong, List.mem_singleton] at hbook hbook'
      rw [hbook, hbook']
      exact SpotBook.SameShown.refl _
  | cons op ops ih =>
      rw [booksAlong, List.mem_cons] at hbook hbook'
      rcases hbook with rfl | hbook
      · rcases hbook' with rfl | hbook'
        · exact SpotBook.SameShown.refl _
        · exact (sameShown_booksAlong sdk hlt (List.mem_cons_of_mem _ hbook')).2 hsequence
      · rcases hbook' with rfl | hbook'
        · have hlater := sameShown_booksAlong sdk hlt (List.mem_cons_of_mem _ hbook)
          exact (hlater.2 hsequence.symm).symm
        · exact ih (fun b hb => hlt b (List.mem_cons_of_mem _ hb)) hbook hbook'

/-- A quote of a run tells every book of the run that is at its sequence. -/
theorem quote_of_mem
    (hlt : ∀ book ∈ booksAlong sdk key t ops, book.sequence.toNat < Word.u64Max)
    {quote : QuoteDelta} (hquote : quote ∈ quotesAlong sdk key t ops) :
    (∃ book ∈ booksAlong sdk key t ops, book.sequence = quote.sequence) ∧
      ∀ book ∈ booksAlong sdk key t ops, book.sequence = quote.sequence →
        quote = Books.quoteFromBook key quote.blockNum book := by
  obtain ⟨sent, -, hquotes, htell⟩ := exists_sentAlong sdk key t ops
  rw [hquotes, List.mem_map] at hquote
  obtain ⟨s, hs, rfl⟩ := hquote
  obtain ⟨book, hbook, htells⟩ := htell s hs
  have hsequence : s.2.sequence = book.sequence := by
    rw [htells.quote]
    rfl
  have hblock : s.2.blockNum = s.1.blockNum := by
    rw [htells.quote]
    rfl
  refine ⟨⟨book, hbook, hsequence.symm⟩, fun book' hbook' heq => ?_⟩
  have hsame := sameShown_of_sequence_eq sdk hlt hbook hbook' (heq.trans hsequence)
  rw [hblock, hsame.quote (heq.trans hsequence)]
  exact htells.quote

variable (t ops)

end Runs

/-- The best of what a client shows of a side: no price that is shown stands for one that
trades before it. -/
structure Tops (side : OrderSide) (shown : Dict String String) (best : Option BookLevelDelta) :
    Prop where
  none_iff : best = none ↔ ∀ price, shown.lookup price = none
  first : ∀ level, best = some level → shown.lookup level.price = some level.size ∧
    ∃ priceRaw, PriceFits priceRaw ∧ formatPricePieces priceRaw = level.price ∧
      ∀ other size, PriceFits other → shown.lookup (formatPricePieces other) = some size →
        side.rank priceRaw ≤ side.rank other

omit sdk in
theorem tops_of_showsSide {side : OrderSide} {levels : Dict UInt64 UInt64}
    {shown : Dict String String} (hshows : ShowsSide shown levels)
    (hfits : ∀ p q, levels.lookup p = some q → PriceFits p) :
    Tops side shown ((Books.bestOf side.better levels).map Books.formatLevel) := by
  constructor
  · rw [Option.map_eq_none_iff, Books.bestOf_eq_none_iff]
    constructor
    · intro hnone price
      rw [Option.eq_none_iff_forall_ne_some]
      intro size hsize
      obtain ⟨p, q, hpq, -, -⟩ := (hshows price size).mp hsize
      rw [hnone p] at hpq
      cases hpq
    · intro hnone p
      rw [Option.eq_none_iff_forall_ne_some]
      intro q hpq
      have hshown := (hshows _ _).mpr ⟨p, q, hpq, rfl, rfl⟩
      rw [hnone] at hshown
      cases hshown
  · intro level hlevel
    obtain ⟨⟨p, q⟩, hbest, rfl⟩ := Option.map_eq_some_iff.mp hlevel
    obtain ⟨hpq, hfirst⟩ := Books.bestOf_eq_some_iff.mp hbest
    refine ⟨(hshows _ _).mpr ⟨p, q, hpq, rfl, rfl⟩, p, hfits p q hpq, rfl, ?_⟩
    intro other size hother hsize
    obtain ⟨p', q', hpq', hprice, -⟩ := (hshows _ _).mp hsize
    rw [← formatPricePieces_inj (hfits p' q' hpq') hother hprice]
    exact hfirst p' q' hpq'

/-- A client that follows both feeds, the deltas in any order and with any losses, finds in a
quote of the sequence that it is at the best of the levels that it holds. -/
theorem quote_tops_replica (key : String) (t : BookTx) (ops : List BookOp)
    (hfits : BookFits (t.books.shard key)) (hfit : ∀ op ∈ ops, op.PricesFit)
    (hlt : ∀ book ∈ booksAlong sdk key t ops, book.sequence.toNat < Word.u64Max)
    (start : SpotBook) (hstart : start ∈ booksAlong sdk key t ops) (depth : Nat)
    (hbids : start.bids.entries.length ≤ depth) (hasks : start.asks.entries.length ≤ depth)
    (received : List OrderBookDelta)
    (hreceived : ∀ d ∈ received, d ∈ deltasAlong sdk key t ops)
    (quote : QuoteDelta) (hquote : quote ∈ quotesAlong sdk key t ops) :
    let replica := received.foldl Replica.receive
      (Replica.ofSnapshot (Books.bookToWsSnapshot key start depth))
    quote.sequence = replica.sequence → ∀ side,
      Tops side (replica.levels side) (quote.best side) := by
  intro replica hsequence side
  have hsnapshot := shows_ofSnapshot key (bookFits_booksAlong sdk hfit hfits hstart) hbids hasks
  obtain ⟨book, hbook, hshows⟩ :=
    shows_foldl_receive sdk hfit hfits hlt received hreceived hstart hsnapshot
  have hat : book.sequence = quote.sequence := hshows.sequence.symm.trans hsequence.symm
  rw [(quote_of_mem sdk hlt hquote).2 book hbook hat, Books.best_quoteFromBook]
  exact tops_of_showsSide (hshows.side side) (bookFits_booksAlong sdk hfit hfits hbook side)

namespace Sample

def firstQuote : QuoteDelta where
  spotMarket := market
  sequence := 1
  blockNum := 1
  bestBid := some ⟨formatPricePieces 4500, formatTokenAmount 1500000⟩
  bestAsk := none
  lastTradePrice := none

def bookReplica : Replica :=
  (deltasAlong Sample.sdk market noBooks bookOps).foldl Replica.receive
    (Replica.ofSnapshot (Books.bookToWsSnapshot market {} 20))

theorem firstQuote_tops_bookReplica :
    firstQuote.sequence = bookReplica.sequence ∧
      ∀ side, Tops side (bookReplica.levels side) (firstQuote.best side) := by
  have hfit : ∀ op ∈ bookOps, op.PricesFit := by
    intro op hop
    simp only [bookOps, List.mem_cons, List.not_mem_nil, or_false] at hop
    rcases hop with rfl | rfl | rfl <;>
      simp only [BookOp.PricesFit, BookOp.Prices, PriceFits] <;> decide
  have hfits : BookFits (noBooks.books.shard market) := by
    intro side price size h
    cases side <;> cases h
  have hsequence : firstQuote.sequence = bookReplica.sequence := by
    decide +kernel
  refine ⟨hsequence, ?_⟩
  exact quote_tops_replica Sample.sdk market noBooks bookOps hfits hfit (by decide +kernel) {}
    List.mem_cons_self 20 (by decide) (by decide) _ (fun d hd => hd) firstQuote
    (by decide +kernel) hsequence

end Sample

end ClobIndexer
