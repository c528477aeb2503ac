import ClobIndexer.Indexer.Books
/-!
# What a book shows

A book shows level totals when every level holds its total and the levels whose
total is zero have no entry.  Each book operation moves the shown totals by its
amount, as long as the totals stay within a word and no more is taken from a
level than it holds.
-/

namespace ClobIndexer

open Lib

namespace SpotBook

abbrev Totals := OrderSide → UInt64 → Nat

/-- Every level holds its total, and a level is absent exactly when that is zero. -/
def Shows (book : SpotBook) (totals : Totals) : Prop :=
  ∀ side price, ((book.levels side).lookup price).map UInt64.toNat =
    if totals side price = 0 then none else some (totals side price)

theorem Shows.toNat_sizeAt {book : SpotBook} {totals : Totals} (h : book.Shows totals)
    (side : OrderSide) (price : UInt64) : (book.sizeAt side price).toNat = totals side price := by
  have hsp := h side price
  unfold sizeAt
  cases hl : (book.levels side).lookup price with
  | none =>
      rw [hl, Option.map_none] at hsp
      split_ifs at hsp with h0
      exact h0.symm
  | some size =>
      rw [hl, Option.map_some] at hsp
      split_ifs at hsp with h0
      exact Option.some.inj hsp

theorem Shows.congr {book book' : SpotBook} {totals totals' : Totals} (h : book.Shows totals)
    (hlevels : book'.levels = book.levels)
    (htotals : ∀ side price, totals' side price = totals side price) : book'.Shows totals' := by
  intro side price
  rw [hlevels, htotals]
  exact h side price

theorem Shows.setSize {book : SpotBook} {totals totals' : Totals} (h : book.Shows totals)
    {side : OrderSide} {price size : UInt64} (hsize : size.toNat = totals' side price)
    (helse : ∀ side' price', ¬(side' = side ∧ price' = price) →
      totals' side' price' = totals side' price') :
    (book.setSize side price size).Shows totals' := by
  intro side' price'
  rw [lookup_levels_setSize]
  by_cases hat : side' = side ∧ price' = price
  · obtain ⟨rfl, rfl⟩ := hat
    rw [if_pos ⟨rfl, rfl⟩, ← hsize]
    by_cases h0 : size = 0
    · rw [if_pos h0, if_pos ((Word.eq_zero_iff size).mp h0)]
      rfl
    · rw [if_neg h0, if_neg fun h => h0 ((Word.eq_zero_iff size).mpr h)]
      rfl
  · rw [if_neg hat, helse side' price' hat]
    exact h side' price'

end SpotBook

open SpotBook

namespace BookTx

structure ShowsAt (sdk : Sdk) (spotMarket : String) (books : Books) (totals : Totals) :
    Prop where
  hydrated : books.isChainHydrated sdk spotMarket = true
  shows : (books.shard (normalizeSpotMarketKey sdk spotMarket)).Shows totals

section

variable (sdk : Sdk) (spotMarket : String)

theorem isChainHydrated_eq (b : Books) :
    b.isChainHydrated sdk spotMarket =
      (b.shard (normalizeSpotMarketKey sdk spotMarket)).chainHydrated := by
  unfold Books.isChainHydrated Books.shard
  cases b.shards.lookup (normalizeSpotMarketKey sdk spotMarket) with
  | none => rfl
  | some book => rfl

theorem showsAt_iff (b : Books) (totals : Totals) :
    ShowsAt sdk spotMarket b totals ↔
      (b.shard (normalizeSpotMarketKey sdk spotMarket)).chainHydrated = true ∧
        (b.shard (normalizeSpotMarketKey sdk spotMarket)).Shows totals := by
  rw [← isChainHydrated_eq]
  exact ⟨fun h => ⟨h.hydrated, h.shows⟩, fun h => ⟨h.1, h.2⟩⟩

theorem shard_changeLevel (t : BookTx) (side : OrderSide) (price amount blockNum : UInt64)
    (isAdd : Bool) (lastTradePrice : Option UInt64) :
    let book := t.books.shard (normalizeSpotMarketKey sdk spotMarket)
    let book' := (t.changeLevel sdk spotMarket side price amount isAdd blockNum
      lastTradePrice).1.books.shard (normalizeSpotMarketKey sdk spotMarket)
    book'.chainHydrated = book.chainHydrated ∧
      book'.levels = (book.setSize side price
        (if isAdd then Word.satAdd (book.sizeAt side price) amount
        else Word.satSub (book.sizeAt side price) amount)).levels := by
  unfold changeLevel
  dsimp only
  rw [Books.shard_setShard, if_pos rfl]
  constructor
  · cases side <;> rfl
  · rfl

end

variable {sdk : Sdk} {spotMarket : String} {t : BookTx} {totals totals' : Totals}
  {side : OrderSide} {price : UInt64}

theorem showsAt_changeLevel (h : ShowsAt sdk spotMarket t.books totals)
    (amount blockNum : UInt64) (isAdd : Bool) (lastTradePrice : Option UInt64)
    (hat : if isAdd then
        totals' side price = totals side price + amount.toNat ∧ totals' side price ≤ Word.u64Max
      else totals' side price + amount.toNat = totals side price)
    (helse : ∀ side' price', ¬(side' = side ∧ price' = price) →
      totals' side' price' = totals side' price') :
    ShowsAt sdk spotMarket (t.changeLevel sdk spotMarket side price amount isAdd blockNum
      lastTradePrice).1.books totals' := by
  obtain ⟨hhyd, hlevels⟩ :=
    shard_changeLevel sdk spotMarket t side price amount blockNum isAdd lastTradePrice
  rw [showsAt_iff] at h ⊢
  refine ⟨hhyd.trans h.1, ?_⟩
  have hsize := h.2.toNat_sizeAt side price
  have hnext : (if isAdd then
        Word.satAdd ((t.books.shard (normalizeSpotMarketKey sdk spotMarket)).sizeAt side price)
          amount
      else Word.satSub ((t.books.shard (normalizeSpotMarketKey sdk spotMarket)).sizeAt side price)
        amount).toNat = totals' side price := by
    cases isAdd with
    | true =>
        simp only [if_true] at hat ⊢
        rw [Word.toNat_satAdd, hsize]
        omega
    | false =>
        simp only [Bool.false_eq_true, if_false] at hat ⊢
        rw [Word.toNat_satSub, hsize]
        omega
  exact (h.2.setSize hnext helse).congr hlevels fun _ _ => rfl

theorem ShowsAt.congr (h : ShowsAt sdk spotMarket t.books totals)
    (htotals : ∀ side price, totals' side price = totals side price) :
    ShowsAt sdk spotMarket t.books totals' :=
  ⟨h.hydrated, h.shows.congr rfl htotals⟩

/-- What an operation with amounts does to the totals: one level moves. -/
structure Moves (side : OrderSide) (price : UInt64) (added taken : Nat)
    (totals totals' : Totals) : Prop where
  there : totals' side price + taken = totals side price + added
  fits : totals' side price ≤ Word.u64Max
  elsewhere : ∀ side' price', ¬(side' = side ∧ price' = price) →
    totals' side' price' = totals side' price'

theorem Moves.eq_of_eq {n : Nat} (h : Moves side price n n totals totals') (side' : OrderSide)
    (price' : UInt64) : totals' side' price' = totals side' price' := by
  by_cases hat : side' = side ∧ price' = price
  · obtain ⟨rfl, rfl⟩ := hat
    have := h.there
    omega
  · exact h.elsewhere side' price' hat

theorem showsAt_applyCreated (h : ShowsAt sdk spotMarket t.books totals)
    (amount blockNum : UInt64) (hprice : price ≠ 0)
    (hmoves : Moves side price amount.toNat 0 totals totals') :
    ShowsAt sdk spotMarket (t.applyCreated sdk spotMarket side price amount blockNum).1.books
      totals' := by
  unfold applyCreated
  split_ifs with h0
  · have hamount := h0.resolve_left hprice
    subst hamount
    exact h.congr hmoves.eq_of_eq
  · exact showsAt_changeLevel h amount blockNum true none ⟨hmoves.there, hmoves.fits⟩
      hmoves.elsewhere

theorem showsAt_applyCancelled (h : ShowsAt sdk spotMarket t.books totals)
    (amount blockNum : UInt64) (hprice : price ≠ 0)
    (hmoves : Moves side price 0 amount.toNat totals totals') :
    ShowsAt sdk spotMarket (t.applyCancelled sdk spotMarket side price amount blockNum).1.books
      totals' := by
  unfold applyCancelled
  split_ifs with h0
  · have hamount := h0.resolve_left hprice
    subst hamount
    exact h.congr hmoves.eq_of_eq
  · exact showsAt_changeLevel h amount blockNum false none hmoves.there hmoves.elsewhere

/-- The remaining size before a resize is read off its amounts: what was filled is
the difference of the new ones. -/
theorem showsAt_applyUpdated (h : ShowsAt sdk spotMarket t.books totals)
    (oldAmount newAmount remaining blockNum : UInt64) (hprice : price ≠ 0)
    (hmoves : Moves side price remaining.toNat
      (oldAmount.toNat - (newAmount.toNat - remaining.toNat)) totals totals') :
    ShowsAt sdk spotMarket (t.applyUpdated sdk spotMarket side price oldAmount newAmount remaining
      blockNum).1.books totals' := by
  have hold : (Word.satSub oldAmount (Word.satSub newAmount remaining)).toNat =
      oldAmount.toNat - (newAmount.toNat - remaining.toNat) := by
    rw [Word.toNat_satSub, Word.toNat_satSub]
  rw [← hold] at hmoves
  unfold applyUpdated
  dsimp only
  generalize Word.satSub oldAmount (Word.satSub newAmount remaining) = old at hmoves ⊢
  have hthere := hmoves.there
  split_ifs with h0 hlt
  · have heq := h0.resolve_left hprice
    subst heq
    exact h.congr hmoves.eq_of_eq
  · rw [UInt64.lt_iff_toNat_lt] at hlt
    refine showsAt_changeLevel h _ blockNum true none ⟨?_, hmoves.fits⟩ hmoves.elsewhere
    rw [Word.toNat_sub_of_le hlt.le]
    omega
  · rw [UInt64.lt_iff_toNat_lt] at hlt
    refine showsAt_changeLevel h _ blockNum false none ?_ hmoves.elsewhere
    change totals' side price + (old - remaining).toNat = _
    rw [Word.toNat_sub_of_le (by omega)]
    omega

theorem showsAt_applyFilled (h : ShowsAt sdk spotMarket t.books totals)
    (amount blockNum lastTradePrice : UInt64) (tradeTimeMs : Option UInt64) (nowMs : UInt64)
    (hprice : price ≠ 0) (hmoves : Moves side price 0 amount.toNat totals totals') :
    ShowsAt sdk spotMarket (t.applyFilled sdk spotMarket side price amount blockNum lastTradePrice
      tradeTimeMs nowMs).1.books totals' := by
  have hchange := showsAt_changeLevel h amount blockNum false (some lastTradePrice) hmoves.there
    hmoves.elsewhere
  unfold applyFilled
  dsimp only
  split_ifs with h0 hlast
  · have hamount := h0.resolve_left hprice
    subst hamount
    exact h.congr hmoves.eq_of_eq
  -- the trade and the fill mark leave the levels alone
  · rw [showsAt_iff] at hchange ⊢
    unfold withQuote
    dsimp only
    rw [Books.shard_setShard, if_pos rfl]
    exact ⟨hchange.1, hchange.2.congr rfl fun _ _ => rfl⟩
  · rw [showsAt_iff] at hchange ⊢
    unfold withQuote
    dsimp only
    change (Books.shard (Books.setShard _ _ _) _).chainHydrated = true ∧
      (Books.shard (Books.setShard _ _ _) _).Shows _
    rw [Books.shard_setShard, if_pos rfl]
    exact ⟨hchange.1, hchange.2.congr rfl fun _ _ => rfl⟩

end BookTx

end ClobIndexer
