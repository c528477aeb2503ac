import ClobIndexer.Indexer.BookTotals
import ClobIndexer.Indexer.Steps
/-!
# Book levels step by step

The book step of an order event moves at most one level, by an amount that the
event alone fixes.  Two books that agree on every level stay so; a book that is
ahead of another by some size at one level stays so while that level does not
saturate.
-/

namespace ClobIndexer

open Lib

structure LevelMove where
  side : OrderSide
  price : UInt64
  isAdd : Bool
  amount : UInt64
deriving DecidableEq

namespace LevelMove

def next (move : LevelMove) (size : UInt64) : UInt64 :=
  if move.isAdd then Word.satAdd size move.amount else Word.satSub size move.amount

def unlessNothing (side : OrderSide) (price : UInt64) (isAdd : Bool) (amount : UInt64) :
    Option LevelMove :=
  if price = 0 ∨ amount = 0 then none else some ⟨side, price, isAdd, amount⟩

end LevelMove

namespace OrderCreatedEvent

def levelMove (e : OrderCreatedEvent) : Option LevelMove :=
  match e.orderType with
  | .limit price => LevelMove.unlessNothing e.side price true e.amount
  | .market => none
  | .trigger _ => none

end OrderCreatedEvent

namespace MarketOrderEvent

def levelMove (skip : Bool) : MarketOrderEvent → Option LevelMove
  | .created e => if skip then none else e.levelMove
  | .cancelled e => LevelMove.unlessNothing e.side e.price false e.cancelledAmount
  | .updated e =>
      let oldRemaining := Word.satSub e.oldAmount (Word.satSub e.newAmount e.remainingAmount)
      if oldRemaining < e.remainingAmount then
        LevelMove.unlessNothing e.side e.price true (e.remainingAmount - oldRemaining)
      else LevelMove.unlessNothing e.side e.price false (oldRemaining - e.remainingAmount)
  | .filled e _ => LevelMove.unlessNothing e.side e.price false e.fillAmount
  | .executed _ => none

/-- A resize moves nothing if nothing is priced or the same remains, as the book has it. -/
theorem levelMove_updated (skip : Bool) (e : OrderUpdatedEvent) :
    levelMove skip (.updated e) =
      let old := Word.satSub e.oldAmount (Word.satSub e.newAmount e.remainingAmount)
      if e.price = 0 ∨ old = e.remainingAmount then none
      else if old < e.remainingAmount then
        some ⟨e.side, e.price, true, e.remainingAmount - old⟩
      else some ⟨e.side, e.price, false, old - e.remainingAmount⟩ := by
  unfold levelMove LevelMove.unlessNothing
  dsimp only
  generalize Word.satSub e.oldAmount (Word.satSub e.newAmount e.remainingAmount) = old
  have hup : e.price = 0 ∨ e.remainingAmount - old = 0 ↔ e.price = 0 ∨ old = e.remainingAmount := by
    rw [sub_eq_zero, eq_comm (a := e.remainingAmount)]
  have hdown : e.price = 0 ∨ old - e.remainingAmount = 0 ↔
      e.price = 0 ∨ old = e.remainingAmount := by
    rw [sub_eq_zero]
  by_cases h0 : e.price = 0 ∨ old = e.remainingAmount
  · rw [if_pos h0, if_pos (hup.mpr h0), if_pos (hdown.mpr h0), ite_self]
  · rw [if_neg h0, if_neg (mt hup.mp h0), if_neg (mt hdown.mp h0)]

end MarketOrderEvent

namespace SpotBook

def moved (book : SpotBook) : Option LevelMove → SpotBook
  | none => book
  | some move => book.setSize move.side move.price (move.next (book.sizeAt move.side move.price))

def SameLevels (a b : SpotBook) : Prop :=
  ∀ side price, (a.levels side).lookup price = (b.levels side).lookup price

theorem SameLevels.sizeAt {a b : SpotBook} (h : a.SameLevels b) (side : OrderSide)
    (price : UInt64) : a.sizeAt side price = b.sizeAt side price := by
  unfold SpotBook.sizeAt
  rw [h side price]

theorem SameLevels.moved {a b : SpotBook} (h : a.SameLevels b) (move : Option LevelMove) :
    (a.moved move).SameLevels (b.moved move) := by
  cases move with
  | none => exact h
  | some move =>
      intro side price
      unfold SpotBook.moved
      dsimp only
      rw [lookup_levels_setSize, lookup_levels_setSize, h.sizeAt, h side price]

/-- The first book holds `extra` more at one level, which is present in it. -/
structure AheadAt (side : OrderSide) (price : UInt64) (extra : Nat) (a b : SpotBook) : Prop where
  there : (a.sizeAt side price).toNat = (b.sizeAt side price).toNat + extra
  nonzero : (a.levels side).lookup price ≠ some 0
  elsewhere : ∀ side' price', ¬(side' = side ∧ price' = price) →
    (a.levels side').lookup price' = (b.levels side').lookup price'

theorem AheadAt.congr {a a' b b' : SpotBook} {side : OrderSide} {price : UInt64} {extra : Nat}
    (h : a.AheadAt side price extra b) (ha : a'.levels = a.levels) (hb : b'.levels = b.levels) :
    a'.AheadAt side price extra b' := by
  refine ⟨?_, ?_, ?_⟩
  · unfold SpotBook.sizeAt
    rw [ha, hb]
    exact h.there
  · rw [ha]
    exact h.nonzero
  · rw [ha, hb]
    exact h.elsewhere

/-- A move does not saturate at a level, also with `extra` resting there. -/
def Bears (side : OrderSide) (price : UInt64) (extra : Nat) (book : SpotBook) :
    Option LevelMove → Prop
  | none => True
  | some move =>
      move.side = side → move.price = price →
        if move.isAdd then
          (book.sizeAt side price).toNat + extra + move.amount.toNat ≤ Word.u64Max
        else move.amount.toNat ≤ (book.sizeAt side price).toNat

theorem sizeAt_setSize (book : SpotBook) (side side' : OrderSide) (price price' size : UInt64) :
    (book.setSize side price size).sizeAt side' price' =
      if side' = side ∧ price' = price then size else book.sizeAt side' price' := by
  unfold sizeAt
  rw [lookup_levels_setSize]
  split_ifs with hat h0
  · exact h0.symm
  · rfl
  · rfl

theorem lookup_setSize_ne_zero (book : SpotBook) (side : OrderSide) (price size : UInt64) :
    ((book.setSize side price size).levels side).lookup price ≠ some 0 := by
  rw [lookup_levels_setSize, if_pos ⟨rfl, rfl⟩]
  split_ifs with h0
  · exact fun h => by cases h
  · exact fun h => h0 (Option.some.inj h)

theorem AheadAt.moved {a b : SpotBook} {side : OrderSide} {price : UInt64} {extra : Nat}
    (h : a.AheadAt side price extra b) {move : Option LevelMove}
    (hbears : b.Bears side price extra move) :
    (a.moved move).AheadAt side price extra (b.moved move) := by
  cases move with
  | none => exact h
  | some move =>
      unfold SpotBook.moved
      dsimp only
      by_cases hat : side = move.side ∧ price = move.price
      · obtain ⟨rfl, rfl⟩ := hat
        refine ⟨?_, lookup_setSize_ne_zero _ _ _ _, fun side' price' hne => ?_⟩
        · rw [sizeAt_setSize, if_pos ⟨rfl, rfl⟩, sizeAt_setSize, if_pos ⟨rfl, rfl⟩]
          have hbears := hbears rfl rfl
          have hthere := h.there
          unfold LevelMove.next
          split_ifs at hbears ⊢ with hadd
          · rw [Word.toNat_satAdd, Word.toNat_satAdd]
            omega
          · rw [Word.toNat_satSub, Word.toNat_satSub]
            omega
        · rw [lookup_levels_setSize, if_neg hne, lookup_levels_setSize, if_neg hne]
          exact h.elsewhere side' price' hne
      · -- the moved level is one of those the books agree on
        have hsize : a.sizeAt move.side move.price = b.sizeAt move.side move.price := by
          unfold SpotBook.sizeAt
          rw [h.elsewhere _ _ fun h' => hat ⟨h'.1.symm, h'.2.symm⟩]
        refine ⟨?_, ?_, fun side' price' hne => ?_⟩
        · rw [sizeAt_setSize, if_neg hat, sizeAt_setSize, if_neg hat]
          exact h.there
        · rw [lookup_levels_setSize, if_neg hat]
          exact h.nonzero
        · rw [lookup_levels_setSize, lookup_levels_setSize, hsize, h.elsewhere side' price' hne]

end SpotBook

/-! ## What a step does to the book -/

namespace BookTx

variable (sdk : Sdk) (spotMarket : String)

/-- The book of the market after an operation is the old one with a level moved,
up to what is no level. -/
def MovesLevel (move : Option LevelMove) (b b' : Books) : Prop :=
  let key := normalizeSpotMarketKey sdk spotMarket
  (b'.shard key).chainHydrated = (b.shard key).chainHydrated ∧
    (b'.shard key).levels = ((b.shard key).moved move).levels

theorem movesLevel_none (b : Books) : MovesLevel sdk spotMarket none b b := ⟨rfl, rfl⟩

theorem movesLevel_changeLevel (t : BookTx) (side : OrderSide) (price amount blockNum : UInt64)
    (isAdd : Bool) (lastTradePrice : Option UInt64) :
    MovesLevel sdk spotMarket (some ⟨side, price, isAdd, amount⟩) t.books
      (t.changeLevel sdk spotMarket side price amount isAdd blockNum lastTradePrice).1.books :=
  shard_changeLevel sdk spotMarket t side price amount blockNum isAdd lastTradePrice

theorem movesLevel_applyCreated (t : BookTx) (side : OrderSide) (price amount blockNum : UInt64) :
    MovesLevel sdk spotMarket (LevelMove.unlessNothing side price true amount) t.books
      (t.applyCreated sdk spotMarket side price amount blockNum).1.books := by
  unfold applyCreated LevelMove.unlessNothing
  split_ifs with h0
  · exact movesLevel_none sdk spotMarket t.books
  · exact movesLevel_changeLevel sdk spotMarket t side price amount blockNum true none

theorem movesLevel_applyCancelled (t : BookTx) (side : OrderSide)
    (price amount blockNum : UInt64) :
    MovesLevel sdk spotMarket (LevelMove.unlessNothing side price false amount) t.books
      (t.applyCancelled sdk spotMarket side price amount blockNum).1.books := by
  unfold applyCancelled LevelMove.unlessNothing
  split_ifs with h0
  · exact movesLevel_none sdk spotMarket t.books
  · exact movesLevel_changeLevel sdk spotMarket t side price amount blockNum false none

theorem movesLevel_applyUpdated (t : BookTx) (e : OrderUpdatedEvent) (blockNum : UInt64) :
    MovesLevel sdk spotMarket (MarketOrderEvent.levelMove false (.updated e)) t.books
      (t.applyUpdated sdk spotMarket e.side e.price e.oldAmount e.newAmount e.remainingAmount
        blockNum).1.books := by
  rw [MarketOrderEvent.levelMove_updated]
  unfold applyUpdated
  dsimp only
  split_ifs
  · exact movesLevel_none sdk spotMarket t.books
  · exact movesLevel_changeLevel sdk spotMarket t e.side e.price _ blockNum true none
  · exact movesLevel_changeLevel sdk spotMarket t e.side e.price _ blockNum false none

theorem movesLevel_applyFilled (t : BookTx) (side : OrderSide)
    (price amount blockNum lastTradePrice : UInt64) (tradeTimeMs : Option UInt64)
    (nowMs : UInt64) :
    MovesLevel sdk spotMarket (LevelMove.unlessNothing side price false amount) t.books
      (t.applyFilled sdk spotMarket side price amount blockNum lastTradePrice tradeTimeMs
        nowMs).1.books := by
  have hchange := movesLevel_changeLevel sdk spotMarket t side price amount blockNum false
    (some lastTradePrice)
  unfold applyFilled LevelMove.unlessNothing
  dsimp only
  split_ifs with h0 hlast
  · exact movesLevel_none sdk spotMarket t.books
  · unfold MovesLevel withQuote at *
    dsimp only at hchange ⊢
    rw [Books.shard_setShard, if_pos rfl]
    exact hchange
  · unfold MovesLevel withQuote at *
    dsimp only at hchange ⊢
    change (Books.shard (Books.setShard _ _ _) _).chainHydrated = _ ∧
      (Books.shard (Books.setShard _ _ _) _).levels = _
    rw [Books.shard_setShard, if_pos rfl]
    exact hchange

def loaded (chainLevels : List ChainLevel) (acc : Dict UInt64 UInt64) : Dict UInt64 UInt64 :=
  chainLevels.foldl
    (fun acc level =>
      if level.totalQuantity = 0 then acc else acc.insert level.price level.totalQuantity) acc

theorem loadSide_fst (key : String) (side : OrderSide) (chainLevels : List ChainLevel)
    (acc : Dict UInt64 UInt64 × TableWrites LevelKey Int64) :
    (loadSide sdk key side chainLevels acc).1 = loaded chainLevels acc.1 := by
  unfold loadSide loaded
  induction chainLevels generalizing acc with
  | nil => rfl
  | cons level rest ih =>
      rw [List.foldl_cons, List.foldl_cons, ih]
      split_ifs <;> rfl

theorem exists_level_of_loaded {chainLevels : List ChainLevel} {price size : UInt64}
    (h : (loaded chainLevels ∅).lookup price = some size) :
    size ≠ 0 ∧ ∃ level ∈ chainLevels, level.price = price ∧ level.totalQuantity = size := by
  let rests := fun d : Dict UInt64 UInt64 => ∀ price size, d.lookup price = some size →
    size ≠ 0 ∧ ∃ level ∈ chainLevels, level.price = price ∧ level.totalQuantity = size
  have hloaded : rests (loaded chainLevels ∅) := by
    unfold loaded
    refine List.foldlRecOn (motive := rests) chainLevels _ (fun _ _ hempty => nomatch hempty) ?_
    intro d hd level hlevel price size hsize
    split_ifs at hsize with h0
    · exact hd price size hsize
    · rw [Dict.lookup_insert_ite] at hsize
      split_ifs at hsize with hprice
      · cases hsize
        exact ⟨h0, level, hlevel, hprice.symm, rfl⟩
      · exact hd price size hsize
  exact hloaded price size h

theorem shard_hydrateFromChain (t : BookTx) (chainBook : GetOrderBook)
    (lastTradePrice : Option UInt64) :
    let book := (t.hydrateFromChain sdk spotMarket chainBook lastTradePrice).books.shard
      (normalizeSpotMarketKey sdk spotMarket)
    book.chainHydrated = true ∧ book.bids = loaded chainBook.bestBids ∅ ∧
      book.asks = loaded chainBook.bestAsks ∅ := by
  unfold hydrateFromChain
  dsimp only
  rw [Books.shard_setShard, if_pos rfl]
  exact ⟨rfl, loadSide_fst sdk _ _ _ _, loadSide_fst sdk _ _ _ _⟩

end BookTx

namespace Ctx

variable (env : Env) (opts : ProcessOpts) (blockNum : UInt64) (spotMarket : String)

theorem movesLevel_applyOrderCreatedToBook (c : Ctx) (e : OrderCreatedEvent) (publishWs : Bool) :
    BookTx.MovesLevel env.sdk spotMarket e.levelMove c.store.books
      (c.applyOrderCreatedToBook env blockNum e spotMarket publishWs).store.books := by
  unfold applyOrderCreatedToBook OrderCreatedEvent.levelMove
  cases e.orderType with
  | limit price =>
      exact BookTx.movesLevel_applyCreated env.sdk spotMarket
        ⟨c.store.books, c.ws.bookLevels, c.ws.bookMeta⟩ e.side price e.amount blockNum
  | market => exact BookTx.movesLevel_none env.sdk spotMarket c.store.books
  | trigger limitPrice => exact BookTx.movesLevel_none env.sdk spotMarket c.store.books

theorem movesLevel_applyToBook (skip : Bool) (c : Ctx) (e : MarketOrderEvent) :
    BookTx.MovesLevel env.sdk spotMarket (e.levelMove skip) c.store.books
      (c.applyToBook env opts blockNum spotMarket skip e).store.books := by
  cases e with
  | created e =>
      unfold applyToBook MarketOrderEvent.levelMove
      dsimp only
      split_ifs
      · exact BookTx.movesLevel_none env.sdk spotMarket c.store.books
      · exact movesLevel_applyOrderCreatedToBook env blockNum spotMarket c e opts.publishWs
  | cancelled e =>
      exact BookTx.movesLevel_applyCancelled env.sdk spotMarket
        ⟨c.store.books, c.ws.bookLevels, c.ws.bookMeta⟩ e.side e.price e.cancelledAmount blockNum
  | updated e =>
      exact BookTx.movesLevel_applyUpdated env.sdk spotMarket
        ⟨c.store.books, c.ws.bookLevels, c.ws.bookMeta⟩ e blockNum
  | filled e txSender =>
      exact BookTx.movesLevel_applyFilled env.sdk spotMarket
        ⟨c.store.books, c.ws.bookLevels, c.ws.bookMeta⟩ e.side e.price e.fillAmount blockNum
        e.price _ env.nowMs
  | executed e => exact BookTx.movesLevel_none env.sdk spotMarket c.store.books

end Ctx

end ClobIndexer
