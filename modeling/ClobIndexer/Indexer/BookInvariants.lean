import ClobIndexer.HexSdk
import ClobIndexer.Indexer.BookRows
import ClobIndexer.Indexer.BookShard
import ClobIndexer.Lib.Runs
import ClobIndexer.Lib.Tickets
/-!
# What the books keep, whoever calls

The operations on the books run side by side.  One that does not return at once works on
the book of its market while it holds its lock, and nobody sees the book in between; but
the ids of trades come from one counter, which the holders of all locks fetch from.
-/

namespace ClobIndexer

open Lib

/-! ## One operation -/

namespace SpotBook

/-- No level is empty, and none is at price zero that the given view has not. -/
structure LevelsFit (view : Option GetOrderBook) (book : SpotBook) : Prop where
  size_ne_zero : ∀ side price, (book.levels side).lookup price ≠ some 0
  price_zero : ∀ side size, (book.levels side).lookup 0 = some size →
    ∃ chainBook, view = some chainBook ∧
      ∃ level ∈ chainBook.levels side, level.price = 0 ∧ level.totalQuantity = size

/-- The sequence grows by one at most, and what is shown under it changes only if it does. -/
structure Advances (book book' : SpotBook) : Prop where
  le : book.sequence.toNat ≤ book'.sequence.toNat
  le_succ : book'.sequence.toNat ≤ book.sequence.toNat + 1
  same : book.sequence.toNat < Word.u64Max → book'.sequence = book.sequence →
    (∀ side, book'.levels side = book.levels side) ∧ book'.lastTradePrice = book.lastTradePrice

def tradeIds (book : SpotBook) : List UInt64 := book.trades.map (·.id)

variable {view : Option GetOrderBook} {book book' : SpotBook}

theorem LevelsFit.congr (h : book.LevelsFit view)
    (hlevels : ∀ side, book'.levels side = book.levels side) : book'.LevelsFit view := by
  constructor
  · intro side
    rw [hlevels]
    exact h.size_ne_zero side
  · intro side
    rw [hlevels]
    exact h.price_zero side

theorem Advances.refl (book : SpotBook) : book.Advances book :=
  ⟨le_refl _, Nat.le_succ _, fun _ _ => ⟨fun _ => rfl, rfl⟩⟩

theorem advances_of_bump (h : book'.sequence = Word.satAdd book.sequence 1) :
    book.Advances book' := by
  have hmax := Word.toNat_le book.sequence
  have hnext : book'.sequence.toNat = min (book.sequence.toNat + 1) Word.u64Max := by
    rw [h, Word.toNat_satAdd]
    rfl
  refine ⟨by omega, by omega, fun hlt hsame => ?_⟩
  rw [hsame] at hnext
  omega

theorem levels_levelled (book : SpotBook) (side side' : OrderSide) (priceRaw amountRaw : UInt64) (isAdd : Bool)
    (lastTradePrice : Option UInt64) :
    ∃ size, (book.levelled side priceRaw amountRaw isAdd lastTradePrice).levels side' =
      (book.setSize side priceRaw size).levels side' := by
  let current := book.sizeAt side priceRaw
  refine ⟨if isAdd then Word.satAdd current amountRaw else Word.satSub current amountRaw, ?_⟩
  cases side' <;> rfl

theorem levels_noted (tradeSeq : UInt64) (side side' : OrderSide) (fill : FillKey)
    (tradeTimeMs : Option UInt64) (nowMs : UInt64) :
    (book.noted tradeSeq side fill tradeTimeMs nowMs).levels side' = book.levels side' := by
  unfold noted
  dsimp only
  split_ifs
  · cases side' <;> rfl
  · cases side' <;> rfl

theorem LevelsFit.levelled (h : book.LevelsFit view) (side : OrderSide) {priceRaw : UInt64}
    (hprice : priceRaw ≠ 0) (amountRaw : UInt64) (isAdd : Bool)
    (lastTradePrice : Option UInt64) :
    (book.levelled side priceRaw amountRaw isAdd lastTradePrice).LevelsFit view := by
  constructor
  · intro side' price
    obtain ⟨size, hlevels⟩ :=
      book.levels_levelled side side' priceRaw amountRaw isAdd lastTradePrice
    rw [hlevels, lookup_levels_setSize]
    split_ifs with hat hsize
    · simp
    · simp [hsize]
    · exact h.size_ne_zero side' price
  · intro side'
    obtain ⟨size, hlevels⟩ :=
      book.levels_levelled side side' priceRaw amountRaw isAdd lastTradePrice
    rw [hlevels, lookup_levels_setSize, if_neg fun hat => hprice hat.2.symm]
    exact h.price_zero side'

theorem levelsFit_reloaded (chainBook : GetOrderBook) (lastTradePrice : Option UInt64) :
    (book.reloaded chainBook lastTradePrice).LevelsFit (some chainBook) := by
  have hloaded : ∀ side, (book.reloaded chainBook lastTradePrice).levels side =
      BookTx.loaded (chainBook.levels side) ∅ := by
    intro side
    cases side <;> rfl
  constructor
  · intro side price hzero
    rw [hloaded] at hzero
    exact (BookTx.exists_level_of_loaded hzero).1 rfl
  · intro side size hsize
    rw [hloaded] at hsize
    exact ⟨chainBook, rfl, (BookTx.exists_level_of_loaded hsize).2⟩

theorem lastFill_noted (tradeSeq : UInt64) (side : OrderSide) (fill : FillKey)
    (tradeTimeMs : Option UInt64) (nowMs : UInt64) :
    (book.noted tradeSeq side fill tradeTimeMs nowMs).lastFill = some fill := by
  unfold noted
  dsimp only
  split_ifs <;> rfl

theorem tradeIds_noted (tradeSeq : UInt64) (side : OrderSide) (fill : FillKey)
    (tradeTimeMs : Option UInt64) (nowMs : UInt64) :
    (book.noted tradeSeq side fill tradeTimeMs nowMs).tradeIds =
      if book.lastFill = some fill then book.tradeIds
      else (Word.satAdd tradeSeq 1 :: book.tradeIds).take recentTradeLimit := by
  unfold noted tradeIds
  dsimp only
  split_ifs
  · rfl
  · simp [Books.pushTrade, List.map_take]

theorem tradeIds_levelled (side : OrderSide) (priceRaw amountRaw : UInt64) (isAdd : Bool)
    (lastTradePrice : Option UInt64) :
    (book.levelled side priceRaw amountRaw isAdd lastTradePrice).tradeIds = book.tradeIds := by
  cases side <;> rfl

end SpotBook

namespace BookOp

/-- The operation pushes a trade onto a book whose last fill is given. -/
def draws (lastFill : Option FillKey) : BookOp → Bool
  | filled _ _ priceRaw fillAmountRaw blockNum _ _ _ _ =>
      lastFill ≠ some ⟨blockNum, priceRaw, fillAmountRaw⟩
  | created _ _ _ _ _ _ => false
  | cancelled _ _ _ _ _ _ => false
  | updated _ _ _ _ _ _ _ _ => false
  | hydrate _ _ _ => false

def view : BookOp → Option GetOrderBook
  | hydrate _ chainBook _ => some chainBook
  | created _ _ _ _ _ _ => none
  | cancelled _ _ _ _ _ _ => none
  | updated _ _ _ _ _ _ _ _ => none
  | filled _ _ _ _ _ _ _ _ _ => none

variable {book : SpotBook} {view : Option GetOrderBook} {op : BookOp}

theorem nextSeq_eq (op : BookOp) (tradeSeq : UInt64) (lastFill : Option FillKey) :
    op.nextSeq tradeSeq lastFill = if op.draws lastFill then tradeSeq + 1 else tradeSeq := by
  cases op with
  | filled spotMarket side priceRaw fillAmountRaw blockNum lastTradePrice publishWs tradeTimeMs
      nowMs =>
      by_cases hlast : lastFill = some ⟨blockNum, priceRaw, fillAmountRaw⟩
      · simp [nextSeq, draws, hlast]
      · simp [nextSeq, draws, hlast]
  | created => rfl
  | cancelled => rfl
  | updated => rfl
  | hydrate => rfl

theorem sequence_onBook (op : BookOp) (tradeSeq : UInt64) (book : SpotBook) :
    (op.onBook tradeSeq book).sequence = Word.satAdd book.sequence 1 := by
  cases op with
  | updated spotMarket side priceRaw oldAmountRaw newAmountRaw newRemainingRaw blockNum publishWs =>
      simp only [onBook]
      split_ifs <;> rfl
  | filled spotMarket side priceRaw fillAmountRaw blockNum lastTradePrice publishWs tradeTimeMs
      nowMs =>
      simp only [onBook, SpotBook.noted]
      split_ifs <;> rfl
  | created => rfl
  | cancelled => rfl
  | hydrate => rfl

/-- The levels stay fit; a load makes them fit its own view. -/
theorem levelsFit_onBook (hbusy : op.idle = false) (tradeSeq : UInt64)
    (h : book.LevelsFit view) : (op.onBook tradeSeq book).LevelsFit (op.view.or view) := by
  cases op with
  | created spotMarket side priceRaw amountRaw blockNum publishWs =>
      simp only [idle, decide_eq_false_iff_not, not_or] at hbusy
      exact h.levelled side hbusy.1 amountRaw true none
  | cancelled spotMarket side priceRaw amountRaw blockNum publishWs =>
      simp only [idle, decide_eq_false_iff_not, not_or] at hbusy
      exact h.levelled side hbusy.1 amountRaw false none
  | updated spotMarket side priceRaw oldAmountRaw newAmountRaw newRemainingRaw blockNum publishWs =>
      simp only [idle, decide_eq_false_iff_not, not_or] at hbusy
      simp only [onBook]
      split_ifs
      · exact h.levelled side hbusy.1 _ true none
      · exact h.levelled side hbusy.1 _ false none
  | filled spotMarket side priceRaw fillAmountRaw blockNum lastTradePrice publishWs tradeTimeMs
      nowMs =>
      simp only [idle, decide_eq_false_iff_not, not_or] at hbusy
      have htaken := h.levelled side hbusy.1 fillAmountRaw false (some lastTradePrice)
      exact htaken.congr fun side' => SpotBook.levels_noted ..
  | hydrate spotMarket chainBook lastTradePrice =>
      exact SpotBook.levelsFit_reloaded chainBook lastTradePrice

/-- The ids on the tape: a new one at the front if the operation pushes a trade. -/
theorem tradeIds_onBook (op : BookOp) (tradeSeq : UInt64) (book : SpotBook) :
    (op.onBook tradeSeq book).tradeIds =
      if op.draws book.lastFill then
        (Word.satAdd tradeSeq 1 :: book.tradeIds).take recentTradeLimit
      else book.tradeIds := by
  cases op with
  | updated spotMarket side priceRaw oldAmountRaw newAmountRaw newRemainingRaw blockNum publishWs =>
      simp only [onBook, draws, Bool.false_eq_true, if_false]
      split_ifs
      · exact SpotBook.tradeIds_levelled ..
      · exact SpotBook.tradeIds_levelled ..
  | filled spotMarket side priceRaw fillAmountRaw blockNum lastTradePrice publishWs tradeTimeMs
      nowMs =>
      rw [onBook, SpotBook.tradeIds_noted, SpotBook.tradeIds_levelled, SpotBook.lastFill_levelled]
      by_cases hlast : book.lastFill = some ⟨blockNum, priceRaw, fillAmountRaw⟩
      · simp [draws, hlast]
      · simp [draws, hlast]
  | created => exact SpotBook.tradeIds_levelled ..
  | cancelled => exact SpotBook.tradeIds_levelled ..
  | hydrate => rfl

theorem length_trades_onBook (op : BookOp) (tradeSeq : UInt64)
    (h : book.trades.length ≤ recentTradeLimit) :
    (op.onBook tradeSeq book).trades.length ≤ recentTradeLimit := by
  have hids := congrArg List.length (op.tradeIds_onBook tradeSeq book)
  rw [SpotBook.tradeIds, List.length_map] at hids
  rw [hids]
  split_ifs
  · exact List.length_take_le _ _
  · rwa [SpotBook.tradeIds, List.length_map]

theorem onBook_of_not_draws (h : op.draws book.lastFill = false) (tradeSeq tradeSeq' : UInt64) :
    op.onBook tradeSeq book = op.onBook tradeSeq' book := by
  cases op with
  | filled spotMarket side priceRaw fillAmountRaw blockNum lastTradePrice publishWs tradeTimeMs
      nowMs =>
      simp only [draws, decide_eq_false_iff_not, not_not] at h
      simp only [onBook, SpotBook.noted, SpotBook.lastFill_levelled, if_pos h]
  | created => rfl
  | cancelled => rfl
  | updated => rfl
  | hydrate => rfl

end BookOp

/-! ## Operations side by side -/

/-- An operation that holds the lock of its market, with what it got from the counter. -/
structure BookSection where
  op : BookOp
  busy : op.idle = false
  fetched : Option UInt64

def BookSection.awaits (locked : BookSection) (book : SpotBook) : Bool :=
  locked.op.draws book.lastFill && locked.fetched.isNone

structure LockedBooks where
  books : Books := {}
  sections : Dict String BookSection := ∅
  /-- the view that each market was last loaded from; no operation reads it -/
  views : Dict String GetOrderBook := ∅

inductive BookStep where
  | enter (op : BookOp)
  | fetch (key : String)
  | leave (key : String)

def BookStep.isFetch : BookStep → Bool
  | .fetch _ => true
  | .enter _ => false
  | .leave _ => false

variable (sdk : Sdk)

namespace LockedBooks

def setSection (key : String) (locked : BookSection) (s : LockedBooks) : LockedBooks :=
  { s with sections := s.sections.insert key locked }

/-- A call returns at once or takes the lock of its market, once it is free. -/
def enter (op : BookOp) (s : LockedBooks) : LockedBooks :=
  if hbusy : op.idle = false then
    match s.sections.lookup (op.key sdk) with
    | some _ => s
    | none => s.setSection (op.key sdk) ⟨op, hbusy, none⟩
  else s

def fetched (key : String) (locked : BookSection) (s : LockedBooks) : LockedBooks :=
  { s with books := { s.books with tradeSeq := s.books.tradeSeq + 1 } }.setSection key
    { locked with fetched := some s.books.tradeSeq }

def fetch (key : String) (s : LockedBooks) : LockedBooks :=
  match s.sections.lookup key with
  | none => s
  | some locked => if locked.awaits (s.books.shard key) then s.fetched key locked else s

def left (key : String) (locked : BookSection) (s : LockedBooks) : LockedBooks where
  books := s.books.setShard key
    (locked.op.onBook (locked.fetched.getD 0) (s.books.shard key))
  sections := s.sections.erase key
  views :=
    match locked.op.view with
    | some chainBook => s.views.insert key chainBook
    | none => s.views

def leave (key : String) (s : LockedBooks) : LockedBooks :=
  match s.sections.lookup key with
  | none => s
  | some locked => if locked.awaits (s.books.shard key) then s else s.left key locked

def step (s : LockedBooks) : BookStep → LockedBooks
  | .enter op => s.enter sdk op
  | .fetch key => s.fetch key
  | .leave key => s.leave key

inductive Moves (s : LockedBooks) : BookStep → LockedBooks → Prop
  | stays (e : BookStep) : Moves s e s
  | enters (op : BookOp) (busy : op.idle = false)
      (hfree : s.sections.lookup (op.key sdk) = none) :
      Moves s (.enter op) (s.setSection (op.key sdk) ⟨op, busy, none⟩)
  | fetches (key : String) (locked : BookSection) (hheld : s.sections.lookup key = some locked)
      (hawaits : locked.awaits (s.books.shard key) = true) :
      Moves s (.fetch key) (s.fetched key locked)
  | leaves (key : String) (locked : BookSection) (hheld : s.sections.lookup key = some locked)
      (hready : locked.awaits (s.books.shard key) = false) :
      Moves s (.leave key) (s.left key locked)

theorem moves_step (s : LockedBooks) (e : BookStep) : s.Moves sdk e (s.step sdk e) := by
  cases e with
  | enter op =>
      show s.Moves sdk _ (s.enter sdk op)
      unfold enter
      split_ifs with hbusy
      · cases hheld : s.sections.lookup (op.key sdk) with
        | none => exact .enters op hbusy hheld
        | some locked => exact .stays _
      · exact .stays _
  | fetch key =>
      show s.Moves sdk _ (s.fetch key)
      unfold fetch
      cases hheld : s.sections.lookup key with
      | none => exact .stays _
      | some locked =>
          dsimp only
          split_ifs with hawaits
          · exact .fetches key locked hheld hawaits
          · exact .stays _
  | leave key =>
      show s.Moves sdk _ (s.leave key)
      unfold leave
      cases hheld : s.sections.lookup key with
      | none => exact .stays _
      | some locked =>
          dsimp only
          split_ifs with hawaits
          · exact .stays _
          · exact .leaves key locked hheld (Bool.eq_false_of_not_eq_true hawaits)

/-! ## What every step keeps -/

/-- The books as anyone can see them. -/
structure Sound (s : LockedBooks) : Prop where
  size_ne_zero : ∀ key side price, ((s.books.shard key).levels side).lookup price ≠ some 0
  price_zero : ∀ key side size, ((s.books.shard key).levels side).lookup 0 = some size →
    ∃ chainBook, s.views.lookup key = some chainBook ∧
      ∃ level ∈ chainBook.levels side, level.price = 0
  length_le : ∀ key, (s.books.shard key).trades.length ≤ recentTradeLimit
  decreasing : ∀ key, ((s.books.shard key).trades.map (·.id)).Pairwise (· > ·)
  apart : ∀ key key', key ≠ key' → ∀ trade ∈ (s.books.shard key).trades,
    ∀ trade' ∈ (s.books.shard key').trades, trade.id ≠ trade'.id

/-- Only the end of a locked section changes the book of its market, and it advances it. -/
def SectionsAdvance (s : LockedBooks) (e : BookStep) : Prop :=
  ∀ key, (e ≠ .leave key → (s.step sdk e).books.shard key = s.books.shard key) ∧
    (s.books.shard key).Advances ((s.step sdk e).books.shard key)

/-- No id is fetched from a counter that has no next one. -/
def FetchesBelowMax (s : LockedBooks) : BookStep → Prop
  | .fetch key => ∀ locked, s.sections.lookup key = some locked →
      locked.awaits (s.books.shard key) = true → s.books.tradeSeq.toNat < Word.u64Max
  | .enter _ => True
  | .leave _ => True

def fetchedId (s : LockedBooks) (key : String) : Option UInt64 :=
  (s.sections.lookup key).bind fun locked =>
    locked.fetched.map fun tradeSeq => Word.satAdd tradeSeq 1

def ids (s : LockedBooks) (key : String) : List UInt64 :=
  (s.fetchedId key).toList ++ (s.books.shard key).tradeIds

structure Kept (s : LockedBooks) : Prop where
  levels : ∀ key, (s.books.shard key).LevelsFit (s.views.lookup key)
  length_le : ∀ key, (s.books.shard key).trades.length ≤ recentTradeLimit
  issued : Issued s.books.tradeSeq s.ids

variable {sdk} {s : LockedBooks}

theorem kept_empty : Kept {} where
  levels key := by
    constructor
    · intro side price
      cases side <;> exact nofun
    · intro side size hsize
      cases side <;> cases hsize
  length_le key := Nat.zero_le _
  issued := Issued.nil 0

theorem Kept.sound (h : s.Kept) : s.Sound where
  size_ne_zero key := (h.levels key).size_ne_zero
  price_zero key side size hsize := by
    obtain ⟨chainBook, hview, level, hlevel, hprice, -⟩ := (h.levels key).price_zero side size hsize
    exact ⟨chainBook, hview, level, hlevel, hprice⟩
  length_le := h.length_le
  decreasing key := (h.issued.decreasing key).sublist (List.sublist_append_right _ _)
  apart key key' hkey trade htrade trade' htrade' heq := by
    have hid : trade.id ∈ s.ids key := List.mem_append_right _ (List.mem_map_of_mem htrade)
    have hid' : trade'.id ∈ s.ids key' := List.mem_append_right _ (List.mem_map_of_mem htrade')
    exact h.issued.apart key key' hkey _ hid (heq ▸ hid')

theorem fetchedId_setSection (key key' : String) (locked : BookSection) :
    (s.setSection key locked).fetchedId key' =
      if key' = key then locked.fetched.map fun tradeSeq => Word.satAdd tradeSeq 1
      else s.fetchedId key' := by
  unfold fetchedId setSection
  dsimp only
  rw [Dict.lookup_insert_ite]
  split_ifs <;> rfl

theorem ids_enter {key : String} {locked : BookSection} (hfree : s.sections.lookup key = none)
    (hnew : locked.fetched = none) : (s.setSection key locked).ids = s.ids := by
  funext key'
  have hfetched : (s.setSection key locked).fetchedId key' = s.fetchedId key' := by
    rw [fetchedId_setSection]
    split_ifs with hkey
    · subst hkey
      simp [fetchedId, hfree, hnew]
    · rfl
  unfold ids
  rw [hfetched]
  rfl

theorem ids_fetched {key : String} {locked : BookSection}
    (hheld : s.sections.lookup key = some locked)
    (hawaits : locked.awaits (s.books.shard key) = true) :
    (s.fetched key locked).ids =
      Function.update s.ids key (Word.satAdd s.books.tradeSeq 1 :: s.ids key) := by
  have hnone : s.fetchedId key = none := by
    have hfetched : locked.fetched = none := by
      simp only [BookSection.awaits, Bool.and_eq_true, Option.isNone_iff_eq_none] at hawaits
      exact hawaits.2
    simp [fetchedId, hheld, hfetched]
  funext key'
  unfold ids fetched
  rw [fetchedId_setSection]
  by_cases hkey : key' = key
  · subst hkey
    rw [if_pos rfl, Function.update_self, hnone]
    rfl
  · rw [if_neg hkey, Function.update_of_ne hkey]
    rfl

theorem shard_left (key key' : String) (locked : BookSection) :
    (s.left key locked).books.shard key' =
      if key' = key then locked.op.onBook (locked.fetched.getD 0) (s.books.shard key)
      else s.books.shard key' := Books.shard_setShard ..

theorem views_left (key key' : String) (locked : BookSection) :
    (s.left key locked).views.lookup key' =
      if key' = key then locked.op.view.or (s.views.lookup key) else s.views.lookup key' := by
  unfold left
  cases locked.op.view with
  | none =>
      dsimp only
      split_ifs with hkey
      · rw [hkey]
        rfl
      · rfl
  | some chainBook =>
      dsimp only
      rw [Dict.lookup_insert_ite]
      rfl

theorem ids_left {key : String} {locked : BookSection}
    (hheld : s.sections.lookup key = some locked)
    (hready : locked.awaits (s.books.shard key) = false) (key' : String) :
    ((s.left key locked).ids key').Sublist (s.ids key') := by
  by_cases hkey : key' = key
  · subst hkey
    have hnone : (s.left key' locked).fetchedId key' = none := by
      simp [fetchedId, left]
    unfold ids
    rw [hnone, shard_left, if_pos rfl, BookOp.tradeIds_onBook]
    split_ifs with hdraws
    · -- the trade is pushed under the id that was fetched for it
      have hfetched : ∃ tradeSeq, locked.fetched = some tradeSeq := by
        simpa [BookSection.awaits, hdraws, Option.isSome_iff_exists] using hready
      obtain ⟨tradeSeq, htradeSeq⟩ := hfetched
      simp only [fetchedId, hheld, htradeSeq, Option.bind_some, Option.map_some,
        Option.toList_some, Option.toList_none, List.nil_append, List.singleton_append,
        Option.getD_some]
      exact List.take_sublist _ _
    · exact List.sublist_append_right _ _
  · have hfetched : (s.left key locked).fetchedId key' = s.fetchedId key' := by
      simp [fetchedId, left, AList.lookup_erase_ne hkey]
    unfold ids
    rw [hfetched, shard_left, if_neg hkey]

theorem kept_step (h : s.Kept) (e : BookStep) (he : s.FetchesBelowMax e) :
    (s.step sdk e).Kept := by
  generalize hnext : s.step sdk e = s'
  have hmoves : s.Moves sdk e s' := hnext ▸ moves_step sdk s e
  cases hmoves with
  | stays => exact h
  | enters op busy hfree =>
      refine ⟨h.levels, h.length_le, ?_⟩
      rw [ids_enter hfree rfl]
      exact h.issued
  | fetches key locked hheld hawaits =>
      refine ⟨h.levels, h.length_le, ?_⟩
      have hlt := he locked hheld hawaits
      have hnext : (Word.satAdd s.books.tradeSeq 1) = s.books.tradeSeq + 1 :=
        Word.satAdd_one_of_lt hlt
      have hgrows : s.books.tradeSeq < s.books.tradeSeq + 1 := by
        rw [← hnext, UInt64.lt_iff_toNat_lt, Word.toNat_satAdd]
        have hone : (1 : UInt64).toNat = 1 := rfl
        omega
      rw [ids_fetched hheld hawaits, hnext]
      exact h.issued.draw hgrows key
  | leaves key locked hheld hready =>
      constructor
      · intro key'
        rw [shard_left, views_left]
        split_ifs with hkey
        · exact BookOp.levelsFit_onBook locked.busy _ (h.levels key)
        · exact h.levels key'
      · intro key'
        rw [shard_left]
        split_ifs with hkey
        · exact BookOp.length_trades_onBook locked.op _ (h.length_le key)
        · exact h.length_le key'
      · exact h.issued.sublist (ids_left hheld hready)

theorem sectionsAdvance_step (s : LockedBooks) (e : BookStep) : s.SectionsAdvance sdk e := by
  intro key
  generalize hnext : s.step sdk e = s'
  have hmoves : s.Moves sdk e s' := hnext ▸ moves_step sdk s e
  cases hmoves with
  | stays => exact ⟨fun _ => rfl, SpotBook.Advances.refl _⟩
  | enters => exact ⟨fun _ => rfl, SpotBook.Advances.refl _⟩
  | fetches => exact ⟨fun _ => rfl, SpotBook.Advances.refl _⟩
  | leaves key' locked hheld hready =>
      rw [shard_left]
      split_ifs with hkey
      · subst hkey
        refine ⟨fun hne => absurd rfl hne, SpotBook.advances_of_bump ?_⟩
        exact BookOp.sequence_onBook locked.op _ _
      · exact ⟨fun _ => rfl, SpotBook.Advances.refl _⟩

variable (sdk) in
/-- The counter has a next id for every trade of fewer than `2 ^ 64` fetches. -/
theorem fetchesBelowMax_of_count {steps : List BookStep}
    (hcount : steps.countP BookStep.isFetch < 2 ^ 64) :
    Along (step sdk) FetchesBelowMax steps {} := by
  have hgrow : ∀ (s : LockedBooks) (e : BookStep), (s.step sdk e).books.tradeSeq.toNat ≤
      s.books.tradeSeq.toNat + if e.isFetch = true then 1 else 0 := by
    intro s e
    generalize hnext : s.step sdk e = s'
    have hmoves : s.Moves sdk e s' := hnext ▸ moves_step sdk s e
    cases hmoves with
    | stays => exact Nat.le_add_right _ _
    | enters => exact Nat.le_add_right _ _
    | leaves => exact Nat.le_add_right _ _
    | fetches =>
        show (s.books.tradeSeq + 1).toNat ≤ s.books.tradeSeq.toNat + 1
        rw [UInt64.toNat_add]
        exact Nat.mod_le _ _
  have hbelow : Along (step sdk) (fun s e => e.isFetch = true →
      s.books.tradeSeq.toNat + 1 < 2 ^ 64) steps {} :=
    along_of_countP hgrow (by simpa using hcount)
  refine along_of_along (I := fun _ => True) (fun _ _ _ _ => trivial) ?_ trivial hbelow
  intro s e _ he
  cases e with
  | enter op => trivial
  | leave key => trivial
  | fetch key =>
      intro locked hheld hawaits
      have hlt := he rfl
      unfold Word.u64Max
      omega

variable (sdk) in
/-- From empty books, whoever calls what and in whatever order they come to hold the locks:
as long as the counter has a next id for each trade, everyone sees sound books, and every
locked section advances the book of its market. -/
theorem sound_of_fetchesBelowMax (steps : List BookStep)
    (hfetches : Along (step sdk) FetchesBelowMax steps {}) :
    Throughout (step sdk) Sound steps {} ∧ Along (step sdk) (SectionsAdvance sdk) steps {} := by
  constructor
  · have hkept : Throughout (step sdk) Kept steps {} :=
      throughout_of_along (fun s e hs he => kept_step hs e he) kept_empty hfetches
    exact hkept.mono fun s hs => hs.sound
  · exact along_of_along (I := Kept) (fun s e hs he => kept_step hs e he)
      (fun s e _ _ => sectionsAdvance_step s e) kept_empty hfetches

/-! ## One operation after the other -/

variable (sdk) in
def callSteps (op : BookOp) : List BookStep :=
  [.enter op, .fetch (op.key sdk), .leave (op.key sdk)]

theorem lookup_setSection (key key' : String) (locked : BookSection) :
    (s.setSection key locked).sections.lookup key' =
      if key' = key then some locked else s.sections.lookup key' := Dict.lookup_insert_ite ..

theorem lookup_left (key key' : String) (locked : BookSection) :
    (s.left key locked).sections.lookup key' =
      if key' = key then none else s.sections.lookup key' := Dict.lookup_erase_ite ..

/-- A section from the lock to its release: the counter moves on if a trade is pushed. -/
theorem run_section (op : BookOp) (busy : op.idle = false) (key : String) :
    let entered := s.setSection key ⟨op, busy, none⟩
    let book := s.books.shard key
    let done := (entered.fetch key).leave key
    done.books = { s.books.setShard key (op.onBook s.books.tradeSeq book) with
      tradeSeq := op.nextSeq s.books.tradeSeq book.lastFill } ∧
    ∀ key', done.sections.lookup key' = if key' = key then none else s.sections.lookup key' := by
  intro entered book done
  let locked : BookSection := ⟨op, busy, none⟩
  have hheld : entered.sections.lookup key = some locked := AList.lookup_insert _
  have hbook : entered.books.shard key = book := rfl
  rw [BookOp.nextSeq_eq]
  by_cases hdraws : op.draws book.lastFill = true
  · let counted : BookSection := ⟨op, busy, some s.books.tradeSeq⟩
    have hawaits : locked.awaits book = true := by
      simpa [BookSection.awaits, locked] using hdraws
    have hfetch : entered.fetch key = entered.fetched key locked := by
      simp [fetch, hheld, hbook, hawaits]
    have hheld' : (entered.fetched key locked).sections.lookup key = some counted :=
      AList.lookup_insert _
    have hdone : done = (entered.fetched key locked).left key counted := by
      simp [done, hfetch, leave, hheld', BookSection.awaits, counted]
    rw [hdone, if_pos hdraws]
    refine ⟨rfl, fun key' => ?_⟩
    rw [lookup_left]
    split_ifs with hkey
    · rfl
    · rw [fetched, lookup_setSection, if_neg hkey]
      exact (lookup_setSection key key' locked).trans (if_neg hkey)
  · have hawaits : locked.awaits book = false := by
      simpa [BookSection.awaits, locked] using hdraws
    have hfetch : entered.fetch key = entered := by
      simp [fetch, hheld, hbook, hawaits]
    have hdone : done = entered.left key locked := by
      simp [done, hfetch, leave, hheld, hbook, hawaits]
    rw [hdone, if_neg hdraws]
    constructor
    · have hsame : op.onBook 0 book = op.onBook s.books.tradeSeq book :=
        BookOp.onBook_of_not_draws (Bool.eq_false_of_not_eq_true hdraws) _ _
      show s.books.setShard key (op.onBook 0 book) = s.books.setShard key _
      rw [hsame]
    · intro key'
      rw [lookup_left]
      split_ifs with hkey
      · rfl
      · exact (lookup_setSection key key' locked).trans (if_neg hkey)

variable (sdk) in
/-- Alone, an operation does what it does to the books at once. -/
theorem run_callSteps (op : BookOp) {t : BookTx} (hbooks : s.books = t.books)
    (hfree : ∀ key, s.sections.lookup key = none) :
    let done := (callSteps sdk op).foldl (step sdk) s
    done.books = (op.apply sdk t).1.books ∧ ∀ key, done.sections.lookup key = none := by
  intro done
  rw [BookOp.books_apply, ← hbooks]
  by_cases hbusy : op.idle = false
  · have henter : s.enter sdk op = s.setSection (op.key sdk) ⟨op, hbusy, none⟩ := by
      simp [enter, hbusy, hfree]
    have hdone : done = ((s.setSection (op.key sdk) ⟨op, hbusy, none⟩).fetch
        (op.key sdk)).leave (op.key sdk) := by
      rw [← henter]
      rfl
    obtain ⟨hdoneBooks, hdoneFree⟩ := run_section (s := s) op hbusy (op.key sdk)
    rw [hdone, if_neg (by simp [hbusy])]
    refine ⟨hdoneBooks, fun key => ?_⟩
    rw [hdoneFree, hfree, ite_self]
  · have henter : s.enter sdk op = s := dif_neg hbusy
    have hfetch : s.fetch (op.key sdk) = s := by
      simp [fetch, hfree]
    have hleave : s.leave (op.key sdk) = s := by
      simp [leave, hfree]
    have hdone : done = s := by
      show ((s.enter sdk op).fetch (op.key sdk)).leave (op.key sdk) = s
      rw [henter, hfetch, hleave]
    rw [hdone, if_pos (Bool.eq_true_of_not_eq_false hbusy)]
    exact ⟨rfl, hfree⟩

variable (sdk) in
/-- So a list of calls is one of the runs. -/
theorem run_calls (ops : List BookOp) {t : BookTx} (hbooks : s.books = t.books)
    (hfree : ∀ key, s.sections.lookup key = none) :
    ((ops.flatMap (callSteps sdk)).foldl (step sdk) s).books =
      (ops.foldl (fun t op => (op.apply sdk t).1) t).books := by
  induction ops generalizing s t with
  | nil => exact hbooks
  | cons op ops ih =>
      rw [List.flatMap_cons, List.foldl_append, List.foldl_cons]
      obtain ⟨hbooks', hfree'⟩ := run_callSteps sdk op hbooks hfree
      exact ih hbooks' hfree'

end LockedBooks

namespace Sample

open LockedBooks

def blockFill (spotMarket : String) (n : Nat) : BookOp :=
  .filled spotMarket .buy 4500 1 (UInt64.ofNat n) 4500 true none 0

/-- Two markets are filled at the same time, and the one that came second fetches first. -/
def crossedFills : List BookStep :=
  [.enter (blockFill market 0), .enter (blockFill otherMarket 0), .fetch otherMarket,
    .fetch market, .leave market, .leave otherMarket]

theorem crossedFills_sound :
    (((crossedFills.foldl (step Sample.sdk) {}).books.shard market).tradeIds = [2] ∧
      ((crossedFills.foldl (step Sample.sdk) {}).books.shard otherMarket).tradeIds = [1]) ∧
    Throughout (step Sample.sdk) Sound crossedFills {} ∧
      Along (step Sample.sdk) (SectionsAdvance Sample.sdk) crossedFills {} := by
  refine ⟨by decide +kernel, sound_of_fetchesBelowMax Sample.sdk crossedFills ?_⟩
  exact fetchesBelowMax_of_count Sample.sdk (by decide)

def blockFills (n : Nat) : List BookOp := (List.range n).map (blockFill market)

def filledBooks (n : Nat) : Books :=
  ((blockFills n).foldl (fun t op => (op.apply Sample.sdk t).1) noBooks).books

theorem filledBooks_succ (n : Nat) :
    (filledBooks (n + 1)).tradeSeq =
        (blockFill market n).nextSeq (filledBooks n).tradeSeq
          ((filledBooks n).shard market).lastFill ∧
      (filledBooks (n + 1)).shard market =
        (blockFill market n).onBook (filledBooks n).tradeSeq ((filledBooks n).shard market) := by
  have hkey : (blockFill market n).key Sample.sdk = market := normalize_market
  have hbusy : (blockFill market n).idle = false := rfl
  unfold filledBooks blockFills
  rw [List.range_succ, List.map_append, List.foldl_append, List.map_singleton, List.foldl_cons,
    List.foldl_nil, BookOp.tradeSeq_apply, BookOp.shard_apply, hkey, hbusy]
  simp

theorem toNat_ofNat_of_le {n : Nat} (hn : n ≤ Word.u64Max) : (UInt64.ofNat n).toNat = n := by
  rw [UInt64.toNat_ofNat']
  unfold Word.u64Max at hn
  omega

theorem filledBooks_newest {n : Nat} (hn : n ≤ Word.u64Max) :
    (filledBooks n).tradeSeq = UInt64.ofNat n ∧
      (blockFill market n).draws ((filledBooks n).shard market).lastFill = true ∧
      (0 < n → ((filledBooks n).shard market).tradeIds.head? = some (UInt64.ofNat n)) := by
  induction n with
  | zero => exact ⟨rfl, rfl, fun h => absurd h (Nat.lt_irrefl 0)⟩
  | succ n ih =>
      obtain ⟨hseq, hdraws, -⟩ := ih (by omega)
      obtain ⟨hnextSeq, hbook⟩ := filledBooks_succ n
      have hlt : (UInt64.ofNat n).toNat < Word.u64Max := by
        rw [toNat_ofNat_of_le (by omega)]
        omega
      have hnext : UInt64.ofNat n + 1 = UInt64.ofNat (n + 1) :=
        (UInt64.ofNat_add n 1).symm
      rw [hnextSeq, hbook, BookOp.nextSeq_eq, BookOp.tradeIds_onBook, hdraws, hseq]
      refine ⟨hnext, ?_, fun _ => ?_⟩
      · -- the next fill is of another block
        have hlast : ((blockFill market n).onBook (UInt64.ofNat n)
            ((filledBooks n).shard market)).lastFill = some ⟨UInt64.ofNat n, 4500, 1⟩ :=
          SpotBook.lastFill_noted ..
        rw [hlast]
        simp [blockFill, BookOp.draws]
      · rw [Word.satAdd_one_of_lt hlt, hnext]
        rfl

theorem filledBooks_wrapped {n : Nat} (hn : n = Word.u64Max + 1) :
    ¬((filledBooks n).shard market).tradeIds.Pairwise (· > ·) := by
  obtain ⟨last, rfl⟩ : ∃ last, n = last + 1 := ⟨Word.u64Max, hn⟩
  have hlast : last = Word.u64Max := Nat.succ_inj.mp hn
  obtain ⟨hseq, hdraws, hnewest⟩ := filledBooks_newest hlast.le
  have hpos : 0 < last := by
    rw [hlast]
    decide
  have hsame : Word.satAdd (UInt64.ofNat last) 1 = UInt64.ofNat last := by
    rw [hlast]
    decide
  obtain ⟨older, holder⟩ := List.head?_eq_some_iff.mp (hnewest hpos)
  rw [(filledBooks_succ last).2, BookOp.tradeIds_onBook, hdraws, hseq, holder, hsame]
  intro hdecreasing
  have hfront : UInt64.ofNat last > UInt64.ofNat last :=
    List.rel_of_pairwise_cons hdecreasing List.mem_cons_self
  exact absurd hfront (UInt64.lt_irrefl _)

theorem not_throughout_blockFills {n : Nat} (hn : n = Word.u64Max + 1) :
    ¬Throughout (step Sample.sdk) Sound ((blockFills n).flatMap (callSteps Sample.sdk)) {} := by
  intro h
  have hbooks : (((blockFills n).flatMap (callSteps Sample.sdk)).foldl (step Sample.sdk) {}).books =
      filledBooks n := run_calls Sample.sdk (blockFills n) rfl fun _ => rfl
  have hdecreasing := h.finish.decreasing market
  rw [hbooks] at hdecreasing
  exact filledBooks_wrapped hn hdecreasing

/-- One fill in each of `2 ^ 64` blocks: the last two trades have one id. -/
theorem blockFills_wrap :
    ¬Throughout (step Sample.sdk) Sound ((blockFills (2 ^ 64)).flatMap (callSteps Sample.sdk))
      {} := not_throughout_blockFills (by decide)

end Sample

end ClobIndexer
