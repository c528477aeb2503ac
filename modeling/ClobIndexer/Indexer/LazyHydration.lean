import ClobIndexer.HexSdk
import ClobIndexer.Indexer.BookRows
/-!
# Loading a book in the middle of its events

The first order event that needs the book of a market makes the index load it from
the node.  The view of the node is not tied to a block: it has the event already,
and whatever the chain has done since.  The event and the ones after it are then
applied on top.  What rests at a price in the end is the size of the view, moved
once more by every event since the load.
-/

namespace ClobIndexer

open Lib

namespace GetOrderBook

def sizeAt (book : GetOrderBook) (side : OrderSide) (price : UInt64) : UInt64 :=
  ((BookTx.loaded (book.levels side) ∅).lookup price).getD 0

end GetOrderBook

namespace LevelMove

def settle (side : OrderSide) (price : UInt64) (moves : List LevelMove) (size : UInt64) : UInt64 :=
  moves.foldl (fun size move => if move.side = side ∧ move.price = price then move.next size
    else size) size

theorem settle_append (side : OrderSide) (price : UInt64) (xs ys : List LevelMove)
    (size : UInt64) :
    settle side price (xs ++ ys) size = settle side price ys (settle side price xs size) :=
  List.foldl_append

end LevelMove

/-- One call of `apply_market_order_events` for a market. -/
structure MarketCall where
  opts : ProcessOpts
  blockNum : UInt64
  events : List MarketOrderEvent

structure CalledEvent where
  opts : ProcessOpts
  blockNum : UInt64
  event : MarketOrderEvent

def MarketCall.called (call : MarketCall) : List CalledEvent :=
  call.events.map fun e => ⟨call.opts, call.blockNum, e⟩

variable (env : Env) (spotMarket : String)

/-- The node answers the queries about the market, and its book is this one. -/
def Env.Serves (chainBook : GetOrderBook) : Prop :=
  ∃ contract, env.sdk.parseTokenContract spotMarket = some contract ∧
    (∀ calls, env.chain.getBook calls contract defaultBookDepth = some chainBook) ∧
      ∀ calls, (env.chain.getMarketInfo calls contract).isSome

namespace Ctx

def applyCall (c : Ctx) (call : MarketCall) : Ctx :=
  c.applyMarketOrderEvents env call.opts call.blockNum spotMarket call.events

def applyCalled (c : Ctx) (called : CalledEvent) : Ctx :=
  c.applyMarketOrderEvent env called.opts called.blockNum spotMarket called.event

def book (c : Ctx) : SpotBook := c.store.books.shard (normalizeSpotMarketKey env.sdk spotMarket)

/-- The index has the book of the chain. -/
def HoldsBook (chainBook : GetOrderBook) (c : Ctx) : Prop :=
  ∀ side price, (c.book env spotMarket).sizeAt side price = chainBook.sizeAt side price

def needsBook (c : Ctx) : MarketOrderEvent → Bool
  | .created e => !c.store.orders.hasChainOrder env.sdk spotMarket e.orderId
  | .updated _ => true
  | .filled _ _ => true
  | .cancelled _ => false
  | .executed _ => false

def levelMoves : Ctx → List CalledEvent → List LevelMove
  | _, [] => []
  | c, called :: rest =>
      (called.event.levelMove (c.enter env spotMarket called.event).2).toList ++
        levelMoves (c.applyCalled env spotMarket called) rest

/-- The moves from the load on, if some event makes the index load the book. -/
def movesSinceLoad : Ctx → List CalledEvent → Option (List LevelMove)
  | _, [] => none
  | c, called :: rest =>
      if c.needsBook env spotMarket called.event then
        some (c.levelMoves env spotMarket (called :: rest))
      else movesSinceLoad (c.applyCalled env spotMarket called) rest

/-- The moves since the load, or else all moves on the book as it was, leave every
price with the size that the chain's book has there. -/
def Settles (chainBook : GetOrderBook) (c : Ctx) (called : List CalledEvent) : Prop :=
  match c.movesSinceLoad env spotMarket called with
  | some moves => ∀ side price, LevelMove.settle side price moves (chainBook.sizeAt side price) =
      chainBook.sizeAt side price
  | none => ∀ side price, LevelMove.settle side price (c.levelMoves env spotMarket called)
      ((c.book env spotMarket).sizeAt side price) = chainBook.sizeAt side price

end Ctx

variable {env} {spotMarket} {chainBook : GetOrderBook}

/-! ## One event -/

theorem SpotBook.sizeAt_moved (book : SpotBook) (move : Option LevelMove) (side : OrderSide)
    (price : UInt64) :
    (book.moved move).sizeAt side price =
      LevelMove.settle side price move.toList (book.sizeAt side price) := by
  cases move with
  | none => rfl
  | some move =>
      unfold SpotBook.moved LevelMove.settle
      dsimp only [Option.toList_some, List.foldl_cons, List.foldl_nil]
      rw [sizeAt_setSize]
      by_cases hat : side = move.side ∧ price = move.price
      · obtain ⟨rfl, rfl⟩ := hat
        simp
      · have hat' : ¬(move.side = side ∧ move.price = price) :=
          fun h => hat ⟨h.1.symm, h.2.symm⟩
        rw [if_neg hat, if_neg hat']

namespace Ctx

theorem foldl_applyCall (calls : List MarketCall) (c : Ctx) :
    calls.foldl (applyCall env spotMarket) c =
      (calls.flatMap MarketCall.called).foldl (applyCalled env spotMarket) c := by
  induction calls generalizing c with
  | nil => rfl
  | cons call calls ih =>
      have hcall : call.called.foldl (applyCalled env spotMarket) c =
          c.applyCall env spotMarket call := by
        unfold MarketCall.called
        rw [List.foldl_map]
        rfl
      rw [List.foldl_cons, List.flatMap_cons, List.foldl_append, hcall]
      exact ih (c.applyCall env spotMarket call)

theorem book_hydrateSpotFromChain (h : env.Serves spotMarket chainBook) (c : Ctx) :
    ((c.hydrateSpotFromChain env spotMarket).book env spotMarket).chainHydrated = true ∧
      (c.hydrateSpotFromChain env spotMarket).HoldsBook env spotMarket chainBook := by
  obtain ⟨contract, hparse, hbook, hinfo⟩ := h
  have hloaded : ∀ (d : Ctx) lastTradePrice,
      ((d.installBook env spotMarket chainBook lastTradePrice).book env
        spotMarket).chainHydrated = true ∧
      (d.installBook env spotMarket chainBook lastTradePrice).HoldsBook env spotMarket
        chainBook := by
    intro d lastTradePrice
    obtain ⟨hhydrated, hbids, hasks⟩ := BookTx.shard_hydrateFromChain env.sdk spotMarket d.bookTx
      chainBook lastTradePrice
    refine ⟨hhydrated, fun side price => ?_⟩
    unfold SpotBook.sizeAt GetOrderBook.sizeAt
    cases side with
    | buy => exact congrArg (fun levels => (levels.lookup price).getD 0) hbids
    | sell => exact congrArg (fun levels => (levels.lookup price).getD 0) hasks
  have hanswer : getBookWithDepthFallback env.chain contract defaultBookDepth defaultBookDepth
      c.calls = (some chainBook, c.calls + 1) := by
    unfold defaultBookDepth getBookWithDepthFallback
    have hfirst := hbook c.calls
    unfold defaultBookDepth at hfirst
    rw [hfirst]
  unfold hydrateSpotFromChain
  rw [hparse]
  dsimp only
  rw [hanswer]
  dsimp only
  cases c.store.lastTradePrice.lookup (normalizeSpotMarketKey env.sdk spotMarket) with
  | some price => exact hloaded _ (some price)
  | none =>
      dsimp only
      obtain ⟨lastPrice, hlast⟩ := Option.isSome_iff_exists.mp (hinfo (c.calls + 1))
      rw [hlast]
      exact hloaded _ lastPrice

theorem book_enter (c : Ctx) (e : MarketOrderEvent) :
    (c.enter env spotMarket e).1.book env spotMarket = c.book env spotMarket := by
  cases e <;> rfl

variable (env spotMarket) in
theorem book_applyCalled (c : Ctx) (called : CalledEvent) :
    let entered := c.enter env spotMarket called.event
    let found := (entered.1.hydrateFor env spotMarket entered.2 called.event).book env spotMarket
    let left := (c.applyCalled env spotMarket called).book env spotMarket
    left.chainHydrated = found.chainHydrated ∧
      ∀ side price, left.sizeAt side price = LevelMove.settle side price
        (called.event.levelMove entered.2).toList (found.sizeAt side price) := by
  intro entered found left
  have hevent : (c.applyCalled env spotMarket called).bookTx =
      (c.beforeOrders env called.opts called.blockNum spotMarket called.event).1.bookTx := by
    unfold applyCalled
    rw [applyMarketOrderEvent_eq]
    exact BookWatch.Traces.bookTx_orders_finish called.opts called.blockNum spotMarket _ _ _
  have hleft : left = (c.beforeOrders env called.opts called.blockNum spotMarket
      called.event).1.book env spotMarket :=
    congrArg (fun t : BookTx => t.books.shard (normalizeSpotMarketKey env.sdk spotMarket)) hevent
  obtain ⟨hhydrated, hlevels⟩ := movesLevel_applyToBook env called.opts called.blockNum spotMarket
    entered.2 (entered.1.hydrateFor env spotMarket entered.2 called.event) called.event
  rw [hleft]
  refine ⟨hhydrated, fun side price => ?_⟩
  rw [← SpotBook.sizeAt_moved]
  exact congrArg (fun levels => ((levels side).lookup price).getD 0) hlevels

theorem hydrateFor_of_found (c : Ctx) (e : MarketOrderEvent)
    (h : (c.book env spotMarket).chainHydrated = true ∨ c.needsBook env spotMarket e = false) :
    let entered := c.enter env spotMarket e
    entered.1.hydrateFor env spotMarket entered.2 e = entered.1 := by
  have hensure : (c.book env spotMarket).chainHydrated = true → ∀ d : Ctx,
      d.book env spotMarket = c.book env spotMarket →
      d.ensureChainHydrated env spotMarket = d := by
    intro hhydrated d hd
    unfold ensureChainHydrated
    rw [BookTx.isChainHydrated_eq]
    change (if (d.book env spotMarket).chainHydrated = true then d else _) = d
    rw [hd, if_pos hhydrated]
  intro entered
  cases e with
  | created e =>
      change (if c.store.orders.hasChainOrder env.sdk spotMarket e.orderId = true then c
        else c.ensureChainHydrated env spotMarket) = c
      rcases h with hhydrated | hskip
      · rw [hensure hhydrated c rfl, ite_self]
      · have hdup : c.store.orders.hasChainOrder env.sdk spotMarket e.orderId = true := by
          simpa [needsBook] using hskip
        rw [if_pos hdup]
  | updated e =>
      rcases h with hhydrated | hskip
      · exact hensure hhydrated c rfl
      · cases hskip
  | filled e txSender =>
      rcases h with hhydrated | hskip
      · exact hensure hhydrated _ (book_enter c (.filled e txSender))
      · cases hskip
  | cancelled e => rfl
  | executed e => rfl

theorem hydrateFor_of_missing (c : Ctx) (e : MarketOrderEvent)
    (hcold : (c.book env spotMarket).chainHydrated = false)
    (h : c.needsBook env spotMarket e = true) :
    let entered := c.enter env spotMarket e
    entered.1.hydrateFor env spotMarket entered.2 e =
      entered.1.hydrateSpotFromChain env spotMarket := by
  have hensure : ∀ d : Ctx, d.book env spotMarket = c.book env spotMarket →
      d.ensureChainHydrated env spotMarket = d.hydrateSpotFromChain env spotMarket := by
    intro d hd
    unfold ensureChainHydrated
    rw [BookTx.isChainHydrated_eq]
    change (if (d.book env spotMarket).chainHydrated = true then d else _) = _
    rw [hd, hcold]
    rfl
  intro entered
  cases e with
  | created e =>
      have hnew : c.store.orders.hasChainOrder env.sdk spotMarket e.orderId = false := by
        simpa [needsBook] using h
      change (if c.store.orders.hasChainOrder env.sdk spotMarket e.orderId = true then c
        else c.ensureChainHydrated env spotMarket) = _
      rw [hnew, if_neg Bool.false_ne_true]
      exact hensure c rfl
  | updated e => exact hensure c rfl
  | filled e txSender => exact hensure _ (book_enter c (.filled e txSender))
  | cancelled e => cases h
  | executed e => cases h

/-! ## All events -/

/-- From a loaded book on every event moves its level. -/
theorem sizeAt_of_hydrated (called : List CalledEvent) {c : Ctx}
    (h : (c.book env spotMarket).chainHydrated = true) (side : OrderSide) (price : UInt64) :
    ((called.foldl (applyCalled env spotMarket) c).book env spotMarket).sizeAt side price =
      LevelMove.settle side price (c.levelMoves env spotMarket called)
        ((c.book env spotMarket).sizeAt side price) := by
  induction called generalizing c with
  | nil => rfl
  | cons e rest ih =>
      obtain ⟨hhydrated, hsize⟩ := book_applyCalled env spotMarket c e
      rw [hydrateFor_of_found c e.event (.inl h), book_enter] at hhydrated hsize
      rw [List.foldl_cons, ih (hhydrated.trans h), hsize, levelMoves, LevelMove.settle_append]

theorem holdsBook_called_iff (hserves : env.Serves spotMarket chainBook)
    (called : List CalledEvent) {c : Ctx} (hcold : (c.book env spotMarket).chainHydrated = false) :
    (called.foldl (applyCalled env spotMarket) c).HoldsBook env spotMarket chainBook ↔
      c.Settles env spotMarket chainBook called := by
  induction called generalizing c with
  | nil => exact Iff.rfl
  | cons e rest ih =>
      obtain ⟨hhydrated, hsize⟩ := book_applyCalled env spotMarket c e
      cases hneeds : c.needsBook env spotMarket e.event with
      | true =>
          -- the load; from here on the book is the chain's, moved by every event
          obtain ⟨hloaded, hholds⟩ := book_hydrateSpotFromChain hserves
            (c.enter env spotMarket e.event).1
          rw [hydrateFor_of_missing c e.event hcold hneeds] at hhydrated hsize
          unfold Settles movesSinceLoad
          rw [hneeds, if_pos rfl]
          refine forall_congr' fun side => forall_congr' fun price => ?_
          rw [List.foldl_cons, sizeAt_of_hydrated rest (hhydrated.trans hloaded), hsize,
            hholds side price, levelMoves, LevelMove.settle_append]
      | false =>
          rw [hydrateFor_of_found c e.event (.inr hneeds), book_enter] at hhydrated hsize
          have hmoves : c.movesSinceLoad env spotMarket (e :: rest) =
              (c.applyCalled env spotMarket e).movesSinceLoad env spotMarket rest := by
            rw [movesSinceLoad, hneeds, if_neg Bool.false_ne_true]
          rw [List.foldl_cons, ih (hhydrated.trans hcold)]
          unfold Settles
          rw [hmoves]
          cases (c.applyCalled env spotMarket e).movesSinceLoad env spotMarket rest with
          | some moves => exact Iff.rfl
          | none =>
              refine forall_congr' fun side => forall_congr' fun price => ?_
              rw [hsize, levelMoves, LevelMove.settle_append]

/-- After `market_created` the book is loaded. -/
theorem book_marketCreated (hserves : env.Serves spotMarket chainBook) {c : Ctx}
    (hcold : (c.book env spotMarket).chainHydrated = false) (created : MarketCreatedEvent)
    (haddress : created.marketAddress = spotMarket) :
    ((c.applyGlobalEvent env (.marketCreated created)).book env spotMarket).chainHydrated = true ∧
      (c.applyGlobalEvent env (.marketCreated created)).HoldsBook env spotMarket chainBook := by
  subst haddress
  have hset : ∀ r, (c.setRegistry r).ensureChainHydrated env created.marketAddress =
      (c.setRegistry r).hydrateSpotFromChain env created.marketAddress := by
    intro r
    unfold ensureChainHydrated
    rw [BookTx.isChainHydrated_eq]
    change (if (c.book env created.marketAddress).chainHydrated = true then _ else _) = _
    rw [hcold]
    rfl
  change ((c.indexSpotMarketCreated env created).book env _).chainHydrated = true ∧
    (c.indexSpotMarketCreated env created).HoldsBook env _ chainBook
  unfold indexSpotMarketCreated
  rw [hset]
  exact book_hydrateSpotFromChain hserves _

end Ctx

/-- A book that was not loaded ends up as the chain's book exactly when the events
from the load on, which the chain's book has already, change nothing on it; after
`market_created` those are all events. -/
theorem Ctx.holdsBook_iff (hserves : env.Serves spotMarket chainBook) (c : Ctx)
    (hcold : c.store.books.isChainHydrated env.sdk spotMarket = false) (calls : List MarketCall) :
    ((calls.foldl (applyCall env spotMarket) c).HoldsBook env spotMarket chainBook ↔
        c.Settles env spotMarket chainBook (calls.flatMap MarketCall.called)) ∧
      ∀ created : MarketCreatedEvent, created.marketAddress = spotMarket →
        let c' := c.applyGlobalEvent env (.marketCreated created)
        ((calls.foldl (applyCall env spotMarket) c').HoldsBook env spotMarket chainBook ↔
          ∀ side price,
            LevelMove.settle side price
              (c'.levelMoves env spotMarket (calls.flatMap MarketCall.called))
              (chainBook.sizeAt side price) = chainBook.sizeAt side price) := by
  rw [BookTx.isChainHydrated_eq] at hcold
  constructor
  · rw [foldl_applyCall]
    exact holdsBook_called_iff hserves _ hcold
  · intro created haddress c'
    obtain ⟨hhydrated, hholds⟩ := book_marketCreated hserves hcold created haddress
    rw [foldl_applyCall]
    refine forall_congr' fun side => forall_congr' fun price => ?_
    rw [sizeAt_of_hydrated _ hhydrated, hholds side price]

/-! ## On a chain that follows its events

Between the event that loads the book and block `h` the chain has made the moves of
those events, on whole sizes.  Making them once more leaves a level alone if they
cancel out, or if the level has lost size and was empty in between. -/

namespace LevelMove

variable (side : OrderSide) (price : UInt64)

def exactNext (size : Nat) (move : LevelMove) : Nat :=
  if move.side = side ∧ move.price = price then
    if move.isAdd then size + move.amount.toNat else size - move.amount.toNat
  else size

/-- The moves never take a level below nothing, or above what it can hold. -/
def Exact : Nat → List LevelMove → Prop
  | _, [] => True
  | size, move :: moves =>
      (move.side = side → move.price = price →
        if move.isAdd then size + move.amount.toNat ≤ Word.u64Max else move.amount.toNat ≤ size) ∧
      Exact (exactNext side price size move) moves

def Reaches (bound : Nat) : Nat → List LevelMove → Prop
  | _, [] => False
  | size, move :: moves =>
      exactNext side price size move = bound ∨ Reaches bound (exactNext side price size move) moves

/-- Moved once more by its own moves, a level that starts from another size catches
up exactly when it saturates on the way. -/
theorem settle_eq_exact_iff (moves : List LevelMove) (size : UInt64) (exact : Nat)
    (hle : exact ≤ Word.u64Max) (h : Exact side price exact moves) :
    (settle side price moves size).toNat = moves.foldl (exactNext side price) exact ↔
      size.toNat = exact ∨ (size.toNat < exact ∧ Reaches side price 0 exact moves) ∨
        (exact < size.toNat ∧ Reaches side price Word.u64Max exact moves) := by
  induction moves generalizing size exact with
  | nil =>
      simp [settle, Reaches]
  | cons move moves ih =>
      have hbound := Word.toNat_le size
      obtain ⟨hfits, hrest⟩ := h
      unfold settle at ih ⊢
      rw [List.foldl_cons, List.foldl_cons]
      unfold Reaches
      by_cases hat : move.side = side ∧ move.price = price
      · have hfits := hfits hat.1 hat.2
        rw [if_pos hat]
        have hnext : exactNext side price exact move =
            if move.isAdd then exact + move.amount.toNat else exact - move.amount.toNat :=
          if_pos hat
        have hnextLe : exactNext side price exact move ≤ Word.u64Max := by
          rw [hnext]
          split_ifs at hfits ⊢ <;> omega
        rw [ih _ _ hnextLe hrest]
        generalize Reaches side price 0 _ moves = empties
        generalize Reaches side price Word.u64Max _ moves = fills
        unfold LevelMove.next
        rw [hnext]
        split_ifs at hfits ⊢ with hadd
        · rw [Word.toNat_satAdd]
          by_cases he : empties <;> by_cases hf : fills <;>
            simp only [he, hf, and_true, and_false, or_true, or_false, false_or] <;> omega
        · rw [Word.toNat_satSub]
          by_cases he : empties <;> by_cases hf : fills <;>
            simp only [he, hf, and_true, and_false, or_true, or_false, false_or] <;> omega
      · rw [if_neg hat]
        have hnext : exactNext side price exact move = exact := if_neg hat
        rw [hnext] at hrest ⊢
        rw [ih size exact hle hrest]
        generalize Reaches side price 0 exact moves = empties
        generalize Reaches side price Word.u64Max exact moves = fills
        by_cases he : empties <;> by_cases hf : fills <;>
          simp only [he, hf, and_true, and_false, or_true, or_false, false_or] <;> omega

end LevelMove

/-- The same, told by the sizes of the chain: `before` is its book when the event
that loads ours has not happened yet. -/
theorem Ctx.holdsBook_iff_of_history (hserves : env.Serves spotMarket chainBook) (c : Ctx)
    (hcold : c.store.books.isChainHydrated env.sdk spotMarket = false) (calls : List MarketCall)
    {moves : List LevelMove}
    (hload : c.movesSinceLoad env spotMarket (calls.flatMap MarketCall.called) = some moves)
    (before : OrderSide → UInt64 → Nat) (hle : ∀ side price, before side price ≤ Word.u64Max)
    (hexact : ∀ side price, LevelMove.Exact side price (before side price) moves)
    (hafter : ∀ side price, (chainBook.sizeAt side price).toNat =
      moves.foldl (LevelMove.exactNext side price) (before side price)) :
    (calls.foldl (applyCall env spotMarket) c).HoldsBook env spotMarket chainBook ↔
      ∀ side price, (chainBook.sizeAt side price).toNat = before side price ∨
        ((chainBook.sizeAt side price).toNat < before side price ∧
          LevelMove.Reaches side price 0 (before side price) moves) ∨
        (before side price < (chainBook.sizeAt side price).toNat ∧
          LevelMove.Reaches side price Word.u64Max (before side price) moves) := by
  rw [(c.holdsBook_iff hserves hcold calls).1]
  unfold Settles
  rw [hload]
  refine forall_congr' fun side => forall_congr' fun price => ?_
  rw [← UInt64.toNat_inj, ← LevelMove.settle_eq_exact_iff side price moves _ _ (hle side price)
    (hexact side price), ← hafter]

namespace Sample

def bidding : Env :=
  { setting with chain := ⟨fun _ _ _ => some ⟨[⟨500000, 10⟩], []⟩, fun _ _ => some none⟩ }

theorem serves_bidding : bidding.Serves market ⟨[⟨500000, 10⟩], []⟩ :=
  ⟨(parseAddress market).getD [], by decide, fun _ => rfl, fun _ => rfl⟩

theorem serves_setting : setting.Serves market ⟨[], []⟩ :=
  ⟨(parseAddress market).getD [], by decide, fun _ => rfl, fun _ => rfl⟩

def bidPlaced : List MarketCall :=
  [⟨{}, 8, [.created ⟨"1", .buy, 10, account, market, .limit 500000, none⟩]⟩]

def bidWithdrawn : List MarketCall :=
  [⟨{}, 8, [.created ⟨"1", .buy, 10, account, market, .limit 500000, none⟩,
    .cancelled ⟨"1", .buy, 500000, 10⟩]⟩]

theorem holdsBook_bidWithdrawn :
    (bidWithdrawn.foldl (Ctx.applyCall setting market) { store := {} }).HoldsBook setting market
      ⟨[], []⟩ := by
  have hmoves : Ctx.movesSinceLoad setting market { store := {} }
      (bidWithdrawn.flatMap MarketCall.called) =
        some [⟨.buy, 500000, true, 10⟩, ⟨.buy, 500000, false, 10⟩] := by
    decide +kernel
  have hempty : ∀ side price, GetOrderBook.sizeAt ⟨[], []⟩ side price = 0 := by
    intro side price
    cases side <;> rfl
  apply (Ctx.holdsBook_iff serves_setting { store := {} } (by decide) bidWithdrawn).1.mpr
  unfold Ctx.Settles
  rw [hmoves]
  intro side price
  rw [hempty]
  unfold LevelMove.settle
  simp only [List.foldl_cons, List.foldl_nil]
  split_ifs with hat
  · decide
  · rfl

/-- The node has the bid already; the index counts it twice. -/
theorem bidPlaced_twice :
    bidding.Serves market ⟨[⟨500000, 10⟩], []⟩ ∧
      ({} : Books).isChainHydrated bidding.sdk market = false ∧
      ¬(bidPlaced.foldl (Ctx.applyCall bidding market) { store := {} }).HoldsBook bidding market
        ⟨[⟨500000, 10⟩], []⟩ := by
  refine ⟨serves_bidding, by decide, ?_⟩
  intro h
  have hsize := h .buy 500000
  revert hsize
  decide +kernel

end Sample

end ClobIndexer
