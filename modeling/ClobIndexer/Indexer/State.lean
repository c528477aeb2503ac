import ClobIndexer.Indexer.Books
import ClobIndexer.Indexer.Orders
import ClobIndexer.Indexer.Registry
import ClobIndexer.Indexer.Vaults
/-!
# The index and the context of a handler

`IndexState` is the in-memory index.  A handler runs in a `Ctx`: the index, the
write set of its task, and what it sends to the history lane, to the user hub and
to the book channels.  The node is consulted through `ChainClient`, whose answers
may change from one call to the next; the context counts the calls.

Each part of the index is changed through a lift of its own, so that the other
parts are untouched by definition.
-/

namespace ClobIndexer

open Lib

structure IndexState where
  books : Books := {}
  registry : Registry := {}
  orders : OrderIndex := {}
  vaults : VaultIndex := {}
  lastTradePrice : Dict String UInt64 := ∅
  indexingBlockTimestampSecs : UInt64 := 0
deriving DecidableEq

namespace IndexState

def tsMs (s : IndexState) : UInt64 := Word.satMul s.indexingBlockTimestampSecs 1000

end IndexState

structure UserOrderMessage where
  event : String
  userAddress : String
  chainOrderId : String
  blockNum : UInt64
  spotMarket : String
  order : Order
deriving DecidableEq

structure UserTradeMessage where
  userAddress : String
  chainOrderId : String
  orderId : Uuid
  marketSlug : String
  outcome : String
  side : String
  price : String
  fillAmount : String
  remainingAmount : String
  isFullyFilled : Bool
  spotMarket : String
  blockNum : UInt64
  cloid : Option String
deriving DecidableEq

inductive UserWsMessage where
  | order (m : UserOrderMessage)
  | trade (m : UserTradeMessage)
deriving DecidableEq

/-- The node's answers, by call number; `none` is an error. -/
structure ChainClient where
  getBook : Nat → List UInt8 → Nat → Option GetOrderBook
  getMarketInfo : Nat → List UInt8 → Option (Option UInt64)

/-- What a run takes from outside: the SDK, the node and the wall clock. -/
structure Env where
  sdk : Sdk
  chain : ChainClient
  nowMs : UInt64

structure Ctx where
  store : IndexState
  ws : IndexWriteSet := {}
  history : List PersistOrderRow := []
  hub : List UserWsMessage := []
  feed : List (OrderBookDelta × QuoteDelta) := []
  calls : Nat := 0

namespace Ctx

def onBooks (publishWs : Bool) (f : BookTx → BookTx × Option (OrderBookDelta × QuoteDelta))
    (c : Ctx) : Ctx :=
  let r := f ⟨c.store.books, c.ws.bookLevels, c.ws.bookMeta⟩
  { c with
    store := { c.store with books := r.1.books }
    ws := { c.ws with bookLevels := r.1.levels, bookMeta := r.1.metas }
    feed := if publishWs then c.feed ++ r.2.toList else c.feed }

def onOrders (f : OrderTx → OrderTx) (c : Ctx) : Ctx :=
  let t := f ⟨c.store.orders, c.ws.orders, c.history⟩
  { c with
    store := { c.store with orders := t.idx }
    ws := { c.ws with orders := t.writes }
    history := t.history }

def onVaults (f : VaultTx → VaultTx) (c : Ctx) : Ctx :=
  let t := f ⟨c.store.vaults, c.ws.vaults, c.ws.vaultPortfolio⟩
  { c with
    store := { c.store with vaults := t.idx }
    ws := { c.ws with vaults := t.vaults, vaultPortfolio := t.portfolio } }

def onRegistry (f : RegistryTx → RegistryTx) (c : Ctx) : Ctx :=
  let t := f ⟨c.store.registry, c.ws.markets⟩
  { c with
    store := { c.store with registry := t.reg }
    ws := { c.ws with markets := t.writes } }

def setRegistry (r : Registry) (c : Ctx) : Ctx :=
  { c with store := { c.store with registry := r } }

def recordLastTradePrice (sdk : Sdk) (spotMarket : String) (price : UInt64) (c : Ctx) : Ctx :=
  let key := normalizeSpotMarketKey sdk spotMarket
  { c with
    store := { c.store with lastTradePrice := c.store.lastTradePrice.insert key price }
    ws := { c.ws with lastTrades := storeLastTrade sdk key price.toInt64 c.ws.lastTrades } }

def publish (message : UserWsMessage) (c : Ctx) : Ctx := { c with hub := c.hub ++ [message] }

end Ctx

end ClobIndexer
