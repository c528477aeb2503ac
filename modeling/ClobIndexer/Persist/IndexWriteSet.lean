import ClobIndexer.Sdk
import ClobIndexer.Lib.TableWrites
/-!
# Per-block index-state deltas

`IndexWriteSet` of `src/persist/index_write_set.rs` and the tables it is written
to (`build_index_write_batch` of `src/persist/index_state_tables.rs`).  The
`*_to_store` and `*_to_delete` maps of one table are one `TableWrites`.
-/

namespace ClobIndexer

open Lib

abbrev LevelKey := String × String × Int64

structure IndexWriteSet where
  blockNum : UInt64 := 0
  digest : String := ""
  fullReplace : Bool := false
  markets : TableWrites String Market := .empty
  orders : TableWrites String OrderRow := .empty
  bookLevels : TableWrites LevelKey Int64 := .empty
  bookMeta : TableWrites String BookMetaRow := .empty
  lastTrades : TableWrites String Int64 := .empty
  vaults : TableWrites String Vault := .empty
  vaultPortfolio : TableWrites (String × String) Int64 := .empty

/-! ## Row writes -/

variable (sdk : Sdk)

def storeMarket (market : Market) (w : TableWrites String Market) : TableWrites String Market :=
  w.put market.id.toString market

def deleteMarket (marketId : String) (w : TableWrites String Market) :
    TableWrites String Market :=
  w.remove marketId

def storeOrder (row : OrderRow) (w : TableWrites String OrderRow) : TableWrites String OrderRow :=
  w.put row.id row

def deleteOrder (orderId : String) (w : TableWrites String OrderRow) :
    TableWrites String OrderRow :=
  w.remove orderId

/-- A size that is not positive as `i64` deletes the row instead. -/
def storeBookLevel (spot side : String) (priceRaw sizeRaw : Int64)
    (w : TableWrites LevelKey Int64) : TableWrites LevelKey Int64 :=
  let key := (normalizeSpotMarketKey sdk spot, side, priceRaw)
  if sizeRaw ≤ 0 then w.remove key else w.put key sizeRaw

def deleteBookLevel (spot side : String) (priceRaw : Int64)
    (w : TableWrites LevelKey Int64) : TableWrites LevelKey Int64 :=
  w.remove (normalizeSpotMarketKey sdk spot, side, priceRaw)

def storeBookMeta (spot : String) (row : BookMetaRow)
    (w : TableWrites String BookMetaRow) : TableWrites String BookMetaRow :=
  w.put (normalizeSpotMarketKey sdk spot) row

def storeLastTrade (spot : String) (price : Int64) (w : TableWrites String Int64) :
    TableWrites String Int64 :=
  w.put (normalizeSpotMarketKey sdk spot) price

def clearPortfolio (vault : Vault) : Vault := { vault with portfolio := [] }

def storeVault (vault : Vault) (w : TableWrites String Vault) : TableWrites String Vault :=
  w.put vault.id.toString (clearPortfolio vault)

def storeVaultPortfolio (vaultId spot : String) (amount : Int64)
    (w : TableWrites (String × String) Int64) : TableWrites (String × String) Int64 :=
  let key := (vaultId, normalizeSpotMarketKey sdk spot)
  if amount ≤ 0 then w.remove key else w.put key amount

def orderRowFromParts (order : Order) (userAddress chainOrderId spotMarket : String)
    (sizeRaw filledRaw : UInt64) : OrderRow where
  id := order.id.toString
  userAddress := userAddress
  chainOrderId := chainOrderId
  spotMarket := normalizeSpotMarketKey sdk spotMarket
  sizeRaw := sizeRaw.toInt64
  filledRaw := filledRaw.toInt64
  status := order.status
  order := order

def orderRow (stored : StoredOrder) : OrderRow :=
  orderRowFromParts sdk stored.order stored.userAddress stored.chainOrderId stored.spotMarket
    stored.sizeRaw stored.filledRaw

namespace IndexWriteSet

/-- `IndexWriteSet::merge`: fold the other set's rows onto this one. -/
def merge (ws other : IndexWriteSet) : IndexWriteSet where
  blockNum := ws.blockNum
  digest := ws.digest
  fullReplace := ws.fullReplace || other.fullReplace
  markets := ws.markets.merge other.markets
  orders := ws.orders.merge other.orders
  bookLevels := ws.bookLevels.merge other.bookLevels
  bookMeta := ws.bookMeta.merge other.bookMeta
  lastTrades := ws.lastTrades.merge other.lastTrades
  vaults := ws.vaults.merge other.vaults
  vaultPortfolio := ws.vaultPortfolio.merge other.vaultPortfolio

end IndexWriteSet

/-! ## Tables -/

/-- The decoded contents of the index-state tables. -/
structure IndexTables where
  head : Option (UInt64 × String)
  markets : Table String Market
  orders : Table String OrderRow
  bookLevels : Table LevelKey Int64
  bookMeta : Table String BookMetaRow
  lastTrades : Table String Int64
  vaults : Table String Vault
  vaultPortfolio : Table (String × String) Int64

namespace IndexTables

def empty : IndexTables where
  head := none
  markets := fun _ => none
  orders := fun _ => none
  bookLevels := fun _ => none
  bookMeta := fun _ => none
  lastTrades := fun _ => none
  vaults := fun _ => none
  vaultPortfolio := fun _ => none

/-- `build_index_write_batch` followed by the batch write: an optional wipe, the
deletes, the stores and the new head. -/
def applyIndexWriteSet (ws : IndexWriteSet) (t : IndexTables) : IndexTables :=
  let base := if ws.fullReplace then empty else t
  { head := some (ws.blockNum, ws.digest)
    markets := ws.markets.apply base.markets
    orders := ws.orders.apply base.orders
    bookLevels := ws.bookLevels.apply base.bookLevels
    bookMeta := ws.bookMeta.apply base.bookMeta
    lastTrades := ws.lastTrades.apply base.lastTrades
    vaults := ws.vaults.apply base.vaults
    vaultPortfolio := ws.vaultPortfolio.apply base.vaultPortfolio }

end IndexTables

end ClobIndexer
