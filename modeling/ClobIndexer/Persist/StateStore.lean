import ClobIndexer.Bars
import ClobIndexer.Paper
import ClobIndexer.Lib.SeriesTable
/-!
# The tables of the history

`StateStore` of `src/persist/store.rs`: the order history, the closed candles and the two
histories of the paper market.  The encode workers turn an operation into the columns of
its row, and the writer puts a batch of them in one transaction and trims the series that
the batch added to.
-/

namespace ClobIndexer

open Lib

def orderHistoryLimit : Nat := 2000

def barHistoryLimit : Nat := 5000

/-! ## Operations -/

/-- The operations of `PersistOp` that go through the history queue. -/
inductive PersistOp where
  | upsertOrderHistory (row : PersistOrderRow)
  | saveClosedBar (bar : ClosedBarRow)
  | savePaperHouseHistory (row : PaperHouseHistoryRow)
  | savePaperPositionHistory (row : PaperPositionHistory)
deriving DecidableEq

inductive EncodedPersistOp where
  | upsertOrderHistory (orderId userAddress chainOrderId spotMarket : String)
      (sizeRaw filledRaw : Int64) (status payload : String)
  | saveClosedBar (bar : ClosedBarRow)
  | savePaperHouseHistory (row : PaperHouseHistoryRow)
  | savePaperPositionHistory (market : String) (position : Int64) (owner : String)
      (closedBlock : Int64) (payload : String)
deriving DecidableEq

/-- `serde_json` on the values that are kept whole: an order is read back from its text. -/
structure HistoryJson where
  order : Order → Option String
  readOrder : String → Option Order
  readOrder_order : ∀ o text, order o = some text → readOrder text = some o
  position : PaperPositionHistory → Option String

/-- `encode_persist_op`; the time of the status is left behind. -/
def encodePersistOp (sdk : Sdk) (json : HistoryJson) : PersistOp → Option EncodedPersistOp
  | .upsertOrderHistory row => do
      let payload ← json.order row.order
      return .upsertOrderHistory row.order.id.toString (userKey row.userAddress)
        row.chainOrderId (normalizeSpotMarketKey sdk row.spotMarket) row.sizeRaw.toInt64
        row.filledRaw.toInt64 row.order.status payload
  | .saveClosedBar bar => some (.saveClosedBar bar)
  | .savePaperHouseHistory row => some (.savePaperHouseHistory row)
  | .savePaperPositionHistory row => do
      let payload ← json.position row
      return .savePaperPositionHistory row.market row.position.toInt64 row.owner
        row.closedBlock.toInt64 payload

/-! ## Tables -/

structure OrderHistoryRow where
  id : String
  userAddress : String
  chainOrderId : String
  spotMarket : String
  sizeRaw : Int64
  filledRaw : Int64
  status : String
  payload : String
  statusTsMs : Int64
deriving DecidableEq

structure BarColumns where
  openRaw : Int64
  highRaw : Int64
  lowRaw : Int64
  closeRaw : Int64
  volumeRaw : Int64
  tradeCount : Int64
deriving DecidableEq

structure HouseColumns where
  houseFundsRaw : String
  lpBalanceRaw : Int64
  openHousePnlRaw : Int64
  queueDebtRaw : Int64
deriving DecidableEq

structure PositionColumns where
  owner : String
  closedBlock : Int64
  payload : String
deriving DecidableEq

/-- The tables by their primary keys, and the wall clock in milliseconds as the writer
reads it. -/
structure StateStore where
  orderHistory : Dict String OrderHistoryRow := ∅
  bars : SeriesTable (String × BarInterval) Int BarColumns := ∅
  paperHouseHistory : SeriesTable String Int HouseColumns := ∅
  paperPositionHistory : Dict (String × Int64) PositionColumns := ∅
  nowMs : Int64 := 0

/-- `as i64`, as SQLite compares it. -/
def sqliteInteger (x : UInt64) : Int := x.toInt64.toInt

theorem sqliteInteger_of_lt {x : UInt64} (hx : x.toNat < 2 ^ 63) :
    sqliteInteger x = x.toNat := by
  have hcond := BitVec.toInt_eq_toNat_cond x.toBitVec
  rw [if_pos (by simpa using (by omega : 2 * x.toNat < 2 ^ 64))] at hcond
  exact hcond

theorem toNat_ofInt {k : Int} (hk : 0 ≤ k ∧ k < 2 ^ 63) : ((UInt64.ofInt k).toNat : Int) = k := by
  have hsize : (UInt64.ofInt k).toNat = (k % 2 ^ 64).toNat % 2 ^ 64 := rfl
  rw [hsize, Int.emod_eq_of_lt hk.1 (by omega)]
  omega

theorem sqliteInteger_neg {x : UInt64} (hx : 2 ^ 63 ≤ x.toNat) : sqliteInteger x < 0 := by
  have hlt := x.toNat_lt
  have hcond := BitVec.toInt_eq_toNat_cond x.toBitVec
  rw [if_neg (by simpa using (by omega : 2 ^ 64 ≤ 2 * x.toNat))] at hcond
  have heq : sqliteInteger x = (x.toNat : Int) - 2 ^ 64 := hcond
  omega

def ClosedBarRow.columns (bar : ClosedBarRow) : BarColumns where
  openRaw := bar.openRaw.toInt64
  highRaw := bar.highRaw.toInt64
  lowRaw := bar.lowRaw.toInt64
  closeRaw := bar.closeRaw.toInt64
  volumeRaw := bar.volumeRaw.toInt64
  tradeCount := bar.tradeCount.toInt64

/-- `row.market.trim().to_ascii_lowercase()`. -/
def PaperHouseHistoryRow.marketKey (row : PaperHouseHistoryRow) : String :=
  Text.toAsciiLowercase (Text.trim row.market)

def PaperHouseHistoryRow.columns (row : PaperHouseHistoryRow) : HouseColumns where
  houseFundsRaw := toString row.houseFundsRaw
  lpBalanceRaw := row.lpBalanceRaw.toInt64
  openHousePnlRaw := row.openHousePnlRaw
  queueDebtRaw := row.queueDebtRaw.toInt64

namespace StateStore

variable (sdk : Sdk)

def execute (s : StateStore) : EncodedPersistOp → StateStore
  | .upsertOrderHistory orderId userAddress chainOrderId spotMarket sizeRaw filledRaw status
      payload =>
      { s with
        orderHistory := s.orderHistory.insert orderId
          ⟨orderId, userAddress, chainOrderId, spotMarket, sizeRaw, filledRaw, status, payload,
            s.nowMs⟩ }
  | .saveClosedBar bar =>
      { s with
        bars := SeriesTable.upsert (normalizeSpotMarketKey sdk bar.spotMarket, bar.interval)
          (sqliteInteger bar.startTs) bar.columns s.bars }
  | .savePaperHouseHistory row =>
      { s with
        paperHouseHistory := SeriesTable.upsert row.marketKey (sqliteInteger row.tsMs)
          row.columns s.paperHouseHistory }
  | .savePaperPositionHistory market position owner closedBlock payload =>
      { s with
        paperPositionHistory := s.paperPositionHistory.insert (market, position)
          ⟨owner, closedBlock, payload⟩ }

/-- `trim_bars` and `trim_paper_house_history`. -/
def trim (s : StateStore) : EncodedPersistOp → StateStore
  | .upsertOrderHistory .. => s
  | .saveClosedBar bar =>
      { s with
        bars := SeriesTable.trim (normalizeSpotMarketKey sdk bar.spotMarket, bar.interval)
          barHistoryLimit s.bars }
  | .savePaperHouseHistory row =>
      { s with
        paperHouseHistory := SeriesTable.trim row.marketKey paperHouseHistoryLimit
          s.paperHouseHistory }
  | .savePaperPositionHistory .. => s

/-- `apply_encoded_state_batch`: the clock is read once for the batch. -/
def applyEncodedStateBatch (ops : List EncodedPersistOp) (s : StateStore) : StateStore :=
  ops.foldl (trim sdk) (ops.foldl (execute sdk) s)

end StateStore

end ClobIndexer
