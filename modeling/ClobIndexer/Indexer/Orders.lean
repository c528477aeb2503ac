import ClobIndexer.Events
import ClobIndexer.Persist.IndexWriteSet
/-!
# The order index

The three order maps of `IndexState` and the functions of
`src/indexer/index_state.rs` that change them.  Only open and partially filled
orders are kept ("hot"); every other order is handed to the history lane.
An `OrderTx` carries the maps, the write set of the `orders` table and the rows
handed to history, newest last.
-/

namespace ClobIndexer

open Lib

structure OrderIndex where
  orders : Dict Uuid StoredOrder := ∅
  ordersById : Dict String Uuid := ∅
  ordersByUser : Dict String (KeySet Uuid) := ∅
deriving DecidableEq

structure OrderTx where
  idx : OrderIndex
  writes : TableWrites String OrderRow
  history : List PersistOrderRow

def isHotOrderStatus (status : String) : Bool := status == "open" || status == "partial_filled"

def storedToPersistRow (stored : StoredOrder) : PersistOrderRow where
  order := stored.order
  userAddress := stored.userAddress
  chainOrderId := stored.chainOrderId
  spotMarket := stored.spotMarket
  sizeRaw := stored.sizeRaw
  filledRaw := stored.filledRaw
  statusTsMs := 0

variable (sdk : Sdk)

namespace OrderIndex

def hasChainOrder (idx : OrderIndex) (spotMarket chainOrderId : String) : Bool :=
  (idx.ordersById.lookup (onchainOrderId sdk spotMarket chainOrderId)).isSome

def find (idx : OrderIndex) (spotMarket chainOrderId : String) : Option (Uuid × StoredOrder) :=
  match idx.ordersById.lookup (onchainOrderId sdk spotMarket chainOrderId) with
  | none => none
  | some id => (idx.orders.lookup id).map fun stored => (id, stored)

def storedOrderByChainId (idx : OrderIndex) (spotMarket chainOrderId : String) :
    Option (Order × String × String) :=
  (idx.find sdk spotMarket chainOrderId).map fun r =>
    (r.2.order, r.2.userAddress, r.2.spotMarket)

/-- `lookup_spot_market_for_chain_order`: the market of the only hot order whose
composite id ends in the chain id. -/
def lookupSpotMarketForChainOrder (idx : OrderIndex) (chainOrderId : String) : Option String :=
  let suffix := ":" ++ chainOrderId
  let found := idx.ordersById.keys.filterMap fun key =>
    if Text.endsWith key suffix then (splitOnchainOrderId key).map Prod.fst else none
  match found with
  | [spot] => some spot
  | _ => none

def removeHotOrder (idx : OrderIndex) (orderId : Uuid) (stored : StoredOrder) : OrderIndex where
  orders := idx.orders.erase orderId
  ordersById := idx.ordersById.erase (onchainOrderId sdk stored.spotMarket stored.chainOrderId)
  ordersByUser :=
    let user := userKey stored.userAddress
    match idx.ordersByUser.lookup user with
    | some set => idx.ordersByUser.insert user (set.erase orderId)
    | none => idx.ordersByUser

end OrderIndex

namespace OrderTx

/-- `write_order_history`: stamp the row with the block time when it has none. -/
def writeOrderHistory (tsMs : UInt64) (row : PersistOrderRow) (t : OrderTx) : OrderTx :=
  let row := if row.statusTsMs = 0 ∧ tsMs ≠ 0 then { row with statusTsMs := tsMs } else row
  { t with history := t.history ++ [row] }

def insertOrder (tsMs : UInt64) (order : Order) (userAddress spotMarket chainOrderId : String)
    (sizeRaw filledRaw : UInt64) (t : OrderTx) : OrderTx :=
  let spot := normalizeSpotMarketKey sdk spotMarket
  let stored : StoredOrder := ⟨order, userAddress, chainOrderId, spot, filledRaw, sizeRaw⟩
  if isHotOrderStatus order.status then
    let user := userKey userAddress
    let ofUser := (t.idx.ordersByUser.lookup user).getD ∅
    { t with
      idx :=
        { orders := t.idx.orders.insert order.id stored
          ordersById := t.idx.ordersById.insert (onchainOrderId sdk spot chainOrderId) order.id
          ordersByUser := t.idx.ordersByUser.insert user (ofUser.insert order.id ()) }
      writes := storeOrder (orderRow sdk stored) t.writes }
  else t.writeOrderHistory tsMs (storedToPersistRow stored)

def archiveTerminalOrder (tsMs : UInt64) (orderId : Uuid) (stored : StoredOrder) (t : OrderTx) :
    OrderTx :=
  ({ t with
      idx := t.idx.removeHotOrder sdk orderId stored
      writes := deleteOrder orderId.toString t.writes }).writeOrderHistory tsMs
    (storedToPersistRow stored)

/-- Write a changed order back, or archive it when its new status is terminal. -/
def settle (tsMs : UInt64) (orderId : Uuid) (stored : StoredOrder) (t : OrderTx) : OrderTx :=
  if isHotOrderStatus stored.order.status then
    { t with
      idx := { t.idx with orders := t.idx.orders.insert orderId stored }
      writes := storeOrder (orderRow sdk stored) t.writes }
  else t.archiveTerminalOrder sdk tsMs orderId stored

def updateOrderCancelled (tsMs : UInt64) (spotMarket chainOrderId : String) (t : OrderTx) :
    OrderTx :=
  match t.idx.find sdk spotMarket chainOrderId with
  | none => t
  | some (orderId, stored) =>
      t.archiveTerminalOrder sdk tsMs orderId
        { stored with order := { stored.order with status := "cancelled" } }

def resized (newAmount remainingAmount : UInt64) (stored : StoredOrder) : StoredOrder :=
  { stored with
    sizeRaw := newAmount
    order := { stored.order with
      size := formatTokenAmount newAmount
      status :=
        if remainingAmount = 0 then "filled"
        else if stored.filledRaw = 0 then "open"
        else "partial_filled" } }

def updateOrderAmount (tsMs : UInt64) (spotMarket chainOrderId : String)
    (newAmount remainingAmount : UInt64) (t : OrderTx) : OrderTx :=
  match t.idx.find sdk spotMarket chainOrderId with
  | none => t
  | some (orderId, stored) =>
      t.settle sdk tsMs orderId (resized newAmount remainingAmount stored)

def afterFill (fillAmount remainingAmount : UInt64) (isFullyFilled : Bool)
    (stored : StoredOrder) : StoredOrder :=
  { stored with
    filledRaw := Word.satAdd stored.filledRaw fillAmount
    order := { stored.order with
      status := if isFullyFilled ∨ remainingAmount = 0 then "filled" else "partial_filled" } }

def updateOrderFill (tsMs : UInt64) (spotMarket chainOrderId : String)
    (fillAmount remainingAmount : UInt64) (isFullyFilled : Bool) (t : OrderTx) : OrderTx :=
  match t.idx.find sdk spotMarket chainOrderId with
  | none => t
  | some (orderId, stored) =>
      t.settle sdk tsMs orderId (afterFill fillAmount remainingAmount isFullyFilled stored)

/-- Change the order found under a chain id; what is terminal is archived. -/
def touch (tsMs : UInt64) (spotMarket chainOrderId : String)
    (change : StoredOrder → StoredOrder) (t : OrderTx) : OrderTx :=
  match t.idx.find sdk spotMarket chainOrderId with
  | none => t
  | some (id, stored) => t.settle sdk tsMs id (change stored)

def cancelled (stored : StoredOrder) : StoredOrder :=
  { stored with order := { stored.order with status := "cancelled" } }

theorem updateOrderCancelled_eq_touch (t : OrderTx) (tsMs : UInt64)
    (spotMarket chainOrderId : String) :
    t.updateOrderCancelled sdk tsMs spotMarket chainOrderId =
      t.touch sdk tsMs spotMarket chainOrderId cancelled := by
  unfold updateOrderCancelled touch
  cases t.idx.find sdk spotMarket chainOrderId with
  | none => rfl
  | some r => rfl

end OrderTx

/-! ## Finding an order after a step -/

section Find

variable {sdk} {spot chainId : String} {id : Uuid} {stored : StoredOrder}

namespace OrderIndex

theorem find_eq_some_iff {idx : OrderIndex} :
    idx.find sdk spot chainId = some (id, stored) ↔
      idx.ordersById.lookup (onchainOrderId sdk spot chainId) = some id ∧
        idx.orders.lookup id = some stored := by
  unfold find
  cases idx.ordersById.lookup (onchainOrderId sdk spot chainId) with
  | none => simp
  | some id' =>
      simp only [Option.map_eq_some_iff, Prod.mk.injEq, Option.some.injEq]
      constructor
      · rintro ⟨stored', hs, rfl, rfl⟩
        exact ⟨rfl, hs⟩
      · rintro ⟨rfl, hs⟩
        exact ⟨stored, hs, rfl, rfl⟩

theorem lookup_of_find {idx : OrderIndex} (h : idx.find sdk spot chainId = some (id, stored)) :
    idx.orders.lookup id = some stored :=
  (find_eq_some_iff.mp h).2

end OrderIndex

namespace OrderTx

theorem find_insertOrder (lawful : LawfulSdk sdk) (tsMs : UInt64) (order : Order)
    (userAddress spot chainId : String) (sizeRaw filledRaw : UInt64) (t : OrderTx)
    (hhot : isHotOrderStatus order.status = true) :
    (t.insertOrder sdk tsMs order userAddress spot chainId sizeRaw filledRaw).idx.find sdk spot
        chainId =
      some (order.id, ⟨order, userAddress, chainId, normalizeSpotMarketKey sdk spot, filledRaw,
        sizeRaw⟩) := by
  unfold insertOrder
  dsimp only
  rw [if_pos hhot, OrderIndex.find_eq_some_iff, onchainOrderId_normalize lawful]
  exact ⟨AList.lookup_insert _, AList.lookup_insert _⟩

theorem find_settle_of_hot {t : OrderTx} {stored' : StoredOrder} (tsMs : UInt64)
    (h : t.idx.find sdk spot chainId = some (id, stored))
    (hhot : isHotOrderStatus stored'.order.status = true) :
    (t.settle sdk tsMs id stored').idx.find sdk spot chainId = some (id, stored') := by
  unfold settle
  rw [if_pos hhot, OrderIndex.find_eq_some_iff]
  exact ⟨(OrderIndex.find_eq_some_iff.mp h).1, AList.lookup_insert _⟩

/-- An archived order is found no more, whatever key still leads to its id. -/
theorem find_archiveTerminalOrder {t : OrderTx} {stored' : StoredOrder} (tsMs : UInt64)
    (h : t.idx.find sdk spot chainId = some (id, stored)) :
    (t.archiveTerminalOrder sdk tsMs id stored').idx.find sdk spot chainId = none := by
  have hid := (OrderIndex.find_eq_some_iff.mp h).1
  change (t.idx.removeHotOrder sdk id stored').find sdk spot chainId = none
  unfold OrderIndex.find OrderIndex.removeHotOrder
  dsimp only
  rw [Dict.lookup_erase_ite]
  by_cases hkey : onchainOrderId sdk spot chainId =
      onchainOrderId sdk stored'.spotMarket stored'.chainOrderId
  · rw [if_pos hkey]
  · rw [if_neg hkey, hid]
    dsimp only
    rw [AList.lookup_erase]
    rfl

theorem find_settle_of_terminal {t : OrderTx} {stored' : StoredOrder} (tsMs : UInt64)
    (h : t.idx.find sdk spot chainId = some (id, stored))
    (hhot : isHotOrderStatus stored'.order.status = false) :
    (t.settle sdk tsMs id stored').idx.find sdk spot chainId = none := by
  unfold settle
  rw [hhot]
  exact find_archiveTerminalOrder tsMs h

theorem isHot_resized (newAmount remainingAmount : UInt64) (stored : StoredOrder) :
    isHotOrderStatus (resized newAmount remainingAmount stored).order.status = true ↔
      remainingAmount ≠ 0 := by
  unfold resized
  dsimp only
  split_ifs with h0 hf
  · simp [h0, isHotOrderStatus]
  · simp [h0, isHotOrderStatus]
  · simp [h0, isHotOrderStatus]

theorem isHot_afterFill (fillAmount remainingAmount : UInt64) (isFullyFilled : Bool)
    (stored : StoredOrder) :
    isHotOrderStatus
        (afterFill fillAmount remainingAmount isFullyFilled stored).order.status = true ↔
      isFullyFilled = false ∧ remainingAmount ≠ 0 := by
  unfold afterFill
  dsimp only
  by_cases h : isFullyFilled = true ∨ remainingAmount = 0
  · rw [if_pos h]
    simp only [isHotOrderStatus, ne_eq]
    rcases h with h | h
    · simp [h]
    · simp [h]
  · rw [if_neg h]
    rw [not_or] at h
    simp [isHotOrderStatus, h.1, h.2]

theorem find_updateOrderAmount {t : OrderTx} (tsMs newAmount remainingAmount : UInt64)
    (h : t.idx.find sdk spot chainId = some (id, stored)) :
    (t.updateOrderAmount sdk tsMs spot chainId newAmount
        remainingAmount).idx.find sdk spot chainId =
      if remainingAmount ≠ 0 then some (id, resized newAmount remainingAmount stored)
      else none := by
  have hhot := isHot_resized newAmount remainingAmount stored
  unfold updateOrderAmount
  rw [h]
  by_cases hrem : remainingAmount ≠ 0
  · rw [if_pos hrem]
    exact find_settle_of_hot tsMs h (hhot.mpr hrem)
  · rw [if_neg hrem]
    exact find_settle_of_terminal tsMs h (Bool.eq_false_iff.mpr fun hh => hrem (hhot.mp hh))

theorem find_updateOrderFill {t : OrderTx}
    (tsMs fillAmount remainingAmount : UInt64) (isFullyFilled : Bool)
    (h : t.idx.find sdk spot chainId = some (id, stored)) :
    (t.updateOrderFill sdk tsMs spot chainId fillAmount remainingAmount
        isFullyFilled).idx.find sdk spot chainId =
      if isFullyFilled = false ∧ remainingAmount ≠ 0 then
        some (id, afterFill fillAmount remainingAmount isFullyFilled stored)
      else none := by
  have hhot := isHot_afterFill fillAmount remainingAmount isFullyFilled stored
  unfold updateOrderFill
  rw [h]
  by_cases hrem : isFullyFilled = false ∧ remainingAmount ≠ 0
  · rw [if_pos hrem]
    exact find_settle_of_hot tsMs h (hhot.mpr hrem)
  · rw [if_neg hrem]
    exact find_settle_of_terminal tsMs h (Bool.eq_false_iff.mpr fun hh => hrem (hhot.mp hh))

end OrderTx

end Find

end ClobIndexer
