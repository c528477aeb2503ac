import ClobIndexer.Events
import ClobIndexer.Lib.Dict
/-!
# The open orders of a market, as the chain keeps them

The chain's side of an order event stream: the orders that are open, what an
event may say about them, and what it does to them.  An open order always has
something left to fill.  Nothing here is indexer code; the book and the order
index are compared with it.
-/

namespace ClobIndexer

open Lib

structure ChainOrder where
  side : OrderSide
  price : UInt64
  size : UInt64
  filled : UInt64
  unfilled : filled.toNat < size.toNat
deriving DecidableEq

namespace ChainOrder

def remaining (o : ChainOrder) : Nat := o.size.toNat - o.filled.toNat

def restsAt (o : ChainOrder) (side : OrderSide) (price : UInt64) : Nat :=
  if o.side = side ∧ o.price = price then o.remaining else 0

end ChainOrder

abbrev OpenOrders := Dict String ChainOrder

namespace OpenOrders

/-- Keep an order with the given amounts open, or close it when it is filled. -/
def put (os : OpenOrders) (id : String) (side : OrderSide) (price size filled : UInt64) :
    OpenOrders :=
  if h : filled.toNat < size.toNat then os.insert id ⟨side, price, size, filled, h⟩
  else os.erase id

/-- The events the chain can emit: ids of open orders are not reused, an event
names an open order with its own side and price, and the amounts it carries are
those of the order. -/
def Accepts (os : OpenOrders) : MarketOrderEvent → Prop
  | .created e =>
      os.lookup e.orderId = none ∧ e.amount ≠ 0 ∧
        ∃ price, e.orderType = .limit price ∧ price ≠ 0
  | .cancelled e =>
      ∃ o, os.lookup e.orderId = some o ∧ e.side = o.side ∧ e.price = o.price ∧
        e.cancelledAmount.toNat = o.remaining
  | .updated e =>
      ∃ o, os.lookup e.orderId = some o ∧ e.side = o.side ∧ e.price = o.price ∧
        e.oldAmount = o.size ∧ o.filled.toNat ≤ e.newAmount.toNat ∧
        e.remainingAmount.toNat = e.newAmount.toNat - o.filled.toNat
  | .filled e _ =>
      ∃ o, os.lookup e.orderId = some o ∧ e.side = o.side ∧ e.price = o.price ∧
        e.fillAmount.toNat ≤ o.remaining ∧
        e.remainingAmount.toNat = o.remaining - e.fillAmount.toNat ∧
        (e.isFullyFilled = true ↔ e.remainingAmount = 0)
  | .executed _ => True

def advance (os : OpenOrders) : MarketOrderEvent → OpenOrders
  | .created e =>
      match e.orderType with
      | .limit price => os.put e.orderId e.side price e.amount 0
      | .market => os
      | .trigger _ => os
  | .cancelled e => os.erase e.orderId
  | .updated e =>
      match os.lookup e.orderId with
      | none => os
      | some o => os.put e.orderId o.side o.price e.newAmount o.filled
  | .filled e _ =>
      match os.lookup e.orderId with
      | none => os
      | some o => os.put e.orderId o.side o.price o.size (o.filled + e.fillAmount)
  | .executed _ => os

def total (os : OpenOrders) (side : OrderSide) (price : UInt64) : Nat :=
  Dict.sumOf (fun _ o => o.restsAt side price) os

/-- An event stream of the chain, with every level total within a word. -/
def LegalRun : OpenOrders → List MarketOrderEvent → Prop
  | _, [] => True
  | os, e :: es =>
      os.Accepts e ∧ (∀ side price, (os.advance e).total side price ≤ Word.u64Max) ∧
        LegalRun (os.advance e) es

def after (os : OpenOrders) (events : List MarketOrderEvent) : OpenOrders :=
  events.foldl advance os

/-! ## Totals after a change of one order -/

theorem total_erase (os : OpenOrders) {id : String} {o : ChainOrder}
    (h : os.lookup id = some o) (side : OrderSide) (price : UInt64) :
    o.restsAt side price + total (os.erase id) side price = os.total side price :=
  Dict.sumOf_erase (fun _ o => o.restsAt side price) os h

theorem total_put (os : OpenOrders) (id : String) (side : OrderSide) (price size filled : UInt64)
    (side' : OrderSide) (price' : UInt64) :
    (os.put id side price size filled).total side' price' =
      (if side = side' ∧ price = price' then size.toNat - filled.toNat else 0) +
        total (os.erase id) side' price' := by
  unfold put
  split_ifs with h hat hat
  · unfold total
    rw [Dict.sumOf_insert]
    congr 1
    exact if_pos hat
  · unfold total
    rw [Dict.sumOf_insert]
    congr 1
    exact if_neg hat
  · omega
  · omega

theorem total_put_of_none (os : OpenOrders) {id : String} (h : os.lookup id = none)
    (side : OrderSide) (price size filled : UInt64) (side' : OrderSide) (price' : UInt64) :
    (os.put id side price size filled).total side' price' =
      (if side = side' ∧ price = price' then size.toNat - filled.toNat else 0) +
        os.total side' price' := by
  rw [total_put]
  congr 1
  exact Dict.sumOf_erase_of_notMem _ os h

def Priced (os : OpenOrders) : Prop := ∀ id o, os.lookup id = some o → o.price ≠ 0

theorem Priced.put {os : OpenOrders} (h : os.Priced) (id : String) (side : OrderSide)
    {price : UInt64} (hprice : price ≠ 0) (size filled : UInt64) :
    (os.put id side price size filled).Priced := by
  intro id' o ho
  unfold OpenOrders.put at ho
  split_ifs at ho with hlt
  · rw [Dict.lookup_insert_ite] at ho
    split_ifs at ho with heq
    · cases ho
      exact hprice
    · exact h id' o ho
  · rw [Dict.lookup_erase_ite] at ho
    split_ifs at ho with heq
    exact h id' o ho

theorem Priced.erase {os : OpenOrders} (h : os.Priced) (id : String) :
    Priced (AList.erase id os) := by
  intro id' o ho
  rw [Dict.lookup_erase_ite] at ho
  split_ifs at ho with heq
  exact h id' o ho

end OpenOrders

end ClobIndexer
