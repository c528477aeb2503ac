import ClobIndexer.Indexer.LevelMoves
import ClobIndexer.Indexer.OrderAgreement
/-!
# Two runs of the same steps

A simulation between two contexts that run the same steps of a market task.
Contexts that are the same for an observer of the book and of the hot orders stay
so under every step.  A context that is ahead by one order, on the book and
perhaps in the index, stays ahead under the steps of other orders, and the two
meet again when the other one creates the order.
-/

namespace ClobIndexer

open Lib

variable (env : Env) (opts : ProcessOpts) (blockNum : UInt64) (spotMarket : String)

namespace Ctx

/-! ## What a step leaves alone -/

/-- The parts of a context that the steps of other tasks may depend on. -/
structure SameIndex (c d : Ctx) : Prop where
  books : c.store.books = d.store.books
  orders : c.store.orders = d.store.orders
  lastTradePrice : c.store.lastTradePrice = d.store.lastTradePrice
  calls : c.calls = d.calls

theorem SameIndex.symm {c d : Ctx} (h : SameIndex c d) : SameIndex d c :=
  ⟨h.books.symm, h.orders.symm, h.lastTradePrice.symm, h.calls.symm⟩

variable {env opts blockNum spotMarket}

/-! ## Orders -/

section Orders

variable {K : String → Prop} {I : Uuid → Prop} {c d : Ctx}

end Orders

/-! ## The same for an observer -/

variable (env spotMarket) in
/-- Same levels, same hot orders up to their faces, and the same standing towards
the node. -/
structure Same (c d : Ctx) : Prop where
  levels : (c.store.books.shard (normalizeSpotMarketKey env.sdk spotMarket)).SameLevels
    (d.store.books.shard (normalizeSpotMarketKey env.sdk spotMarket))
  hydrated : c.store.books.isChainHydrated env.sdk spotMarket =
    d.store.books.isChainHydrated env.sdk spotMarket
  orders : c.store.orders.Agree (fun _ => True) (fun _ => True) d.store.orders
  lastTradePrice : c.store.lastTradePrice = d.store.lastTradePrice
  calls : c.calls = d.calls

theorem SameIndex.same {c d : Ctx} (h : SameIndex c d) : Same env spotMarket c d := by
  refine ⟨?_, ?_, ⟨?_, ?_⟩, h.lastTradePrice, h.calls⟩
  · rw [h.books]
    exact fun _ _ => rfl
  · rw [h.books]
  · rw [h.orders]
    exact fun _ _ => rfl
  · rw [h.orders]
    exact fun _ _ => rfl

theorem Same.trans {a b c : Ctx} (h : Same env spotMarket a b) (h' : Same env spotMarket b c) :
    Same env spotMarket a c where
  levels side price := (h.levels side price).trans (h'.levels side price)
  hydrated := h.hydrated.trans h'.hydrated
  orders := ⟨fun key hkey => (h.orders.ids key hkey).trans (h'.orders.ids key hkey),
    fun id hid => (h.orders.faces id hid).trans (h'.orders.faces id hid)⟩
  lastTradePrice := h.lastTradePrice.trans h'.lastTradePrice
  calls := h.calls.trans h'.calls

theorem Same.hasChainOrder {c d : Ctx} (h : Same env spotMarket c d) (chainOrderId : String) :
    c.store.orders.hasChainOrder env.sdk spotMarket chainOrderId =
      d.store.orders.hasChainOrder env.sdk spotMarket chainOrderId := by
  unfold OrderIndex.hasChainOrder
  rw [h.orders.ids _ trivial]

variable (env spotMarket) in
/-- The first context has the order on its book and, if `indexed`, in its index. -/
structure Ahead (indexed : Bool) (o : OrderCreatedEvent) (c d : Ctx) : Prop where
  levels : match o.levelMove with
    | none => (c.store.books.shard (normalizeSpotMarketKey env.sdk spotMarket)).SameLevels
        (d.store.books.shard (normalizeSpotMarketKey env.sdk spotMarket))
    | some move =>
        (c.store.books.shard (normalizeSpotMarketKey env.sdk spotMarket)).AheadAt move.side
          move.price move.amount.toNat
          (d.store.books.shard (normalizeSpotMarketKey env.sdk spotMarket))
  hydrated : c.store.books.isChainHydrated env.sdk spotMarket = true ∧
    d.store.books.isChainHydrated env.sdk spotMarket = true
  orders : match indexed with
    | false => c.store.orders.Agree (fun _ => True) (fun _ => True) d.store.orders ∧
        d.store.orders.Unknown env.sdk spotMarket o.orderId
    | true => c.store.orders.Ahead env.sdk spotMarket o.orderId d.store.orders
  lastTradePrice : c.store.lastTradePrice = d.store.lastTradePrice
  calls : c.calls = d.calls

theorem Ahead.hasChainOrder {indexed : Bool} {o : OrderCreatedEvent} {c d : Ctx}
    (h : Ahead env spotMarket indexed o c d) {chainOrderId : String}
    (hne : chainOrderId ≠ o.orderId) :
    c.store.orders.hasChainOrder env.sdk spotMarket chainOrderId =
      d.store.orders.hasChainOrder env.sdk spotMarket chainOrderId := by
  have horders := h.orders
  unfold OrderIndex.hasChainOrder
  cases indexed with
  | false => rw [horders.1.ids _ trivial]
  | true =>
      rw [horders.agree.ids _ fun hk => hne (onchainOrderId_injective env.sdk spotMarket hk)]

end Ctx

end ClobIndexer
