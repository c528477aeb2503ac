import ClobIndexer.HexSdk
import ClobIndexer.Indexer.OrderIndexes
/-!
# Cancelling an order on request

`mark_cancelled` of `src/http/routes/orders.rs`: an owner takes a hot order out of
the index.  Together with the order events of blocks and `clear_all` these are
the writers of the order maps whose new orders are guarded by `has_chain_order`;
after any sequence of them the three indexes agree.
-/

namespace ClobIndexer

open Lib

inductive AppError where
  | notFound (message : String)
  | badRequest (message : String)
deriving DecidableEq

def OrderIndex.storedOrderContextById (idx : OrderIndex) (orderId : Uuid) (userAddress : String) :
    Option (Order × String × String) :=
  match idx.orders.lookup orderId with
  | none => none
  | some stored =>
      if Text.eqIgnoreAsciiCase stored.userAddress userAddress then
        some (stored.order, stored.chainOrderId, stored.spotMarket)
      else none

variable (env : Env)

namespace Ctx

/-- `mark_cancelled`: it has no write set. -/
def markCancelled (orderId : Uuid) (userAddress : String) (c : Ctx) : Ctx × Except AppError Unit :=
  match c.store.orders.storedOrderContextById orderId userAddress with
  | none => (c, .error (.notFound ("order " ++ orderId.toString ++ " not found")))
  | some (order, chainOrderId, spotMarket) =>
      if order.status = "cancelled" then (c, .ok ())
      else if order.status ≠ "open" ∧ order.status ≠ "partial_filled" then
        (c, .error (.badRequest ("order " ++ orderId.toString ++ " is not cancellable")))
      else
        ({ c.onOrders fun t =>
            t.updateOrderCancelled env.sdk c.store.tsMs spotMarket chainOrderId with ws := c.ws },
          .ok ())

def clearAll (c : Ctx) : Ctx := { c with store := {} }

end Ctx

inductive OrderIndexStep where
  | event (opts : ProcessOpts) (blockNum : UInt64) (spotMarket : String) (e : MarketOrderEvent)
  | markCancelled (orderId : Uuid) (userAddress : String)
  | clearAll

namespace OrderIndexStep

def names : OrderIndexStep → Set String
  | event _ _ spotMarket e => {onchainOrderId env.sdk spotMarket e.chainOrderId}
  | markCancelled _ _ => ∅
  | clearAll => ∅

def run (c : Ctx) : OrderIndexStep → Ctx
  | event opts blockNum spotMarket e => c.applyMarketOrderEvent env opts blockNum spotMarket e
  | markCancelled orderId userAddress => (c.markCancelled env orderId userAddress).1
  | clearAll => c.clearAll

end OrderIndexStep

variable {env}

open OrderIndex

theorem indexed_markCancelled {names : Set String} {c : Ctx} (h : Indexed env.sdk c.store.orders)
    (hnamed : Named env.sdk names c.store.orders) (orderId : Uuid) (userAddress : String) :
    Indexed env.sdk (c.markCancelled env orderId userAddress).1.store.orders ∧
      Named env.sdk names (c.markCancelled env orderId userAddress).1.store.orders := by
  unfold Ctx.markCancelled
  split
  · exact ⟨h, hnamed⟩
  · split_ifs
    · exact ⟨h, hnamed⟩
    · exact ⟨h, hnamed⟩
    · dsimp only [Ctx.onOrders]
      rw [OrderTx.updateOrderCancelled_eq_touch]
      exact OrderTx.indexed_touch h hnamed _ _ _ OrderTx.keeps_cancelled

theorem indexed_run_step (lawful : LawfulSdk env.sdk) {names : Set String} {c : Ctx}
    (h : Indexed env.sdk c.store.orders) (hnamed : Named env.sdk names c.store.orders)
    (hinj : Set.InjOn env.sdk.uuidV5 names) (step : OrderIndexStep)
    (hnames : step.names env ⊆ names) :
    Indexed env.sdk (step.run env c).store.orders ∧
      Named env.sdk names (step.run env c).store.orders := by
  cases step with
  | event opts blockNum spotMarket e =>
      refine Ctx.indexed_applyMarketOrderEvent lawful h hnamed hinj opts blockNum spotMarket e ?_
      rintro o rfl
      exact hnames rfl
  | markCancelled orderId userAddress => exact indexed_markCancelled h hnamed orderId userAddress
  | clearAll => exact ⟨indexed_empty, named_empty⟩

theorem indexed_foldl_run (lawful : LawfulSdk env.sdk) {names : Set String} {c : Ctx}
    (h : Indexed env.sdk c.store.orders) (hnamed : Named env.sdk names c.store.orders)
    (hinj : Set.InjOn env.sdk.uuidV5 names) (steps : List OrderIndexStep)
    (hnames : ∀ step ∈ steps, step.names env ⊆ names) :
    Indexed env.sdk (steps.foldl (OrderIndexStep.run env) c).store.orders := by
  induction steps generalizing c with
  | nil => exact h
  | cons step steps ih =>
      obtain ⟨hstep, hstepNamed⟩ :=
        indexed_run_step lawful h hnamed hinj step (hnames step List.mem_cons_self)
      exact ih hstep hstepNamed fun s hs => hnames s (List.mem_cons_of_mem _ hs)

/-- In every state that order events, cancellations on request and `clear_all` can
reach from an empty index, the three order indexes agree and a user's list is the
user's hot orders. -/
theorem orderIndexes_agree (lawful : LawfulSdk env.sdk) (c : Ctx) (hempty : c.store.orders = {})
    (steps : List OrderIndexStep)
    (hinj : Set.InjOn env.sdk.uuidV5 {key | ∃ step ∈ steps, key ∈ step.names env}) :
    let idx := (steps.foldl (OrderIndexStep.run env) c).store.orders
    Indexed env.sdk idx ∧
      ∀ userAddress, (idx.listOrdersForUser userAddress).Perm (idx.hotOrdersOf userAddress) := by
  intro idx
  have hindexed : Indexed env.sdk idx := by
    refine indexed_foldl_run lawful ?_ ?_ hinj steps ?_
    · rw [hempty]
      exact indexed_empty
    · rw [hempty]
      exact named_empty
    · exact fun step hstep key hkey => ⟨step, hstep, hkey⟩
  exact ⟨hindexed, hindexed.perm_listOrdersForUser⟩

namespace Sample

def placedAndCancelled : List OrderIndexStep :=
  [.event {} 7 market (.created ⟨"1", .buy, 10, account, market, .limit 500000, none⟩),
    .event {} 7 market (.created ⟨"2", .sell, 5, account, market, .limit 600000, none⟩),
    .event {} 8 market (.filled ⟨"1", market, .buy, 500000, 4, 6, false, none⟩ account),
    .markCancelled (orderUuid sdk market "2") account]

theorem names_placedAndCancelled {key : String}
    (h : ∃ step ∈ placedAndCancelled, key ∈ step.names setting) :
    key = market ++ ":1" ∨ key = market ++ ":2" := by
  have hone : onchainOrderId setting.sdk market "1" = market ++ ":1" := by decide +kernel
  have htwo : onchainOrderId setting.sdk market "2" = market ++ ":2" := by decide +kernel
  obtain ⟨step, hstep, hkey⟩ := h
  simp only [placedAndCancelled, List.mem_cons, List.not_mem_nil, or_false] at hstep
  rcases hstep with rfl | rfl | rfl | rfl
  · exact .inl (hkey.trans hone)
  · exact .inr (hkey.trans htwo)
  · exact .inl (hkey.trans hone)
  · cases hkey

theorem orderIndexes_placedAndCancelled :
    ((placedAndCancelled.foldl (OrderIndexStep.run setting) { store := {} }).store.orders.orders.keys =
        [orderUuid sdk market "1"]) ∧
      Indexed setting.sdk (placedAndCancelled.foldl (OrderIndexStep.run setting)
        { store := {} }).store.orders := by
  refine ⟨by decide +kernel, (orderIndexes_agree lawful _ rfl placedAndCancelled ?_).1⟩
  have hdistinct : setting.sdk.uuidV5 (market ++ ":1") ≠ setting.sdk.uuidV5 (market ++ ":2") := by
    decide +kernel
  intro a ha b hb heq
  rcases names_placedAndCancelled ha with rfl | rfl <;>
    rcases names_placedAndCancelled hb with rfl | rfl
  · rfl
  · exact absurd heq hdistinct
  · exact absurd heq.symm hdistinct
  · rfl

end Sample

end ClobIndexer
