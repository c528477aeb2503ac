import ClobIndexer.HexSdk
import ClobIndexer.Indexer.Processor
/-!
# Telling owners about their orders

Every order handler changes the index first and then re-reads the order to
publish it, so an order that its event has just archived is not found.  The
messages an owner should get are fixed by the state before the event; they are
sent exactly for the events that leave the order in the index.
-/

namespace ClobIndexer

open Lib

variable {env : Env}

/-- What an order event is about: the kind of announcement, the owner, the order
and the status the event gives it. -/
structure Announcement where
  event : String
  userAddress : String
  orderId : Uuid
  status : String
deriving DecidableEq

namespace MarketOrderEvent

def isFill : MarketOrderEvent → Bool
  | .filled _ _ => true
  | _ => false

/-- The announcement an event calls for: one for an order it makes hot, or one for
an order that is hot when it comes. -/
def announcement (sdk : Sdk) (idx : OrderIndex) (spotMarket : String) :
    MarketOrderEvent → Option Announcement
  | .created e =>
      if idx.hasChainOrder sdk spotMarket e.orderId then none
      else some ⟨"placement", e.creator, orderUuid sdk spotMarket e.orderId, "open"⟩
  | .cancelled e =>
      (idx.find sdk spotMarket e.orderId).map fun r =>
        ⟨"cancellation", r.2.userAddress, r.2.order.id, "cancelled"⟩
  | .updated e =>
      (idx.find sdk spotMarket e.orderId).map fun r =>
        ⟨"update", r.2.userAddress, r.2.order.id,
          (OrderTx.resized e.newAmount e.remainingAmount r.2).order.status⟩
  | .filled e _ =>
      (idx.find sdk spotMarket e.orderId).map fun r =>
        ⟨"update", r.2.userAddress, r.2.order.id,
          (OrderTx.afterFill e.fillAmount e.remainingAmount e.isFullyFilled r.2).order.status⟩
  | .executed _ => none

def LeavesHot : MarketOrderEvent → Prop
  | .created _ => True
  | .cancelled _ => False
  | .updated e => e.remainingAmount ≠ 0
  | .filled e _ => e.isFullyFilled = false ∧ e.remainingAmount ≠ 0
  | .executed _ => False

end MarketOrderEvent

namespace UserWsMessage

def trade? : UserWsMessage → Option UserTradeMessage
  | .trade m => some m
  | .order _ => none

end UserWsMessage

/-- The messages sent hold the announced order message and, for a fill, one trade
message to the same owner about the same order. -/
structure Announces (a : Announcement) (chainOrderId spotMarket : String) (fill : Bool)
    (sent : List UserWsMessage) : Prop where
  order : ∃ m, .order m ∈ sent ∧ m.event = a.event ∧ m.userAddress = a.userAddress ∧
    m.chainOrderId = chainOrderId ∧ m.spotMarket = spotMarket ∧ m.order.id = a.orderId ∧
    m.order.status = a.status
  trade : fill = true → ∃ m, sent.filterMap UserWsMessage.trade? = [m] ∧
    m.userAddress = a.userAddress ∧ m.orderId = a.orderId ∧ m.chainOrderId = chainOrderId

namespace Ctx

variable {c : Ctx} {spotMarket chainOrderId : String} {blockNum : UInt64}

theorem hub_publishStoredOrder {id : Uuid} {stored : StoredOrder} (event : String)
    (h : c.store.orders.find env.sdk spotMarket chainOrderId = some (id, stored)) :
    (c.publishStoredOrder env event spotMarket chainOrderId blockNum).hub =
      c.hub ++ [.order ⟨event, stored.userAddress, chainOrderId, blockNum, spotMarket,
        stored.order⟩] := by
  unfold publishStoredOrder OrderIndex.storedOrderByChainId
  rw [h]
  rfl

theorem hub_publishStoredOrder_of_none (event : String)
    (h : c.store.orders.find env.sdk spotMarket chainOrderId = none) :
    (c.publishStoredOrder env event spotMarket chainOrderId blockNum).hub = c.hub := by
  unfold publishStoredOrder OrderIndex.storedOrderByChainId
  rw [h]
  rfl

theorem announces_created (lawful : LawfulSdk env.sdk) (e : OrderCreatedEvent)
    (hnew : c.store.orders.hasChainOrder env.sdk spotMarket e.orderId = false) :
    Announces ⟨"placement", e.creator, orderUuid env.sdk spotMarket e.orderId, "open"⟩ e.orderId
      spotMarket false
      ((c.handleCreated env {} blockNum spotMarket e).hub.drop c.hub.length) := by
  have hbooks := booksOnly_ensureChainHydrated env c spotMarket
  generalize hc' : (c.ensureChainHydrated env spotMarket).applyOrderCreatedToBook env blockNum e
    spotMarket true = c'
  have hhub : c'.hub = c.hub := by
    rw [← hc', ← hbooks.hub]
    unfold applyOrderCreatedToBook
    split <;> rfl
  have hfind := OrderTx.find_insertOrder lawful c'.store.tsMs (orderOfCreated env
      (c'.store.registry.resolveSpotMarket env.sdk spotMarket).1
      (c'.store.registry.resolveSpotMarket env.sdk spotMarket).2 e spotMarket "open") e.creator
    spotMarket e.orderId e.amount 0 ⟨c'.store.orders, c'.ws.orders, c'.history⟩ rfl
  have hsent : (c.handleCreated env {} blockNum spotMarket e).hub =
      c.hub ++ [.order ⟨"placement", e.creator, e.orderId, blockNum, spotMarket,
        orderOfCreated env (c'.store.registry.resolveSpotMarket env.sdk spotMarket).1
          (c'.store.registry.resolveSpotMarket env.sdk spotMarket).2 e spotMarket "open"⟩] := by
    unfold handleCreated
    dsimp only
    rw [hnew, if_neg Bool.false_ne_true, if_pos rfl, hc', ← hhub]
    exact hub_publishStoredOrder (c := c'.indexOrderCreated env e spotMarket none) "placement"
      hfind
  rw [hsent, List.drop_left]
  exact ⟨⟨_, List.mem_singleton.mpr rfl, rfl, rfl, rfl, rfl, rfl, rfl⟩, fun h => by cases h⟩

theorem not_announces_nil (a : Announcement) (chainId spot : String) (fill : Bool) :
    ¬Announces a chainId spot fill [] := by
  intro h
  obtain ⟨m, hm, -⟩ := h.order
  cases hm

theorem not_announces_cancelled (e : OrderCancelledEvent) {id : Uuid} {stored : StoredOrder}
    (h : c.store.orders.find env.sdk spotMarket e.orderId = some (id, stored))
    (a : Announcement) :
    ¬Announces a e.orderId spotMarket false
      ((c.handleCancelled env {} blockNum spotMarket e).hub.drop c.hub.length) := by
  have hgone : (OrderTx.updateOrderCancelled env.sdk c.store.tsMs spotMarket e.orderId
      ⟨c.store.orders, c.ws.orders, c.history⟩).idx.find env.sdk spotMarket e.orderId = none := by
    unfold OrderTx.updateOrderCancelled
    rw [h]
    exact OrderTx.find_archiveTerminalOrder c.store.tsMs h
  have hsent : (c.handleCancelled env {} blockNum spotMarket e).hub = c.hub := by
    unfold handleCancelled
    dsimp only
    rw [if_pos rfl]
    exact hub_publishStoredOrder_of_none "cancellation" hgone
  rw [hsent, List.drop_length]
  exact not_announces_nil a e.orderId spotMarket false

theorem announces_updated_iff (e : OrderUpdatedEvent) {id : Uuid} {stored : StoredOrder}
    (h : c.store.orders.find env.sdk spotMarket e.orderId = some (id, stored)) :
    Announces ⟨"update", stored.userAddress, stored.order.id,
        (OrderTx.resized e.newAmount e.remainingAmount stored).order.status⟩ e.orderId spotMarket
        false ((c.handleUpdated env {} blockNum spotMarket e).hub.drop c.hub.length) ↔
      e.remainingAmount ≠ 0 := by
  have hbooks := booksOnly_ensureChainHydrated env c spotMarket
  generalize hc' : c.ensureChainHydrated env spotMarket = c' at hbooks
  rw [← hbooks.orders] at h
  have hfind := OrderTx.find_updateOrderAmount (t := ⟨c'.store.orders, c'.ws.orders, c'.history⟩)
    c'.store.tsMs e.newAmount e.remainingAmount h
  have hpublish : (c.handleUpdated env {} blockNum spotMarket e).hub =
      (publishStoredOrder env "update" spotMarket e.orderId blockNum
        ((c'.onBooks true fun t => t.applyUpdated env.sdk spotMarket e.side e.price e.oldAmount
          e.newAmount e.remainingAmount blockNum).onOrders fun t =>
            t.updateOrderAmount env.sdk c'.store.tsMs spotMarket e.orderId e.newAmount
              e.remainingAmount)).hub := by
    rw [← hc']
    rfl
  rw [hpublish]
  by_cases hrem : e.remainingAmount ≠ 0
  · rw [if_pos hrem] at hfind
    rw [hub_publishStoredOrder "update" hfind]
    change Announces _ _ _ _ ((c'.hub ++ _).drop _) ↔ _
    rw [hbooks.hub, List.drop_left]
    refine iff_of_true ?_ hrem
    exact ⟨⟨_, List.mem_singleton.mpr rfl, rfl, rfl, rfl, rfl, rfl, rfl⟩, fun h => by cases h⟩
  · rw [if_neg hrem] at hfind
    rw [hub_publishStoredOrder_of_none "update" hfind]
    change Announces _ _ _ _ (c'.hub.drop _) ↔ _
    rw [hbooks.hub, List.drop_length]
    exact iff_of_false (not_announces_nil _ _ _ _) hrem

theorem announces_filled_iff (e : OrderFilledEvent) (txSender : String) {id : Uuid}
    {stored : StoredOrder}
    (h : c.store.orders.find env.sdk spotMarket e.orderId = some (id, stored)) :
    Announces ⟨"update", stored.userAddress, stored.order.id,
        (OrderTx.afterFill e.fillAmount e.remainingAmount e.isFullyFilled stored).order.status⟩
        e.orderId spotMarket true
        ((c.handleFilled env {} blockNum spotMarket e txSender).hub.drop c.hub.length) ↔
      e.isFullyFilled = false ∧ e.remainingAmount ≠ 0 := by
  have hhub := hub_applyFillToIndex env c {} blockNum spotMarket e
  have hfind := OrderTx.find_updateOrderFill (t := ⟨c.store.orders, c.ws.orders, c.history⟩)
    c.store.tsMs e.fillAmount e.remainingAmount e.isFullyFilled h
  rw [← orders_applyFillToIndex env c {} blockNum spotMarket e] at hfind
  unfold handleFilled
  dsimp only
  rw [if_pos rfl]
  generalize c.applyFillToIndex env {} blockNum spotMarket e = c' at hhub hfind ⊢
  unfold publishUserOrderFilled OrderIndex.storedOrderByChainId
  dsimp only
  by_cases hrem : e.isFullyFilled = false ∧ e.remainingAmount ≠ 0
  · rw [if_pos hrem] at hfind
    rw [hfind]
    refine iff_of_true ?_ hrem
    change Announces _ _ _ _ ((c'.hub ++ [_] ++ [_]).drop _)
    rw [hhub, List.append_assoc, List.drop_left]
    refine ⟨⟨_, List.mem_cons_of_mem _ (List.mem_singleton.mpr rfl), rfl, rfl, rfl, rfl, rfl,
      rfl⟩, fun _ => ⟨_, rfl, rfl, rfl, rfl⟩⟩
  · rw [if_neg hrem] at hfind
    rw [hfind]
    refine iff_of_false ?_ hrem
    -- at most a trade message to the sender is left
    rintro ⟨⟨m, hm, -⟩, -⟩
    dsimp only [Option.map_none] at hm
    split_ifs at hm
    · change _ ∈ (c'.hub ++ [_]).drop _ at hm
      rw [hhub, List.drop_left, List.mem_singleton] at hm
      cases hm
    · rw [hhub, List.drop_length] at hm
      cases hm

/-- An event on an indexed order is announced to its owner exactly when it leaves
the order in the index. -/
theorem announces_iff (lawful : LawfulSdk env.sdk) (c : Ctx) (blockNum : UInt64)
    (spotMarket : String) (e : MarketOrderEvent) (a : Announcement)
    (ha : e.announcement env.sdk c.store.orders spotMarket = some a) :
    Announces a e.chainOrderId spotMarket e.isFill
        ((c.applyMarketOrderEvent env {} blockNum spotMarket e).hub.drop c.hub.length) ↔
      e.LeavesHot := by
  cases e with
  | created e =>
      unfold MarketOrderEvent.announcement at ha
      dsimp only at ha
      split_ifs at ha with hdup
      cases ha
      exact iff_of_true (announces_created lawful e (Bool.eq_false_iff.mpr hdup)) trivial
  | cancelled e =>
      unfold MarketOrderEvent.announcement at ha
      rw [Option.map_eq_some_iff] at ha
      obtain ⟨⟨id, stored⟩, hfind, rfl⟩ := ha
      exact iff_of_false (not_announces_cancelled e hfind _) not_false
  | updated e =>
      unfold MarketOrderEvent.announcement at ha
      rw [Option.map_eq_some_iff] at ha
      obtain ⟨⟨id, stored⟩, hfind, rfl⟩ := ha
      exact announces_updated_iff e hfind
  | filled e txSender =>
      unfold MarketOrderEvent.announcement at ha
      rw [Option.map_eq_some_iff] at ha
      obtain ⟨⟨id, stored⟩, hfind, rfl⟩ := ha
      exact announces_filled_iff e txSender hfind
  | executed e => cases ha

end Ctx

namespace Sample

def placed : OrderCreatedEvent := ⟨"1", .buy, 10, account, market, .limit 500000, none⟩

def withOrder : Ctx :=
  Ctx.applyMarketOrderEvent setting {} 7 market { store := {} } (.created placed)

theorem announces_placed_iff :
    Announces ⟨"placement", account, orderUuid setting.sdk market "1", "open"⟩ "1" market false
        ((Ctx.applyMarketOrderEvent setting {} 7 market { store := {} } (.created placed)).hub.drop
          0) ↔
      (MarketOrderEvent.created placed).LeavesHot :=
  Ctx.announces_iff lawful { store := {} } 7 market (.created placed) _ rfl

/-- The owner of a hot order hears nothing of its cancellation. -/
theorem cancellation_unannounced :
    (MarketOrderEvent.cancelled ⟨"1", .buy, 500000, 10⟩).announcement setting.sdk
        withOrder.store.orders market =
      some ⟨"cancellation", account, orderUuid setting.sdk market "1", "cancelled"⟩ ∧
    ¬Announces ⟨"cancellation", account, orderUuid setting.sdk market "1", "cancelled"⟩ "1" market
      false ((withOrder.applyMarketOrderEvent setting {} 8 market
        (.cancelled ⟨"1", .buy, 500000, 10⟩)).hub.drop withOrder.hub.length) := by
  have hsent : (withOrder.applyMarketOrderEvent setting {} 8 market
      (.cancelled ⟨"1", .buy, 500000, 10⟩)).hub.drop withOrder.hub.length = [] := by
    decide +kernel
  refine ⟨by decide +kernel, ?_⟩
  rw [hsent]
  exact Ctx.not_announces_nil _ _ _ _

end Sample

end ClobIndexer
