import ClobIndexer.HexSdk
import ClobIndexer.Indexer.BookTotals
import ClobIndexer.Indexer.OpenOrders
import ClobIndexer.Indexer.Processor
/-!
# The book as the aggregate of the order index

Book levels and orders are changed by separate code, from the amounts an event
carries.  Both are compared with the chain's open orders: the book shows their
totals, and the hot orders of the market are exactly those orders.  Every order
event of the chain keeps the two, so the book is at all times the sum of what the
indexed orders have left to fill.
-/

namespace ClobIndexer

open Lib

variable {env : Env}

theorem onchainOrderId_injective (sdk : Sdk) (spotMarket : String) :
    Function.Injective (onchainOrderId sdk spotMarket) := by
  intro a b h
  exact (String.append_right_inj _).mp h

/-- The order shows the side and, as far as the text tells it, the price. -/
def StoredOrder.Displays (stored : StoredOrder) (side : OrderSide) (price : UInt64) : Prop :=
  stored.order.side = side.str ∧ stored.order.price = formatPricePieces price

/-- The hot orders of a market are the chain's open orders.  `names` holds the ids
of the orders of interest: outside it nothing is known of the index. -/
structure OrderIndex.Keeps (sdk : Sdk) (spotMarket : String) (names : String → Prop)
    (idx : OrderIndex) (os : OpenOrders) : Prop where
  named : ∀ id o, os.lookup id = some o → names id
  hot : ∀ id o, os.lookup id = some o →
    ∃ stored, idx.find sdk spotMarket id = some (orderUuid sdk spotMarket id, stored) ∧
      stored.chainOrderId = id ∧ stored.spotMarket = normalizeSpotMarketKey sdk spotMarket ∧
      stored.sizeRaw = o.size ∧ stored.filledRaw = o.filled ∧ stored.Displays o.side o.price
  closed : ∀ id, names id → os.lookup id = none → idx.hasChainOrder sdk spotMarket id = false
  only : ∀ uuid stored, idx.orders.lookup uuid = some stored →
    stored.spotMarket = normalizeSpotMarketKey sdk spotMarket →
    uuid = orderUuid sdk spotMarket stored.chainOrderId ∧ stored.chainOrderId ∈ os

namespace OrderIndex

variable {sdk : Sdk} {spotMarket : String} {names : String → Prop} {idx idx' : OrderIndex}
  {os : OpenOrders} {id : String}

def DistinctUuids (sdk : Sdk) (spotMarket : String) (names : String → Prop) : Prop :=
  ∀ a b, names a → names b → orderUuid sdk spotMarket a = orderUuid sdk spotMarket b → a = b

theorem Keeps.ids_ne (h : idx.Keeps sdk spotMarket names os)
    (hinj : DistinctUuids sdk spotMarket names) (hname : names id) {id' : String} {o : ChainOrder}
    (ho : os.lookup id' = some o) (hne : id' ≠ id) :
    onchainOrderId sdk spotMarket id' ≠ onchainOrderId sdk spotMarket id ∧
      orderUuid sdk spotMarket id' ≠ orderUuid sdk spotMarket id := by
  constructor
  · exact fun hkey => hne (onchainOrderId_injective sdk spotMarket hkey)
  · exact fun huuid => hne (hinj id' id (h.named id' o ho) hname huuid)

theorem Keeps.put (h : idx.Keeps sdk spotMarket names os)
    (hinj : DistinctUuids sdk spotMarket names) (hname : names id) (stored : StoredOrder)
    (o : ChainOrder) (hchain : stored.chainOrderId = id)
    (hspot : stored.spotMarket = normalizeSpotMarketKey sdk spotMarket)
    (hsize : stored.sizeRaw = o.size) (hfilled : stored.filledRaw = o.filled)
    (hdisplays : stored.Displays o.side o.price)
    (horders : idx'.orders = idx.orders.insert (orderUuid sdk spotMarket id) stored)
    (hids : ∀ key, idx'.ordersById.lookup key =
      if key = onchainOrderId sdk spotMarket id then some (orderUuid sdk spotMarket id)
      else idx.ordersById.lookup key) :
    idx'.Keeps sdk spotMarket names (os.insert id o) := by
  constructor
  · intro id' o' ho'
    rw [Dict.lookup_insert_ite] at ho'
    split_ifs at ho' with heq
    · exact heq ▸ hname
    · exact h.named id' o' ho'
  · intro id' o' ho'
    rw [Dict.lookup_insert_ite] at ho'
    split_ifs at ho' with heq
    · subst heq
      cases ho'
      refine ⟨stored, ?_, hchain, hspot, hsize, hfilled, hdisplays⟩
      rw [find_eq_some_iff, hids, if_pos rfl, horders]
      exact ⟨rfl, AList.lookup_insert _⟩
    · obtain ⟨stored', hfind, hrest⟩ := h.hot id' o' ho'
      refine ⟨stored', ?_, hrest⟩
      rw [find_eq_some_iff] at hfind ⊢
      obtain ⟨hkey, huuid⟩ := h.ids_ne hinj hname ho' heq
      rw [hids, if_neg hkey, horders, Dict.lookup_insert_ite, if_neg huuid]
      exact hfind
  · intro id' hname' hnone
    rw [Dict.lookup_insert_ite] at hnone
    split_ifs at hnone with heq
    have hkey : onchainOrderId sdk spotMarket id' ≠ onchainOrderId sdk spotMarket id :=
      fun hk => heq (onchainOrderId_injective sdk spotMarket hk)
    unfold hasChainOrder
    rw [hids, if_neg hkey]
    exact h.closed id' hname' hnone
  · intro uuid stored' hlookup hspot'
    rw [horders, Dict.lookup_insert_ite] at hlookup
    split_ifs at hlookup with heq
    · cases hlookup
      rw [hchain]
      exact ⟨heq, (AList.mem_insert os).mpr (Or.inl rfl)⟩
    · obtain ⟨huuid, hmem⟩ := h.only uuid stored' hlookup hspot'
      exact ⟨huuid, (AList.mem_insert os).mpr (Or.inr hmem)⟩

theorem Keeps.drop (h : idx.Keeps sdk spotMarket names os)
    (hinj : DistinctUuids sdk spotMarket names) (hname : names id)
    (horders : idx'.orders = idx.orders.erase (orderUuid sdk spotMarket id))
    (hids : ∀ key, idx'.ordersById.lookup key =
      if key = onchainOrderId sdk spotMarket id then none else idx.ordersById.lookup key) :
    idx'.Keeps sdk spotMarket names (os.erase id) := by
  constructor
  · intro id' o' ho'
    rw [Dict.lookup_erase_ite] at ho'
    split_ifs at ho' with heq
    exact h.named id' o' ho'
  · intro id' o' ho'
    rw [Dict.lookup_erase_ite] at ho'
    split_ifs at ho' with heq
    obtain ⟨stored', hfind, hrest⟩ := h.hot id' o' ho'
    refine ⟨stored', ?_, hrest⟩
    rw [find_eq_some_iff] at hfind ⊢
    obtain ⟨hkey, huuid⟩ := h.ids_ne hinj hname ho' heq
    rw [hids, if_neg hkey, horders, Dict.lookup_erase_ite, if_neg huuid]
    exact hfind
  · intro id' hname' hnone
    unfold hasChainOrder
    rw [hids]
    split_ifs with hkey
    · rfl
    · rw [Dict.lookup_erase_ite] at hnone
      have heq : id' ≠ id := fun heq => hkey (heq ▸ rfl)
      rw [if_neg heq] at hnone
      exact h.closed id' hname' hnone
  · intro uuid stored' hlookup hspot'
    rw [horders, Dict.lookup_erase_ite] at hlookup
    split_ifs at hlookup with heq
    obtain ⟨huuid, hmem⟩ := h.only uuid stored' hlookup hspot'
    have hne : stored'.chainOrderId ≠ id := fun hc => heq (hc ▸ huuid)
    exact ⟨huuid, (AList.mem_erase).mpr ⟨hne, hmem⟩⟩

end OrderIndex

namespace OrderTx

variable {sdk : Sdk} {spotMarket : String} {names : String → Prop} {t : OrderTx}
  {os : OpenOrders} {id : String}

theorem keeps_insertOrder (lawful : LawfulSdk sdk) (h : t.idx.Keeps sdk spotMarket names os)
    (hinj : OrderIndex.DistinctUuids sdk spotMarket names) (hname : names id) (tsMs : UInt64)
    {order : Order} (userAddress : String) (hid : order.id = orderUuid sdk spotMarket id)
    (hhot : isHotOrderStatus order.status = true) (o : ChainOrder)
    (hside : order.side = o.side.str) (hprice : order.price = formatPricePieces o.price) :
    (t.insertOrder sdk tsMs order userAddress spotMarket id o.size o.filled).idx.Keeps sdk
      spotMarket names (os.insert id o) := by
  unfold insertOrder
  rw [if_pos hhot]
  refine h.put hinj hname ⟨order, userAddress, id, normalizeSpotMarketKey sdk spotMarket,
    o.filled, o.size⟩ o rfl rfl rfl rfl ⟨hside, hprice⟩ ?_ ?_
  · rw [hid]
  · intro key
    dsimp only
    rw [onchainOrderId_normalize lawful, Dict.lookup_insert_ite, hid]

/-- Changing the amounts of an open order, which closes it when it is filled. -/
theorem keeps_settle (lawful : LawfulSdk sdk) (h : t.idx.Keeps sdk spotMarket names os)
    (hinj : OrderIndex.DistinctUuids sdk spotMarket names) (tsMs : UInt64) {o : ChainOrder}
    (ho : os.lookup id = some o) {uuid : Uuid} {stored stored' : StoredOrder}
    (hfind : t.idx.find sdk spotMarket id = some (uuid, stored))
    (hchain : stored'.chainOrderId = stored.chainOrderId)
    (hspot : stored'.spotMarket = stored.spotMarket)
    (hside : stored'.order.side = stored.order.side)
    (hprice : stored'.order.price = stored.order.price)
    (hhot : isHotOrderStatus stored'.order.status = true ↔
      stored'.filledRaw.toNat < stored'.sizeRaw.toNat) :
    (t.settle sdk tsMs uuid stored').idx.Keeps sdk spotMarket names
      (os.put id o.side o.price stored'.sizeRaw stored'.filledRaw) := by
  have hname := h.named id o ho
  obtain ⟨stored₀, hfind₀, hchain₀, hspot₀, -, -, hside₀, hprice₀⟩ := h.hot id o ho
  rw [hfind] at hfind₀
  cases hfind₀
  have hids := (OrderIndex.find_eq_some_iff.mp hfind).1
  unfold settle OpenOrders.put
  by_cases hlt : stored'.filledRaw.toNat < stored'.sizeRaw.toNat
  · rw [if_pos (hhot.mpr hlt), dif_pos hlt]
    refine h.put hinj hname _ _ (hchain.trans hchain₀) (hspot.trans hspot₀) rfl rfl
      ⟨hside.trans hside₀, hprice.trans hprice₀⟩ rfl ?_
    intro key
    split_ifs with hkey
    · rw [hkey]
      exact hids
    · rfl
  · rw [if_neg fun hh => hlt (hhot.mp hh), dif_neg hlt]
    refine h.drop hinj hname rfl ?_
    intro key
    change AList.lookup key (t.idx.ordersById.erase
      (onchainOrderId sdk stored'.spotMarket stored'.chainOrderId)) = _
    rw [hspot, hspot₀, hchain, hchain₀, onchainOrderId_normalize lawful, Dict.lookup_erase_ite]

theorem keeps_updateOrderCancelled (lawful : LawfulSdk sdk)
    (h : t.idx.Keeps sdk spotMarket names os)
    (hinj : OrderIndex.DistinctUuids sdk spotMarket names) (tsMs : UInt64) {o : ChainOrder}
    (ho : os.lookup id = some o) :
    (t.updateOrderCancelled sdk tsMs spotMarket id).idx.Keeps sdk spotMarket names
      (os.erase id) := by
  obtain ⟨stored, hfind, hchain, hspot, -⟩ := h.hot id o ho
  unfold updateOrderCancelled
  rw [hfind]
  refine h.drop hinj (h.named id o ho) rfl ?_
  intro key
  change AList.lookup key (t.idx.ordersById.erase
    (onchainOrderId sdk stored.spotMarket stored.chainOrderId)) = _
  rw [hspot, hchain, onchainOrderId_normalize lawful, Dict.lookup_erase_ite]

theorem keeps_updateOrderAmount (lawful : LawfulSdk sdk)
    (h : t.idx.Keeps sdk spotMarket names os)
    (hinj : OrderIndex.DistinctUuids sdk spotMarket names) (tsMs : UInt64) {o : ChainOrder}
    (ho : os.lookup id = some o) {newAmount remaining : UInt64}
    (hrem : remaining.toNat = newAmount.toNat - o.filled.toNat) :
    (t.updateOrderAmount sdk tsMs spotMarket id newAmount remaining).idx.Keeps sdk spotMarket
      names (os.put id o.side o.price newAmount o.filled) := by
  obtain ⟨stored, hfind, -, -, -, hfilled, -⟩ := h.hot id o ho
  unfold updateOrderAmount
  rw [hfind, ← hfilled]
  refine keeps_settle lawful h hinj tsMs ho hfind rfl rfl rfl rfl ?_
  rw [isHot_resized, ne_eq, Word.eq_zero_iff, hrem, ← hfilled]
  change _ ↔ stored.filledRaw.toNat < newAmount.toNat
  omega

theorem keeps_updateOrderFill (lawful : LawfulSdk sdk)
    (h : t.idx.Keeps sdk spotMarket names os)
    (hinj : OrderIndex.DistinctUuids sdk spotMarket names) (tsMs : UInt64) {o : ChainOrder}
    (ho : os.lookup id = some o) {fillAmount remaining : UInt64} {isFullyFilled : Bool}
    (hfill : fillAmount.toNat ≤ o.remaining)
    (hrem : remaining.toNat = o.remaining - fillAmount.toNat)
    (hfull : isFullyFilled = true ↔ remaining = 0) :
    (t.updateOrderFill sdk tsMs spotMarket id fillAmount remaining isFullyFilled).idx.Keeps sdk
      spotMarket names (os.put id o.side o.price o.size (o.filled + fillAmount)) := by
  obtain ⟨stored, hfind, -, -, hsize, hfilled, -⟩ := h.hot id o ho
  have hroom : o.filled.toNat + fillAmount.toNat ≤ o.size.toNat := by
    unfold ChainOrder.remaining at hfill
    have := o.unfilled
    omega
  have hmax := Word.toNat_le o.size
  -- the fill stays within the order, so nothing saturates or wraps
  have hadd : Word.satAdd stored.filledRaw fillAmount = o.filled + fillAmount := by
    rw [hfilled, ← UInt64.toNat_inj, Word.toNat_satAdd, UInt64.toNat_add, Nat.mod_eq_of_lt]
    · omega
    · unfold Word.u64Max at hmax
      omega
  have hsum : (o.filled + fillAmount).toNat = o.filled.toNat + fillAmount.toNat := by
    rw [← hadd, Word.toNat_satAdd, hfilled]
    omega
  unfold updateOrderFill
  rw [hfind, ← hadd, ← hsize]
  refine keeps_settle lawful h hinj tsMs ho hfind rfl rfl rfl rfl ?_
  rw [isHot_afterFill]
  change _ ↔ (Word.satAdd stored.filledRaw fillAmount).toNat < stored.sizeRaw.toNat
  rw [hadd, hsize, hsum, ← Bool.not_eq_true, hfull, and_self_iff, Word.eq_zero_iff, hrem]
  unfold ChainOrder.remaining
  omega

end OrderTx

namespace OpenOrders

open BookTx

variable {os : OpenOrders} {id : String} {o : ChainOrder}

theorem moves_created (h : os.lookup id = none) (side : OrderSide) (price amount : UInt64)
    (hfits : ∀ s p, (os.put id side price amount 0).total s p ≤ Word.u64Max) :
    Moves side price amount.toNat 0 os.total (os.put id side price amount 0).total := by
  refine ⟨?_, hfits side price, fun side' price' hne => ?_⟩
  · rw [total_put_of_none os h, if_pos ⟨rfl, rfl⟩]
    change amount.toNat - 0 + _ + 0 = _
    omega
  · rw [total_put_of_none os h, if_neg fun h => hne ⟨h.1.symm, h.2.symm⟩, Nat.zero_add]

theorem moves_erase (h : os.lookup id = some o)
    (hfits : ∀ s p, total (os.erase id) s p ≤ Word.u64Max) :
    Moves o.side o.price 0 o.remaining os.total (total (os.erase id)) := by
  refine ⟨?_, hfits _ _, fun side price hne => ?_⟩
  · rw [← total_erase os h o.side o.price]
    unfold ChainOrder.restsAt
    rw [if_pos ⟨rfl, rfl⟩]
    omega
  · rw [← total_erase os h side price]
    unfold ChainOrder.restsAt
    rw [if_neg fun h => hne ⟨h.1.symm, h.2.symm⟩, Nat.zero_add]

/-- New amounts of an open order move its level from what was left to what is. -/
theorem moves_put (h : os.lookup id = some o) (size filled : UInt64)
    (hfits : ∀ s p, (os.put id o.side o.price size filled).total s p ≤ Word.u64Max) :
    Moves o.side o.price (size.toNat - filled.toNat) o.remaining os.total
      (os.put id o.side o.price size filled).total := by
  refine ⟨?_, hfits _ _, fun side price hne => ?_⟩
  · rw [total_put, if_pos ⟨rfl, rfl⟩, ← total_erase os h o.side o.price]
    unfold ChainOrder.restsAt
    rw [if_pos ⟨rfl, rfl⟩]
    omega
  · have hne' : ¬(o.side = side ∧ o.price = price) := fun h => hne ⟨h.1.symm, h.2.symm⟩
    rw [total_put, if_neg hne', ← total_erase os h side price]
    unfold ChainOrder.restsAt
    rw [if_neg hne']

end OpenOrders

namespace Ctx

/-- The book of the market shows the open orders, and the hot orders are them. -/
structure Aggregates (sdk : Sdk) (spotMarket : String) (names : String → Prop) (c : Ctx)
    (os : OpenOrders) : Prop where
  book : BookTx.ShowsAt sdk spotMarket c.store.books os.total
  orders : c.store.orders.Keeps sdk spotMarket names os
  priced : os.Priced

variable {c : Ctx} {spotMarket : String} {names : String → Prop} {os : OpenOrders}
  (opts : ProcessOpts) (blockNum : UInt64)

theorem ensureChainHydrated_of_hydrated
    (h : c.store.books.isChainHydrated env.sdk spotMarket = true) :
    c.ensureChainHydrated env spotMarket = c := by
  unfold ensureChainHydrated
  exact if_pos h

theorem aggregates_created (lawful : LawfulSdk env.sdk)
    (hinj : OrderIndex.DistinctUuids env.sdk spotMarket names)
    (h : c.Aggregates env.sdk spotMarket names os) (e : OrderCreatedEvent)
    (hname : names e.orderId) (hlegal : os.Accepts (.created e))
    (hfits : ∀ side price, (os.advance (.created e)).total side price ≤ Word.u64Max) :
    (c.handleCreated env opts blockNum spotMarket e).Aggregates env.sdk spotMarket names
      (os.advance (.created e)) := by
  obtain ⟨hnone, hamount, price, htype, hprice⟩ := hlegal
  have hpos : (0 : UInt64).toNat < e.amount.toNat :=
    Nat.pos_of_ne_zero fun h0 => hamount ((Word.eq_zero_iff _).mpr h0)
  have hnew := h.orders.closed e.orderId hname hnone
  have hshown : priceRawOf e.orderType = price := by rw [htype]; rfl
  have hadv : os.advance (.created e) = os.put e.orderId e.side price e.amount 0 := by
    unfold OpenOrders.advance
    dsimp only
    rw [htype]
  rw [hadv] at hfits ⊢
  have hstore := store_handleCreated c opts blockNum spotMarket e hnew
  rw [ensureChainHydrated_of_hydrated h.book.hydrated] at hstore
  unfold applyOrderCreatedToBook at hstore
  rw [htype] at hstore
  refine ⟨?_, ?_, h.priced.put e.orderId e.side hprice e.amount 0⟩
  · rw [hstore]
    exact BookTx.showsAt_applyCreated (t := ⟨c.store.books, c.ws.bookLevels, c.ws.bookMeta⟩)
      h.book e.amount blockNum hprice (OpenOrders.moves_created hnone e.side price e.amount hfits)
  · rw [hstore]
    unfold OpenOrders.put
    rw [dif_pos hpos]
    exact OrderTx.keeps_insertOrder (t := ⟨c.store.orders, c.ws.orders, c.history⟩) lawful
      h.orders hinj hname c.store.tsMs e.creator rfl rfl ⟨e.side, price, e.amount, 0, hpos⟩ rfl
      (congrArg formatPricePieces hshown)

theorem aggregates_cancelled (lawful : LawfulSdk env.sdk)
    (hinj : OrderIndex.DistinctUuids env.sdk spotMarket names)
    (h : c.Aggregates env.sdk spotMarket names os) (e : OrderCancelledEvent)
    (hlegal : os.Accepts (.cancelled e))
    (hfits : ∀ side price, (os.advance (.cancelled e)).total side price ≤ Word.u64Max) :
    (c.handleCancelled env opts blockNum spotMarket e).Aggregates env.sdk spotMarket names
      (os.advance (.cancelled e)) := by
  obtain ⟨o, ho, hside, hprice, hamount⟩ := hlegal
  have hmoves := OpenOrders.moves_erase ho hfits
  rw [← hamount, ← hside, ← hprice] at hmoves
  refine ⟨?_, ?_, h.priced.erase e.orderId⟩
  · rw [store_handleCancelled]
    exact BookTx.showsAt_applyCancelled (t := ⟨c.store.books, c.ws.bookLevels, c.ws.bookMeta⟩)
      h.book e.cancelledAmount blockNum (hprice ▸ h.priced _ o ho) hmoves
  · rw [store_handleCancelled]
    exact OrderTx.keeps_updateOrderCancelled (t := ⟨c.store.orders, c.ws.orders, c.history⟩)
      lawful h.orders hinj c.store.tsMs ho

theorem aggregates_updated (lawful : LawfulSdk env.sdk)
    (hinj : OrderIndex.DistinctUuids env.sdk spotMarket names)
    (h : c.Aggregates env.sdk spotMarket names os) (e : OrderUpdatedEvent)
    (hlegal : os.Accepts (.updated e))
    (hfits : ∀ side price, (os.advance (.updated e)).total side price ≤ Word.u64Max) :
    (c.handleUpdated env opts blockNum spotMarket e).Aggregates env.sdk spotMarket names
      (os.advance (.updated e)) := by
  obtain ⟨o, ho, hside, hprice, hold, hnew, hrem⟩ := hlegal
  have hadv : os.advance (.updated e) =
      os.put e.orderId o.side o.price e.newAmount o.filled := by
    unfold OpenOrders.advance
    dsimp only
    rw [ho]
  rw [hadv] at hfits ⊢
  have hmoves := OpenOrders.moves_put ho e.newAmount o.filled hfits
  have hleft : o.remaining = e.oldAmount.toNat - (e.newAmount.toNat - e.remainingAmount.toNat) := by
    unfold ChainOrder.remaining
    rw [hold]
    omega
  rw [← hrem, hleft] at hmoves
  refine ⟨?_, ?_, h.priced.put e.orderId o.side (h.priced _ o ho) e.newAmount o.filled⟩
  · rw [store_handleUpdated, ensureChainHydrated_of_hydrated h.book.hydrated, hside, hprice]
    exact BookTx.showsAt_applyUpdated (t := ⟨c.store.books, c.ws.bookLevels, c.ws.bookMeta⟩)
      h.book e.oldAmount e.newAmount e.remainingAmount blockNum (h.priced _ o ho) hmoves
  · rw [store_handleUpdated, ensureChainHydrated_of_hydrated h.book.hydrated]
    exact OrderTx.keeps_updateOrderAmount (t := ⟨c.store.orders, c.ws.orders, c.history⟩)
      lawful h.orders hinj c.store.tsMs ho hrem

/-- A fill leaves the books that `apply_filled` makes of a hydrated market. -/
theorem books_applyFillToIndex (e : OrderFilledEvent)
    (h : c.store.books.isChainHydrated env.sdk spotMarket = true) :
    ∃ tradeTimeMs, (c.applyFillToIndex env opts blockNum spotMarket e).store.books =
      (BookTx.applyFilled env.sdk spotMarket e.side e.price e.fillAmount blockNum e.price
        tradeTimeMs env.nowMs ⟨c.store.books, c.ws.bookLevels, c.ws.bookMeta⟩).1.books := by
  have hrecord : (c.recordLastTradePrice env.sdk spotMarket e.price).ensureChainHydrated env
      spotMarket = c.recordLastTradePrice env.sdk spotMarket e.price :=
    ensureChainHydrated_of_hydrated h
  have hvault : ∀ d : Ctx, (d.applyVaultFill env spotMarket e).store.books = d.store.books := by
    intro d
    unfold applyVaultFill
    split <;> rfl
  unfold applyFillToIndex
  dsimp only
  rw [hvault, hrecord]
  exact ⟨_, rfl⟩

theorem aggregates_filled (lawful : LawfulSdk env.sdk)
    (hinj : OrderIndex.DistinctUuids env.sdk spotMarket names)
    (h : c.Aggregates env.sdk spotMarket names os) (e : OrderFilledEvent) (txSender : String)
    (hlegal : os.Accepts (.filled e txSender))
    (hfits : ∀ side price, (os.advance (.filled e txSender)).total side price ≤ Word.u64Max) :
    (c.handleFilled env opts blockNum spotMarket e txSender).Aggregates env.sdk spotMarket names
      (os.advance (.filled e txSender)) := by
  obtain ⟨o, ho, hside, hprice, hfill, hrem, hfull⟩ := hlegal
  have hadv : os.advance (.filled e txSender) =
      os.put e.orderId o.side o.price o.size (o.filled + e.fillAmount) := by
    unfold OpenOrders.advance
    dsimp only
    rw [ho]
  rw [hadv] at hfits ⊢
  have hput := OpenOrders.moves_put ho o.size (o.filled + e.fillAmount) hfits
  have hsum : (o.filled + e.fillAmount).toNat = o.filled.toNat + e.fillAmount.toNat := by
    have hmax := Word.toNat_le o.size
    have hopen := o.unfilled
    unfold ChainOrder.remaining at hfill
    unfold Word.u64Max at hmax
    rw [UInt64.toNat_add, Nat.mod_eq_of_lt]
    omega
  have hmoves : BookTx.Moves o.side o.price 0 e.fillAmount.toNat os.total
      (os.put e.orderId o.side o.price o.size (o.filled + e.fillAmount)).total := by
    refine ⟨?_, hput.fits, hput.elsewhere⟩
    have hthere := hput.there
    rw [hsum] at hthere
    unfold ChainOrder.remaining at hthere hfill
    omega
  obtain ⟨tradeTimeMs, hbooks⟩ :=
    books_applyFillToIndex opts blockNum e h.book.hydrated
  refine ⟨?_, ?_, h.priced.put e.orderId o.side (h.priced _ o ho) _ _⟩
  · rw [store_handleFilled, hbooks, hside, hprice]
    exact BookTx.showsAt_applyFilled (t := ⟨c.store.books, c.ws.bookLevels, c.ws.bookMeta⟩)
      h.book e.fillAmount blockNum o.price tradeTimeMs env.nowMs (h.priced _ o ho) hmoves
  · rw [store_handleFilled, orders_applyFillToIndex]
    exact OrderTx.keeps_updateOrderFill (t := ⟨c.store.orders, c.ws.orders, c.history⟩) lawful
      h.orders hinj c.store.tsMs ho hfill hrem hfull

theorem aggregates_executed (h : c.Aggregates env.sdk spotMarket names os)
    (e : MarketOrderExecutedEvent) :
    (c.handleExecuted env opts blockNum spotMarket e).Aggregates env.sdk spotMarket names os := by
  cases hdup : c.store.orders.hasChainOrder env.sdk spotMarket e.orderId with
  | true =>
      unfold handleExecuted
      rw [hdup]
      exact h
  | false =>
      have hstore := store_handleExecuted c opts blockNum spotMarket e hdup
      refine ⟨?_, ?_, h.priced⟩
      · rw [hstore]
        exact h.book
      · rw [hstore, (orders_indexMarketOrderExecuted c spotMarket e).1]
        exact h.orders

theorem aggregates_step (lawful : LawfulSdk env.sdk)
    (hinj : OrderIndex.DistinctUuids env.sdk spotMarket names)
    (h : c.Aggregates env.sdk spotMarket names os) (e : MarketOrderEvent)
    (hnames : ∀ created, e = .created created → names created.orderId) (hlegal : os.Accepts e)
    (hfits : ∀ side price, (os.advance e).total side price ≤ Word.u64Max) :
    (c.applyMarketOrderEvent env opts blockNum spotMarket e).Aggregates env.sdk spotMarket names
      (os.advance e) := by
  cases e with
  | created e =>
      exact aggregates_created opts blockNum lawful hinj h e (hnames e rfl) hlegal hfits
  | cancelled e => exact aggregates_cancelled opts blockNum lawful hinj h e hlegal hfits
  | updated e => exact aggregates_updated opts blockNum lawful hinj h e hlegal hfits
  | filled e txSender =>
      exact aggregates_filled opts blockNum lawful hinj h e txSender hlegal hfits
  | executed e => exact aggregates_executed opts blockNum h e

theorem aggregates_run (lawful : LawfulSdk env.sdk)
    (hinj : OrderIndex.DistinctUuids env.sdk spotMarket names)
    (h : c.Aggregates env.sdk spotMarket names os) (events : List MarketOrderEvent)
    (hnames : ∀ created, .created created ∈ events → names created.orderId)
    (hlegal : os.LegalRun events) :
    (c.applyMarketOrderEvents env opts blockNum spotMarket events).Aggregates env.sdk spotMarket
      names (os.after events) := by
  induction events generalizing c os with
  | nil => exact h
  | cons e es ih =>
      obtain ⟨hlegal, hfits, hrest⟩ := hlegal
      have hstep := aggregates_step opts blockNum lawful hinj h e
        (fun created he => hnames created (he ▸ List.mem_cons_self)) hlegal hfits
      exact ih hstep (fun created he => hnames created (List.mem_cons_of_mem _ he)) hrest

end Ctx

/-! ## Side and price of the indexed orders -/

abbrev Placements := String → Option (OrderSide × UInt64)

namespace Placements

def record (placed : Placements) : MarketOrderEvent → Placements
  | .created e => fun id =>
      if id = e.orderId then some (e.side, priceRawOf e.orderType) else placed id
  | _ => placed

def ofEvents (events : List MarketOrderEvent) : Placements := events.foldl record fun _ => none

def Agrees (placed : Placements) (os : OpenOrders) : Prop :=
  ∀ id o, os.lookup id = some o → placed id = some (o.side, o.price)

theorem Agrees.erase {placed : Placements} {os : OpenOrders} (h : placed.Agrees os)
    (id : String) : placed.Agrees (AList.erase id os) := by
  intro id' o ho
  rw [Dict.lookup_erase_ite] at ho
  split_ifs at ho
  exact h id' o ho

theorem Agrees.put {placed placed' : Placements} {os : OpenOrders} (h : placed.Agrees os)
    {id : String} {side : OrderSide} {price : UInt64} (hid : placed' id = some (side, price))
    (helse : ∀ id', id' ≠ id → placed' id' = placed id') (size filled : UInt64) :
    placed'.Agrees (os.put id side price size filled) := by
  intro id' o ho
  unfold OpenOrders.put at ho
  split_ifs at ho with hlt
  · rw [Dict.lookup_insert_ite] at ho
    split_ifs at ho with heq
    · cases ho
      rw [heq]
      exact hid
    · rw [helse id' heq]
      exact h id' o ho
  · rw [Dict.lookup_erase_ite] at ho
    split_ifs at ho with heq
    rw [helse id' heq]
    exact h id' o ho

theorem agrees_advance {placed : Placements} {os : OpenOrders} (h : placed.Agrees os)
    {e : MarketOrderEvent} (hlegal : os.Accepts e) : (placed.record e).Agrees (os.advance e) := by
  cases e with
  | created e =>
      obtain ⟨-, -, price, htype, -⟩ := hlegal
      unfold record OpenOrders.advance
      dsimp only
      rw [htype]
      exact h.put (if_pos rfl) (fun _ hne => if_neg hne) e.amount 0
  | cancelled e => exact h.erase e.orderId
  | updated e =>
      obtain ⟨o, ho, -⟩ := hlegal
      unfold OpenOrders.advance
      dsimp only
      rw [ho]
      exact h.put (h _ o ho) (fun _ _ => rfl) e.newAmount o.filled
  | filled e txSender =>
      obtain ⟨o, ho, -⟩ := hlegal
      unfold OpenOrders.advance
      dsimp only
      rw [ho]
      exact h.put (h _ o ho) (fun _ _ => rfl) o.size (o.filled + e.fillAmount)
  | executed e => exact h

theorem agrees_run {placed : Placements} {os : OpenOrders} (h : placed.Agrees os)
    (events : List MarketOrderEvent) (hlegal : os.LegalRun events) :
    Agrees (events.foldl record placed) (os.after events) := by
  induction events generalizing placed os with
  | nil => exact h
  | cons e es ih => exact ih (agrees_advance h hlegal.1) hlegal.2.2

end Placements

/-- What the hot orders of a market placed at a side and price have left to fill. -/
def OrderIndex.restingAt (sdk : Sdk) (spotMarket : String) (placed : Placements)
    (idx : OrderIndex) (side : OrderSide) (price : UInt64) : Nat :=
  Dict.sumOf
    (fun _ stored =>
      if stored.spotMarket = normalizeSpotMarketKey sdk spotMarket ∧
          placed stored.chainOrderId = some (side, price) then
        stored.sizeRaw.toNat - stored.filledRaw.toNat
      else 0)
    idx.orders

/-- The index sums to the chain's totals, order by order. -/
theorem OrderIndex.Keeps.restingAt_eq {sdk : Sdk} {spotMarket : String} {names : String → Prop}
    {idx : OrderIndex} {os : OpenOrders} {placed : Placements}
    (h : idx.Keeps sdk spotMarket names os) (hinj : DistinctUuids sdk spotMarket names)
    (hplaced : placed.Agrees os) (side : OrderSide) (price : UInt64) :
    idx.restingAt sdk spotMarket placed side price = os.total side price := by
  unfold OrderIndex.restingAt OpenOrders.total
  refine Dict.sumOf_eq_sumOf (orderUuid sdk spotMarket) _ _ idx.orders os ?_ ?_ ?_
  · intro a ha b hb heq
    obtain ⟨o, ho⟩ := Dict.mem_iff_lookup.mp ha
    obtain ⟨o', ho'⟩ := Dict.mem_iff_lookup.mp hb
    exact hinj a b (h.named a o ho) (h.named b o' ho') heq
  · intro id o ho
    obtain ⟨stored, hfind, hchain, hspot, hsize, hfilled, -⟩ := h.hot id o ho
    refine ⟨stored, OrderIndex.lookup_of_find hfind, ?_⟩
    rw [hchain, hplaced id o ho, hsize, hfilled]
    unfold ChainOrder.restsAt ChainOrder.remaining
    simp only [hspot, true_and, Option.some.injEq, Prod.mk.injEq]
  · intro uuid stored hlookup hnot
    refine if_neg ?_
    rintro ⟨hspot, -⟩
    obtain ⟨huuid, hmem⟩ := h.only uuid stored hlookup hspot
    exact hnot _ hmem huuid.symm

/-- Every hot order of the market shows the side and the price that it was placed at. -/
theorem OrderIndex.Keeps.displays {sdk : Sdk} {spotMarket : String} {names : String → Prop}
    {idx : OrderIndex} {os : OpenOrders} {placed : Placements}
    (h : idx.Keeps sdk spotMarket names os) (hplaced : placed.Agrees os) {uuid : Uuid}
    {stored : StoredOrder} (hlookup : idx.orders.lookup uuid = some stored)
    (hspot : stored.spotMarket = normalizeSpotMarketKey sdk spotMarket) :
    ∃ side price, placed stored.chainOrderId = some (side, price) ∧
      stored.Displays side price := by
  obtain ⟨huuid, hmem⟩ := h.only uuid stored hlookup hspot
  obtain ⟨o, ho⟩ := Dict.mem_iff_lookup.mp hmem
  obtain ⟨stored', hfind, -, -, -, -, hdisplays⟩ := h.hot _ o ho
  have hsame := OrderIndex.lookup_of_find hfind
  rw [← huuid, hlookup, Option.some.injEq] at hsame
  exact ⟨o.side, o.price, hplaced _ o ho, hsame ▸ hdisplays⟩

namespace Ctx

/-- The market has a hydrated book without levels, and no order of it is indexed. -/
structure EmptyMarket (sdk : Sdk) (spotMarket : String) (c : Ctx) : Prop where
  hydrated : c.store.books.isChainHydrated sdk spotMarket = true
  noLevels : ∀ side, (c.store.books.shard (normalizeSpotMarketKey sdk spotMarket)).levels side = ∅
  noOrders : ∀ uuid stored, c.store.orders.orders.lookup uuid = some stored →
    stored.spotMarket ≠ normalizeSpotMarketKey sdk spotMarket
  noIds : ∀ id, c.store.orders.hasChainOrder sdk spotMarket id = false

theorem EmptyMarket.aggregates {sdk : Sdk} {spotMarket : String} {c : Ctx}
    (h : c.EmptyMarket sdk spotMarket) (names : String → Prop) :
    c.Aggregates sdk spotMarket names ∅ := by
  refine ⟨⟨h.hydrated, ?_⟩, ⟨?_, ?_, fun id _ _ => h.noIds id, ?_⟩, ?_⟩
  · intro side price
    rw [h.noLevels side]
    rfl
  · intro id o ho
    cases ho
  · intro id o ho
    cases ho
  · intro uuid stored hlookup hspot
    exact absurd hspot (h.noOrders uuid stored hlookup)
  · intro id o ho
    cases ho

/-- After any stream of chain events on an empty market, every book level is the
sum of what the hot orders placed there have left to fill, and a level is absent
exactly when that sum is zero.  Every hot order shows where it was placed. -/
theorem level_eq_restingAt (lawful : LawfulSdk env.sdk) (opts : ProcessOpts) (blockNum : UInt64)
    (spotMarket : String) (c : Ctx) (events : List MarketOrderEvent)
    (hempty : c.EmptyMarket env.sdk spotMarket) (hlegal : OpenOrders.LegalRun ∅ events)
    (huuids : OrderIndex.DistinctUuids env.sdk spotMarket
      fun id => ∃ created, .created created ∈ events ∧ created.orderId = id) :
    (∀ side price,
      ((((c.applyMarketOrderEvents env opts blockNum spotMarket events).store.books.shard
            (normalizeSpotMarketKey env.sdk spotMarket)).levels side).lookup price).map
          UInt64.toNat =
        let sum := (c.applyMarketOrderEvents env opts blockNum spotMarket
          events).store.orders.restingAt env.sdk spotMarket (Placements.ofEvents events) side price
        if sum = 0 then none else some sum) ∧
      ∀ uuid stored, (c.applyMarketOrderEvents env opts blockNum spotMarket
          events).store.orders.orders.lookup uuid = some stored →
        stored.spotMarket = normalizeSpotMarketKey env.sdk spotMarket →
        ∃ side price, Placements.ofEvents events stored.chainOrderId = some (side, price) ∧
          stored.Displays side price := by
  have hrun := aggregates_run opts blockNum lawful huuids (hempty.aggregates _) events
    (fun created he => ⟨created, he, rfl⟩) hlegal
  have hplaced : (Placements.ofEvents events).Agrees (OpenOrders.after ∅ events) :=
    Placements.agrees_run (fun _ _ ho => by cases ho) events hlegal
  constructor
  · intro side price
    rw [hrun.orders.restingAt_eq huuids hplaced side price]
    exact hrun.book.shows side price
  · exact fun uuid stored hlookup hspot => hrun.orders.displays hplaced hlookup hspot

end Ctx

namespace Sample

def hydratedBook : Ctx :=
  { store := { books := Books.setShard {} (normalizeSpotMarketKey sdk market)
                          { chainHydrated := true } } }

theorem emptyMarket_hydratedBook : hydratedBook.EmptyMarket setting.sdk market := by
  have hshard : hydratedBook.store.books.shard (normalizeSpotMarketKey setting.sdk market) =
      { chainHydrated := true } :=
    (Books.shard_setShard _ _ _ _).trans (if_pos rfl)
  refine ⟨?_, fun side => ?_, fun uuid stored h => ?_, fun id => rfl⟩
  · rw [BookTx.isChainHydrated_eq, hshard]
  · rw [hshard]
    cases side <;> rfl
  · cases h

/-- Three orders at one price, of which one is filled in part, one made smaller and one cancelled. -/
def threeAtOnePrice : List MarketOrderEvent :=
  [.created ⟨"1", .buy, 10, account, market, .limit 500000, none⟩,
    .created ⟨"2", .buy, 20, account, market, .limit 500000, none⟩,
    .filled ⟨"1", market, .buy, 500000, 4, 6, false, none⟩ account,
    .created ⟨"3", .buy, 5, account, market, .limit 500000, none⟩,
    .updated ⟨"2", .buy, 500000, 20, 15, 15⟩,
    .cancelled ⟨"3", .buy, 500000, 5⟩]

theorem total_le_of_sumOf {os : OpenOrders}
    (h : Dict.sumOf (fun _ o => o.remaining) os ≤ Word.u64Max) (side : OrderSide)
    (price : UInt64) : os.total side price ≤ Word.u64Max := by
  refine le_trans (Dict.sumOf_mono (fun _ o => ?_) os) h
  unfold ChainOrder.restsAt
  split_ifs
  · exact le_rfl
  · exact Nat.zero_le _

theorem legalRun_threeAtOnePrice : OpenOrders.LegalRun ∅ threeAtOnePrice := by
  refine ⟨⟨rfl, by decide, 500000, rfl, by decide⟩, total_le_of_sumOf (by decide +kernel),
    ⟨by decide +kernel, by decide, 500000, rfl, by decide⟩, total_le_of_sumOf (by decide +kernel),
    ⟨⟨.buy, 500000, 10, 0, by decide⟩, by decide +kernel, rfl, rfl, by decide, by decide,
      by decide⟩, total_le_of_sumOf (by decide +kernel),
    ⟨by decide +kernel, by decide, 500000, rfl, by decide⟩, total_le_of_sumOf (by decide +kernel),
    ⟨⟨.buy, 500000, 20, 0, by decide⟩, by decide +kernel, rfl, rfl, rfl, by decide, by decide⟩,
    total_le_of_sumOf (by decide +kernel),
    ⟨⟨.buy, 500000, 5, 0, by decide⟩, by decide +kernel, rfl, rfl, by decide⟩,
    total_le_of_sumOf (by decide +kernel), trivial⟩

/-- Six units and fifteen are the level at their price. -/
theorem level_threeAtOnePrice :
    ((((hydratedBook.applyMarketOrderEvents setting {} 7 market threeAtOnePrice).store.books.shard
      (normalizeSpotMarketKey setting.sdk market)).levels .buy).lookup 500000).map UInt64.toNat =
        some 21 := by
  have hlevel := Ctx.level_eq_restingAt lawful {} 7 market hydratedBook threeAtOnePrice
    emptyMarket_hydratedBook legalRun_threeAtOnePrice ?_
  · rw [hlevel.1 .buy 500000]
    decide +kernel
  · have hids : ∀ a ∈ ["1", "2", "3"], ∀ b ∈ ["1", "2", "3"],
        orderUuid setting.sdk market a = orderUuid setting.sdk market b → a = b := by
      decide +kernel
    have hcreated : ∀ id, (∃ created, .created created ∈ threeAtOnePrice ∧
        created.orderId = id) → id ∈ ["1", "2", "3"] := by
      rintro id ⟨created, hmem, rfl⟩
      simp only [threeAtOnePrice, List.mem_cons, reduceCtorEq, MarketOrderEvent.created.injEq,
        List.not_mem_nil, or_false, false_or] at hmem
      rcases hmem with rfl | rfl | rfl <;> simp
    exact fun a b ha hb => hids a (hcreated a ha) b (hcreated b hb)

end Sample

end ClobIndexer
