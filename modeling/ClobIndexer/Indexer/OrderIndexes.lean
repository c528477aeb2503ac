import ClobIndexer.Indexer.Processor
import Mathlib.Data.Set.Function
/-!
# The secondary order indexes

The order map is reached by order id, by composite chain id and by owner.  Each
of the seven operations changes the three maps by hand, and a removal computes
the keys anew from what was stored.  The indexes agree when each key and each
owner leads to exactly the hot orders that it should.
-/

namespace ClobIndexer

open Lib

variable (sdk : Sdk)

namespace StoredOrder

/-- The composite chain id, computed from what is stored. -/
def key (stored : StoredOrder) : String := onchainOrderId sdk stored.spotMarket stored.chainOrderId

end StoredOrder

structure OrderQueryRecord where
  order : Order
  chainOrderId : String
  spotMarket : String
  userAddress : String
  sizeRaw : UInt64
  filledRaw : UInt64
deriving DecidableEq

def orderQueryRecord (stored : StoredOrder) : OrderQueryRecord :=
  ⟨stored.order, stored.chainOrderId, stored.spotMarket, stored.userAddress, stored.sizeRaw,
    stored.filledRaw⟩

namespace OrderIndex

def idsOf (idx : OrderIndex) (user : String) : KeySet Uuid :=
  (idx.ordersByUser.lookup user).getD ∅

def listOrdersForUser (idx : OrderIndex) (userAddress : String) : List OrderQueryRecord :=
  (idx.idsOf (userKey userAddress)).keys.filterMap fun id =>
    (idx.orders.lookup id).map orderQueryRecord

def hotOrdersOf (idx : OrderIndex) (userAddress : String) : List OrderQueryRecord :=
  (idx.orders.entries.filter fun e => userKey e.2.userAddress = userKey userAddress).map
    fun e => orderQueryRecord e.2

structure Indexed (idx : OrderIndex) : Prop where
  hot : ∀ id stored, idx.orders.lookup id = some stored →
    stored.order.status = "open" ∨ stored.order.status = "partial_filled"
  byId : ∀ key id, idx.ordersById.lookup key = some id ↔
    ∃ stored, idx.orders.lookup id = some stored ∧ stored.key sdk = key
  byUser : ∀ user id, id ∈ idx.idsOf user ↔
    ∃ stored, idx.orders.lookup id = some stored ∧ userKey stored.userAddress = user

/-- Every id is the UUID of the order's key, and the key is one of `names`. -/
def Named (names : Set String) (idx : OrderIndex) : Prop :=
  ∀ id stored, idx.orders.lookup id = some stored →
    stored.key sdk ∈ names ∧ id = sdk.uuidV5 (stored.key sdk)

variable {sdk} {idx : OrderIndex} {names : Set String}

theorem isHot_iff (status : String) :
    isHotOrderStatus status = true ↔ status = "open" ∨ status = "partial_filled" := by
  simp [isHotOrderStatus]

theorem indexed_empty : Indexed sdk {} where
  hot := by simp
  byId := by simp
  byUser := by simp [idsOf]

theorem named_empty : Named sdk names {} := by
  intro id stored h
  cases h

theorem Indexed.perm_listOrdersForUser (h : Indexed sdk idx) (userAddress : String) :
    (idx.listOrdersForUser userAddress).Perm (idx.hotOrdersOf userAddress) := by
  let owned := idx.orders.entries.filter
    fun e => userKey e.2.userAddress = userKey userAddress
  have hmem : ∀ e ∈ owned, idx.orders.lookup e.1 = some e.2 := by
    rintro ⟨id, stored⟩ he
    exact Dict.mem_entries_iff.mp (List.mem_filter.mp he).1
  have hids : (idx.idsOf (userKey userAddress)).keys.Perm (owned.map Sigma.fst) := by
    have hnodup : (owned.map Sigma.fst).Nodup := idx.orders.nodupKeys.sublist List.filter_sublist
    rw [List.perm_ext_iff_of_nodup (idx.idsOf (userKey userAddress)).keys_nodup hnodup]
    intro id
    have hiff := h.byUser (userKey userAddress) id
    rw [AList.mem_keys] at hiff
    rw [hiff, List.mem_map]
    constructor
    · rintro ⟨stored, hlookup, howner⟩
      refine ⟨⟨id, stored⟩, ?_, rfl⟩
      exact List.mem_filter.mpr ⟨Dict.mem_entries_iff.mpr hlookup, by simpa using howner⟩
    · rintro ⟨⟨id', stored⟩, he, rfl⟩
      exact ⟨stored, hmem _ he, by simpa using (List.mem_filter.mp he).2⟩
  have hrecords : (owned.map Sigma.fst).filterMap
      (fun id => (idx.orders.lookup id).map orderQueryRecord) =
      owned.map fun e => orderQueryRecord e.2 := by
    rw [List.filterMap_map, ← List.filterMap_eq_map]
    apply List.filterMap_congr
    intro e he
    simp [hmem e he]
  have hperm := hids.filterMap fun id => (idx.orders.lookup id).map orderQueryRecord
  rw [hrecords] at hperm
  exact hperm

/-! ## The operations -/

/-- Each composite key leads to the hot order that is stored under it. -/
def KeysLead (sdk : Sdk) (idx : OrderIndex) : Prop :=
  ∀ key id, idx.ordersById.lookup key = some id ↔
    ∃ stored, idx.orders.lookup id = some stored ∧ stored.key sdk = key

theorem KeysLead.insert (h : KeysLead sdk idx) (hnamed : Named sdk names idx)
    (hinj : Set.InjOn sdk.uuidV5 names) {stored : StoredOrder} {id : Uuid}
    (hname : stored.key sdk ∈ names) (hid : id = sdk.uuidV5 (stored.key sdk))
    (ordersByUser : Dict String (KeySet Uuid)) :
    KeysLead sdk ⟨idx.orders.insert id stored, idx.ordersById.insert (stored.key sdk) id,
      ordersByUser⟩ := by
  intro key id'
  rw [Dict.lookup_insert_ite, Dict.lookup_insert_ite]
  by_cases hid' : id' = id
  · -- any order of this id has this key
    subst hid'
    rw [if_pos rfl]
    split_ifs with hkey
    · simp [hkey]
    · rw [h]
      refine iff_of_false ?_ ?_
      · rintro ⟨other, hother, rfl⟩
        obtain ⟨hother_name, hother_id⟩ := hnamed id' other hother
        exact hkey (hinj hother_name hname (hother_id.symm.trans hid))
      · rintro ⟨other, hother, hother_key⟩
        rw [← Option.some.inj hother] at hother_key
        exact hkey hother_key.symm
  · rw [if_neg hid']
    split_ifs with hkey
    · -- an order with this key would have this id
      subst hkey
      refine iff_of_false (fun heq => hid' (Option.some.inj heq).symm) ?_
      rintro ⟨other, hother, hother_key⟩
      rw [(hnamed id' other hother).2, hother_key] at hid'
      exact hid' hid.symm
    · exact h key id'

theorem exists_lookup_insert {id : Uuid} {stored stored' : StoredOrder}
    (hstored : idx.orders.lookup id = some stored) {p : StoredOrder → Prop}
    (hp : p stored' ↔ p stored) (id' : Uuid) :
    (∃ s, AList.lookup id' (idx.orders.insert id stored') = some s ∧ p s) ↔
      ∃ s, idx.orders.lookup id' = some s ∧ p s := by
  rw [Dict.lookup_insert_ite]
  split_ifs with hid
  · subst hid
    simp [hstored, hp]
  · rfl

theorem KeysLead.replace (h : KeysLead sdk idx) {id : Uuid} {stored stored' : StoredOrder}
    (hstored : idx.orders.lookup id = some stored) (hkey : stored'.key sdk = stored.key sdk) :
    KeysLead sdk { idx with orders := idx.orders.insert id stored' } := by
  intro key id'
  rw [exists_lookup_insert hstored (by rw [hkey])]
  exact h key id'

theorem KeysLead.remove (h : KeysLead sdk idx) {id : Uuid} {stored stored' : StoredOrder}
    (hstored : idx.orders.lookup id = some stored) (hkey : stored'.key sdk = stored.key sdk) :
    KeysLead sdk (idx.removeHotOrder sdk id stored') := by
  intro key id'
  have horders : (idx.removeHotOrder sdk id stored').orders.lookup id' =
      if id' = id then none else idx.orders.lookup id' := Dict.lookup_erase_ite id id' idx.orders
  have hbyId : (idx.removeHotOrder sdk id stored').ordersById.lookup key =
      if key = stored'.key sdk then none else idx.ordersById.lookup key :=
    Dict.lookup_erase_ite _ key idx.ordersById
  rw [hbyId, horders, hkey]
  have hmine := (h (stored.key sdk) id).mpr ⟨stored, hstored, rfl⟩
  split_ifs with hk hid hid
  · simp
  · -- the key led to the removed order only
    subst hk
    rw [← h, hmine]
    have hne : ¬id = id' := fun heq => hid heq.symm
    simp [hne]
  · subst hid
    rw [h, hstored]
    have hne : ¬stored.key sdk = key := fun heq => hk heq.symm
    simp [hne]
  · exact h key id'

theorem mem_idsOf_insert (idx : OrderIndex) (user user' : String) (id id' : Uuid)
    (orders : Dict Uuid StoredOrder) (ordersById : Dict String Uuid) :
    id' ∈ idsOf ⟨orders, ordersById,
        idx.ordersByUser.insert user ((idx.idsOf user).insert id ())⟩ user' ↔
      user' = user ∧ id' = id ∨ id' ∈ idx.idsOf user' := by
  rw [idsOf, Dict.lookup_insert_ite]
  split_ifs with huser
  · subst huser
    rw [Option.getD_some, AList.mem_insert]
    simp
  · simp [huser, idsOf]

theorem mem_idsOf_removeHotOrder (idx : OrderIndex) (orderId id : Uuid) (stored : StoredOrder)
    (user : String) :
    id ∈ (idx.removeHotOrder sdk orderId stored).idsOf user ↔
      id ∈ idx.idsOf user ∧ ¬(user = userKey stored.userAddress ∧ id = orderId) := by
  unfold idsOf removeHotOrder
  dsimp only
  cases hset : idx.ordersByUser.lookup (userKey stored.userAddress) with
  | none =>
      dsimp only
      by_cases huser : user = userKey stored.userAddress
      · subst huser
        simp [hset]
      · simp [huser]
  | some set =>
      dsimp only
      rw [Dict.lookup_insert_ite]
      split_ifs with huser
      · subst huser
        rw [hset, Option.getD_some, Option.getD_some, AList.mem_erase]
        constructor
        · rintro ⟨hne, hmem⟩
          exact ⟨hmem, fun hc => hne hc.2⟩
        · rintro ⟨hmem, hc⟩
          exact ⟨fun hid => hc ⟨rfl, hid⟩, hmem⟩
      · simp [huser]

theorem Indexed.insert (h : Indexed sdk idx) (hnamed : Named sdk names idx)
    (hinj : Set.InjOn sdk.uuidV5 names) {stored : StoredOrder} {id : Uuid}
    (hhot : isHotOrderStatus stored.order.status = true)
    (hname : stored.key sdk ∈ names) (hid : id = sdk.uuidV5 (stored.key sdk))
    (hnew : idx.ordersById.lookup (stored.key sdk) = none) :
    Indexed sdk ⟨idx.orders.insert id stored, idx.ordersById.insert (stored.key sdk) id,
      idx.ordersByUser.insert (userKey stored.userAddress)
        ((idx.idsOf (userKey stored.userAddress)).insert id ())⟩ := by
  -- an order of this id would have this key
  have hfresh : idx.orders.lookup id = none := by
    rw [Option.eq_none_iff_forall_ne_some]
    intro other hother
    obtain ⟨hother_name, hother_id⟩ := hnamed id other hother
    have hkey : other.key sdk = stored.key sdk :=
      hinj hother_name hname (hother_id.symm.trans hid)
    have hfound := (h.byId (stored.key sdk) id).mpr ⟨other, hother, hkey⟩
    rw [hnew] at hfound
    cases hfound
  constructor
  · intro id' stored' hlookup
    rw [Dict.lookup_insert_ite] at hlookup
    split_ifs at hlookup
    · cases hlookup
      exact (isHot_iff _).mp hhot
    · exact h.hot id' stored' hlookup
  · exact KeysLead.insert h.byId hnamed hinj hname hid _
  · intro user id'
    rw [mem_idsOf_insert, h.byUser, Dict.lookup_insert_ite]
    by_cases hid' : id' = id
    · subst hid'
      rw [if_pos rfl, hfresh]
      simp [eq_comm]
    · rw [if_neg hid']
      simp [hid']

theorem Named.insert (hnamed : Named sdk names idx) {stored : StoredOrder} {id : Uuid}
    (hname : stored.key sdk ∈ names) (hid : id = sdk.uuidV5 (stored.key sdk))
    (ordersById : Dict String Uuid) (ordersByUser : Dict String (KeySet Uuid)) :
    Named sdk names ⟨idx.orders.insert id stored, ordersById, ordersByUser⟩ := by
  intro id' stored' hlookup
  rw [Dict.lookup_insert_ite] at hlookup
  split_ifs at hlookup with heq
  · cases hlookup
    rw [heq]
    exact ⟨hname, hid⟩
  · exact hnamed id' stored' hlookup

theorem Indexed.replace (h : Indexed sdk idx) {id : Uuid} {stored stored' : StoredOrder}
    (hstored : idx.orders.lookup id = some stored)
    (hhot : isHotOrderStatus stored'.order.status = true)
    (hkey : stored'.key sdk = stored.key sdk) (howner : stored'.userAddress = stored.userAddress) :
    Indexed sdk { idx with orders := idx.orders.insert id stored' } := by
  constructor
  · intro id' s hlookup
    rw [Dict.lookup_insert_ite] at hlookup
    split_ifs at hlookup
    · cases hlookup
      exact (isHot_iff _).mp hhot
    · exact h.hot id' s hlookup
  · exact KeysLead.replace h.byId hstored hkey
  · intro user id'
    rw [exists_lookup_insert hstored (by rw [howner])]
    exact h.byUser user id'

theorem Indexed.remove (h : Indexed sdk idx) {id : Uuid} {stored stored' : StoredOrder}
    (hstored : idx.orders.lookup id = some stored) (hkey : stored'.key sdk = stored.key sdk)
    (howner : stored'.userAddress = stored.userAddress) :
    Indexed sdk (idx.removeHotOrder sdk id stored') := by
  have hlookup : ∀ id', (idx.removeHotOrder sdk id stored').orders.lookup id' =
      if id' = id then none else idx.orders.lookup id' := fun id' =>
    Dict.lookup_erase_ite id id' idx.orders
  constructor
  · intro id' s hs
    rw [hlookup] at hs
    split_ifs at hs
    exact h.hot id' s hs
  · exact KeysLead.remove h.byId hstored hkey
  · intro user id'
    rw [mem_idsOf_removeHotOrder, h.byUser, hlookup, howner]
    split_ifs with hid
    · subst hid
      rw [hstored]
      simp [eq_comm]
    · simp [hid]

theorem Named.remove (hnamed : Named sdk names idx) (id : Uuid) (stored : StoredOrder) :
    Named sdk names (idx.removeHotOrder sdk id stored) := by
  intro id' stored' hlookup
  change (idx.orders.erase id).lookup id' = some stored' at hlookup
  rw [Dict.lookup_erase_ite] at hlookup
  split_ifs at hlookup
  exact hnamed id' stored' hlookup

end OrderIndex

namespace OrderTx

variable {sdk} {t : OrderTx} {names : Set String}

open OrderIndex

structure Keeps (change : StoredOrder → StoredOrder) : Prop where
  spotMarket : ∀ stored, (change stored).spotMarket = stored.spotMarket
  chainOrderId : ∀ stored, (change stored).chainOrderId = stored.chainOrderId
  userAddress : ∀ stored, (change stored).userAddress = stored.userAddress

theorem keeps_cancelled : Keeps cancelled := ⟨fun _ => rfl, fun _ => rfl, fun _ => rfl⟩

theorem keeps_resized (newAmount remainingAmount : UInt64) :
    Keeps (resized newAmount remainingAmount) :=
  ⟨fun _ => rfl, fun _ => rfl, fun _ => rfl⟩

theorem keeps_afterFill (fillAmount remainingAmount : UInt64) (isFullyFilled : Bool) :
    Keeps (afterFill fillAmount remainingAmount isFullyFilled) :=
  ⟨fun _ => rfl, fun _ => rfl, fun _ => rfl⟩

theorem indexed_insertOrder (lawful : LawfulSdk sdk) (h : Indexed sdk t.idx)
    (hnamed : Named sdk names t.idx) (hinj : Set.InjOn sdk.uuidV5 names) (tsMs : UInt64)
    {order : Order} (userAddress : String) {spotMarket chainOrderId : String}
    (sizeRaw filledRaw : UInt64) (hid : order.id = orderUuid sdk spotMarket chainOrderId)
    (hname : onchainOrderId sdk spotMarket chainOrderId ∈ names)
    (hnew : t.idx.hasChainOrder sdk spotMarket chainOrderId = false) :
    let t' := t.insertOrder sdk tsMs order userAddress spotMarket chainOrderId sizeRaw filledRaw
    Indexed sdk t'.idx ∧ Named sdk names t'.idx := by
  intro t'
  simp only [t', insertOrder]
  split_ifs with hhot
  · let stored : StoredOrder := ⟨order, userAddress, chainOrderId,
      normalizeSpotMarketKey sdk spotMarket, filledRaw, sizeRaw⟩
    have hkey : stored.key sdk = onchainOrderId sdk spotMarket chainOrderId :=
      onchainOrderId_normalize lawful spotMarket chainOrderId
    have hnone : t.idx.ordersById.lookup (stored.key sdk) = none := by
      rw [hkey]
      simpa [hasChainOrder] using hnew
    have hid' : order.id = sdk.uuidV5 (stored.key sdk) := by
      rw [hid, hkey]
      rfl
    exact ⟨h.insert hnamed hinj hhot (hkey ▸ hname) hid' hnone,
      hnamed.insert (hkey ▸ hname) hid' _ _⟩
  · exact ⟨h, hnamed⟩

theorem indexed_settle (h : Indexed sdk t.idx) (hnamed : Named sdk names t.idx) (tsMs : UInt64)
    {id : Uuid} {stored stored' : StoredOrder} (hstored : t.idx.orders.lookup id = some stored)
    (hkey : stored'.key sdk = stored.key sdk) (howner : stored'.userAddress = stored.userAddress) :
    Indexed sdk (t.settle sdk tsMs id stored').idx ∧
      Named sdk names (t.settle sdk tsMs id stored').idx := by
  unfold settle
  split_ifs with hhot
  · obtain ⟨hname, hid⟩ := hnamed id stored hstored
    exact ⟨h.replace hstored hhot hkey howner,
      hnamed.insert (hkey ▸ hname) (hkey ▸ hid) _ _⟩
  · exact ⟨h.remove hstored hkey howner, hnamed.remove id stored'⟩

theorem indexed_touch (h : Indexed sdk t.idx) (hnamed : Named sdk names t.idx) (tsMs : UInt64)
    (spotMarket chainOrderId : String) {change : StoredOrder → StoredOrder}
    (hkeeps : Keeps change) :
    Indexed sdk (t.touch sdk tsMs spotMarket chainOrderId change).idx ∧
      Named sdk names (t.touch sdk tsMs spotMarket chainOrderId change).idx := by
  unfold touch
  cases hfind : t.idx.find sdk spotMarket chainOrderId with
  | none => exact ⟨h, hnamed⟩
  | some found =>
      have hkey : (change found.2).key sdk = found.2.key sdk := by
        unfold StoredOrder.key
        rw [hkeeps.spotMarket, hkeeps.chainOrderId]
      exact indexed_settle h hnamed tsMs (lookup_of_find hfind) hkey (hkeeps.userAddress _)

end OrderTx

namespace Ctx

variable {env : Env} {names : Set String}

open OrderIndex

theorem orders_ensureChainHydrated (c : Ctx) (spotMarket : String) :
    (c.ensureChainHydrated env spotMarket).store.orders = c.store.orders :=
  (booksOnly_ensureChainHydrated env c spotMarket).orders

theorem orders_applyOrderCreatedToBook (c : Ctx) (blockNum : UInt64) (e : OrderCreatedEvent)
    (spotMarket : String) (publishWs : Bool) :
    (c.applyOrderCreatedToBook env blockNum e spotMarket publishWs).store.orders =
      c.store.orders := by
  unfold applyOrderCreatedToBook
  cases e.orderType <;> rfl

variable (env) in
/-- What an order event does to the orders: a new order under a key that none has, or
a change of the order under a key. -/
theorem orders_applyMarketOrderEvent (c : Ctx) (opts : ProcessOpts) (blockNum : UInt64)
    (spotMarket : String) (e : MarketOrderEvent) :
    let d := c.applyMarketOrderEvent env opts blockNum spotMarket e
    let changed (chainOrderId : String) (change : StoredOrder → StoredOrder) : Prop :=
      ∃ (t : OrderTx) (tsMs : UInt64), t.idx = c.store.orders ∧
        d.store.orders = (t.touch env.sdk tsMs spotMarket chainOrderId change).idx
    match e with
    | .created e =>
        if c.store.orders.hasChainOrder env.sdk spotMarket e.orderId then
          d.store.orders = c.store.orders
        else ∃ (t : OrderTx) (tsMs : UInt64) (order : Order), t.idx = c.store.orders ∧
          order.id = orderUuid env.sdk spotMarket e.orderId ∧ order.status = "open" ∧
          d.store.orders = (t.insertOrder env.sdk tsMs order e.creator spotMarket e.orderId
            e.amount 0).idx
    | .cancelled e => changed e.orderId OrderTx.cancelled
    | .updated e => changed e.orderId (OrderTx.resized e.newAmount e.remainingAmount)
    | .filled e _ =>
        changed e.orderId (OrderTx.afterFill e.fillAmount e.remainingAmount e.isFullyFilled)
    | .executed _ => d.store.orders = c.store.orders := by
  intro d changed
  cases e with
  | created e =>
      dsimp only
      split_ifs with hdup
      · change (c.handleCreated env opts blockNum spotMarket e).store.orders = _
        rw [handleCreated, if_pos hdup]
      · have hnew := Bool.not_eq_true _ ▸ hdup
        change ∃ _ _ _, _ ∧ _ ∧ _ ∧
          (c.handleCreated env opts blockNum spotMarket e).store.orders = _
        rw [store_handleCreated c opts blockNum spotMarket e hnew]
        refine ⟨⟨_, _, _⟩, _, _, ?_, ?_, ?_, rfl⟩
        · exact (orders_applyOrderCreatedToBook _ _ _ _ _).trans
            (orders_ensureChainHydrated c spotMarket)
        · rfl
        · rfl
  | cancelled e =>
      change ∃ _ _, _ ∧ (c.handleCancelled env opts blockNum spotMarket e).store.orders = _
      rw [store_handleCancelled]
      refine ⟨⟨c.store.orders, c.ws.orders, c.history⟩, c.store.tsMs, rfl, ?_⟩
      rw [← OrderTx.updateOrderCancelled_eq_touch]
      rfl
  | updated e =>
      change ∃ _ _, _ ∧ (c.handleUpdated env opts blockNum spotMarket e).store.orders = _
      rw [store_handleUpdated]
      exact ⟨⟨(c.ensureChainHydrated env spotMarket).store.orders, _, _⟩, _,
        orders_ensureChainHydrated c spotMarket, rfl⟩
  | filled e txSender =>
      change ∃ _ _, _ ∧ (c.handleFilled env opts blockNum spotMarket e txSender).store.orders = _
      rw [store_handleFilled, orders_applyFillToIndex]
      exact ⟨⟨c.store.orders, c.ws.orders, c.history⟩, c.store.tsMs, rfl, rfl⟩
  | executed e =>
      change (c.handleExecuted env opts blockNum spotMarket e).store.orders = _
      cases hdup : c.store.orders.hasChainOrder env.sdk spotMarket e.orderId with
      | true => rw [handleExecuted, if_pos hdup]
      | false =>
          rw [store_handleExecuted c opts blockNum spotMarket e hdup]
          exact (orders_indexMarketOrderExecuted c spotMarket e).1

theorem indexed_applyMarketOrderEvent (lawful : LawfulSdk env.sdk) {c : Ctx}
    (h : Indexed env.sdk c.store.orders) (hnamed : Named env.sdk names c.store.orders)
    (hinj : Set.InjOn env.sdk.uuidV5 names) (opts : ProcessOpts) (blockNum : UInt64)
    (spotMarket : String) (e : MarketOrderEvent)
    (hname : ∀ o, e = .created o → onchainOrderId env.sdk spotMarket o.orderId ∈ names) :
    let d := c.applyMarketOrderEvent env opts blockNum spotMarket e
    Indexed env.sdk d.store.orders ∧ Named env.sdk names d.store.orders := by
  intro d
  have horders := orders_applyMarketOrderEvent env c opts blockNum spotMarket e
  have hchanged : ∀ {chainOrderId : String} {change : StoredOrder → StoredOrder},
      OrderTx.Keeps change → (∃ (t : OrderTx) (tsMs : UInt64), t.idx = c.store.orders ∧
        d.store.orders = (t.touch env.sdk tsMs spotMarket chainOrderId change).idx) →
      Indexed env.sdk d.store.orders ∧ Named env.sdk names d.store.orders := by
    rintro chainOrderId change hkeeps ⟨t, tsMs, ht, heq⟩
    rw [← ht] at h hnamed
    rw [heq]
    exact OrderTx.indexed_touch h hnamed tsMs spotMarket chainOrderId hkeeps
  cases e with
  | created o =>
      dsimp only at horders
      split_ifs at horders with hdup
      · rw [horders]
        exact ⟨h, hnamed⟩
      · obtain ⟨t, tsMs, order, ht, hid, -, heq⟩ := horders
        rw [← ht] at h hnamed hdup
        rw [heq]
        exact OrderTx.indexed_insertOrder lawful h hnamed hinj tsMs o.creator o.amount 0 hid
          (hname o rfl) (Bool.not_eq_true _ ▸ hdup)
  | cancelled o => exact hchanged OrderTx.keeps_cancelled horders
  | updated o => exact hchanged (OrderTx.keeps_resized _ _) horders
  | filled o txSender => exact hchanged (OrderTx.keeps_afterFill _ _ _) horders
  | executed o =>
      dsimp only at horders
      rw [horders]
      exact ⟨h, hnamed⟩

/-! ## The serial part of a block -/

theorem orders_hydrateSpotFromChain (c : Ctx) (spotMarket : String) :
    (c.hydrateSpotFromChain env spotMarket).store.orders = c.store.orders :=
  (booksOnly_hydrateSpotFromChain env c spotMarket).orders

theorem orders_applyGlobalEvent (c : Ctx) (e : GlobalEvent) :
    (c.applyGlobalEvent env e).store.orders = c.store.orders := by
  have hset : ∀ r, (c.setRegistry r).store.orders = c.store.orders := fun _ => rfl
  have hregistry : ∀ f, (c.onRegistry f).store.orders = c.store.orders := fun _ => rfl
  have hvaults : ∀ f, (c.onVaults f).store.orders = c.store.orders := fun _ => rfl
  cases e with
  | eventContractCreated created =>
      unfold applyGlobalEvent indexMarketCreated hydrateMarketSpots
      rw [orders_hydrateSpotFromChain, orders_hydrateSpotFromChain]
      exact hregistry _
  | marketCreated created =>
      unfold applyGlobalEvent indexSpotMarketCreated
      rw [orders_ensureChainHydrated]
      exact hset _
  | eventContractResolved marketAddress => exact hregistry _
  | vaultCreated created => exact hvaults _
  | vaultDeposited vault equity => exact hvaults _
  | vaultWithdrawn vault equity => exact hvaults _
  | vaultManagerUpdated vault newManager => exact hvaults _
  | vaultDepositPermissionUpdated vault allowDeposit => exact hvaults _
  | vaultClosed vault => exact hvaults _
  | secondary e => rfl

theorem orders_hydrateAllSpotMarkets (c : Ctx) :
    (c.hydrateAllSpotMarkets env).store.orders = c.store.orders := by
  unfold hydrateAllSpotMarkets
  refine List.foldlRecOn (motive := fun d : Ctx => d.store.orders = c.store.orders) _ _ rfl ?_
  intro d hd spot _
  exact (orders_hydrateSpotFromChain d spot).trans hd

theorem orders_applySerial (c : Ctx) (opts : ProcessOpts) (prepared : PreparedBlock) :
    (c.applySerial env opts prepared).store.orders = c.store.orders := by
  have hglobal : (prepared.block.globalEvents.foldl (applyGlobalEvent env)
      (c.beginBlock prepared.block)).store.orders = c.store.orders := by
    refine List.foldlRecOn (motive := fun d : Ctx => d.store.orders = c.store.orders) _ _ rfl ?_
    intro d hd e _
    exact (orders_applyGlobalEvent d e).trans hd
  refine List.foldlRecOn (motive := fun d : Ctx => d.store.orders = c.store.orders) _ _ hglobal ?_
  intro d hd e _
  cases e <;>
  · unfold applyUnmapped
    split_ifs
    · exact (orders_hydrateAllSpotMarkets d).trans hd
    · exact hd

end Ctx

end ClobIndexer
