import ClobIndexer.HexSdk
import ClobIndexer.Indexer.OrderIndexes
import ClobIndexer.Indexer.Pipeline
/-!
# Routing ahead of the index

A cancellation or update that carries no contract is routed by looking its chain
id up among the hot orders.  The decode worker does so before the blocks ahead of
it have been applied, and before the earlier events of its own block have.  The
stream itself says which orders are live at each event.  An index that mirrors
the live orders finds the market of the only live order under a chain id, and the
order events of a market keep the mirror.
-/

namespace ClobIndexer

open Lib

variable (sdk : Sdk)

/-! ## Routes -/

namespace OrderEvent

def work (sender : String) : OrderEvent → MarketOrderEvent
  | created e => .created e
  | cancelled e => .cancelled e
  | updated e => .updated e
  | filled e => .filled e sender
  | executed e => .executed e

end OrderEvent

def marketFor (find : String → Option String) (event : TransactionEvent) :
    OrderEvent → Option String
  | .created e => some (normalizeSpotMarketKey sdk e.market)
  | .cancelled e => (spotMarketFromEventContract sdk event).or (find e.orderId)
  | .updated e => (spotMarketFromEventContract sdk event).or (find e.orderId)
  | .filled e => some (normalizeSpotMarketKey sdk e.market)
  | .executed _ => spotMarketFromEventContract sdk event

/-- The market an event is grouped under, and its work there. -/
def route (find : String → Option String) (e : String × TransactionEvent) :
    Option (String × MarketOrderEvent) :=
  match e.2.payload with
  | .order o => (marketFor sdk find e.2 o).map fun spotMarket => (spotMarket, o.work e.1)
  | .global _ => none
  | .ignored => none

def bareOrderId (event : TransactionEvent) : Option String :=
  match event.contract, event.payload with
  | none, .order (.cancelled e) => some e.orderId
  | none, .order (.updated e) => some e.orderId
  | _, _ => none

def atMarket (spotMarket : String) (r : String × MarketOrderEvent) : Option MarketOrderEvent :=
  if r.1 = spotMarket then some r.2 else none

def OrderGroups.group (g : OrderGroups) (spotMarket : String) : List MarketOrderEvent :=
  (g.markets.lookup spotMarket).getD []

def PreparedBlock.group (prepared : PreparedBlock) (spotMarket : String) :
    List MarketOrderEvent :=
  (prepared.markets.lookup spotMarket).getD []

section Groups

variable {sdk}

theorem group_push (g : OrderGroups) (spotMarket m : String) (e : MarketOrderEvent) :
    (g.push spotMarket e).group m = g.group m ++ (atMarket m (spotMarket, e)).toList := by
  unfold OrderGroups.group OrderGroups.push atMarket
  rw [Dict.lookup_insert_ite]
  by_cases h : m = spotMarket
  · subst h
    simp
  · have h' : ¬spotMarket = m := fun heq => h heq.symm
    simp [h, h']

/-- An event is grouped under the market that it names or that is found for its order. -/
theorem group_resolved (idx : OrderIndex) (g : OrderGroups) (e : TransactionEvent)
    (m chainOrderId : String) (work : MarketOrderEvent) (unmapped : UnmappedOrderEvent) :
    (match resolveSpotMarketForOrderEvent sdk idx e chainOrderId with
      | some spotMarket => g.push spotMarket work
      | none => g.pushUnmapped unmapped).group m =
      g.group m ++ ((((spotMarketFromEventContract sdk e).or
        (idx.lookupSpotMarketForChainOrder chainOrderId)).map
          fun spotMarket => (spotMarket, work)).bind (atMarket m)).toList := by
  unfold resolveSpotMarketForOrderEvent
  cases spotMarketFromEventContract sdk e with
  | some spotMarket => exact group_push g spotMarket m work
  | none =>
      cases hfound : idx.lookupSpotMarketForChainOrder chainOrderId with
      | some spotMarket => simpa [hfound] using group_push g spotMarket m work
      | none =>
          change g.group m = _
          simp

theorem group_add (idx : OrderIndex) (g : OrderGroups) (e : String × TransactionEvent)
    (m : String) :
    (g.add sdk idx e).group m =
      g.group m ++
        ((route sdk idx.lookupSpotMarketForChainOrder e).bind (atMarket m)).toList := by
  have hnone : g.group m = g.group m ++ (none : Option MarketOrderEvent).toList := by simp
  unfold OrderGroups.add route
  cases hpayload : e.2.payload with
  | order o =>
      cases o with
      | created o => exact group_push g _ m _
      | cancelled o => exact group_resolved idx g e.2 m o.orderId _ _
      | updated o => exact group_resolved idx g e.2 m o.orderId _ _
      | filled o => exact group_push g _ m _
      | executed o =>
          dsimp only [marketFor]
          cases spotMarketFromEventContract sdk e.2 with
          | some spotMarket => exact group_push g spotMarket m _
          | none => exact hnone
  | global o => exact hnone
  | ignored => exact hnone

theorem group_foldl_add (idx : OrderIndex) (events : List (String × TransactionEvent))
    (g : OrderGroups) (m : String) :
    (events.foldl (OrderGroups.add sdk idx) g).group m =
      g.group m ++
        (events.filterMap (route sdk idx.lookupSpotMarketForChainOrder)).filterMap
          (atMarket m) := by
  induction events generalizing g with
  | nil => simp
  | cons e events ih =>
      rw [List.foldl_cons, ih, group_add, List.append_assoc]
      cases hroute : route sdk idx.lookupSpotMarketForChainOrder e with
      | none => simp [hroute]
      | some r =>
          cases hat : atMarket m r with
          | none => simp [hroute, hat]
          | some work => simp [hroute, hat]

theorem group_prepareBlock (s : IndexState) (block : ReceiptBlock) (m : String) :
    (prepareBlock sdk s block).group m =
      (block.okEvents.filterMap
        (route sdk s.orders.lookupSpotMarketForChainOrder)).filterMap (atMarket m) :=
  group_foldl_add s.orders block.okEvents {} m

end Groups

/-! ## Live orders of the stream -/

abbrev LiveOrders := String → Set String

def keysAfter (key : String) (keys : Set String) : MarketOrderEvent → Set String
  | .created _ => insert key keys
  | .cancelled _ => {k ∈ keys | k ≠ key}
  | .updated e => {k ∈ keys | k = key → e.remainingAmount ≠ 0}
  | .filled e _ => {k ∈ keys | k = key → e.isFullyFilled = false ∧ e.remainingAmount ≠ 0}
  | .executed _ => keys

theorem mem_keysAfter_congr {key key' k k' : String} {keys keys' : Set String}
    (hkey : k = key ↔ k' = key') (hmem : k ∈ keys ↔ k' ∈ keys') (e : MarketOrderEvent) :
    k ∈ keysAfter key keys e ↔ k' ∈ keysAfter key' keys' e := by
  cases e with
  | created e => simp [keysAfter, hkey, hmem]
  | cancelled e => simp [keysAfter, hkey, hmem]
  | updated e => simp [keysAfter, hkey, hmem]
  | filled e txSender => simp [keysAfter, hkey, hmem]
  | executed e => exact hmem

theorem mem_keysAfter_of_ne {key k : String} {keys : Set String} (h : k ≠ key)
    (e : MarketOrderEvent) : k ∈ keysAfter key keys e ↔ k ∈ keys := by
  cases e with
  | created e => simp [keysAfter, h]
  | cancelled e => simp [keysAfter, h]
  | updated e => simp [keysAfter, h]
  | filled e txSender => simp [keysAfter, h]
  | executed e => rfl

namespace LiveOrders

def Only (live : LiveOrders) (chainOrderId spotMarket : String) : Prop :=
  ∀ m, chainOrderId ∈ live m ↔ m = spotMarket

open Classical in
/-- The market of the only live order with this chain id, if there is one. -/
noncomputable def marketOf (live : LiveOrders) (chainOrderId : String) : Option String :=
  if h : ∃ spotMarket, live.Only chainOrderId spotMarket then some h.choose else none

theorem marketOf_eq_some_iff {live : LiveOrders} {chainOrderId spotMarket : String} :
    live.marketOf chainOrderId = some spotMarket ↔ live.Only chainOrderId spotMarket := by
  unfold marketOf
  split_ifs with h
  · rw [Option.some.injEq]
    constructor
    · intro heq
      exact heq ▸ h.choose_spec
    · intro honly
      exact (honly h.choose).mp ((h.choose_spec h.choose).mpr rfl)
  · constructor
    · intro hnone
      cases hnone
    · intro honly
      exact absurd ⟨spotMarket, honly⟩ h

def moved (live : LiveOrders) (r : String × MarketOrderEvent) : LiveOrders :=
  Function.update live r.1 (keysAfter r.2.chainOrderId (live r.1) r.2)

noncomputable def advance (live : LiveOrders) (e : String × TransactionEvent) : LiveOrders :=
  (route sdk live.marketOf e).elim live live.moved

noncomputable def after (live : LiveOrders) (blocks : List ReceiptBlock) : LiveOrders :=
  (blocks.flatMap (·.okEvents)).foldl (advance sdk) live

/-- The routes of a list of events, each found when all before it have happened. -/
noncomputable def routes (live : LiveOrders) : List (String × TransactionEvent) →
    List (String × MarketOrderEvent)
  | [] => []
  | e :: events => (route sdk live.marketOf e).toList ++ routes (live.advance sdk e) events

variable {sdk}

theorem route_congr {find find' : String → Option String} {e : String × TransactionEvent}
    (h : ∀ id, bareOrderId e.2 = some id → find id = find' id) :
    route sdk find e = route sdk find' e := by
  unfold route
  cases hpayload : e.2.payload with
  | order o =>
      cases hcontract : e.2.contract with
      | some contract =>
          have hspot : spotMarketFromEventContract sdk e.2 =
              some (normalizeSpotMarketKey sdk contract) := by
            simp [spotMarketFromEventContract, hcontract]
          cases o <;> simp [marketFor, hspot]
      | none =>
          cases o with
          | cancelled o =>
              have hfind : find o.orderId = find' o.orderId :=
                h o.orderId (by simp [bareOrderId, hcontract, hpayload])
              simp [marketFor, hfind]
          | updated o =>
              have hfind : find o.orderId = find' o.orderId :=
                h o.orderId (by simp [bareOrderId, hcontract, hpayload])
              simp [marketFor, hfind]
          | created o => rfl
          | filled o => rfl
          | executed o => rfl
  | global o => rfl
  | ignored => rfl

/-- What one market sees of the stream is the events routed to it. -/
theorem foldl_advance_at (events : List (String × TransactionEvent)) (live : LiveOrders)
    (m : String) :
    events.foldl (advance sdk) live m =
      ((live.routes sdk events).filterMap (atMarket m)).foldl
        (fun ids e => keysAfter e.chainOrderId ids e) (live m) := by
  induction events generalizing live with
  | nil => rfl
  | cons e events ih =>
      rw [List.foldl_cons, ih, routes, List.filterMap_append, List.foldl_append]
      congr 1
      unfold advance
      cases route sdk live.marketOf e with
      | none => rfl
      | some r =>
          change live.moved r m = _
          unfold moved atMarket
          by_cases hm : r.1 = m
          · subst hm
            simp
          · have hm' : m ≠ r.1 := fun heq => hm heq.symm
            simp [hm, hm']

theorem routes_append (events events' : List (String × TransactionEvent)) (live : LiveOrders) :
    live.routes sdk (events ++ events') =
      live.routes sdk events ++ routes sdk (events.foldl (advance sdk) live) events' := by
  induction events generalizing live with
  | nil => rfl
  | cons e events ih =>
      rw [List.cons_append, routes, routes, ih, List.append_assoc]
      rfl

theorem after_append (live : LiveOrders) (blocks blocks' : List ReceiptBlock) :
    live.after sdk (blocks ++ blocks') = after sdk (live.after sdk blocks) blocks' := by
  unfold after
  rw [List.flatMap_append, List.foldl_append]

theorem after_singleton (live : LiveOrders) (block : ReceiptBlock) :
    live.after sdk [block] = block.okEvents.foldl (advance sdk) live := by
  unfold after
  rw [List.flatMap_singleton]

end LiveOrders

/-! ## The index against the stream -/

/-- The hot orders of the index are the live orders of the stream. -/
structure Mirrors (names : Set String) (live : LiveOrders) (idx : OrderIndex) : Prop where
  indexed : OrderIndex.Indexed sdk idx
  named : OrderIndex.Named sdk names idx
  shape : ∀ key ∈ idx.ordersById, ∃ m id, key = m ++ ":" ++ id ∧ ':' ∉ id.toList
  mem : ∀ m id, ':' ∉ id.toList → (m ++ ":" ++ id ∈ idx.ordersById ↔ id ∈ live m)
  normal : ∀ m id, id ∈ live m → normalizeSpotMarketKey sdk m = m
  plain : ∀ m id, id ∈ live m → ':' ∉ id.toList

namespace Mirrors

variable {sdk} {names : Set String} {live : LiveOrders} {idx : OrderIndex}

theorem empty : Mirrors sdk names (fun _ => ∅) {} where
  indexed := OrderIndex.indexed_empty
  named := OrderIndex.named_empty
  shape := fun key hkey => absurd hkey (AList.notMem_empty key)
  mem := fun m id _ => by simp
  normal := fun m id h => absurd h (Set.notMem_empty id)
  plain := fun m id h => absurd h (Set.notMem_empty id)

theorem marketOf_of_found (found : List String) {id : String} :
    found.Nodup → (∀ m, m ∈ found ↔ id ∈ live m) →
      (match found with
        | [spot] => some spot
        | _ => none) = live.marketOf id := by
  intro hnodup hmem
  cases hof : live.marketOf id with
  | none =>
      have hnot : ∀ m, ¬live.Only id m := by
        intro m honly
        rw [LiveOrders.marketOf_eq_some_iff.mpr honly] at hof
        cases hof
      split
      · rename_i spot
        exact absurd (fun m => (hmem m).symm.trans List.mem_singleton) (hnot spot)
      · rfl
  | some m =>
      have honly := LiveOrders.marketOf_eq_some_iff.mp hof
      have hfoundOnly : found = [m] := by
        apply List.perm_singleton.mp
        rw [List.perm_ext_iff_of_nodup hnodup (List.nodup_singleton m)]
        intro m'
        rw [hmem, honly, List.mem_singleton]
      rw [hfoundOnly]

/-- The lookup finds the only live order. -/
theorem lookup_eq_marketOf (h : Mirrors sdk names live idx) {id : String}
    (hid : ':' ∉ id.toList) : idx.lookupSpotMarketForChainOrder id = live.marketOf id := by
  let pick (key : String) : Option String :=
    if Text.endsWith key (":" ++ id) then (splitOnchainOrderId key).map Prod.fst else none
  have hpick : ∀ {m id'}, ':' ∉ id'.toList →
      pick (m ++ ":" ++ id') = if id' = id then some m else none := by
    intro m id' hid'
    simp only [pick, Text.endsWith_colon_iff m hid' hid, splitOnchainOrderId,
      Text.rsplitOnce_colon m hid', Option.map_some]
  have hfound : ∀ m, m ∈ idx.ordersById.keys.filterMap pick ↔ id ∈ live m := by
    intro m
    rw [List.mem_filterMap, ← h.mem m id hid]
    constructor
    · rintro ⟨key, hkey, hm⟩
      obtain ⟨m', id', rfl, hid'⟩ := h.shape key (AList.mem_keys.mp hkey)
      rw [hpick hid'] at hm
      split_ifs at hm with heq
      cases hm
      subst heq
      exact AList.mem_keys.mp hkey
    · intro hkey
      exact ⟨m ++ ":" ++ id, AList.mem_keys.mpr hkey, by rw [hpick hid, if_pos rfl]⟩
  have hnodup : (idx.ordersById.keys.filterMap pick).Nodup := by
    unfold List.Nodup
    rw [List.pairwise_filterMap]
    refine List.Pairwise.imp_of_mem ?_ idx.ordersById.keys_nodup
    intro key key' hkey hkey' hne m hm m' hm' heq
    obtain ⟨n, i, rfl, hi⟩ := h.shape key (AList.mem_keys.mp hkey)
    obtain ⟨n', i', rfl, hi'⟩ := h.shape key' (AList.mem_keys.mp hkey')
    rw [hpick hi] at hm
    rw [hpick hi'] at hm'
    split_ifs at hm hm' with h1 h2
    cases hm
    cases hm'
    rw [h1, h2, heq] at hne
    exact hne rfl
  exact marketOf_of_found _ hnodup hfound

end Mirrors

namespace OrderTx

variable {sdk} {t : OrderTx}

open OrderIndex

/-- A key leaves the index only when the order under it becomes terminal. -/
theorem mem_ordersById_touch (h : Indexed sdk t.idx) (tsMs : UInt64)
    (spotMarket chainOrderId : String) {change : StoredOrder → StoredOrder}
    (hkeeps : Keeps change) {stays : Prop}
    (hstays : ∀ stored, isHotOrderStatus (change stored).order.status = true ↔ stays)
    (key : String) :
    key ∈ (t.touch sdk tsMs spotMarket chainOrderId change).idx.ordersById ↔
      key ∈ t.idx.ordersById ∧ (key = onchainOrderId sdk spotMarket chainOrderId → stays) := by
  unfold touch
  cases hfind : t.idx.find sdk spotMarket chainOrderId with
  | none =>
      have hnone : onchainOrderId sdk spotMarket chainOrderId ∉ t.idx.ordersById := by
        intro hmem
        obtain ⟨id, hid⟩ := Dict.mem_iff_lookup.mp hmem
        obtain ⟨stored, hstored, -⟩ := (h.byId _ _).mp hid
        rw [find_eq_some_iff.mpr ⟨hid, hstored⟩] at hfind
        cases hfind
      constructor
      · intro hmem
        exact ⟨hmem, fun heq => absurd (heq ▸ hmem) hnone⟩
      · exact And.left
  | some found =>
      obtain ⟨id, stored⟩ := found
      obtain ⟨hid, hstored⟩ := find_eq_some_iff.mp hfind
      have hkey : stored.key sdk = onchainOrderId sdk spotMarket chainOrderId := by
        obtain ⟨stored', hstored', hkey'⟩ := (h.byId _ _).mp hid
        rw [hstored, Option.some.injEq] at hstored'
        exact hstored' ▸ hkey'
      have hchanged : (change stored).key sdk = onchainOrderId sdk spotMarket chainOrderId := by
        rw [← hkey]
        unfold StoredOrder.key
        rw [hkeeps.spotMarket, hkeeps.chainOrderId]
      dsimp only
      unfold settle
      split_ifs with hhot
      · have hs := (hstays stored).mp hhot
        simp [hs]
      · have hs : ¬stays := fun hs => hhot ((hstays stored).mpr hs)
        change key ∈ t.idx.ordersById.erase ((change stored).key sdk) ↔ _
        rw [hchanged, AList.mem_erase]
        simp [hs, and_comm]

end OrderTx

namespace Ctx

variable {env : Env} {names : Set String} {live : LiveOrders} (opts : ProcessOpts)
  (blockNum : UInt64)

theorem mem_ordersById_applyMarketOrderEvent (lawful : LawfulSdk env.sdk) {c : Ctx}
    (h : OrderIndex.Indexed env.sdk c.store.orders) (spotMarket : String) (e : MarketOrderEvent)
    (key : String) :
    key ∈ (c.applyMarketOrderEvent env opts blockNum spotMarket e).store.orders.ordersById ↔
      key ∈ keysAfter (onchainOrderId env.sdk spotMarket e.chainOrderId)
        {k | k ∈ c.store.orders.ordersById} e := by
  have horders := orders_applyMarketOrderEvent env c opts blockNum spotMarket e
  have htouched : ∀ {chainOrderId : String} {change : StoredOrder → StoredOrder} {stays : Prop},
      OrderTx.Keeps change →
      (∀ stored, isHotOrderStatus (change stored).order.status = true ↔ stays) →
      (∃ (t : OrderTx) (tsMs : UInt64), t.idx = c.store.orders ∧
        (c.applyMarketOrderEvent env opts blockNum spotMarket e).store.orders =
          (t.touch env.sdk tsMs spotMarket chainOrderId change).idx) →
      (key ∈ (c.applyMarketOrderEvent env opts blockNum spotMarket e).store.orders.ordersById ↔
        key ∈ c.store.orders.ordersById ∧
          (key = onchainOrderId env.sdk spotMarket chainOrderId → stays)) := by
    rintro chainOrderId change stays hkeeps hstays ⟨t, tsMs, ht, heq⟩
    rw [heq, ← ht]
    rw [← ht] at h
    exact OrderTx.mem_ordersById_touch h tsMs spotMarket chainOrderId hkeeps hstays key
  cases e with
  | created e =>
      dsimp only at horders
      split_ifs at horders with hdup
      · rw [horders]
        have hmem : onchainOrderId env.sdk spotMarket e.orderId ∈ c.store.orders.ordersById :=
          Dict.mem_iff_lookup.mpr (Option.isSome_iff_exists.mp hdup)
        constructor
        · exact Set.mem_insert_of_mem _
        · rintro (rfl | hkey)
          · exact hmem
          · exact hkey
      · obtain ⟨t, tsMs, order, ht, -, hopen, heq⟩ := horders
        have hhot : isHotOrderStatus order.status = true := by rw [hopen]; rfl
        rw [heq, OrderTx.insertOrder]
        dsimp only
        rw [if_pos hhot, AList.mem_insert, onchainOrderId_normalize lawful, ht]
        rfl
  | cancelled e =>
      have hterminal : ∀ stored,
          isHotOrderStatus (OrderTx.cancelled stored).order.status = true ↔ False := by
        intro stored
        simp [OrderTx.cancelled, isHotOrderStatus]
      exact htouched OrderTx.keeps_cancelled hterminal horders
  | updated e =>
      exact htouched (OrderTx.keeps_resized _ _) (OrderTx.isHot_resized _ _) horders
  | filled e txSender =>
      exact htouched (OrderTx.keeps_afterFill _ _ _) (OrderTx.isHot_afterFill _ _ _) horders
  | executed e =>
      dsimp only at horders
      rw [horders]
      rfl

end Ctx

/-! ## Events, tasks and blocks -/

/-- What a market's task relies on of its work. -/
structure WorkFit (names : Set String) (spotMarket : String) (e : MarketOrderEvent) : Prop where
  normal : normalizeSpotMarketKey sdk spotMarket = spotMarket
  plain : ':' ∉ e.chainOrderId.toList
  named : ∀ o, e = .created o → onchainOrderId sdk spotMarket o.orderId ∈ names

/-- Chain ids hold no colon, and the composite ids of new orders are among `names`. -/
structure ReceiptBlock.Fit (names : Set String) (block : ReceiptBlock) : Prop where
  plain : ∀ e ∈ block.okEvents, ∀ o, e.2.payload = .order o →
    ':' ∉ (o.work e.1).chainOrderId.toList
  named : ∀ e ∈ block.okEvents, ∀ o, e.2.payload = .order (.created o) →
    onchainOrderId sdk o.market o.orderId ∈ names

namespace Mirrors

variable {env : Env} {names : Set String} {live : LiveOrders} (lawful : LawfulSdk env.sdk)
  (hinj : Set.InjOn env.sdk.uuidV5 names) (opts : ProcessOpts) (blockNum : UInt64)

include lawful hinj

theorem event {c : Ctx} (h : Mirrors env.sdk names live c.store.orders) {m : String}
    {e : MarketOrderEvent} (hfit : WorkFit env.sdk names m e) :
    Mirrors env.sdk names (live.moved (m, e))
      (c.applyMarketOrderEvent env opts blockNum m e).store.orders := by
  obtain ⟨hindexed, hnamed⟩ := Ctx.indexed_applyMarketOrderEvent lawful h.indexed h.named hinj
    opts blockNum m e hfit.named
  have hkeys := Ctx.mem_ordersById_applyMarketOrderEvent opts blockNum lawful h.indexed m e
  have hkey : onchainOrderId env.sdk m e.chainOrderId = m ++ ":" ++ e.chainOrderId := by
    rw [onchainOrderId, hfit.normal]
  rw [hkey] at hkeys
  refine ⟨hindexed, hnamed, ?_, ?_, ?_, ?_⟩
  · intro key hmem
    by_cases hk : key = m ++ ":" ++ e.chainOrderId
    · exact ⟨m, e.chainOrderId, hk, hfit.plain⟩
    · exact h.shape key ((mem_keysAfter_of_ne hk e).mp ((hkeys key).mp hmem))
  · intro m' id hid
    rw [hkeys]
    unfold LiveOrders.moved
    by_cases hm : m' = m
    · subst hm
      rw [Function.update_self]
      refine mem_keysAfter_congr ?_ (h.mem m' id hid) e
      exact ⟨fun heq => (Text.colon_inj hid hfit.plain heq).2, fun heq => by rw [heq]⟩
    · rw [Function.update_of_ne hm]
      have hne : m' ++ ":" ++ id ≠ m ++ ":" ++ e.chainOrderId :=
        fun heq => hm (Text.colon_inj hid hfit.plain heq).1
      exact (mem_keysAfter_of_ne hne e).trans (h.mem m' id hid)
  · intro m' id hid
    unfold LiveOrders.moved at hid
    by_cases hm : m' = m
    · rw [hm]
      exact hfit.normal
    · rw [Function.update_of_ne hm] at hid
      exact h.normal m' id hid
  · intro m' id hid
    unfold LiveOrders.moved at hid
    by_cases hm : m' = m
    · subst hm
      rw [Function.update_self] at hid
      by_cases heq : id = e.chainOrderId
      · rw [heq]
        exact hfit.plain
      · exact h.plain m' id ((mem_keysAfter_of_ne heq e).mp hid)
    · rw [Function.update_of_ne hm] at hid
      exact h.plain m' id hid

end Mirrors

theorem workFit_route {sdk : Sdk} {names : Set String} {live : LiveOrders} {idx : OrderIndex}
    (lawful : LawfulSdk sdk) (h : Mirrors sdk names live idx) {block : ReceiptBlock}
    (hfit : block.Fit sdk names) {e : String × TransactionEvent} (he : e ∈ block.okEvents)
    {m : String} {work : MarketOrderEvent} (hroute : route sdk live.marketOf e = some (m, work)) :
    WorkFit sdk names m work := by
  have hfound : ∀ {id}, (spotMarketFromEventContract sdk e.2).or (live.marketOf id) = some m →
      normalizeSpotMarketKey sdk m = m := by
    intro id hm
    rw [Option.or_eq_some_iff] at hm
    rcases hm with hm | ⟨-, hm⟩
    · obtain ⟨contract, -, rfl⟩ := Option.map_eq_some_iff.mp hm
      exact normalize_normalize lawful contract
    · exact h.normal m id ((LiveOrders.marketOf_eq_some_iff.mp hm m).mpr rfl)
  unfold route at hroute
  cases hpayload : e.2.payload with
  | global o => simp [hpayload] at hroute
  | ignored => simp [hpayload] at hroute
  | order o =>
      have hplain := hfit.plain e he o hpayload
      simp only [hpayload, Option.map_eq_some_iff, Prod.mk.injEq] at hroute
      obtain ⟨m', hm, rfl, rfl⟩ := hroute
      cases o with
      | created o =>
          cases hm
          refine ⟨normalize_normalize lawful o.market, hplain, ?_⟩
          rintro o' ⟨⟩
          rw [onchainOrderId_normalize lawful]
          exact hfit.named e he o hpayload
      | cancelled o => exact ⟨hfound hm, hplain, fun _ hcreated => nomatch hcreated⟩
      | updated o => exact ⟨hfound hm, hplain, fun _ hcreated => nomatch hcreated⟩
      | filled o =>
          cases hm
          exact ⟨normalize_normalize lawful o.market, hplain, fun _ hcreated => nomatch hcreated⟩
      | executed o =>
          obtain ⟨contract, -, rfl⟩ := Option.map_eq_some_iff.mp hm
          exact ⟨normalize_normalize lawful contract, hplain, fun _ hcreated => nomatch hcreated⟩

end ClobIndexer
