import ClobIndexer.HexSdk
import ClobIndexer.Indexer.OrderIndexes
/-!
# Finding an order by its chain id alone

`lookup_spot_market_for_chain_order` of `src/indexer/index_state.rs` matches the suffix of
the composite keys and cuts a match at its last colon.  The writers of the order maps keep
one key for each hot order, so the keys that match are as many as the hot orders of that
chain id.
-/

namespace ClobIndexer

open Lib

variable (sdk : Sdk)

def OrderIndex.hotUnder (idx : OrderIndex) (chainOrderId : String) : List StoredOrder :=
  (idx.orders.entries.filter fun e => e.2.chainOrderId = chainOrderId).map Sigma.snd

/-! ## Writers of the order maps -/

inductive HotOrderStep where
  | insertOrder (tsMs : UInt64) (order : Order) (userAddress spotMarket chainOrderId : String)
      (sizeRaw filledRaw : UInt64)
  | updateOrderCancelled (tsMs : UInt64) (spotMarket chainOrderId : String)
  | updateOrderAmount (tsMs : UInt64) (spotMarket chainOrderId : String)
      (newAmount remainingAmount : UInt64)
  | updateOrderFill (tsMs : UInt64) (spotMarket chainOrderId : String)
      (fillAmount remainingAmount : UInt64) (isFullyFilled : Bool)
  | clearAll

namespace HotOrderStep

def apply (t : OrderTx) : HotOrderStep → OrderTx
  | insertOrder tsMs order userAddress spotMarket chainOrderId sizeRaw filledRaw =>
      t.insertOrder sdk tsMs order userAddress spotMarket chainOrderId sizeRaw filledRaw
  | updateOrderCancelled tsMs spotMarket chainOrderId =>
      t.updateOrderCancelled sdk tsMs spotMarket chainOrderId
  | updateOrderAmount tsMs spotMarket chainOrderId newAmount remainingAmount =>
      t.updateOrderAmount sdk tsMs spotMarket chainOrderId newAmount remainingAmount
  | updateOrderFill tsMs spotMarket chainOrderId fillAmount remainingAmount isFullyFilled =>
      t.updateOrderFill sdk tsMs spotMarket chainOrderId fillAmount remainingAmount isFullyFilled
  | clearAll => { t with idx := {} }

def names : HotOrderStep → Set String
  | insertOrder _ _ _ spotMarket chainOrderId _ _ => {onchainOrderId sdk spotMarket chainOrderId}
  | _ => ∅

/-- An order that is put in has the UUID of its composite id, and no colon in its chain id. -/
def WellNamed : HotOrderStep → Prop
  | insertOrder _ order _ spotMarket chainOrderId _ _ =>
      order.id = orderUuid sdk spotMarket chainOrderId ∧ ':' ∉ chainOrderId.toList
  | _ => True

end HotOrderStep

/-! ## What the writers keep -/

namespace OrderIndex

structure LookupReady (names : Set String) (idx : OrderIndex) : Prop where
  keysLead : KeysLead sdk idx
  named : Named sdk names idx
  plain : ∀ id stored, idx.orders.lookup id = some stored → ':' ∉ stored.chainOrderId.toList

variable {sdk} {names : Set String} {idx : OrderIndex}

theorem lookupReady_empty : LookupReady sdk names {} where
  keysLead := by simp [KeysLead]
  named := named_empty
  plain := by simp

theorem plain_insert {id : Uuid} {stored : StoredOrder}
    (h : ∀ id stored, idx.orders.lookup id = some stored → ':' ∉ stored.chainOrderId.toList)
    (hstored : ':' ∉ stored.chainOrderId.toList) (id' : Uuid) (stored' : StoredOrder)
    (hlookup : AList.lookup id' (idx.orders.insert id stored) = some stored') :
    ':' ∉ stored'.chainOrderId.toList := by
  rw [Dict.lookup_insert_ite] at hlookup
  split_ifs at hlookup with hid
  · rw [← Option.some.inj hlookup]
    exact hstored
  · exact h id' stored' hlookup

end OrderIndex

namespace OrderTx

open OrderIndex

variable {sdk} {t : OrderTx} {names : Set String}

theorem lookupReady_insertOrder (lawful : LawfulSdk sdk) (h : LookupReady sdk names t.idx)
    (hinj : Set.InjOn sdk.uuidV5 names) (tsMs : UInt64) {order : Order} (userAddress : String)
    {spotMarket chainOrderId : String} (sizeRaw filledRaw : UInt64)
    (hid : order.id = orderUuid sdk spotMarket chainOrderId)
    (hplain : ':' ∉ chainOrderId.toList)
    (hname : onchainOrderId sdk spotMarket chainOrderId ∈ names) :
    LookupReady sdk names
      (t.insertOrder sdk tsMs order userAddress spotMarket chainOrderId sizeRaw filledRaw).idx := by
  unfold insertOrder
  dsimp only
  split_ifs with hhot
  · let stored : StoredOrder := ⟨order, userAddress, chainOrderId,
      normalizeSpotMarketKey sdk spotMarket, filledRaw, sizeRaw⟩
    have hkey : stored.key sdk = onchainOrderId sdk spotMarket chainOrderId :=
      onchainOrderId_normalize lawful spotMarket chainOrderId
    have hid' : order.id = sdk.uuidV5 (stored.key sdk) := by
      rw [hid, hkey]
      rfl
    exact ⟨h.keysLead.insert h.named hinj (hkey ▸ hname) hid' _,
      h.named.insert (hkey ▸ hname) hid' _ _, plain_insert h.plain hplain⟩
  · exact h

theorem lookupReady_settle (h : LookupReady sdk names t.idx) (tsMs : UInt64) {id : Uuid}
    {stored stored' : StoredOrder} (hstored : t.idx.orders.lookup id = some stored)
    (hspot : stored'.spotMarket = stored.spotMarket)
    (hchain : stored'.chainOrderId = stored.chainOrderId) :
    LookupReady sdk names (t.settle sdk tsMs id stored').idx := by
  have hkey : stored'.key sdk = stored.key sdk := by
    unfold StoredOrder.key
    rw [hspot, hchain]
  obtain ⟨hname, hid⟩ := h.named id stored hstored
  unfold settle
  split_ifs
  · exact ⟨h.keysLead.replace hstored hkey, h.named.insert (hkey ▸ hname) (hkey ▸ hid) _ _,
      plain_insert h.plain (hchain ▸ h.plain id stored hstored)⟩
  · refine ⟨h.keysLead.remove hstored hkey, h.named.remove id stored', ?_⟩
    intro id' other hother
    change (t.idx.orders.erase id).lookup id' = some other at hother
    rw [Dict.lookup_erase_ite] at hother
    split_ifs at hother
    exact h.plain id' other hother

theorem lookupReady_touch (h : LookupReady sdk names t.idx) (tsMs : UInt64)
    (spotMarket chainOrderId : String) {change : StoredOrder → StoredOrder}
    (hkeeps : Keeps change) :
    LookupReady sdk names (t.touch sdk tsMs spotMarket chainOrderId change).idx := by
  unfold touch
  cases hfind : t.idx.find sdk spotMarket chainOrderId with
  | none => exact h
  | some found =>
      exact lookupReady_settle h tsMs (lookup_of_find hfind) (hkeeps.spotMarket _)
        (hkeeps.chainOrderId _)

end OrderTx

namespace OrderIndex

variable {sdk} {names : Set String}

theorem lookupReady_apply (lawful : LawfulSdk sdk) {t : OrderTx}
    (h : LookupReady sdk names t.idx) (hinj : Set.InjOn sdk.uuidV5 names) {step : HotOrderStep}
    (hstep : step.WellNamed sdk) (hnames : step.names sdk ⊆ names) :
    LookupReady sdk names (step.apply sdk t).idx := by
  cases step with
  | insertOrder tsMs order userAddress spotMarket chainOrderId sizeRaw filledRaw =>
      exact OrderTx.lookupReady_insertOrder lawful h hinj tsMs userAddress sizeRaw filledRaw
        hstep.1 hstep.2 (hnames rfl)
  | updateOrderCancelled tsMs spotMarket chainOrderId =>
      change LookupReady sdk names (t.updateOrderCancelled sdk tsMs spotMarket chainOrderId).idx
      rw [OrderTx.updateOrderCancelled_eq_touch]
      exact OrderTx.lookupReady_touch h tsMs spotMarket chainOrderId OrderTx.keeps_cancelled
  | updateOrderAmount tsMs spotMarket chainOrderId newAmount remainingAmount =>
      exact OrderTx.lookupReady_touch h tsMs spotMarket chainOrderId
        (OrderTx.keeps_resized newAmount remainingAmount)
  | updateOrderFill tsMs spotMarket chainOrderId fillAmount remainingAmount isFullyFilled =>
      exact OrderTx.lookupReady_touch h tsMs spotMarket chainOrderId
        (OrderTx.keeps_afterFill fillAmount remainingAmount isFullyFilled)
  | clearAll => exact lookupReady_empty

theorem lookupReady_foldl_apply (lawful : LawfulSdk sdk) (hinj : Set.InjOn sdk.uuidV5 names)
    {steps : List HotOrderStep} (hsteps : ∀ step ∈ steps, step.WellNamed sdk)
    (hnames : ∀ step ∈ steps, step.names sdk ⊆ names) {t : OrderTx}
    (h : LookupReady sdk names t.idx) :
    LookupReady sdk names (steps.foldl (HotOrderStep.apply sdk) t).idx := by
  refine List.foldlRecOn (motive := fun t : OrderTx => LookupReady sdk names t.idx) _ _ h ?_
  intro t ht step hstep
  exact lookupReady_apply lawful ht hinj (hsteps step hstep) (hnames step hstep)

/-! ## The keys of a chain id -/

variable {idx : OrderIndex} {chainOrderId : String}

theorem mem_hotUnder_iff {stored : StoredOrder} :
    stored ∈ idx.hotUnder chainOrderId ↔
      (∃ id, idx.orders.lookup id = some stored) ∧ stored.chainOrderId = chainOrderId := by
  unfold hotUnder
  rw [List.mem_map]
  constructor
  · rintro ⟨⟨id, stored⟩, he, rfl⟩
    obtain ⟨he, hchain⟩ := List.mem_filter.mp he
    exact ⟨⟨id, Dict.mem_entries_iff.mp he⟩, of_decide_eq_true hchain⟩
  · rintro ⟨⟨id, hlookup⟩, hchain⟩
    exact ⟨⟨id, stored⟩, List.mem_filter.mpr ⟨Dict.mem_entries_iff.mpr hlookup,
      decide_eq_true hchain⟩, rfl⟩

theorem nodup_keys_hotUnder (h : LookupReady sdk names idx) :
    ((idx.hotUnder chainOrderId).map (StoredOrder.key sdk)).Nodup := by
  unfold hotUnder
  rw [List.map_map]
  have hentries : idx.orders.entries.Nodup := idx.orders.nodupKeys.nodup
  refine (hentries.filter _).map_on ?_
  intro e he e' he' hkey
  have hlookup := Dict.mem_entries_iff.mp (List.mem_filter.mp he).1
  have hlookup' := Dict.mem_entries_iff.mp (List.mem_filter.mp he').1
  have hid := (h.keysLead (e.2.key sdk) e.1).mpr ⟨e.2, hlookup, rfl⟩
  have hid' := (h.keysLead (e'.2.key sdk) e'.1).mpr ⟨e'.2, hlookup', rfl⟩
  have heq : e.1 = e'.1 := by
    rw [show e.2.key sdk = e'.2.key sdk from hkey, hid'] at hid
    exact (Option.some.inj hid).symm
  rw [heq, hlookup'] at hlookup
  exact Sigma.ext heq (heq_of_eq (Option.some.inj hlookup).symm)

theorem keys_perm (h : LookupReady sdk names idx) (hplain : ':' ∉ chainOrderId.toList) :
    (idx.ordersById.keys.filter fun key => Text.endsWith key (":" ++ chainOrderId)).Perm
      ((idx.hotUnder chainOrderId).map (StoredOrder.key sdk)) := by
  have hends : ∀ id stored, idx.orders.lookup id = some stored →
      (Text.endsWith (stored.key sdk) (":" ++ chainOrderId) = true ↔
        stored.chainOrderId = chainOrderId) := fun id stored hlookup =>
    Text.endsWith_colon_iff _ (h.plain id stored hlookup) hplain
  rw [List.perm_ext_iff_of_nodup (idx.ordersById.keys_nodup.filter _) (nodup_keys_hotUnder h)]
  intro key
  rw [List.mem_filter, ← AList.mem_keys, Dict.mem_iff_lookup, List.mem_map]
  constructor
  · rintro ⟨⟨id, hid⟩, hkey⟩
    obtain ⟨stored, hlookup, rfl⟩ := (h.keysLead key id).mp hid
    exact ⟨stored, mem_hotUnder_iff.mpr ⟨⟨id, hlookup⟩, (hends id stored hlookup).mp hkey⟩, rfl⟩
  · rintro ⟨stored, hstored, rfl⟩
    obtain ⟨⟨id, hlookup⟩, hchain⟩ := mem_hotUnder_iff.mp hstored
    exact ⟨⟨id, (h.keysLead _ id).mpr ⟨stored, hlookup, rfl⟩⟩, (hends id stored hlookup).mpr hchain⟩

/-- What the lookup finds are the markets of the hot orders of the chain id. -/
theorem found_perm (h : LookupReady sdk names idx) (hplain : ':' ∉ chainOrderId.toList) :
    (idx.ordersById.keys.filterMap fun key =>
        if Text.endsWith key (":" ++ chainOrderId) then (splitOnchainOrderId key).map Prod.fst
        else none).Perm
      ((idx.hotUnder chainOrderId).map fun stored =>
        normalizeSpotMarketKey sdk stored.spotMarket) := by
  have hsplit : ((idx.hotUnder chainOrderId).map (StoredOrder.key sdk)).filterMap
      (fun key => (splitOnchainOrderId key).map Prod.fst) =
      (idx.hotUnder chainOrderId).map fun stored =>
        normalizeSpotMarketKey sdk stored.spotMarket := by
    rw [List.filterMap_map, ← List.filterMap_eq_map]
    refine List.filterMap_congr fun stored hstored => ?_
    obtain ⟨⟨id, hlookup⟩, -⟩ := mem_hotUnder_iff.mp hstored
    have hcut : splitOnchainOrderId (stored.key sdk) =
        some (normalizeSpotMarketKey sdk stored.spotMarket, stored.chainOrderId) :=
      Text.rsplitOnce_colon _ (h.plain id stored hlookup)
    rw [Function.comp_apply, hcut]
    rfl
  have hperm := (keys_perm h hplain).filterMap fun key => (splitOnchainOrderId key).map Prod.fst
  rw [hsplit, List.filterMap_filter] at hperm
  exact hperm

theorem lookup_eq_some_iff (h : LookupReady sdk names idx) (hplain : ':' ∉ chainOrderId.toList)
    (m : String) :
    idx.lookupSpotMarketForChainOrder chainOrderId = some m ↔
      ∃ stored, idx.hotUnder chainOrderId = [stored] ∧
        m = normalizeSpotMarketKey sdk stored.spotMarket := by
  have hone : idx.lookupSpotMarketForChainOrder chainOrderId = some m ↔
      (idx.ordersById.keys.filterMap fun key =>
        if Text.endsWith key (":" ++ chainOrderId) then (splitOnchainOrderId key).map Prod.fst
        else none) = [m] := by
    unfold lookupSpotMarketForChainOrder
    dsimp only
    split
    · rename_i spot hspot
      rw [hspot, List.cons.injEq, Option.some.injEq]
      exact (and_iff_left rfl).symm
    · rename_i hnot
      exact iff_of_false (fun heq => nomatch heq) (hnot m)
  have hfound := found_perm h hplain
  calc
    _ ↔ _ := hone
    _ ↔ ((idx.hotUnder chainOrderId).map fun stored =>
        normalizeSpotMarketKey sdk stored.spotMarket) = [m] := by
      rw [← List.perm_singleton, ← List.perm_singleton]
      exact ⟨hfound.symm.trans, hfound.trans⟩
    _ ↔ _ := by
      rw [List.map_eq_singleton_iff]
      exact exists_congr fun stored => and_congr_right fun _ => eq_comm

end OrderIndex

/-- A chain id leads to a market exactly when one hot order has it, and then to the market
of that order. -/
theorem lookupSpotMarketForChainOrder_eq_some_iff (lawful : LawfulSdk sdk)
    (writes : TableWrites String OrderRow) (history : List PersistOrderRow)
    (steps : List HotOrderStep) (hsteps : ∀ step ∈ steps, step.WellNamed sdk)
    (hinj : Set.InjOn sdk.uuidV5 {key | ∃ step ∈ steps, key ∈ step.names sdk})
    (chainOrderId : String) (hplain : ':' ∉ chainOrderId.toList) (m : String) :
    let idx := (steps.foldl (HotOrderStep.apply sdk) ⟨{}, writes, history⟩).idx
    idx.lookupSpotMarketForChainOrder chainOrderId = some m ↔
      ∃ stored, idx.hotUnder chainOrderId = [stored] ∧
        m = normalizeSpotMarketKey sdk stored.spotMarket := by
  intro idx
  have hready := OrderIndex.lookupReady_foldl_apply lawful hinj hsteps
    (fun step hstep key hkey => ⟨step, hstep, hkey⟩) (t := ⟨{}, writes, history⟩)
    OrderIndex.lookupReady_empty
  exact OrderIndex.lookup_eq_some_iff hready hplain m

namespace Sample

def openOrder (chainOrderId : String) : HotOrderStep :=
  .insertOrder 0
    ⟨orderUuid setting.sdk market chainOrderId, marketUuid setting.sdk market, "", "", "", "buy",
      "0.5", "10", "open", none⟩ account market chainOrderId 10 0

theorem openOrders_looked_up :
    let idx := ([openOrder "1", openOrder "2"].foldl (HotOrderStep.apply setting.sdk)
      ⟨{}, .empty, []⟩).idx
    ∃ stored, idx.hotUnder "1" = [stored] ∧
      market = normalizeSpotMarketKey setting.sdk stored.spotMarket := by
  have hone : onchainOrderId setting.sdk market "1" = market ++ ":1" := by decide +kernel
  have htwo : onchainOrderId setting.sdk market "2" = market ++ ":2" := by decide +kernel
  have hdistinct : setting.sdk.uuidV5 (market ++ ":1") ≠ setting.sdk.uuidV5 (market ++ ":2") := by
    decide +kernel
  have hnames : ∀ key,
      (∃ step ∈ [openOrder "1", openOrder "2"], key ∈ step.names setting.sdk) →
      key = market ++ ":1" ∨ key = market ++ ":2" := by
    rintro key ⟨step, hstep, hkey⟩
    rcases List.mem_pair.mp hstep with rfl | rfl
    · exact .inl (hkey.trans hone)
    · exact .inr (hkey.trans htwo)
  refine (lookupSpotMarketForChainOrder_eq_some_iff setting.sdk lawful .empty [] _ ?_ ?_ "1"
    (by decide) market).mp (by decide +kernel)
  · intro step hstep
    rcases List.mem_pair.mp hstep with rfl | rfl
    · exact ⟨rfl, by decide⟩
    · exact ⟨rfl, by decide⟩
  · intro a ha b hb heq
    rcases hnames a ha with rfl | rfl <;> rcases hnames b hb with rfl | rfl
    · rfl
    · exact absurd heq hdistinct
    · exact absurd heq.symm hdistinct
    · rfl

end Sample

end ClobIndexer
