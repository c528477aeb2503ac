import ClobIndexer.Indexer.Routing
/-!
# The partition of a block

Each order event of a successful transaction has one place: the group of a market, the
list of those with no market, or, for the summary of a market order that carries no
contract, none.  `prepare_block` puts every event in its place, and nothing else
anywhere.
-/

namespace ClobIndexer

open Lib

inductive Placement where
  | market (spotMarket : String) (work : MarketOrderEvent)
  | unmapped (event : UnmappedOrderEvent)
  | nowhere

def placement (sdk : Sdk) (find : String → Option String) (e : String × TransactionEvent) :
    Placement :=
  match e.2.payload with
  | .order (.created o) => .market (normalizeSpotMarketKey sdk o.market) (.created o)
  | .order (.filled o) => .market (normalizeSpotMarketKey sdk o.market) (.filled o e.1)
  | .order (.executed o) =>
      match e.2.contract with
      | some contract => .market (normalizeSpotMarketKey sdk contract) (.executed o)
      | none => .nowhere
  | .order (.cancelled o) =>
      match e.2.contract, find o.orderId with
      | some contract, _ => .market (normalizeSpotMarketKey sdk contract) (.cancelled o)
      | none, some spotMarket => .market spotMarket (.cancelled o)
      | none, none => .unmapped (.cancelled o.orderId)
  | .order (.updated o) =>
      match e.2.contract, find o.orderId with
      | some contract, _ => .market (normalizeSpotMarketKey sdk contract) (.updated o)
      | none, some spotMarket => .market spotMarket (.updated o)
      | none, none => .unmapped (.updated o.orderId)
  | .global _ => .nowhere
  | .ignored => .nowhere

namespace Placement

def inGroup (m : String) : Placement → Option MarketOrderEvent
  | market spotMarket work => if spotMarket = m then some work else none
  | unmapped _ => none
  | nowhere => none

def inUnmapped : Placement → Option UnmappedOrderEvent
  | market _ _ => none
  | unmapped event => some event
  | nowhere => none

def places : Placement → Nat
  | market _ _ => 1
  | unmapped _ => 1
  | nowhere => 0

end Placement

/-- An order is live under a chain id when its key ends with it. -/
def LiveUnder (idx : OrderIndex) (chainOrderId key : String) : Prop :=
  key ∈ idx.ordersById ∧ Text.endsWith key (":" ++ chainOrderId) = true

/-- The market found for a chain id is that of the only order live under it. -/
structure FindsOnlyLive (idx : OrderIndex) (find : String → Option String) : Prop where
  found : ∀ chainOrderId spotMarket, find chainOrderId = some spotMarket ↔
    ∃ key rest, (∀ k, LiveUnder idx chainOrderId k ↔ k = key) ∧
      splitOnchainOrderId key = some (spotMarket, rest)
  notFound : ∀ chainOrderId, find chainOrderId = none ↔
    ¬∃ key, ∀ k, LiveUnder idx chainOrderId k ↔ k = key

/-- Every event stands in its place, in the order of the block, and nothing else stands
anywhere. -/
structure Partitioned (sdk : Sdk) (idx : OrderIndex) (block : ReceiptBlock)
    (prepared : PreparedBlock) (find : String → Option String) : Prop where
  finds : FindsOnlyLive idx find
  group : ∀ m, prepared.group m =
    block.okEvents.filterMap fun e => (placement sdk find e).inGroup m
  markets : ∀ m, m ∈ prepared.markets ↔
    ∃ e ∈ block.okEvents, ((placement sdk find e).inGroup m).isSome
  unmapped : prepared.unmapped =
    block.okEvents.filterMap fun e => (placement sdk find e).inUnmapped
  count : Dict.sumOf (fun _ group => group.length) prepared.markets + prepared.unmapped.length =
    (block.okEvents.map fun e => (placement sdk find e).places).sum

/-! ## Placing -/

namespace OrderGroups

def place (g : OrderGroups) : Placement → OrderGroups
  | .market spotMarket work => g.push spotMarket work
  | .unmapped event => g.pushUnmapped event
  | .nowhere => g

variable {sdk : Sdk}

theorem add_eq_place (idx : OrderIndex) (g : OrderGroups) (e : String × TransactionEvent) :
    g.add sdk idx e = g.place (placement sdk idx.lookupSpotMarketForChainOrder e) := by
  unfold add placement resolveSpotMarketForOrderEvent spotMarketFromEventContract
  cases e.2.payload with
  | order o =>
      cases o with
      | created o => rfl
      | filled o => rfl
      | executed o => cases e.2.contract <;> rfl
      | cancelled o =>
          cases e.2.contract with
          | some contract => rfl
          | none =>
              dsimp only [Option.map_none]
              cases idx.lookupSpotMarketForChainOrder o.orderId <;> rfl
      | updated o =>
          cases e.2.contract with
          | some contract => rfl
          | none =>
              dsimp only [Option.map_none]
              cases idx.lookupSpotMarketForChainOrder o.orderId <;> rfl
  | global o => rfl
  | ignored => rfl

theorem foldl_add_eq (idx : OrderIndex) (events : List (String × TransactionEvent))
    (g : OrderGroups) :
    events.foldl (add sdk idx) g =
      (events.map (placement sdk idx.lookupSpotMarketForChainOrder)).foldl place g := by
  induction events generalizing g with
  | nil => rfl
  | cons e events ih => rw [List.foldl_cons, List.map_cons, List.foldl_cons, add_eq_place, ih]

theorem group_place (g : OrderGroups) (p : Placement) (m : String) :
    (g.place p).group m = g.group m ++ (p.inGroup m).toList := by
  cases p with
  | market spotMarket work => exact group_push g spotMarket m work
  | unmapped event => exact (List.append_nil _).symm
  | nowhere => exact (List.append_nil _).symm

theorem mem_markets_place (g : OrderGroups) (p : Placement) (m : String) :
    m ∈ (g.place p).markets ↔ m ∈ g.markets ∨ (p.inGroup m).isSome := by
  cases p with
  | market spotMarket work =>
      change m ∈ g.markets.insert spotMarket _ ↔ _
      rw [AList.mem_insert, or_comm]
      by_cases h : spotMarket = m
      · simp [Placement.inGroup, h]
      · have h' : ¬m = spotMarket := fun heq => h heq.symm
        simp [Placement.inGroup, h, h']
  | unmapped event => simp [place, pushUnmapped, Placement.inGroup]
  | nowhere => simp [place, Placement.inGroup]

theorem unmapped_place (g : OrderGroups) (p : Placement) :
    (g.place p).unmapped = g.unmapped ++ p.inUnmapped.toList := by
  cases p with
  | market spotMarket work => exact (List.append_nil _).symm
  | unmapped event => rfl
  | nowhere => exact (List.append_nil _).symm

def size (g : OrderGroups) : Nat :=
  Dict.sumOf (fun _ group => group.length) g.markets + g.unmapped.length

theorem size_place (g : OrderGroups) (p : Placement) :
    (g.place p).size = g.size + p.places := by
  cases p with
  | market spotMarket work =>
      unfold size place push
      rw [Dict.sumOf_insert, List.length_append, List.length_singleton]
      cases hlookup : g.markets.lookup spotMarket with
      | none =>
          rw [Dict.sumOf_erase_of_notMem _ _ hlookup, Option.getD_none, List.length_nil]
          dsimp only [Placement.places]
          omega
      | some group =>
          have herase := Dict.sumOf_erase (fun _ group => group.length) g.markets hlookup
          rw [Option.getD_some]
          dsimp only [Placement.places] at herase ⊢
          omega
  | unmapped event =>
      unfold size place pushUnmapped
      rw [List.length_append, List.length_singleton, Placement.places, Nat.add_assoc]
  | nowhere => rfl

theorem group_foldl_place (ps : List Placement) (g : OrderGroups) (m : String) :
    (ps.foldl place g).group m = g.group m ++ ps.filterMap (Placement.inGroup m) := by
  induction ps generalizing g with
  | nil => simp
  | cons p ps ih =>
      rw [List.foldl_cons, ih, group_place, List.append_assoc, List.filterMap_cons]
      cases p.inGroup m <;> rfl

theorem mem_markets_foldl_place (ps : List Placement) (g : OrderGroups) (m : String) :
    m ∈ (ps.foldl place g).markets ↔ m ∈ g.markets ∨ ∃ p ∈ ps, (p.inGroup m).isSome := by
  induction ps generalizing g with
  | nil => simp
  | cons p ps ih =>
      rw [List.foldl_cons, ih, mem_markets_place, List.exists_mem_cons_iff, or_assoc]

theorem unmapped_foldl_place (ps : List Placement) (g : OrderGroups) :
    (ps.foldl place g).unmapped = g.unmapped ++ ps.filterMap Placement.inUnmapped := by
  induction ps generalizing g with
  | nil => simp
  | cons p ps ih =>
      rw [List.foldl_cons, ih, unmapped_place, List.append_assoc, List.filterMap_cons]
      cases p.inUnmapped <;> rfl

theorem size_foldl_place (ps : List Placement) (g : OrderGroups) :
    (ps.foldl place g).size = g.size + (ps.map Placement.places).sum := by
  induction ps generalizing g with
  | nil => simp
  | cons p ps ih =>
      rw [List.foldl_cons, ih, size_place, List.map_cons, List.sum_cons, Nat.add_assoc]

end OrderGroups

/-! ## The lookup -/

theorem exists_splitOnchainOrderId {key chainOrderId : String}
    (h : Text.endsWith key (":" ++ chainOrderId) = true) :
    ∃ spotMarket rest, splitOnchainOrderId key = some (spotMarket, rest) := by
  apply Text.exists_rsplitOnce
  have hsuffix := List.isSuffixOf_iff_suffix.mp h
  exact hsuffix.mem (by simp)

/-- What is looked up depends on the keys that an order is live under. -/
theorem lookupSpotMarketForChainOrder_eq (idx : OrderIndex) (chainOrderId : String) :
    idx.lookupSpotMarketForChainOrder chainOrderId =
      match (idx.ordersById.keys.filter fun key =>
          Text.endsWith key (":" ++ chainOrderId)).filterMap fun key =>
            (splitOnchainOrderId key).map Prod.fst with
      | [spot] => some spot
      | _ => none := by
  rw [List.filterMap_filter]
  unfold OrderIndex.lookupSpotMarketForChainOrder
  rfl

theorem finds_lookup (idx : OrderIndex) :
    FindsOnlyLive idx idx.lookupSpotMarketForChainOrder := by
  have hlookup : ∀ chainOrderId, (∀ spotMarket,
      idx.lookupSpotMarketForChainOrder chainOrderId = some spotMarket ↔
        ∃ key rest, (∀ k, LiveUnder idx chainOrderId k ↔ k = key) ∧
          splitOnchainOrderId key = some (spotMarket, rest)) ∧
      (idx.lookupSpotMarketForChainOrder chainOrderId = none ↔
        ¬∃ key, ∀ k, LiveUnder idx chainOrderId k ↔ k = key) := by
    intro chainOrderId
    have hmem : ∀ key, LiveUnder idx chainOrderId key ↔
        key ∈ idx.ordersById.keys.filter fun key => Text.endsWith key (":" ++ chainOrderId) := by
      intro key
      rw [List.mem_filter, ← AList.mem_keys]
      rfl
    have hsplit : ∀ key, LiveUnder idx chainOrderId key →
        ∃ spotMarket rest, splitOnchainOrderId key = some (spotMarket, rest) :=
      fun key hkey => exists_splitOnchainOrderId hkey.2
    have hnodup : (idx.ordersById.keys.filter fun key =>
        Text.endsWith key (":" ++ chainOrderId)).Nodup := idx.ordersById.keys_nodup.filter _
    rw [lookupSpotMarketForChainOrder_eq]
    generalize (idx.ordersById.keys.filter fun key =>
      Text.endsWith key (":" ++ chainOrderId)) = live at hmem hnodup ⊢
    match live with
    | [] =>
        -- no order is live under the id
        have hnone : ¬∃ key, ∀ k, LiveUnder idx chainOrderId k ↔ k = key := by
          rintro ⟨key, honly⟩
          exact absurd ((hmem key).mp ((honly key).mpr rfl)) List.not_mem_nil
        refine ⟨fun spotMarket => ⟨fun h => (nomatch h), ?_⟩, iff_of_true rfl hnone⟩
        rintro ⟨key, rest, honly, -⟩
        exact absurd ⟨key, honly⟩ hnone
    | [key] =>
        have honly : ∀ k, LiveUnder idx chainOrderId k ↔ k = key :=
          fun k => (hmem k).trans List.mem_singleton
        obtain ⟨spot, rest, hkey⟩ := hsplit key ((honly key).mpr rfl)
        simp only [List.filterMap_cons, hkey, Option.map_some, List.filterMap_nil]
        refine ⟨fun spotMarket => ?_, iff_of_false (fun h => (nomatch h)) fun h => h ⟨key, honly⟩⟩
        constructor
        · intro hspot
          exact ⟨key, rest, honly, by rw [hkey, Option.some.inj hspot]⟩
        · rintro ⟨key', rest', honly', hkey'⟩
          rw [← (honly' key).mp ((honly key).mpr rfl), hkey] at hkey'
          exact congrArg (fun pair => pair.map Prod.fst) hkey'
    | first :: second :: later =>
        -- two keys end with the id
        have hnone : ¬∃ key, ∀ k, LiveUnder idx chainOrderId k ↔ k = key := by
          rintro ⟨key, honly⟩
          have hfirst := (honly first).mp ((hmem first).mpr (by simp))
          have hsecond := (honly second).mp ((hmem second).mpr (by simp))
          rw [hfirst, hsecond] at hnodup
          simp at hnodup
        obtain ⟨spot, rest, hspot⟩ := hsplit first ((hmem first).mpr (by simp))
        obtain ⟨spot', rest', hspot'⟩ := hsplit second ((hmem second).mpr (by simp))
        simp only [List.filterMap_cons, hspot, hspot', Option.map_some]
        refine ⟨fun spotMarket => ⟨fun h => (nomatch h), ?_⟩, iff_of_true trivial hnone⟩
        rintro ⟨key, rest, honly, -⟩
        exact absurd ⟨key, honly⟩ hnone
  exact ⟨fun chainOrderId => (hlookup chainOrderId).1, fun chainOrderId => (hlookup chainOrderId).2⟩

/-- `prepare_block` partitions the order events of a block, whatever the index it looks
orders up in. -/
theorem prepareBlock_partitioned (sdk : Sdk) (s : IndexState) (block : ReceiptBlock) :
    Partitioned sdk s.orders block (prepareBlock sdk s block)
      s.orders.lookupSpotMarketForChainOrder where
  finds := finds_lookup s.orders
  group := by
    intro m
    change (block.okEvents.foldl (OrderGroups.add sdk s.orders) {}).group m = _
    rw [OrderGroups.foldl_add_eq, OrderGroups.group_foldl_place, List.filterMap_map]
    rfl
  markets := by
    intro m
    change m ∈ (block.okEvents.foldl (OrderGroups.add sdk s.orders) {}).markets ↔ _
    rw [OrderGroups.foldl_add_eq, OrderGroups.mem_markets_foldl_place]
    simp
  unmapped := by
    change (block.okEvents.foldl (OrderGroups.add sdk s.orders) {}).unmapped = _
    rw [OrderGroups.foldl_add_eq, OrderGroups.unmapped_foldl_place, List.filterMap_map]
    rfl
  count := by
    change (block.okEvents.foldl (OrderGroups.add sdk s.orders) {}).size = _
    rw [OrderGroups.foldl_add_eq, OrderGroups.size_foldl_place, List.map_map]
    exact Nat.zero_add _

end ClobIndexer
