import ClobIndexer.HexSdk
import ClobIndexer.Indexer.Coherence
import ClobIndexer.Indexer.OrderIndexes
import ClobIndexer.Lib.Runs
/-!
# The market of a hot order

An order carries the id of its market from the moment it is indexed.  An event
contract that arrives later takes the addresses of its legs over and drops the spot
markets registered there, but leaves the orders that are booked under them.  Every
other event keeps the orders with the market that their address is bound to.
-/

namespace ClobIndexer

open Lib

variable {env : Env} {names : Set String}

/-- Every hot order is booked under a known market, the one its address is bound to. -/
def IndexState.Anchored (sdk : Sdk) (s : IndexState) : Prop :=
  ∀ id stored, s.orders.orders.lookup id = some stored →
    stored.order.marketId ∈ s.registry.markets ∧
      (s.registry.lookupSpotMarket sdk stored.spotMarket).map Prod.fst = some stored.order.marketId

/-- The event contract has no hot order on its legs that is booked under another market. -/
def EventContractCreatedEvent.Spares (sdk : Sdk) (created : EventContractCreatedEvent)
    (idx : OrderIndex) : Prop :=
  ∀ id stored, idx.orders.lookup id = some stored →
    (normalizeSpotMarketKey sdk stored.spotMarket =
        normalizeSpotMarketKey sdk created.yesSpotMarket ∨
      normalizeSpotMarketKey sdk stored.spotMarket =
        normalizeSpotMarketKey sdk created.noSpotMarket) →
      stored.order.marketId = marketUuid sdk created.marketAddress

namespace Registry

variable {sdk : Sdk} {r : Registry}

variable (sdk r) in
def Bindable (spotMarket : String) : Prop :=
  normalizeSpotMarketKey sdk spotMarket ≠ "" ∨ normalizeSpotMarketKey sdk spotMarket ∈ r.spotToMarket

theorem lookup_resolveSpotMarket_self (lawful : LawfulSdk sdk) (h : r.Coherent sdk names)
    {spotMarket : String} (hplain : r.Bindable sdk spotMarket) :
    let resolved := r.resolveSpotMarket sdk spotMarket
    resolved.1.lookupSpotMarket sdk spotMarket = some resolved.2 ∧
      resolved.2.1 ∈ resolved.1.markets := by
  intro resolved
  have hnormal := normalize_normalize lawful spotMarket
  cases hlookup : r.lookupSpotMarket sdk spotMarket with
  | some mapped =>
      have hresolved : resolved = (r, mapped) := by
        simp only [resolved, resolveSpotMarket, hlookup]
      obtain ⟨ref, href, rfl⟩ := Option.map_eq_some_iff.mp hlookup
      rw [hresolved]
      exact ⟨hlookup, h.bound _ ref href⟩
  | none =>
      have hunbound : r.spotToMarket.lookup (normalizeSpotMarketKey sdk spotMarket) = none :=
        Option.map_eq_none_iff.mp hlookup
      have hname : r.standaloneName (normalizeSpotMarketKey sdk spotMarket) =
          normalizeSpotMarketKey sdk spotMarket := standaloneName_of_unbound h.named hunbound
      have hplain : normalizeSpotMarketKey sdk spotMarket ≠ "" :=
        hplain.resolve_right (AList.lookup_eq_none.mp hunbound)
      have hregister := registerNamedSpotMarket_of_unbound lawful hplain hunbound
      have hself : (r.withShell sdk (normalizeSpotMarketKey sdk spotMarket)
          (normalizeSpotMarketKey sdk spotMarket) "").lookupSpotMarket sdk
            (normalizeSpotMarketKey sdk spotMarket) =
          some (marketUuid sdk (normalizeSpotMarketKey sdk spotMarket), "spot") := by
        unfold lookupSpotMarket
        rw [hnormal, lookup_spotToMarket_withShell, hunbound, Option.none_or, if_pos rfl]
        rfl
      have hensured := hlookup
      rw [← lookupSpotMarket_normalize lawful] at hensured
      have hresolved : resolved = (r.withShell sdk (normalizeSpotMarketKey sdk spotMarket)
          (normalizeSpotMarketKey sdk spotMarket) "",
          (marketUuid sdk (normalizeSpotMarketKey sdk spotMarket), "spot")) := by
        simp only [resolved, resolveSpotMarket, hlookup, ensureStandaloneSpotMarket, hensured,
          hname, hregister, hself, Option.getD_some]
      rw [hresolved]
      refine ⟨?_, mem_markets_withShell.mpr (.inr rfl)⟩
      rw [← lookupSpotMarket_normalize lawful]
      exact hself

/-- The empty address stays unbound. -/
theorem resolveSpotMarket_of_not_bindable (lawful : LawfulSdk sdk) {spotMarket : String}
    (h : ¬r.Bindable sdk spotMarket) :
    (r.resolveSpotMarket sdk spotMarket).1.lookupSpotMarket sdk spotMarket = none := by
  obtain ⟨hempty, hunbound⟩ := not_or.mp h
  rw [not_not] at hempty
  have hnone : r.lookupSpotMarket sdk spotMarket = none := by
    unfold lookupSpotMarket
    rw [AList.lookup_eq_none.mpr hunbound]
    rfl
  rcases resolveSpotMarket_cases sdk spotMarket r with heq | ⟨name, heq⟩
  · rw [heq]
    exact hnone
  · have hnormal := normalize_normalize lawful spotMarket
    rcases registerNamedSpotMarket_cases sdk name (normalizeSpotMarketKey sdk spotMarket) "" r with
      ⟨-, hsame⟩ | ⟨hbound, -⟩ | ⟨hplain, -, -⟩
    · rw [heq, hsame]
      exact hnone
    · rw [hnormal] at hbound
      exact absurd hbound hunbound
    · rw [hnormal, hempty] at hplain
      exact absurd (.inr rfl) hplain

end Registry

/-! ## Order events -/

namespace OrderTx

variable {sdk : Sdk} {t : OrderTx}

theorem placed_touch {change : StoredOrder → StoredOrder} (hkeeps : Keeps change)
    (hmarket : ∀ stored, (change stored).order.marketId = stored.order.marketId) (tsMs : UInt64)
    (spotMarket chainOrderId : String) {id : Uuid} {stored : StoredOrder}
    (hstored : (t.touch sdk tsMs spotMarket chainOrderId change).idx.orders.lookup id =
      some stored) :
    ∃ old, t.idx.orders.lookup id = some old ∧ stored.spotMarket = old.spotMarket ∧
      stored.order.marketId = old.order.marketId := by
  unfold touch at hstored
  cases hfind : t.idx.find sdk spotMarket chainOrderId with
  | none =>
      rw [hfind] at hstored
      exact ⟨stored, hstored, rfl, rfl⟩
  | some found =>
      rw [hfind] at hstored
      unfold settle at hstored
      dsimp only at hstored
      split_ifs at hstored
      · change AList.lookup id (t.idx.orders.insert found.1 (change found.2)) = _ at hstored
        rw [Dict.lookup_insert_ite] at hstored
        split_ifs at hstored with hid
        · cases hstored
          refine ⟨found.2, ?_, hkeeps.spotMarket found.2, hmarket found.2⟩
          rw [hid]
          exact OrderIndex.lookup_of_find hfind
        · exact ⟨stored, hstored, rfl, rfl⟩
      · change AList.lookup id (t.idx.orders.erase found.1) = _ at hstored
        rw [Dict.lookup_erase_ite] at hstored
        split_ifs at hstored
        exact ⟨stored, hstored, rfl, rfl⟩

theorem placed_insertOrder (tsMs : UInt64) (order : Order)
    (userAddress spotMarket chainOrderId : String) (sizeRaw filledRaw : UInt64) {id : Uuid}
    {stored : StoredOrder}
    (hstored : (t.insertOrder sdk tsMs order userAddress spotMarket chainOrderId sizeRaw
      filledRaw).idx.orders.lookup id = some stored) :
    t.idx.orders.lookup id = some stored ∨
      stored.spotMarket = normalizeSpotMarketKey sdk spotMarket ∧
        stored.order.marketId = order.marketId := by
  unfold insertOrder at hstored
  dsimp only at hstored
  split_ifs at hstored
  · rw [Dict.lookup_insert_ite] at hstored
    split_ifs at hstored
    · cases hstored
      exact .inr ⟨rfl, rfl⟩
    · exact .inl hstored
  · exact .inl hstored

end OrderTx

def MarketOrderEvent.Places (sdk : Sdk) (idx : OrderIndex) (spotMarket : String) :
    MarketOrderEvent → Prop
  | .created e => idx.hasChainOrder sdk spotMarket e.orderId = false
  | _ => False

namespace Ctx

theorem registry_applyOrderCreatedToBook (c : Ctx) (opts : ProcessOpts) (blockNum : UInt64)
    (spotMarket : String) (e : OrderCreatedEvent) :
    ((c.ensureChainHydrated env spotMarket).applyOrderCreatedToBook env blockNum e spotMarket
      opts.publishWs).store.registry = c.store.registry := by
  have hreg : ((c.ensureChainHydrated env spotMarket).applyOrderCreatedToBook env blockNum e
      spotMarket opts.publishWs).regTx = c.regTx := by
    rw [regTx_applyOrderCreatedToBook, regTx_ensureChainHydrated]
  exact congrArg RegistryTx.reg hreg

/-- A hot order after an order event was one before, at the same address and under the
same market, or it is new and under the market found for it. -/
theorem placed_applyMarketOrderEvent (c : Ctx) (opts : ProcessOpts) (blockNum : UInt64)
    (spotMarket : String) (e : MarketOrderEvent) {id : Uuid} {stored : StoredOrder}
    (hstored : (c.applyMarketOrderEvent env opts blockNum spotMarket e).store.orders.orders.lookup
      id = some stored) :
    (∃ old, c.store.orders.orders.lookup id = some old ∧ stored.spotMarket = old.spotMarket ∧
        stored.order.marketId = old.order.marketId) ∨
      let resolved := c.store.registry.resolveSpotMarket env.sdk spotMarket
      e.Places env.sdk c.store.orders spotMarket ∧
        (c.applyMarketOrderEvent env opts blockNum spotMarket e).store.registry = resolved.1 ∧
        stored.spotMarket = normalizeSpotMarketKey env.sdk spotMarket ∧
        stored.order.marketId = resolved.2.1 := by
  have horders := orders_applyMarketOrderEvent env c opts blockNum spotMarket e
  have htouched : ∀ {chainOrderId : String} {change : StoredOrder → StoredOrder},
      OrderTx.Keeps change →
      (∀ stored, (change stored).order.marketId = stored.order.marketId) →
      (∃ (t : OrderTx) (tsMs : UInt64), t.idx = c.store.orders ∧
        (c.applyMarketOrderEvent env opts blockNum spotMarket e).store.orders =
          (t.touch env.sdk tsMs spotMarket chainOrderId change).idx) →
      ∃ old, c.store.orders.orders.lookup id = some old ∧ stored.spotMarket = old.spotMarket ∧
        stored.order.marketId = old.order.marketId := by
    rintro chainOrderId change hkeeps hmarket ⟨t, tsMs, ht, heq⟩
    rw [heq] at hstored
    rw [← ht]
    exact OrderTx.placed_touch hkeeps hmarket tsMs spotMarket chainOrderId hstored
  cases e with
  | created e =>
      change (c.handleCreated env opts blockNum spotMarket e).store.orders.orders.lookup id =
        some stored at hstored
      by_cases hdup : c.store.orders.hasChainOrder env.sdk spotMarket e.orderId = true
      · rw [handleCreated, if_pos hdup] at hstored
        exact .inl ⟨stored, hstored, rfl, rfl⟩
      · rw [Bool.not_eq_true] at hdup
        let loaded := (c.ensureChainHydrated env spotMarket).applyOrderCreatedToBook env blockNum e
          spotMarket opts.publishWs
        have hregistry : loaded.store.registry = c.store.registry :=
          registry_applyOrderCreatedToBook c opts blockNum spotMarket e
        have hloaded : loaded.store.orders = c.store.orders :=
          (orders_applyOrderCreatedToBook _ _ _ _ _).trans (orders_ensureChainHydrated c spotMarket)
        have hstore := store_handleCreated c opts blockNum spotMarket e hdup
        rw [hstore] at hstored
        change _ ∨ _ ∧ (c.handleCreated env opts blockNum spotMarket e).store.registry = _ ∧ _
        rw [hstore]
        rcases OrderTx.placed_insertOrder _ _ _ _ _ _ _ hstored with hold | ⟨hspot, hmarket⟩
        · left
          rw [← hloaded]
          exact ⟨stored, hold, rfl, rfl⟩
        · right
          rw [← hregistry]
          exact ⟨hdup, rfl, hspot, hmarket⟩
  | cancelled e => exact .inl (htouched OrderTx.keeps_cancelled (fun _ => rfl) horders)
  | updated e => exact .inl (htouched (OrderTx.keeps_resized _ _) (fun _ => rfl) horders)
  | filled e txSender =>
      exact .inl (htouched (OrderTx.keeps_afterFill _ _ _) (fun _ => rfl) horders)
  | executed e =>
      dsimp only at horders
      rw [horders] at hstored
      exact .inl ⟨stored, hstored, rfl, rfl⟩

theorem placed_of_places (c : Ctx) (opts : ProcessOpts) (blockNum : UInt64)
    (spotMarket : String) (e : MarketOrderEvent) (h : e.Places env.sdk c.store.orders spotMarket) :
    ∃ id stored,
      (c.applyMarketOrderEvent env opts blockNum spotMarket e).store.orders.orders.lookup id =
        some stored ∧
      stored.spotMarket = normalizeSpotMarketKey env.sdk spotMarket ∧
      (c.applyMarketOrderEvent env opts blockNum spotMarket e).store.registry =
        (c.store.registry.resolveSpotMarket env.sdk spotMarket).1 := by
  cases e with
  | created e =>
      let loaded := (c.ensureChainHydrated env spotMarket).applyOrderCreatedToBook env blockNum e
        spotMarket opts.publishWs
      have hregistry : loaded.store.registry = c.store.registry :=
        registry_applyOrderCreatedToBook c opts blockNum spotMarket e
      have hstore : (c.applyMarketOrderEvent env opts blockNum spotMarket (.created e)).store =
          (loaded.indexOrderCreated env e spotMarket none).store :=
        store_handleCreated c opts blockNum spotMarket e h
      rw [hstore, ← hregistry]
      refine ⟨orderUuid env.sdk spotMarket e.orderId, _, AList.lookup_insert _, rfl, rfl⟩
  | cancelled e => exact h.elim
  | updated e => exact h.elim
  | filled e txSender => exact h.elim
  | executed e => exact h.elim

end Ctx

/-! ## Events in any order -/

def Registry.Extends (r r' : Registry) : Prop :=
  (∀ spot ref, r.spotToMarket.lookup spot = some ref → r'.spotToMarket.lookup spot = some ref) ∧
    ∀ id ∈ r.markets, id ∈ r'.markets

namespace Registry

variable {sdk : Sdk} {r : Registry}

theorem extends_registerNamedSpotMarket (name spotMarket deployer : String) :
    r.Extends (r.registerNamedSpotMarket sdk name spotMarket deployer) := by
  rcases registerNamedSpotMarket_cases sdk name spotMarket deployer r with
    ⟨-, heq⟩ | ⟨-, heq⟩ | ⟨-, -, heq⟩
  · rw [heq]
    exact ⟨fun _ _ h => h, fun _ h => h⟩
  · rw [heq]
    exact ⟨fun _ _ h => h, fun _ h => h⟩
  · rw [heq]
    constructor
    · intro spot ref hlookup
      rw [lookup_spotToMarket_withShell, hlookup, Option.some_or]
    · exact fun id hid => mem_markets_withShell.mpr (.inl hid)

theorem extends_resolveSpotMarket (spotMarket : String) :
    r.Extends (r.resolveSpotMarket sdk spotMarket).1 := by
  rcases resolveSpotMarket_cases sdk spotMarket r with heq | ⟨name, heq⟩
  · rw [heq]
    exact ⟨fun _ _ h => h, fun _ h => h⟩
  · rw [heq]
    exact extends_registerNamedSpotMarket _ _ _

end Registry

namespace IndexState

variable {sdk : Sdk} {s s' : IndexState}

theorem Anchored.extend {spotMarket : String} {id : Uuid} {r r' : Registry} (h : r.Extends r')
    (hid : id ∈ r.markets)
    (hspot : (r.lookupSpotMarket sdk spotMarket).map Prod.fst = some id) :
    id ∈ r'.markets ∧ (r'.lookupSpotMarket sdk spotMarket).map Prod.fst = some id := by
  refine ⟨h.2 id hid, ?_⟩
  obtain ⟨mapped, hmapped, rfl⟩ := Option.map_eq_some_iff.mp hspot
  obtain ⟨ref, href, rfl⟩ := Option.map_eq_some_iff.mp hmapped
  unfold Registry.lookupSpotMarket
  rw [h.1 _ ref href]
  rfl

theorem Anchored.of_extends (h : s.Anchored sdk) (horders : s'.orders = s.orders)
    (hregistry : s.registry.Extends s'.registry) : s'.Anchored sdk := by
  intro id stored hstored
  rw [horders] at hstored
  obtain ⟨hmarket, hspot⟩ := h id stored hstored
  exact Anchored.extend hregistry hmarket hspot

/-- An event contract leaves the orders anchored exactly when it spares them. -/
theorem anchored_claims_iff {e : EventMarket} (h : s.Anchored sdk)
    (hr : s.registry.Coherent sdk names) (hinj : Set.InjOn sdk.uuidV5 names)
    (hyes : e.yesSpotMarket ∈ names) (hno : e.noSpotMarket ∈ names)
    (horders : s'.orders = s.orders) (hclaims : Registry.Claims sdk e s.registry s'.registry) :
    s'.Anchored sdk ↔ ∀ id stored, s.orders.orders.lookup id = some stored →
      (normalizeSpotMarketKey sdk stored.spotMarket = e.yesSpotMarket ∨
        normalizeSpotMarketKey sdk stored.spotMarket = e.noSpotMarket) →
        stored.order.marketId = e.id := by
  have hcoherent := hclaims.coherent hinj hr hyes hno
  -- what a leg is bound to afterwards
  have hleg : ∀ {spotMarket}, normalizeSpotMarketKey sdk spotMarket = e.yesSpotMarket ∨
      normalizeSpotMarketKey sdk spotMarket = e.noSpotMarket →
      ∃ outcome, s'.registry.spotToMarket.lookup (normalizeSpotMarketKey sdk spotMarket) =
        some ⟨e.id, outcome⟩ := by
    intro spotMarket hleg
    rw [hclaims.bindings]
    split_ifs with hspotNo hspotYes
    · exact ⟨_, rfl⟩
    · exact ⟨_, rfl⟩
    · exact absurd hleg (not_or.mpr ⟨hspotYes, hspotNo⟩)
  constructor
  · intro hafter id stored hstored hon
    obtain ⟨outcome, hbound⟩ := hleg hon
    have hspot := (hafter id stored (horders ▸ hstored)).2
    unfold Registry.lookupSpotMarket at hspot
    rw [hbound] at hspot
    exact (Option.some.inj hspot).symm
  · intro hspares id stored hstored
    rw [horders] at hstored
    obtain ⟨hmarket, hspot⟩ := h id stored hstored
    by_cases hon : normalizeSpotMarketKey sdk stored.spotMarket = e.yesSpotMarket ∨
        normalizeSpotMarketKey sdk stored.spotMarket = e.noSpotMarket
    · obtain ⟨outcome, hbound⟩ := hleg hon
      rw [hspares id stored hstored hon]
      refine ⟨hcoherent.bound _ _ hbound, ?_⟩
      unfold Registry.lookupSpotMarket
      rw [hbound]
      rfl
    · obtain ⟨mapped, hmapped, hfst⟩ := Option.map_eq_some_iff.mp hspot
      obtain ⟨ref, href, rfl⟩ := Option.map_eq_some_iff.mp hmapped
      rw [not_or] at hon
      have hbound : s'.registry.spotToMarket.lookup
          (normalizeSpotMarketKey sdk stored.spotMarket) = some ref := by
        rw [hclaims.bindings, if_neg hon.2, if_neg hon.1, href]
      rw [← hfst]
      refine ⟨hcoherent.bound _ _ hbound, ?_⟩
      unfold Registry.lookupSpotMarket
      rw [hbound]
      rfl

end IndexState

namespace ChainEvent

variable (sdk : Sdk)

/-- The event leaves the hot orders where they are, and places one at an address only. -/
def Spares (c : Ctx) : ChainEvent → Prop
  | global (.eventContractCreated created) => created.Spares sdk c.store.orders
  | global _ => True
  | order _ _ spotMarket e =>
      e.Places sdk c.store.orders spotMarket → c.store.registry.Bindable sdk spotMarket

end ChainEvent

namespace Ctx

open IndexState

theorem anchored_apply_iff (lawful : LawfulSdk env.sdk) (hinj : Set.InjOn env.sdk.uuidV5 names)
    (c : Ctx) (e : ChainEvent) (hspots : e.spots env.sdk ⊆ names) (hr : c.store.registry.Coherent env.sdk names)
    (h : c.store.Anchored env.sdk) :
    (e.apply env c).store.Anchored env.sdk ↔ e.Spares env.sdk c := by
  cases e with
  | order opts blockNum spotMarket e =>
      refine ⟨fun hafter hplaces => ?_, fun hspares => ?_⟩
      · obtain ⟨id, stored, hstored, hspot, hregistry⟩ :=
          c.placed_of_places opts blockNum spotMarket e hplaces
        by_contra hempty
        have hbound := (hafter id stored hstored).2
        change ((c.applyMarketOrderEvent env opts blockNum spotMarket
          e).store.registry.lookupSpotMarket env.sdk stored.spotMarket).map Prod.fst = _ at hbound
        rw [hregistry, hspot, Registry.lookupSpotMarket_normalize lawful,
          Registry.resolveSpotMarket_of_not_bindable lawful hempty] at hbound
        cases hbound
      have hextends : c.store.registry.Extends
          (c.applyMarketOrderEvent env opts blockNum spotMarket e).store.registry := by
        rcases c.registry_applyMarketOrderEvent env opts blockNum spotMarket e with heq | heq
        · rw [heq]
          exact ⟨fun _ _ h => h, fun _ h => h⟩
        · rw [heq]
          exact Registry.extends_resolveSpotMarket spotMarket
      intro id stored hstored
      rcases c.placed_applyMarketOrderEvent opts blockNum spotMarket e hstored with
        ⟨old, hold, hspot, hmarket⟩ | ⟨hplaces, hregistry, hspot, hmarket⟩
      · obtain ⟨hknown, hbound⟩ := h id old hold
        rw [hspot, hmarket]
        exact Anchored.extend hextends hknown hbound
      · obtain ⟨hself, hknown⟩ :=
          Registry.lookup_resolveSpotMarket_self lawful hr (hspares hplaces)
        change stored.order.marketId ∈ (c.applyMarketOrderEvent env opts blockNum spotMarket
          e).store.registry.markets ∧ ((c.applyMarketOrderEvent env opts blockNum spotMarket
          e).store.registry.lookupSpotMarket env.sdk stored.spotMarket).map Prod.fst = _
        rw [hregistry, hspot, hmarket, Registry.lookupSpotMarket_normalize lawful, hself]
        exact ⟨hknown, rfl⟩
  | global e =>
      have horders : (c.applyGlobalEvent env e).store.orders = c.store.orders :=
        c.orders_applyGlobalEvent e
      have hregistry := c.registry_applyGlobalEvent env e
      have hsame : (c.applyGlobalEvent env e).store.registry = c.store.registry →
          (c.applyGlobalEvent env e).store.Anchored env.sdk := by
        intro heq
        apply h.of_extends horders
        rw [heq]
        exact ⟨fun _ _ h => h, fun _ h => h⟩
      cases e with
      | eventContractCreated created =>
          obtain ⟨e', hid, hyes, hno, hclaims⟩ := c.claims_upsertMarket env created
          dsimp only at hregistry
          rw [← hregistry] at hclaims
          have hiff := anchored_claims_iff h hr hinj (hyes ▸ hspots (.inl rfl))
            (hno ▸ hspots (.inr rfl)) horders hclaims
          rw [hid, hyes, hno] at hiff
          exact hiff
      | marketCreated created =>
          refine iff_of_true (h.of_extends horders ?_) trivial
          change c.store.registry.Extends (c.applyGlobalEvent env _).store.registry
          rw [hregistry]
          exact Registry.extends_registerNamedSpotMarket _ _ _
      | eventContractResolved marketAddress =>
          refine iff_of_true (h.of_extends horders ?_) trivial
          change c.store.registry.Extends (c.applyGlobalEvent env _).store.registry
          rw [hregistry]
          exact ⟨fun _ _ h => h, fun _ h => Dict.mem_mapVal.mpr h⟩
      | vaultCreated created => exact iff_of_true (hsame hregistry) trivial
      | vaultDeposited vault equity => exact iff_of_true (hsame hregistry) trivial
      | vaultWithdrawn vault equity => exact iff_of_true (hsame hregistry) trivial
      | vaultManagerUpdated vault newManager => exact iff_of_true (hsame hregistry) trivial
      | vaultDepositPermissionUpdated vault allowDeposit =>
          exact iff_of_true (hsame hregistry) trivial
      | vaultClosed vault => exact iff_of_true (hsame hregistry) trivial
      | secondary e => exact iff_of_true (hsame hregistry) trivial

/-- In every run from an empty index, the hot orders are anchored in every state exactly
when each event contract spares the orders that it finds. -/
theorem anchored_throughout_iff (lawful : LawfulSdk env.sdk) (c : Ctx)
    (horders : c.store.orders = {}) (hregistry : c.store.registry = {}) (events : List ChainEvent)
    (hinj : Set.InjOn env.sdk.uuidV5 {spot | ∃ e ∈ events, spot ∈ e.spots env.sdk}) :
    Throughout (ChainEvent.apply env) (fun c => c.store.Anchored env.sdk) events c ↔
      Along (ChainEvent.apply env) (fun c e => e.Spares env.sdk c) events c := by
  let names := {spot | ∃ e ∈ events, spot ∈ e.spots env.sdk}
  let ok := fun e : ChainEvent => e.spots env.sdk ⊆ names
  let coherent := fun c : Ctx => c.store.registry.Coherent env.sdk names
  have hkeeps : ∀ c e, ok e → coherent c → coherent (e.apply env c) :=
    fun c e he hc => c.coherent_apply lawful hinj hc he
  have hstep : ∀ c e, ok e → coherent c → c.store.Anchored env.sdk →
      ((e.apply env c).store.Anchored env.sdk ↔ e.Spares env.sdk c) :=
    fun c e he hc h => anchored_apply_iff lawful hinj c e he hc h
  have hok : ∀ e ∈ events, ok e :=
    fun e he spot hspot => ⟨e, he, hspot⟩
  have hcoherent : coherent c := by
    simp only [coherent, hregistry]
    exact Registry.coherent_empty
  have hanchored : c.store.Anchored env.sdk := by
    intro id stored hstored
    rw [horders] at hstored
    cases hstored
  exact throughout_iff_along hkeeps hstep hok hcoherent hanchored

end Ctx

namespace Sample

def takenOver : List ChainEvent :=
  [.order {} 7 market (.created ⟨"1", .buy, 10, account, market, .limit 500000, none⟩),
    .global (.eventContractCreated
      ⟨eventContract, "Rain?", "usd", "yes", "no", market, otherMarket, "Open", 0, account⟩)]

theorem injOn_takenOver :
    Set.InjOn setting.sdk.uuidV5 {spot | ∃ e ∈ takenOver, spot ∈ e.spots setting.sdk} := by
  have hsub : {spot | ∃ e ∈ takenOver, spot ∈ e.spots setting.sdk} ⊆ {market, otherMarket} := by
    rintro spot ⟨e, he, hspot⟩
    simp only [takenOver, List.mem_cons, List.not_mem_nil, or_false] at he
    rcases he with rfl | rfl
    · exact .inl (hspot.trans normalize_market)
    · rcases hspot with hyes | hno
      · exact .inl (hyes.trans normalize_market)
      · exact .inr (hno.trans normalize_otherMarket)
  apply Set.InjOn.mono hsub
  rintro a (rfl | rfl) b (rfl | rfl) heq
  · rfl
  · exact absurd heq (by decide)
  · exact absurd heq (by decide)
  · rfl

theorem anchored_takenOver_iff :
    Throughout (ChainEvent.apply setting) (fun c => c.store.Anchored setting.sdk) takenOver
        { store := {} } ↔
      Along (ChainEvent.apply setting) (fun c e => e.Spares setting.sdk c) takenOver
        { store := {} } :=
  Ctx.anchored_throughout_iff lawful { store := {} } rfl rfl takenOver injOn_takenOver

/-- The order stays booked under a market that is gone. -/
theorem takenOver_dangles :
    ¬Throughout (ChainEvent.apply setting) (fun c => c.store.Anchored setting.sdk) takenOver
      { store := {} } := by
  intro h
  have hdangling : ((takenOver.foldl (ChainEvent.apply setting) { store := {} }).store.orders.orders.lookup
      (orderUuid sdk market "1")).any fun stored =>
        (takenOver.foldl (ChainEvent.apply setting) { store := {} }).store.registry.markets.lookup
          stored.order.marketId = none := by
    decide +kernel
  rw [Option.any_eq_true] at hdangling
  obtain ⟨stored, hstored, hgone⟩ := hdangling
  rw [decide_eq_true_eq, AList.lookup_eq_none] at hgone
  exact hgone (h.finish _ stored hstored).1

end Sample

end ClobIndexer
