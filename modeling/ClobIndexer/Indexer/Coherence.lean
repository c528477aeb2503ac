import ClobIndexer.Indexer.MarketWrites
import Mathlib.Data.Set.Function
/-!
# Bindings and the markets they lead to

An address is bound to a market by its id, and the market may be dropped: an event
contract drops the spot markets registered at its legs and binds the legs to itself.
In a coherent registry every binding leads to a market, because a spot market is bound
at its own address alone.
-/

namespace ClobIndexer

open Lib

variable {sdk : Sdk} {names : Set String}

namespace Registry

/-- What the lookups of a registry have to do with each other. -/
structure Coherent (sdk : Sdk) (names : Set String) (r : Registry) : Prop where
  /-- a name leads to an address that is bound -/
  named : ∀ name spot, r.spotByName.lookup name = some spot → spot ∈ r.spotToMarket
  /-- an address is bound to a market -/
  bound : ∀ spot ref, r.spotToMarket.lookup spot = some ref → ref.marketId ∈ r.markets
  /-- and if to a spot market, then to its own -/
  shells : ∀ spot ref market, r.spotToMarket.lookup spot = some ref →
    r.markets.lookup ref.marketId = some market → market.category = .spot →
    ref.marketId = marketUuid sdk spot
  spots : ∀ spot ∈ r.spotToMarket, spot ∈ names

variable {r : Registry}

theorem coherent_empty : Coherent sdk names {} where
  named := fun _ _ h => nomatch h
  bound := fun _ _ h => nomatch h
  shells := fun _ _ _ h => nomatch h
  spots := fun spot h => absurd h (AList.notMem_empty spot)

/-! ## Spot markets -/

variable (sdk) in
def withShell (name m deployer : String) (r : Registry) : Registry :=
  { r with
    spotByName := r.spotByName.insert (Text.toAsciiUppercase (Text.trim name)) m
    spotToMarket :=
      if m ∈ r.spotToMarket then r.spotToMarket
      else r.spotToMarket.insert m ⟨marketUuid sdk m, "spot"⟩
    markets :=
      if marketUuid sdk m ∈ r.markets then r.markets
      else r.markets.insert (marketUuid sdk m) (spotShell sdk name m deployer) }

variable (sdk) in
theorem registerNamedSpotMarket_cases (name spotMarket deployer : String) (r : Registry) :
    let spot := normalizeSpotMarketKey sdk spotMarket
    let nameKey := Text.toAsciiUppercase (Text.trim name)
    (nameKey = "" ∨ spot = "") ∧ r.registerNamedSpotMarket sdk name spotMarket deployer = r ∨
      spot ∈ r.spotToMarket ∧ r.registerNamedSpotMarket sdk name spotMarket deployer =
        { r with spotByName := r.spotByName.insert nameKey spot } ∨
      ¬(nameKey = "" ∨ spot = "") ∧ r.boundToOther spot = false ∧
        r.registerNamedSpotMarket sdk name spotMarket deployer =
          r.withShell sdk name spot deployer := by
  intro spot nameKey
  have hother : ∀ spotByName, boundToOther { r with spotByName } spot = r.boundToOther spot :=
    fun _ => rfl
  unfold registerNamedSpotMarket
  dsimp only
  by_cases hempty : nameKey = "" ∨ spot = ""
  · rw [if_pos hempty]
    exact .inl ⟨hempty, rfl⟩
  · rw [if_neg hempty, hother]
    by_cases hbound : r.boundToOther spot = true
    · rw [if_pos hbound]
      refine .inr (.inl ⟨?_, rfl⟩)
      unfold boundToOther at hbound
      cases hlookup : r.spotToMarket.lookup spot with
      | none => simp [hlookup] at hbound
      | some ref => exact Dict.mem_iff_lookup.mpr ⟨ref, hlookup⟩
    · rw [if_neg hbound]
      rw [Bool.not_eq_true] at hbound
      exact .inr (.inr ⟨hempty, hbound, rfl⟩)

variable (sdk) in
theorem lookup_spotToMarket_withShell (name m deployer : String) (r : Registry) (spot : String) :
    (r.withShell sdk name m deployer).spotToMarket.lookup spot =
      (r.spotToMarket.lookup spot).or
        (if spot = m then some ⟨marketUuid sdk m, "spot"⟩ else none) :=
  Dict.lookup_orInsert _ _ _ _

variable (sdk) in
theorem lookup_markets_withShell (name m deployer : String) (r : Registry) (id : Uuid) :
    (r.withShell sdk name m deployer).markets.lookup id =
      (r.markets.lookup id).or
        (if id = marketUuid sdk m then some (spotShell sdk name m deployer) else none) :=
  Dict.lookup_orInsert _ _ _ _

theorem mem_spotToMarket_withShell {name m deployer spot : String} :
    spot ∈ (r.withShell sdk name m deployer).spotToMarket ↔ spot ∈ r.spotToMarket ∨ spot = m := by
  rw [← AList.lookup_isSome, lookup_spotToMarket_withShell, ← AList.lookup_isSome]
  cases r.spotToMarket.lookup spot with
  | some ref => simp
  | none => simp

theorem mem_markets_withShell {name m deployer : String} {id : Uuid} :
    id ∈ (r.withShell sdk name m deployer).markets ↔ id ∈ r.markets ∨ id = marketUuid sdk m := by
  rw [← AList.lookup_isSome, lookup_markets_withShell, ← AList.lookup_isSome]
  cases r.markets.lookup id with
  | some market => simp
  | none => simp

theorem coherent_withShell (h : Coherent sdk names r) {name m deployer : String}
    (hm : m ∈ names) : Coherent sdk names (r.withShell sdk name m deployer) where
  named := by
    intro name' spot hlookup
    change AList.lookup name' (r.spotByName.insert _ m) = some spot at hlookup
    rw [Dict.lookup_insert_ite] at hlookup
    rw [mem_spotToMarket_withShell]
    split_ifs at hlookup
    · cases hlookup
      exact .inr rfl
    · exact .inl (h.named name' spot hlookup)
  bound := by
    intro spot ref hlookup
    rw [lookup_spotToMarket_withShell, Option.or_eq_some_iff] at hlookup
    rw [mem_markets_withShell]
    rcases hlookup with hold | ⟨-, hnew⟩
    · exact .inl (h.bound spot ref hold)
    · split_ifs at hnew
      cases hnew
      exact .inr rfl
  shells := by
    intro spot ref market hlookup hmarket hcategory
    rw [lookup_spotToMarket_withShell, Option.or_eq_some_iff] at hlookup
    rcases hlookup with hold | ⟨-, hnew⟩
    · -- its market was there before
      obtain ⟨market', hmarket'⟩ := Dict.mem_iff_lookup.mp (h.bound spot ref hold)
      rw [lookup_markets_withShell, hmarket', Option.some_or] at hmarket
      cases hmarket
      exact h.shells spot ref market hold hmarket' hcategory
    · split_ifs at hnew with hspot
      cases hnew
      rw [hspot]
  spots := by
    intro spot hspot
    rw [mem_spotToMarket_withShell] at hspot
    rcases hspot with hold | hnew
    · exact h.spots spot hold
    · exact hnew ▸ hm

theorem coherent_registerNamedSpotMarket (h : Coherent sdk names r) (name deployer : String)
    {spotMarket : String} (hspot : normalizeSpotMarketKey sdk spotMarket ∈ names) :
    Coherent sdk names (r.registerNamedSpotMarket sdk name spotMarket deployer) := by
  rcases registerNamedSpotMarket_cases sdk name spotMarket deployer r with
    ⟨-, heq⟩ | ⟨hbound, heq⟩ | ⟨-, -, heq⟩
  · rw [heq]
    exact h
  · rw [heq]
    refine ⟨?_, h.bound, h.shells, h.spots⟩
    intro name' spot hlookup
    dsimp only at hlookup
    rw [Dict.lookup_insert_ite] at hlookup
    split_ifs at hlookup
    · cases hlookup
      exact hbound
    · exact h.named name' spot hlookup
  · rw [heq]
    exact coherent_withShell h hspot

variable (sdk) in
theorem resolveSpotMarket_cases (spotMarket : String) (r : Registry) :
    (r.resolveSpotMarket sdk spotMarket).1 = r ∨
      ∃ name, (r.resolveSpotMarket sdk spotMarket).1 =
        r.registerNamedSpotMarket sdk name (normalizeSpotMarketKey sdk spotMarket) "" := by
  unfold resolveSpotMarket
  cases r.lookupSpotMarket sdk spotMarket with
  | some mapped => exact .inl rfl
  | none =>
      dsimp only
      unfold ensureStandaloneSpotMarket
      generalize normalizeSpotMarketKey sdk spotMarket = spot
      dsimp only
      cases r.lookupSpotMarket sdk spot with
      | some mapped => exact .inl rfl
      | none =>
          right
          use r.standaloneName spot

theorem lookupSpotMarket_normalize (lawful : LawfulSdk sdk) (spotMarket : String) :
    r.lookupSpotMarket sdk (normalizeSpotMarketKey sdk spotMarket) =
      r.lookupSpotMarket sdk spotMarket := by
  unfold lookupSpotMarket
  rw [normalize_normalize lawful]

theorem standaloneName_of_unbound
    (hnamed : ∀ name spot, r.spotByName.lookup name = some spot → spot ∈ r.spotToMarket)
    {spot : String} (hunbound : r.spotToMarket.lookup spot = none) :
    r.standaloneName spot = spot := by
  have hnone : (r.spotByName.entries.find? fun e => e.2 = spot) = none := by
    rw [List.find?_eq_none]
    intro e he heq
    rw [decide_eq_true_eq] at heq
    have hbound := hnamed e.1 e.2 (Dict.mem_entries_iff.mp he)
    rw [heq] at hbound
    exact AList.lookup_eq_none.mp hunbound hbound
  unfold standaloneName
  rw [hnone]

theorem registerNamedSpotMarket_of_unbound (lawful : LawfulSdk sdk) {spotMarket : String}
    (hplain : normalizeSpotMarketKey sdk spotMarket ≠ "")
    (hunbound : r.spotToMarket.lookup (normalizeSpotMarketKey sdk spotMarket) = none) :
    let spot := normalizeSpotMarketKey sdk spotMarket
    r.registerNamedSpotMarket sdk spot spot "" = r.withShell sdk spot spot "" := by
  intro spot
  have hnormal : normalizeSpotMarketKey sdk spot = spot := normalize_normalize lawful spotMarket
  have htrim : Text.trim spot = spot := trim_normalize lawful spotMarket
  rcases registerNamedSpotMarket_cases sdk spot spot "" r with
    ⟨hempty, -⟩ | ⟨hbound, -⟩ | ⟨-, -, heq⟩
  · rw [htrim, hnormal, Text.toAsciiUppercase_eq_empty, or_self] at hempty
    exact absurd hempty hplain
  · rw [hnormal] at hbound
    exact absurd hbound (AList.lookup_eq_none.mp hunbound)
  · rw [heq, hnormal]

theorem coherent_resolveSpotMarket (lawful : LawfulSdk sdk) (h : Coherent sdk names r)
    {spotMarket : String} (hspot : normalizeSpotMarketKey sdk spotMarket ∈ names) :
    Coherent sdk names (r.resolveSpotMarket sdk spotMarket).1 := by
  rcases resolveSpotMarket_cases sdk spotMarket r with heq | ⟨name, heq⟩
  · rw [heq]
    exact h
  · rw [heq]
    apply coherent_registerNamedSpotMarket h
    rw [normalize_normalize lawful]
    exact hspot

/-! ## State changes and event contracts -/

theorem category_restate (marketAddress state : String) (market : Market) :
    (RegistryTx.restate marketAddress state market).category = market.category := by
  unfold RegistryTx.restate
  split_ifs
  · cases market <;> rfl
  · rfl

theorem coherent_updateMarketState {t : RegistryTx} (h : Coherent sdk names t.reg)
    (marketAddress state : String) :
    Coherent sdk names (t.updateMarketState marketAddress state).reg where
  named := h.named
  bound := fun spot ref hlookup => Dict.mem_mapVal.mpr (h.bound spot ref hlookup)
  shells := by
    intro spot ref market hlookup hmarket hcategory
    change (Dict.mapVal _ t.reg.markets).lookup ref.marketId = some market at hmarket
    rw [Dict.lookup_mapVal, Option.map_eq_some_iff] at hmarket
    obtain ⟨old, hold, rfl⟩ := hmarket
    rw [category_restate] at hcategory
    exact h.shells spot ref old hlookup hold hcategory
  spots := h.spots

structure Claims (sdk : Sdk) (e : EventMarket) (r r' : Registry) : Prop where
  spotByName : r'.spotByName = r.spotByName
  bindings : ∀ spot, r'.spotToMarket.lookup spot =
    if spot = e.noSpotMarket then some ⟨e.id, "no"⟩
    else if spot = e.yesSpotMarket then some ⟨e.id, "yes"⟩
    else r.spotToMarket.lookup spot
  /-- spot markets registered at its legs are dropped -/
  markets : ∀ id market, r'.markets.lookup id = some market ↔
    (if id = e.id then market = .event e else r.markets.lookup id = some market) ∧
      (market.category = .spot →
        id ≠ marketUuid sdk e.yesSpotMarket ∧ id ≠ marketUuid sdk e.noSpotMarket)

theorem lookup_removeOrphanSpotShell (t : RegistryTx) (spotMarket : String) (id : Uuid)
    (market : Market) :
    (t.removeOrphanSpotShell sdk spotMarket).reg.markets.lookup id = some market ↔
      t.reg.markets.lookup id = some market ∧
        (market.category = .spot → id ≠ marketUuid sdk spotMarket) := by
  unfold RegistryTx.removeOrphanSpotShell
  dsimp only
  cases horphan : t.reg.markets.lookup (marketUuid sdk spotMarket) with
  | none =>
      dsimp only
      have hne : t.reg.markets.lookup id = some market → id ≠ marketUuid sdk spotMarket := by
        rintro hlookup rfl
        rw [horphan] at hlookup
        cases hlookup
      tauto
  | some orphan =>
      dsimp only
      split_ifs with hcategory
      · have hsame : t.reg.markets.lookup id = some market → id = marketUuid sdk spotMarket →
            market.category ≠ .spot := by
          rintro hlookup rfl
          rw [horphan] at hlookup
          cases hlookup
          exact hcategory
        tauto
      · rw [not_not] at hcategory
        dsimp only
        rw [Dict.lookup_erase_ite]
        split_ifs with hid
        · subst hid
          rw [horphan]
          constructor
          · exact fun hfalse => nomatch hfalse
          · rintro ⟨hlookup, hne⟩
            cases hlookup
            exact absurd rfl (hne hcategory)
        · exact ⟨fun hlookup => ⟨hlookup, fun _ => hid⟩, And.left⟩

theorem claims_upserted (t : RegistryTx) {e e' : EventMarket}
    (he' : RegistryTx.upserted sdk t.reg (.event e) = .event e') :
    Claims sdk e' t.reg (t.upsertMarket sdk (.event e)).reg := by
  unfold RegistryTx.upsertMarket
  dsimp only
  rw [he']
  let put := t.putMarket (.event e')
  have hput : ∀ id market, put.reg.markets.lookup id = some market ↔
      if id = e'.id then market = .event e' else t.reg.markets.lookup id = some market := by
    intro id market
    change AList.lookup id (t.reg.markets.insert e'.id (.event e')) = some market ↔ _
    rw [Dict.lookup_insert_ite]
    split_ifs
    · rw [Option.some.injEq, eq_comm]
    · rfl
  have hnames : ∀ (t : RegistryTx) (spotMarket : String),
      (t.removeOrphanSpotShell sdk spotMarket).reg.spotByName = t.reg.spotByName ∧
        (t.removeOrphanSpotShell sdk spotMarket).reg.spotToMarket = t.reg.spotToMarket := by
    intro t spotMarket
    unfold RegistryTx.removeOrphanSpotShell
    dsimp only
    split
    · exact ⟨rfl, rfl⟩
    · split_ifs <;> exact ⟨rfl, rfl⟩
  let yes := put.bindLeg sdk e'.id e'.yesSpotMarket "yes"
  constructor
  · calc
      (yes.bindLeg sdk e'.id e'.noSpotMarket "no").reg.spotByName = yes.reg.spotByName :=
        (hnames yes e'.noSpotMarket).1
      _ = put.reg.spotByName := (hnames put e'.yesSpotMarket).1
      _ = t.reg.spotByName := rfl
  · intro spot
    have hyesBound : yes.reg.spotToMarket =
        t.reg.spotToMarket.insert e'.yesSpotMarket ⟨e'.id, "yes"⟩ := by
      change AList.insert _ _ (put.removeOrphanSpotShell sdk e'.yesSpotMarket).reg.spotToMarket = _
      rw [(hnames put e'.yesSpotMarket).2]
      rfl
    change AList.lookup spot (AList.insert e'.noSpotMarket ⟨e'.id, "no"⟩
      (yes.removeOrphanSpotShell sdk e'.noSpotMarket).reg.spotToMarket) = _
    rw [(hnames yes e'.noSpotMarket).2, hyesBound, Dict.lookup_insert_ite, Dict.lookup_insert_ite]
  · intro id market
    calc
      (yes.bindLeg sdk e'.id e'.noSpotMarket "no").reg.markets.lookup id = some market ↔
          yes.reg.markets.lookup id = some market ∧
            (market.category = .spot → id ≠ marketUuid sdk e'.noSpotMarket) :=
        lookup_removeOrphanSpotShell yes e'.noSpotMarket id market
      _ ↔ (put.reg.markets.lookup id = some market ∧
            (market.category = .spot → id ≠ marketUuid sdk e'.yesSpotMarket)) ∧
            (market.category = .spot → id ≠ marketUuid sdk e'.noSpotMarket) := by
        rw [show yes.reg.markets.lookup id = some market ↔ _ from
          lookup_removeOrphanSpotShell put e'.yesSpotMarket id market]
      _ ↔ _ := by
        rw [hput]
        tauto

variable (sdk) in
theorem claims_upsertEvent (t : RegistryTx) (e : EventMarket) :
    ∃ e' : EventMarket, e'.id = e.id ∧
      e'.yesSpotMarket = normalizeSpotMarketKey sdk e.yesSpotMarket ∧
      e'.noSpotMarket = normalizeSpotMarketKey sdk e.noSpotMarket ∧
      Claims sdk e' t.reg (t.upsertMarket sdk (.event e)).reg := by
  obtain ⟨e', he', hyes, hno⟩ := RegistryTx.event_upserted sdk t.reg e
  have hid : (RegistryTx.upserted sdk t.reg (.event e)).id = e.id :=
    RegistryTx.id_upserted t.reg (.event e)
  rw [he'] at hid
  exact ⟨e', hid, hyes, hno, claims_upserted t he'⟩

theorem Claims.coherent {e : EventMarket} {r' : Registry} (h : Claims sdk e r r')
    (hinj : Set.InjOn sdk.uuidV5 names) (hr : Coherent sdk names r)
    (hyes : e.yesSpotMarket ∈ names) (hno : e.noSpotMarket ∈ names) : Coherent sdk names r' where
  named := by
    intro name spot hname
    rw [h.spotByName] at hname
    obtain ⟨ref, href⟩ := Dict.mem_iff_lookup.mp (hr.named name spot hname)
    rw [Dict.mem_iff_lookup, h.bindings]
    split_ifs
    · exact ⟨_, rfl⟩
    · exact ⟨_, rfl⟩
    · exact ⟨ref, href⟩
  bound := by
    intro spot ref hlookup
    have hevent : r'.markets.lookup e.id = some (.event e) := by
      rw [h.markets, if_pos rfl]
      exact ⟨rfl, fun hspot => nomatch hspot⟩
    rw [Dict.mem_iff_lookup]
    rw [h.bindings] at hlookup
    split_ifs at hlookup with hspotNo hspotYes
    · cases hlookup
      exact ⟨_, hevent⟩
    · cases hlookup
      exact ⟨_, hevent⟩
    · by_cases hid : ref.marketId = e.id
      · rw [hid]
        exact ⟨_, hevent⟩
      · -- a spot market that is dropped is bound at a leg
        obtain ⟨market, hmarket⟩ := Dict.mem_iff_lookup.mp (hr.bound spot ref hlookup)
        refine ⟨market, (h.markets ref.marketId market).mpr ?_⟩
        rw [if_neg hid]
        refine ⟨hmarket, fun hcategory => ?_⟩
        have hown := hr.shells spot ref market hlookup hmarket hcategory
        have hname : spot ∈ names := hr.spots spot (Dict.mem_iff_lookup.mpr ⟨ref, hlookup⟩)
        rw [hown]
        exact ⟨fun heq => hspotYes (hinj hname hyes heq), fun heq => hspotNo (hinj hname hno heq)⟩
  shells := by
    intro spot ref market hlookup hmarket hcategory
    rw [h.bindings] at hlookup
    rw [h.markets] at hmarket
    obtain ⟨hmarket, -⟩ := hmarket
    split_ifs at hlookup hmarket
    · rw [hmarket] at hcategory
      cases hcategory
    · cases hlookup
      contradiction
    · rw [hmarket] at hcategory
      cases hcategory
    · cases hlookup
      contradiction
    · rw [hmarket] at hcategory
      cases hcategory
    · exact hr.shells spot ref market hlookup hmarket hcategory
  spots := by
    intro spot hspot
    obtain ⟨ref, hlookup⟩ := Dict.mem_iff_lookup.mp hspot
    rw [h.bindings] at hlookup
    split_ifs at hlookup with hspotNo hspotYes
    · rw [hspotNo]
      exact hno
    · rw [hspotYes]
      exact hyes
    · exact hr.spots spot (Dict.mem_iff_lookup.mpr ⟨ref, hlookup⟩)

end Registry

/-! ## Events in any order -/

/-- An event of the chain as the index takes it: one of the serial part of a block, or
one of a market's task. -/
inductive ChainEvent where
  | global (e : GlobalEvent)
  | order (opts : ProcessOpts) (blockNum : UInt64) (spotMarket : String) (e : MarketOrderEvent)

namespace ChainEvent

variable (sdk) in
def spots : ChainEvent → Set String
  | global (.marketCreated e) => {normalizeSpotMarketKey sdk e.marketAddress}
  | global (.eventContractCreated e) =>
      {normalizeSpotMarketKey sdk e.yesSpotMarket, normalizeSpotMarketKey sdk e.noSpotMarket}
  | order _ _ spotMarket _ => {normalizeSpotMarketKey sdk spotMarket}
  | global _ => ∅

def apply (env : Env) (c : Ctx) : ChainEvent → Ctx
  | global e => c.applyGlobalEvent env e
  | order opts blockNum spotMarket e => c.applyMarketOrderEvent env opts blockNum spotMarket e

end ChainEvent

namespace Ctx

variable {env : Env} (c : Ctx)

variable (env) in
/-- The registry after an event of the serial part. -/
theorem registry_applyGlobalEvent (e : GlobalEvent) :
    (c.applyGlobalEvent env e).store.registry =
      match e with
      | .marketCreated created => c.store.registry.registerNamedSpotMarket env.sdk created.name
          created.marketAddress created.creator
      | .eventContractCreated created => (c.regTx.upsertMarket env.sdk
          (eventMarketOf env c.store.registry created)).reg
      | .eventContractResolved marketAddress =>
          (c.regTx.updateMarketState marketAddress "Resolved").reg
      | _ => c.store.registry := by
  have hreg : ∀ {d : Ctx} {t : RegistryTx}, d.regTx = t → d.store.registry = t.reg :=
    fun h => congrArg RegistryTx.reg h
  cases e with
  | marketCreated created =>
      unfold applyGlobalEvent indexSpotMarketCreated
      dsimp only
      rw [hreg (regTx_ensureChainHydrated _ _), regTx_setRegistry]
  | eventContractCreated created =>
      unfold applyGlobalEvent indexMarketCreated hydrateMarketSpots
      dsimp only
      rw [hreg (regTx_hydrateSpotFromChain _ _), regTx_hydrateSpotFromChain, regTx_onRegistry]
      rfl
  | eventContractResolved marketAddress => rfl
  | vaultCreated created => rfl
  | vaultDeposited vault equity => rfl
  | vaultWithdrawn vault equity => rfl
  | vaultManagerUpdated vault newManager => rfl
  | vaultDepositPermissionUpdated vault allowDeposit => rfl
  | vaultClosed vault => rfl
  | secondary e => rfl

variable (env) in
theorem eventMarketOf_eq (r : Registry) (created : EventContractCreatedEvent) :
    ∃ e : EventMarket, eventMarketOf env r created = .event e ∧
      e.id = marketUuid env.sdk created.marketAddress ∧
      e.yesSpotMarket = created.yesSpotMarket ∧ e.noSpotMarket = created.noSpotMarket := by
  unfold eventMarketOf
  exact ⟨_, rfl, rfl, rfl, rfl⟩

variable (env) in
theorem claims_upsertMarket (created : EventContractCreatedEvent) :
    ∃ e : EventMarket, e.id = marketUuid env.sdk created.marketAddress ∧
      e.yesSpotMarket = normalizeSpotMarketKey env.sdk created.yesSpotMarket ∧
      e.noSpotMarket = normalizeSpotMarketKey env.sdk created.noSpotMarket ∧
      Registry.Claims env.sdk e c.store.registry
        (c.regTx.upsertMarket env.sdk (eventMarketOf env c.store.registry created)).reg := by
  obtain ⟨e, hevent, hid, hyes, hno⟩ := eventMarketOf_eq env c.store.registry created
  rw [hevent, ← hid, ← hyes, ← hno]
  exact Registry.claims_upsertEvent env.sdk c.regTx e

variable (env) in
/-- An order event leaves the registry, or registers the market that it is on. -/
theorem registry_applyMarketOrderEvent (opts : ProcessOpts) (blockNum : UInt64)
    (spotMarket : String) (e : MarketOrderEvent) :
    (c.applyMarketOrderEvent env opts blockNum spotMarket e).store.registry = c.store.registry ∨
      (c.applyMarketOrderEvent env opts blockNum spotMarket e).store.registry =
        (c.store.registry.resolveSpotMarket env.sdk spotMarket).1 := by
  have hreg : ∀ {d : Ctx} {t : RegistryTx}, d.regTx = t → d.store.registry = t.reg :=
    fun h => congrArg RegistryTx.reg h
  cases e with
  | created e =>
      by_cases hdup : c.store.orders.hasChainOrder env.sdk spotMarket e.orderId = true
      · left
        change (c.handleCreated env opts blockNum spotMarket e).store.registry = _
        rw [handleCreated, if_pos hdup]
      · right
        rw [Bool.not_eq_true] at hdup
        change (c.handleCreated env opts blockNum spotMarket e).store.registry = _
        rw [store_handleCreated c opts blockNum spotMarket e hdup]
        have hbook : ((c.ensureChainHydrated env spotMarket).applyOrderCreatedToBook env blockNum e
            spotMarket opts.publishWs).regTx = c.regTx := by
          rw [regTx_applyOrderCreatedToBook, regTx_ensureChainHydrated]
        rw [hreg (regTx_indexOrderCreated _ _ _ _), hbook]
        rfl
  | cancelled e =>
      left
      change (c.handleCancelled env opts blockNum spotMarket e).store.registry = _
      rw [store_handleCancelled]
      rfl
  | updated e =>
      left
      change (c.handleUpdated env opts blockNum spotMarket e).store.registry = _
      rw [store_handleUpdated]
      exact hreg (regTx_ensureChainHydrated c spotMarket)
  | filled e txSender =>
      left
      change (c.handleFilled env opts blockNum spotMarket e txSender).store.registry = _
      rw [store_handleFilled]
      have hfill : (c.applyFillToIndex env opts blockNum spotMarket e).regTx = c.regTx := by
        unfold applyFillToIndex
        simp
      exact hreg hfill
  | executed e =>
      by_cases hdup : c.store.orders.hasChainOrder env.sdk spotMarket e.orderId = true
      · left
        change (c.handleExecuted env opts blockNum spotMarket e).store.registry = _
        rw [handleExecuted, if_pos hdup]
      · right
        rw [Bool.not_eq_true] at hdup
        change (c.handleExecuted env opts blockNum spotMarket e).store.registry = _
        rw [store_handleExecuted c opts blockNum spotMarket e hdup]
        rfl

variable (env) in
/-- What an event can do to the registry. -/
inductive RegistryMove : ChainEvent → Registry → Prop
  | stays (e : ChainEvent) : RegistryMove e c.store.registry
  | resolves (opts : ProcessOpts) (blockNum : UInt64) (spotMarket : String)
      (e : MarketOrderEvent) :
      RegistryMove (.order opts blockNum spotMarket e)
        (c.store.registry.resolveSpotMarket env.sdk spotMarket).1
  | registers (created : MarketCreatedEvent) :
      RegistryMove (.global (.marketCreated created))
        (c.store.registry.registerNamedSpotMarket env.sdk created.name created.marketAddress
          created.creator)
  | upserts (created : EventContractCreatedEvent) :
      RegistryMove (.global (.eventContractCreated created))
        (c.regTx.upsertMarket env.sdk (eventMarketOf env c.store.registry created)).reg
  | settles (marketAddress : String) :
      RegistryMove (.global (.eventContractResolved marketAddress))
        (c.regTx.updateMarketState marketAddress "Resolved").reg

variable (env) in
theorem registryMove_apply (e : ChainEvent) :
    c.RegistryMove env e (e.apply env c).store.registry := by
  cases e with
  | order opts blockNum spotMarket e =>
      change c.RegistryMove env _
        (c.applyMarketOrderEvent env opts blockNum spotMarket e).store.registry
      rcases c.registry_applyMarketOrderEvent env opts blockNum spotMarket e with heq | heq
      · rw [heq]
        exact .stays _
      · rw [heq]
        exact .resolves opts blockNum spotMarket e
  | global e =>
      change c.RegistryMove env _ (c.applyGlobalEvent env e).store.registry
      rw [c.registry_applyGlobalEvent env e]
      cases e with
      | marketCreated created => exact .registers created
      | eventContractCreated created => exact .upserts created
      | eventContractResolved marketAddress => exact .settles marketAddress
      | vaultCreated created => exact .stays _
      | vaultDeposited vault equity => exact .stays _
      | vaultWithdrawn vault equity => exact .stays _
      | vaultManagerUpdated vault newManager => exact .stays _
      | vaultDepositPermissionUpdated vault allowDeposit => exact .stays _
      | vaultClosed vault => exact .stays _
      | secondary e => exact .stays _

/-- The registry stays coherent. -/
theorem coherent_apply (lawful : LawfulSdk env.sdk) (hinj : Set.InjOn env.sdk.uuidV5 names)
    (h : c.store.registry.Coherent env.sdk names) {e : ChainEvent}
    (hspots : e.spots env.sdk ⊆ names) :
    (e.apply env c).store.registry.Coherent env.sdk names := by
  have hmove := c.registryMove_apply env e
  generalize (e.apply env c).store.registry = r at hmove ⊢
  cases hmove with
  | stays => exact h
  | resolves opts blockNum spotMarket e =>
      exact Registry.coherent_resolveSpotMarket lawful h (hspots rfl)
  | registers created => exact Registry.coherent_registerNamedSpotMarket h _ _ (hspots rfl)
  | upserts created =>
      obtain ⟨e', -, hyes, hno, hclaims⟩ := c.claims_upsertMarket env created
      exact hclaims.coherent hinj h (hyes ▸ hspots (.inl rfl)) (hno ▸ hspots (.inr rfl))
  | settles marketAddress => exact Registry.coherent_updateMarketState h _ _

end Ctx

end ClobIndexer
