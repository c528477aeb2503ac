import ClobIndexer.HexSdk
import ClobIndexer.Indexer.Coherence
import ClobIndexer.Lib.Runs
import Mathlib.Data.Set.BooleanAlgebra
import Mathlib.Order.CompletePartialOrder
/-!
# The registry is consistent

Spot addresses and markets name each other.  Spot markets are registered at addresses
that no event owns, and an event contract takes its legs over from them, so whatever
comes first, an address ends up bound to the one market that trades on it.
-/

namespace ClobIndexer

open Lib

variable {sdk : Sdk} {names : Set String} {contracts : Set EventContractCreatedEvent}

def Market.TradesAt (sdk : Sdk) (spot outcome : String) : Market → Prop
  | .spot m => m.id = marketUuid sdk spot ∧ m.marketAddress = spot ∧ outcome = "spot"
  | .event e => e.yesSpotMarket = spot ∧ outcome = "yes" ∨ e.noSpotMarket = spot ∧ outcome = "no"
  | .perp _ => False

/-- Addresses lead to the markets that trade at them, and markets own their addresses. -/
structure Registry.Consistent (sdk : Sdk) (r : Registry) : Prop where
  bound : ∀ spot ref, r.spotToMarket.lookup spot = some ref →
    ∃ market, r.markets.lookup ref.marketId = some market ∧ market.id = ref.marketId ∧
      market.TradesAt sdk spot ref.outcome
  shells : ∀ id m, r.markets.lookup id = some (.spot m) →
    r.spotToMarket.lookup m.marketAddress = some ⟨id, "spot"⟩
  legs : ∀ id e, r.markets.lookup id = some (.event e) →
    r.spotToMarket.lookup e.yesSpotMarket = some ⟨id, "yes"⟩ ∧
      r.spotToMarket.lookup e.noSpotMarket = some ⟨id, "no"⟩
  /-- no spot market at the leg of an event -/
  unowned : ∀ id e id' m, r.markets.lookup id = some (.event e) →
    r.markets.lookup id' = some (.spot m) →
    m.marketAddress ≠ e.yesSpotMarket ∧ m.marketAddress ≠ e.noSpotMarket

/-! ## Event contracts -/

namespace EventContractCreatedEvent

variable (sdk) in
def yesLeg (created : EventContractCreatedEvent) : String :=
  normalizeSpotMarketKey sdk created.yesSpotMarket

variable (sdk) in
def noLeg (created : EventContractCreatedEvent) : String :=
  normalizeSpotMarketKey sdk created.noSpotMarket

/-- What is taken for granted of the event contracts and of the spot addresses. -/
structure Apart (sdk : Sdk) (names : Set String) (contracts : Set EventContractCreatedEvent) :
    Prop where
  yes_ne_no : ∀ created ∈ contracts, created.yesLeg sdk ≠ created.noLeg sdk
  /-- two contracts share no leg -/
  disjoint : ∀ created ∈ contracts, ∀ other ∈ contracts,
    created.marketAddress ≠ other.marketAddress →
      Disjoint ({created.yesLeg sdk, created.noLeg sdk} : Set String)
        {other.yesLeg sdk, other.noLeg sdk}
  /-- a contract is at no spot address -/
  apart : ∀ created ∈ contracts, created.marketAddress ∉ names
  injOn : Set.InjOn sdk.uuidV5 (names ∪ marketAddress '' contracts)

/-- Besides, a contract that is created again keeps its legs. -/
structure Separate (sdk : Sdk) (names : Set String) (contracts : Set EventContractCreatedEvent) :
    Prop extends Apart sdk names contracts where
  same : ∀ created ∈ contracts, ∀ other ∈ contracts,
    created.marketAddress = other.marketAddress →
      created.yesLeg sdk = other.yesLeg sdk ∧ created.noLeg sdk = other.noLeg sdk

namespace Separate

variable {created other : EventContractCreatedEvent} {spot spot' : String}

theorem spot_eq (h : Separate sdk names contracts) (hspot : spot ∈ names) (hspot' : spot' ∈ names)
    (heq : marketUuid sdk spot = marketUuid sdk spot') : spot = spot' :=
  h.injOn (.inl hspot) (.inl hspot') heq

theorem uuid_ne (h : Separate sdk names contracts) (hspot : spot ∈ names)
    (hcreated : created ∈ contracts) :
    marketUuid sdk spot ≠ marketUuid sdk created.marketAddress := by
  intro heq
  have haddress : spot = created.marketAddress :=
    h.injOn (.inl hspot) (.inr ⟨created, hcreated, rfl⟩) heq
  exact h.apart created hcreated (haddress ▸ hspot)

theorem address_eq (h : Separate sdk names contracts) (hcreated : created ∈ contracts)
    (hother : other ∈ contracts)
    (heq : marketUuid sdk created.marketAddress = marketUuid sdk other.marketAddress) :
    created.marketAddress = other.marketAddress :=
  h.injOn (.inr ⟨created, hcreated, rfl⟩) (.inr ⟨other, hother, rfl⟩) heq

end Separate

end EventContractCreatedEvent

open EventContractCreatedEvent (Separate)

def Market.StemsFrom (sdk : Sdk) (names : Set String) (contracts : Set EventContractCreatedEvent) :
    Market → Prop
  | .spot m => m.marketAddress ∈ names ∧ m.id = marketUuid sdk m.marketAddress
  | .event e => ∃ created ∈ contracts, e.id = marketUuid sdk created.marketAddress ∧
      e.yesSpotMarket = created.yesLeg sdk ∧ e.noSpotMarket = created.noLeg sdk
  | .perp _ => False

namespace Registry

/-- The invariant: the registry is consistent, and every market stems from an event. -/
structure Sound (sdk : Sdk) (names : Set String) (contracts : Set EventContractCreatedEvent)
    (r : Registry) : Prop where
  consistent : r.Consistent sdk
  stems : ∀ id market, r.markets.lookup id = some market →
    market.id = id ∧ market.StemsFrom sdk names contracts

variable {r r' : Registry}

theorem sound_empty : Sound sdk names contracts {} where
  consistent := ⟨fun _ _ h => (nomatch h), fun _ _ h => (nomatch h), fun _ _ h => (nomatch h),
    fun _ _ _ _ h => (nomatch h)⟩
  stems := fun _ _ h => nomatch h

/-- No address is bound twice, so a spot market is at no leg of an event. -/
theorem consistent_of_owned
    (bound : ∀ spot ref, r.spotToMarket.lookup spot = some ref →
      ∃ market, r.markets.lookup ref.marketId = some market ∧ market.id = ref.marketId ∧
        market.TradesAt sdk spot ref.outcome)
    (shells : ∀ id m, r.markets.lookup id = some (.spot m) →
      r.spotToMarket.lookup m.marketAddress = some ⟨id, "spot"⟩)
    (legs : ∀ id e, r.markets.lookup id = some (.event e) →
      r.spotToMarket.lookup e.yesSpotMarket = some ⟨id, "yes"⟩ ∧
        r.spotToMarket.lookup e.noSpotMarket = some ⟨id, "no"⟩) :
    r.Consistent sdk where
  bound := bound
  shells := shells
  legs := legs
  unowned := by
    intro id e id' m he hm
    have hshell := shells id' m hm
    obtain ⟨hyes, hno⟩ := legs id e he
    constructor
    · intro heq
      rw [heq, hyes, Option.some.injEq, SpotMarketRef.mk.injEq] at hshell
      exact absurd hshell.2 (by decide)
    · intro heq
      rw [heq, hno, Option.some.injEq, SpotMarketRef.mk.injEq] at hshell
      exact absurd hshell.2 (by decide)

/-! ## Spot markets -/

theorem Sound.unknown (h : Sound sdk names contracts r) (separate : Separate sdk names contracts)
    {m : String} (hm : m ∈ names) (hunbound : r.spotToMarket.lookup m = none) :
    r.markets.lookup (marketUuid sdk m) = none := by
  cases hmarket : r.markets.lookup (marketUuid sdk m) with
  | none => rfl
  | some market =>
      obtain ⟨hid, hstems⟩ := h.stems _ _ hmarket
      cases market with
      | spot shell =>
          obtain ⟨hname, hown⟩ := hstems
          have haddress : shell.marketAddress = m :=
            separate.spot_eq hname hm (hown.symm.trans hid)
          have hbound := h.consistent.shells _ _ hmarket
          rw [haddress, hunbound] at hbound
          cases hbound
      | event e =>
          obtain ⟨created, hcreated, hown, -⟩ := hstems
          exact absurd (hid.symm.trans hown) (separate.uuid_ne hm hcreated)
      | perp p => exact hstems.elim

theorem Sound.withShell_of_unbound (h : Sound sdk names contracts r)
    (separate : Separate sdk names contracts) {name m deployer : String} (hm : m ∈ names)
    (hunbound : r.spotToMarket.lookup m = none) :
    Sound sdk names contracts (r.withShell sdk name m deployer) := by
  have hunknown := h.unknown separate hm hunbound
  have hbindings : ∀ spot, (r.withShell sdk name m deployer).spotToMarket.lookup spot =
      if spot = m then some ⟨marketUuid sdk m, "spot"⟩ else r.spotToMarket.lookup spot := by
    intro spot
    rw [lookup_spotToMarket_withShell]
    split_ifs with hspot
    · rw [hspot, hunbound, Option.none_or]
    · rw [Option.or_none]
  have hmarkets : ∀ id, (r.withShell sdk name m deployer).markets.lookup id =
      if id = marketUuid sdk m then some (spotShell sdk name m deployer)
      else r.markets.lookup id := by
    intro id
    rw [lookup_markets_withShell]
    split_ifs with hid
    · rw [hid, hunknown, Option.none_or]
    · rw [Option.or_none]
  constructor
  · apply consistent_of_owned
    · intro spot ref hspot
      rw [hbindings] at hspot
      split_ifs at hspot with heq
      · cases hspot
        refine ⟨spotShell sdk name m deployer, ?_, rfl, ?_⟩
        · rw [hmarkets, if_pos rfl]
        · rw [heq]
          exact ⟨rfl, rfl, rfl⟩
      · obtain ⟨market, hmarket, hid, htrades⟩ := h.consistent.bound spot ref hspot
        refine ⟨market, ?_, hid, htrades⟩
        rw [hmarkets, if_neg, hmarket]
        rintro heq
        rw [heq, hunknown] at hmarket
        cases hmarket
    · intro id shell hshell
      rw [hmarkets] at hshell
      rw [hbindings]
      split_ifs at hshell with hid
      · cases hshell
        rw [if_pos rfl, hid]
      · have hold := h.consistent.shells id shell hshell
        rw [if_neg, hold]
        intro heq
        rw [heq, hunbound] at hold
        cases hold
    · intro id e he
      rw [hmarkets] at he
      split_ifs at he with hid
      · cases he
      · obtain ⟨hyes, hno⟩ := h.consistent.legs id e he
        rw [hbindings, hbindings, if_neg, if_neg]
        · exact ⟨hyes, hno⟩
        · intro heq
          rw [heq, hunbound] at hno
          cases hno
        · intro heq
          rw [heq, hunbound] at hyes
          cases hyes
  · intro id market hmarket
    rw [hmarkets] at hmarket
    split_ifs at hmarket with hid
    · cases hmarket
      exact ⟨hid.symm, hm, rfl⟩
    · exact h.stems id market hmarket

theorem Sound.congr (h : Sound sdk names contracts r)
    (hbindings : ∀ spot, r'.spotToMarket.lookup spot = r.spotToMarket.lookup spot)
    (hmarkets : ∀ id, r'.markets.lookup id = r.markets.lookup id) :
    Sound sdk names contracts r' := by
  constructor
  · constructor
    · intro spot ref hspot
      rw [hbindings] at hspot
      rw [hmarkets]
      exact h.consistent.bound spot ref hspot
    · intro id m hm
      rw [hmarkets] at hm
      rw [hbindings]
      exact h.consistent.shells id m hm
    · intro id e he
      rw [hmarkets] at he
      rw [hbindings, hbindings]
      exact h.consistent.legs id e he
    · intro id e id' m he hm
      rw [hmarkets] at he hm
      exact h.consistent.unowned id e id' m he hm
  · intro id market hmarket
    rw [hmarkets] at hmarket
    exact h.stems id market hmarket

theorem Sound.withShell (h : Sound sdk names contracts r)
    (separate : Separate sdk names contracts) {name m deployer : String} (hm : m ∈ names)
    (hfree : r.boundToOther m = false) :
    Sound sdk names contracts (r.withShell sdk name m deployer) := by
  cases hlookup : r.spotToMarket.lookup m with
  | none => exact h.withShell_of_unbound separate hm hlookup
  | some ref =>
      -- it is bound to its own spot market, and nothing is registered
      obtain ⟨market, hmarket, hid, htrades⟩ := h.consistent.bound m ref hlookup
      have hcategory : market.category = .spot := by
        unfold boundToOther at hfree
        rw [hlookup] at hfree
        dsimp only at hfree
        rw [hmarket] at hfree
        simpa using hfree
      have hown : ref.marketId = marketUuid sdk m := by
        cases market with
        | spot shell => exact hid.symm.trans htrades.1
        | event e => cases hcategory
        | perp p => cases hcategory
      apply h.congr
      · intro spot
        rw [lookup_spotToMarket_withShell]
        split_ifs with hspot
        · rw [hspot, hlookup, Option.some_or]
        · rw [Option.or_none]
      · intro id
        rw [lookup_markets_withShell]
        split_ifs with hid
        · rw [hid, ← hown, hmarket, Option.some_or]
        · rw [Option.or_none]

theorem Sound.registerNamedSpotMarket (h : Sound sdk names contracts r)
    (separate : Separate sdk names contracts) (name deployer : String) {spotMarket : String}
    (hspot : normalizeSpotMarketKey sdk spotMarket ∈ names) :
    Sound sdk names contracts (r.registerNamedSpotMarket sdk name spotMarket deployer) := by
  rcases registerNamedSpotMarket_cases sdk name spotMarket deployer r with
    ⟨-, heq⟩ | ⟨-, heq⟩ | ⟨-, hfree, heq⟩
  · rw [heq]
    exact h
  · rw [heq]
    exact h.congr (fun _ => rfl) (fun _ => rfl)
  · rw [heq]
    exact h.withShell separate hspot hfree

theorem Sound.resolveSpotMarket (lawful : LawfulSdk sdk) (h : Sound sdk names contracts r)
    (separate : Separate sdk names contracts) {spotMarket : String}
    (hspot : normalizeSpotMarketKey sdk spotMarket ∈ names) :
    Sound sdk names contracts (r.resolveSpotMarket sdk spotMarket).1 := by
  rcases resolveSpotMarket_cases sdk spotMarket r with heq | ⟨name, heq⟩
  · rw [heq]
    exact h
  · rw [heq]
    apply h.registerNamedSpotMarket separate
    rw [normalize_normalize lawful]
    exact hspot

/-! ## State changes -/

theorem tradesAt_restate (marketAddress state spot outcome : String) (market : Market) :
    (RegistryTx.restate marketAddress state market).TradesAt sdk spot outcome ↔
      market.TradesAt sdk spot outcome := by
  unfold RegistryTx.restate
  split_ifs
  · cases market <;> rfl
  · rfl

theorem stemsFrom_restate (marketAddress state : String) (market : Market) :
    (RegistryTx.restate marketAddress state market).StemsFrom sdk names contracts ↔
      market.StemsFrom sdk names contracts := by
  unfold RegistryTx.restate
  split_ifs
  · cases market <;> rfl
  · rfl

theorem id_restate (marketAddress state : String) (market : Market) :
    (RegistryTx.restate marketAddress state market).id = market.id := by
  unfold RegistryTx.restate
  split_ifs
  · exact Market.id_setState state market
  · rfl

theorem restate_eq_spot {marketAddress state : String} {market : Market} {m : SpotMarket}
    (h : RegistryTx.restate marketAddress state market = .spot m) :
    ∃ old, market = .spot old ∧ m.marketAddress = old.marketAddress := by
  unfold RegistryTx.restate at h
  split_ifs at h
  · cases market with
    | spot old =>
        cases h
        exact ⟨old, rfl, rfl⟩
    | event e => cases h
    | perp p => cases h
  · exact ⟨m, h, rfl⟩

theorem restate_eq_event {marketAddress state : String} {market : Market} {e : EventMarket}
    (h : RegistryTx.restate marketAddress state market = .event e) :
    ∃ old, market = .event old ∧ e.yesSpotMarket = old.yesSpotMarket ∧
      e.noSpotMarket = old.noSpotMarket := by
  unfold RegistryTx.restate at h
  split_ifs at h
  · cases market with
    | spot m => cases h
    | event old =>
        cases h
        exact ⟨old, rfl, rfl, rfl⟩
    | perp p => cases h
  · exact ⟨e, h, rfl, rfl⟩

theorem Sound.updateMarketState {t : RegistryTx} (h : Sound sdk names contracts t.reg)
    (marketAddress state : String) :
    Sound sdk names contracts (t.updateMarketState marketAddress state).reg := by
  have hmarkets : ∀ id, (t.updateMarketState marketAddress state).reg.markets.lookup id =
      (t.reg.markets.lookup id).map (RegistryTx.restate marketAddress state) :=
    fun id => Dict.lookup_mapVal _ _ _
  constructor
  · apply consistent_of_owned
    · intro spot ref hspot
      obtain ⟨market, hmarket, hid, htrades⟩ := h.consistent.bound spot ref hspot
      refine ⟨RegistryTx.restate marketAddress state market, ?_, ?_, ?_⟩
      · rw [hmarkets, hmarket]
        rfl
      · rw [id_restate]
        exact hid
      · exact (tradesAt_restate _ _ _ _ _).mpr htrades
    · intro id m hm
      rw [hmarkets, Option.map_eq_some_iff] at hm
      obtain ⟨market, hmarket, hrestate⟩ := hm
      obtain ⟨old, rfl, haddress⟩ := restate_eq_spot hrestate
      rw [haddress]
      exact h.consistent.shells id old hmarket
    · intro id e he
      rw [hmarkets, Option.map_eq_some_iff] at he
      obtain ⟨market, hmarket, hrestate⟩ := he
      obtain ⟨old, rfl, hyes, hno⟩ := restate_eq_event hrestate
      rw [hyes, hno]
      exact h.consistent.legs id old hmarket
  · intro id market hmarket
    rw [hmarkets, Option.map_eq_some_iff] at hmarket
    obtain ⟨old, hold, rfl⟩ := hmarket
    obtain ⟨hid, hstems⟩ := h.stems id old hold
    rw [id_restate]
    exact ⟨hid, (stemsFrom_restate _ _ _).mpr hstems⟩

/-! ## Event contracts -/

theorem Sound.event_legs (h : Sound sdk names contracts r)
    (separate : Separate sdk names contracts) {created : EventContractCreatedEvent}
    (hcreated : created ∈ contracts) {id : Uuid} {e : EventMarket}
    (he : r.markets.lookup id = some (.event e)) :
    id = marketUuid sdk created.marketAddress ∧
        e.yesSpotMarket = created.yesLeg sdk ∧ e.noSpotMarket = created.noLeg sdk ∨
      id ≠ marketUuid sdk created.marketAddress ∧
        ∀ spot, spot = e.yesSpotMarket ∨ spot = e.noSpotMarket →
          spot ≠ created.yesLeg sdk ∧ spot ≠ created.noLeg sdk := by
  obtain ⟨hid, other, hother, hown, hyes, hno⟩ := h.stems id _ he
  have hid : id = marketUuid sdk other.marketAddress := hid.symm.trans hown
  by_cases haddress : created.marketAddress = other.marketAddress
  · left
    obtain ⟨hsameYes, hsameNo⟩ := separate.same created hcreated other hother haddress
    rw [hid, haddress, hyes, hno, hsameYes, hsameNo]
    exact ⟨rfl, rfl, rfl⟩
  · right
    constructor
    · intro heq
      exact haddress (separate.address_eq hcreated hother (heq.symm.trans hid))
    · intro spot hspot
      have hdisjoint := separate.disjoint created hcreated other hother haddress
      rw [Set.disjoint_left] at hdisjoint
      rw [hyes, hno] at hspot
      have hnot : spot ∉ ({created.yesLeg sdk, created.noLeg sdk} : Set String) :=
        fun hmem => hdisjoint hmem hspot
      exact ⟨fun heq => hnot (.inl heq), fun heq => hnot (.inr heq)⟩

theorem Sound.claims (h : Sound sdk names contracts r) (separate : Separate sdk names contracts)
    {created : EventContractCreatedEvent} (hcreated : created ∈ contracts) {e : EventMarket}
    (hid : e.id = marketUuid sdk created.marketAddress)
    (hyes : e.yesSpotMarket = created.yesLeg sdk) (hno : e.noSpotMarket = created.noLeg sdk)
    (hyesName : created.yesLeg sdk ∈ names) (hnoName : created.noLeg sdk ∈ names)
    (hclaims : Claims sdk e r r') : Sound sdk names contracts r' := by
  have hself : r'.markets.lookup e.id = some (.event e) := by
    rw [hclaims.markets, if_pos rfl]
    exact ⟨rfl, fun hspot => nomatch hspot⟩
  have hstems : ∀ id market, r'.markets.lookup id = some market →
      market.id = id ∧ market.StemsFrom sdk names contracts := by
    intro id market hmarket
    rw [hclaims.markets] at hmarket
    obtain ⟨hmarket, -⟩ := hmarket
    split_ifs at hmarket with heq
    · rw [hmarket, heq]
      exact ⟨rfl, created, hcreated, hid, hyes, hno⟩
    · exact h.stems id market hmarket
  refine ⟨consistent_of_owned ?_ ?_ ?_, hstems⟩
  · intro spot ref hspot
    rw [hclaims.bindings] at hspot
    split_ifs at hspot with hspotNo hspotYes
    · cases hspot
      exact ⟨.event e, hself, rfl, .inr ⟨hspotNo.symm, rfl⟩⟩
    · cases hspot
      exact ⟨.event e, hself, rfl, .inl ⟨hspotYes.symm, rfl⟩⟩
    · -- the market that the address is bound to is still there
      obtain ⟨market, hmarket, hmarketId, htrades⟩ := h.consistent.bound spot ref hspot
      rw [hyes] at hspotYes
      rw [hno] at hspotNo
      refine ⟨market, ?_, hmarketId, htrades⟩
      rw [hclaims.markets, hid, hyes, hno]
      obtain ⟨-, hfrom⟩ := h.stems _ _ hmarket
      cases market with
      | spot m =>
          obtain ⟨hown, haddress, -⟩ := htrades
          have hname : spot ∈ names := haddress ▸ hfrom.1
          have hshell : ref.marketId = marketUuid sdk spot := hmarketId.symm.trans hown
          rw [hshell, if_neg (separate.uuid_ne hname hcreated), ← hshell]
          refine ⟨hmarket, fun _ => ⟨?_, ?_⟩⟩
          · rw [hshell]
            exact fun heq => hspotYes (separate.spot_eq hname hyesName heq)
          · rw [hshell]
            exact fun heq => hspotNo (separate.spot_eq hname hnoName heq)
      | event other =>
          rcases h.event_legs separate hcreated hmarket with ⟨-, hotherYes, hotherNo⟩ | ⟨hne, -⟩
          · -- the contract itself trades at its legs only
            rcases htrades with ⟨hleg, -⟩ | ⟨hleg, -⟩
            · exact absurd (hleg.symm.trans hotherYes) hspotYes
            · exact absurd (hleg.symm.trans hotherNo) hspotNo
          · rw [if_neg hne]
            exact ⟨hmarket, fun hspot => nomatch hspot⟩
      | perp p => exact hfrom.elim
  · intro id m hm
    obtain ⟨hmId, hmName, hown⟩ := hstems id _ hm
    rw [hclaims.markets] at hm
    obtain ⟨hold, hdropped⟩ := hm
    split_ifs at hold with heq
    have hshell : id = marketUuid sdk m.marketAddress := hmId.symm.trans hown
    obtain ⟨hneYes, hneNo⟩ := hdropped rfl
    rw [hclaims.bindings, if_neg, if_neg]
    · exact h.consistent.shells id m hold
    · intro hleg
      exact hneYes (hleg ▸ hshell)
    · intro hleg
      exact hneNo (hleg ▸ hshell)
  · intro id other hother
    rw [hclaims.markets] at hother
    obtain ⟨hold, -⟩ := hother
    split_ifs at hold with heq
    · cases hold
      have hlegs : e.yesSpotMarket ≠ e.noSpotMarket := by
        rw [hyes, hno]
        exact separate.yes_ne_no created hcreated
      rw [hclaims.bindings, hclaims.bindings, if_neg hlegs, if_pos rfl, if_pos rfl, heq]
      exact ⟨rfl, rfl⟩
    · rcases h.event_legs separate hcreated hold with ⟨hsame, -⟩ | ⟨-, hfree⟩
      · exact absurd (hsame.trans hid.symm) heq
      · obtain ⟨hyesYes, hyesNo⟩ := hfree other.yesSpotMarket (.inl rfl)
        obtain ⟨hnoYes, hnoNo⟩ := hfree other.noSpotMarket (.inr rfl)
        rw [← hyes] at hyesYes hnoYes
        rw [← hno] at hyesNo hnoNo
        rw [hclaims.bindings, hclaims.bindings, if_neg hyesNo, if_neg hyesYes, if_neg hnoNo,
          if_neg hnoYes]
        exact h.consistent.legs id other hold

end Registry

/-! ## Events in any order -/

namespace ChainEvent

def contractsIn (events : List ChainEvent) : Set EventContractCreatedEvent :=
  {created | global (.eventContractCreated created) ∈ events}

def addressesIn (sdk : Sdk) (events : List ChainEvent) : Set String :=
  {spot | ∃ e ∈ events, spot ∈ e.spots sdk}

end ChainEvent

namespace Ctx

variable {env : Env}

theorem sound_apply (lawful : LawfulSdk env.sdk) (separate : Separate env.sdk names contracts)
    {c : Ctx} (h : c.store.registry.Sound env.sdk names contracts) {e : ChainEvent}
    (hspots : e.spots env.sdk ⊆ names)
    (hcreated : ∀ created, e = .global (.eventContractCreated created) → created ∈ contracts) :
    (e.apply env c).store.registry.Sound env.sdk names contracts := by
  have hmove := c.registryMove_apply env e
  generalize (e.apply env c).store.registry = r at hmove ⊢
  cases hmove with
  | stays => exact h
  | resolves opts blockNum spotMarket e =>
      exact h.resolveSpotMarket lawful separate (hspots rfl)
  | registers created => exact h.registerNamedSpotMarket separate _ _ (hspots rfl)
  | upserts created =>
      obtain ⟨e', hid, hyes, hno, hclaims⟩ := c.claims_upsertMarket env created
      exact h.claims separate (hcreated created rfl) hid hyes hno (hspots (.inl rfl))
        (hspots (.inr rfl)) hclaims
  | settles marketAddress => exact Registry.Sound.updateMarketState h marketAddress "Resolved"

/-- The registry is consistent after every event of every run in which a contract that is created
again keeps its legs. -/
theorem registry_consistent_throughout (lawful : LawfulSdk env.sdk) (c : Ctx)
    (hregistry : c.store.registry = {}) (events : List ChainEvent)
    (separate : Separate env.sdk (ChainEvent.addressesIn env.sdk events)
      (ChainEvent.contractsIn events)) :
    Throughout (ChainEvent.apply env) (fun c => c.store.registry.Consistent env.sdk) events c := by
  let sound := fun c : Ctx => c.store.registry.Sound env.sdk
    (ChainEvent.addressesIn env.sdk events) (ChainEvent.contractsIn events)
  have hkeeps : ∀ c e, e ∈ events → sound c → sound (e.apply env c) := by
    intro c e he hc
    apply sound_apply lawful separate hc
    · exact fun spot hspot => ⟨e, he, hspot⟩
    · rintro created rfl
      exact he
  have hstart : sound c := by
    simp only [sound, hregistry]
    exact Registry.sound_empty
  have hrun : Throughout (ChainEvent.apply env) sound events c :=
    throughout_of_keeps hkeeps (fun e he => he) hstart
  exact hrun.mono fun _ h => h.consistent

end Ctx

namespace Sample

def rain : EventContractCreatedEvent :=
  ⟨eventContract, "Rain?", "usd", "yes", "no", market, otherMarket, "Open", 0, account⟩

/-- A market is listed, an order comes in on another, and an event contract takes both. -/
def bothTaken : List ChainEvent :=
  [.global (.marketCreated ⟨market, "LP/USD", account⟩),
    .order {} 7 otherMarket (.created ⟨"1", .buy, 10, account, otherMarket, .limit 500000, none⟩),
    .global (.eventContractCreated rain)]

theorem contractsIn_bothTaken {created : EventContractCreatedEvent}
    (h : created ∈ ChainEvent.contractsIn bothTaken) : created = rain := by
  simpa [ChainEvent.contractsIn, bothTaken] using h

theorem addressesIn_bothTaken :
    ChainEvent.addressesIn setting.sdk bothTaken ⊆ {market, otherMarket} := by
  rintro spot ⟨e, he, hspot⟩
  simp only [bothTaken, List.mem_cons, List.not_mem_nil, or_false] at he
  rcases he with rfl | rfl | rfl
  · exact .inl (hspot.trans normalize_market)
  · exact .inr (hspot.trans normalize_otherMarket)
  · rcases hspot with hyes | hno
    · exact .inl (hyes.trans normalize_market)
    · exact .inr (hno.trans normalize_otherMarket)

theorem separate_bothTaken : EventContractCreatedEvent.Separate setting.sdk
    (ChainEvent.addressesIn setting.sdk bothTaken) (ChainEvent.contractsIn bothTaken) where
  yes_ne_no := by
    intro created hcreated
    rw [contractsIn_bothTaken hcreated]
    change normalizeSpotMarketKey sdk market ≠ normalizeSpotMarketKey sdk otherMarket
    rw [normalize_market, normalize_otherMarket]
    decide
  same := by
    intro created hcreated other hother _
    rw [contractsIn_bothTaken hcreated, contractsIn_bothTaken hother]
    exact ⟨rfl, rfl⟩
  disjoint := by
    intro created hcreated other hother hne
    rw [contractsIn_bothTaken hcreated, contractsIn_bothTaken hother] at hne
    exact absurd rfl hne
  apart := by
    intro created hcreated hmem
    rw [contractsIn_bothTaken hcreated] at hmem
    have hname : eventContract ∈ ({market, otherMarket} : Set String) := addressesIn_bothTaken hmem
    revert hname
    simp only [Set.mem_insert_iff, Set.mem_singleton_iff]
    decide
  injOn := by
    have hsub : ChainEvent.addressesIn setting.sdk bothTaken ∪
        EventContractCreatedEvent.marketAddress '' ChainEvent.contractsIn bothTaken ⊆
          {market, otherMarket, eventContract} := by
      rintro name (hspot | ⟨created, hcreated, rfl⟩)
      · rcases addressesIn_bothTaken hspot with rfl | rfl
        · exact .inl rfl
        · exact .inr (.inl rfl)
      · rw [contractsIn_bothTaken hcreated]
        exact .inr (.inr rfl)
    apply Set.InjOn.mono hsub
    have hids : ∀ a ∈ [market, otherMarket, eventContract], ∀ b ∈ [market, otherMarket, eventContract],
        uuidV5 a = uuidV5 b → a = b := by
      decide
    intro a ha b hb
    apply hids
    · simpa using ha
    · simpa using hb

/-- The two spot markets give way to the event contract. -/
theorem registry_consistent_bothTaken :
    EventContractCreatedEvent.Separate setting.sdk (ChainEvent.addressesIn setting.sdk bothTaken)
        (ChainEvent.contractsIn bothTaken) ∧
      Throughout (ChainEvent.apply setting) (fun c => c.store.registry.Consistent setting.sdk)
        bothTaken { store := {} } :=
  ⟨separate_bothTaken,
    Ctx.registry_consistent_throughout lawful { store := {} } rfl bothTaken separate_bothTaken⟩

/-! A contract that is created again with another leg leaves the old one behind. -/

def widerSetting : Env :=
  { setting with
    sdk := hexSdk (fun _ => account) fun name =>
      if name = vault then
        ⟨[146, 182, 56, 134, 196, 40, 86, 121, 144, 171, 24, 232, 159, 87, 151, 244], rfl⟩
      else uuidV5 name }

def rainOnVault : EventContractCreatedEvent := { rain with yesSpotMarket := vault }

def legMoved : List ChainEvent :=
  [.global (.eventContractCreated rain), .global (.eventContractCreated rainOnVault)]

theorem contractsIn_legMoved {created : EventContractCreatedEvent}
    (h : created ∈ ChainEvent.contractsIn legMoved) : created = rain ∨ created = rainOnVault := by
  simpa [ChainEvent.contractsIn, legMoved] using h

theorem addressesIn_legMoved :
    ChainEvent.addressesIn widerSetting.sdk legMoved ⊆ {market, otherMarket, vault} := by
  have hmarket : normalizeSpotMarketKey widerSetting.sdk market = market := by decide +kernel
  have hother : normalizeSpotMarketKey widerSetting.sdk otherMarket = otherMarket := by
    decide +kernel
  have hvault : normalizeSpotMarketKey widerSetting.sdk vault = vault := by decide +kernel
  rintro spot ⟨e, he, hspot⟩
  simp only [legMoved, List.mem_cons, List.not_mem_nil, or_false] at he
  rcases he with rfl | rfl
  · rcases hspot with hyes | hno
    · exact .inl (hyes.trans hmarket)
    · exact .inr (.inl (hno.trans hother))
  · rcases hspot with hyes | hno
    · exact .inr (.inr (hyes.trans hvault))
    · exact .inr (.inl (hno.trans hother))

theorem apart_legMoved : EventContractCreatedEvent.Apart widerSetting.sdk
    (ChainEvent.addressesIn widerSetting.sdk legMoved) (ChainEvent.contractsIn legMoved) where
  yes_ne_no := by
    intro created hcreated
    rcases contractsIn_legMoved hcreated with rfl | rfl
    · decide +kernel
    · decide +kernel
  disjoint := by
    intro created hcreated other hother hne
    rcases contractsIn_legMoved hcreated with rfl | rfl <;>
      rcases contractsIn_legMoved hother with rfl | rfl <;> exact absurd rfl hne
  apart := by
    intro created hcreated hmem
    have haddress : created.marketAddress = eventContract := by
      rcases contractsIn_legMoved hcreated with rfl | rfl <;> rfl
    have hname := addressesIn_legMoved hmem
    rw [haddress] at hname
    revert hname
    simp only [Set.mem_insert_iff, Set.mem_singleton_iff]
    decide
  injOn := by
    have hsub : ChainEvent.addressesIn widerSetting.sdk legMoved ∪
        EventContractCreatedEvent.marketAddress '' ChainEvent.contractsIn legMoved ⊆
          {name | name ∈ [market, otherMarket, vault, eventContract]} := by
      rintro name (hspot | ⟨created, hcreated, rfl⟩)
      · rcases addressesIn_legMoved hspot with rfl | rfl | rfl <;> simp
      · rcases contractsIn_legMoved hcreated with rfl | rfl <;> simp [rain, rainOnVault]
    apply Set.InjOn.mono hsub
    have hids : ∀ a ∈ [market, otherMarket, vault, eventContract],
        ∀ b ∈ [market, otherMarket, vault, eventContract],
          widerSetting.sdk.uuidV5 a = widerSetting.sdk.uuidV5 b → a = b := by
      decide +kernel
    exact fun a ha b hb => hids a ha b hb

/-- The old leg stays bound to the contract, which no longer trades there. -/
theorem registry_inconsistent_legMoved :
    EventContractCreatedEvent.Apart widerSetting.sdk
        (ChainEvent.addressesIn widerSetting.sdk legMoved) (ChainEvent.contractsIn legMoved) ∧
      ¬Throughout (ChainEvent.apply widerSetting)
        (fun c => c.store.registry.Consistent widerSetting.sdk) legMoved { store := {} } := by
  refine ⟨apart_legMoved, fun h => ?_⟩
  have hbound := h.finish.bound market
  have hold : (legMoved.foldl (ChainEvent.apply widerSetting)
      { store := {} }).store.registry.spotToMarket.lookup market =
        some ⟨marketUuid widerSetting.sdk eventContract, "yes"⟩ := by
    decide +kernel
  obtain ⟨m, hm, -, htrades⟩ := hbound _ hold
  have hleg : ((legMoved.foldl (ChainEvent.apply widerSetting)
      { store := {} }).store.registry.markets.lookup
        (marketUuid widerSetting.sdk eventContract)).map Market.yesSpotMarket = some vault := by
    decide +kernel
  rw [hm, Option.map_some, Option.some.injEq] at hleg
  cases m with
  | spot m => exact absurd htrades.2.2 (by decide)
  | event e =>
      rcases htrades with ⟨hyes, -⟩ | ⟨-, hno⟩
      · exact absurd (hyes.symm.trans hleg) (by decide)
      · exact absurd hno (by decide)
  | perp p => exact htrades

end Sample

end ClobIndexer
