import ClobIndexer.Indexer.Import
import ClobIndexer.Indexer.RegistryConsistency
/-!
# Loading the markets

A market row is loaded by `upsert_market`, which drops the spot markets at the legs of an
event, binds addresses anew and rewrites slugs.  When the rows own their addresses and their
slugs, and no row is a spot market at the leg of another, nothing of this reaches a row that
has been read before.
-/

namespace ClobIndexer

open Lib

variable {sdk : Sdk}

/-- The addresses that `upsert_market` binds, and what to. -/
def Market.binds : Market → List (String × SpotMarketRef)
  | .spot m => [(m.marketAddress, ⟨m.id, "spot"⟩)]
  | .event e => [(e.yesSpotMarket, ⟨e.id, "yes"⟩), (e.noSpotMarket, ⟨e.id, "no"⟩)]
  | .perp m => [(m.marketAddress, ⟨m.id, "perp"⟩)]

/-! ## Slugs -/

namespace RegistryTx

theorem slugToMarket_bindLeg (t : RegistryTx) (marketId : Uuid) (spot outcome : String) :
    (t.bindLeg sdk marketId spot outcome).reg.slugToMarket = t.reg.slugToMarket := by
  unfold bindLeg removeOrphanSpotShell
  dsimp only
  split
  · rfl
  · split_ifs <;> rfl

theorem slugToMarket_upsertMarket (t : RegistryTx) (market : Market) :
    (t.upsertMarket sdk market).reg.slugToMarket =
      (t.putMarket (upserted sdk t.reg market)).reg.slugToMarket := by
  unfold upsertMarket bindMarket
  dsimp only
  split
  · unfold bindEventSpotLegs
    rw [slugToMarket_bindLeg, slugToMarket_bindLeg]
  · rfl
  · rfl

theorem lookup_slugToMarket_putMarket (t : RegistryTx) {market : Market} (hslug : market.slug ≠ "")
    (slug : String) (id : Uuid) :
    (t.putMarket market).reg.slugToMarket.lookup slug = some id ↔
      slug = market.slug ∧ id = market.id ∨
        slug ≠ market.slug ∧ id ≠ market.id ∧ t.reg.slugToMarket.lookup slug = some id := by
  unfold putMarket
  dsimp only
  rw [if_neg hslug, Dict.lookup_insert_ite]
  split_ifs with heq
  · rw [Option.some.injEq, eq_comm (a := market.id)]
    simp [heq]
  · rw [Dict.lookup_retain, Option.filter_eq_some_iff]
    simp [heq, and_comm]

end RegistryTx

/-! ## Markets -/

namespace Registry

/-- The registry holds these markets, with their slugs and addresses. -/
structure HoldsMarkets (markets : Set Market) (r : Registry) : Prop where
  byId : r.markets.Holds (Dict.Entries Market.id (fun market => market) markets)
  slugs : r.slugToMarket.Holds fun slug id =>
    slug ≠ "" ∧ Dict.Entries Market.slug Market.id markets slug id
  spots : r.spotToMarket.Holds fun spot ref => ∃ market ∈ markets, (spot, ref) ∈ market.binds

theorem holdsMarkets_empty : HoldsMarkets ∅ {} where
  byId := Dict.holds_entries_empty
  slugs := Dict.holds_empty.congr fun slug id => by simp [Dict.Entries]
  spots := Dict.holds_empty.congr fun spot ref => by simp

structure ImportableMarkets (sdk : Sdk) (markets : Set Market) : Prop where
  one : ∀ m ∈ markets, ∀ m' ∈ markets, m.id = m'.id → m = m'
  slug : ∀ m ∈ markets, ∀ m' ∈ markets, m.slug ≠ "" → m.slug = m'.slug → m.id = m'.id
  bound : ∀ m ∈ markets, ∀ m' ∈ markets, ∀ spot ref ref', (spot, ref) ∈ m.binds →
    (spot, ref') ∈ m'.binds → ref = ref'
  yesNormalized : ∀ m ∈ markets, normalizeSpotMarketKey sdk m.yesSpotMarket = m.yesSpotMarket
  noNormalized : ∀ m ∈ markets, normalizeSpotMarketKey sdk m.noSpotMarket = m.noSpotMarket
  /-- no spot market at the leg of an event -/
  apart : ∀ e m, Market.event e ∈ markets → Market.spot m ∈ markets →
    m.id ≠ marketUuid sdk e.yesSpotMarket ∧ m.id ≠ marketUuid sdk e.noSpotMarket

end Registry

namespace RegistryTx

open Registry

/-- A market that is in its final form is stored as it is. -/
theorem upserted_eq_self {r : Registry} {market : Market}
    (hsame : ∀ existing, r.markets.lookup market.id = some existing → existing = market)
    (hyes : normalizeSpotMarketKey sdk market.yesSpotMarket = market.yesSpotMarket)
    (hno : normalizeSpotMarketKey sdk market.noSpotMarket = market.noSpotMarket) :
    upserted sdk r market = market := by
  have hinherit : inheritFrom (r.markets.lookup market.id) market = market := by
    unfold inheritFrom
    cases hlookup : r.markets.lookup market.id with
    | none => rfl
    | some existing =>
        rw [hsame existing hlookup]
        cases market with
        | spot m =>
            simp [Market.setIconUrlIfEmpty, Market.setNameIfEmpty, Market.setSlugIfEmpty,
              Market.iconUrl, Market.name]
        | event e =>
            simp [Market.setIconUrlIfEmpty, Market.setNameIfEmpty, Market.setSlugIfEmpty,
              Market.iconUrl, Market.slug]
        | perp m =>
            simp [Market.setIconUrlIfEmpty, Market.setNameIfEmpty, Market.setSlugIfEmpty,
              Market.iconUrl, Market.name]
  unfold upserted
  dsimp only
  rw [hinherit, hyes, hno]
  cases market <;> rfl

section Step

variable {markets done : Set Market} (h : ImportableMarkets sdk markets) (hdone : done ⊆ markets)
  {market : Market} (hmarket : market ∈ markets) {t : RegistryTx} (ht : HoldsMarkets done t.reg)

include h hdone hmarket ht

theorem upserted_of_importable : upserted sdk t.reg market = market := by
  refine upserted_eq_self ?_ (h.yesNormalized market hmarket) (h.noNormalized market hmarket)
  intro existing hexisting
  obtain ⟨m, hm, hid, rfl⟩ := (ht.byId _ _).mp hexisting
  exact h.one m (hdone hm) market hmarket hid

theorem slugs_upsertMarket (slug : String) (id : Uuid) :
    (t.upsertMarket sdk market).reg.slugToMarket.lookup slug = some id ↔
      slug ≠ "" ∧ Dict.Entries Market.slug Market.id (insert market done) slug id := by
  rw [slugToMarket_upsertMarket, upserted_of_importable h hdone hmarket ht, Dict.entries_insert]
  by_cases hslug : market.slug = ""
  · have hsame : (t.putMarket market).reg.slugToMarket = t.reg.slugToMarket := if_pos hslug
    rw [hsame, ht.slugs, hslug]
    tauto
  · rw [lookup_slugToMarket_putMarket t hslug, ht.slugs]
    constructor
    · rintro (⟨rfl, rfl⟩ | ⟨-, -, hne, hentry⟩)
      · exact ⟨hslug, .inl ⟨rfl, rfl⟩⟩
      · exact ⟨hne, .inr hentry⟩
    · rintro ⟨hne, ⟨rfl, rfl⟩ | ⟨m, hm, rfl, rfl⟩⟩
      · exact .inl ⟨rfl, rfl⟩
      · by_cases hid : m.id = market.id
        · have hsame : m = market := h.one m (hdone hm) market hmarket hid
          exact .inl ⟨congrArg Market.slug hsame, hid⟩
        · refine .inr ⟨fun heq => hid ?_, hid, hne, m, hm, rfl, rfl⟩
          exact h.slug m (hdone hm) market hmarket hne heq

theorem holdsMarkets_of_single (spot outcome : String)
    (hbinds : market.binds = [(spot, ⟨market.id, outcome⟩)])
    (hreg : (t.upsertMarket sdk market).reg.markets = t.reg.markets.insert market.id market ∧
      (t.upsertMarket sdk market).reg.spotToMarket =
        t.reg.spotToMarket.insert spot ⟨market.id, outcome⟩) :
    HoldsMarkets (insert market done) (t.upsertMarket sdk market).reg := by
  have hslugs := slugs_upsertMarket h hdone hmarket ht
  refine ⟨?_, hslugs, ?_⟩
  · rw [hreg.1]
    exact ht.byId.insertRow fun m hm => h.one m (hdone hm) market hmarket
  · rw [hreg.2]
    have hself : (spot, ⟨market.id, outcome⟩) ∈ market.binds := by simp [hbinds]
    have hunique : ∀ ref, (∃ m ∈ done, (spot, ref) ∈ m.binds) → ref = ⟨market.id, outcome⟩ := by
      rintro ref ⟨m, hm, href⟩
      exact h.bound m (hdone hm) market hmarket spot ref _ href hself
    refine (ht.spots.insert hunique).congr fun spot' ref' => ?_
    rw [Set.exists_mem_insert, hbinds]
    simp

/-- An event market binds its legs, and drops no market that has been loaded. -/
theorem holdsMarkets_of_event {e : EventMarket} (he : market = .event e) :
    HoldsMarkets (insert market done) (t.upsertMarket sdk market).reg := by
  have hslugs := slugs_upsertMarket h hdone hmarket ht
  have hself := upserted_of_importable h hdone hmarket ht
  subst he
  have hclaims : Claims sdk e t.reg (t.upsertMarket sdk (.event e)).reg := claims_upserted t hself
  have hyes : (e.yesSpotMarket, ⟨e.id, "yes"⟩) ∈ (Market.event e).binds := by simp [Market.binds]
  have hno : (e.noSpotMarket, ⟨e.id, "no"⟩) ∈ (Market.event e).binds := by simp [Market.binds]
  refine ⟨?_, hslugs, ?_⟩
  · intro id m
    rw [hclaims.markets, Dict.entries_insert]
    change _ ↔ id = e.id ∧ m = .event e ∨ _
    split_ifs with hid
    · constructor
      · rintro ⟨hm, -⟩
        exact .inl ⟨hid, hm⟩
      · rintro (⟨-, rfl⟩ | ⟨m', hm', hid', rfl⟩)
        · exact ⟨rfl, fun hspot => nomatch hspot⟩
        · have hsame : m' = .event e := h.one m' (hdone hm') _ hmarket (hid'.trans hid)
          exact ⟨hsame, fun hspot => by rw [hsame] at hspot; cases hspot⟩
    · rw [ht.byId]
      constructor
      · exact fun hm => .inr hm.1
      · intro hm
        have hentry := hm.resolve_left fun hand => hid hand.1
        refine ⟨hentry, fun hspot => ?_⟩
        obtain ⟨m', hm', rfl, rfl⟩ := hentry
        cases m' with
        | spot shell => exact h.apart e shell hmarket (hdone hm')
        | event other => cases hspot
        | perp p => cases hspot
  · intro spot ref
    rw [hclaims.bindings]
    dsimp only
    rw [Set.exists_mem_insert]
    have hlegs : (spot, ref) ∈ (Market.event e).binds ↔
        spot = e.yesSpotMarket ∧ ref = ⟨e.id, "yes"⟩ ∨ spot = e.noSpotMarket ∧ ref = ⟨e.id, "no"⟩ := by
      simp [Market.binds]
    have hnew : ∀ {ref'}, (spot, ref') ∈ (Market.event e).binds →
        ((spot, ref) ∈ (Market.event e).binds ∨ (∃ m ∈ done, (spot, ref) ∈ m.binds) ↔
          some ref' = some ref) := by
      intro ref' href'
      constructor
      · rintro (href | ⟨m, hm, href⟩)
        · rw [h.bound _ hmarket _ hmarket spot ref' ref href' href]
        · rw [h.bound _ hmarket m (hdone hm) spot ref' ref href' href]
      · intro heq
        cases heq
        exact .inl href'
    split_ifs with hspotNo hspotYes
    · subst hspotNo
      exact (hnew hno).symm
    · subst hspotYes
      exact (hnew hyes).symm
    · rw [ht.spots, hlegs]
      simp [hspotNo, hspotYes]

theorem holdsMarkets_upsertMarket :
    HoldsMarkets (insert market done) (t.upsertMarket sdk market).reg := by
  have hself := upserted_of_importable h hdone hmarket ht
  cases hcase : market with
  | spot m =>
      rw [← hcase]
      refine holdsMarkets_of_single h hdone hmarket ht m.marketAddress "spot" ?_ ?_
      · rw [hcase]
        rfl
      · unfold upsertMarket
        rw [hself, hcase]
        exact ⟨rfl, rfl⟩
  | event e =>
      rw [← hcase]
      exact holdsMarkets_of_event h hdone hmarket ht hcase
  | perp m =>
      rw [← hcase]
      refine holdsMarkets_of_single h hdone hmarket ht m.marketAddress "perp" ?_ ?_
      · rw [hcase]
        rfl
      · unfold upsertMarket
        rw [hself, hcase]
        exact ⟨rfl, rfl⟩

end Step

theorem holdsMarkets_importMarkets {markets : List Market}
    (h : ImportableMarkets sdk {m | m ∈ markets}) {t : RegistryTx} (ht : t.reg = {}) :
    HoldsMarkets {m | m ∈ markets} (t.importMarkets sdk markets).reg := by
  have hempty : HoldsMarkets ∅ t.reg := ht ▸ holdsMarkets_empty
  exact foldl_rows (P := fun done (t : RegistryTx) => HoldsMarkets done t.reg)
    (U := {m | m ∈ markets})
    (fun _ _ _ hdone hmarket ht => holdsMarkets_upsertMarket h hdone hmarket ht) markets
    (fun _ hm => hm) hempty

end RegistryTx

/-! ## The markets of a sound registry -/

namespace Registry

variable {names : Set String} {contracts : Set EventContractCreatedEvent} {r r' : Registry}

def known (r : Registry) : Set Market := {market | ∃ id, r.markets.lookup id = some market}

/-- Slugs lead to the events that carry them. -/
def Slugged (r : Registry) : Prop :=
  r.slugToMarket.Holds fun slug id =>
    slug ≠ "" ∧ ∃ market, r.markets.lookup id = some market ∧ market.slug = slug

theorem Sound.holdsMarkets (h : r.Sound sdk names contracts) (hslugs : r.Slugged) :
    r.HoldsMarkets r.known := by
  refine ⟨?_, ?_, ?_⟩
  · intro id market
    constructor
    · intro hmarket
      exact ⟨market, ⟨id, hmarket⟩, (h.stems id market hmarket).1, rfl⟩
    · rintro ⟨market', ⟨id', hmarket⟩, rfl, rfl⟩
      rw [(h.stems id' market' hmarket).1]
      exact hmarket
  · refine hslugs.congr fun slug id => and_congr_right fun _ => ?_
    constructor
    · rintro ⟨market, hmarket, hslug⟩
      exact ⟨market, ⟨id, hmarket⟩, hslug, (h.stems id market hmarket).1⟩
    · rintro ⟨market, ⟨id', hmarket⟩, hslug, rfl⟩
      refine ⟨market, ?_, hslug⟩
      rw [(h.stems id' market hmarket).1]
      exact hmarket
  · intro spot ref
    constructor
    · intro hspot
      obtain ⟨market, hmarket, hid, htrades⟩ := h.consistent.bound spot ref hspot
      refine ⟨market, ⟨_, hmarket⟩, ?_⟩
      obtain ⟨id, outcome⟩ := ref
      dsimp only at hid htrades
      cases market with
      | spot m =>
          obtain ⟨-, rfl, rfl⟩ := htrades
          simp [Market.binds, ← hid, Market.id]
      | event e =>
          rcases htrades with ⟨rfl, rfl⟩ | ⟨rfl, rfl⟩
          · simp [Market.binds, ← hid, Market.id]
          · simp [Market.binds, ← hid, Market.id]
      | perp p => exact htrades.elim
    · rintro ⟨market, ⟨id, hmarket⟩, hbinds⟩
      obtain ⟨hid, hstems⟩ := h.stems id market hmarket
      cases market with
      | spot m =>
          have hshell := h.consistent.shells id m hmarket
          simp only [Market.binds, List.mem_singleton, Prod.mk.injEq] at hbinds
          obtain ⟨rfl, rfl⟩ := hbinds
          rw [hshell, ← hid]
          rfl
      | event e =>
          obtain ⟨hyes, hno⟩ := h.consistent.legs id e hmarket
          simp only [Market.binds, List.mem_cons, Prod.mk.injEq, List.not_mem_nil, or_false] at hbinds
          rcases hbinds with ⟨rfl, rfl⟩ | ⟨rfl, rfl⟩
          · rw [hyes, ← hid]
            rfl
          · rw [hno, ← hid]
            rfl
      | perp p => exact hstems.elim

theorem Sound.importableMarkets (h : r.Sound sdk names contracts) (hslugs : r.Slugged)
    (separate : EventContractCreatedEvent.Separate sdk names contracts)
    (hnames : ∀ spot ∈ names, normalizeSpotMarketKey sdk spot = spot)
    (hlegs : ∀ created ∈ contracts, created.yesLeg sdk ∈ names ∧ created.noLeg sdk ∈ names) :
    ImportableMarkets sdk r.known := by
  have holds := h.holdsMarkets hslugs
  have haddresses : ∀ m ∈ r.known, m.yesSpotMarket ∈ names ∧ m.noSpotMarket ∈ names := by
    rintro m ⟨id, hm⟩
    obtain ⟨-, hstems⟩ := h.stems id m hm
    cases m with
    | spot m => exact ⟨hstems.1, hstems.1⟩
    | event e =>
        obtain ⟨created, hcreated, -, hyes, hno⟩ := hstems
        change e.yesSpotMarket ∈ names ∧ e.noSpotMarket ∈ names
        rw [hyes, hno]
        exact hlegs created hcreated
    | perp p => exact hstems.elim
  constructor
  · intro m hm m' hm' hid
    exact holds.byId.unique ⟨m, hm, hid, rfl⟩ ⟨m', hm', rfl, rfl⟩
  · intro m hm m' hm' hne hslug
    exact holds.slugs.unique ⟨hne, m, hm, rfl, rfl⟩ ⟨hne, m', hm', hslug.symm, rfl⟩
  · intro m hm m' hm' spot ref ref' href href'
    exact holds.spots.unique ⟨m, hm, href⟩ ⟨m', hm', href'⟩
  · exact fun m hm => hnames _ (haddresses m hm).1
  · exact fun m hm => hnames _ (haddresses m hm).2
  · rintro e m ⟨id, he⟩ ⟨id', hm⟩
    obtain ⟨hname, hown⟩ := (h.stems id' _ hm).2
    obtain ⟨hyes, hno⟩ := haddresses (.event e) ⟨id, he⟩
    obtain ⟨hneYes, hneNo⟩ := h.consistent.unowned id e id' m he hm
    rw [hown]
    exact ⟨fun heq => hneYes (separate.spot_eq hname hyes heq),
      fun heq => hneNo (separate.spot_eq hname hno heq)⟩

/-! ## Slugs are kept -/

theorem slugged_empty : Slugged {} :=
  Dict.holds_empty.congr fun slug id => by simp

theorem Slugged.congr (h : r.Slugged) (hslugs : r'.slugToMarket = r.slugToMarket)
    (hmarkets : ∀ slug id, slug ≠ "" →
      ((∃ market, r'.markets.lookup id = some market ∧ market.slug = slug) ↔
        ∃ market, r.markets.lookup id = some market ∧ market.slug = slug)) : r'.Slugged := by
  intro slug id
  rw [hslugs, h slug id]
  exact and_congr_right fun hne => (hmarkets slug id hne).symm

theorem category_ne_spot_of_slug {market : Market} (h : market.slug ≠ "") :
    market.category ≠ .spot := by
  intro hspot
  cases market with
  | spot m => exact h rfl
  | event e => cases hspot
  | perp p => cases hspot

/-- What is registered under a name is a spot market. -/
theorem lookup_registerNamedSpotMarket_iff (name spotMarket deployer : String) (r : Registry)
    {id : Uuid} {market : Market} (hmarket : market.category ≠ .spot) :
    (r.registerNamedSpotMarket sdk name spotMarket deployer).markets.lookup id = some market ↔
      r.markets.lookup id = some market := by
  rcases registerNamedSpotMarket_cases sdk name spotMarket deployer r with
    ⟨-, heq⟩ | ⟨-, heq⟩ | ⟨-, -, heq⟩
  · rw [heq]
  · rw [heq]
  · rw [heq, lookup_markets_withShell]
    cases r.markets.lookup id with
    | some old => rw [Option.some_or]
    | none =>
        rw [Option.none_or]
        refine iff_of_false ?_ (by simp)
        intro hshell
        split_ifs at hshell
        cases hshell
        exact hmarket rfl

theorem slugToMarket_registerNamedSpotMarket (name spotMarket deployer : String) (r : Registry) :
    (r.registerNamedSpotMarket sdk name spotMarket deployer).slugToMarket = r.slugToMarket := by
  rcases registerNamedSpotMarket_cases sdk name spotMarket deployer r with
    ⟨-, heq⟩ | ⟨-, heq⟩ | ⟨-, -, heq⟩
  · rw [heq]
  · rw [heq]
  · rw [heq]
    rfl

theorem Slugged.registerNamedSpotMarket (h : r.Slugged) (name spotMarket deployer : String) :
    (r.registerNamedSpotMarket sdk name spotMarket deployer).Slugged := by
  refine h.congr (slugToMarket_registerNamedSpotMarket _ _ _ _) fun slug id hne => ?_
  refine exists_congr fun market => and_congr_left fun hslug => ?_
  exact lookup_registerNamedSpotMarket_iff _ _ _ _ (category_ne_spot_of_slug (hslug ▸ hne))

theorem Slugged.resolveSpotMarket (h : r.Slugged) (spotMarket : String) :
    (r.resolveSpotMarket sdk spotMarket).1.Slugged := by
  rcases resolveSpotMarket_cases sdk spotMarket r with heq | ⟨name, heq⟩
  · rw [heq]
    exact h
  · rw [heq]
    exact h.registerNamedSpotMarket _ _ _

theorem Slugged.updateMarketState {t : RegistryTx} (h : t.reg.Slugged)
    (marketAddress state : String) : (t.updateMarketState marketAddress state).reg.Slugged := by
  refine h.congr rfl fun slug id _ => ?_
  have hslug : ∀ market : Market, (RegistryTx.restate marketAddress state market).slug =
      market.slug := by
    intro market
    unfold RegistryTx.restate
    split_ifs
    · cases market <;> rfl
    · rfl
  change (∃ market : Market, (Dict.mapVal _ t.reg.markets).lookup id = some market ∧
    market.slug = slug) ↔ _
  rw [Dict.lookup_mapVal]
  simp only [Option.map_eq_some_iff]
  constructor
  · rintro ⟨market, ⟨old, hold, rfl⟩, hmarket⟩
    exact ⟨old, hold, hslug old ▸ hmarket⟩
  · rintro ⟨old, hold, hmarket⟩
    exact ⟨_, ⟨old, hold, rfl⟩, (hslug old).trans hmarket⟩

theorem event_upserted_keeps (sdk : Sdk) (r : Registry) {e : EventMarket} (hslug : e.slug ≠ "") :
    ∃ e' : EventMarket, RegistryTx.upserted sdk r (.event e) = .event e' ∧ e'.id = e.id ∧
      e'.slug = e.slug := by
  unfold RegistryTx.upserted RegistryTx.inheritFrom
  cases r.markets.lookup (Market.event e).id with
  | none => exact ⟨_, rfl, rfl, rfl⟩
  | some existing => exact ⟨_, rfl, rfl, if_neg hslug⟩

/-- An event market is stored under a slug that no other market has. -/
theorem Slugged.upsertEvent {t : RegistryTx} (h : t.reg.Slugged) {e : EventMarket}
    (hempty : e.slug ≠ "") (hfree : e.slug ∉ t.reg.slugToMarket.keys) :
    (t.upsertMarket sdk (.event e)).reg.Slugged := by
  obtain ⟨e', he', -, hslug⟩ := event_upserted_keeps sdk t.reg hempty
  have hclaims : Claims sdk e' t.reg (t.upsertMarket sdk (.event e)).reg := claims_upserted t he'
  have hne : (Market.event e').slug ≠ "" := fun heq => hempty (hslug.symm.trans heq)
  intro slug id
  rw [RegistryTx.slugToMarket_upsertMarket, he', RegistryTx.lookup_slugToMarket_putMarket t hne]
  -- what is stored with a slug is the event itself, or an event that was there before
  have hmarkets : slug ≠ "" → ((∃ market, (t.upsertMarket sdk (.event e)).reg.markets.lookup id =
      some market ∧ market.slug = slug) ↔
        if id = e'.id then slug = e'.slug
        else ∃ market, t.reg.markets.lookup id = some market ∧ market.slug = slug) := by
    intro hslug
    have hkept : ∀ market : Market, market.slug = slug → market.category ≠ .spot :=
      fun market hmarket => category_ne_spot_of_slug (hmarket ▸ hslug)
    simp only [hclaims.markets]
    split_ifs
    · constructor
      · rintro ⟨market, ⟨rfl, -⟩, hmarket⟩
        exact hmarket.symm
      · rintro rfl
        exact ⟨_, ⟨rfl, fun hspot => nomatch hspot⟩, rfl⟩
    · constructor
      · rintro ⟨market, ⟨hold, -⟩, hmarket⟩
        exact ⟨market, hold, hmarket⟩
      · rintro ⟨market, hold, hmarket⟩
        exact ⟨market, ⟨hold, fun hspot => absurd hspot (hkept market hmarket)⟩, hmarket⟩
  constructor
  · rintro (⟨rfl, rfl⟩ | ⟨hother, hid, hlookup⟩)
    · refine ⟨hne, (hmarkets hne).mpr ?_⟩
      exact (if_pos rfl).mpr rfl
    · obtain ⟨hslugNe, hold⟩ := (h slug id).mp hlookup
      refine ⟨hslugNe, (hmarkets hslugNe).mpr ?_⟩
      exact (if_neg hid).mpr hold
  · rintro ⟨hslugNe, hstored⟩
    have hstored := (hmarkets hslugNe).mp hstored
    split_ifs at hstored with hid
    · exact .inl ⟨hstored, hid⟩
    · have hlookup := (h slug id).mpr ⟨hslugNe, hstored⟩
      refine .inr ⟨?_, hid, hlookup⟩
      rintro rfl
      apply hfree
      rw [← hslug]
      exact AList.mem_keys.mp (Dict.mem_iff_lookup.mpr ⟨id, hlookup⟩)

end Registry

end ClobIndexer
