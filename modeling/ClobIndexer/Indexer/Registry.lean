import ClobIndexer.Events
import ClobIndexer.Slug
import ClobIndexer.Persist.IndexWriteSet
/-!
# The market registry

Markets by id and the lookups from slug, spot address and name.  `upsert_market`
and `update_market_state` record their rows in the write set of the `markets`
table; `register_named_spot_market` and `ensure_standalone_spot_market` have no
write set to record into.
-/

namespace ClobIndexer

open Lib

structure SpotMarketRef where
  marketId : Uuid
  outcome : String
deriving DecidableEq

structure Registry where
  markets : Dict Uuid Market := ∅
  slugToMarket : Dict String Uuid := ∅
  spotToMarket : Dict String SpotMarketRef := ∅
  spotByName : Dict String String := ∅
deriving DecidableEq

structure RegistryTx where
  reg : Registry
  writes : TableWrites String Market

namespace Market

def setIconUrlIfEmpty (value : Option String) : Market → Market
  | spot m => spot { m with iconUrl := m.iconUrl.or value }
  | event m => event { m with iconUrl := m.iconUrl.or value }
  | perp m => perp { m with iconUrl := m.iconUrl.or value }

def setNameIfEmpty (value : String) : Market → Market
  | spot m => spot { m with name := if m.name = "" then value else m.name }
  | event m => event m
  | perp m => perp { m with name := if m.name = "" then value else m.name }

def setSlugIfEmpty (value : String) : Market → Market
  | spot m => spot m
  | event m => event { m with slug := if m.slug = "" then value else m.slug }
  | perp m => perp m

def setSpotLegs (yesSpot noSpot : String) : Market → Market
  | spot m => spot { m with marketAddress := yesSpot }
  | event m => event { m with yesSpotMarket := yesSpot, noSpotMarket := noSpot }
  | perp m => perp { m with marketAddress := yesSpot }

end Market

variable (sdk : Sdk)

namespace Registry

def getMarket (r : Registry) (id : Uuid) : Option Market := r.markets.lookup id

def allocateMarketSlug (r : Registry) (question : String) : String :=
  allocateUniqueSlug r.slugToMarket.keys question

def lookupSpotMarket (r : Registry) (spotMarket : String) : Option (Uuid × String) :=
  (r.spotToMarket.lookup (normalizeSpotMarketKey sdk spotMarket)).map fun ref =>
    (ref.marketId, ref.outcome)

def listSpotMarkets (r : Registry) : List String := r.spotToMarket.keys

/-- The market a spot address is bound to is known and is no spot market. -/
def boundToOther (r : Registry) (spot : String) : Bool :=
  match r.spotToMarket.lookup spot with
  | none => false
  | some existing =>
      match r.markets.lookup existing.marketId with
      | none => false
      | some market => market.category ≠ .spot

def spotShell (name spot deployer : String) : Market :=
  .spot
    { id := marketUuid sdk spot
      name := Text.trim name
      iconUrl := none
      marketAddress := spot
      state := "Active"
      deployer := Text.trim deployer
      baseToken := ""
      quoteToken := "" }

def registerNamedSpotMarket (name spotMarket deployer : String) (r : Registry) : Registry :=
  let spot := normalizeSpotMarketKey sdk spotMarket
  let nameKey := Text.toAsciiUppercase (Text.trim name)
  if nameKey = "" ∨ spot = "" then r
  else
    let named := { r with spotByName := r.spotByName.insert nameKey spot }
    -- already an event leg: keep the name only
    if named.boundToOther spot then named
    else
      let marketId := marketUuid sdk spot
      { named with
        spotToMarket :=
          if spot ∈ named.spotToMarket then named.spotToMarket
          else named.spotToMarket.insert spot ⟨marketId, "spot"⟩
        markets :=
          if marketId ∈ named.markets then named.markets
          else named.markets.insert marketId (spotShell sdk name spot deployer) }

def registersShell (name spotMarket : String) (r : Registry) : Bool :=
  let spot := normalizeSpotMarketKey sdk spotMarket
  Text.toAsciiUppercase (Text.trim name) ≠ "" ∧ spot ≠ "" ∧ r.boundToOther spot = false ∧
    marketUuid sdk spot ∉ r.markets

/-- The name a standalone market is registered under: one already known for the
address, or the address itself. -/
def standaloneName (r : Registry) (spot : String) : String :=
  match r.spotByName.entries.find? fun e => e.2 = spot with
  | some e => e.1
  | none => spot

def ensureStandaloneSpotMarket (spotMarket : String) (r : Registry) :
    Registry × (Uuid × String) :=
  let spot := normalizeSpotMarketKey sdk spotMarket
  match r.lookupSpotMarket sdk spot with
  | some existing => (r, existing)
  | none =>
      let r := r.registerNamedSpotMarket sdk (r.standaloneName spot) spot ""
      (r, (r.lookupSpotMarket sdk spot).getD (marketUuid sdk spot, "spot"))

/-- The mapping an order event on `spotMarket` is indexed under, registering a
standalone market when there is none. -/
def resolveSpotMarket (spotMarket : String) (r : Registry) : Registry × (Uuid × String) :=
  match r.lookupSpotMarket sdk spotMarket with
  | some mapped => (r, mapped)
  | none => r.ensureStandaloneSpotMarket sdk spotMarket

def resolveRegistersShell (spotMarket : String) (r : Registry) : Bool :=
  let spot := normalizeSpotMarketKey sdk spotMarket
  r.lookupSpotMarket sdk spotMarket = none ∧ r.registersShell sdk (r.standaloneName spot) spot

end Registry

namespace RegistryTx

/-- `remove_orphan_spot_shell`: only a spot market is dropped. -/
def removeOrphanSpotShell (spotMarket : String) (t : RegistryTx) : RegistryTx :=
  let orphanId := marketUuid sdk spotMarket
  match t.reg.markets.lookup orphanId with
  | none => t
  | some orphan =>
      if orphan.category ≠ .spot then t
      else
        { reg := { t.reg with markets := t.reg.markets.erase orphanId }
          writes := deleteMarket orphanId.toString t.writes }

def bindLeg (marketId : Uuid) (spot outcome : String) (t : RegistryTx) : RegistryTx :=
  let t := t.removeOrphanSpotShell sdk spot
  { t with reg :=
      { t.reg with spotToMarket := t.reg.spotToMarket.insert spot ⟨marketId, outcome⟩ } }

def bindEventSpotLegs (eventId : Uuid) (yesSpot noSpot : String) (t : RegistryTx) : RegistryTx :=
  (t.bindLeg sdk eventId yesSpot "yes").bindLeg sdk eventId noSpot "no"

/-- What `upsert_market` keeps of the market it replaces. -/
def inheritFrom (existing : Option Market) (market : Market) : Market :=
  match existing with
  | none => market
  | some existing =>
      ((market.setIconUrlIfEmpty existing.iconUrl).setNameIfEmpty existing.name).setSlugIfEmpty
        existing.slug

def upserted (r : Registry) (market : Market) : Market :=
  let market := inheritFrom (r.markets.lookup market.id) market
  market.setSpotLegs (normalizeSpotMarketKey sdk market.yesSpotMarket)
    (normalizeSpotMarketKey sdk market.noSpotMarket)

def putMarket (market : Market) (t : RegistryTx) : RegistryTx where
  reg :=
    { t.reg with
      slugToMarket :=
        if market.slug = "" then t.reg.slugToMarket
        else
          (Dict.retain (fun _ id => id ≠ market.id) t.reg.slugToMarket).insert market.slug
            market.id
      markets := t.reg.markets.insert market.id market }
  writes := storeMarket market t.writes

def bindMarket (market : Market) (t : RegistryTx) : RegistryTx :=
  let bind (outcome : String) : RegistryTx :=
    { t with reg := { t.reg with
        spotToMarket := t.reg.spotToMarket.insert market.yesSpotMarket ⟨market.id, outcome⟩ } }
  match market with
  | .event e => t.bindEventSpotLegs sdk e.id e.yesSpotMarket e.noSpotMarket
  | .spot _ => bind "spot"
  | .perp _ => bind "perp"

def upsertMarket (market : Market) (t : RegistryTx) : RegistryTx :=
  let market := upserted sdk t.reg market
  (t.putMarket market).bindMarket sdk market

def restate (marketAddress state : String) (market : Market) : Market :=
  if market.marketAddress = marketAddress then market.setState state else market

/-- `update_market_state`: every market at the address takes the new state. -/
def updateMarketState (marketAddress state : String) (t : RegistryTx) : RegistryTx where
  reg := { t.reg with markets := Dict.mapVal (restate marketAddress state) t.reg.markets }
  writes :=
    t.reg.markets.entries.foldl
      (fun w e =>
        if e.2.marketAddress = marketAddress then storeMarket (e.2.setState state) w else w)
      t.writes

end RegistryTx

end ClobIndexer
