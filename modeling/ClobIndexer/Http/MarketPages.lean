import ClobIndexer.Http.MarkCancelled
import ClobIndexer.Http.PageParams
import ClobIndexer.Indexer.EventSlugs
import ClobIndexer.Lib.Listings
import Mathlib.Data.Prod.Lex
import Mathlib.Data.String.Basic
/-!
# Pages of markets

`src/http/process/markets.rs`, the listings of `src/http/routes/markets.rs` and
`IndexState::query_markets`.  A request is refused or becomes a query, and every query that
makes sense can be asked for.  Event markets listed by their slugs keep their places among
each other, so a client that reads them page by page while blocks are indexed misses none.
-/

namespace ClobIndexer

open Lib Lib.Paging Lib.Listing

namespace MarketCategory

def parse (value : String) : Option MarketCategory :=
  let value := Text.toAsciiLowercase (Text.trim value)
  if value = "spot" then some spot
  else if value = "event" ∨ value = "event_contract" then some event
  else if value = "perp" ∨ value = "perpetual" then some perp
  else none

def asStr : MarketCategory → String
  | spot => "spot"
  | event => "event"
  | perp => "perp"

theorem parse_asStr (category : MarketCategory) : parse category.asStr = some category := by
  cases category <;> decide +kernel

end MarketCategory

inductive MarketSortOrder where
  | resolutionDeadline
  | slug
  | question
deriving DecidableEq

namespace MarketSortOrder

/-- `MarketSortOrder::parse`: what is not a name of an order means the deadline. -/
def parse (value : Option String) : MarketSortOrder :=
  match givenText value with
  | some value =>
      if value = "slug" ∨ value = "name" then slug
      else if value = "question" ∨ value = "label" then question
      else resolutionDeadline
  | none => resolutionDeadline

def text : MarketSortOrder → String
  | resolutionDeadline => "resolution_deadline"
  | slug => "slug"
  | question => "question"

theorem parse_text (order : MarketSortOrder) : parse (some order.text) = order := by
  cases order <;> decide +kernel

end MarketSortOrder

namespace Market

def state : Market → String
  | spot m => m.state
  | event m => m.state
  | perp m => m.state

def deployer : Market → String
  | spot m => m.deployer
  | event m => m.deployer
  | perp m => m.deployer

def resolutionDeadline : Market → UInt64
  | event m => m.resolutionDeadline
  | _ => 0

end Market

/-! ## Requests -/

structure QueryMarketsParams where
  limit : Option UInt32 := none
  offset : Option UInt32 := none
  slug : Option String := none
  slugs : Option String := none
  marketIds : Option String := none
  marketAddresses : Option String := none
  state : Option String := none
  category : Option String := none
  deployer : Option String := none
  order : Option String := none
  ascending : Option Bool := none

structure MarketQuery where
  limit : UInt32
  offset : UInt32
  slug : Option String
  slugs : List String
  marketIds : List Uuid
  marketAddresses : List String
  state : Option String
  category : Option MarketCategory
  deployer : Option String
  order : MarketSortOrder
  ascending : Bool
deriving DecidableEq

def defaultMarketsPageLimit : UInt32 := 100

def maxMarketsPageLimit : UInt32 := 100

def maxMarketsSlugBatch : Nat := 100

def maxMarketsIdBatch : Nat := 100

section Requests

-- `Uuid::parse_str`, with the text of its error
variable (parseStr : String → Except String Uuid)

def parseId (item : String) : Except AppError Uuid :=
  match parseStr item with
  | .ok id => .ok id
  | .error error => .error (.badRequest ("invalid market id '" ++ item ++ "': " ++ error))

def parseUuidCsv (value : Option String) : Except AppError (List Uuid) :=
  let items := parseCsv value
  if maxMarketsIdBatch < items.length then
    .error (.badRequest ("market_ids accepts at most " ++ Nat.repr maxMarketsIdBatch ++ " ids"))
  else items.mapM (parseId parseStr)

def givenCategory : Option String → Except AppError (Option MarketCategory)
  | none => .ok none
  | some raw =>
      match MarketCategory.parse raw with
      | some category => .ok (some category)
      | none => .error (.badRequest ("invalid category `" ++ raw ++ "`; use spot|event|perp"))

def buildMarketQuery (params : QueryMarketsParams) : Except AppError MarketQuery :=
  let slugs := parseCsv params.slugs
  let marketAddresses := parseCsv params.marketAddresses
  if maxMarketsSlugBatch < slugs.length then
    .error (.badRequest ("slugs accepts at most " ++ Nat.repr maxMarketsSlugBatch ++ " values"))
  else if maxMarketsIdBatch < marketAddresses.length then
    .error (.badRequest
      ("market_addresses accepts at most " ++ Nat.repr maxMarketsIdBatch ++ " values"))
  else
    match givenCategory params.category with
    | .error e => .error e
    | .ok category =>
        match parseUuidCsv parseStr params.marketIds with
        | .error e => .error e
        | .ok marketIds =>
            .ok
              { limit := clampLimit 1 maxMarketsPageLimit
                  (params.limit.getD defaultMarketsPageLimit)
                offset := params.offset.getD 0
                slug := givenText params.slug
                slugs := slugs
                marketIds := marketIds
                marketAddresses := marketAddresses
                state := givenText params.state
                category := category
                deployer := givenText params.deployer
                order := MarketSortOrder.parse params.order
                ascending := params.ascending.getD true }

end Requests

/-! ## Listings -/

def Registry.listing (r : Registry) : List Market := r.markets.entries.map fun e => e.2

namespace MarketQuery

def keeps (query : MarketQuery) (market : Market) : Bool :=
  query.slug.all (fun slug => market.slug = slug ∨ market.name = slug) &&
    (query.slugs.isEmpty || decide (market.slug ∈ query.slugs ∨ market.name ∈ query.slugs)) &&
    (query.marketIds.isEmpty || decide (market.id ∈ query.marketIds)) &&
    (query.marketAddresses.isEmpty ||
      decide (addrKey market.marketAddress ∈ query.marketAddresses.map addrKey)) &&
    query.state.all (fun state => Text.eqIgnoreAsciiCase market.state state) &&
    query.category.all (fun category => market.category = category) &&
    query.deployer.all (fun deployer => addrKey market.deployer = addrKey deployer)

def slugKey (market : Market) : String ×ₗ String := toLex (market.slug, market.name)

def sorted (query : MarketQuery) (markets : List Market) : List Market :=
  match query.order with
  | .resolutionDeadline =>
      sortBy (fun market => market.resolutionDeadline.toNat) query.ascending markets
  | .slug => sortBy slugKey query.ascending markets
  | .question => sortBy (fun market => market.label) query.ascending markets

end MarketQuery

def queryMarkets (query : MarketQuery) (markets : List Market) : List Market × Nat :=
  let markets := query.sorted (markets.filter query.keeps)
  (window query.offset.toNat query.limit.toNat markets, markets.length)

structure MarketsPageResponse where
  markets : List Market
  total : Nat
  limit : UInt32
  offset : UInt32

def marketsPage (parseStr : String → Except String Uuid) (params : QueryMarketsParams)
    (markets : List Market) : Except AppError MarketsPageResponse :=
  match buildMarketQuery parseStr params with
  | .error e => .error e
  | .ok query =>
      let (markets, total) := queryMarkets query markets
      .ok ⟨markets, total, query.limit, query.offset⟩

/-- `query_markets_with_category`: the routes of spot, event and perp markets. -/
def marketsPageWithCategory (parseStr : String → Except String Uuid)
    (params : QueryMarketsParams) (category : MarketCategory) (markets : List Market) :
    Except AppError MarketsPageResponse :=
  marketsPage parseStr { params with category := some category.asStr } markets

/-! ## A client -/

/-- The index, and a client that reads event markets page by page. -/
structure MarketReader where
  ctx : Ctx
  reader : Reader Market := {}

inductive MarketReaderStep where
  | index (step : BlockStep)
  | ask (iteration : Iteration Market)

def MarketReaderStep.indexed : MarketReaderStep → Option BlockStep
  | .index step => some step
  | .ask _ => none

namespace MarketReader

variable (env : Env) (parseStr : String → Except String Uuid) (params : QueryMarketsParams)

/-- The client asks from its next row on, until a page is not full. -/
def ask (iteration : Iteration Market) (r : MarketReader) : MarketReader :=
  if r.reader.finished = true ∨ 2 ^ 32 ≤ r.reader.next then r
  else
    match marketsPageWithCategory parseStr
        { params with offset := some (UInt32.ofNat r.reader.next) } .event
        (iteration.order r.ctx.store.registry.listing) with
    | .error _ => r
    | .ok page => { r with reader := r.reader.read page.limit.toNat page.markets }

def step (r : MarketReader) : MarketReaderStep → MarketReader
  | .index step => { r with ctx := step.apply env r.ctx }
  | .ask iteration => r.ask parseStr params iteration

end MarketReader

/-! ## The queries that can be asked for -/

structure MarketQuery.WellFormed (query : MarketQuery) : Prop where
  positive : 1 ≤ query.limit.toNat
  limited : query.limit.toNat ≤ maxMarketsPageLimit.toNat
  slug : ∀ slug ∈ query.slug, Text.trim slug = slug ∧ slug ≠ ""
  slugs : ∀ slug ∈ query.slugs, CsvValue slug
  fewSlugs : query.slugs.length ≤ maxMarketsSlugBatch
  fewIds : query.marketIds.length ≤ maxMarketsIdBatch
  addresses : ∀ address ∈ query.marketAddresses, CsvValue address
  fewAddresses : query.marketAddresses.length ≤ maxMarketsIdBatch
  state : ∀ state ∈ query.state, Text.trim state = state ∧ state ≠ ""
  deployer : ∀ deployer ∈ query.deployer, Text.trim deployer = deployer ∧ deployer ≠ ""

def MarketQuery.params (query : MarketQuery) : QueryMarketsParams where
  limit := some query.limit
  offset := some query.offset
  slug := query.slug
  slugs := some (csv query.slugs)
  marketIds := some (csv (query.marketIds.map Uuid.toString))
  marketAddresses := some (csv query.marketAddresses)
  state := query.state
  category := query.category.map MarketCategory.asStr
  deployer := query.deployer
  order := some query.order.text
  ascending := some query.ascending

theorem Uuid.isWhitespace_hexDigit : ∀ n : Fin 16,
    Text.isWhitespace (hexDigit n) = false ∧ hexDigit n ≠ ',' := by decide

theorem Uuid.mem_toString {id : Uuid} {c : Char} (h : c ∈ id.toString.toList) :
    c = '-' ∨ ∃ n : Fin 16, c = hexDigit n := by
  have hdigit : ∀ c ∈ hexDigits id.bytes, ∃ n : Fin 16, c = hexDigit n := by
    intro c hc
    obtain ⟨b, -, hb⟩ := List.mem_flatMap.mp hc
    obtain ⟨hhigh, hlow⟩ := nibbles b
    simp only [hexByte, List.mem_cons, List.not_mem_nil, or_false] at hb
    rcases hb with rfl | rfl
    · exact ⟨⟨_, hhigh⟩, rfl⟩
    · exact ⟨⟨_, hlow⟩, rfl⟩
  by_cases hc : c = '-'
  · exact .inl hc
  · have hfiltered : c ∈ id.toString.toList.filter (· != '-') :=
      List.mem_filter.mpr ⟨h, bne_iff_ne.mpr hc⟩
    rw [filter_toString] at hfiltered
    exact .inr (hdigit c hfiltered)

theorem Uuid.csvValue_toString (id : Uuid) : CsvValue id.toString := by
  constructor
  · rw [← String.ofList_toList (s := id.toString)]
    apply Text.trim_ofList
    intro c hc
    rcases mem_toString hc with rfl | ⟨n, rfl⟩
    · decide
    · exact (isWhitespace_hexDigit n).1
  · intro hempty
    have hnil := congrArg String.toList hempty
    unfold toString at hnil
    simp at hnil
  · intro hcomma
    rcases mem_toString hcomma with h | ⟨n, h⟩
    · exact absurd h (by decide)
    · exact (isWhitespace_hexDigit n).2 h.symm

section Accepted

variable {parseStr : String → Except String Uuid} {query : MarketQuery}

theorem length_of_mapM {A B E : Type} {f : A → Except E B} {as : List A} {bs : List B}
    (h : as.mapM f = .ok bs) : bs.length = as.length := by
  induction as generalizing bs with
  | nil =>
      cases h
      rfl
  | cons a as ih =>
      rw [List.mapM_cons] at h
      cases ha : f a with
      | error e =>
          rw [ha] at h
          cases h
      | ok b =>
          cases has : as.mapM f with
          | error e =>
              rw [ha, has] at h
              cases h
          | ok bs' =>
              rw [ha, has] at h
              cases h
              rw [List.length_cons, List.length_cons, ih has]

theorem mapM_map_eq_ok {A B E : Type} {f : A → Except E B} {g : B → A} {bs : List B}
    (h : ∀ b ∈ bs, f (g b) = .ok b) : (bs.map g).mapM f = .ok bs := by
  induction bs with
  | nil => rfl
  | cons b bs ih =>
      rw [List.map_cons, List.mapM_cons, h b List.mem_cons_self,
        ih fun b' hb' => h b' (List.mem_cons_of_mem b hb')]
      rfl

/-- What becomes of a request makes sense. -/
theorem wellFormed_of_buildMarketQuery {params : QueryMarketsParams}
    (h : buildMarketQuery parseStr params = .ok query) : query.WellFormed := by
  unfold buildMarketQuery at h
  dsimp only at h
  split_ifs at h with hslugs haddresses
  split at h
  · cases h
  · split at h
    · cases h
    · rename_i marketIds hids
      have hfewIds : marketIds.length ≤ maxMarketsIdBatch := by
        unfold parseUuidCsv at hids
        dsimp only at hids
        split_ifs at hids with hmany
        rw [length_of_mapM hids]
        exact not_lt.mp hmany
      cases h
      have hbounds : ∀ limit, (1 : UInt32).toNat ≤
          (clampLimit 1 maxMarketsPageLimit limit).toNat ∧
          (clampLimit 1 maxMarketsPageLimit limit).toNat ≤ maxMarketsPageLimit.toNat :=
        clampLimit_bounds (by decide)
      exact
        { positive := (hbounds _).1
          limited := (hbounds _).2
          slug := exists_givenText_iff.mp ⟨_, rfl⟩
          slugs := exists_parseCsv_iff.mp ⟨_, rfl⟩
          fewSlugs := not_lt.mp hslugs
          fewIds := hfewIds
          addresses := exists_parseCsv_iff.mp ⟨_, rfl⟩
          fewAddresses := not_lt.mp haddresses
          state := exists_givenText_iff.mp ⟨_, rfl⟩
          deployer := exists_givenText_iff.mp ⟨_, rfl⟩ }

theorem buildMarketQuery_params (hparse : ∀ id : Uuid, parseStr id.toString = .ok id)
    (h : query.WellFormed) : buildMarketQuery parseStr query.params = .ok query := by
  have hslugs : parseCsv query.params.slugs = query.slugs := parseCsv_csv h.slugs
  have haddresses : parseCsv query.params.marketAddresses = query.marketAddresses :=
    parseCsv_csv h.addresses
  have hcategory : givenCategory query.params.category = .ok query.category := by
    unfold MarketQuery.params
    dsimp only
    cases query.category with
    | none => rfl
    | some category =>
        unfold givenCategory
        rw [Option.map_some]
        dsimp only
        rw [MarketCategory.parse_asStr]
  have hids : parseUuidCsv parseStr query.params.marketIds = .ok query.marketIds := by
    have hitems : parseCsv query.params.marketIds = query.marketIds.map Uuid.toString := by
      apply parseCsv_csv
      intro value hvalue
      obtain ⟨id, -, rfl⟩ := List.mem_map.mp hvalue
      exact id.csvValue_toString
    unfold parseUuidCsv
    dsimp only
    rw [hitems, List.length_map, if_neg (not_lt.mpr h.fewIds)]
    apply mapM_map_eq_ok
    intro id _
    unfold parseId
    rw [hparse]
  unfold buildMarketQuery
  dsimp only
  rw [hslugs, haddresses, if_neg (not_lt.mpr h.fewSlugs), if_neg (not_lt.mpr h.fewAddresses),
    hcategory, hids]
  dsimp only
  refine congrArg Except.ok ?_
  unfold MarketQuery.params
  dsimp only
  rw [givenText_of_trimmed h.slug, givenText_of_trimmed h.state, givenText_of_trimmed h.deployer,
    MarketSortOrder.parse_text]
  have hlimit : clampLimit 1 maxMarketsPageLimit query.limit = query.limit :=
    clampLimit_of_bounds h.positive h.limited
  rw [Option.getD_some, Option.getD_some, Option.getD_some, hlimit]

/-- The queries that requests for markets become are those that make sense. -/
theorem accepted_iff (hparse : ∀ id : Uuid, parseStr id.toString = .ok id) :
    (∃ params, buildMarketQuery parseStr params = .ok query) ↔ query.WellFormed := by
  constructor
  · rintro ⟨params, h⟩
    exact wellFormed_of_buildMarketQuery h
  · exact fun h => ⟨query.params, buildMarketQuery_params hparse h⟩

end Accepted

/-! ## What a step does to event markets -/

/-- An event market that is stored touches no other market that is not a spot market. -/
theorem Registry.lookup_upsertEvent_of_ne {sdk : Sdk} (t : RegistryTx) {e : EventMarket}
    (hslug : e.slug ≠ "") {id : Uuid} (hid : id ≠ e.id) {market : Market}
    (hmarket : market.category ≠ .spot) :
    (t.upsertMarket sdk (.event e)).reg.markets.lookup id = some market ↔
      t.reg.markets.lookup id = some market := by
  obtain ⟨e', he', hsame, -⟩ := event_upserted_keeps sdk t.reg hslug
  rw [(claims_upserted t he').markets, if_neg (fun heq => hid (heq.trans hsame))]
  exact and_iff_left fun hspot => absurd hspot hmarket

namespace Ctx

variable {env : Env} {c : Ctx}

/-- The step creates no contract at an event market. -/
def CreatesNew (env : Env) (c : Ctx) (step : BlockStep) : Prop :=
  ∀ created, step.contract = some created → ∀ e,
    c.store.registry.markets.lookup (marketUuid env.sdk created.marketAddress) ≠
      some (.event e)

/-- An event market stays, but for its state. -/
theorem event_step {step : BlockStep} (hnew : c.CreatesNew env step) {id : Uuid} {e : EventMarket}
    (he : c.store.registry.markets.lookup id = some (.event e)) :
    ∃ state, (step.apply env c).store.registry.markets.lookup id =
      some (.event { e with state := state }) := by
  have hother : (Market.event e).category ≠ .spot := fun hspot => nomatch hspot
  cases step with
  | start block => exact ⟨e.state, he⟩
  | unmapped opts unmapped =>
      change ∃ state, (c.applyUnmapped env opts unmapped).store.registry.markets.lookup id = _
      rw [registry_unmapped]
      exact ⟨e.state, he⟩
  | event chainEvent =>
      have hmove := c.registryMove_apply env chainEvent
      change ∃ state, (chainEvent.apply env c).store.registry.markets.lookup id = _
      generalize (chainEvent.apply env c).store.registry = r at hmove ⊢
      cases hmove with
      | stays => exact ⟨e.state, he⟩
      | resolves opts blockNum spotMarket order =>
          refine ⟨e.state, ?_⟩
          rcases Registry.resolveSpotMarket_cases env.sdk spotMarket c.store.registry with
            heq | ⟨name, heq⟩
          · rw [heq]
            exact he
          · rw [heq]
            exact (Registry.lookup_registerNamedSpotMarket_iff _ _ _ _ hother).mpr he
      | registers created =>
          exact ⟨e.state, (Registry.lookup_registerNamedSpotMarket_iff _ _ _ _ hother).mpr he⟩
      | upserts created =>
          refine ⟨e.state, ?_⟩
          have hid : id ≠ marketUuid env.sdk created.marketAddress := by
            rintro rfl
            exact hnew created rfl e he
          exact (Registry.lookup_upsertEvent_of_ne c.regTx
            (allocateUniqueSlug_ne_empty _ created.question) hid hother).mpr he
      | settles marketAddress =>
          change ∃ state, (Dict.mapVal _ c.store.registry.markets).lookup id = _
          rw [Dict.lookup_mapVal, he]
          unfold RegistryTx.restate
          rw [Option.map_some]
          split_ifs
          · exact ⟨"Resolved", rfl⟩
          · exact ⟨e.state, rfl⟩

end Ctx

def Registry.KeepsEvents (r r' : Registry) : Prop :=
  ∀ id e, r.markets.lookup id = some (.event e) →
    ∃ state, r'.markets.lookup id = some (.event { e with state := state })

theorem Registry.KeepsEvents.trans {r r' r'' : Registry} (h : r.KeepsEvents r')
    (h' : r'.KeepsEvents r'') : r.KeepsEvents r'' := by
  intro id e he
  obtain ⟨state, he'⟩ := h id e he
  obtain ⟨state', he''⟩ := h' id { e with state := state } he'
  exact ⟨state', he''⟩

/-! ## The listing -/

namespace MarketQuery

def slugKeys (query : MarketQuery) (r : Registry) : List (String ×ₗ String) :=
  (r.listing.filter query.keeps).map slugKey

def listed (query : MarketQuery) (r : Registry) : List (String ×ₗ String) :=
  sortBy (fun key => key) query.ascending (query.slugKeys r)

variable {query : MarketQuery} {r r' : Registry}

theorem event_of_keeps (hcategory : query.category = some .event) {market : Market}
    (h : query.keeps market = true) : ∃ e, market = .event e := by
  unfold keeps at h
  rw [hcategory] at h
  simp only [Bool.and_eq_true, Option.all_some, decide_eq_true_eq] at h
  have hevent : market.category = .event := h.1.2
  cases market with
  | spot m => cases hevent
  | event e => exact ⟨e, rfl⟩
  | perp m => cases hevent

theorem mem_slugKeys (hcategory : query.category = some .event) {key : String ×ₗ String} :
    key ∈ query.slugKeys r ↔ ∃ id e, r.markets.lookup id = some (.event e) ∧
      query.keeps (.event e) = true ∧ slugKey (.event e) = key := by
  have hlisting := mem_values_iff r.markets (fun market => market)
  unfold slugKeys
  rw [List.mem_map]
  constructor
  · rintro ⟨market, hmarket, rfl⟩
    obtain ⟨hmem, hkeeps⟩ := List.mem_filter.mp hmarket
    obtain ⟨id, _, hlookup, rfl⟩ := (hlisting market).mp hmem
    obtain ⟨e, rfl⟩ := event_of_keeps hcategory hkeeps
    exact ⟨id, e, hlookup, hkeeps, rfl⟩
  · rintro ⟨id, e, hlookup, hkeeps, rfl⟩
    have hmem := (hlisting (.event e)).mpr ⟨id, .event e, hlookup, rfl⟩
    exact ⟨.event e, List.mem_filter.mpr ⟨hmem, hkeeps⟩, rfl⟩

theorem keeps_state (hstate : query.state = none) (e : EventMarket) (state : String) :
    query.keeps (.event { e with state := state }) = query.keeps (.event e) := by
  unfold keeps
  rw [hstate]
  rfl

theorem nodup_slugKeys (hcategory : query.category = some .event) (hresolve : r.SlugsResolve)
    (named : r.EventsNamed) : (query.slugKeys r).Nodup := by
  have hentries : query.slugKeys r =
      (r.markets.entries.filter fun e => query.keeps e.2).map fun e => slugKey e.2 := by
    unfold slugKeys Registry.listing
    rw [List.filter_map, List.map_map]
    rfl
  rw [hentries]
  apply List.Nodup.map_on
  · rintro ⟨id, market⟩ hmem ⟨id', market'⟩ hmem' hkey
    obtain ⟨hmem, hkeeps⟩ := List.mem_filter.mp hmem
    obtain ⟨hmem', hkeeps'⟩ := List.mem_filter.mp hmem'
    obtain ⟨e, rfl⟩ := event_of_keeps hcategory hkeeps
    obtain ⟨e', rfl⟩ := event_of_keeps hcategory hkeeps'
    have he := Dict.mem_entries_iff.mp hmem
    have he' := Dict.mem_entries_iff.mp hmem'
    have hslug : e.slug = e'.slug := congrArg Prod.fst (toLex.injective hkey)
    have hsame : e = e' := by
      by_contra hne
      exact hresolve.distinct e ⟨id, he⟩ e' ⟨id', he'⟩ hne hslug
    subst hsame
    rw [← (named id e he).1, ← (named id' e he').1]
  · exact (List.Nodup.of_map _ r.markets.keys_nodup).filter _

theorem nodup_listed (hcategory : query.category = some .event) (hresolve : r.SlugsResolve)
    (named : r.EventsNamed) : (query.listed r).Nodup :=
  (perm_sortBy _ _ _).nodup_iff.mpr (nodup_slugKeys hcategory hresolve named)

theorem listed_sublist (hcategory : query.category = some .event) (hstate : query.state = none)
    (hresolve : r.SlugsResolve) (named : r.EventsNamed) (hkeeps : r.KeepsEvents r') :
    (query.listed r).Sublist (query.listed r') := by
  apply sortBy_sublist (nodup_slugKeys hcategory hresolve named)
  intro key hkey
  obtain ⟨id, e, he, hwanted, rfl⟩ := (mem_slugKeys hcategory).mp hkey
  obtain ⟨state, he'⟩ := hkeeps id e he
  exact (mem_slugKeys hcategory).mpr
    ⟨id, { e with state := state }, he', (keeps_state hstate e state).trans hwanted, rfl⟩

/-- A page has the slugs of a window of the listing. -/
theorem map_queryMarkets (query : MarketQuery) (horder : query.order = .slug)
    {markets : List Market} (hperm : markets.Perm r.listing) :
    (queryMarkets query markets).1.map slugKey =
      window query.offset.toNat query.limit.toNat (query.listed r) := by
  unfold queryMarkets sorted
  rw [horder]
  dsimp only
  rw [map_window, map_sortBy]
  congr 1
  exact sortBy_keys_perm _ ((hperm.filter _).map _)

end MarketQuery

/-! ## Reading the listing -/

theorem buildMarketQuery_offset {parseStr : String → Except String Uuid}
    {params : QueryMarketsParams} {query : MarketQuery}
    (h : buildMarketQuery parseStr params = .ok query) (offset : UInt32) :
    buildMarketQuery parseStr { params with offset := some offset } =
      .ok { query with offset := offset } := by
  unfold buildMarketQuery at h ⊢
  dsimp only at h ⊢
  split_ifs at h ⊢
  cases hcategory : givenCategory params.category with
  | error e =>
      rw [hcategory] at h
      cases h
  | ok category =>
      cases hids : parseUuidCsv parseStr params.marketIds with
      | error e =>
          rw [hcategory, hids] at h
          cases h
      | ok marketIds =>
          rw [hcategory, hids] at h
          cases h
          rfl

theorem category_of_buildMarketQuery {parseStr : String → Except String Uuid}
    {params : QueryMarketsParams} {query : MarketQuery} {category : MarketCategory}
    (h : buildMarketQuery parseStr { params with category := some category.asStr } = .ok query) :
    query.category = some category := by
  have hgiven : givenCategory (some category.asStr) = .ok (some category) := by
    unfold givenCategory
    dsimp only
    rw [MarketCategory.parse_asStr]
  unfold buildMarketQuery at h
  dsimp only at h
  rw [hgiven] at h
  split_ifs at h
  dsimp only at h
  split at h
  · cases h
  · cases h
    rfl

namespace MarketReader

open MarketQuery

variable {env : Env} {parseStr : String → Except String Uuid} {params : QueryMarketsParams}
  {query : MarketQuery}

/-- What the client knows when it has read, of the event markets that were there when it
began. -/
structure Complete (query : MarketQuery) (start : Ctx) (r : MarketReader) : Prop where
  /-- it has read all that it asked for -/
  missesNone : r.reader.finished = true → ∀ e ∈ start.store.registry.events,
    query.keeps (.event e) = true → ∃ shown ∈ r.reader.seen, shown.slug = e.slug
  /-- and nothing twice or out of order, unless contracts were created on the way -/
  inOrder : r.reader.finished = true →
    (∀ e ∈ r.ctx.store.registry.events, ∃ e' ∈ start.store.registry.events, e'.id = e.id) →
      r.reader.seen.map slugKey = query.listed start.store.registry

theorem ask_of_accepted (hquery : buildMarketQuery parseStr
      { params with category := some MarketCategory.event.asStr } = .ok query)
    (horder : query.order = .slug) (iteration : Iteration Market) {r : MarketReader}
    (hopen : ¬r.reader.finished = true) (hnext : r.reader.next < 2 ^ 32) :
    ∃ page : List Market,
      r.ask parseStr params iteration =
        { r with reader := r.reader.read query.limit.toNat page } ∧
      page.map slugKey =
        window r.reader.next query.limit.toNat (query.listed r.ctx.store.registry) := by
  have hoffset : (UInt32.ofNat r.reader.next).toNat = r.reader.next :=
    UInt32.toNat_ofNat_of_lt' hnext
  have hwindow := map_queryMarkets { query with offset := UInt32.ofNat r.reader.next } horder
    (iteration.perm r.ctx.store.registry.listing)
  dsimp only at hwindow
  rw [hoffset] at hwindow
  have hasked := buildMarketQuery_offset hquery (UInt32.ofNat r.reader.next)
  unfold ask
  rw [if_neg (not_or.mpr ⟨hopen, not_le.mpr hnext⟩)]
  unfold marketsPageWithCategory marketsPage
  dsimp only at hasked ⊢
  rw [hasked]
  exact ⟨_, rfl, hwindow⟩

theorem reader_ask (hquery : buildMarketQuery parseStr
      { params with category := some MarketCategory.event.asStr } = .ok query)
    (horder : query.order = .slug) (iteration : Iteration Market) (r : MarketReader) :
    (r.ask parseStr params iteration).ctx = r.ctx ∧
      ((r.ask parseStr params iteration).reader = r.reader ∨
        ∃ (limit : Nat) (page : List Market),
          (r.ask parseStr params iteration).reader = r.reader.read limit page ∧
          page.map slugKey =
            window r.reader.next limit (query.listed r.ctx.store.registry)) := by
  by_cases hstop : r.reader.finished = true ∨ 2 ^ 32 ≤ r.reader.next
  · have hstays : r.ask parseStr params iteration = r := if_pos hstop
    rw [hstays]
    exact ⟨rfl, .inl rfl⟩
  · rw [not_or, not_le] at hstop
    obtain ⟨page, hpage, hwindow⟩ := ask_of_accepted hquery horder iteration hstop.1 hstop.2
    rw [hpage]
    exact ⟨rfl, .inr ⟨_, page, rfl, hwindow⟩⟩

theorem finished_ask (hquery : buildMarketQuery parseStr
      { params with category := some MarketCategory.event.asStr } = .ok query)
    (horder : query.order = .slug) (iteration : Iteration Market) {r : MarketReader}
    (hnext : r.reader.next < 2 ^ 32)
    (hend : (query.listed r.ctx.store.registry).length <
      r.reader.next + query.limit.toNat) :
    (r.ask parseStr params iteration).reader.finished = true := by
  by_cases hopen : r.reader.finished = true
  · have hstays : r.ask parseStr params iteration = r := if_pos (.inl hopen)
    rw [hstays]
    exact hopen
  · have hpositive := (wellFormed_of_buildMarketQuery hquery).positive
    obtain ⟨page, hpage, hwindow⟩ := ask_of_accepted hquery horder iteration hopen hnext
    rw [hpage]
    exact finished_read hpositive hwindow hend

/-- A client that asks often enough, with no block in between, finishes. -/
theorem finished_asks (hquery : buildMarketQuery parseStr
      { params with category := some MarketCategory.event.asStr } = .ok query)
    (horder : query.order = .slug) (iteration : Iteration Market) {r : MarketReader} {k : Nat}
    (hbound : r.reader.next + k * query.limit.toNat < 2 ^ 32)
    (hend : (query.listed r.ctx.store.registry).length <
      r.reader.next + (k + 1) * query.limit.toNat) :
    ((ask parseStr params iteration)^[k + 1] r).reader.finished = true := by
  refine finished_iterate (P := fun r' => r'.ctx = r.ctx) ?_ ?_ ?_ ?_ rfl hbound hend
  · intro r' hctx
    rw [(reader_ask hquery horder iteration r').1, hctx]
  · exact fun r' hdone => if_pos (.inl hdone)
  · intro r' _ hopen hnext
    obtain ⟨page, hpage, -⟩ := ask_of_accepted hquery horder iteration hopen hnext
    rw [hpage]
    rfl
  · intro r' hctx hnext hend
    rw [← hctx] at hend
    exact finished_ask hquery horder iteration hnext hend

structure Reading (query : MarketQuery) (start : Ctx) (r : MarketReader) : Prop where
  slugs : r.ctx.SlugsKept
  events : start.store.registry.KeepsEvents r.ctx.store.registry
  reads : Reads slugKey (query.listed start.store.registry)
    (query.listed r.ctx.store.registry) r.reader

theorem reading_step (hquery : buildMarketQuery parseStr
      { params with category := some MarketCategory.event.asStr } = .ok query)
    (horder : query.order = .slug) (hstate : query.state = none) {start : Ctx} {r : MarketReader}
    (h : Reading query start r) {step : MarketReaderStep}
    (hnew : ∀ indexed, step.indexed = some indexed → r.ctx.CreatesNew env indexed) :
    Reading query start (r.step env parseStr params step) := by
  have hcategory := category_of_buildMarketQuery hquery
  cases step with
  | index step =>
      have hkeeps : r.ctx.store.registry.KeepsEvents (step.apply env r.ctx).store.registry :=
        fun id e he => Ctx.event_step (hnew step rfl) he
      have hslugs : (step.apply env r.ctx).SlugsKept := Ctx.slugsKept_step h.slugs step
      refine ⟨hslugs, h.events.trans hkeeps, h.reads.grow ?_ ?_⟩
      · exact listed_sublist hcategory hstate (h.slugs.1.slugsResolve h.slugs.2) h.slugs.2 hkeeps
      · exact nodup_listed hcategory (hslugs.1.slugsResolve hslugs.2) hslugs.2
  | ask iteration =>
      obtain ⟨hctx, hreader⟩ := reader_ask hquery horder iteration r
      change Reading query start (r.ask parseStr params iteration)
      constructor
      · rw [hctx]
        exact h.slugs
      · rw [hctx]
        exact h.events
      · rw [hctx]
        rcases hreader with heq | ⟨limit, page, heq, hpage⟩
        · rw [heq]
          exact h.reads
        · rw [heq]
          exact h.reads.read hpage

theorem Reading.complete (hcategory : query.category = some .event)
    (hstate : query.state = none) {start : Ctx} {r : MarketReader} (hstart : start.SlugsKept)
    (h : Reading query start r) : Complete query start r := by
  constructor
  · rintro hfinished e ⟨id, he⟩ hwanted
    have hlisted : slugKey (.event e) ∈ query.listed start.store.registry :=
      mem_sortBy.mpr ((mem_slugKeys hcategory).mpr ⟨id, e, he, hwanted, rfl⟩)
    obtain ⟨shown, hshown, hkey⟩ := List.mem_map.mp (h.reads.misses hfinished _ hlisted)
    exact ⟨shown, hshown, congrArg Prod.fst (toLex.injective hkey)⟩
  · intro hfinished hnone
    -- what is there now was there at the start, but for its state
    have hback : r.ctx.store.registry.KeepsEvents start.store.registry := by
      intro id e he
      obtain ⟨e', ⟨id', he'⟩, hid⟩ := hnone e ⟨id, he⟩
      rw [(h.slugs.2 id e he).1, (hstart.2 id' e' he').1] at hid
      subst hid
      obtain ⟨state, hnow⟩ := h.events id' e' he'
      cases he.symm.trans hnow
      exact ⟨e'.state, he'⟩
    apply h.reads.whole hfinished
    exact (listed_sublist hcategory hstate (h.slugs.1.slugsResolve h.slugs.2) h.slugs.2
      hback).antisymm h.reads.grown

/-- In every run in which a client reads the event markets of an index by their slugs, page by
page, while blocks go on being indexed, it has read all that were there when it began once it
finishes, as long as no contract is created twice. -/
theorem eventPages_of_run (env : Env) (parseStr : String → Except String Uuid)
    (before : List BlockStep) (params : QueryMarketsParams)
    (hquery : buildMarketQuery parseStr
      { params with category := some MarketCategory.event.asStr } = .ok query)
    (horder : query.order = .slug) (hstate : query.state = none) (steps : List MarketReaderStep)
    (hnew : Along (MarketReader.step env parseStr params)
      (fun r step => ∀ indexed, step.indexed = some indexed → r.ctx.CreatesNew env indexed)
      steps ⟨before.foldl (BlockStep.apply env) { store := {} }, {}⟩) :
    Throughout (MarketReader.step env parseStr params)
      (Complete query (before.foldl (BlockStep.apply env) { store := {} })) steps
      ⟨before.foldl (BlockStep.apply env) { store := {} }, {}⟩ := by
  have hstart : (before.foldl (BlockStep.apply env) { store := {} }).SlugsKept := by
    refine List.foldlRecOn (motive := Ctx.SlugsKept) before _
      ⟨Registry.slugged_empty, Registry.eventsNamed_empty⟩ ?_
    exact fun c hc step _ => Ctx.slugsKept_step hc step
  generalize before.foldl (BlockStep.apply env) { store := {} } = start at hstart hnew ⊢
  have hreading : Reading query start ⟨start, {}⟩ :=
    ⟨hstart, fun id e he => ⟨e.state, he⟩, reads_start _ _⟩
  refine (throughout_of_along (I := Reading query start) ?_ hreading hnew).mono ?_
  · exact fun r step hr hstep => reading_step hquery horder hstate hr hstep
  · exact fun r hr => hr.complete (category_of_buildMarketQuery hquery) hstate hstart

end MarketReader

namespace Sample

/-- `Uuid::parse_str` of the hyphenated form, with a text for what it refuses. -/
def parseStr (text : String) : Except String Uuid :=
  match parseHyphenated text with
  | some id => .ok id
  | none => .error "invalid"

theorem parseStr_toString (id : Uuid) : parseStr id.toString = .ok id := by
  unfold parseStr
  rw [parseHyphenated_toString]

def rainQuery : MarketQuery :=
  { limit := 100, offset := 0, slug := none, slugs := ["rain", "rain-2"], marketIds := [],
    marketAddresses := [], state := none, category := some .event, deployer := none,
    order := .slug, ascending := false }

theorem accepted_rainQuery : ∃ params, buildMarketQuery parseStr params = .ok rainQuery := by
  have hplain : ∀ slug ∈ ["rain", "rain-2"], CsvValue slug := by
    intro slug hslug
    simp only [List.mem_cons, List.not_mem_nil, or_false] at hslug
    rcases hslug with rfl | rfl
    · exact ⟨by decide +kernel, by decide, by decide +kernel⟩
    · exact ⟨by decide +kernel, by decide, by decide +kernel⟩
  exact (accepted_iff parseStr_toString).mpr
    { positive := by decide, limited := by decide, slug := fun _ h => (nomatch h),
      slugs := hplain, fewSlugs := by decide, fewIds := by decide,
      addresses := fun _ h => (nomatch h), fewAddresses := by decide,
      state := fun _ h => (nomatch h), deployer := fun _ h => (nomatch h) }

/-! Two contracts are read one by one.  After the first page a third, which comes before them,
is created, and the first is settled. -/

def rainElsewhere : EventContractCreatedEvent := { rain with marketAddress := otherContract }

def drought : EventContractCreatedEvent :=
  { rain with marketAddress := laterContract, question := "Drought?" }

def rainTwice : List BlockStep :=
  [.event (.global (.eventContractCreated rain)),
    .event (.global (.eventContractCreated rainElsewhere))]

def asListed : Lib.Listing.Iteration Market := ⟨fun markets => markets, fun _ => List.Perm.refl _⟩

def oneSlug : QueryMarketsParams := { limit := some 1, order := some "slug" }

def oneSlugQuery : MarketQuery :=
  { rainQuery with limit := 1, slugs := [], ascending := true }

def rainReading : List MarketReaderStep :=
  [.ask asListed, .index (.event (.global (.eventContractCreated drought))),
    .index (.event (.global (.eventContractResolved eventContract))), .ask asListed,
    .ask asListed, .ask asListed]

def rainListed : Ctx := rainTwice.foldl (BlockStep.apply setting) { store := {} }

def droughtAdded : Ctx :=
  BlockStep.apply setting rainListed (.event (.global (.eventContractCreated drought)))

def rainSettled : Ctx :=
  BlockStep.apply setting droughtAdded (.event (.global (.eventContractResolved eventContract)))

theorem oneSlug_accepted : buildMarketQuery parseStr
    { oneSlug with category := some MarketCategory.event.asStr } = .ok oneSlugQuery := by
  decide +kernel

theorem ask_rainListed :
    ∃ page, MarketReader.ask parseStr oneSlug asListed ⟨rainListed, {}⟩ =
      ⟨rainListed, Lib.Listing.Reader.read 1 page {}⟩ := by
  obtain ⟨page, hpage, -⟩ := @MarketReader.ask_of_accepted parseStr oneSlug oneSlugQuery
    oneSlug_accepted rfl asListed ⟨rainListed, {}⟩ (by decide) (by decide)
  exact ⟨page, hpage⟩

theorem createsNew_rainReading :
    Along (MarketReader.step setting parseStr oneSlug)
      (fun r step => ∀ indexed, step.indexed = some indexed → r.ctx.CreatesNew setting indexed)
      rainReading ⟨rainListed, {}⟩ := by
  obtain ⟨page, hpage⟩ := ask_rainListed
  have hask : ∀ r : MarketReader, ∀ indexed,
      MarketReaderStep.indexed (.ask asListed) = some indexed →
        r.ctx.CreatesNew setting indexed := fun _ _ hindexed => nomatch hindexed
  refine ⟨hask _, ?_, ?_, hask _, hask _, hask _, trivial⟩
  · rintro indexed hindexed created hcreated e he
    cases hindexed
    cases hcreated
    have hctx : (MarketReader.step setting parseStr oneSlug ⟨rainListed, {}⟩ (.ask asListed)).ctx =
        rainListed := congrArg MarketReader.ctx hpage
    have hnone : rainListed.store.registry.markets.lookup
        (marketUuid setting.sdk drought.marketAddress) = none := by
      decide +kernel
    rw [hctx, hnone] at he
    cases he
  · rintro indexed hindexed created hcreated
    cases hindexed
    cases hcreated

theorem finished_rainReading :
    (rainReading.foldl (MarketReader.step setting parseStr oneSlug)
      ⟨rainListed, {}⟩).reader.finished = true := by
  obtain ⟨page, hpage⟩ := ask_rainListed
  have hlast : rainReading.foldl (MarketReader.step setting parseStr oneSlug) ⟨rainListed, {}⟩ =
      (MarketReader.ask parseStr oneSlug asListed)^[2 + 1]
        ⟨rainSettled, Lib.Listing.Reader.read 1 page {}⟩ := by
    unfold rainReading
    simp only [List.foldl_cons, List.foldl_nil, MarketReader.step, hpage]
    rfl
  have hsize : (oneSlugQuery.listed rainSettled.store.registry).length = 3 := by
    unfold MarketQuery.listed
    rw [Lib.Listing.length_sortBy]
    decide +kernel
  rw [hlast]
  apply MarketReader.finished_asks oneSlug_accepted rfl asListed
  · change 1 + 2 * oneSlugQuery.limit.toNat < 2 ^ 32
    decide
  · change (oneSlugQuery.listed rainSettled.store.registry).length <
      1 + (2 + 1) * oneSlugQuery.limit.toNat
    rw [hsize]
    decide

theorem events_of_lookup {address slug : String}
    (h : (rainListed.store.registry.markets.lookup (marketUuid setting.sdk address)).map
      (fun shown => (shown.slug, oneSlugQuery.keeps shown)) = some (slug, true)) :
    ∃ e ∈ rainListed.store.registry.events, oneSlugQuery.keeps (.event e) = true ∧
      e.slug = slug := by
  obtain ⟨shown, hshown, heq⟩ := Option.map_eq_some_iff.mp h
  obtain ⟨hslug, hkeeps⟩ := Prod.mk.inj heq
  obtain ⟨e, rfl⟩ := MarketQuery.event_of_keeps rfl hkeeps
  exact ⟨e, ⟨_, hshown⟩, hkeeps, hslug⟩

/-- Both markets that were there are read. -/
theorem eventPages_rainReading :
    ["rain", "rain-2"] ⊆ (rainReading.foldl (MarketReader.step setting parseStr oneSlug)
      ⟨rainListed, {}⟩).reader.seen.map Market.slug := by
  have hread := (MarketReader.eventPages_of_run setting parseStr rainTwice oneSlug
    oneSlug_accepted rfl rfl rainReading createsNew_rainReading).finish
  have hfirst := @events_of_lookup eventContract "rain" (by decide +kernel)
  have hsecond := @events_of_lookup otherContract "rain-2" (by decide +kernel)
  have hseen : ∀ slug, (∃ e ∈ rainListed.store.registry.events,
      oneSlugQuery.keeps (.event e) = true ∧ e.slug = slug) →
        slug ∈ (rainReading.foldl (MarketReader.step setting parseStr oneSlug)
          ⟨rainListed, {}⟩).reader.seen.map Market.slug := by
    rintro slug ⟨e, he, hkeeps, rfl⟩
    exact List.mem_map.mpr (hread.missesNone finished_rainReading e he hkeeps)
  intro slug hslug
  simp only [List.mem_cons, List.not_mem_nil, or_false] at hslug
  rcases hslug with rfl | rfl
  · exact hseen _ hfirst
  · exact hseen _ hsecond

end Sample

end ClobIndexer
