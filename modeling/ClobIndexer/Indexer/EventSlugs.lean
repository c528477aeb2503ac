import ClobIndexer.Indexer.RestoreRuns
import ClobIndexer.Lib.Runs
/-!
# Event slugs over a run

Every event contract is listed under a slug of its own.  `allocate_market_slug` looks for a
slug that is not taken, `upsert_market` maps it to the market and drops what was mapped to
the market before, and `get_event_by_slug` follows the map.  Nothing else touches the slugs,
and no event market is ever dropped, so slugs and event markets stay in step however
questions, suffixes and other events fall together.
-/

namespace ClobIndexer

open Lib

variable {env : Env} {sdk : Sdk}

namespace Registry

variable {r : Registry}

def getEventBySlug (r : Registry) (slug : String) : Option Market :=
  match r.slugToMarket.lookup slug with
  | none => none
  | some id => r.markets.lookup id

def events (r : Registry) : Set EventMarket :=
  {e | ∃ id, r.markets.lookup id = some (.event e)}

/-- Event markets are found under their ids, have slugs of their own, and are found by them. -/
structure SlugsResolve (r : Registry) : Prop where
  keyed : ∀ e ∈ r.events, r.markets.lookup e.id = some (.event e)
  nonempty : ∀ e ∈ r.events, e.slug ≠ ""
  distinct : ∀ e ∈ r.events, ∀ e' ∈ r.events, e ≠ e' → e.slug ≠ e'.slug
  exact : r.slugToMarket.Holds fun slug id => ∃ e ∈ r.events, e.slug = slug ∧ e.id = id
  resolves : ∀ e ∈ r.events, r.getEventBySlug e.slug = some (.event e)

/-- A created contract is listed under a slug that was free: the loop ends, and what it
ends with was not taken and is the slug of the market. -/
structure AllocatesSlug (sdk : Sdk) (r r' : Registry) (created : EventContractCreatedEvent) :
    Prop where
  terminates : ∀ rounds > r.slugToMarket.keys.length,
    slugLoop r.slugToMarket.keys (slugFromQuestion created.question) rounds 2
      (slugFromQuestion created.question) = some (r.allocateMarketSlug created.question)
  free : r.allocateMarketSlug created.question ∉ r.slugToMarket
  stored : ∃ e : EventMarket,
    r'.markets.lookup (marketUuid sdk created.marketAddress) = some (.event e) ∧
      e.slug = r.allocateMarketSlug created.question

def EventsNamed (r : Registry) : Prop :=
  ∀ id e, r.markets.lookup id = some (.event e) → e.id = id ∧ e.slug ≠ ""

theorem EventsNamed.slugged_iff (h : r.EventsNamed) {slug : String} {id : Uuid} :
    (slug ≠ "" ∧ ∃ market, r.markets.lookup id = some market ∧ market.slug = slug) ↔
      ∃ e ∈ r.events, e.slug = slug ∧ e.id = id := by
  constructor
  · rintro ⟨hne, market, hmarket, hslug⟩
    cases market with
    | spot m => exact absurd hslug.symm hne
    | event e => exact ⟨e, ⟨id, hmarket⟩, hslug, (h id e hmarket).1⟩
    | perp p => exact absurd hslug.symm hne
  · rintro ⟨e, ⟨id', hmarket⟩, rfl, rfl⟩
    obtain ⟨rfl, hne⟩ := h id' e hmarket
    exact ⟨hne, .event e, hmarket, rfl⟩

theorem Slugged.slugsResolve (h : r.Slugged) (named : r.EventsNamed) : r.SlugsResolve := by
  have hexact : r.slugToMarket.Holds fun slug id =>
      ∃ e ∈ r.events, e.slug = slug ∧ e.id = id := by
    intro slug id
    rw [h slug id]
    exact named.slugged_iff
  have hkeyed : ∀ e ∈ r.events, r.markets.lookup e.id = some (.event e) := by
    rintro e ⟨id, hmarket⟩
    rw [(named id e hmarket).1]
    exact hmarket
  have hmapped : ∀ e ∈ r.events, r.slugToMarket.lookup e.slug = some e.id :=
    fun e he => (hexact _ _).mpr ⟨e, he, rfl, rfl⟩
  constructor
  · exact hkeyed
  · rintro e ⟨id, hmarket⟩
    exact (named id e hmarket).2
  · intro e he e' he' hne hslug
    -- both slugs are mapped, to one id
    have hid : some e.id = some e'.id := by
      rw [← hmapped e he, hslug, hmapped e' he']
    have hsame := hkeyed e he
    rw [Option.some.inj hid, hkeyed e' he'] at hsame
    cases hsame
    exact hne rfl
  · exact hexact
  · intro e he
    unfold getEventBySlug
    rw [hmapped e he]
    exact hkeyed e he

/-! ## What single operations keep -/

theorem eventsNamed_empty : EventsNamed {} := fun _ _ h => nomatch h

theorem EventsNamed.registerNamedSpotMarket (h : r.EventsNamed)
    (name spotMarket deployer : String) :
    (r.registerNamedSpotMarket sdk name spotMarket deployer).EventsNamed := by
  intro id e he
  have hother : (Market.event e).category ≠ .spot := fun hspot => nomatch hspot
  exact h id e ((lookup_registerNamedSpotMarket_iff _ _ _ r hother).mp he)

theorem EventsNamed.resolveSpotMarket (h : r.EventsNamed) (spotMarket : String) :
    (r.resolveSpotMarket sdk spotMarket).1.EventsNamed := by
  rcases resolveSpotMarket_cases sdk spotMarket r with heq | ⟨name, heq⟩
  · rw [heq]
    exact h
  · rw [heq]
    exact h.registerNamedSpotMarket _ _ _

theorem slugToMarket_resolveSpotMarket (spotMarket : String) (r : Registry) :
    (r.resolveSpotMarket sdk spotMarket).1.slugToMarket = r.slugToMarket := by
  rcases resolveSpotMarket_cases sdk spotMarket r with heq | ⟨name, heq⟩
  · rw [heq]
  · rw [heq]
    exact slugToMarket_registerNamedSpotMarket _ _ _ _

theorem EventsNamed.updateMarketState {t : RegistryTx} (h : t.reg.EventsNamed)
    (marketAddress state : String) : (t.updateMarketState marketAddress state).reg.EventsNamed := by
  intro id e he
  change (Dict.mapVal _ t.reg.markets).lookup id = some (Market.event e) at he
  rw [Dict.lookup_mapVal, Option.map_eq_some_iff] at he
  obtain ⟨old, hold, heq⟩ := he
  unfold RegistryTx.restate at heq
  split_ifs at heq
  · cases old with
    | spot m => cases heq
    | event e' =>
        cases heq
        exact h id e' hold
    | perp p => cases heq
  · rw [heq] at hold
    exact h id e hold

theorem EventsNamed.upsertEvent {t : RegistryTx} (h : t.reg.EventsNamed) {e : EventMarket}
    (hslug : e.slug ≠ "") : (t.upsertMarket sdk (.event e)).reg.EventsNamed := by
  obtain ⟨e', he', hid, hslug'⟩ := event_upserted_keeps sdk t.reg hslug
  intro id stored hstored
  have hmarket := (((claims_upserted t he').markets id (.event stored)).mp hstored).1
  split_ifs at hmarket with heq
  · cases hmarket
    exact ⟨heq.symm, fun hempty => hslug (hslug'.symm.trans hempty)⟩
  · exact h id stored hmarket

theorem lookup_upsertEvent (t : RegistryTx) {market : Market} {e : EventMarket}
    (hmarket : market = .event e) (hslug : e.slug ≠ "") :
    ∃ e' : EventMarket, (t.upsertMarket sdk market).reg.markets.lookup e.id = some (.event e') ∧
      e'.slug = e.slug := by
  subst hmarket
  obtain ⟨e', he', hid, hslug'⟩ := event_upserted_keeps sdk t.reg hslug
  refine ⟨e', ?_, hslug'⟩
  rw [(claims_upserted t he').markets, if_pos hid.symm]
  exact ⟨rfl, fun hspot => nomatch hspot⟩

theorem length_slugs_upsertMarket (t : RegistryTx) (market : Market) :
    (t.upsertMarket sdk market).reg.slugToMarket.keys.length ≤
      t.reg.slugToMarket.keys.length + 1 := by
  rw [RegistryTx.slugToMarket_upsertMarket]
  unfold RegistryTx.putMarket
  dsimp only
  split_ifs
  · omega
  · calc (AList.insert _ _ (Dict.retain _ t.reg.slugToMarket)).keys.length
        ≤ (Dict.retain _ t.reg.slugToMarket).keys.length + 1 := Dict.length_keys_insert_le _ _ _
      _ ≤ t.reg.slugToMarket.keys.length + 1 :=
        Nat.add_le_add_right (Dict.length_keys_retain_le _ _) 1

end Registry

/-! ## What a step keeps -/

namespace BlockStep

def contract : BlockStep → Option EventContractCreatedEvent
  | event (.global (.eventContractCreated created)) => some created
  | _ => none

def createsContract (step : BlockStep) : Bool := step.contract.isSome

end BlockStep

namespace Ctx

variable {c : Ctx}

theorem eventsNamed_apply (h : c.store.registry.EventsNamed) (e : ChainEvent) :
    (e.apply env c).store.registry.EventsNamed := by
  have hmove := c.registryMove_apply env e
  generalize (e.apply env c).store.registry = r at hmove ⊢
  cases hmove with
  | stays => exact h
  | resolves opts blockNum spotMarket e => exact h.resolveSpotMarket spotMarket
  | registers created => exact h.registerNamedSpotMarket _ _ _
  | upserts created =>
      exact Registry.EventsNamed.upsertEvent (t := c.regTx) h
        (allocateUniqueSlug_ne_empty _ created.question)
  | settles marketAddress => exact Registry.EventsNamed.updateMarketState (t := c.regTx) h _ _

/-- Only the creation of an event contract touches the slugs. -/
theorem slugToMarket_apply (e : ChainEvent) (he : (BlockStep.event e).createsContract = false) :
    (e.apply env c).store.registry.slugToMarket = c.store.registry.slugToMarket := by
  have hmove := c.registryMove_apply env e
  generalize (e.apply env c).store.registry = r at hmove ⊢
  cases hmove with
  | stays => rfl
  | resolves opts blockNum spotMarket e => exact Registry.slugToMarket_resolveSpotMarket ..
  | registers created => exact Registry.slugToMarket_registerNamedSpotMarket _ _ _ _
  | upserts created => cases he
  | settles marketAddress => rfl

theorem registry_unmapped (opts : ProcessOpts) (e : UnmappedOrderEvent) (c : Ctx) :
    (c.applyUnmapped env opts e).store.registry = c.store.registry :=
  congrArg RegistryTx.reg (regTx_unmapped env opts [e] c)

/-- The invariant: slugs lead to events, and every event has one. -/
def SlugsKept (c : Ctx) : Prop := c.store.registry.Slugged ∧ c.store.registry.EventsNamed

theorem slugsKept_step (h : c.SlugsKept) (step : BlockStep) : (step.apply env c).SlugsKept := by
  cases step with
  | start block => exact h
  | event e => exact ⟨slugged_apply h.1 e, eventsNamed_apply h.2 e⟩
  | unmapped opts e =>
      change (c.applyUnmapped env opts e).SlugsKept
      unfold SlugsKept
      rw [registry_unmapped]
      exact h

theorem length_slugs_step (c : Ctx) (step : BlockStep) :
    (step.apply env c).store.registry.slugToMarket.keys.length ≤
      c.store.registry.slugToMarket.keys.length + if step.createsContract = true then 1 else 0 := by
  by_cases hcreates : step.createsContract = true
  · rw [if_pos hcreates]
    obtain ⟨created, hcreated⟩ := Option.isSome_iff_exists.mp hcreates
    unfold BlockStep.contract at hcreated
    split at hcreated
    · change (c.applyGlobalEvent env _).store.registry.slugToMarket.keys.length ≤ _
      rw [c.registry_applyGlobalEvent env]
      exact Registry.length_slugs_upsertMarket c.regTx _
    · cases hcreated
  · rw [if_neg hcreates, Nat.add_zero]
    refine Nat.le_of_eq (congrArg (fun d : Dict String Uuid => d.keys.length) ?_)
    cases step with
    | start block => rfl
    | event e => exact slugToMarket_apply e (Bool.eq_false_of_not_eq_true hcreates)
    | unmapped opts e => exact congrArg Registry.slugToMarket (registry_unmapped opts e c)

/-- With room for one more suffix, a created contract gets a free slug. -/
theorem allocatesSlug_step (hfew : c.store.registry.slugToMarket.keys.length + 1 < 2 ^ 31)
    (created : EventContractCreatedEvent) :
    c.store.registry.AllocatesSlug env.sdk
      (ChainEvent.apply env c (.global (.eventContractCreated created))).store.registry
      created where
  terminates := fun _ hrounds => slugLoop_eq hfew created.question hrounds
  free := by
    rw [AList.mem_keys]
    exact allocateUniqueSlug_notMem _ _
  stored := by
    change ∃ e : EventMarket, (c.applyGlobalEvent env _).store.registry.markets.lookup _ = _ ∧ _
    rw [c.registry_applyGlobalEvent env]
    have hmarket : eventMarketOf env c.store.registry created = .event _ := rfl
    exact Registry.lookup_upsertEvent c.regTx hmarket (allocateUniqueSlug_ne_empty _ _)

/-- After every step of a run in which fewer than `2 ^ 31` event contracts are created, events
have slugs of their own that lead to them, and every contract created got a free one. -/
theorem eventSlugs_of_run (env : Env) (steps : List BlockStep)
    (hfew : steps.countP BlockStep.createsContract < 2 ^ 31) :
    Throughout (BlockStep.apply env) (fun c => c.store.registry.SlugsResolve) steps
        { store := {} } ∧
      Along (BlockStep.apply env) (fun c step => ∀ created, step.contract = some created →
        c.store.registry.AllocatesSlug env.sdk (step.apply env c).store.registry created) steps
        { store := {} } := by
  constructor
  · have hkeeps : ∀ (c : Ctx) (step : BlockStep), True → c.SlugsKept →
        (step.apply env c).SlugsKept := fun _ step _ h => slugsKept_step h step
    have hkept : Throughout (BlockStep.apply env) SlugsKept steps { store := {} } :=
      throughout_of_keeps hkeeps (fun _ _ => trivial)
        ⟨Registry.slugged_empty, Registry.eventsNamed_empty⟩
    exact hkept.mono fun c h => h.1.slugsResolve h.2
  · have hroom : Along (BlockStep.apply env) (fun c step => step.createsContract = true →
        c.store.registry.slugToMarket.keys.length + 1 < 2 ^ 31) steps { store := {} } := by
      apply along_of_countP length_slugs_step
      change 0 + _ < _
      rwa [Nat.zero_add]
    refine along_of_along (I := fun _ => True) (fun _ _ _ _ => trivial) ?_ trivial hroom
    intro c step _ hstep created hcreated
    have hfew := hstep (Option.isSome_of_eq_some hcreated)
    unfold BlockStep.contract at hcreated
    split at hcreated
    · cases hcreated
      exact allocatesSlug_step hfew created
    · cases hcreated

end Ctx

namespace Sample

/-! The slug of one question is a suffixed slug of another, which then has to go on. -/

def rainTwo : EventContractCreatedEvent :=
  ⟨vault, "Rain 2", "usd", "yes", "no", market, otherMarket, "Open", 0, account⟩

def rainAgain : EventContractCreatedEvent :=
  ⟨otherMarket, "rain!", "usd", "yes", "no", market, account, "Open", 0, account⟩

def rainyRun : List BlockStep :=
  [.start ⟨7, "digest", 1000, []⟩, .event (.global (.eventContractCreated rain)),
    .event (.global (.marketCreated ⟨otherMarket, "LP/USD", account⟩)),
    .event (.global (.eventContractCreated rainTwo)), .unmapped {} (.cancelled "9"),
    .event (.global (.eventContractCreated rainAgain)),
    .event (.global (.eventContractResolved eventContract))]

theorem eventSlugs_rainyRun :
    (built widerSetting rainyRun).registry.slugToMarket.keys = ["rain-3", "rain-2", "rain"] ∧
      (built widerSetting rainyRun).registry.SlugsResolve := by
  refine ⟨by decide +kernel, ?_⟩
  rw [built_eq]
  exact (Ctx.eventSlugs_of_run widerSetting rainyRun (by decide)).1.finish

end Sample

end ClobIndexer
