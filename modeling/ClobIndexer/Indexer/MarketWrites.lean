import ClobIndexer.Indexer.Processor
import ClobIndexer.Indexer.Export
/-!
# Which market rows a block writes

`register_named_spot_market` inserts a spot market without a write set, so the
`markets` table lags behind the registry.  `RegistryTx.Lags` names the spot
addresses whose market is missing from the table, exactly: registering a shell
adds its address, and only a row write of the same market takes it away.
-/

namespace ClobIndexer

open Lib

variable {sdk : Sdk}

theorem marketView_apply (r : Registry) (id : Uuid) :
    marketView r id.toString = r.markets.lookup id := by
  unfold marketView
  rw [keyedView_apply Uuid.toString_injective]
  cases r.markets.lookup id <;> rfl

theorem marketView_of_forall_ne (r : Registry) {k : String} (h : ∀ id : Uuid, id.toString ≠ k) :
    marketView r k = none :=
  keyedView_of_forall_ne _ h

namespace RegistryTx

/-- The table shows the registry but for the spot markets at the addresses `U`,
whose rows it does not hold as they are. -/
structure Lags (sdk : Sdk) (rows : Table String Market) (U : String → Prop) (t : RegistryTx) :
    Prop where
  wf : t.reg.WellFormed
  shell : ∀ spot, U spot → ∃ m : SpotMarket,
    t.reg.markets.lookup (marketUuid sdk spot) = some (.spot m) ∧ m.marketAddress = spot
  stale : ∀ spot, U spot → t.writes.apply rows (marketUuid sdk spot).toString ≠
    t.reg.markets.lookup (marketUuid sdk spot)
  fresh : ∀ id, (∀ spot, U spot → marketUuid sdk spot ≠ id) →
    t.writes.apply rows id.toString = t.reg.markets.lookup id
  off : ∀ k, (∀ id : Uuid, id.toString ≠ k) → t.writes.apply rows k = none

variable {rows : Table String Market} {U : String → Prop} {t t' : RegistryTx}

theorem Lags.congr (h : t.Lags sdk rows U) {U' : String → Prop} (hU : ∀ spot, U' spot ↔ U spot) :
    t.Lags sdk rows U' := by
  have heq : U' = U := funext fun spot => propext (hU spot)
  rw [heq]
  exact h

/-- Nothing lags exactly when the table shows the registry. -/
theorem Lags.eq_marketView_iff (h : t.Lags sdk rows U) :
    t.writes.apply rows = marketView t.reg ↔ ∀ spot, ¬U spot := by
  constructor
  · intro heq spot hspot
    apply h.stale spot hspot
    rw [heq, marketView_apply]
  · intro hnone
    funext k
    by_cases hk : ∃ id : Uuid, id.toString = k
    · obtain ⟨id, rfl⟩ := hk
      rw [marketView_apply]
      exact h.fresh id fun spot hspot => absurd hspot (hnone spot)
    · have hne : ∀ id : Uuid, id.toString ≠ k := fun id hid => hk ⟨id, hid⟩
      rw [marketView_of_forall_ne _ hne, h.off k hne]

theorem lags_of_eq (hwf : t.reg.WellFormed) (h : t.writes.apply rows = marketView t.reg) :
    t.Lags sdk rows fun _ => False where
  wf := hwf
  shell := fun _ hU => hU.elim
  stale := fun _ hU => hU.elim
  fresh := fun id _ => by rw [h, marketView_apply]
  off := fun k hk => by rw [h, marketView_of_forall_ne _ hk]

theorem lags_write (h : t.Lags sdk rows U) (id : Uuid) (v : Option Market)
    (hv : ∀ m, v = some m → m.id = id)
    (hreg : ∀ id', t'.reg.markets.lookup id' =
      if id' = id then v else t.reg.markets.lookup id')
    (hwrites : t'.writes.apply rows = Function.update (t.writes.apply rows) id.toString v) :
    t'.Lags sdk rows fun spot => U spot ∧ marketUuid sdk spot ≠ id := by
  have hother : ∀ id', id' ≠ id →
      t'.writes.apply rows id'.toString = t.writes.apply rows id'.toString := by
    intro id' hne
    rw [hwrites, Function.update_of_ne]
    exact fun heq => hne (Uuid.toString_injective heq)
  refine ⟨⟨?_⟩, ?_, ?_, ?_, ?_⟩
  · intro id' market hl
    rw [hreg] at hl
    split_ifs at hl with hid
    · rw [hid]
      exact hv market hl
    · exact h.wf.market_id id' market hl
  · intro spot hU
    obtain ⟨m, hm, haddr⟩ := h.shell spot hU.1
    refine ⟨m, ?_, haddr⟩
    rw [hreg, if_neg hU.2]
    exact hm
  · intro spot hU
    rw [hother _ hU.2, hreg, if_neg hU.2]
    exact h.stale spot hU.1
  · intro id' hU
    by_cases hid : id' = id
    · rw [hid, hwrites, Function.update_self, hreg, if_pos rfl]
    · rw [hother _ hid, hreg, if_neg hid]
      apply h.fresh
      intro spot hspot heq
      exact hU spot ⟨hspot, heq ▸ hid⟩ heq
  · intro k hk
    rw [hwrites, Function.update_of_ne (fun heq => hk id heq.symm)]
    exact h.off k hk

theorem lags_insertShell (h : t.Lags sdk rows U) {r : Registry} {m : SpotMarket} (spot : String)
    (hid : m.id = marketUuid sdk spot) (haddr : m.marketAddress = spot)
    (habsent : t.reg.markets.lookup (marketUuid sdk spot) = none)
    (hreg : ∀ id', r.markets.lookup id' =
      if id' = marketUuid sdk spot then some (.spot m) else t.reg.markets.lookup id') :
    Lags sdk rows (fun spot' => U spot' ∨ spot' = spot) ⟨r, t.writes⟩ := by
  have hne : ∀ spot', U spot' → marketUuid sdk spot' ≠ marketUuid sdk spot := by
    intro spot' hU heq
    obtain ⟨m', hm', -⟩ := h.shell spot' hU
    rw [heq, habsent] at hm'
    cases hm'
  have hrow : t.writes.apply rows (marketUuid sdk spot).toString = none := by
    rw [h.fresh _ hne, habsent]
  refine ⟨⟨?_⟩, ?_, ?_, ?_, h.off⟩
  · intro id' market hl
    dsimp only at hl
    rw [hreg] at hl
    split_ifs at hl with hsame
    · cases hl
      rw [hsame]
      exact hid
    · exact h.wf.market_id id' market hl
  · rintro spot' (hU | rfl)
    · dsimp only
      rw [hreg, if_neg (hne spot' hU)]
      exact h.shell spot' hU
    · exact ⟨m, by dsimp only; rw [hreg, if_pos rfl], haddr⟩
  · rintro spot' (hU | rfl)
    · dsimp only
      rw [hreg, if_neg (hne spot' hU)]
      exact h.stale spot' hU
    · dsimp only
      rw [hreg, if_pos rfl, hrow]
      exact Option.some_ne_none _ ∘ Eq.symm
  · intro id' hU
    have hsame : id' ≠ marketUuid sdk spot := fun heq => hU spot (Or.inr rfl) heq.symm
    dsimp only
    rw [hreg, if_neg hsame]
    exact h.fresh id' fun spot' hspot' => hU spot' (Or.inl hspot')

/-! ## Operations with a write set -/

private theorem Lags.of_not_shell (h : t.Lags sdk rows U) (id : Uuid)
    (hid : ∀ m : SpotMarket, t.reg.markets.lookup id ≠ some (.spot m)) :
    t.Lags sdk rows fun spot => U spot ∧ marketUuid sdk spot ≠ id := by
  refine h.congr ?_
  intro spot
  constructor
  · intro hU
    exact hU.1
  · intro hU
    refine ⟨hU, ?_⟩
    rintro rfl
    obtain ⟨m, hm, -⟩ := h.shell spot hU
    exact hid m hm

theorem lags_removeOrphanSpotShell (h : t.Lags sdk rows U) (spotMarket : String) :
    (t.removeOrphanSpotShell sdk spotMarket).Lags sdk rows fun spot =>
      U spot ∧ marketUuid sdk spot ≠ marketUuid sdk spotMarket := by
  unfold removeOrphanSpotShell
  dsimp only
  split
  · rename_i horphan
    exact h.of_not_shell _ (by simp [horphan])
  · rename_i orphan horphan
    split_ifs with hcat
    · refine h.of_not_shell _ ?_
      rintro m hm
      rw [horphan] at hm
      cases hm
      exact hcat rfl
    · refine lags_write h _ none (fun m hm => by cases hm) ?_ ?_
      · intro id'
        exact Dict.lookup_erase_ite _ _ _
      · exact TableWrites.apply_remove _ _ _

theorem lags_bindLeg (h : t.Lags sdk rows U) (marketId : Uuid) (spotMarket outcome : String) :
    (t.bindLeg sdk marketId spotMarket outcome).Lags sdk rows fun spot =>
      U spot ∧ marketUuid sdk spot ≠ marketUuid sdk spotMarket := by
  have hdrop := lags_removeOrphanSpotShell h spotMarket
  exact ⟨⟨hdrop.wf.market_id⟩, hdrop.shell, hdrop.stale, hdrop.fresh, hdrop.off⟩

theorem id_upserted (r : Registry) (market : Market) : (upserted sdk r market).id = market.id := by
  unfold upserted inheritFrom
  dsimp only
  cases r.markets.lookup market.id with
  | none => cases market <;> rfl
  | some existing => cases market <;> rfl

variable (sdk) in
theorem event_upserted (r : Registry) (e : EventMarket) :
    ∃ e' : EventMarket, upserted sdk r (.event e) = .event e' ∧
      e'.yesSpotMarket = normalizeSpotMarketKey sdk e.yesSpotMarket ∧
      e'.noSpotMarket = normalizeSpotMarketKey sdk e.noSpotMarket := by
  unfold upserted inheritFrom
  dsimp only
  cases r.markets.lookup (Market.event e).id with
  | none => exact ⟨_, rfl, rfl, rfl⟩
  | some existing => exact ⟨_, rfl, rfl, rfl⟩

theorem lags_putMarket (h : t.Lags sdk rows U) (market : Market) :
    (t.putMarket market).Lags sdk rows fun spot => U spot ∧ marketUuid sdk spot ≠ market.id := by
  refine lags_write h market.id (some market) ?_ ?_ ?_
  · intro m hm
    cases hm
    rfl
  · intro id'
    exact Dict.lookup_insert_ite _ _ _ _
  · exact TableWrites.apply_put _ _ _ _

/-- An event contract brings its own row and the rows of its legs up to date. -/
theorem lags_upsertEvent (h : t.Lags sdk rows U) (e : EventMarket) :
    (t.upsertMarket sdk (.event e)).Lags sdk rows fun spot => U spot ∧
      marketUuid sdk spot ≠ e.id ∧
      marketUuid sdk spot ≠ marketUuid sdk (normalizeSpotMarketKey sdk e.yesSpotMarket) ∧
      marketUuid sdk spot ≠ marketUuid sdk (normalizeSpotMarketKey sdk e.noSpotMarket) := by
  have hid : (upserted sdk t.reg (.event e)).id = e.id := id_upserted t.reg (.event e)
  obtain ⟨e', he', hyes, hno⟩ := event_upserted sdk t.reg e
  have hput := lags_putMarket h (.event e')
  have hlegs := lags_bindLeg (lags_bindLeg hput e'.id e'.yesSpotMarket "yes") e'.id
    e'.noSpotMarket "no"
  unfold upsertMarket
  dsimp only
  rw [he'] at hid ⊢
  refine Lags.congr hlegs ?_
  intro spot
  rw [hid, hyes, hno]
  tauto

/-! ## State changes -/

section Restate

variable {marketAddress state : String} {entries : List (Sigma fun _ : Uuid => Market)}

private theorem apply_restateHead (e : Sigma fun _ : Uuid => Market) (hid : e.2.id = e.1)
    (w : TableWrites String Market) {k : String} (hk : e.1.toString ≠ k) :
    (if e.2.marketAddress = marketAddress then storeMarket (e.2.setState state) w
      else w).apply rows k = w.apply rows k := by
  split_ifs
  · unfold storeMarket
    rw [TableWrites.apply_put, Market.id_setState, hid, Function.update_of_ne hk.symm]
  · rfl

private theorem apply_restateEntries (hnodup : entries.NodupKeys)
    (hid : ∀ e ∈ entries, e.2.id = e.1) (w : TableWrites String Market) (id : Uuid) :
    (entries.foldl (fun w e => if e.2.marketAddress = marketAddress then
        storeMarket (e.2.setState state) w else w) w).apply rows id.toString =
      match entries.dlookup id with
      | some m =>
          if m.marketAddress = marketAddress then some (m.setState state)
          else w.apply rows id.toString
      | none => w.apply rows id.toString := by
  induction entries generalizing w with
  | nil => rfl
  | cons e entries ih =>
      rw [List.nodupKeys_cons] at hnodup
      have hhead : e.2.id = e.1 := hid e List.mem_cons_self
      rw [List.foldl_cons, ih hnodup.2 fun e' he' => hid e' (List.mem_cons_of_mem _ he')]
      by_cases hk : id = e.1
      · subst hk
        rw [List.dlookup_cons_eq, List.dlookup_eq_none.mpr hnodup.1]
        dsimp only
        split_ifs with haddr
        · unfold storeMarket
          rw [TableWrites.apply_put, Market.id_setState, hhead, Function.update_self]
        · rfl
      · have hne : e.1.toString ≠ id.toString := fun heq => hk (Uuid.toString_injective heq).symm
        rw [List.dlookup_cons_ne _ _ hk, apply_restateHead e hhead w hne]

private theorem apply_restateEntries_off (hid : ∀ e ∈ entries, e.2.id = e.1)
    (w : TableWrites String Market) {k : String} (hk : ∀ id : Uuid, id.toString ≠ k) :
    (entries.foldl (fun w e => if e.2.marketAddress = marketAddress then
        storeMarket (e.2.setState state) w else w) w).apply rows k = w.apply rows k := by
  induction entries generalizing w with
  | nil => rfl
  | cons e entries ih =>
      rw [List.foldl_cons, ih fun e' he' => hid e' (List.mem_cons_of_mem _ he')]
      exact apply_restateHead e (hid e List.mem_cons_self) w (hk e.1)

end Restate

theorem lags_updateMarketState (h : t.Lags sdk rows U) (marketAddress state : String) :
    (t.updateMarketState marketAddress state).Lags sdk rows fun spot =>
      U spot ∧ spot ≠ marketAddress := by
  have hid : ∀ e ∈ t.reg.markets.entries, e.2.id = e.1 := fun e he =>
    h.wf.market_id e.1 e.2 (Dict.mem_entries_iff.mp he)
  have hreg : ∀ id, (t.updateMarketState marketAddress state).reg.markets.lookup id =
      (t.reg.markets.lookup id).map (restate marketAddress state) :=
    fun id => Dict.lookup_mapVal _ _ _
  have hrow : ∀ id : Uuid, (t.updateMarketState marketAddress state).writes.apply rows
      id.toString = match t.reg.markets.lookup id with
        | some m =>
            if m.marketAddress = marketAddress then some (m.setState state)
            else t.writes.apply rows id.toString
        | none => t.writes.apply rows id.toString :=
    fun id => apply_restateEntries t.reg.markets.nodupKeys hid t.writes id
  refine ⟨⟨?_⟩, ?_, ?_, ?_, ?_⟩
  · intro id market hl
    rw [hreg, Option.map_eq_some_iff] at hl
    obtain ⟨m, hm, rfl⟩ := hl
    unfold restate
    split_ifs
    · rw [Market.id_setState, h.wf.market_id id m hm]
    · exact h.wf.market_id id m hm
  · intro spot hU
    obtain ⟨m, hm, haddr⟩ := h.shell spot hU.1
    have hother : ¬(Market.spot m).marketAddress = marketAddress := fun heq =>
      hU.2 (haddr ▸ heq)
    refine ⟨m, ?_, haddr⟩
    rw [hreg, hm, Option.map_some, restate, if_neg hother]
  · intro spot hU
    obtain ⟨m, hm, haddr⟩ := h.shell spot hU.1
    have hother : ¬(Market.spot m).marketAddress = marketAddress := fun heq =>
      hU.2 (haddr ▸ heq)
    have hstale := h.stale spot hU.1
    rw [hrow, hreg, hm]
    rw [hm] at hstale
    dsimp only
    rw [if_neg hother, Option.map_some, restate, if_neg hother]
    exact hstale
  · intro id hU
    rw [hrow, hreg]
    cases hm : t.reg.markets.lookup id with
    | none =>
        dsimp only
        rw [Option.map_none, ← hm]
        apply h.fresh
        intro spot hspot heq
        obtain ⟨m, hspot', -⟩ := h.shell spot hspot
        rw [heq, hm] at hspot'
        cases hspot'
    | some market =>
        dsimp only
        rw [Option.map_some, restate]
        split_ifs with haddr
        · rfl
        · rw [← hm]
          apply h.fresh
          intro spot hspot heq
          refine hU spot ⟨hspot, ?_⟩ heq
          rintro rfl
          obtain ⟨m, hspot', hm'⟩ := h.shell spot hspot
          rw [heq, hm] at hspot'
          cases hspot'
          exact haddr hm'
  · intro k hk
    exact (apply_restateEntries_off hid t.writes hk).trans (h.off k hk)

end RegistryTx

/-! ## Registering shells -/

namespace Registry

theorem lookup_registerNamedSpotMarket (name spotMarket deployer : String) (r : Registry)
    (id : Uuid) :
    (r.registerNamedSpotMarket sdk name spotMarket deployer).markets.lookup id =
      if r.registersShell sdk name spotMarket = true ∧
        id = marketUuid sdk (normalizeSpotMarketKey sdk spotMarket)
      then some (spotShell sdk name (normalizeSpotMarketKey sdk spotMarket) deployer)
      else r.markets.lookup id := by
  unfold registerNamedSpotMarket registersShell
  dsimp only
  generalize normalizeSpotMarketKey sdk spotMarket = spot
  by_cases hempty : Text.toAsciiUppercase (Text.trim name) = "" ∨ spot = ""
  · rw [if_pos hempty, if_neg]
    rintro ⟨hreg, -⟩
    rw [decide_eq_true_eq] at hreg
    exact hempty.elim hreg.1 hreg.2.1
  rw [if_neg hempty]
  rw [not_or] at hempty
  have hbound : ∀ names, Registry.boundToOther { r with spotByName := names } spot =
      r.boundToOther spot := fun _ => rfl
  rw [hbound]
  by_cases hb : r.boundToOther spot = true
  · rw [if_pos hb, if_neg]
    rintro ⟨hreg, -⟩
    rw [decide_eq_true_eq] at hreg
    rw [hreg.2.2.1] at hb
    cases hb
  rw [if_neg hb]
  dsimp only
  by_cases hmem : marketUuid sdk spot ∈ r.markets
  · rw [if_pos hmem, if_neg]
    rintro ⟨hreg, -⟩
    rw [decide_eq_true_eq] at hreg
    exact hreg.2.2.2 hmem
  · rw [if_neg hmem, Dict.lookup_insert_ite]
    have hreg : Text.toAsciiUppercase (Text.trim name) ≠ "" ∧ spot ≠ "" ∧
        r.boundToOther spot = false ∧ marketUuid sdk spot ∉ r.markets :=
      ⟨hempty.1, hempty.2, by simpa using hb, hmem⟩
    simp [hreg]

theorem lookup_resolveSpotMarket (lawful : LawfulSdk sdk) (spotMarket : String) (r : Registry)
    (id : Uuid) :
    (r.resolveSpotMarket sdk spotMarket).1.markets.lookup id =
      if r.resolveRegistersShell sdk spotMarket = true ∧
        id = marketUuid sdk (normalizeSpotMarketKey sdk spotMarket)
      then some (spotShell sdk (r.standaloneName (normalizeSpotMarketKey sdk spotMarket))
        (normalizeSpotMarketKey sdk spotMarket) "")
      else r.markets.lookup id := by
  have hnorm := normalize_normalize lawful spotMarket
  unfold resolveSpotMarket resolveRegistersShell ensureStandaloneSpotMarket
  dsimp only
  cases hmap : r.lookupSpotMarket sdk spotMarket with
  | some mapped => simp
  | none =>
      have hmap' : r.lookupSpotMarket sdk (normalizeSpotMarketKey sdk spotMarket) = none := by
        unfold lookupSpotMarket at hmap ⊢
        rw [hnorm]
        exact hmap
      dsimp only
      rw [hmap']
      dsimp only
      rw [lookup_registerNamedSpotMarket, hnorm]
      simp

end Registry

namespace RegistryTx

variable {rows : Table String Market} {U : String → Prop}

theorem lags_gainShell {r r' : Registry} {w : TableWrites String Market}
    (h : Lags sdk rows U ⟨r, w⟩) {gained : Prop} [Decidable gained] (name spot deployer : String)
    (habsent : gained → marketUuid sdk spot ∉ r.markets)
    (hreg : ∀ id, r'.markets.lookup id = if gained ∧ id = marketUuid sdk spot
      then some (Registry.spotShell sdk name spot deployer) else r.markets.lookup id) :
    Lags sdk rows (fun spot' => U spot' ∨ gained ∧ spot' = spot) ⟨r', w⟩ := by
  by_cases hgained : gained
  · simp only [hgained, true_and] at hreg ⊢
    exact lags_insertShell h spot rfl rfl (AList.lookup_eq_none.mpr (habsent hgained)) hreg
  · simp only [hgained, false_and, if_false, or_false] at hreg ⊢
    refine ⟨⟨?_⟩, ?_, ?_, ?_, h.off⟩
    · intro id market hl
      exact h.wf.market_id id market (by rw [← hl, hreg])
    · intro spot' hU
      dsimp only
      rw [hreg]
      exact h.shell spot' hU
    · intro spot' hU
      dsimp only
      rw [hreg]
      exact h.stale spot' hU
    · intro id hU
      dsimp only
      rw [hreg]
      exact h.fresh id hU

theorem lags_registerNamedSpotMarket {r : Registry} {w : TableWrites String Market}
    (h : Lags sdk rows U ⟨r, w⟩) (name spotMarket deployer : String) :
    Lags sdk rows
      (fun spot => U spot ∨ r.registersShell sdk name spotMarket = true ∧
        spot = normalizeSpotMarketKey sdk spotMarket)
      ⟨r.registerNamedSpotMarket sdk name spotMarket deployer, w⟩ := by
  refine lags_gainShell h name _ deployer ?_
    (Registry.lookup_registerNamedSpotMarket name spotMarket deployer r)
  intro hgained
  unfold Registry.registersShell at hgained
  rw [decide_eq_true_eq] at hgained
  exact hgained.2.2.2

theorem lags_resolveSpotMarket (lawful : LawfulSdk sdk) {r : Registry}
    {w : TableWrites String Market} (h : Lags sdk rows U ⟨r, w⟩) (spotMarket : String) :
    Lags sdk rows
      (fun spot => U spot ∨ r.resolveRegistersShell sdk spotMarket = true ∧
        spot = normalizeSpotMarketKey sdk spotMarket)
      ⟨(r.resolveSpotMarket sdk spotMarket).1, w⟩ := by
  refine lags_gainShell h _ _ "" ?_ (Registry.lookup_resolveSpotMarket lawful spotMarket r)
  intro hgained
  unfold Registry.resolveRegistersShell Registry.registersShell at hgained
  dsimp only at hgained
  rw [decide_eq_true_eq, normalize_normalize lawful, decide_eq_true_eq] at hgained
  exact hgained.2.2.2.2

end RegistryTx

/-! ## What handlers do to the registry -/

variable {env : Env}

namespace Ctx

def regTx (c : Ctx) : RegistryTx := ⟨c.store.registry, c.ws.markets⟩

variable (c : Ctx)

@[simp] theorem regTx_onBooks (publishWs : Bool)
    (f : BookTx → BookTx × Option (OrderBookDelta × QuoteDelta)) :
    (c.onBooks publishWs f).regTx = c.regTx := rfl

@[simp] theorem regTx_onOrders (f : OrderTx → OrderTx) : (c.onOrders f).regTx = c.regTx := rfl

@[simp] theorem regTx_onVaults (f : VaultTx → VaultTx) : (c.onVaults f).regTx = c.regTx := rfl

@[simp] theorem regTx_setRegistry (r : Registry) :
    (c.setRegistry r).regTx = ⟨r, c.ws.markets⟩ := rfl

@[simp] theorem regTx_onRegistry (f : RegistryTx → RegistryTx) :
    (c.onRegistry f).regTx = f c.regTx := rfl

@[simp] theorem regTx_recordLastTradePrice (spotMarket : String) (price : UInt64) :
    (c.recordLastTradePrice sdk spotMarket price).regTx = c.regTx := rfl

@[simp] theorem regTx_hydrateSpotFromChain (spotMarket : String) :
    (c.hydrateSpotFromChain env spotMarket).regTx = c.regTx := by
  rcases hydrateSpotFromChain_cases env spotMarket c with ⟨calls, heq⟩ | ⟨calls, book, last, heq⟩
  · rw [heq]
    rfl
  · rw [heq]
    rfl

@[simp] theorem regTx_ensureChainHydrated (spotMarket : String) :
    (c.ensureChainHydrated env spotMarket).regTx = c.regTx := by
  unfold ensureChainHydrated
  split_ifs
  · rfl
  · exact regTx_hydrateSpotFromChain c spotMarket

theorem regTx_hydrateAllSpotMarkets : (c.hydrateAllSpotMarkets env).regTx = c.regTx := by
  unfold hydrateAllSpotMarkets
  exact List.foldlRecOn (motive := fun c' => regTx c' = c.regTx) _ _ rfl fun c' hc' spot _ =>
    (regTx_hydrateSpotFromChain c' spot).trans hc'

@[simp] theorem regTx_publishStoredOrder (event spotMarket chainOrderId : String)
    (blockNum : UInt64) :
    (c.publishStoredOrder env event spotMarket chainOrderId blockNum).regTx = c.regTx := by
  unfold publishStoredOrder
  split <;> rfl

@[simp] theorem regTx_publishUserOrderFilled (filled : OrderFilledEvent) (spotMarket : String)
    (blockNum : UInt64) (txSender : String) :
    (c.publishUserOrderFilled env filled spotMarket blockNum txSender).regTx = c.regTx := by
  unfold publishUserOrderFilled
  dsimp only
  split
  · rfl
  · split_ifs <;> rfl

@[simp] theorem regTx_applyVaultFill (spotMarket : String) (filled : OrderFilledEvent) :
    (c.applyVaultFill env spotMarket filled).regTx = c.regTx := by
  unfold applyVaultFill
  split <;> rfl

@[simp] theorem regTx_publishExecuted (spotMarket : String) (blockNum : UInt64)
    (executed : MarketOrderExecutedEvent) (order : Order) :
    (c.publishExecuted spotMarket blockNum executed order).regTx = c.regTx := by
  unfold publishExecuted
  dsimp only
  split_ifs <;> rfl

@[simp] theorem regTx_applyOrderCreatedToBook (blockNum : UInt64) (created : OrderCreatedEvent)
    (spotMarket : String) (publishWs : Bool) :
    (c.applyOrderCreatedToBook env blockNum created spotMarket publishWs).regTx = c.regTx := by
  unfold applyOrderCreatedToBook
  split <;> rfl

theorem regTx_indexOrderCreated (created : OrderCreatedEvent) (spotMarket : String)
    (statusOverride : Option (String × UInt64)) :
    (c.indexOrderCreated env created spotMarket statusOverride).regTx =
      ⟨(c.regTx.reg.resolveSpotMarket env.sdk spotMarket).1, c.regTx.writes⟩ := rfl

theorem regTx_indexMarketOrderExecuted (executed : MarketOrderExecutedEvent)
    (spotMarket : String) :
    (c.indexMarketOrderExecuted env executed spotMarket).1.regTx =
      ⟨(c.regTx.reg.resolveSpotMarket env.sdk spotMarket).1, c.regTx.writes⟩ := rfl

def registersShell (env : Env) (spotMarket : String) (c : Ctx) : MarketOrderEvent → Bool
  | .created e =>
      !c.store.orders.hasChainOrder env.sdk spotMarket e.orderId &&
        c.store.registry.resolveRegistersShell env.sdk spotMarket
  | .executed e =>
      !c.store.orders.hasChainOrder env.sdk spotMarket e.orderId &&
        c.store.registry.resolveRegistersShell env.sdk spotMarket
  | .cancelled _ => false
  | .updated _ => false
  | .filled _ _ => false

variable {c} {rows : Table String Market} {U : String → Prop}

/-- An order event writes no market row; it may register the market it is on. -/
theorem lags_applyMarketOrderEvent (lawful : LawfulSdk env.sdk)
    (h : c.regTx.Lags env.sdk rows U) (opts : ProcessOpts) (blockNum : UInt64)
    (spotMarket : String) (e : MarketOrderEvent) :
    (c.applyMarketOrderEvent env opts blockNum spotMarket e).regTx.Lags env.sdk rows fun spot =>
      U spot ∨ c.registersShell env spotMarket e = true ∧
        spot = normalizeSpotMarketKey env.sdk spotMarket := by
  have hsame : ∀ {c' : Ctx}, c'.regTx = c.regTx → c'.regTx.Lags env.sdk rows fun spot =>
      U spot ∨ false = true ∧ spot = normalizeSpotMarketKey env.sdk spotMarket := by
    intro c' hc'
    rw [hc']
    exact h.congr fun spot => by simp
  have hresolve := RegistryTx.lags_resolveSpotMarket lawful h spotMarket
  cases e with
  | created e =>
      change (c.handleCreated env opts blockNum spotMarket e).regTx.Lags _ _ _
      by_cases hdup : c.store.orders.hasChainOrder env.sdk spotMarket e.orderId = true
      · have hval : c.registersShell env spotMarket (.created e) = false := by
          simp [registersShell, hdup]
        rw [hval, handleCreated, if_pos hdup]
        exact hsame rfl
      · have hval : c.registersShell env spotMarket (.created e) =
            c.store.registry.resolveRegistersShell env.sdk spotMarket := by
          simp [registersShell, hdup]
        have hreg : ∀ c' : Ctx, c'.regTx = c.regTx →
            (c'.indexOrderCreated env e spotMarket none).regTx =
              ⟨(c.regTx.reg.resolveSpotMarket env.sdk spotMarket).1, c.regTx.writes⟩ := by
          intro c' hc'
          rw [regTx_indexOrderCreated, hc']
        rw [hval, handleCreated, if_neg hdup]
        dsimp only
        split_ifs
        · unfold publishUserOrderCreated
          rw [regTx_publishStoredOrder, hreg _ (by simp)]
          exact hresolve
        · rw [hreg _ (by simp)]
          exact hresolve
  | cancelled e =>
      apply hsame
      change (c.handleCancelled env opts blockNum spotMarket e).regTx = _
      unfold handleCancelled publishUserOrderCancelled
      dsimp only
      split_ifs <;> simp
  | updated e =>
      apply hsame
      change (c.handleUpdated env opts blockNum spotMarket e).regTx = _
      unfold handleUpdated publishUserOrderUpdated
      dsimp only
      split_ifs <;> simp
  | filled e txSender =>
      apply hsame
      change (c.handleFilled env opts blockNum spotMarket e txSender).regTx = _
      unfold handleFilled applyFillToIndex
      dsimp only
      split_ifs <;> simp
  | executed e =>
      change (c.handleExecuted env opts blockNum spotMarket e).regTx.Lags _ _ _
      by_cases hdup : c.store.orders.hasChainOrder env.sdk spotMarket e.orderId = true
      · have hval : c.registersShell env spotMarket (.executed e) = false := by
          simp [registersShell, hdup]
        rw [hval, handleExecuted, if_pos hdup]
        exact hsame rfl
      · have hval : c.registersShell env spotMarket (.executed e) =
            c.store.registry.resolveRegistersShell env.sdk spotMarket := by
          simp [registersShell, hdup]
        rw [hval, handleExecuted, if_neg hdup]
        dsimp only
        split_ifs
        · rw [regTx_publishExecuted, regTx_indexMarketOrderExecuted]
          exact hresolve
        · rw [regTx_indexMarketOrderExecuted]
          exact hresolve

end Ctx

end ClobIndexer
