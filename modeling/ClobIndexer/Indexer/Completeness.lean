import ClobIndexer.HexSdk
import ClobIndexer.Indexer.BlockWrites
import ClobIndexer.Indexer.MarketWrites
/-!
# What the write set of a block brings up to date

`Index` is the in-memory index with its invariant.  For orders, books, last
trades and vaults the write set of a block leads the tables from one full export
to the next.  For markets it does so exactly when every spot market registered on
the way gets its row written later in the block.
-/

namespace ClobIndexer

open Lib

variable {env : Env}

/-- The in-memory index: a state with the invariant every writer keeps. -/
structure Index (sdk : Sdk) where
  state : IndexState
  wf : state.WellFormed sdk

/-- The tables of orders, books, last trades and vaults equal the full export. -/
structure IndexTables.Mirrors (sdk : Sdk) (t : IndexTables) (s : IndexState) : Prop where
  orders : t.orders = (s.exported sdk).orders
  bookLevels : t.bookLevels = (s.exported sdk).bookLevels
  bookMeta : t.bookMeta = (s.exported sdk).bookMeta
  lastTrades : t.lastTrades = (s.exported sdk).lastTrades
  vaults : t.vaults = (s.exported sdk).vaults
  vaultPortfolio : t.vaultPortfolio = (s.exported sdk).vaultPortfolio

/-! ## Market rows over a block -/

namespace GlobalEvent

def SavesMarket (sdk : Sdk) (spot : String) : GlobalEvent → Prop
  | .eventContractCreated e =>
      marketUuid sdk spot = marketUuid sdk e.marketAddress ∨
        marketUuid sdk spot = marketUuid sdk (normalizeSpotMarketKey sdk e.yesSpotMarket) ∨
        marketUuid sdk spot = marketUuid sdk (normalizeSpotMarketKey sdk e.noSpotMarket)
  | .eventContractResolved marketAddress => spot = marketAddress
  | _ => False

end GlobalEvent

namespace Ctx

def shellRegistered (env : Env) (c : Ctx) : GlobalEvent → Option String
  | .marketCreated e =>
      if c.store.registry.registersShell env.sdk e.name e.marketAddress then
        some (normalizeSpotMarketKey env.sdk e.marketAddress)
      else none
  | _ => none

/-- Every spot market a global event registers has its row written by a later one. -/
def ShellsSaved (env : Env) : Ctx → List GlobalEvent → Prop
  | _, [] => True
  | c, e :: es =>
      (∀ spot, c.shellRegistered env e = some spot → ∃ e' ∈ es, e'.SavesMarket env.sdk spot) ∧
        ShellsSaved env (c.applyGlobalEvent env e) es

def NoneRegistered (env : Env) (opts : ProcessOpts) (blockNum : UInt64) (spotMarket : String) :
    Ctx → List MarketOrderEvent → Prop
  | _, [] => True
  | c, e :: es =>
      c.registersShell env spotMarket e = false ∧
        NoneRegistered env opts blockNum spotMarket
          (c.applyMarketOrderEvent env opts blockNum spotMarket e) es

def TasksRegisterNone (env : Env) (opts : ProcessOpts) (blockNum : UInt64) :
    Ctx → List (Sigma fun _ : String => List MarketOrderEvent) → Prop
  | _, [] => True
  | c, task :: tasks =>
      NoneRegistered env opts blockNum task.1 { c with ws := {} } task.2 ∧
        TasksRegisterNone env opts blockNum (c.runMarketTask env opts blockNum task) tasks

/-- The spot markets a block registers all get their row written in it. -/
structure MarketRowsSaved (env : Env) (opts : ProcessOpts) (prepared : PreparedBlock) (c : Ctx) :
    Prop where
  globals : ShellsSaved env (c.beginBlock prepared.block) prepared.block.globalEvents
  orders : TasksRegisterNone env opts prepared.blockNum (c.applySerial env opts prepared)
    prepared.markets.entries

variable {c : Ctx} {rows : Table String Market} {U : String → Prop}

theorem lags_applyGlobalEvent (h : c.regTx.Lags env.sdk rows U) (e : GlobalEvent) :
    (c.applyGlobalEvent env e).regTx.Lags env.sdk rows fun spot =>
      (U spot ∧ ¬e.SavesMarket env.sdk spot) ∨ c.shellRegistered env e = some spot := by
  have hsame : ∀ {c' : Ctx}, c'.regTx = c.regTx → c'.regTx.Lags env.sdk rows fun spot =>
      (U spot ∧ ¬False) ∨ (none : Option String) = some spot := by
    intro c' hc'
    rw [hc']
    exact h.congr fun spot => by simp
  cases e with
  | eventContractCreated created =>
      have hup := RegistryTx.lags_upsertEvent h
        { id := marketUuid env.sdk created.marketAddress
          slug := c.store.registry.allocateMarketSlug created.question
          question := created.question
          iconUrl := none
          marketAddress := created.marketAddress
          collateralToken := created.collateralToken
          yesToken := created.yesToken
          noToken := created.noToken
          yesSpotMarket := created.yesSpotMarket
          noSpotMarket := created.noSpotMarket
          state := created.state
          resolutionDeadline := created.resolutionDeadline
          deployer := created.creator }
      change (c.indexMarketCreated env created).regTx.Lags _ _ _
      unfold indexMarketCreated hydrateMarketSpots
      rw [regTx_hydrateSpotFromChain, regTx_hydrateSpotFromChain]
      refine RegistryTx.Lags.congr hup fun spot => ?_
      simp only [GlobalEvent.SavesMarket, shellRegistered, reduceCtorEq, or_false, not_or]
  | eventContractResolved marketAddress =>
      have hup := RegistryTx.lags_updateMarketState h marketAddress "Resolved"
      refine RegistryTx.Lags.congr hup fun spot => ?_
      simp only [GlobalEvent.SavesMarket, shellRegistered, reduceCtorEq, or_false]
  | vaultCreated created => exact hsame rfl
  | vaultDeposited vault equity => exact hsame rfl
  | vaultWithdrawn vault equity => exact hsame rfl
  | vaultManagerUpdated vault newManager => exact hsame rfl
  | vaultDepositPermissionUpdated vault allowDeposit => exact hsame rfl
  | vaultClosed vault => exact hsame rfl
  | marketCreated created =>
      have hup := RegistryTx.lags_registerNamedSpotMarket h created.name created.marketAddress
        created.creator
      change (c.indexSpotMarketCreated env created).regTx.Lags _ _ _
      unfold indexSpotMarketCreated
      rw [regTx_ensureChainHydrated, regTx_setRegistry]
      refine RegistryTx.Lags.congr hup fun spot => ?_
      simp only [GlobalEvent.SavesMarket, shellRegistered, not_false_eq_true, and_true]
      split_ifs with hreg
      · simp [hreg, eq_comm]
      · simp [hreg]
  | secondary e => exact hsame rfl

theorem lags_globalEvents (es : List GlobalEvent) (h : c.regTx.Lags env.sdk rows U) :
    ∃ U', (es.foldl (applyGlobalEvent env) c).regTx.Lags env.sdk rows U' ∧
      ((∀ spot, ¬U' spot) ↔
        (∀ spot, U spot → ∃ e ∈ es, e.SavesMarket env.sdk spot) ∧ ShellsSaved env c es) := by
  induction es generalizing c U with
  | nil =>
      refine ⟨U, h, ?_⟩
      simp [ShellsSaved]
  | cons e es ih =>
      obtain ⟨U', hU', hiff⟩ := ih (lags_applyGlobalEvent h e)
      refine ⟨U', hU', hiff.trans ?_⟩
      simp only [ShellsSaved, List.mem_cons, exists_eq_or_imp]
      constructor
      · rintro ⟨hsaved, hrest⟩
        refine ⟨fun spot hspot => ?_, fun spot hreg => hsaved spot (Or.inr hreg), hrest⟩
        by_cases he : e.SavesMarket env.sdk spot
        · exact Or.inl he
        · exact Or.inr (hsaved spot (Or.inl ⟨hspot, he⟩))
      · rintro ⟨hU, hreg, hrest⟩
        refine ⟨fun spot hspot => ?_, hrest⟩
        rcases hspot with ⟨hspot, he⟩ | hspot
        · exact (hU spot hspot).resolve_left he
        · exact hreg spot hspot

theorem lags_marketEvents (lawful : LawfulSdk env.sdk) (opts : ProcessOpts) (blockNum : UInt64)
    (spotMarket : String) (es : List MarketOrderEvent) (h : c.regTx.Lags env.sdk rows U) :
    ∃ U', (c.applyMarketOrderEvents env opts blockNum spotMarket es).regTx.Lags env.sdk rows U' ∧
      ((∀ spot, ¬U' spot) ↔
        (∀ spot, ¬U spot) ∧ NoneRegistered env opts blockNum spotMarket c es) := by
  induction es generalizing c U with
  | nil =>
      refine ⟨U, h, ?_⟩
      simp [NoneRegistered]
  | cons e es ih =>
      obtain ⟨U', hU', hiff⟩ :=
        ih (lags_applyMarketOrderEvent lawful h opts blockNum spotMarket e)
      refine ⟨U', hU', hiff.trans ?_⟩
      simp only [NoneRegistered]
      constructor
      · rintro ⟨hnone, hrest⟩
        refine ⟨fun spot hspot => hnone spot (Or.inl hspot), ?_, hrest⟩
        rw [Bool.eq_false_iff]
        intro hreg
        exact hnone _ (Or.inr ⟨hreg, rfl⟩)
      · rintro ⟨hU, hreg, hrest⟩
        refine ⟨?_, hrest⟩
        rintro spot (hspot | ⟨hspot, -⟩)
        · exact hU spot hspot
        · rw [hreg] at hspot
          cases hspot

private theorem lags_of_apply_eq {r : Registry} {w w' : TableWrites String Market}
    {rows' : Table String Market} (h : RegistryTx.Lags env.sdk rows U ⟨r, w⟩)
    (heq : w'.apply rows' = w.apply rows) : RegistryTx.Lags env.sdk rows' U ⟨r, w'⟩ := by
  refine ⟨h.wf, h.shell, ?_, ?_, ?_⟩
  · intro spot hU
    dsimp only
    rw [heq]
    exact h.stale spot hU
  · intro id hU
    dsimp only
    rw [heq]
    exact h.fresh id hU
  · intro k hk
    dsimp only
    rw [heq]
    exact h.off k hk

theorem lags_marketTasks (lawful : LawfulSdk env.sdk) (opts : ProcessOpts) (blockNum : UInt64)
    (tasks : List (Sigma fun _ : String => List MarketOrderEvent))
    (h : c.regTx.Lags env.sdk rows U) :
    ∃ U', (tasks.foldl (runMarketTask env opts blockNum) c).regTx.Lags env.sdk rows U' ∧
      ((∀ spot, ¬U' spot) ↔
        (∀ spot, ¬U spot) ∧ TasksRegisterNone env opts blockNum c tasks) := by
  induction tasks generalizing c U with
  | nil =>
      refine ⟨U, h, ?_⟩
      simp [TasksRegisterNone]
  | cons task tasks ih =>
      have hstart : ({ c with ws := {} } : Ctx).regTx.Lags env.sdk
          (c.ws.markets.apply rows) U :=
        lags_of_apply_eq h (TableWrites.apply_empty _)
      obtain ⟨U₁, hU₁, hiff₁⟩ := lags_marketEvents lawful opts blockNum task.1 task.2 hstart
      have hmerge : (c.runMarketTask env opts blockNum task).regTx.Lags env.sdk rows U₁ :=
        lags_of_apply_eq hU₁ (TableWrites.apply_merge _ _ _)
      obtain ⟨U', hU', hiff⟩ := ih hmerge
      refine ⟨U', hU', hiff.trans ?_⟩
      rw [hiff₁, TasksRegisterNone, and_assoc]

variable (env) in
theorem regTx_unmapped (opts : ProcessOpts) (es : List UnmappedOrderEvent) (c : Ctx) :
    (es.foldl (applyUnmapped env opts) c).regTx = c.regTx := by
  refine List.foldlRecOn (motive := fun c' => regTx c' = c.regTx) _ _ rfl ?_
  intro c' hc' e _
  cases e <;>
  · unfold applyUnmapped
    split_ifs
    · exact (regTx_hydrateAllSpotMarkets c').trans hc'
    · exact hc'

/-- The market rows that lag after a block: none exactly when all are saved. -/
theorem lags_processPreparedBlock (lawful : LawfulSdk env.sdk) (opts : ProcessOpts)
    (prepared : PreparedBlock) (rows : Table String Market) (hwf : c.store.registry.WellFormed)
    (hrows : rows = marketView c.store.registry) :
    ∃ U', (c.processPreparedBlock env opts prepared).regTx.Lags env.sdk rows U' ∧
      ((∀ spot, ¬U' spot) ↔ MarketRowsSaved env opts prepared c) := by
  have hbegin : (c.beginBlock prepared.block).regTx.Lags env.sdk rows fun _ => False :=
    RegistryTx.lags_of_eq hwf ((TableWrites.apply_empty rows).trans hrows)
  obtain ⟨U₁, hU₁, hiff₁⟩ := lags_globalEvents prepared.block.globalEvents hbegin
  rw [← regTx_unmapped env opts prepared.unmapped] at hU₁
  obtain ⟨U', hU', hiff⟩ := lags_marketTasks lawful opts prepared.blockNum
    prepared.markets.entries hU₁
  refine ⟨U', hU', hiff.trans ?_⟩
  rw [hiff₁]
  constructor
  · rintro ⟨⟨-, hglobals⟩, horders⟩
    exact ⟨hglobals, horders⟩
  · rintro ⟨hglobals, horders⟩
    exact ⟨⟨fun _ hU => hU.elim, hglobals⟩, horders⟩

end Ctx

/-! ## The index over a block -/

def IndexState.viewTables (sdk : Sdk) (s : IndexState) : IndexTables where
  head := none
  markets := marketView s.registry
  orders := orderView sdk s.orders
  bookLevels := levelView s.books
  bookMeta := metaView s.books
  lastTrades := lastTradeView s.lastTradePrice
  vaults := vaultView s.vaults
  vaultPortfolio := portfolioView s.vaults

theorem tracks_of_view {sdk : Sdk} (tables : IndexTables) {c : Ctx}
    (hwf : c.store.WellFormed sdk)
    (horders : tables.orders = orderView sdk c.store.orders)
    (hlevels : tables.bookLevels = levelView c.store.books)
    (hmetas : tables.bookMeta = metaView c.store.books)
    (htrades : tables.lastTrades = lastTradeView c.store.lastTradePrice)
    (hvaults : tables.vaults = vaultView c.store.vaults)
    (hportfolio : tables.vaultPortfolio = portfolioView c.store.vaults) :
    Ctx.Tracks sdk tables { c with ws := {} } where
  orders := ⟨hwf.orders, (TableWrites.apply_empty _).trans horders⟩
  books := ⟨hwf.books, (TableWrites.apply_empty _).trans hlevels,
    (TableWrites.apply_empty _).trans hmetas⟩
  vaults := ⟨hwf.vaults, (TableWrites.apply_empty _).trans hvaults,
    (TableWrites.apply_empty _).trans hportfolio⟩
  lastTrades := (TableWrites.apply_empty _).trans htrades
  lastTradeKeys := hwf.lastTrades
  incremental := rfl

/-- A block keeps the index well-formed. -/
theorem wellFormed_processPreparedBlock (lawful : LawfulSdk env.sdk) {c : Ctx}
    (hwf : c.store.WellFormed env.sdk) (opts : ProcessOpts) (prepared : PreparedBlock) :
    (c.processPreparedBlock env opts prepared).store.WellFormed env.sdk := by
  have htracks := Ctx.tracks_processPreparedBlock lawful
    (tracks_of_view (c.store.viewTables env.sdk) hwf rfl rfl rfl rfl rfl rfl) opts
    prepared
  obtain ⟨U, hlags, -⟩ := Ctx.lags_processPreparedBlock lawful opts prepared _ hwf.registry rfl
  exact ⟨htracks.orders.wf, htracks.books.wf, htracks.vaults.wf, hlags.wf,
    htracks.lastTradeKeys⟩

namespace Index

def empty (sdk : Sdk) : Index sdk := ⟨{}, IndexState.wellFormed_empty sdk⟩

def ctx {sdk : Sdk} (s : Index sdk) (calls : Nat) : Ctx := { store := s.state, calls }

variable (lawful : LawfulSdk env.sdk) (s : Index env.sdk) (calls : Nat) (opts : ProcessOpts)
  (prepared : PreparedBlock)

def process : Index env.sdk :=
  ⟨((s.ctx calls).processPreparedBlock env opts prepared).store,
    wellFormed_processPreparedBlock lawful s.wf opts prepared⟩

include lawful

/-- The write set of a block takes tables that mirror the index to tables that
mirror the index after the block. -/
theorem mirrors_applyIndexWriteSet (tables : IndexTables) (hfit : s.state.SizesFit)
    (hmirror : tables.Mirrors env.sdk s.state)
    (hfit' : ((s.ctx calls).processPreparedBlock env opts prepared).store.SizesFit) :
    (tables.applyIndexWriteSet ((s.ctx calls).processPreparedBlock env opts prepared).ws).Mirrors
      env.sdk ((s.ctx calls).processPreparedBlock env opts prepared).store := by
  have hstart := tracks_of_view tables (c := s.ctx calls) s.wf
    (hmirror.orders.trans (exported_orders s.wf.orders))
    (hmirror.bookLevels.trans (exported_bookLevels s.wf.books hfit))
    (hmirror.bookMeta.trans (exported_bookMeta s.wf.books))
    (hmirror.lastTrades.trans (exported_lastTrades s.wf))
    (hmirror.vaults.trans (exported_vaults s.wf.vaults))
    (hmirror.vaultPortfolio.trans (exported_vaultPortfolio s.wf.vaults hfit.holdings))
  have htracks := Ctx.tracks_processPreparedBlock lawful hstart opts prepared
  have hwf := wellFormed_processPreparedBlock lawful (c := s.ctx calls) s.wf opts prepared
  generalize (s.ctx calls).processPreparedBlock env opts prepared = post at htracks hwf hfit' ⊢
  have hbase : (if post.ws.fullReplace = true then IndexTables.empty else tables) = tables := by
    rw [htracks.incremental]
    rfl
  unfold IndexTables.applyIndexWriteSet
  simp only [hbase]
  constructor
  · exact htracks.orders.eq.trans (exported_orders hwf.orders).symm
  · exact htracks.books.levels.trans (exported_bookLevels hwf.books hfit').symm
  · exact htracks.books.metas.trans (exported_bookMeta hwf.books).symm
  · exact htracks.lastTrades.trans (exported_lastTrades hwf).symm
  · exact htracks.vaults.vaults.trans (exported_vaults hwf.vaults).symm
  · exact htracks.vaults.portfolio.trans (exported_vaultPortfolio hwf.vaults hfit'.holdings).symm

end Index

namespace Sample

def blockOf (events : List GlobalEvent) (markets : Dict String (List MarketOrderEvent)) :
    PreparedBlock where
  blockNum := 7
  blockDigest := "07"
  txCount := 1
  block := ⟨7, "07", 100, [⟨true, account, events.map fun e => ⟨.global e, none⟩⟩]⟩
  markets := markets
  unmapped := []

/-- A vault is created and the first order of a market is placed. -/
def firstOrder : PreparedBlock :=
  blockOf [.vaultCreated ⟨vault, "Alpha", account, "usd", "alpha"⟩]
    (AList.singleton market [.created ⟨"1", .buy, 10, account, market, .limit 500000, none⟩])

def listing : PreparedBlock := blockOf [.marketCreated ⟨market, "LP/USD", account⟩] ∅

set_option maxRecDepth 10000 in
theorem mirrors_firstOrder :
    IndexTables.Mirrors setting.sdk
      (((Index.empty setting.sdk).state.exported setting.sdk).applyIndexWriteSet
        (((Index.empty setting.sdk).ctx 0).processPreparedBlock setting {} firstOrder).ws)
      (((Index.empty setting.sdk).ctx 0).processPreparedBlock setting {} firstOrder).store :=
  Index.mirrors_applyIndexWriteSet lawful (Index.empty setting.sdk) 0 {} firstOrder
    ((Index.empty setting.sdk).state.exported setting.sdk) (by decide) ⟨rfl, rfl, rfl, rfl, rfl, rfl⟩
    (by decide)

end Sample

section Markets

variable (lawful : LawfulSdk env.sdk) (s : Index env.sdk) (calls : Nat) (opts : ProcessOpts)
  (prepared : PreparedBlock)

include lawful

/-- The write set of a block brings the `markets` table up to date exactly when
every spot market registered in the block has its row written after that. -/
theorem Index.markets_upToDate_iff (tables : IndexTables)
    (hmirror : tables.markets = (s.state.exported env.sdk).markets) :
    (tables.applyIndexWriteSet
        ((s.ctx calls).processPreparedBlock env opts prepared).ws).markets =
      (((s.ctx calls).processPreparedBlock env opts prepared).store.exported env.sdk).markets ↔
    Ctx.MarketRowsSaved env opts prepared (s.ctx calls) := by
  have hfull : ((s.ctx calls).processPreparedBlock env opts prepared).ws.fullReplace = false :=
    (Ctx.tracks_processPreparedBlock lawful (tracks_of_view (s.state.viewTables env.sdk)
      (c := s.ctx calls) s.wf rfl rfl rfl rfl rfl rfl) opts
      prepared).incremental
  obtain ⟨U, hlags, hiff⟩ := Ctx.lags_processPreparedBlock lawful opts prepared
    tables.markets (c := s.ctx calls) s.wf.registry
    (hmirror.trans (exported_markets s.wf.registry))
  rw [← hiff, ← hlags.eq_marketView_iff, exported_markets hlags.wf]
  unfold IndexTables.applyIndexWriteSet
  rw [hfull]
  rfl

end Markets

namespace Sample

theorem markets_upToDate_listing_iff :
    (((Index.empty setting.sdk).state.exported setting.sdk).applyIndexWriteSet
        (((Index.empty setting.sdk).ctx 0).processPreparedBlock setting {} listing).ws).markets =
      ((((Index.empty setting.sdk).ctx 0).processPreparedBlock setting {} listing).store.exported
        setting.sdk).markets ↔
    Ctx.MarketRowsSaved setting {} listing ((Index.empty setting.sdk).ctx 0) :=
  Index.markets_upToDate_iff lawful (Index.empty setting.sdk) 0 {} listing
    ((Index.empty setting.sdk).state.exported setting.sdk) rfl

/-- The market that `market_created` registers has no row after the block. -/
theorem markets_listing_stale :
    (((Index.empty setting.sdk).state.exported setting.sdk).applyIndexWriteSet
        (((Index.empty setting.sdk).ctx 0).processPreparedBlock setting {} listing).ws).markets ≠
      ((((Index.empty setting.sdk).ctx 0).processPreparedBlock setting {} listing).store.exported
        setting.sdk).markets := by
  intro h
  have hrow := congrFun h (marketUuid setting.sdk market).toString
  revert hrow
  decide +kernel

end Sample

end ClobIndexer
