import ClobIndexer.Indexer.BookRows
import ClobIndexer.Indexer.BookShard
import ClobIndexer.Indexer.Completeness
import ClobIndexer.Indexer.OrderMarkets
import ClobIndexer.Indexer.Restore
import ClobIndexer.Indexer.VaultFills
/-!
# What block events build can be restored

Blocks build the index from nothing, event by event.  What is needed to export an index and
to import it again is kept by every event: the registry is sound and its slugs are exact, the
order indexes agree, no level and no holding of nothing is stored, and the vaults are found
by their addresses and accounts.
-/

namespace ClobIndexer

open Lib

variable {env : Env}

/-! ## Books -/

namespace Books

theorem LevelsRest.shard {b : Books} (h : b.LevelsRest) {key : String} {side : OrderSide}
    {price size : UInt64} (hsize : ((b.shard key).levels side).lookup price = some size) :
    size ≠ 0 := by
  cases hbook : b.shards.lookup key with
  | none =>
      have hlevels : (b.shard key).levels side = ∅ := by
        unfold Books.shard
        rw [hbook]
        cases side <;> rfl
      rw [hlevels] at hsize
      cases hsize
  | some book =>
      rw [shard_of_lookup hbook] at hsize
      exact h key book side price size hbook hsize

theorem LevelsRest.setShard {b : Books} (h : b.LevelsRest) (key : String) {book : SpotBook}
    (hbook : ∀ side price size, (book.levels side).lookup price = some size → size ≠ 0) :
    (b.setShard key book).LevelsRest := by
  intro key' book' side price size hlookup hsize
  change AList.lookup key' (b.shards.insert key book) = some book' at hlookup
  rw [Dict.lookup_insert_ite] at hlookup
  split_ifs at hlookup with hkey
  · cases hlookup
    exact hbook side price size hsize
  · exact h key' book' side price size hlookup hsize

end Books

def idleWatch : BookWatch Unit := ⟨fun _ _ _ => none, fun _ _ _ => none⟩

theorem traces_levelsRest (sdk : Sdk) :
    idleWatch.Traces sdk fun _ t t' => t.books.LevelsRest → t'.books.LevelsRest where
  refl _ h := h
  trans h h' hrest := h' (h hrest)
  load t spotMarket chainBook lastTradePrice h := by
    rw [BookTx.books_hydrateFromChain]
    refine h.setShard _ fun side price size hsize => ?_
    cases side with
    | buy => exact (BookTx.exists_level_of_loaded hsize).1
    | sell => exact (BookTx.exists_level_of_loaded hsize).1
  move t spotMarket move blockNum lastTradePrice h := by
    rw [BookTx.books_changeLevel]
    refine h.setShard _ fun side price size hsize => ?_
    have hlevels : ∀ (book : SpotBook) (sequence : UInt64) (last : Option UInt64),
        ({ book with sequence := sequence, lastTradePrice := last } : SpotBook).levels side =
          book.levels side := by
      intro book sequence last
      cases side <;> rfl
    unfold SpotBook.levelled at hsize
    dsimp only at hsize
    generalize (if move.isAdd = true then _ else _ : UInt64) = next at hsize
    rw [hlevels, SpotBook.lookup_levels_setSize] at hsize
    split_ifs at hsize with hat h0
    · cases hsize
      exact h0
    · exact h.shard hsize
  shard t key book tradeSeq hlevels h := by
    have hbook : ∀ side price size, (book.levels side).lookup price = some size → size ≠ 0 := by
      intro side price size hsize
      rw [hlevels] at hsize
      exact h.shard hsize
    exact h.setShard key hbook
  merge h := h

/-! ## Vaults -/

/-- No two vault addresses, no two vault accounts and no two vault ids are taken for each other. -/
structure VaultsDistinct (sdk : Sdk) (addresses : Set String) : Prop where
  address : Set.InjOn addrKey addresses
  account : Set.InjOn (fun vault => addrKey (sdk.vaultAccount vault)) addresses
  id : Set.InjOn (vaultUuid sdk) addresses

namespace VaultTx

open VaultIndex

variable {sdk : Sdk} {addresses : Set String} {t : VaultTx}

theorem exact_upsertVault (h : t.idx.Exact sdk addresses)
    (distinct : VaultsDistinct sdk addresses) {vault : Vault}
    (hid : vault.id = vaultUuid sdk vault.vaultAddress) (hmem : vault.vaultAddress ∈ addresses)
    (haccount : vault.vaultAccount = sdk.vaultAccount vault.vaultAddress) :
    (t.upsertVault vault).idx.Exact sdk addresses := by
  -- what is stored under the id is a vault at the same address
  have hold : ∀ v, t.idx.vaults.lookup vault.id = some v → v.vaultAddress = vault.vaultAddress := by
    intro v hv
    obtain ⟨-, hvmem, hvid, -⟩ := h.stems vault.id v hv
    exact distinct.id hvmem hmem (hvid.symm.trans hid)
  have hsame : ∀ v, t.idx.vaults.lookup vault.id = some v →
      v.vaultAccount = vault.vaultAccount := by
    intro v hv
    obtain ⟨-, -, -, hvaccount⟩ := h.stems vault.id v hv
    rw [hvaccount, haccount, hold v hv]
  refine ⟨?_, ?_, ?_⟩
  · refine h.byAddress.insertIndexed ?_ fun v hv => congrArg addrKey (hold v hv)
    intro id v hv hkey
    obtain ⟨-, hvmem, hvid, -⟩ := h.stems id v hv
    rw [hvid, hid, distinct.address hvmem hmem hkey]
  · refine h.byAccount.insertIndexed ?_ fun v hv => congrArg addrKey (hsame v hv)
    intro id v hv hkey
    obtain ⟨-, hvmem, hvid, hvaccount⟩ := h.stems id v hv
    rw [hvaccount, haccount] at hkey
    rw [hvid, hid, distinct.account hvmem hmem hkey]
  · intro id v hv
    change AList.lookup id (t.idx.vaults.insert vault.id vault) = some v at hv
    rw [Dict.lookup_insert_ite] at hv
    split_ifs at hv with heq
    · cases hv
      exact ⟨heq.symm, hmem, heq.trans hid, haccount⟩
    · exact h.stems id v hv

structure KeepsVault (f : Vault → Vault) : Prop where
  id : ∀ vault, (f vault).id = vault.id
  vaultAddress : ∀ vault, (f vault).vaultAddress = vault.vaultAddress
  vaultAccount : ∀ vault, (f vault).vaultAccount = vault.vaultAccount

theorem exact_modifyVault (h : t.idx.Exact sdk addresses) (vaultAddress : String)
    {f : Vault → Vault} (hf : KeepsVault f) :
    (t.modifyVault vaultAddress f).idx.Exact sdk addresses := by
  unfold modifyVault
  split
  · exact h
  · rename_i id _
    cases hvault : t.idx.vaults.lookup id with
    | none => exact h
    | some vault =>
        refine ⟨?_, ?_, ?_⟩
        · exact h.byAddress.replaceIndexed hvault (congrArg addrKey (hf.vaultAddress vault))
        · exact h.byAccount.replaceIndexed hvault (congrArg addrKey (hf.vaultAccount vault))
        · intro id' v hv
          change AList.lookup id' (t.idx.vaults.insert id (f vault)) = some v at hv
          rw [Dict.lookup_insert_ite] at hv
          split_ifs at hv with heq
          · cases hv
            rw [hf.id, hf.vaultAddress, hf.vaultAccount, heq]
            exact h.stems id vault hvault
          · exact h.stems id' v hv

theorem exact_applyVaultFillToPortfolio (h : t.idx.Exact sdk addresses)
    (userAddress spotMarket : String) (side : OrderSide) (fillAmount : UInt64) :
    (t.applyVaultFillToPortfolio sdk userAddress spotMarket side fillAmount).idx.Exact sdk
      addresses := by
  unfold applyVaultFillToPortfolio
  split_ifs
  · exact h
  · split
    · exact h
    · exact ⟨h.byAddress, h.byAccount, h.stems⟩

theorem holdingsRest_applyVaultFillToPortfolio (h : t.idx.HoldingsRest)
    (userAddress spotMarket : String) (side : OrderSide) (fillAmount : UInt64) :
    (t.applyVaultFillToPortfolio sdk userAddress spotMarket side fillAmount).idx.HoldingsRest := by
  unfold applyVaultFillToPortfolio
  split_ifs
  · exact h
  · split
    · exact h
    · intro id market amount hamount
      dsimp only at hamount
      rw [lookup_holdings_setHolding] at hamount
      split_ifs at hamount with hat h0
      · cases hamount
        exact h0
      · exact h id market amount hamount

end VaultTx

namespace Ctx

/-- What an event of a market does to the vaults: at most a fill reaches the holdings. -/
theorem vaults_applyMarketOrderEvent (c : Ctx) (opts : ProcessOpts) (blockNum : UInt64)
    (spotMarket : String) (e : MarketOrderEvent) :
    (c.applyMarketOrderEvent env opts blockNum spotMarket e).store.vaults = c.store.vaults ∨
      ∃ (t : VaultTx) (userAddress : String) (side : OrderSide) (fillAmount : UInt64),
        t.idx = c.store.vaults ∧
        (c.applyMarketOrderEvent env opts blockNum spotMarket e).store.vaults =
          (t.applyVaultFillToPortfolio env.sdk userAddress spotMarket side fillAmount).idx := by
  cases e with
  | created e => exact .inl (vaults_handleCreated opts blockNum spotMarket c e)
  | cancelled e => exact .inl (vaults_handleCancelled opts blockNum spotMarket c e)
  | updated e => exact .inl (vaults_handleUpdated opts blockNum spotMarket c e)
  | executed e => exact .inl (vaults_handleExecuted opts blockNum spotMarket c e)
  | filled e txSender =>
      have hfilled : (c.handleFilled env opts blockNum spotMarket e txSender).store.vaults =
          (c.applyFillToIndex env opts blockNum spotMarket e).store.vaults :=
        vaults_handleFilled opts blockNum spotMarket c e txSender
      obtain ⟨d, heq, -, hvaults, -⟩ := applyFillToIndex_eq env c opts blockNum spotMarket e
      have hfill : (d.applyVaultFill env spotMarket e).store.vaults = _ :=
        d.vaults_applyVaultFill spotMarket e
      change (c.handleFilled env opts blockNum spotMarket e txSender).store.vaults = _ ∨
        ∃ t userAddress side fillAmount, _ ∧
          (c.handleFilled env opts blockNum spotMarket e txSender).store.vaults = _
      rw [hfilled, heq, hfill, hvaults]
      cases d.store.orders.find env.sdk spotMarket e.orderId with
      | none => exact .inl rfl
      | some found => exact .inr ⟨⟨c.store.vaults, _, _⟩, _, _, _, rfl, rfl⟩

/-- What an event of the serial part does to the vaults: one is created or changed in place. -/
theorem vaults_applyGlobalEvent (c : Ctx) (e : GlobalEvent) :
    (c.applyGlobalEvent env e).store.vaults = c.store.vaults ∨
      (∃ (t : VaultTx) (created : VaultCreatedEvent), t.idx = c.store.vaults ∧
        e = .vaultCreated created ∧
        (c.applyGlobalEvent env e).store.vaults =
          (t.upsertVault (vaultOfCreated env created)).idx) ∨
      ∃ (t : VaultTx) (vaultAddress : String) (f : Vault → Vault), t.idx = c.store.vaults ∧
        VaultTx.KeepsVault f ∧
        (c.applyGlobalEvent env e).store.vaults = (t.modifyVault vaultAddress f).idx := by
  let t : VaultTx := ⟨c.store.vaults, c.ws.vaults, c.ws.vaultPortfolio⟩
  have ht : t.idx = c.store.vaults := rfl
  have hset : ∀ r, (c.setRegistry r).store.vaults = c.store.vaults := fun _ => rfl
  have hregistry : ∀ f, (c.onRegistry f).store.vaults = c.store.vaults := fun _ => rfl
  cases e with
  | eventContractCreated created =>
      left
      unfold applyGlobalEvent indexMarketCreated hydrateMarketSpots
      rw [(booksOnly_hydrateSpotFromChain env _ _).vaults,
        (booksOnly_hydrateSpotFromChain env _ _).vaults, hregistry]
  | eventContractResolved marketAddress => exact .inl (hregistry _)
  | vaultCreated created =>
      have hcreated : (c.applyGlobalEvent env (.vaultCreated created)).store.vaults =
          (t.upsertVault (vaultOfCreated env created)).idx := rfl
      exact .inr (.inl ⟨t, created, ht, rfl, hcreated⟩)
  | vaultDeposited vault equity =>
      have hchanged : (c.applyGlobalEvent env (.vaultDeposited vault equity)).store.vaults =
          (t.modifyVault vault fun v => { v with equity := formatTokenAmount equity }).idx := rfl
      have hkeeps : VaultTx.KeepsVault fun v => { v with equity := formatTokenAmount equity } :=
        ⟨fun _ => rfl, fun _ => rfl, fun _ => rfl⟩
      exact .inr (.inr ⟨t, vault, _, ht, hkeeps, hchanged⟩)
  | vaultWithdrawn vault equity =>
      have hchanged : (c.applyGlobalEvent env (.vaultWithdrawn vault equity)).store.vaults =
          (t.modifyVault vault fun v => { v with equity := formatTokenAmount equity }).idx := rfl
      have hkeeps : VaultTx.KeepsVault fun v => { v with equity := formatTokenAmount equity } :=
        ⟨fun _ => rfl, fun _ => rfl, fun _ => rfl⟩
      exact .inr (.inr ⟨t, vault, _, ht, hkeeps, hchanged⟩)
  | vaultManagerUpdated vault newManager =>
      have hchanged : (c.applyGlobalEvent env (.vaultManagerUpdated vault newManager)).store.vaults =
          (t.modifyVault vault fun v => { v with manager := newManager }).idx := rfl
      have hkeeps : VaultTx.KeepsVault fun v => { v with manager := newManager } :=
        ⟨fun _ => rfl, fun _ => rfl, fun _ => rfl⟩
      exact .inr (.inr ⟨t, vault, _, ht, hkeeps, hchanged⟩)
  | vaultDepositPermissionUpdated vault allowDeposit =>
      have hchanged : (c.applyGlobalEvent env (.vaultDepositPermissionUpdated vault allowDeposit)).store.vaults =
          (t.modifyVault vault fun v => { v with allowDeposit := allowDeposit }).idx := rfl
      have hkeeps : VaultTx.KeepsVault fun v => { v with allowDeposit := allowDeposit } :=
        ⟨fun _ => rfl, fun _ => rfl, fun _ => rfl⟩
      exact .inr (.inr ⟨t, vault, _, ht, hkeeps, hchanged⟩)
  | vaultClosed vault =>
      have hchanged : (c.applyGlobalEvent env (.vaultClosed vault)).store.vaults =
          (t.modifyVault vault fun v => { v with isClosed := true, allowDeposit := false }).idx := rfl
      have hkeeps : VaultTx.KeepsVault fun v => { v with isClosed := true, allowDeposit := false } :=
        ⟨fun _ => rfl, fun _ => rfl, fun _ => rfl⟩
      exact .inr (.inr ⟨t, vault, _, ht, hkeeps, hchanged⟩)
  | marketCreated created =>
      left
      unfold applyGlobalEvent indexSpotMarketCreated
      rw [(booksOnly_ensureChainHydrated env _ _).vaults, hset]
  | secondary e => exact .inl rfl

end Ctx

/-! ## Steps -/

/-- What a block does to the index, step by step: it begins, and then its events come, those
without a market among them. -/
inductive BlockStep where
  | start (block : ReceiptBlock)
  | event (e : ChainEvent)
  | unmapped (opts : ProcessOpts) (e : UnmappedOrderEvent)

namespace BlockStep

def apply (env : Env) (c : Ctx) : BlockStep → Ctx
  | start block => c.beginBlock block
  | event e => e.apply env c
  | unmapped opts e => c.applyUnmapped env opts e

def chainEvent : BlockStep → Option ChainEvent
  | event e => some e
  | start _ => none
  | unmapped _ _ => none

end BlockStep

namespace ChainEvent

def orderIdsIn (sdk : Sdk) (events : List ChainEvent) : Set String :=
  {key | ∃ opts blockNum spotMarket e, order opts blockNum spotMarket e ∈ events ∧
    key = onchainOrderId sdk spotMarket e.chainOrderId}

def vaultsIn (events : List ChainEvent) : Set String :=
  {vault | ∃ created, global (.vaultCreated created) ∈ events ∧ created.vault = vault}

/-- What is taken for granted of the names in the events. -/
structure Distinct (sdk : Sdk) (events : List ChainEvent) : Prop where
  separate : EventContractCreatedEvent.Separate sdk (addressesIn sdk events) (contractsIn events)
  orderIds : Set.InjOn sdk.uuidV5 (orderIdsIn sdk events)
  vaults : VaultsDistinct sdk (vaultsIn events)

end ChainEvent

namespace Ctx

/-- What every event keeps, and an export needs. -/
structure Restorable (sdk : Sdk) (events : List ChainEvent) (c : Ctx) : Prop where
  registry : c.store.registry.Sound sdk (ChainEvent.addressesIn sdk events)
    (ChainEvent.contractsIn events)
  slugs : c.store.registry.Slugged
  indexed : c.store.orders.Indexed sdk
  named : OrderIndex.Named sdk (ChainEvent.orderIdsIn sdk events) c.store.orders
  normalized : c.store.orders.Normalized sdk
  levels : c.store.books.LevelsRest
  vaults : c.store.vaults.Exact sdk (ChainEvent.vaultsIn events)
  holdings : c.store.vaults.HoldingsRest
  /-- the pending writes are in step, so that everything sits under its own key -/
  tracks : ∃ tables, c.Tracks sdk tables

variable {events : List ChainEvent} {c : Ctx}

theorem slugged_apply (h : c.store.registry.Slugged) (e : ChainEvent) :
    (e.apply env c).store.registry.Slugged := by
  have hmove := c.registryMove_apply env e
  generalize (e.apply env c).store.registry = r at hmove ⊢
  cases hmove with
  | stays => exact h
  | resolves opts blockNum spotMarket e => exact h.resolveSpotMarket spotMarket
  | registers created => exact h.registerNamedSpotMarket _ _ _
  | upserts created =>
      exact Registry.Slugged.upsertEvent (t := c.regTx) h
        (allocateUniqueSlug_ne_empty _ created.question) (allocateUniqueSlug_notMem _ _)
  | settles marketAddress => exact Registry.Slugged.updateMarketState (t := c.regTx) h _ _

theorem orders_apply (lawful : LawfulSdk env.sdk)
    (hinj : Set.InjOn env.sdk.uuidV5 (ChainEvent.orderIdsIn env.sdk events))
    (h : c.Restorable env.sdk events) {e : ChainEvent} (he : e ∈ events) :
    (e.apply env c).store.orders.Indexed env.sdk ∧
      OrderIndex.Named env.sdk (ChainEvent.orderIdsIn env.sdk events) (e.apply env c).store.orders ∧
      (e.apply env c).store.orders.Normalized env.sdk := by
  cases e with
  | order opts blockNum spotMarket e =>
      have hname : ∀ o, e = .created o → onchainOrderId env.sdk spotMarket o.orderId ∈
          ChainEvent.orderIdsIn env.sdk events := by
        rintro o rfl
        exact ⟨opts, blockNum, spotMarket, _, he, rfl⟩
      obtain ⟨hindexed, hnamed⟩ := indexed_applyMarketOrderEvent lawful h.indexed h.named hinj opts
        blockNum spotMarket e hname
      refine ⟨hindexed, hnamed, ?_⟩
      intro id stored hstored
      rcases c.placed_applyMarketOrderEvent opts blockNum spotMarket e hstored with
        ⟨old, hold, hspot, -⟩ | ⟨-, -, hspot, -⟩
      · rw [hspot]
        exact h.normalized id old hold
      · rw [hspot]
        exact normalize_normalize lawful spotMarket
  | global e =>
      have hsame : (ChainEvent.apply env c (.global e)).store.orders = c.store.orders :=
        c.orders_applyGlobalEvent e
      rw [hsame]
      exact ⟨h.indexed, h.named, h.normalized⟩

theorem vaults_apply (distinct : VaultsDistinct env.sdk (ChainEvent.vaultsIn events))
    (h : c.Restorable env.sdk events) {e : ChainEvent} (he : e ∈ events) :
    (e.apply env c).store.vaults.Exact env.sdk (ChainEvent.vaultsIn events) ∧
      (e.apply env c).store.vaults.HoldingsRest := by
  cases e with
  | order opts blockNum spotMarket e =>
      change (c.applyMarketOrderEvent env opts blockNum spotMarket e).store.vaults.Exact _ _ ∧
        (c.applyMarketOrderEvent env opts blockNum spotMarket e).store.vaults.HoldingsRest
      rcases c.vaults_applyMarketOrderEvent opts blockNum spotMarket e with
        heq | ⟨t, userAddress, side, fillAmount, ht, heq⟩
      · rw [heq]
        exact ⟨h.vaults, h.holdings⟩
      · rw [heq]
        exact ⟨VaultTx.exact_applyVaultFillToPortfolio (ht ▸ h.vaults) userAddress spotMarket side
            fillAmount,
          VaultTx.holdingsRest_applyVaultFillToPortfolio (ht ▸ h.holdings) userAddress spotMarket
            side fillAmount⟩
  | global e =>
      change (c.applyGlobalEvent env e).store.vaults.Exact _ _ ∧
        (c.applyGlobalEvent env e).store.vaults.HoldingsRest
      have hrest : (c.applyGlobalEvent env e).store.vaults.HoldingsRest := by
        intro id market amount hamount
        rw [(keepsHoldings_applyGlobalEvent env c e).holdings] at hamount
        exact h.holdings id market amount hamount
      refine ⟨?_, hrest⟩
      rcases c.vaults_applyGlobalEvent e with
        heq | ⟨t, created, ht, rfl, heq⟩ | ⟨t, vaultAddress, f, ht, hf, heq⟩
      · rw [heq]
        exact h.vaults
      · rw [heq]
        exact VaultTx.exact_upsertVault (ht ▸ h.vaults) distinct rfl ⟨created, he, rfl⟩ rfl
      · rw [heq]
        exact VaultTx.exact_modifyVault (ht ▸ h.vaults) vaultAddress hf

theorem restorable_event (lawful : LawfulSdk env.sdk) (distinct : ChainEvent.Distinct env.sdk events)
    (h : c.Restorable env.sdk events) {e : ChainEvent} (he : e ∈ events) :
    (e.apply env c).Restorable env.sdk events := by
  have hregistry : (e.apply env c).store.registry.Sound env.sdk
      (ChainEvent.addressesIn env.sdk events) (ChainEvent.contractsIn events) := by
    apply sound_apply lawful distinct.separate h.registry
    · exact fun spot hspot => ⟨e, he, hspot⟩
    · rintro created rfl
      exact he
  have hslugs : (e.apply env c).store.registry.Slugged := slugged_apply h.slugs e
  obtain ⟨hindexed, hnamed, hnormalized⟩ := orders_apply lawful distinct.orderIds h he
  obtain ⟨hvaults, hholdings⟩ := vaults_apply distinct.vaults h he
  obtain ⟨tables, htracks⟩ := h.tracks
  have hlevels := traces_levelsRest env.sdk
  cases e with
  | order opts blockNum spotMarket e =>
      exact ⟨hregistry, hslugs, hindexed, hnamed, hnormalized,
        hlevels.event opts blockNum spotMarket c e h.levels, hvaults, hholdings, tables,
        tracks_applyMarketOrderEvent lawful htracks opts blockNum spotMarket e⟩
  | global e =>
      exact ⟨hregistry, hslugs, hindexed, hnamed, hnormalized, hlevels.global c e h.levels,
        hvaults, hholdings, tables, tracks_applyGlobalEvent lawful htracks e⟩

theorem restorable_unmapped (lawful : LawfulSdk env.sdk) (h : c.Restorable env.sdk events)
    (opts : ProcessOpts) (e : UnmappedOrderEvent) :
    (c.applyUnmapped env opts e).Restorable env.sdk events := by
  have hrows := sameRows_unmapped env opts [e] c
  have hregistry : (c.applyUnmapped env opts e).store.registry = c.store.registry :=
    congrArg RegistryTx.reg (regTx_unmapped env opts [e] c)
  obtain ⟨tables, htracks⟩ := h.tracks
  have horders : (c.applyUnmapped env opts e).store.orders = c.store.orders := hrows.orders
  have hvaults : (c.applyUnmapped env opts e).store.vaults = c.store.vaults := hrows.vaults
  constructor
  · exact hregistry ▸ h.registry
  · exact hregistry ▸ h.slugs
  · exact horders ▸ h.indexed
  · exact horders ▸ h.named
  · exact horders ▸ h.normalized
  · exact (traces_levelsRest env.sdk).unmapped opts c e h.levels
  · exact hvaults ▸ h.vaults
  · exact hvaults ▸ h.holdings
  · exact ⟨tables, tracks_applyUnmapped lawful htracks opts e⟩

theorem restorable_start (h : c.Restorable env.sdk events) (block : ReceiptBlock) :
    (c.beginBlock block).Restorable env.sdk events := by
  obtain ⟨tables, htracks⟩ := h.tracks
  have hrestart := tracks_restart htracks
  exact ⟨h.registry, h.slugs, h.indexed, h.named, h.normalized, h.levels, h.vaults, h.holdings,
    _, hrestart.orders, hrestart.books, hrestart.vaults, hrestart.lastTrades,
    hrestart.lastTradeKeys, hrestart.incremental⟩

theorem restorable_empty (sdk : Sdk) (events : List ChainEvent) :
    Restorable sdk events { store := {} } where
  registry := Registry.sound_empty
  slugs := Registry.slugged_empty
  indexed := OrderIndex.indexed_empty
  named := OrderIndex.named_empty
  normalized := fun _ _ h => nomatch h
  levels := fun _ _ _ _ _ h => nomatch h
  vaults := ⟨Dict.holds_empty.congr fun _ _ => by simp, Dict.holds_empty.congr fun _ _ => by simp,
    fun _ _ h => nomatch h⟩
  holdings := fun _ _ _ h => nomatch h
  tracks := ⟨IndexState.viewTables sdk {}, tracks_of_view (c := { store := {} }) _
    (IndexState.wellFormed_empty sdk) rfl rfl rfl rfl rfl rfl⟩

theorem restorable_run (lawful : LawfulSdk env.sdk) (distinct : ChainEvent.Distinct env.sdk events)
    (h : c.Restorable env.sdk events) (steps : List BlockStep)
    (hsteps : ∀ step ∈ steps, ∀ e, step = .event e → e ∈ events) :
    (steps.foldl (BlockStep.apply env) c).Restorable env.sdk events := by
  refine List.foldlRecOn (motive := fun c : Ctx => c.Restorable env.sdk events) steps _ h ?_
  intro c hc step hstep
  cases step with
  | start block => exact restorable_start hc block
  | event e => exact restorable_event lawful distinct hc (hsteps _ hstep e rfl)
  | unmapped opts e => exact restorable_unmapped lawful hc opts e

/-! ## Export and import -/

theorem normalize_of_mem_addressesIn (lawful : LawfulSdk env.sdk) {spot : String}
    (h : spot ∈ ChainEvent.addressesIn env.sdk events) :
    normalizeSpotMarketKey env.sdk spot = spot := by
  obtain ⟨e, -, hspot⟩ := h
  cases e with
  | order opts blockNum spotMarket e =>
      cases hspot
      exact normalize_normalize lawful spotMarket
  | global e =>
      cases e with
      | marketCreated created =>
          cases hspot
          exact normalize_normalize lawful created.marketAddress
      | eventContractCreated created =>
          rcases hspot with hyes | hno
          · rw [hyes]
            exact normalize_normalize lawful created.yesSpotMarket
          · rw [hno]
            exact normalize_normalize lawful created.noSpotMarket
      | _ => exact hspot.elim

theorem Restorable.describes (h : c.Restorable env.sdk events) :
    c.store.snapshot.Describes env.sdk c.store := by
  obtain ⟨tables, htracks⟩ := h.tracks
  constructor
  · change c.store.registry.HoldsMarkets {m | m ∈ c.store.exportMarketsForPersist}
    rw [setOf_exportMarkets]
    exact h.registry.holdsMarkets h.slugs
  · exact holdsRows_exportOrders h.indexed htracks.orders.wf
  · exact holds_exportLastTrades
  · exact holdsRows_exportBooks
  · exact holdsVaults_exportVaults h.vaults
  · exact holdsHoldings_exportVaultPortfolio h.holdings

theorem Restorable.importable (h : c.Restorable env.sdk events) (lawful : LawfulSdk env.sdk)
    (distinct : ChainEvent.Distinct env.sdk events) :
    c.store.snapshot.Importable env.sdk := by
  obtain ⟨tables, htracks⟩ := h.tracks
  constructor
  · change Registry.ImportableMarkets env.sdk {m | m ∈ c.store.exportMarketsForPersist}
    rw [setOf_exportMarkets]
    refine h.registry.importableMarkets h.slugs distinct.separate
      (fun spot hspot => normalize_of_mem_addressesIn lawful hspot) ?_
    exact fun created hcreated => ⟨⟨_, hcreated, .inl rfl⟩, _, hcreated, .inr rfl⟩
  · exact importableRows_exportOrders h.indexed htracks.orders.wf h.normalized
  · exact fun row hrow => htracks.lastTradeKeys row.1 row.2 ((holds_exportLastTrades _ _).mpr hrow)
  · intro row hrow other hother hspot
    refine holds_exportLastTrades.unique (k := row.1) hrow ?_
    rw [hspot]
    exact hother
  · exact importableMetas_exportBooks htracks.books.wf
  · exact importableLevels_exportBooks h.levels
  · exact importableVaults_exportVaults h.vaults
  · exact importableHoldings_exportVaultPortfolio htracks.vaults.wf h.holdings

/-- The rows that an index exports after any run of blocks, in any order, rebuild it. -/
theorem sameContents_applySnapshotToMemory (lawful : LawfulSdk env.sdk)
    {parseUuid : String → Option Uuid} (hparse : ∀ id : Uuid, parseUuid id.toString = some id)
    (steps : List BlockStep)
    (distinct : ChainEvent.Distinct env.sdk (steps.filterMap BlockStep.chainEvent))
    {rows : Snapshot}
    (hrows : (steps.foldl (BlockStep.apply env) { store := {} }).store.snapshot.Perm rows) :
    (applySnapshotToMemory env.sdk parseUuid rows { store := {} }).store.SameContents
      (steps.foldl (BlockStep.apply env) { store := {} }).store := by
  have hrun : (steps.foldl (BlockStep.apply env) { store := {} }).Restorable env.sdk
      (steps.filterMap BlockStep.chainEvent) := by
    refine restorable_run lawful distinct (restorable_empty _ _) steps ?_
    rintro step hstep e rfl
    exact List.mem_filterMap.mpr ⟨_, hstep, rfl⟩
  have himportable := (hrun.importable lawful distinct).perm hrows
  have hdescribes := hrun.describes.perm hrows
  exact (himportable.describes hparse rfl).sameContents hdescribes

end Ctx

structure LegsDisjoint (sdk : Sdk) (contracts : Set EventContractCreatedEvent) : Prop where
  yes_ne_no : ∀ created ∈ contracts, created.yesLeg sdk ≠ created.noLeg sdk
  disjoint : ∀ created ∈ contracts, ∀ other ∈ contracts, created ≠ other →
    Disjoint ({created.yesLeg sdk, created.noLeg sdk} : Set String)
      {other.yesLeg sdk, other.noLeg sdk}

namespace Sample

/-- `Uuid::parse_str` of the hyphenated form. -/
def parseHyphenated (text : String) : Option Uuid := do
  let bytes ← parseHexBytes (text.toList.filter (· != '-'))
  if h : bytes.length = 16 then some ⟨bytes, h⟩ else none

theorem parseHyphenated_toString (id : Uuid) : parseHyphenated id.toString = some id := by
  unfold parseHyphenated
  rw [Uuid.filter_toString, parseHexBytes_hexDigits]
  exact dif_pos id.size_eq

/-! An event contract at the address of a listed market, and one that is created again with
other legs. -/

def listedAtContract : List BlockStep :=
  [.event (.global (.marketCreated ⟨eventContract, "LP/USD", account⟩)),
    .event (.global (.eventContractCreated rain))]

def rainMoved : EventContractCreatedEvent :=
  { rain with yesSpotMarket := vault, noSpotMarket := account }

def createdAgain : List BlockStep :=
  [.event (.global (.eventContractCreated rain)),
    .event (.global (.eventContractCreated rainMoved))]

def built (env : Env) (steps : List BlockStep) : IndexState :=
  (steps.foldl (BlockStep.apply env) { store := {} }).store

/-- Rewritten with, a run is not evaluated where only its definition matters. -/
theorem built_eq (env : Env) (steps : List BlockStep) :
    built env steps = (steps.foldl (BlockStep.apply env) { store := {} }).store := rfl

def rebuilt (env : Env) (steps : List BlockStep) : IndexState :=
  (Ctx.applySnapshotToMemory env.sdk parseHyphenated (built env steps).snapshot
    { store := {} }).store

theorem legsDisjoint_listedAtContract : LegsDisjoint setting.sdk
    (ChainEvent.contractsIn (listedAtContract.filterMap BlockStep.chainEvent)) := by
  have honly : ∀ created ∈ ChainEvent.contractsIn (listedAtContract.filterMap
      BlockStep.chainEvent), created = rain := by
    intro created hcreated
    simpa [ChainEvent.contractsIn, listedAtContract, BlockStep.chainEvent] using hcreated
  constructor
  · intro created hcreated
    rw [honly created hcreated]
    decide +kernel
  · intro created hcreated other hother hne
    rw [honly created hcreated, honly other hother] at hne
    exact absurd rfl hne

theorem legsDisjoint_createdAgain : LegsDisjoint widerSetting.sdk
    (ChainEvent.contractsIn (createdAgain.filterMap BlockStep.chainEvent)) := by
  have honly : ∀ created ∈ ChainEvent.contractsIn (createdAgain.filterMap BlockStep.chainEvent),
      created = rain ∨ created = rainMoved := by
    intro created hcreated
    simpa [ChainEvent.contractsIn, createdAgain, BlockStep.chainEvent] using hcreated
  have hapart : Disjoint
      ({rain.yesLeg widerSetting.sdk, rain.noLeg widerSetting.sdk} : Set String)
      {rainMoved.yesLeg widerSetting.sdk, rainMoved.noLeg widerSetting.sdk} := by
    have hlegs : ∀ a ∈ [rain.yesLeg widerSetting.sdk, rain.noLeg widerSetting.sdk],
        a ∉ [rainMoved.yesLeg widerSetting.sdk, rainMoved.noLeg widerSetting.sdk] := by
      decide +kernel
    rw [Set.disjoint_left]
    intro a ha hmoved
    exact hlegs a (by simpa using ha) (by simpa using hmoved)
  constructor
  · intro created hcreated
    rcases honly created hcreated with rfl | rfl
    · decide +kernel
    · decide +kernel
  · intro created hcreated other hother hne
    rcases honly created hcreated with rfl | rfl <;> rcases honly other hother with rfl | rfl
    · exact absurd rfl hne
    · exact hapart
    · exact hapart.symm
    · exact absurd rfl hne

/-- The address that an event contract leaves behind is bound in the index that was exported,
and in none that is loaded. -/
theorem addresses_forgotten :
    (LegsDisjoint setting.sdk
        (ChainEvent.contractsIn (listedAtContract.filterMap BlockStep.chainEvent)) ∧
      ChainEvent.vaultsIn (listedAtContract.filterMap BlockStep.chainEvent) = ∅ ∧
      ¬(rebuilt setting listedAtContract).SameContents (built setting listedAtContract)) ∧
    LegsDisjoint widerSetting.sdk
        (ChainEvent.contractsIn (createdAgain.filterMap BlockStep.chainEvent)) ∧
      ChainEvent.vaultsIn (createdAgain.filterMap BlockStep.chainEvent) = ∅ ∧
      ¬(rebuilt widerSetting createdAgain).SameContents (built widerSetting createdAgain) := by
  have hlisted : (rebuilt setting listedAtContract).registry.spotToMarket.lookup eventContract ≠
      (built setting listedAtContract).registry.spotToMarket.lookup eventContract := by
    decide +kernel
  have hagain : (rebuilt widerSetting createdAgain).registry.spotToMarket.lookup market ≠
      (built widerSetting createdAgain).registry.spotToMarket.lookup market := by
    decide +kernel
  refine ⟨⟨legsDisjoint_listedAtContract, ?_, fun h => hlisted (h.spotToMarket eventContract)⟩,
    legsDisjoint_createdAgain, ?_, fun h => hagain (h.spotToMarket market)⟩
  · simp [ChainEvent.vaultsIn, listedAtContract, BlockStep.chainEvent]
  · simp [ChainEvent.vaultsIn, createdAgain, BlockStep.chainEvent]

/-! A run with a vault and an order that is filled in part, loaded back to front. -/

def takenAndVault : List ChainEvent :=
  bothTaken ++ [.global (.vaultCreated ⟨vault, "Vault", account, "usd", "share"⟩)]

def marketsAndVault : List BlockStep :=
  .start ⟨7, "digest", 1000, []⟩ :: takenAndVault.map .event ++ [.unmapped {} (.cancelled "9")]

theorem chainEvents_marketsAndVault :
    marketsAndVault.filterMap BlockStep.chainEvent = takenAndVault := rfl

theorem distinct_marketsAndVault : ChainEvent.Distinct setting.sdk
    (marketsAndVault.filterMap BlockStep.chainEvent) := by
  rw [chainEvents_marketsAndVault]
  have haddresses : ChainEvent.addressesIn setting.sdk takenAndVault =
      ChainEvent.addressesIn setting.sdk bothTaken := by
    ext spot
    simp [ChainEvent.addressesIn, takenAndVault, bothTaken, ChainEvent.spots]
  have hcontracts : ChainEvent.contractsIn takenAndVault = ChainEvent.contractsIn bothTaken := by
    ext created
    simp [ChainEvent.contractsIn, takenAndVault, bothTaken]
  have hvaults : (ChainEvent.vaultsIn takenAndVault).Subsingleton := by
    rintro v ⟨created, hcreated, rfl⟩ w ⟨created', hcreated', rfl⟩
    simp only [takenAndVault, bothTaken, List.cons_append, List.nil_append, List.mem_cons,
      ChainEvent.global.injEq, GlobalEvent.vaultCreated.injEq, reduceCtorEq, List.not_mem_nil,
      or_false, false_or] at hcreated hcreated'
    rw [hcreated, hcreated']
  constructor
  · rw [haddresses, hcontracts]
    exact separate_bothTaken
  · apply Set.Subsingleton.injOn
    rintro a ⟨opts, blockNum, spotMarket, e, he, rfl⟩ b ⟨opts', blockNum', spotMarket', e', he', rfl⟩
    simp only [takenAndVault, bothTaken, List.cons_append, List.nil_append, List.mem_cons,
      reduceCtorEq, ChainEvent.order.injEq, List.not_mem_nil, or_false, false_or] at he he'
    obtain ⟨-, -, rfl, rfl⟩ := he
    obtain ⟨-, -, rfl, rfl⟩ := he'
    rfl
  · exact ⟨hvaults.injOn _, hvaults.injOn _, hvaults.injOn _⟩

theorem perm_backToFront (rows : Snapshot) :
    rows.Perm { rows with markets := rows.markets.reverse, levels := rows.levels.reverse } :=
  ⟨rows.markets.reverse_perm.symm, .refl _, .refl _, rows.levels.reverse_perm.symm, .refl _,
    .refl _, .refl _⟩

theorem sameContents_marketsAndVault :
    let rows : Snapshot := (built setting marketsAndVault).snapshot
    let reversed : Snapshot :=
      { rows with markets := rows.markets.reverse, levels := rows.levels.reverse }
    (Ctx.applySnapshotToMemory setting.sdk parseHyphenated reversed { store := {} }).store.SameContents
      (built setting marketsAndVault) := by
  intro rows reversed
  have hrows : rows.Perm reversed := perm_backToFront rows
  dsimp only [rows, reversed] at hrows ⊢
  rw [built_eq] at hrows ⊢
  exact Ctx.sameContents_applySnapshotToMemory lawful parseHyphenated_toString marketsAndVault
    distinct_marketsAndVault hrows

end Sample

end ClobIndexer
