import ClobIndexer.Indexer.ImportMarkets
/-!
# Export and import

The rows of a snapshot describe an index when each of its parts holds what the rows say.
An index whose parts fit together is described by its own export, an import leaves what
the rows describe, and two indexes that the same rows describe have the same contents.
-/

namespace ClobIndexer

open Lib

variable {sdk : Sdk} {parseUuid : String → Option Uuid}

/-! ## What a snapshot says of an index -/

/-- The same books, level by level, with their sequences and last trade prices. -/
structure Books.SameBooks (b b' : Books) : Prop where
  mem : ∀ key, key ∈ b.shards ↔ key ∈ b'.shards
  levels : ∀ key side price,
    ((b.shard key).levels side).lookup price = ((b'.shard key).levels side).lookup price
  sequence : ∀ key ∈ b.shards, (b.shard key).sequence = (b'.shard key).sequence
  lastTradePrice : ∀ key ∈ b.shards, (b.shard key).lastTradePrice = (b'.shard key).lastTradePrice

/-- The same contents, told by lookups; a user without orders may or may not have a set, and a
vault without holdings a portfolio. -/
structure IndexState.SameContents (s s' : IndexState) : Prop where
  books : s.books.SameBooks s'.books
  orders : ∀ id, s.orders.orders.lookup id = s'.orders.orders.lookup id
  ordersById : ∀ key, s.orders.ordersById.lookup key = s'.orders.ordersById.lookup key
  ordersByUser : ∀ user id, id ∈ s.orders.idsOf user ↔ id ∈ s'.orders.idsOf user
  lastTradePrice : ∀ spot, s.lastTradePrice.lookup spot = s'.lastTradePrice.lookup spot
  markets : ∀ id, s.registry.markets.lookup id = s'.registry.markets.lookup id
  slugToMarket : ∀ slug, s.registry.slugToMarket.lookup slug = s'.registry.slugToMarket.lookup slug
  spotToMarket : ∀ spot, s.registry.spotToMarket.lookup spot = s'.registry.spotToMarket.lookup spot
  vaults : ∀ id, s.vaults.vaults.lookup id = s'.vaults.vaults.lookup id
  vaultByAddress : ∀ address,
    s.vaults.vaultByAddress.lookup address = s'.vaults.vaultByAddress.lookup address
  vaultByAccount : ∀ account,
    s.vaults.vaultByAccount.lookup account = s'.vaults.vaultByAccount.lookup account
  vaultPortfolio : ∀ id market,
    (s.vaults.holdings id).lookup market = (s'.vaults.holdings id).lookup market

namespace Snapshot

structure Describes (sdk : Sdk) (rows : Snapshot) (s : IndexState) : Prop where
  markets : s.registry.HoldsMarkets {m | m ∈ rows.markets}
  orders : s.orders.HoldsRows sdk {row | row ∈ rows.orders}
  lastTrades : s.lastTradePrice.Holds fun spot price => (spot, price) ∈ rows.lastTrades
  books : s.books.HoldsRows {row | row ∈ rows.metas} {row | row ∈ rows.levels}
  vaults : s.vaults.HoldsVaults {v | v ∈ rows.vaults}
  holdings : s.vaults.HoldsHoldings {row | row ∈ rows.vaultPortfolio}

/-- No row stands in the way of another. -/
structure Importable (sdk : Sdk) (rows : Snapshot) : Prop where
  markets : Registry.ImportableMarkets sdk {m | m ∈ rows.markets}
  orders : OrderIndex.ImportableRows sdk {row | row ∈ rows.orders}
  lastTradeKeys : ∀ row ∈ rows.lastTrades, normalizeSpotMarketKey sdk row.1 = row.1
  lastTrades : ∀ row ∈ rows.lastTrades, ∀ other ∈ rows.lastTrades, row.1 = other.1 →
    row.2 = other.2
  metas : Books.ImportableMetas sdk {row | row ∈ rows.metas}
  levels : Books.ImportableLevels sdk {row | row ∈ rows.metas} {row | row ∈ rows.levels}
  vaults : VaultTx.ImportableVaults {v | v ∈ rows.vaults}
  holdings : VaultIndex.ImportableHoldings sdk {row | row ∈ rows.vaultPortfolio}

variable {a b rows : Snapshot} {s s' : IndexState}

private theorem setOf_mem_of_perm {α : Type} {l l' : List α} (h : l.Perm l') :
    {x | x ∈ l} = {x | x ∈ l'} := Set.ext fun _ => h.mem_iff

theorem Describes.perm (h : a.Describes sdk s) (hperm : a.Perm b) : b.Describes sdk s := by
  constructor
  · rw [← setOf_mem_of_perm hperm.markets]
    exact h.markets
  · rw [← setOf_mem_of_perm hperm.orders]
    exact h.orders
  · exact h.lastTrades.congr fun spot price => hperm.lastTrades.mem_iff
  · rw [← setOf_mem_of_perm hperm.metas, ← setOf_mem_of_perm hperm.levels]
    exact h.books
  · rw [← setOf_mem_of_perm hperm.vaults]
    exact h.vaults
  · rw [← setOf_mem_of_perm hperm.vaultPortfolio]
    exact h.holdings

theorem Importable.perm (h : a.Importable sdk) (hperm : a.Perm b) : b.Importable sdk := by
  constructor
  · rw [← setOf_mem_of_perm hperm.markets]
    exact h.markets
  · rw [← setOf_mem_of_perm hperm.orders]
    exact h.orders
  · exact fun row hrow => h.lastTradeKeys row (hperm.lastTrades.mem_iff.mpr hrow)
  · exact fun row hrow other hother => h.lastTrades row (hperm.lastTrades.mem_iff.mpr hrow) other
      (hperm.lastTrades.mem_iff.mpr hother)
  · rw [← setOf_mem_of_perm hperm.metas]
    exact h.metas
  · rw [← setOf_mem_of_perm hperm.metas, ← setOf_mem_of_perm hperm.levels]
    exact h.levels
  · rw [← setOf_mem_of_perm hperm.vaults]
    exact h.vaults
  · rw [← setOf_mem_of_perm hperm.vaultPortfolio]
    exact h.holdings

/-- The rows tell everything of the books. -/
theorem sameBooks_of_holdsRows {metas : Set PersistBookMeta} {levels : Set PersistBookLevel}
    {b b' : Books} (h : b.HoldsRows metas levels) (h' : b'.HoldsRows metas levels) :
    b.SameBooks b' := by
  constructor
  · exact fun key => (h.mem key).trans (h'.mem key).symm
  · exact fun key side price => (h.levels key side).lookup_eq (h'.levels key side) price
  · intro key hkey
    obtain ⟨row, hrow, rfl⟩ := (h.mem key).mp hkey
    rw [h.sequence row hrow, h'.sequence row hrow]
  · intro key hkey
    obtain ⟨row, hrow, rfl⟩ := (h.mem key).mp hkey
    rw [h.lastTradePrice row hrow, h'.lastTradePrice row hrow]

theorem Describes.sameContents (h : rows.Describes sdk s) (h' : rows.Describes sdk s') :
    s.SameContents s' where
  books := sameBooks_of_holdsRows h.books h'.books
  orders := h.orders.orders.lookup_eq h'.orders.orders
  ordersById := h.orders.byId.lookup_eq h'.orders.byId
  ordersByUser user id := (h.orders.byUser user id).trans (h'.orders.byUser user id).symm
  lastTradePrice := h.lastTrades.lookup_eq h'.lastTrades
  markets := h.markets.byId.lookup_eq h'.markets.byId
  slugToMarket := h.markets.slugs.lookup_eq h'.markets.slugs
  spotToMarket := h.markets.spots.lookup_eq h'.markets.spots
  vaults := h.vaults.byId.lookup_eq h'.vaults.byId
  vaultByAddress := h.vaults.byAddress.lookup_eq h'.vaults.byAddress
  vaultByAccount := h.vaults.byAccount.lookup_eq h'.vaults.byAccount
  vaultPortfolio id := (h.holdings id).lookup_eq (h'.holdings id)

/-- An import leaves what the rows describe. -/
theorem Importable.describes (h : rows.Importable sdk)
    (hparse : ∀ id : Uuid, parseUuid id.toString = some id) {c : Ctx} (hc : c.store = {}) :
    rows.Describes sdk (c.applySnapshotToMemory sdk parseUuid rows).store := by
  let marketed := c.onRegistry (RegistryTx.importMarkets sdk rows.markets)
  let ordered := marketed.onOrders (OrderTx.importOrders sdk marketed.store.tsMs rows.orders)
  let traded := ordered.importLastTrades sdk rows.lastTrades
  obtain ⟨lastTradePrice, htraded⟩ : ∃ lastTradePrice, traded.store =
      { ordered.store with lastTradePrice } := store_importLastTrades rows.lastTrades ordered
  have hregistry : (c.applySnapshotToMemory sdk parseUuid rows).store.registry =
      marketed.store.registry := by
    change traded.store.registry = _
    rw [htraded]
    rfl
  have horders : (c.applySnapshotToMemory sdk parseUuid rows).store.orders =
      ordered.store.orders := by
    change traded.store.orders = _
    rw [htraded]
  have hvaults : traded.store.vaults = c.store.vaults := by
    rw [htraded]
    rfl
  constructor
  · rw [hregistry]
    exact RegistryTx.holdsMarkets_importMarkets h.markets (congrArg IndexState.registry hc)
  · rw [horders]
    exact OrderTx.holdsRows_importOrders h.orders _ (congrArg IndexState.orders hc)
  · exact lastTradePrice_importLastTrades h.lastTradeKeys h.lastTrades
      (congrArg IndexState.lastTradePrice hc)
  · exact Books.holdsRows_importFromPersist h.metas h.levels traded.store.books
  · apply VaultIndex.holdsVaults_importVaultPortfolioForPersist
    exact VaultTx.holdsVaults_importVaults h.vaults
      (hvaults.trans (congrArg IndexState.vaults hc))
  · exact VaultIndex.holdsHoldings_importVaultPortfolioForPersist hparse h.holdings _

end Snapshot

/-! ## What an export says -/

def Books.LevelsRest (b : Books) : Prop :=
  ∀ key book side price size, b.shards.lookup key = some book →
    (book.levels side).lookup price = some size → size ≠ 0

/-- Every order is stored under the normalized key of its market. -/
def OrderIndex.Normalized (sdk : Sdk) (idx : OrderIndex) : Prop :=
  ∀ id stored, idx.orders.lookup id = some stored →
    normalizeSpotMarketKey sdk stored.spotMarket = stored.spotMarket

namespace VaultIndex

/-- The lookups lead to the vaults at the address and under the account, and every vault is
the one created at its address. -/
structure Exact (sdk : Sdk) (addresses : Set String) (idx : VaultIndex) : Prop where
  byAddress : idx.vaultByAddress.Holds fun address id =>
    ∃ vault, idx.vaults.lookup id = some vault ∧ addrKey vault.vaultAddress = address
  byAccount : idx.vaultByAccount.Holds fun account id =>
    ∃ vault, idx.vaults.lookup id = some vault ∧ addrKey vault.vaultAccount = account
  stems : ∀ id vault, idx.vaults.lookup id = some vault → vault.id = id ∧
    vault.vaultAddress ∈ addresses ∧ id = vaultUuid sdk vault.vaultAddress ∧
    vault.vaultAccount = sdk.vaultAccount vault.vaultAddress

def HoldingsRest (idx : VaultIndex) : Prop :=
  ∀ id market amount, (idx.holdings id).lookup market = some amount → amount ≠ 0

end VaultIndex

section Exports

variable {s : IndexState}

theorem mem_values_iff {K V W : Type} [DecidableEq K] (d : Dict K V) (f : V → W) (w : W) :
    w ∈ d.entries.map (fun e => f e.2) ↔ ∃ k v, d.lookup k = some v ∧ f v = w := by
  rw [List.mem_map]
  constructor
  · rintro ⟨⟨k, v⟩, he, rfl⟩
    exact ⟨k, v, Dict.mem_entries_iff.mp he, rfl⟩
  · rintro ⟨k, v, hv, rfl⟩
    exact ⟨⟨k, v⟩, Dict.mem_entries_iff.mpr hv, rfl⟩

theorem setOf_exportMarkets : {m | m ∈ s.exportMarketsForPersist} = s.registry.known :=
  Set.ext fun m => (mem_values_iff s.registry.markets (fun market => market) m).trans (by
    constructor
    · rintro ⟨id, market, hmarket, rfl⟩
      exact ⟨id, hmarket⟩
    · rintro ⟨id, hmarket⟩
      exact ⟨id, m, hmarket, rfl⟩)

theorem holdsRows_exportOrders (hindexed : s.orders.Indexed sdk) (hwf : s.orders.WellFormed) :
    s.orders.HoldsRows sdk {row | row ∈ s.exportOrdersForPersist} := by
  have hmem : ∀ row, row ∈ s.exportOrdersForPersist ↔
      ∃ id stored, s.orders.orders.lookup id = some stored ∧ storedToPersistRow stored = row :=
    mem_values_iff s.orders.orders storedToPersistRow
  have hentries : ∀ (p : StoredOrder → Prop) (id : Uuid),
      (∃ row ∈ s.exportOrdersForPersist, p row.stored ∧ row.order.id = id) ↔
        ∃ stored, s.orders.orders.lookup id = some stored ∧ p stored := by
    intro p id
    constructor
    · rintro ⟨row, hrow, hp, rfl⟩
      obtain ⟨id', stored, hstored, rfl⟩ := (hmem row).mp hrow
      have hid : stored.order.id = id' := hwf.order_id id' stored hstored
      exact ⟨stored, by rw [← hstored, ← hid]; rfl, hp⟩
    · rintro ⟨stored, hstored, hp⟩
      exact ⟨storedToPersistRow stored, (hmem _).mpr ⟨id, stored, hstored, rfl⟩, hp,
        hwf.order_id id stored hstored⟩
  constructor
  · intro id stored
    have hiff := hentries (fun stored' => stored' = stored) id
    simp only [exists_eq_right] at hiff
    rw [← hiff]
    exact exists_congr fun row => and_congr_right fun _ => and_comm
  · intro key id
    rw [hindexed.byId key id]
    exact (hentries (fun stored => stored.key sdk = key) id).symm
  · intro user id
    rw [hindexed.byUser user id]
    exact (hentries (fun stored => userKey stored.userAddress = user) id).symm

theorem importableRows_exportOrders (hindexed : s.orders.Indexed sdk)
    (hwf : s.orders.WellFormed) (hnormalized : s.orders.Normalized sdk) :
    OrderIndex.ImportableRows sdk {row | row ∈ s.exportOrdersForPersist} := by
  have holds := holdsRows_exportOrders hindexed hwf
  have hmem : ∀ row, row ∈ s.exportOrdersForPersist →
      s.orders.orders.lookup row.order.id = some row.stored :=
    fun row hrow => (holds.orders _ _).mpr ⟨row, hrow, rfl, rfl⟩
  constructor
  · intro row hrow
    have hhot := hindexed.hot row.order.id row.stored (hmem row hrow)
    exact (OrderIndex.isHot_iff row.order.status).mpr hhot
  · exact fun row hrow => hnormalized row.order.id row.stored (hmem row hrow)
  · intro row hrow other hother hid
    exact holds.orders.unique ⟨row, hrow, rfl, rfl⟩ ⟨other, hother, hid.symm, rfl⟩
  · intro row hrow other hother hkey
    exact holds.byId.unique ⟨row, hrow, rfl, rfl⟩ ⟨other, hother, hkey.symm, rfl⟩

theorem holds_exportLastTrades :
    s.lastTradePrice.Holds fun spot price => (spot, price) ∈ s.exportLastTradesForPersist := by
  intro spot price
  unfold IndexState.exportLastTradesForPersist
  dsimp only
  rw [List.mem_map, ← Dict.mem_entries_iff]
  constructor
  · exact fun he => ⟨⟨spot, price⟩, he, rfl⟩
  · rintro ⟨⟨spot', price'⟩, he, heq⟩
    cases heq
    exact he

theorem mem_exportMetas (row : PersistBookMeta) :
    row ∈ s.exportMetasForPersist ↔ ∃ book, s.books.shards.lookup row.spotMarket = some book ∧
      row.sequence = book.sequence ∧ row.lastTradePrice = book.lastTradePrice := by
  unfold IndexState.exportMetasForPersist
  rw [List.mem_map]
  constructor
  · rintro ⟨⟨spot, book⟩, he, rfl⟩
    exact ⟨book, Dict.mem_entries_iff.mp he, rfl, rfl⟩
  · obtain ⟨spot, sequence, lastTradePrice⟩ := row
    rintro ⟨book, hbook, hsequence, hprice⟩
    dsimp only at hsequence hprice
    exact ⟨⟨spot, book⟩, Dict.mem_entries_iff.mpr hbook, by rw [hsequence, hprice]⟩

theorem shard_of_lookup {b : Books} {key : String} {book : SpotBook}
    (h : b.shards.lookup key = some book) : b.shard key = book := by
  unfold Books.shard
  rw [h]
  rfl

theorem holdsRows_exportBooks :
    s.books.HoldsRows {row | row ∈ s.exportMetasForPersist} {row | row ∈ s.exportLevels} := by
  constructor
  · intro key
    rw [Dict.mem_iff_lookup]
    constructor
    · rintro ⟨book, hbook⟩
      exact ⟨⟨key, book.sequence, book.lastTradePrice⟩,
        (mem_exportMetas _).mpr ⟨book, hbook, rfl, rfl⟩, rfl⟩
    · rintro ⟨row, hrow, rfl⟩
      obtain ⟨book, hbook, -⟩ := (mem_exportMetas row).mp hrow
      exact ⟨book, hbook⟩
  · intro row hrow
    obtain ⟨book, hbook, hsequence, -⟩ := (mem_exportMetas row).mp hrow
    rw [shard_of_lookup hbook, hsequence]
  · intro row hrow
    obtain ⟨book, hbook, -, hprice⟩ := (mem_exportMetas row).mp hrow
    rw [shard_of_lookup hbook, hprice]
  · intro key side price size
    change _ ↔ _ ∈ s.exportLevels
    rw [mem_exportLevels]
    dsimp only
    cases hbook : s.books.shards.lookup key with
    | none =>
        have hlevels : (s.books.shard key).levels side = ∅ := by
          unfold Books.shard
          rw [hbook]
          cases side <;> rfl
        rw [hlevels]
        simp
    | some book =>
        rw [shard_of_lookup hbook]
        constructor
        · exact fun hsize => ⟨book, side, rfl, rfl, hsize⟩
        · rintro ⟨book', side', heq, hside, hsize⟩
          cases heq
          have hsame : side = side' := by
            revert hside
            cases side <;> cases side' <;> decide
          rw [hsame]
          exact hsize

theorem importableMetas_exportBooks (hwf : s.books.WellFormed sdk) :
    Books.ImportableMetas sdk {row | row ∈ s.exportMetasForPersist} := by
  constructor
  · intro row hrow
    obtain ⟨book, hbook, -⟩ := (mem_exportMetas row).mp hrow
    exact hwf.normalized _ _ hbook
  · intro row hrow other hother hspot
    obtain ⟨book, hbook, hsequence, hprice⟩ := (mem_exportMetas row).mp hrow
    obtain ⟨book', hbook', hsequence', hprice'⟩ := (mem_exportMetas other).mp hother
    rw [← hspot, hbook, Option.some.injEq] at hbook'
    subst hbook'
    cases row
    cases other
    dsimp only at hspot hsequence hprice hsequence' hprice'
    rw [hspot, hsequence, hprice, hsequence', hprice']

theorem importableLevels_exportBooks (hrest : s.books.LevelsRest) :
    Books.ImportableLevels sdk {row | row ∈ s.exportMetasForPersist}
      {row | row ∈ s.exportLevels} := by
  constructor
  · intro row hrow
    obtain ⟨book, side, hbook, -, hsize⟩ := (mem_exportLevels row).mp hrow
    exact hrest _ book side _ _ hbook hsize
  · intro row hrow
    obtain ⟨book, side, -, hside, -⟩ := (mem_exportLevels row).mp hrow
    exact ⟨side, hside⟩
  · intro row hrow
    obtain ⟨book, side, hbook, -⟩ := (mem_exportLevels row).mp hrow
    exact ⟨⟨row.spotMarket, book.sequence, book.lastTradePrice⟩,
      (mem_exportMetas _).mpr ⟨book, hbook, rfl, rfl⟩, rfl⟩
  · intro row hrow other hother hspot hside hprice
    obtain ⟨book, side, -, hrowSide, -⟩ := (mem_exportLevels row).mp hrow
    have holds := (holdsRows_exportBooks (s := s)).levels row.spotMarket side
    refine holds.unique (k := row.priceRaw) ?_ ?_
    · rw [← hrowSide]
      exact hrow
    · rw [← hrowSide, hspot, hside, hprice]
      exact hother

theorem holdsVaults_exportVaults {addresses : Set String} (h : s.vaults.Exact sdk addresses) :
    s.vaults.HoldsVaults {v | v ∈ s.exportVaultsForPersist} := by
  have hmem : ∀ v, v ∈ s.exportVaultsForPersist ↔ ∃ id, s.vaults.vaults.lookup id = some v := by
    intro v
    refine (mem_values_iff s.vaults.vaults (fun vault => vault) v).trans ?_
    exact exists_congr fun id => exists_eq_right
  have hentries : ∀ (p : Vault → Prop) (id : Uuid),
      (∃ vault, s.vaults.vaults.lookup id = some vault ∧ p vault) ↔
        ∃ vault ∈ s.exportVaultsForPersist, p vault ∧ vault.id = id := by
    intro p id
    constructor
    · rintro ⟨vault, hvault, hp⟩
      exact ⟨vault, (hmem vault).mpr ⟨id, hvault⟩, hp, (h.stems id vault hvault).1⟩
    · rintro ⟨vault, hvault, hp, rfl⟩
      obtain ⟨id, hid⟩ := (hmem vault).mp hvault
      exact ⟨vault, (h.stems id vault hid).1 ▸ hid, hp⟩
  refine ⟨?_, ?_, ?_⟩
  · intro id vault
    have hiff := hentries (fun v => v = vault) id
    simp only [exists_eq_right] at hiff
    rw [hiff]
    exact exists_congr fun v => and_congr_right fun _ => and_comm
  · exact h.byAddress.congr fun address id => hentries (fun v => addrKey v.vaultAddress = address) id
  · exact h.byAccount.congr fun account id => hentries (fun v => addrKey v.vaultAccount = account) id

theorem importableVaults_exportVaults {addresses : Set String} (h : s.vaults.Exact sdk addresses) :
    VaultTx.ImportableVaults {v | v ∈ s.exportVaultsForPersist} := by
  have holds := holdsVaults_exportVaults h
  constructor
  · intro v hv w hw hid
    exact holds.byId.unique ⟨v, hv, hid, rfl⟩ ⟨w, hw, rfl, rfl⟩
  · intro v hv w hw haddress
    exact holds.byAddress.unique ⟨v, hv, haddress, rfl⟩ ⟨w, hw, rfl, rfl⟩
  · intro v hv w hw haccount
    exact holds.byAccount.unique ⟨v, hv, haccount, rfl⟩ ⟨w, hw, rfl, rfl⟩

theorem holdsHoldings_exportVaultPortfolio (hrest : s.vaults.HoldingsRest) :
    s.vaults.HoldsHoldings {row | row ∈ s.exportVaultPortfolioForPersist} := by
  intro id market amount
  change _ ↔ _ ∈ s.exportVaultPortfolioForPersist
  rw [mem_exportVaultPortfolio]
  dsimp only
  constructor
  · intro hamount
    have hrests := hrest id market amount hamount
    unfold VaultIndex.holdings at hamount
    cases hid : s.vaults.vaultPortfolio.lookup id with
    | none =>
        rw [hid] at hamount
        cases hamount
    | some holdings =>
        rw [hid] at hamount
        exact ⟨id, holdings, hid, rfl, hamount, hrests⟩
  · rintro ⟨id', holdings, hid', hid, hamount, -⟩
    rw [Uuid.toString_injective hid]
    unfold VaultIndex.holdings
    rw [hid']
    exact hamount

theorem importableHoldings_exportVaultPortfolio (hwf : s.vaults.WellFormed sdk)
    (hrest : s.vaults.HoldingsRest) :
    VaultIndex.ImportableHoldings sdk {row | row ∈ s.exportVaultPortfolioForPersist} := by
  constructor
  · intro row hrow
    obtain ⟨id, holdings, -, hid, -⟩ := (mem_exportVaultPortfolio row).mp hrow
    exact ⟨id, hid⟩
  · intro row hrow
    obtain ⟨id, holdings, -, -, -, hne⟩ := (mem_exportVaultPortfolio row).mp hrow
    exact hne
  · intro row hrow
    obtain ⟨id, holdings, hid, -, hamount, -⟩ := (mem_exportVaultPortfolio row).mp hrow
    exact hwf.normalized id holdings _ _ hid hamount
  · intro row hrow other hother hvault hspot
    obtain ⟨id, holdings, -, hid, -⟩ := (mem_exportVaultPortfolio row).mp hrow
    refine (holdsHoldings_exportVaultPortfolio hrest id).unique (k := row.spotMarket) ?_ ?_
    · rw [← hid]
      exact hrow
    · rw [← hid, hvault, hspot]
      exact hother

end Exports

end ClobIndexer
