import ClobIndexer.Indexer.Export
import ClobIndexer.Indexer.LevelMoves
import ClobIndexer.Indexer.OrderIndexes
import ClobIndexer.Lib.Load
/-!
# Loading a snapshot

`apply_snapshot_to_memory` of `src/persist/shared.rs`: the rows of a snapshot go back into
the index through the operations that the live index uses, market by market and order by
order, in the order in which the tables hand them out.  For each part of the index, what
the rows read so far leave in it is told from the set of them.
-/

namespace ClobIndexer

open Lib

structure PersistBookMeta where
  spotMarket : String
  sequence : UInt64
  lastTradePrice : Option UInt64
deriving DecidableEq

/-- The rows of the tables, each list in any order. -/
structure Snapshot where
  markets : List Market
  orders : List PersistOrderRow
  lastTrades : List (String × UInt64)
  levels : List PersistBookLevel
  metas : List PersistBookMeta
  vaults : List Vault
  vaultPortfolio : List PersistVaultPortfolioRow

namespace Snapshot

structure Perm (a b : Snapshot) : Prop where
  markets : a.markets.Perm b.markets
  orders : a.orders.Perm b.orders
  lastTrades : a.lastTrades.Perm b.lastTrades
  levels : a.levels.Perm b.levels
  metas : a.metas.Perm b.metas
  vaults : a.vaults.Perm b.vaults
  vaultPortfolio : a.vaultPortfolio.Perm b.vaultPortfolio

end Snapshot

namespace IndexState

def exportMetasForPersist (s : IndexState) : List PersistBookMeta :=
  s.books.shards.entries.map fun e => ⟨e.1, e.2.sequence, e.2.lastTradePrice⟩

def snapshot (s : IndexState) : Snapshot where
  markets := s.exportMarketsForPersist
  orders := s.exportOrdersForPersist
  lastTrades := s.exportLastTradesForPersist
  levels := s.exportLevels
  metas := s.exportMetasForPersist
  vaults := s.exportVaultsForPersist
  vaultPortfolio := s.exportVaultPortfolioForPersist

end IndexState

variable (sdk : Sdk) (parseUuid : String → Option Uuid)

/-! ## Imports -/

namespace Books

def importMeta (b : Books) (row : PersistBookMeta) : Books :=
  let key := normalizeSpotMarketKey sdk row.spotMarket
  b.setShard key
    { b.shard key with
      sequence := row.sequence
      lastTradePrice := row.lastTradePrice
      chainHydrated := true }

/-- Take over one level; a row that is neither a buy nor a sell only marks the book. -/
def importLevel (b : Books) (row : PersistBookLevel) : Books :=
  if row.sizeRaw = 0 then b
  else
    let key := normalizeSpotMarketKey sdk row.spotMarket
    let book := b.shard key
    let book :=
      match OrderSide.parse row.side with
      | some side => book.setLevels side ((book.levels side).insert row.priceRaw row.sizeRaw)
      | none => book
    b.setShard key { book with chainHydrated := true }

def importFromPersist (levels : List PersistBookLevel) (metas : List PersistBookMeta)
    (b : Books) : Books :=
  levels.foldl (importLevel sdk) (metas.foldl (importMeta sdk) { b with shards := ∅ })

end Books

namespace VaultIndex

def importHolding (idx : VaultIndex) (row : PersistVaultPortfolioRow) : VaultIndex :=
  match parseUuid row.vaultId with
  | none => idx
  | some vaultId =>
      if row.amountRaw = 0 then idx
      else
        { idx with
          vaultPortfolio := idx.vaultPortfolio.insert vaultId
            ((idx.holdings vaultId).insert (normalizeSpotMarketKey sdk row.spotMarket)
              row.amountRaw) }

def importVaultPortfolioForPersist (rows : List PersistVaultPortfolioRow) (idx : VaultIndex) :
    VaultIndex :=
  rows.foldl (importHolding sdk parseUuid) { idx with vaultPortfolio := ∅ }

end VaultIndex

namespace RegistryTx

def importMarkets (markets : List Market) (t : RegistryTx) : RegistryTx :=
  markets.foldl (fun t market => t.upsertMarket sdk market) t

end RegistryTx

namespace OrderTx

def importOrder (tsMs : UInt64) (t : OrderTx) (row : PersistOrderRow) : OrderTx :=
  t.insertOrder sdk tsMs row.order row.userAddress row.spotMarket row.chainOrderId row.sizeRaw
    row.filledRaw

def importOrders (tsMs : UInt64) (rows : List PersistOrderRow) (t : OrderTx) : OrderTx :=
  rows.foldl (importOrder sdk tsMs) t

end OrderTx

namespace VaultTx

def importVaults (vaults : List Vault) (t : VaultTx) : VaultTx :=
  vaults.foldl (fun t vault => t.upsertVault vault) t

end VaultTx

namespace Ctx

def importLastTrades (rows : List (String × UInt64)) (c : Ctx) : Ctx :=
  rows.foldl (fun c row => c.recordLastTradePrice sdk row.1 row.2) c

def applySnapshotToMemory (rows : Snapshot) (c : Ctx) : Ctx :=
  let c := c.onRegistry (RegistryTx.importMarkets sdk rows.markets)
  let c := c.onOrders (OrderTx.importOrders sdk c.store.tsMs rows.orders)
  let c := c.importLastTrades sdk rows.lastTrades
  let c := c.onBooks false fun t =>
    ({ t with books := t.books.importFromPersist sdk rows.levels rows.metas }, none)
  let c := c.onVaults (VaultTx.importVaults rows.vaults)
  c.onVaults fun t =>
    { t with idx := t.idx.importVaultPortfolioForPersist sdk parseUuid rows.vaultPortfolio }

end Ctx

/-! ## What the rows of a part leave in it -/

variable {sdk} {parseUuid}

namespace PersistOrderRow

def stored (row : PersistOrderRow) : StoredOrder :=
  ⟨row.order, row.userAddress, row.chainOrderId, row.spotMarket, row.filledRaw, row.sizeRaw⟩

@[simp] theorem stored_storedToPersistRow (stored : StoredOrder) :
    (storedToPersistRow stored).stored = stored := rfl

end PersistOrderRow

namespace OrderIndex

structure HoldsRows (sdk : Sdk) (rows : Set PersistOrderRow) (idx : OrderIndex) : Prop where
  orders : idx.orders.Holds
    (Dict.Entries (fun row => row.order.id) PersistOrderRow.stored rows)
  byId : idx.ordersById.Holds
    (Dict.Entries (fun row => row.stored.key sdk) (fun row => row.order.id) rows)
  byUser : ∀ user id, id ∈ idx.idsOf user ↔
    ∃ row ∈ rows, userKey row.userAddress = user ∧ row.order.id = id

/-- Rows of hot orders, none of which stands in the way of another. -/
structure ImportableRows (sdk : Sdk) (rows : Set PersistOrderRow) : Prop where
  hot : ∀ row ∈ rows, isHotOrderStatus row.order.status = true
  normalized : ∀ row ∈ rows, normalizeSpotMarketKey sdk row.spotMarket = row.spotMarket
  one : ∀ row ∈ rows, ∀ other ∈ rows, row.order.id = other.order.id → row.stored = other.stored
  key : ∀ row ∈ rows, ∀ other ∈ rows, row.stored.key sdk = other.stored.key sdk →
    row.order.id = other.order.id

theorem holdsRows_empty : HoldsRows sdk ∅ {} where
  orders := Dict.holds_entries_empty
  byId := Dict.holds_entries_empty
  byUser := by
    intro user id
    refine iff_of_false (AList.notMem_empty id) ?_
    rintro ⟨row, hrow, -⟩
    exact hrow

end OrderIndex

namespace OrderTx

open OrderIndex

theorem holdsRows_importOrder {rows done : Set PersistOrderRow} (h : ImportableRows sdk rows)
    (hdone : done ⊆ rows) {row : PersistOrderRow} (hrow : row ∈ rows) (tsMs : UInt64)
    {t : OrderTx} (ht : HoldsRows sdk done t.idx) :
    HoldsRows sdk (insert row done) (t.importOrder sdk tsMs row).idx := by
  have hspot := h.normalized row hrow
  unfold importOrder insertOrder
  dsimp only
  rw [if_pos (h.hot row hrow), hspot]
  constructor
  · exact ht.orders.insertRow fun other hother => h.one other (hdone hother) row hrow
  · exact ht.byId.insertRow fun other hother => h.key other (hdone hother) row hrow
  · intro user id
    have hids := mem_idsOf_insert t.idx (userKey row.userAddress) user row.order.id id
      (t.idx.orders.insert row.order.id row.stored)
      (t.idx.ordersById.insert (row.stored.key sdk) row.order.id)
    calc
      id ∈ idsOf _ user ↔
          user = userKey row.userAddress ∧ id = row.order.id ∨ id ∈ t.idx.idsOf user := hids
      _ ↔ user = userKey row.userAddress ∧ id = row.order.id ∨
          ∃ other ∈ done, userKey other.userAddress = user ∧ other.order.id = id := by
        rw [ht.byUser]
      _ ↔ ∃ other ∈ insert row done, userKey other.userAddress = user ∧ other.order.id = id := by
        rw [Set.exists_mem_insert, eq_comm (a := user), eq_comm (a := id)]

theorem holdsRows_importOrders {rows : List PersistOrderRow}
    (h : ImportableRows sdk {row | row ∈ rows}) (tsMs : UInt64) {t : OrderTx} (ht : t.idx = {}) :
    HoldsRows sdk {row | row ∈ rows} (t.importOrders sdk tsMs rows).idx := by
  have hempty : HoldsRows sdk ∅ t.idx := ht ▸ holdsRows_empty
  exact foldl_rows (P := fun done (t : OrderTx) => HoldsRows sdk done t.idx) (U := {row | row ∈ rows})
    (fun done row t hdone hrow => holdsRows_importOrder h hdone hrow tsMs) rows
    (fun row hrow => hrow) hempty

end OrderTx

/-! ## Last trades -/

theorem lastTradePrice_importLastTrades {rows : List (String × UInt64)}
    (hnormalized : ∀ row ∈ rows, normalizeSpotMarketKey sdk row.1 = row.1)
    (hone : ∀ row ∈ rows, ∀ other ∈ rows, row.1 = other.1 → row.2 = other.2) {c : Ctx}
    (hc : c.store.lastTradePrice = ∅) :
    (c.importLastTrades sdk rows).store.lastTradePrice.Holds fun spot price =>
      (spot, price) ∈ rows := by
  have hfold : (c.importLastTrades sdk rows).store.lastTradePrice =
      rows.foldl (fun d row => d.insert (normalizeSpotMarketKey sdk row.1) row.2)
        c.store.lastTradePrice :=
    (List.foldl_hom (fun c : Ctx => c.store.lastTradePrice) fun _ _ => rfl).symm
  have hkeys : rows.foldl (fun d row => d.insert (normalizeSpotMarketKey sdk row.1) row.2)
      c.store.lastTradePrice = rows.foldl (fun d row => d.insert row.1 row.2) ∅ := by
    rw [hc]
    apply List.foldl_ext
    intro d row hrow
    rw [hnormalized row hrow]
  rw [hfold, hkeys]
  refine (Dict.holds_foldl_insert rows hone).congr fun spot price => ?_
  constructor
  · rintro ⟨row, hrow, rfl, rfl⟩
    exact hrow
  · intro hrow
    exact ⟨(spot, price), hrow, rfl, rfl⟩

theorem store_importLastTrades (rows : List (String × UInt64)) (c : Ctx) :
    ∃ lastTradePrice, (c.importLastTrades sdk rows).store = { c.store with lastTradePrice } := by
  refine List.foldlRecOn
    (motive := fun d : Ctx => ∃ lastTradePrice, d.store = { c.store with lastTradePrice }) rows _
    ⟨_, rfl⟩ ?_
  rintro d ⟨lastTradePrice, hd⟩ row -
  refine ⟨d.store.lastTradePrice.insert (normalizeSpotMarketKey sdk row.1) row.2, ?_⟩
  unfold Ctx.recordLastTradePrice
  dsimp only
  rw [hd]

/-! ## Books -/

namespace PersistBookMeta

def book (row : PersistBookMeta) : SpotBook where
  sequence := row.sequence
  lastTradePrice := row.lastTradePrice
  chainHydrated := true

end PersistBookMeta

namespace Books

structure ImportableMetas (sdk : Sdk) (metas : Set PersistBookMeta) : Prop where
  normalized : ∀ row ∈ metas, normalizeSpotMarketKey sdk row.spotMarket = row.spotMarket
  one : ∀ row ∈ metas, ∀ other ∈ metas, row.spotMarket = other.spotMarket → row = other

/-- Rows of levels in which something rests, of markets with a meta row. -/
structure ImportableLevels (sdk : Sdk) (metas : Set PersistBookMeta)
    (levels : Set PersistBookLevel) : Prop where
  size : ∀ row ∈ levels, row.sizeRaw ≠ 0
  side : ∀ row ∈ levels, ∃ side, row.side = OrderSide.str side
  shard : ∀ row ∈ levels, ∃ m ∈ metas, m.spotMarket = row.spotMarket
  one : ∀ row ∈ levels, ∀ other ∈ levels, row.spotMarket = other.spotMarket →
    row.side = other.side → row.priceRaw = other.priceRaw → row.sizeRaw = other.sizeRaw

/-- The books hold what the rows say. -/
structure HoldsRows (metas : Set PersistBookMeta) (levels : Set PersistBookLevel) (b : Books) :
    Prop where
  mem : ∀ key, key ∈ b.shards ↔ ∃ row ∈ metas, row.spotMarket = key
  sequence : ∀ row ∈ metas, (b.shard row.spotMarket).sequence = row.sequence
  lastTradePrice : ∀ row ∈ metas, (b.shard row.spotMarket).lastTradePrice = row.lastTradePrice
  levels : ∀ key side, ((b.shard key).levels side).Holds fun price size =>
    ⟨key, OrderSide.str side, price, size⟩ ∈ levels

theorem holds_importMetas {metas : List PersistBookMeta}
    (h : ImportableMetas sdk {row | row ∈ metas}) {b : Books} (hb : b.shards = ∅) :
    (metas.foldl (importMeta sdk) b).shards.Holds
      (Dict.Entries PersistBookMeta.spotMarket PersistBookMeta.book {row | row ∈ metas}) := by
  have hempty : b.shards.Holds
      (Dict.Entries PersistBookMeta.spotMarket PersistBookMeta.book ∅) :=
    hb ▸ Dict.holds_entries_empty
  refine foldl_rows (P := fun done (b : Books) => b.shards.Holds
      (Dict.Entries PersistBookMeta.spotMarket PersistBookMeta.book done))
    (U := {row | row ∈ metas}) ?_ metas (fun row hrow => hrow) hempty
  intro done row b hdone hrow hb
  -- the book that is there, if any, is the one that the same row has started
  have hbook : ({ b.shard row.spotMarket with
      sequence := row.sequence
      lastTradePrice := row.lastTradePrice
      chainHydrated := true } : SpotBook) = row.book := by
    unfold shard
    cases hshard : b.shards.lookup row.spotMarket with
    | none => rfl
    | some book =>
        obtain ⟨other, hother, hspot, rfl⟩ := (hb _ _).mp hshard
        rw [h.one other (hdone hother) row hrow hspot]
        rfl
  unfold importMeta
  dsimp only
  rw [h.normalized row hrow, hbook]
  exact hb.insertRow fun other hother hspot =>
    congrArg PersistBookMeta.book (h.one other (hdone hother) row hrow hspot)

theorem holdsRows_importMetas {metas : List PersistBookMeta}
    (h : ImportableMetas sdk {row | row ∈ metas}) {b : Books} (hb : b.shards = ∅) :
    HoldsRows {row | row ∈ metas} ∅ (metas.foldl (importMeta sdk) b) := by
  have hbooks := holds_importMetas h hb
  generalize metas.foldl (importMeta sdk) b = b at hbooks
  have hshard : ∀ row ∈ metas, b.shard row.spotMarket = row.book := by
    intro row hrow
    unfold shard
    rw [(hbooks row.spotMarket row.book).mpr ⟨row, hrow, rfl, rfl⟩]
    rfl
  constructor
  · intro key
    rw [Dict.mem_iff_lookup]
    constructor
    · rintro ⟨book, hbook⟩
      obtain ⟨row, hrow, hspot, -⟩ := (hbooks key book).mp hbook
      exact ⟨row, hrow, hspot⟩
    · rintro ⟨row, hrow, rfl⟩
      exact ⟨row.book, (hbooks _ _).mpr ⟨row, hrow, rfl, rfl⟩⟩
  · intro row hrow
    rw [hshard row hrow]
    rfl
  · intro row hrow
    rw [hshard row hrow]
    rfl
  · -- no book has a level yet
    intro key side
    have hlevels : (b.shard key).levels side = ∅ := by
      unfold shard
      cases hlookup : b.shards.lookup key with
      | none => cases side <;> rfl
      | some book =>
          obtain ⟨row, -, -, rfl⟩ := (hbooks key book).mp hlookup
          cases side <;> rfl
    rw [hlevels]
    exact Dict.holds_empty.congr fun price size => by simp

theorem holdsRows_importLevel {metas : Set PersistBookMeta} {levels done : Set PersistBookLevel}
    (hmetas : ImportableMetas sdk metas) (h : ImportableLevels sdk metas levels)
    (hdone : done ⊆ levels) {row : PersistBookLevel} (hrow : row ∈ levels) {b : Books}
    (hb : HoldsRows metas done b) : HoldsRows metas (insert row done) (b.importLevel sdk row) := by
  obtain ⟨m, hm, hspot⟩ := h.shard row hrow
  obtain ⟨side, hside⟩ := h.side row hrow
  have hnormalized : normalizeSpotMarketKey sdk row.spotMarket = row.spotMarket :=
    hspot ▸ hmetas.normalized m hm
  let loaded : SpotBook :=
    { (b.shard row.spotMarket).setLevels side
        (((b.shard row.spotMarket).levels side).insert row.priceRaw row.sizeRaw) with
      chainHydrated := true }
  have himport : b.importLevel sdk row = b.setShard row.spotMarket loaded := by
    unfold importLevel
    dsimp only
    rw [if_neg (h.size row hrow), hnormalized, hside, OrderSide.parse_str]
  have hfields : loaded.sequence = (b.shard row.spotMarket).sequence ∧
      loaded.lastTradePrice = (b.shard row.spotMarket).lastTradePrice := by
    cases side <;> exact ⟨rfl, rfl⟩
  have hlevels : ∀ side', loaded.levels side' = if side' = side then
      ((b.shard row.spotMarket).levels side).insert row.priceRaw row.sizeRaw
      else (b.shard row.spotMarket).levels side' :=
    fun side' => SpotBook.levels_setLevels _ side side' _
  rw [himport]
  constructor
  · intro key
    change key ∈ b.shards.insert row.spotMarket loaded ↔ _
    rw [AList.mem_insert, hb.mem]
    constructor
    · rintro (rfl | hkey)
      · exact ⟨m, hm, hspot⟩
      · exact hkey
    · exact .inr
  · intro m' hm'
    rw [shard_setShard]
    split_ifs with hkey
    · rw [hfields.1, ← hkey]
      exact hb.sequence m' hm'
    · exact hb.sequence m' hm'
  · intro m' hm'
    rw [shard_setShard]
    split_ifs with hkey
    · rw [hfields.2, ← hkey]
      exact hb.lastTradePrice m' hm'
    · exact hb.lastTradePrice m' hm'
  · intro key side'
    have hrowEq : ∀ price size, (⟨key, OrderSide.str side', price, size⟩ : PersistBookLevel) = row ↔
        key = row.spotMarket ∧ side' = side ∧ price = row.priceRaw ∧ size = row.sizeRaw := by
      intro price size
      have hstr : OrderSide.str side' = row.side ↔ side' = side := by
        rw [hside]
        cases side <;> cases side' <;> decide
      rw [← hstr]
      cases row
      exact ⟨fun heq => by cases heq; exact ⟨rfl, rfl, rfl, rfl⟩,
        fun ⟨hk, hs, hp, hz⟩ => by cases hk; cases hs; cases hp; cases hz; rfl⟩
    rw [shard_setShard]
    by_cases hkey : key = row.spotMarket
    · rw [if_pos hkey, hlevels]
      by_cases hsame : side' = side
      · rw [if_pos hsame, ← hkey, ← hsame]
        have hprice : ∀ size, (⟨key, OrderSide.str side', row.priceRaw, size⟩ : PersistBookLevel) ∈
            done → size = row.sizeRaw := by
          intro size hsize
          refine h.one _ (hdone hsize) row hrow hkey ?_ rfl
          rw [hside, ← hsame]
        refine ((hb.levels key side').insert hprice).congr fun price size => ?_
        rw [Set.mem_insert_iff, hrowEq]
        simp [hkey, hsame]
      · rw [if_neg hsame, ← hkey]
        refine (hb.levels key side').congr fun price size => ?_
        rw [Set.mem_insert_iff, hrowEq]
        simp [hsame]
    · rw [if_neg hkey]
      refine (hb.levels key side').congr fun price size => ?_
      rw [Set.mem_insert_iff, hrowEq]
      simp [hkey]

theorem holdsRows_importFromPersist {metas : List PersistBookMeta} {levels : List PersistBookLevel}
    (hmetas : ImportableMetas sdk {row | row ∈ metas})
    (h : ImportableLevels sdk {row | row ∈ metas} {row | row ∈ levels}) (b : Books) :
    HoldsRows {row | row ∈ metas} {row | row ∈ levels} (b.importFromPersist sdk levels metas) :=
  foldl_rows (P := fun done (b : Books) => HoldsRows {row | row ∈ metas} done b)
    (U := {row | row ∈ levels})
    (fun _ _ _ hdone hrow hb => holdsRows_importLevel hmetas h hdone hrow hb) levels
    (fun _ hrow => hrow) (holdsRows_importMetas hmetas rfl)

end Books

/-! ## Vaults -/

namespace VaultIndex

structure HoldsVaults (vaults : Set Vault) (idx : VaultIndex) : Prop where
  byId : idx.vaults.Holds (Dict.Entries Vault.id (fun vault => vault) vaults)
  byAddress : idx.vaultByAddress.Holds
    (Dict.Entries (fun vault => addrKey vault.vaultAddress) Vault.id vaults)
  byAccount : idx.vaultByAccount.Holds
    (Dict.Entries (fun vault => addrKey vault.vaultAccount) Vault.id vaults)

def HoldsHoldings (rows : Set PersistVaultPortfolioRow) (idx : VaultIndex) : Prop :=
  ∀ id, (idx.holdings id).Holds fun market amount => ⟨id.toString, market, amount⟩ ∈ rows

structure ImportableHoldings (sdk : Sdk) (rows : Set PersistVaultPortfolioRow) : Prop where
  vault : ∀ row ∈ rows, ∃ id : Uuid, row.vaultId = id.toString
  amount : ∀ row ∈ rows, row.amountRaw ≠ 0
  normalized : ∀ row ∈ rows, normalizeSpotMarketKey sdk row.spotMarket = row.spotMarket
  one : ∀ row ∈ rows, ∀ other ∈ rows, row.vaultId = other.vaultId →
    row.spotMarket = other.spotMarket → row.amountRaw = other.amountRaw

theorem holdsHoldings_importHolding (hparse : ∀ id : Uuid, parseUuid id.toString = some id)
    {rows done : Set PersistVaultPortfolioRow} (h : ImportableHoldings sdk rows)
    (hdone : done ⊆ rows) {row : PersistVaultPortfolioRow} (hrow : row ∈ rows) {idx : VaultIndex}
    (hidx : idx.HoldsHoldings done) :
    (idx.importHolding sdk parseUuid row).HoldsHoldings (insert row done) := by
  obtain ⟨id, hid⟩ := h.vault row hrow
  unfold importHolding
  rw [hid, hparse]
  dsimp only
  rw [if_neg (h.amount row hrow), h.normalized row hrow]
  intro id'
  have hrowEq : ∀ market amount,
      (⟨id'.toString, market, amount⟩ : PersistVaultPortfolioRow) = row ↔
        id' = id ∧ market = row.spotMarket ∧ amount = row.amountRaw := by
    intro market amount
    have hstr : id'.toString = row.vaultId ↔ id' = id := by
      rw [hid]
      exact Uuid.toString_injective.eq_iff
    rw [← hstr]
    cases row
    exact ⟨fun heq => by cases heq; exact ⟨rfl, rfl, rfl⟩,
      fun ⟨hv, hs, ha⟩ => by cases hs; cases ha; rw [hv]⟩
  rw [holdings_insert]
  split_ifs with hsame
  · rw [← hsame]
    have hmarket : ∀ amount, (⟨id'.toString, row.spotMarket, amount⟩ : PersistVaultPortfolioRow) ∈
        done → amount = row.amountRaw := by
      intro amount hamount
      refine h.one _ (hdone hamount) row hrow ?_ rfl
      rw [hid, hsame]
    refine ((hidx id').insert hmarket).congr fun market amount => ?_
    rw [Set.mem_insert_iff, hrowEq]
    simp [hsame]
  · refine (hidx id').congr fun market amount => ?_
    rw [Set.mem_insert_iff, hrowEq]
    simp [hsame]

theorem holdsHoldings_importVaultPortfolioForPersist
    (hparse : ∀ id : Uuid, parseUuid id.toString = some id) {rows : List PersistVaultPortfolioRow}
    (h : ImportableHoldings sdk {row | row ∈ rows}) (idx : VaultIndex) :
    (idx.importVaultPortfolioForPersist sdk parseUuid rows).HoldsHoldings {row | row ∈ rows} := by
  refine foldl_rows (P := fun done (idx : VaultIndex) => idx.HoldsHoldings done)
    (U := {row | row ∈ rows})
    (fun _ _ _ hdone hrow hidx => holdsHoldings_importHolding hparse h hdone hrow hidx) rows
    (fun _ hrow => hrow) ?_
  intro id
  exact Dict.holds_empty.congr fun market amount => by simp

theorem holdsVaults_importVaultPortfolioForPersist {vaults : Set Vault} {idx : VaultIndex}
    (h : idx.HoldsVaults vaults) (rows : List PersistVaultPortfolioRow) :
    (idx.importVaultPortfolioForPersist sdk parseUuid rows).HoldsVaults vaults := by
  refine List.foldlRecOn (motive := fun idx : VaultIndex => idx.HoldsVaults vaults) rows _
    ⟨h.byId, h.byAddress, h.byAccount⟩ ?_
  intro idx hidx row _
  unfold importHolding
  split
  · exact hidx
  · split_ifs
    · exact hidx
    · exact ⟨hidx.byId, hidx.byAddress, hidx.byAccount⟩

end VaultIndex

namespace VaultTx

open VaultIndex

structure ImportableVaults (vaults : Set Vault) : Prop where
  one : ∀ v ∈ vaults, ∀ w ∈ vaults, v.id = w.id → v = w
  address : ∀ v ∈ vaults, ∀ w ∈ vaults, addrKey v.vaultAddress = addrKey w.vaultAddress →
    v.id = w.id
  account : ∀ v ∈ vaults, ∀ w ∈ vaults, addrKey v.vaultAccount = addrKey w.vaultAccount →
    v.id = w.id

theorem holdsVaults_importVaults {vaults : List Vault} (h : ImportableVaults {v | v ∈ vaults})
    {t : VaultTx} (ht : t.idx = {}) :
    (t.importVaults vaults).idx.HoldsVaults {v | v ∈ vaults} := by
  have hempty : t.idx.HoldsVaults ∅ :=
    ht ▸ ⟨Dict.holds_entries_empty, Dict.holds_entries_empty, Dict.holds_entries_empty⟩
  refine foldl_rows (P := fun done (t : VaultTx) => t.idx.HoldsVaults done)
    (U := {v | v ∈ vaults}) ?_ vaults (fun _ hv => hv) hempty
  intro done v t hdone hv ht
  exact ⟨ht.byId.insertRow fun w hw => h.one w (hdone hw) v hv,
    ht.byAddress.insertRow fun w hw => h.address w (hdone hw) v hv,
    ht.byAccount.insertRow fun w hw => h.account w (hdone hw) v hv⟩

end VaultTx

end ClobIndexer
