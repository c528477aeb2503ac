import ClobIndexer.Indexer.State
import ClobIndexer.Lib.TableView
/-!
# The full export and the tables it shows

`force_full_index_write` of `src/indexer/mod.rs` writes the whole index over
whatever the tables hold.  `WellFormed` collects what every writer of the index
keeps: records sit under their own id, and market keys are normalized.  For a
well-formed index each exported table is a pointwise view of the maps, which is
the form the incremental writes are compared with.
-/

namespace ClobIndexer

open Lib

variable (sdk : Sdk)

structure PersistBookLevel where
  spotMarket : String
  side : String
  priceRaw : UInt64
  sizeRaw : UInt64
deriving DecidableEq

structure PersistVaultPortfolioRow where
  vaultId : String
  spotMarket : String
  amountRaw : UInt64
deriving DecidableEq

/-! ## Exports -/

namespace IndexState

variable (s : IndexState)

def exportMarketsForPersist : List Market := s.registry.markets.entries.map (·.2)

def exportOrdersForPersist : List PersistOrderRow :=
  s.orders.orders.entries.map fun e => storedToPersistRow e.2

def exportLastTradesForPersist : List (String × UInt64) :=
  s.lastTradePrice.entries.map fun e => (e.1, e.2)

def exportVaultsForPersist : List Vault := s.vaults.vaults.entries.map (·.2)

def exportVaultPortfolioForPersist : List PersistVaultPortfolioRow :=
  s.vaults.vaultPortfolio.entries.flatMap fun e =>
    (e.2.entries.filter fun h => h.2 ≠ 0).map fun h => ⟨e.1.toString, h.1, h.2⟩

/-- The levels of `Books::export_for_persist`. -/
def exportLevels : List PersistBookLevel :=
  s.books.shards.entries.flatMap fun e =>
    (e.2.bids.entries.map fun l => ⟨e.1, "buy", l.1, l.2⟩) ++
      e.2.asks.entries.map fun l => ⟨e.1, "sell", l.1, l.2⟩

/-- The meta rows of `Books::export_for_persist`. -/
def exportMetas : List (String × BookMetaRow) :=
  s.books.shards.entries.map fun e => (e.1, e.2.metaRow)

/-- `force_full_index_write`: the write set that replaces every table. -/
def forceFullIndexWrite (blockNum : UInt64) (digest : String) : IndexWriteSet where
  blockNum := blockNum
  digest := digest
  fullReplace := true
  markets := .ofRows (s.exportMarketsForPersist.map fun market => ⟨market.id.toString, market⟩)
  orders := .ofRows (s.exportOrdersForPersist.map fun row =>
    ⟨row.order.id.toString, orderRowFromParts sdk row.order row.userAddress row.chainOrderId
      row.spotMarket row.sizeRaw row.filledRaw⟩)
  bookLevels := .ofRows ((s.exportLevels.filter fun level => level.sizeRaw ≠ 0).map fun level =>
    ⟨(normalizeSpotMarketKey sdk level.spotMarket, level.side, level.priceRaw.toInt64),
      level.sizeRaw.toInt64⟩)
  bookMeta := .ofRows (s.exportMetas.map fun m => ⟨normalizeSpotMarketKey sdk m.1, m.2⟩)
  lastTrades := .ofRows (s.exportLastTradesForPersist.map fun t =>
    ⟨normalizeSpotMarketKey sdk t.1, t.2.toInt64⟩)
  vaults := .ofRows (s.exportVaultsForPersist.map fun vault =>
    ⟨vault.id.toString, clearPortfolio vault⟩)
  vaultPortfolio := .ofRows ((s.exportVaultPortfolioForPersist.filter fun row =>
    row.amountRaw ≠ 0).map fun row =>
      ⟨(row.vaultId, normalizeSpotMarketKey sdk row.spotMarket), row.amountRaw.toInt64⟩)

/-- The tables as a full export leaves them, whatever they held before. -/
def exported : IndexTables :=
  IndexTables.empty.applyIndexWriteSet (s.forceFullIndexWrite sdk 0 "")

end IndexState

/-! ## Well-formed indexes -/

structure OrderIndex.WellFormed (idx : OrderIndex) : Prop where
  order_id : ∀ id stored, idx.orders.lookup id = some stored → stored.order.id = id

structure Books.WellFormed (b : Books) : Prop where
  normalized : ∀ key book, b.shards.lookup key = some book →
    normalizeSpotMarketKey sdk key = key

structure VaultIndex.WellFormed (idx : VaultIndex) : Prop where
  vault_id : ∀ id vault, idx.vaults.lookup id = some vault → vault.id = id
  normalized : ∀ id holdings market amount, idx.vaultPortfolio.lookup id = some holdings →
    holdings.lookup market = some amount → normalizeSpotMarketKey sdk market = market

structure Registry.WellFormed (r : Registry) : Prop where
  market_id : ∀ id market, r.markets.lookup id = some market → market.id = id

structure IndexState.WellFormed (s : IndexState) : Prop where
  orders : s.orders.WellFormed
  books : s.books.WellFormed sdk
  vaults : s.vaults.WellFormed sdk
  registry : s.registry.WellFormed
  lastTrades : ∀ key price, s.lastTradePrice.lookup key = some price →
    normalizeSpotMarketKey sdk key = key

theorem IndexState.wellFormed_empty : IndexState.WellFormed sdk {} where
  orders := ⟨fun _ _ h => by cases h⟩
  books := ⟨fun _ _ h => by cases h⟩
  vaults := ⟨fun _ _ h => (by cases h), fun _ _ _ _ h => (by cases h)⟩
  registry := ⟨fun _ _ h => by cases h⟩
  lastTrades := fun _ _ h => by cases h

/-! ## Views -/

/-- The row of a size: `None` unless it is positive as `i64`. -/
def positiveRow (size : UInt64) : Option Int64 :=
  if size.toInt64 ≤ 0 then none else some size.toInt64

theorem positiveRow_eq_some_iff (size : UInt64) (r : Int64) :
    positiveRow size = some r ↔ (size ≠ 0 ∧ size.toNat < 2 ^ 63) ∧ size.toInt64 = r := by
  unfold positiveRow
  rw [← Word.not_toInt64_nonpos_iff]
  split_ifs with h <;> simp [h]

namespace OrderSide

def parse (side : String) : Option OrderSide :=
  if side = "buy" then some buy else if side = "sell" then some sell else none

@[simp] theorem parse_str (side : OrderSide) : parse side.str = some side := by
  cases side <;> rfl

theorem parse_eq_some_iff (text : String) (side : OrderSide) :
    parse text = some side ↔ text = side.str := by
  constructor
  · intro h
    unfold parse at h
    split_ifs at h with hbuy hsell
    · cases h
      exact hbuy
    · cases h
      exact hsell
  · rintro rfl
    exact parse_str side

end OrderSide

def orderView (idx : OrderIndex) : Table String OrderRow :=
  keyedView Uuid.toString (fun stored => some (orderRow sdk stored)) idx.orders

def vaultView (idx : VaultIndex) : Table String Vault :=
  keyedView Uuid.toString (fun vault => some (clearPortfolio vault)) idx.vaults

def marketView (r : Registry) : Table String Market := keyedView Uuid.toString some r.markets

def bookLevelView (book : SpotBook) (side : String) (price : Int64) : Option Int64 :=
  (OrderSide.parse side).bind fun side =>
    ((book.levels side).lookup price.toUInt64).bind positiveRow

def levelView (b : Books) : Table LevelKey Int64 := fun k =>
  (b.shards.lookup k.1).bind fun book => bookLevelView book k.2.1 k.2.2

def metaView (b : Books) : Table String BookMetaRow := fun spot =>
  (b.shards.lookup spot).map SpotBook.metaRow

def lastTradeView (d : Dict String UInt64) : Table String Int64 := fun spot =>
  (d.lookup spot).map UInt64.toInt64

/-- The row of a holding as the full export casts it. -/
def castRow (amount : UInt64) : Option Int64 := if amount = 0 then none else some amount.toInt64

def castLevelView (b : Books) : Table LevelKey Int64 := fun k =>
  (OrderSide.parse k.2.1).bind fun side => castRow ((b.shard k.1).sizeAt side k.2.2.toUInt64)

def holdingView (row : UInt64 → Option Int64) (idx : VaultIndex) :
    Table (String × String) Int64 := fun k =>
  (keyedView Uuid.toString some idx.vaultPortfolio k.1).bind fun holdings =>
    (holdings.lookup k.2).bind row

def portfolioView : VaultIndex → Table (String × String) Int64 := holdingView positiveRow

/-! ## The exported tables are the views -/

/-- All holdings are positive as `i64`, zero aside. -/
def IndexState.HoldingsFit (s : IndexState) : Prop :=
  ∀ id holdings market amount, s.vaults.vaultPortfolio.lookup id = some holdings →
    holdings.lookup market = some amount → amount.toNat < 2 ^ 63

/-- All level sizes and holdings are positive as `i64`, zero aside. -/
structure IndexState.SizesFit (s : IndexState) : Prop where
  levels : ∀ key book side price size, s.books.shards.lookup key = some book →
    (book.levels side).lookup price = some size → size.toNat < 2 ^ 63
  holdings : s.HoldingsFit

theorem IndexState.sizesFit_iff_all (s : IndexState) :
    ((s.books.shards.entries.all fun e =>
        (e.2.bids.entries.all fun l => decide (l.2.toNat < 2 ^ 63)) &&
          e.2.asks.entries.all fun l => decide (l.2.toNat < 2 ^ 63)) &&
      s.vaults.vaultPortfolio.entries.all fun e =>
        e.2.entries.all fun l => decide (l.2.toNat < 2 ^ 63)) = true ↔ s.SizesFit := by
  simp only [Bool.and_eq_true, List.all_eq_true, decide_eq_true_eq]
  constructor
  · rintro ⟨hlevels, hholdings⟩
    refine ⟨?_, ?_⟩
    · intro key book side price size hbook hsize
      have hsides := hlevels ⟨key, book⟩ (Dict.mem_entries_iff.mpr hbook)
      cases side with
      | buy => exact hsides.1 ⟨price, size⟩ (Dict.mem_entries_iff.mpr hsize)
      | sell => exact hsides.2 ⟨price, size⟩ (Dict.mem_entries_iff.mpr hsize)
    · intro id holdings market amount hid hamount
      exact hholdings ⟨id, holdings⟩ (Dict.mem_entries_iff.mpr hid) ⟨market, amount⟩
        (Dict.mem_entries_iff.mpr hamount)
  · intro h
    refine ⟨fun e he => ⟨fun l hl => ?_, fun l hl => ?_⟩, fun e he l hl => ?_⟩
    · exact h.levels e.1 e.2 .buy l.1 l.2 (Dict.mem_entries_iff.mp he)
        (Dict.mem_entries_iff.mp hl)
    · exact h.levels e.1 e.2 .sell l.1 l.2 (Dict.mem_entries_iff.mp he)
        (Dict.mem_entries_iff.mp hl)
    · exact h.holdings e.1 e.2 l.1 l.2 (Dict.mem_entries_iff.mp he)
        (Dict.mem_entries_iff.mp hl)

instance (s : IndexState) : Decidable s.SizesFit := decidable_of_iff _ s.sizesFit_iff_all

section Exported

variable {sdk} {s : IndexState}

theorem exported_markets (h : s.registry.WellFormed) :
    (s.exported sdk).markets = marketView s.registry := by
  change (TableWrites.ofRows (List.map _ (List.map _ s.registry.markets.entries))).apply _ = _
  rw [List.map_map]
  exact TableWrites.apply_ofRows_entries Uuid.toString_injective s.registry.markets
    (fun _ market => market.id.toString) (fun market => market)
    (fun id market hm => congrArg Uuid.toString (h.market_id id market hm))

theorem exported_orders (h : s.orders.WellFormed) :
    (s.exported sdk).orders = orderView sdk s.orders := by
  change (TableWrites.ofRows (List.map _ (List.map _ s.orders.orders.entries))).apply _ = _
  rw [List.map_map]
  exact TableWrites.apply_ofRows_entries Uuid.toString_injective s.orders.orders
    (fun _ stored => stored.order.id.toString) (orderRow sdk)
    (fun id stored hs => congrArg Uuid.toString (h.order_id id stored hs))

theorem exported_vaults (h : s.vaults.WellFormed sdk) :
    (s.exported sdk).vaults = vaultView s.vaults := by
  change (TableWrites.ofRows (List.map _ (List.map _ s.vaults.vaults.entries))).apply _ = _
  rw [List.map_map]
  exact TableWrites.apply_ofRows_entries Uuid.toString_injective s.vaults.vaults
    (fun _ vault => vault.id.toString) clearPortfolio
    (fun id vault hv => congrArg Uuid.toString (h.vault_id id vault hv))

theorem exported_bookMeta (h : s.books.WellFormed sdk) :
    (s.exported sdk).bookMeta = metaView s.books := by
  change (TableWrites.ofRows (List.map _ (List.map _ s.books.shards.entries))).apply _ = _
  rw [List.map_map]
  exact (TableWrites.apply_ofRows_entries Function.injective_id s.books.shards
    (fun key _ => normalizeSpotMarketKey sdk key) SpotBook.metaRow h.normalized).trans
    (keyedView_id SpotBook.metaRow s.books.shards)

theorem exported_lastTrades (h : s.WellFormed sdk) :
    (s.exported sdk).lastTrades = lastTradeView s.lastTradePrice := by
  change (TableWrites.ofRows (List.map _ (List.map _ s.lastTradePrice.entries))).apply _ = _
  rw [List.map_map]
  exact (TableWrites.apply_ofRows_entries Function.injective_id s.lastTradePrice
    (fun key _ => normalizeSpotMarketKey sdk key) UInt64.toInt64 h.lastTrades).trans
    (keyedView_id UInt64.toInt64 s.lastTradePrice)

theorem mem_exportLevels (level : PersistBookLevel) :
    level ∈ s.exportLevels ↔ ∃ book side, s.books.shards.lookup level.spotMarket = some book ∧
      level.side = OrderSide.str side ∧
      (book.levels side).lookup level.priceRaw = some level.sizeRaw := by
  obtain ⟨spot, text, price, size⟩ := level
  unfold IndexState.exportLevels
  rw [List.mem_flatMap]
  constructor
  · rintro ⟨⟨key, book⟩, he, hl⟩
    have hbook := Dict.mem_entries_iff.mp he
    rw [List.mem_append, List.mem_map, List.mem_map] at hl
    rcases hl with ⟨l, hl, heq⟩ | ⟨l, hl, heq⟩
    · cases heq
      exact ⟨book, .buy, hbook, rfl, Dict.mem_entries_iff.mp hl⟩
    · cases heq
      exact ⟨book, .sell, hbook, rfl, Dict.mem_entries_iff.mp hl⟩
  · rintro ⟨book, side, hbook, htext, hl⟩
    dsimp only at htext
    subst htext
    refine ⟨⟨spot, book⟩, Dict.mem_entries_iff.mpr hbook, ?_⟩
    rw [List.mem_append, List.mem_map, List.mem_map]
    cases side with
    | buy => exact Or.inl ⟨⟨price, size⟩, Dict.mem_entries_iff.mpr hl, rfl⟩
    | sell => exact Or.inr ⟨⟨price, size⟩, Dict.mem_entries_iff.mpr hl, rfl⟩

private theorem levelView_eq_some_iff (b : Books) (k : LevelKey) (r : Int64) :
    levelView b k = some r ↔ ∃ book side size, b.shards.lookup k.1 = some book ∧
      k.2.1 = OrderSide.str side ∧ (book.levels side).lookup k.2.2.toUInt64 = some size ∧
      positiveRow size = some r := by
  unfold levelView bookLevelView
  simp only [Option.bind_eq_some_iff, OrderSide.parse_eq_some_iff]
  constructor
  · rintro ⟨book, hbook, side, hside, size, hsize, hr⟩
    exact ⟨book, side, size, hbook, hside, hsize, hr⟩
  · rintro ⟨book, side, size, hbook, hside, hsize, hr⟩
    exact ⟨book, hbook, side, hside, size, hsize, hr⟩

theorem exported_bookLevels (h : s.books.WellFormed sdk) (hfit : s.SizesFit) :
    (s.exported sdk).bookLevels = levelView s.books := by
  apply TableWrites.apply_ofRows
  intro k r
  rw [levelView_eq_some_iff, List.mem_map]
  constructor
  · rintro ⟨level, hlevel, heq⟩
    rw [List.mem_filter, mem_exportLevels] at hlevel
    obtain ⟨⟨book, side, hbook, hside, hsize⟩, hne⟩ := hlevel
    obtain ⟨hk, hr⟩ := Sigma.mk.inj heq
    subst hk
    have hkey := h.normalized _ _ hbook
    refine ⟨book, side, level.sizeRaw, ?_, hside, hsize, ?_⟩
    · rw [hkey]
      exact hbook
    · rw [positiveRow_eq_some_iff]
      exact ⟨⟨by simpa using hne, hfit.levels _ _ _ _ _ hbook hsize⟩, eq_of_heq hr⟩
  · rintro ⟨book, side, size, hbook, hside, hsize, hr⟩
    rw [positiveRow_eq_some_iff] at hr
    refine ⟨⟨k.1, k.2.1, k.2.2.toUInt64, size⟩, ?_, ?_⟩
    · rw [List.mem_filter, mem_exportLevels]
      exact ⟨⟨book, side, hbook, hside, hsize⟩, by simpa using hr.1.1⟩
    · rw [h.normalized _ _ hbook, hr.2]
      rfl

private theorem castLevelView_eq_some_iff (b : Books) (k : LevelKey) (r : Int64) :
    castLevelView b k = some r ↔ ∃ book side size, b.shards.lookup k.1 = some book ∧
      k.2.1 = OrderSide.str side ∧ (book.levels side).lookup k.2.2.toUInt64 = some size ∧
      size ≠ 0 ∧ r = size.toInt64 := by
  have hcast : ∀ size, castRow size = some r ↔ size ≠ 0 ∧ r = size.toInt64 := by
    intro size
    unfold castRow
    split_ifs with h0
    · simp [h0]
    · simp [h0, eq_comm]
  unfold castLevelView
  rw [Option.bind_eq_some_iff]
  constructor
  · rintro ⟨side, hside, hrow⟩
    rw [hcast] at hrow
    unfold SpotBook.sizeAt Books.shard at hrow
    cases hbook : b.shards.lookup k.1 with
    | none =>
        rw [hbook] at hrow
        cases side <;> exact absurd rfl hrow.1
    | some book =>
        rw [hbook, Option.getD_some] at hrow
        cases hsize : (book.levels side).lookup k.2.2.toUInt64 with
        | none =>
            rw [hsize] at hrow
            exact absurd rfl hrow.1
        | some size =>
            rw [hsize] at hrow
            exact ⟨book, side, size, rfl, (OrderSide.parse_eq_some_iff _ _).mp hside, hsize, hrow⟩
  · rintro ⟨book, side, size, hbook, hside, hsize, hrow⟩
    refine ⟨side, (OrderSide.parse_eq_some_iff _ _).mpr hside, ?_⟩
    rw [hcast]
    unfold SpotBook.sizeAt Books.shard
    rw [hbook, Option.getD_some, hsize]
    exact hrow

theorem exported_levels (h : s.books.WellFormed sdk) :
    (s.exported sdk).bookLevels = castLevelView s.books := by
  apply TableWrites.apply_ofRows
  intro k r
  rw [castLevelView_eq_some_iff, List.mem_map]
  constructor
  · rintro ⟨level, hlevel, heq⟩
    rw [List.mem_filter, mem_exportLevels] at hlevel
    obtain ⟨⟨book, side, hbook, hside, hsize⟩, hne⟩ := hlevel
    obtain ⟨hk, hr⟩ := Sigma.mk.inj heq
    subst hk
    refine ⟨book, side, level.sizeRaw, ?_, hside, hsize, by simpa using hne, ?_⟩
    · rw [h.normalized _ _ hbook]
      exact hbook
    · exact (eq_of_heq hr).symm
  · rintro ⟨book, side, size, hbook, hside, hsize, hne, rfl⟩
    refine ⟨⟨k.1, k.2.1, k.2.2.toUInt64, size⟩, ?_, ?_⟩
    · rw [List.mem_filter, mem_exportLevels]
      exact ⟨⟨book, side, hbook, hside, hsize⟩, by simpa using hne⟩
    · rw [h.normalized _ _ hbook]
      rfl

theorem mem_exportVaultPortfolio (row : PersistVaultPortfolioRow) :
    row ∈ s.exportVaultPortfolioForPersist ↔ ∃ id holdings,
      s.vaults.vaultPortfolio.lookup id = some holdings ∧ row.vaultId = id.toString ∧
      holdings.lookup row.spotMarket = some row.amountRaw ∧ row.amountRaw ≠ 0 := by
  obtain ⟨vaultId, spot, amount⟩ := row
  unfold IndexState.exportVaultPortfolioForPersist
  rw [List.mem_flatMap]
  constructor
  · rintro ⟨⟨id, holdings⟩, he, hl⟩
    rw [List.mem_map] at hl
    obtain ⟨l, hl, heq⟩ := hl
    rw [List.mem_filter] at hl
    cases heq
    exact ⟨id, holdings, Dict.mem_entries_iff.mp he, rfl, Dict.mem_entries_iff.mp hl.1,
      by simpa using hl.2⟩
  · rintro ⟨id, holdings, hid, hvault, hl, hne⟩
    dsimp only at hvault
    subst hvault
    refine ⟨⟨id, holdings⟩, Dict.mem_entries_iff.mpr hid, ?_⟩
    rw [List.mem_map]
    refine ⟨⟨spot, amount⟩, ?_, rfl⟩
    rw [List.mem_filter]
    exact ⟨Dict.mem_entries_iff.mpr hl, by simpa using hne⟩

private theorem holdingView_eq_some_iff (row : UInt64 → Option Int64) (idx : VaultIndex)
    (k : String × String) (r : Int64) :
    holdingView row idx k = some r ↔ ∃ id holdings amount,
      idx.vaultPortfolio.lookup id = some holdings ∧ k.1 = id.toString ∧
      holdings.lookup k.2 = some amount ∧ row amount = some r := by
  unfold holdingView
  simp only [Option.bind_eq_some_iff, keyedView_eq_some_iff Uuid.toString_injective]
  constructor
  · rintro ⟨holdings, ⟨id, found, hid, hk, hfound⟩, amount, hl, hr⟩
    cases hfound
    exact ⟨id, holdings, amount, hid, hk.symm, hl, hr⟩
  · rintro ⟨id, holdings, amount, hid, hk, hl, hr⟩
    exact ⟨holdings, ⟨id, holdings, hid, hk.symm, rfl⟩, amount, hl, hr⟩

theorem exported_holdings (h : s.vaults.WellFormed sdk) :
    (s.exported sdk).vaultPortfolio = holdingView castRow s.vaults := by
  have hcast : ∀ (amount : UInt64) (r : Int64),
      castRow amount = some r ↔ amount ≠ 0 ∧ amount.toInt64 = r := by
    intro amount r
    unfold castRow
    split_ifs with h0 <;> simp [h0]
  apply TableWrites.apply_ofRows
  intro k r
  rw [holdingView_eq_some_iff, List.mem_map]
  constructor
  · rintro ⟨row, hrow, heq⟩
    rw [List.mem_filter, mem_exportVaultPortfolio] at hrow
    obtain ⟨⟨id, holdings, hid, hvault, hl, hne⟩, -⟩ := hrow
    obtain ⟨hk, hr⟩ := Sigma.mk.inj heq
    subst hk
    refine ⟨id, holdings, row.amountRaw, hid, hvault, ?_, ?_⟩
    · rw [h.normalized _ _ _ _ hid hl]
      exact hl
    · rw [hcast]
      exact ⟨hne, eq_of_heq hr⟩
  · rintro ⟨id, holdings, amount, hid, hk, hl, hr⟩
    rw [hcast] at hr
    refine ⟨⟨k.1, k.2, amount⟩, ?_, ?_⟩
    · rw [List.mem_filter, mem_exportVaultPortfolio]
      exact ⟨⟨id, holdings, hid, hk, hl, hr.1⟩, by simpa using hr.1⟩
    · rw [h.normalized _ _ _ _ hid hl, hr.2]

theorem castRow_eq_positiveRow_iff (amount : UInt64) :
    castRow amount = positiveRow amount ↔ amount.toNat < 2 ^ 63 := by
  have hpositive := Word.not_toInt64_nonpos_iff amount
  unfold castRow positiveRow
  by_cases h0 : amount = 0
  · subst h0
    decide
  · rw [if_neg h0]
    split_ifs with h
    · have hlarge : ¬amount.toNat < 2 ^ 63 := fun hlt => hpositive.mpr ⟨h0, hlt⟩ h
      exact iff_of_false (fun heq => by cases heq) hlarge
    · exact iff_of_true rfl (hpositive.mp h).2

theorem exported_vaultPortfolio (h : s.vaults.WellFormed sdk) (hfit : s.HoldingsFit) :
    (s.exported sdk).vaultPortfolio = portfolioView s.vaults := by
  rw [exported_holdings h]
  unfold portfolioView
  funext k
  apply Option.ext
  intro r
  rw [holdingView_eq_some_iff, holdingView_eq_some_iff]
  have hrow : ∀ id holdings amount, s.vaults.vaultPortfolio.lookup id = some holdings →
      holdings.lookup k.2 = some amount → castRow amount = positiveRow amount :=
    fun id holdings amount hid hl =>
      (castRow_eq_positiveRow_iff amount).mpr (hfit id holdings k.2 amount hid hl)
  constructor
  · rintro ⟨id, holdings, amount, hid, hk, hl, hr⟩
    exact ⟨id, holdings, amount, hid, hk, hl, (hrow id holdings amount hid hl) ▸ hr⟩
  · rintro ⟨id, holdings, amount, hid, hk, hl, hr⟩
    exact ⟨id, holdings, amount, hid, hk, hl, (hrow id holdings amount hid hl) ▸ hr⟩

end Exported

end ClobIndexer
