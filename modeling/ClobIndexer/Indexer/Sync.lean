import ClobIndexer.Indexer.Export
/-!
# Every index operation keeps its write set in step

A part of the index and its write set are *synced* with a table when writing the
set to the table gives the view of the part.  Each operation of `Orders`, `Books`
and `Vaults` keeps its part synced and well-formed.
-/

namespace ClobIndexer

open Lib

variable {sdk : Sdk}

/-! ## Orders -/

namespace OrderTx

/-- The order index is well-formed and its write set in step with the table. -/
structure Synced (sdk : Sdk) (rows : Table String OrderRow) (t : OrderTx) : Prop where
  wf : t.idx.WellFormed
  eq : t.writes.apply rows = orderView sdk t.idx

variable {rows : Table String OrderRow} {t : OrderTx}

theorem wellFormed_insert {d : Dict Uuid StoredOrder} {id : Uuid} {stored : StoredOrder}
    (h : ∀ id stored, d.lookup id = some stored → stored.order.id = id)
    (hid : stored.order.id = id) :
    ∀ id' stored', (d.insert id stored).lookup id' = some stored' → stored'.order.id = id' := by
  intro id' stored' hl
  rw [Dict.lookup_insert_ite] at hl
  split_ifs at hl with hk
  · cases hl
    rw [hk]
    exact hid
  · exact h id' stored' hl

private theorem view_insert {idx : OrderIndex} (heq : t.writes.apply rows = orderView sdk t.idx)
    {id : Uuid} {stored : StoredOrder} (hid : stored.order.id = id)
    (horders : idx.orders = t.idx.orders.insert id stored) :
    (storeOrder (orderRow sdk stored) t.writes).apply rows = orderView sdk idx := by
  unfold storeOrder orderView
  rw [TableWrites.apply_put, heq, horders, keyedView_insert Uuid.toString_injective, ← hid]
  rfl

theorem synced_insertOrder (h : t.Synced sdk rows) (tsMs : UInt64) (order : Order)
    (userAddress spotMarket chainOrderId : String) (sizeRaw filledRaw : UInt64) :
    (t.insertOrder sdk tsMs order userAddress spotMarket chainOrderId sizeRaw
      filledRaw).Synced sdk rows := by
  unfold insertOrder
  split_ifs
  · exact ⟨⟨wellFormed_insert h.wf.order_id rfl⟩, view_insert h.eq rfl rfl⟩
  · exact ⟨h.wf, h.eq⟩

theorem synced_archiveTerminalOrder (h : t.Synced sdk rows) (tsMs : UInt64) (id : Uuid)
    (stored : StoredOrder) : (t.archiveTerminalOrder sdk tsMs id stored).Synced sdk rows := by
  constructor
  · constructor
    intro id' stored' hl
    change (t.idx.orders.erase id).lookup id' = some stored' at hl
    rw [Dict.lookup_erase_ite] at hl
    split_ifs at hl with hk
    exact h.wf.order_id id' stored' hl
  · change (t.writes.remove id.toString).apply rows =
      keyedView Uuid.toString _ (t.idx.orders.erase id)
    rw [TableWrites.apply_remove, h.eq, keyedView_erase Uuid.toString_injective]
    rfl

theorem synced_settle (h : t.Synced sdk rows) (tsMs : UInt64) {id : Uuid} {stored : StoredOrder}
    (hid : stored.order.id = id) : (t.settle sdk tsMs id stored).Synced sdk rows := by
  unfold settle
  split_ifs
  · exact ⟨⟨wellFormed_insert h.wf.order_id hid⟩, view_insert h.eq hid rfl⟩
  · exact synced_archiveTerminalOrder h tsMs id stored

theorem synced_updateOrderCancelled (h : t.Synced sdk rows) (tsMs : UInt64)
    (spotMarket chainOrderId : String) :
    (t.updateOrderCancelled sdk tsMs spotMarket chainOrderId).Synced sdk rows := by
  unfold updateOrderCancelled
  split
  · exact h
  · exact synced_archiveTerminalOrder h tsMs _ _

theorem synced_updateOrderAmount (h : t.Synced sdk rows) (tsMs : UInt64)
    (spotMarket chainOrderId : String) (newAmount remainingAmount : UInt64) :
    (t.updateOrderAmount sdk tsMs spotMarket chainOrderId newAmount
      remainingAmount).Synced sdk rows := by
  unfold updateOrderAmount
  split
  · exact h
  · rename_i id stored hfind
    have hid := h.wf.order_id id stored (OrderIndex.lookup_of_find hfind)
    exact synced_settle h tsMs hid

theorem synced_updateOrderFill (h : t.Synced sdk rows) (tsMs : UInt64)
    (spotMarket chainOrderId : String) (fillAmount remainingAmount : UInt64)
    (isFullyFilled : Bool) :
    (t.updateOrderFill sdk tsMs spotMarket chainOrderId fillAmount remainingAmount
      isFullyFilled).Synced sdk rows := by
  unfold updateOrderFill
  split
  · exact h
  · rename_i id stored hfind
    have hid := h.wf.order_id id stored (OrderIndex.lookup_of_find hfind)
    exact synced_settle h tsMs hid

end OrderTx

/-! ## Vaults -/

namespace VaultTx

structure Synced (sdk : Sdk) (vaultRows : Table String Vault)
    (portfolioRows : Table (String × String) Int64) (t : VaultTx) : Prop where
  wf : t.idx.WellFormed sdk
  vaults : t.vaults.apply vaultRows = vaultView t.idx
  portfolio : t.portfolio.apply portfolioRows = portfolioView t.idx

variable {vaultRows : Table String Vault} {portfolioRows : Table (String × String) Int64}
  {t : VaultTx}

/-- A vault without an entry shows no holdings, as an empty entry would. -/
theorem holdingView_apply (row : UInt64 → Option Int64) (idx : VaultIndex) (id : Uuid)
    (market : String) :
    holdingView row idx (id.toString, market) = ((idx.holdings id).lookup market).bind row := by
  unfold holdingView VaultIndex.holdings
  rw [keyedView_apply Uuid.toString_injective]
  cases idx.vaultPortfolio.lookup id with
  | none => rfl
  | some holdings => rfl

private theorem holdingView_of_forall_ne (row : UInt64 → Option Int64) (idx : VaultIndex)
    {k : String × String} (h : ∀ id : Uuid, id.toString ≠ k.1) : holdingView row idx k = none := by
  unfold holdingView
  rw [keyedView_of_forall_ne _ h]
  rfl

theorem holdingView_congr (row : UInt64 → Option Int64) {idx idx' : VaultIndex}
    (h : ∀ id, idx'.holdings id = idx.holdings id) :
    holdingView row idx' = holdingView row idx := by
  funext k
  by_cases hk : ∃ id : Uuid, id.toString = k.1
  · obtain ⟨id, hid⟩ := hk
    obtain ⟨vaultId, market⟩ := k
    dsimp only at hid
    subst hid
    rw [holdingView_apply, holdingView_apply, h]
  · have hne : ∀ id : Uuid, id.toString ≠ k.1 := fun id hid => hk ⟨id, hid⟩
    rw [holdingView_of_forall_ne _ _ hne, holdingView_of_forall_ne _ _ hne]

private theorem vaultView_insert (idx : VaultIndex) (id : Uuid) (vault : Vault)
    (hid : vault.id = id) (hv : t.vaults.apply vaultRows = vaultView t.idx)
    (hins : idx.vaults = t.idx.vaults.insert id vault) :
    (storeVault vault t.vaults).apply vaultRows = vaultView idx := by
  unfold storeVault vaultView
  rw [TableWrites.apply_put, hv, hins, keyedView_insert Uuid.toString_injective, ← hid]
  rfl

private theorem vaultId_insert {d : Dict Uuid Vault} {id : Uuid} {vault : Vault}
    (h : ∀ id vault, d.lookup id = some vault → vault.id = id) (hid : vault.id = id) :
    ∀ id' vault', (d.insert id vault).lookup id' = some vault' → vault'.id = id' := by
  intro id' vault' hl
  rw [Dict.lookup_insert_ite] at hl
  split_ifs at hl with hk
  · cases hl
    rw [hk]
    exact hid
  · exact h id' vault' hl

private theorem normalized_iff {idx : VaultIndex} :
    (∀ id holdings market amount, idx.vaultPortfolio.lookup id = some holdings →
      holdings.lookup market = some amount → normalizeSpotMarketKey sdk market = market) ↔
    ∀ id market amount, (idx.holdings id).lookup market = some amount →
      normalizeSpotMarketKey sdk market = market := by
  constructor
  · intro h id market amount hm
    unfold VaultIndex.holdings at hm
    cases hl : idx.vaultPortfolio.lookup id with
    | none =>
        rw [hl] at hm
        cases hm
    | some holdings =>
        rw [hl] at hm
        exact h id holdings market amount hl hm
  · intro h id holdings market amount hl hm
    apply h id market amount
    unfold VaultIndex.holdings
    rw [hl]
    exact hm

theorem holdings_upsertVault (vault : Vault) (id : Uuid) :
    (t.upsertVault vault).idx.holdings id = t.idx.holdings id := by
  have h := VaultIndex.holdings_insert t.idx vault.id id (t.idx.holdings vault.id)
  rw [ite_eq_right_iff.mpr (fun hid => by rw [hid])] at h
  exact h

theorem synced_upsertVault (h : t.Synced sdk vaultRows portfolioRows) (vault : Vault) :
    (t.upsertVault vault).Synced sdk vaultRows portfolioRows := by
  refine ⟨⟨vaultId_insert h.wf.vault_id rfl, ?_⟩, ?_, ?_⟩
  · rw [normalized_iff]
    intro id market amount hm
    rw [holdings_upsertVault] at hm
    exact normalized_iff.mp h.wf.normalized id market amount hm
  · exact vaultView_insert _ vault.id vault rfl h.vaults rfl
  · exact h.portfolio.trans (holdingView_congr positiveRow (holdings_upsertVault vault)).symm

theorem synced_modifyVault (h : t.Synced sdk vaultRows portfolioRows) (vaultAddress : String)
    {f : Vault → Vault} (hf : ∀ vault, (f vault).id = vault.id) :
    (t.modifyVault vaultAddress f).Synced sdk vaultRows portfolioRows := by
  unfold modifyVault
  split
  · exact h
  · split
    · exact h
    · rename_i id _ _ vault hv
      have hid : (f vault).id = id := by rw [hf, h.wf.vault_id id vault hv]
      exact ⟨⟨vaultId_insert h.wf.vault_id hid, h.wf.normalized⟩,
        vaultView_insert _ id (f vault) hid h.vaults rfl, h.portfolio⟩

theorem apply_storeVaultPortfolio (rows : Table (String × String) Int64)
    (w : TableWrites (String × String) Int64) (vaultId spot : String) (amount : UInt64) :
    (storeVaultPortfolio sdk vaultId spot amount.toInt64 w).apply rows =
      Function.update (w.apply rows) (vaultId, normalizeSpotMarketKey sdk spot)
        (positiveRow amount) := by
  unfold storeVaultPortfolio positiveRow
  split_ifs
  · rw [TableWrites.apply_remove]
  · rw [TableWrites.apply_put]

theorem holdingView_setHolding {row : UInt64 → Option Int64} (hzero : row 0 = none)
    (idx : VaultIndex) (vaultId : Uuid) (market : String) (amount : UInt64) :
    holdingView row (idx.setHolding vaultId market amount) =
      Function.update (holdingView row idx) (vaultId.toString, market) (row amount) := by
  funext k
  obtain ⟨idText, market'⟩ := k
  by_cases hk : ∃ id : Uuid, id.toString = idText
  · obtain ⟨id, rfl⟩ := hk
    rw [holdingView_apply, VaultIndex.lookup_holdings_setHolding]
    by_cases hsame : id = vaultId ∧ market' = market
    · obtain ⟨rfl, rfl⟩ := hsame
      rw [if_pos ⟨rfl, rfl⟩, Function.update_self]
      split_ifs with h0
      · rw [h0, hzero]
        rfl
      · rfl
    · have hne : (id.toString, market') ≠ (vaultId.toString, market) := by
        intro heq
        rw [Prod.mk.injEq] at heq
        exact hsame ⟨Uuid.toString_injective heq.1, heq.2⟩
      rw [if_neg hsame, Function.update_of_ne hne, holdingView_apply]
  · have hne : ∀ id : Uuid, id.toString ≠ idText := fun id hid => hk ⟨id, hid⟩
    have hkey : (idText, market') ≠ (vaultId.toString, market) := by
      intro heq
      rw [Prod.mk.injEq] at heq
      exact hne vaultId heq.1.symm
    rw [Function.update_of_ne hkey, holdingView_of_forall_ne _ _ hne,
      holdingView_of_forall_ne _ _ hne]

theorem synced_applyVaultFillToPortfolio (lawful : LawfulSdk sdk)
    (h : t.Synced sdk vaultRows portfolioRows) (userAddress spotMarket : String)
    (side : OrderSide) (fillAmount : UInt64) :
    (t.applyVaultFillToPortfolio sdk userAddress spotMarket side
      fillAmount).Synced sdk vaultRows portfolioRows := by
  unfold applyVaultFillToPortfolio
  split_ifs
  · exact h
  split
  · exact h
  have hnorm := normalize_normalize lawful spotMarket
  refine ⟨⟨h.wf.vault_id, ?_⟩, h.vaults, ?_⟩
  · rw [normalized_iff]
    intro id market amount hm
    rw [VaultIndex.lookup_holdings_setHolding] at hm
    split_ifs at hm with hsame
    · rw [hsame.2]
      exact hnorm
    · exact normalized_iff.mp h.wf.normalized id market amount hm
  · dsimp only
    rw [apply_storeVaultPortfolio, h.portfolio, hnorm]
    exact (holdingView_setHolding rfl _ _ _ _).symm

end VaultTx

/-! ## Books -/

namespace Books

theorem levelView_apply (b : Books) (k : LevelKey) :
    levelView b k = bookLevelView (b.shard k.1) k.2.1 k.2.2 := by
  have hempty : ∀ side price, bookLevelView {} side price = none := by
    intro side price
    unfold bookLevelView
    cases OrderSide.parse side with
    | none => rfl
    | some side => cases side <;> rfl
  unfold levelView shard
  cases b.shards.lookup k.1 with
  | none => exact (hempty _ _).symm
  | some book => rfl

theorem bookLevelView_setSize (book : SpotBook) (side : OrderSide) (price size : UInt64)
    (text : String) (p : Int64) :
    bookLevelView (book.setSize side price size) text p =
      if text = side.str ∧ p = price.toInt64 then positiveRow size
      else bookLevelView book text p := by
  have hzero : positiveRow 0 = none := rfl
  unfold bookLevelView
  by_cases htext : ∃ side', text = OrderSide.str side'
  · obtain ⟨side', rfl⟩ := htext
    rw [OrderSide.parse_str, Option.bind_some, Option.bind_some,
      SpotBook.lookup_levels_setSize]
    have hside : side'.str = side.str ↔ side' = side := OrderSide.str_injective.eq_iff
    have hp : p = price.toInt64 ↔ p.toUInt64 = price :=
      ⟨fun h => by rw [h]; rfl, fun h => by rw [← h]; rfl⟩
    simp only [hside, hp]
    split_ifs with hk h0
    · rw [h0, hzero]
      rfl
    · rfl
    · rfl
  · have hparse : OrderSide.parse text = none := by
      cases hs : OrderSide.parse text with
      | none => rfl
      | some side' => exact absurd ⟨side', (OrderSide.parse_eq_some_iff _ _).mp hs⟩ htext
    have hne : ¬(text = side.str ∧ p = price.toInt64) := fun h => htext ⟨side, h.1⟩
    rw [if_neg hne, hparse]
    rfl

theorem wellFormed_setShard {b : Books} (h : b.WellFormed sdk) {key : String}
    (hkey : normalizeSpotMarketKey sdk key = key) (book : SpotBook) :
    (b.setShard key book).WellFormed sdk := by
  constructor
  intro key' book' hl
  change (b.shards.insert key book).lookup key' = some book' at hl
  rw [Dict.lookup_insert_ite] at hl
  split_ifs at hl with hk
  · rw [hk]
    exact hkey
  · exact h.normalized key' book' hl

theorem metaView_setShard (b : Books) (key : String) (book : SpotBook) :
    metaView (b.setShard key book) =
      Function.update (metaView b) key (some book.metaRow) := by
  funext key'
  unfold metaView setShard
  dsimp only
  rw [Dict.lookup_insert_ite]
  by_cases h : key' = key
  · subst h
    rw [if_pos rfl, Function.update_self]
    rfl
  · rw [if_neg h, Function.update_of_ne h]

theorem levelView_setShard (b : Books) (key : String) (book : SpotBook) (k : LevelKey) :
    levelView (b.setShard key book) k =
      if k.1 = key then bookLevelView book k.2.1 k.2.2 else levelView b k := by
  rw [levelView_apply, levelView_apply, shard_setShard]
  split_ifs <;> rfl

end Books

namespace BookTx

structure Synced (sdk : Sdk) (levelRows : Table LevelKey Int64)
    (metaRows : Table String BookMetaRow) (t : BookTx) : Prop where
  wf : t.books.WellFormed sdk
  levels : t.levels.apply levelRows = levelView t.books
  metas : t.metas.apply metaRows = metaView t.books

variable {levelRows : Table LevelKey Int64} {metaRows : Table String BookMetaRow} {t : BookTx}

theorem apply_storeBookLevel (w : TableWrites LevelKey Int64) (spot side : String)
    (price : Int64) (size : UInt64) :
    (storeBookLevel sdk spot side price size.toInt64 w).apply levelRows =
      Function.update (w.apply levelRows) (normalizeSpotMarketKey sdk spot, side, price)
        (positiveRow size) := by
  unfold storeBookLevel positiveRow
  split_ifs
  · rw [TableWrites.apply_remove]
  · rw [TableWrites.apply_put]

theorem apply_changedLevel (w : TableWrites LevelKey Int64) {spot : String}
    (hspot : normalizeSpotMarketKey sdk spot = spot) (side : String) (price : Int64)
    (size : UInt64) :
    (if size = 0 then deleteBookLevel sdk spot side price w
      else storeBookLevel sdk spot side price size.toInt64 w).apply levelRows =
      Function.update (w.apply levelRows) (spot, side, price) (positiveRow size) := by
  split_ifs with h0
  · unfold deleteBookLevel
    rw [TableWrites.apply_remove, hspot, h0]
    rfl
  · rw [apply_storeBookLevel, hspot]

/-- Replacing the book of a normalized key keeps the sets in step, given that the
level writes show the new book and leave the other markets alone. -/
private theorem synced_setShard (h : t.Synced sdk levelRows metaRows) {key : String}
    (hkey : normalizeSpotMarketKey sdk key = key) {book : SpotBook}
    {levels : TableWrites LevelKey Int64}
    (hself : ∀ side price, levels.apply levelRows (key, side, price) =
      bookLevelView book side price)
    (hother : ∀ k : LevelKey, k.1 ≠ key → levels.apply levelRows k = t.levels.apply levelRows k) :
    BookTx.Synced sdk levelRows metaRows
      ⟨t.books.setShard key book, levels, storeBookMeta sdk key book.metaRow t.metas⟩ := by
  refine ⟨Books.wellFormed_setShard h.wf hkey book, ?_, ?_⟩
  · funext k
    rw [Books.levelView_setShard]
    split_ifs with hk
    · obtain ⟨spot, side, price⟩ := k
      dsimp only at hk
      subst hk
      exact hself side price
    · rw [hother k hk, h.levels]
  · dsimp only
    unfold storeBookMeta
    rw [TableWrites.apply_put, h.metas, hkey, Books.metaView_setShard]

theorem synced_changeLevel (lawful : LawfulSdk sdk) (h : t.Synced sdk levelRows metaRows)
    (spotMarket : String) (side : OrderSide) (priceRaw amountRaw : UInt64) (isAdd : Bool)
    (blockNum : UInt64) (lastTradePrice : Option UInt64) :
    (t.changeLevel sdk spotMarket side priceRaw amountRaw isAdd blockNum
      lastTradePrice).1.Synced sdk levelRows metaRows := by
  unfold changeLevel Books.applyLevelChange
  dsimp only
  have hnorm := normalize_normalize lawful spotMarket
  generalize normalizeSpotMarketKey sdk spotMarket = key at hnorm ⊢
  generalize (if isAdd = true then Word.satAdd ((t.books.shard key).sizeAt side priceRaw) amountRaw
    else Word.satSub ((t.books.shard key).sizeAt side priceRaw) amountRaw) = next
  refine synced_setShard h hnorm ?_ ?_
  · intro text price
    rw [apply_changedLevel t.levels hnorm]
    refine Eq.trans ?_ (Books.bookLevelView_setSize (t.books.shard key) side priceRaw next
      text price).symm
    by_cases hk : text = side.str ∧ price = priceRaw.toInt64
    · rw [if_pos hk, hk.1, hk.2, Function.update_self]
    · have hne : (key, text, price) ≠ (key, side.str, priceRaw.toInt64) := by
        intro heq
        simp only [Prod.mk.injEq, true_and] at heq
        exact hk heq
      rw [if_neg hk, Function.update_of_ne hne, h.levels, Books.levelView_apply]
  · intro k hk
    rw [apply_changedLevel t.levels hnorm, Function.update_of_ne]
    intro heq
    exact hk (by rw [heq])

private theorem synced_setShard_same (h : t.Synced sdk levelRows metaRows) {key : String}
    (hkey : normalizeSpotMarketKey sdk key = key) {book : SpotBook} (tradeSeq : UInt64)
    (hmem : key ∈ t.books.shards)
    (hlevels : ∀ side, book.levels side = (t.books.shard key).levels side)
    (hmeta : book.metaRow = (t.books.shard key).metaRow) :
    BookTx.Synced sdk levelRows metaRows
      { t with books := { t.books.setShard key book with tradeSeq := tradeSeq } } := by
  refine ⟨⟨(Books.wellFormed_setShard h.wf hkey book).normalized⟩, ?_, ?_⟩
  · rw [h.levels]
    funext k
    change _ = levelView (t.books.setShard key book) k
    rw [Books.levelView_setShard]
    split_ifs with hk
    · rw [Books.levelView_apply, hk]
      unfold bookLevelView
      cases OrderSide.parse k.2.1 with
      | none => rfl
      | some side =>
          rw [Option.bind_some, Option.bind_some, hlevels]
    · rfl
  · rw [h.metas]
    change _ = metaView (t.books.setShard key book)
    rw [Books.metaView_setShard, hmeta]
    obtain ⟨found, hfound⟩ := Dict.mem_iff_lookup.mp hmem
    refine (Function.update_eq_self_iff.mpr ?_).symm
    unfold metaView Books.shard
    rw [hfound]
    rfl

theorem synced_applyCreated (lawful : LawfulSdk sdk) (h : t.Synced sdk levelRows metaRows)
    (spotMarket : String) (side : OrderSide) (priceRaw amountRaw blockNum : UInt64) :
    (t.applyCreated sdk spotMarket side priceRaw amountRaw blockNum).1.Synced sdk levelRows
      metaRows := by
  unfold applyCreated
  split_ifs
  · exact h
  · exact synced_changeLevel lawful h spotMarket side priceRaw _ _ blockNum none

theorem synced_applyCancelled (lawful : LawfulSdk sdk) (h : t.Synced sdk levelRows metaRows)
    (spotMarket : String) (side : OrderSide) (priceRaw amountRaw blockNum : UInt64) :
    (t.applyCancelled sdk spotMarket side priceRaw amountRaw blockNum).1.Synced sdk levelRows
      metaRows := by
  unfold applyCancelled
  split_ifs
  · exact h
  · exact synced_changeLevel lawful h spotMarket side priceRaw _ _ blockNum none

theorem synced_applyUpdated (lawful : LawfulSdk sdk) (h : t.Synced sdk levelRows metaRows)
    (spotMarket : String) (side : OrderSide)
    (priceRaw oldAmountRaw newAmountRaw newRemainingRaw blockNum : UInt64) :
    (t.applyUpdated sdk spotMarket side priceRaw oldAmountRaw newAmountRaw newRemainingRaw
      blockNum).1.Synced sdk levelRows metaRows := by
  unfold applyUpdated
  dsimp only
  split_ifs
  · exact h
  · exact synced_changeLevel lawful h spotMarket side priceRaw _ _ blockNum none
  · exact synced_changeLevel lawful h spotMarket side priceRaw _ _ blockNum none

variable (sdk) in
theorem mem_shards_changeLevel (t : BookTx) (spotMarket : String) (side : OrderSide)
    (priceRaw amountRaw : UInt64) (isAdd : Bool) (blockNum : UInt64)
    (lastTradePrice : Option UInt64) :
    normalizeSpotMarketKey sdk spotMarket ∈
      (t.changeLevel sdk spotMarket side priceRaw amountRaw isAdd blockNum
        lastTradePrice).1.books.shards := by
  rw [Dict.mem_iff_lookup]
  exact ⟨_, AList.lookup_insert _⟩

theorem synced_applyFilled (lawful : LawfulSdk sdk) (h : t.Synced sdk levelRows metaRows)
    (spotMarket : String) (side : OrderSide)
    (priceRaw fillAmountRaw blockNum lastTradePrice : UInt64) (tradeTimeMs : Option UInt64)
    (nowMs : UInt64) :
    (t.applyFilled sdk spotMarket side priceRaw fillAmountRaw blockNum lastTradePrice
      tradeTimeMs nowMs).1.Synced sdk levelRows metaRows := by
  unfold applyFilled
  split_ifs
  · exact h
  have hnorm := normalize_normalize lawful spotMarket
  have hmem := mem_shards_changeLevel sdk t spotMarket side priceRaw fillAmountRaw false
    blockNum (some lastTradePrice)
  have hsync := synced_changeLevel lawful h spotMarket side priceRaw fillAmountRaw false blockNum
    (some lastTradePrice)
  generalize t.changeLevel sdk spotMarket side priceRaw fillAmountRaw false blockNum
    (some lastTradePrice) = r at hmem hsync ⊢
  obtain ⟨t', delta⟩ := r
  dsimp only
  -- only the fill marker and the trade tape change after the level
  split_ifs
  · exact synced_setShard_same hsync hnorm t'.books.tradeSeq hmem (fun side => by cases side <;> rfl)
      rfl
  · exact synced_setShard_same hsync hnorm (t'.books.tradeSeq + 1) hmem
      (fun side => by cases side <;> rfl) rfl

private theorem apply_dropEntries (key : String) (side : OrderSide)
    (entries : List (Sigma fun _ : UInt64 => UInt64)) (w : TableWrites LevelKey Int64)
    (text : String) (price : Int64) (spot : String) :
    (entries.foldl (fun w e => deleteBookLevel sdk key side.str e.1.toInt64 w) w).apply levelRows
        (spot, text, price) =
      if spot = normalizeSpotMarketKey sdk key ∧ text = side.str ∧
        price.toUInt64 ∈ entries.keys then none else w.apply levelRows (spot, text, price) := by
  induction entries generalizing w with
  | nil => simp
  | cons e entries ih =>
      have hp : price = e.1.toInt64 ↔ price.toUInt64 = e.1 :=
        ⟨fun h => by rw [h]; rfl, fun h => by rw [← h]; rfl⟩
      rw [List.foldl_cons, ih]
      unfold deleteBookLevel
      rw [TableWrites.apply_remove, Function.update_apply]
      simp only [List.keys_cons, List.mem_cons, Prod.mk.injEq, hp]
      by_cases h1 : spot = normalizeSpotMarketKey sdk key ∧ text = side.str
      · simp only [h1.1, h1.2, true_and]
        split_ifs <;> simp_all
      · have hn1 : ¬(spot = normalizeSpotMarketKey sdk key ∧ text = side.str ∧
            price.toUInt64 ∈ entries.keys) := fun h => h1 ⟨h.1, h.2.1⟩
        have hn2 : ¬(spot = normalizeSpotMarketKey sdk key ∧ text = side.str ∧
            price.toUInt64 = e.1) := fun h => h1 ⟨h.1, h.2.1⟩
        have hn3 : ¬(spot = normalizeSpotMarketKey sdk key ∧ text = side.str ∧
            (price.toUInt64 = e.1 ∨ price.toUInt64 ∈ entries.keys)) := fun h => h1 ⟨h.1, h.2.1⟩
        rw [if_neg hn1, if_neg hn2, if_neg hn3]

theorem apply_dropSide (key : String) (side : OrderSide) (resting : Dict UInt64 UInt64)
    (w : TableWrites LevelKey Int64) (k : LevelKey) :
    (dropSide sdk key side resting w).apply levelRows k =
      if k.1 = normalizeSpotMarketKey sdk key ∧ k.2.1 = side.str ∧ k.2.2.toUInt64 ∈ resting
      then none else w.apply levelRows k := by
  obtain ⟨spot, text, price⟩ := k
  refine (apply_dropEntries key side resting.entries w text price spot).trans ?_
  exact if_congr Iff.rfl rfl rfl

variable (sdk) (levelRows) in
theorem apply_loadSide (key : String) (side : OrderSide) (chainLevels : List ChainLevel)
    (acc : Dict UInt64 UInt64 × TableWrites LevelKey Int64)
    (hacc : ∀ price, acc.2.apply levelRows (normalizeSpotMarketKey sdk key, side.str, price) =
      (acc.1.lookup price.toUInt64).bind positiveRow) :
    (∀ price, (loadSide sdk key side chainLevels acc).2.apply levelRows
        (normalizeSpotMarketKey sdk key, side.str, price) =
      ((loadSide sdk key side chainLevels acc).1.lookup price.toUInt64).bind positiveRow) ∧
    ∀ k : LevelKey, ¬(k.1 = normalizeSpotMarketKey sdk key ∧ k.2.1 = side.str) →
      (loadSide sdk key side chainLevels acc).2.apply levelRows k = acc.2.apply levelRows k := by
  induction chainLevels generalizing acc with
  | nil => exact ⟨hacc, fun _ _ => rfl⟩
  | cons level chainLevels ih =>
      unfold loadSide at ih ⊢
      rw [List.foldl_cons]
      by_cases h0 : level.totalQuantity = 0
      · rw [if_pos h0]
        exact ih acc hacc
      rw [if_neg h0]
      have hstep : ∀ price, (storeBookLevel sdk key side.str level.price.toInt64
          level.totalQuantity.toInt64 acc.2).apply levelRows
          (normalizeSpotMarketKey sdk key, side.str, price) =
          ((acc.1.insert level.price level.totalQuantity).lookup price.toUInt64).bind
            positiveRow := by
        intro price
        rw [apply_storeBookLevel, Dict.lookup_insert_ite]
        by_cases hp : price.toUInt64 = level.price
        · have hprice : price = level.price.toInt64 := by rw [← hp]; rfl
          rw [if_pos hp, hprice, Function.update_self]
          rfl
        · have hne : (normalizeSpotMarketKey sdk key, side.str, price) ≠
              (normalizeSpotMarketKey sdk key, side.str, level.price.toInt64) := by
            intro heq
            simp only [Prod.mk.injEq, true_and] at heq
            exact hp (by rw [heq]; rfl)
          rw [if_neg hp, Function.update_of_ne hne, hacc]
      obtain ⟨hself, hother⟩ := ih (acc.1.insert level.price level.totalQuantity,
        storeBookLevel sdk key side.str level.price.toInt64 level.totalQuantity.toInt64 acc.2) hstep
      refine ⟨hself, fun k hk => ?_⟩
      rw [hother k hk, apply_storeBookLevel, Function.update_of_ne]
      intro heq
      exact hk (by rw [heq]; exact ⟨rfl, rfl⟩)

private theorem apply_dropBoth (h : t.Synced sdk levelRows metaRows) {key : String}
    (hkey : normalizeSpotMarketKey sdk key = key) (k : LevelKey) :
    (dropSide sdk key .sell (t.books.shard key).asks
      (dropSide sdk key .buy (t.books.shard key).bids t.levels)).apply levelRows k =
      if k.1 = key then none else t.levels.apply levelRows k := by
  obtain ⟨spot, text, price⟩ := k
  rw [apply_dropSide, apply_dropSide, hkey]
  dsimp only
  by_cases hspot : spot = key
  · subst hspot
    rw [if_pos rfl, h.levels, Books.levelView_apply]
    dsimp only
    -- a row that neither side drops was not there
    split_ifs with hsell hbuy
    · rfl
    · rfl
    · unfold bookLevelView
      cases hside : OrderSide.parse text with
      | none => rfl
      | some side =>
          rw [OrderSide.parse_eq_some_iff] at hside
          have habsent : (SpotBook.levels (t.books.shard spot) side).lookup price.toUInt64 =
              none := by
            rw [AList.lookup_eq_none]
            intro hmem
            cases side with
            | buy => exact hbuy ⟨rfl, hside, hmem⟩
            | sell => exact hsell ⟨rfl, hside, hmem⟩
          rw [Option.bind_some, habsent]
          rfl
  · simp [hspot]

theorem synced_hydrateFromChain (lawful : LawfulSdk sdk) (h : t.Synced sdk levelRows metaRows)
    (spotMarket : String) (chainBook : GetOrderBook) (lastTradePrice : Option UInt64) :
    (t.hydrateFromChain sdk spotMarket chainBook lastTradePrice).Synced sdk levelRows
      metaRows := by
  unfold hydrateFromChain
  dsimp only
  have hnorm := normalize_normalize lawful spotMarket
  generalize normalizeSpotMarketKey sdk spotMarket = key at hnorm ⊢
  have hdrop := apply_dropBoth h hnorm
  have hsides : OrderSide.str .sell ≠ OrderSide.str .buy := by decide
  generalize dropSide sdk key .sell (t.books.shard key).asks
    (dropSide sdk key .buy (t.books.shard key).bids t.levels) = dropped at hdrop ⊢
  have hbids := apply_loadSide sdk levelRows key .buy chainBook.bestBids
    (∅, dropped) (fun price => by rw [hnorm, hdrop, if_pos rfl]; rfl)
  generalize loadSide sdk key .buy chainBook.bestBids (∅, dropped) = bids at hbids ⊢
  have hasks := apply_loadSide sdk levelRows key .sell chainBook.bestAsks
    (∅, bids.2) (fun price => by
      rw [hbids.2 _ (fun hk => hsides hk.2), hnorm, hdrop, if_pos rfl]
      rfl)
  generalize loadSide sdk key .sell chainBook.bestAsks (∅, bids.2) = asks at hasks ⊢
  rw [hnorm] at hbids hasks
  refine synced_setShard h hnorm ?_ ?_
  · intro text price
    unfold bookLevelView
    cases hside : OrderSide.parse text with
    | none =>
        have hne : ∀ side : OrderSide, text ≠ side.str := by
          intro side htext
          rw [htext, OrderSide.parse_str] at hside
          cases hside
        rw [hasks.2 _ (fun hk => hne _ hk.2), hbids.2 _ (fun hk => hne _ hk.2), hdrop,
          if_pos rfl]
        rfl
    | some side =>
        rw [OrderSide.parse_eq_some_iff] at hside
        subst hside
        cases side with
        | buy =>
            rw [hasks.2 _ (fun hk => hsides.symm hk.2), hbids.1]
            rfl
        | sell =>
            rw [hasks.1]
            rfl
  · intro k hk
    rw [hasks.2 k (fun hk' => hk hk'.1), hbids.2 k (fun hk' => hk hk'.1), hdrop, if_neg hk]

end BookTx

end ClobIndexer
