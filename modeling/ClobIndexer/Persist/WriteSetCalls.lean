import ClobIndexer.Persist.IndexWriteSet
/-!
# Write sets by calls

The `store_*` and `delete_*` methods of `IndexWriteSet`, as calls that a write set
collects, and what each call says of the tables by itself.  The batch of a set does to
the tables what the calls do one by one, and the batch of a merged set what the two
batches do in turn.
-/

namespace ClobIndexer

open Lib

inductive WriteCall where
  | storeMarket (market : Market)
  | deleteMarket (marketId : String)
  | storeOrder (row : OrderRow)
  | deleteOrder (orderId : String)
  | storeBookLevel (spot side : String) (priceRaw sizeRaw : Int64)
  | deleteBookLevel (spot side : String) (priceRaw : Int64)
  | storeBookMeta (spot : String) (row : BookMetaRow)
  | storeLastTrade (spot : String) (price : Int64)
  | storeVault (vault : Vault)
  | storeVaultPortfolio (vaultId spot : String) (amount : Int64)

namespace WriteCall

variable (sdk : Sdk)

def collect (ws : IndexWriteSet) : WriteCall → IndexWriteSet
  | storeMarket market => { ws with markets := ClobIndexer.storeMarket market ws.markets }
  | deleteMarket marketId => { ws with markets := ClobIndexer.deleteMarket marketId ws.markets }
  | storeOrder row => { ws with orders := ClobIndexer.storeOrder row ws.orders }
  | deleteOrder orderId => { ws with orders := ClobIndexer.deleteOrder orderId ws.orders }
  | storeBookLevel spot side priceRaw sizeRaw =>
      { ws with
        bookLevels := ClobIndexer.storeBookLevel sdk spot side priceRaw sizeRaw ws.bookLevels }
  | deleteBookLevel spot side priceRaw =>
      { ws with bookLevels := ClobIndexer.deleteBookLevel sdk spot side priceRaw ws.bookLevels }
  | storeBookMeta spot row =>
      { ws with bookMeta := ClobIndexer.storeBookMeta sdk spot row ws.bookMeta }
  | storeLastTrade spot price =>
      { ws with lastTrades := ClobIndexer.storeLastTrade sdk spot price ws.lastTrades }
  | storeVault vault => { ws with vaults := ClobIndexer.storeVault vault ws.vaults }
  | storeVaultPortfolio vaultId spot amount =>
      { ws with
        vaultPortfolio :=
          ClobIndexer.storeVaultPortfolio sdk vaultId spot amount ws.vaultPortfolio }

def perform (t : IndexTables) : WriteCall → IndexTables
  | storeMarket market =>
      { t with markets := Function.update t.markets market.id.toString (some market) }
  | deleteMarket marketId => { t with markets := Function.update t.markets marketId none }
  | storeOrder row => { t with orders := Function.update t.orders row.id (some row) }
  | deleteOrder orderId => { t with orders := Function.update t.orders orderId none }
  | storeBookLevel spot side priceRaw sizeRaw =>
      { t with
        bookLevels := Function.update t.bookLevels (normalizeSpotMarketKey sdk spot, side, priceRaw)
          (if sizeRaw ≤ 0 then none else some sizeRaw) }
  | deleteBookLevel spot side priceRaw =>
      { t with
        bookLevels :=
          Function.update t.bookLevels (normalizeSpotMarketKey sdk spot, side, priceRaw) none }
  | storeBookMeta spot row =>
      { t with
        bookMeta := Function.update t.bookMeta (normalizeSpotMarketKey sdk spot) (some row) }
  | storeLastTrade spot price =>
      { t with
        lastTrades := Function.update t.lastTrades (normalizeSpotMarketKey sdk spot) (some price) }
  | storeVault vault =>
      { t with vaults := Function.update t.vaults vault.id.toString (some (clearPortfolio vault)) }
  | storeVaultPortfolio vaultId spot amount =>
      { t with
        vaultPortfolio := Function.update t.vaultPortfolio
          (vaultId, normalizeSpotMarketKey sdk spot) (if amount ≤ 0 then none else some amount) }

end WriteCall

namespace IndexWriteSet

variable (sdk : Sdk)

def collected (blockNum : UInt64) (digest : String) (calls : List WriteCall) : IndexWriteSet :=
  calls.foldl (WriteCall.collect sdk) { blockNum, digest }

structure Disjoint (ws : IndexWriteSet) : Prop where
  markets : ∀ k ∈ ws.markets.store, k ∉ ws.markets.delete
  orders : ∀ k ∈ ws.orders.store, k ∉ ws.orders.delete
  bookLevels : ∀ k ∈ ws.bookLevels.store, k ∉ ws.bookLevels.delete
  bookMeta : ∀ k ∈ ws.bookMeta.store, k ∉ ws.bookMeta.delete
  lastTrades : ∀ k ∈ ws.lastTrades.store, k ∉ ws.lastTrades.delete
  vaults : ∀ k ∈ ws.vaults.store, k ∉ ws.vaults.delete
  vaultPortfolio : ∀ k ∈ ws.vaultPortfolio.store, k ∉ ws.vaultPortfolio.delete

theorem disjoint (ws : IndexWriteSet) : ws.Disjoint where
  markets := ws.markets.disjoint
  orders := ws.orders.disjoint
  bookLevels := ws.bookLevels.disjoint
  bookMeta := ws.bookMeta.disjoint
  lastTrades := ws.lastTrades.disjoint
  vaults := ws.vaults.disjoint
  vaultPortfolio := ws.vaultPortfolio.disjoint

variable {ws : IndexWriteSet}

@[simp] theorem fullReplace_collect (call : WriteCall) :
    (call.collect sdk ws).fullReplace = ws.fullReplace := by
  cases call <;> rfl

theorem fullReplace_foldl_collect (calls : List WriteCall) :
    (calls.foldl (WriteCall.collect sdk) ws).fullReplace = ws.fullReplace := by
  induction calls generalizing ws with
  | nil => rfl
  | cons call calls ih => rw [List.foldl_cons, ih, fullReplace_collect]

end IndexWriteSet

namespace IndexTables

open IndexWriteSet

variable (sdk : Sdk)

/-- The batch with one more call does what the batch does, and then the call. -/
theorem applyIndexWriteSet_collect (ws : IndexWriteSet) (call : WriteCall) (t : IndexTables) :
    t.applyIndexWriteSet (call.collect sdk ws) = call.perform sdk (t.applyIndexWriteSet ws) := by
  cases call with
  | storeMarket market =>
      simp only [applyIndexWriteSet, WriteCall.collect, WriteCall.perform, storeMarket,
        TableWrites.apply_put]
      rfl
  | deleteMarket marketId =>
      simp only [applyIndexWriteSet, WriteCall.collect, WriteCall.perform, deleteMarket,
        TableWrites.apply_remove]
      rfl
  | storeOrder row =>
      simp only [applyIndexWriteSet, WriteCall.collect, WriteCall.perform, storeOrder,
        TableWrites.apply_put]
      rfl
  | deleteOrder orderId =>
      simp only [applyIndexWriteSet, WriteCall.collect, WriteCall.perform, deleteOrder,
        TableWrites.apply_remove]
      rfl
  | storeBookLevel spot side priceRaw sizeRaw =>
      by_cases hsize : sizeRaw ≤ 0
      · simp only [applyIndexWriteSet, WriteCall.collect, WriteCall.perform, storeBookLevel,
          if_pos hsize, TableWrites.apply_remove]
      · simp only [applyIndexWriteSet, WriteCall.collect, WriteCall.perform, storeBookLevel,
          if_neg hsize, TableWrites.apply_put]
  | deleteBookLevel spot side priceRaw =>
      simp only [applyIndexWriteSet, WriteCall.collect, WriteCall.perform, deleteBookLevel,
        TableWrites.apply_remove]
      rfl
  | storeBookMeta spot row =>
      simp only [applyIndexWriteSet, WriteCall.collect, WriteCall.perform, storeBookMeta,
        TableWrites.apply_put]
      rfl
  | storeLastTrade spot price =>
      simp only [applyIndexWriteSet, WriteCall.collect, WriteCall.perform, storeLastTrade,
        TableWrites.apply_put]
      rfl
  | storeVault vault =>
      simp only [applyIndexWriteSet, WriteCall.collect, WriteCall.perform, storeVault,
        TableWrites.apply_put]
      rfl
  | storeVaultPortfolio vaultId spot amount =>
      by_cases hamount : amount ≤ 0
      · simp only [applyIndexWriteSet, WriteCall.collect, WriteCall.perform, storeVaultPortfolio,
          if_pos hamount, TableWrites.apply_remove]
      · simp only [applyIndexWriteSet, WriteCall.collect, WriteCall.perform, storeVaultPortfolio,
          if_neg hamount, TableWrites.apply_put]

theorem applyIndexWriteSet_foldl_collect (calls : List WriteCall) (ws : IndexWriteSet)
    (t : IndexTables) :
    t.applyIndexWriteSet (calls.foldl (WriteCall.collect sdk) ws) =
      calls.foldl (WriteCall.perform sdk) (t.applyIndexWriteSet ws) := by
  induction calls generalizing ws with
  | nil => rfl
  | cons call calls ih => rw [List.foldl_cons, ih, applyIndexWriteSet_collect, List.foldl_cons]

/-- A set without rows writes its head. -/
theorem applyIndexWriteSet_head (blockNum : UInt64) (digest : String) (t : IndexTables) :
    t.applyIndexWriteSet { blockNum, digest } = { t with head := some (blockNum, digest) } := by
  simp only [applyIndexWriteSet, Bool.false_eq_true, if_false, TableWrites.apply_empty]

/-- The batch of a merged set writes the rows of the two batches in turn, and the head of the
set that was merged into. -/
theorem applyIndexWriteSet_merge {a b : IndexWriteSet} (ha : a.fullReplace = false)
    (hb : b.fullReplace = false) (t : IndexTables) :
    t.applyIndexWriteSet (a.merge b) =
      { (t.applyIndexWriteSet a).applyIndexWriteSet b with head := some (a.blockNum, a.digest) } := by
  simp only [applyIndexWriteSet, IndexWriteSet.merge, ha, hb, Bool.or_self, Bool.false_eq_true,
    if_false, TableWrites.apply_merge]

/-- Write sets compose: a batch is its calls, and a merged batch the two in turn. -/
theorem applyIndexWriteSet_collected (blockNum blockNum' : UInt64) (digest digest' : String)
    (calls calls' : List WriteCall) (t : IndexTables) :
    let a := collected sdk blockNum digest calls
    let b := collected sdk blockNum' digest' calls'
    a.Disjoint ∧ (a.merge b).Disjoint ∧
      t.applyIndexWriteSet a =
        calls.foldl (WriteCall.perform sdk) { t with head := some (blockNum, digest) } ∧
      t.applyIndexWriteSet (a.merge b) =
        { (t.applyIndexWriteSet a).applyIndexWriteSet b with
          head := some (a.blockNum, a.digest) } := by
  intro a b
  refine ⟨a.disjoint, (a.merge b).disjoint, ?_, ?_⟩
  · rw [← applyIndexWriteSet_head]
    exact applyIndexWriteSet_foldl_collect sdk calls _ t
  · exact applyIndexWriteSet_merge (fullReplace_foldl_collect sdk calls)
      (fullReplace_foldl_collect sdk calls') t

end IndexTables

end ClobIndexer
