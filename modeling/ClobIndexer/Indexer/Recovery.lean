import ClobIndexer.Indexer.Completeness
import ClobIndexer.Indexer.RowsWritten
import ClobIndexer.Persist.BlockStore
/-!
# Recovery and the tables it leaves behind

`recover_from_persist` of `src/indexer/mod.rs` loads the snapshot and replays the
blocks saved after it.  The replay goes through `process_block`, which discards
the write set, so the tables stay at the snapshot.  The next live block writes
only its own rows, and its head covers for the replayed blocks too: the tables
are right exactly when that block rewrites every row that the replay has changed.
-/

namespace ClobIndexer

open Lib

/-- The tables of orders, vaults and holdings equal the full export, under the
head of the given block. -/
structure IndexTables.TellsTruth (sdk : Sdk) (t : IndexTables) (s : IndexState)
    (blockNum : UInt64) (digest : String) : Prop where
  head : t.head = some (blockNum, digest)
  orders : t.orders = (s.exported sdk).orders
  vaults : t.vaults = (s.exported sdk).vaults
  vaultPortfolio : t.vaultPortfolio = (s.exported sdk).vaultPortfolio

variable {env : Env}

section Recovery

variable (env)
/- `decode_block_payload`: `bincode`, then `serde_json`. -/
variable (decodeBlockPayload : UInt64 → List UInt8 → Option ReceiptBlock)

def replayBlock (s : Ctx × Option (UInt64 × String)) (row : BlockRow) :
    Option (Ctx × Option (UInt64 × String)) := do
  let block ← decodeBlockPayload row.blockNum row.payload
  return (s.1.processBlock env .quiet block, some (row.blockNum, row.digest))

/-- `recover_from_persist` from the loaded snapshot on; `none` when a payload does
not decode. -/
def recoverFromPersist (snapshot : Option (UInt64 × String)) (blocks : List BlockRow) (c : Ctx) :
    Option (Ctx × Option (UInt64 × String)) :=
  blocks.foldlM (replayBlock env decodeBlockPayload) (c, snapshot)

end Recovery

namespace Ctx

variable (env) in
/-- Each row on which the snapshot and the index differ is written by the block,
and the holdings it sets are below `2 ^ 63`. -/
structure Refreshed (opts : ProcessOpts) (prepared : PreparedBlock) (snapshot : IndexState)
    (c : Ctx) : Prop where
  orders : ∀ key, (snapshot.exported env.sdk).orders key = (c.store.exported env.sdk).orders key ∨
    TasksWriteOrder env opts prepared.blockNum key (c.applySerial env opts prepared)
      prepared.markets.entries
  vaults : ∀ key, (snapshot.exported env.sdk).vaults key = (c.store.exported env.sdk).vaults key ∨
    GlobalsWriteVault env key (c.beginBlock prepared.block) prepared.block.globalEvents
  holdings : ∀ key,
    match tasksLastHolding env opts prepared.blockNum key (c.applySerial env opts prepared)
      prepared.markets.entries with
    | none => (snapshot.exported env.sdk).vaultPortfolio key =
        (c.store.exported env.sdk).vaultPortfolio key
    | some amount => amount.toNat < 2 ^ 63

end Ctx

/-! ## What the replay keeps -/

theorem wellFormed_processBlock (lawful : LawfulSdk env.sdk) {c : Ctx}
    (hwf : c.store.WellFormed env.sdk) (opts : ProcessOpts) (block : ReceiptBlock) :
    (c.processBlock env opts block).store.WellFormed env.sdk :=
  wellFormed_processPreparedBlock lawful hwf opts (prepareBlock env.sdk c.store block)

theorem recoverFromPersist_keeps {P : Ctx → Prop}
    (hblock : ∀ c block, P c → P (c.processBlock env .quiet block))
    {decodeBlockPayload : UInt64 → List UInt8 → Option ReceiptBlock} (blocks : List BlockRow)
    {snapshot : Option (UInt64 × String)} {c : Ctx} (hc : P c)
    {r : Ctx × Option (UInt64 × String)}
    (h : recoverFromPersist env decodeBlockPayload snapshot blocks c = some r) : P r.1 := by
  unfold recoverFromPersist at h
  induction blocks generalizing c snapshot with
  | nil =>
      cases h
      exact hc
  | cons row blocks ih =>
      rw [List.foldlM_cons] at h
      unfold replayBlock at h
      cases hdecode : decodeBlockPayload row.blockNum row.payload with
      | none =>
          rw [hdecode] at h
          cases h
      | some block =>
          rw [hdecode] at h
          exact ih (hblock c block hc) h

theorem wellFormed_hydrateAllSpotMarkets (lawful : LawfulSdk env.sdk) {c : Ctx}
    (hwf : c.store.WellFormed env.sdk) (hws : c.ws = {}) :
    (c.hydrateAllSpotMarkets env).store.WellFormed env.sdk := by
  have hstart := tracks_of_view (c.store.viewTables env.sdk) hwf rfl rfl rfl rfl rfl rfl
  rw [← hws] at hstart
  have htracks := Ctx.tracks_hydrateAllSpotMarkets lawful hstart
  have hregistry : (c.hydrateAllSpotMarkets env).store.registry = c.store.registry :=
    congrArg RegistryTx.reg (Ctx.regTx_hydrateAllSpotMarkets c)
  exact ⟨htracks.orders.wf, htracks.books.wf, htracks.vaults.wf, hregistry ▸ hwf.registry,
    htracks.lastTradeKeys⟩

/-- After the replay and the startup hydration the index is well-formed. -/
theorem wellFormed_recovered (lawful : LawfulSdk env.sdk)
    {decodeBlockPayload : UInt64 → List UInt8 → Option ReceiptBlock} {blocks : List BlockRow}
    {snapshot : Option (UInt64 × String)} (s : Index env.sdk) (calls : Nat)
    {r : Ctx × Option (UInt64 × String)}
    (h : recoverFromPersist env decodeBlockPayload snapshot blocks (s.ctx calls) = some r) :
    (r.1.hydrateAllSpotMarkets env).store.WellFormed env.sdk := by
  have hwf := recoverFromPersist_keeps (P := fun c => c.store.WellFormed env.sdk)
    (fun _ block hwf => wellFormed_processBlock lawful hwf .quiet block) blocks s.wf h
  have hws := recoverFromPersist_keeps (P := fun c => c.ws = {}) (fun _ _ hws => hws) blocks
    (c := s.ctx calls) rfl h
  exact wellFormed_hydrateAllSpotMarkets lawful hwf hws

/-! ## The first live block after a replay -/

section FirstLive

variable (lawful : LawfulSdk env.sdk) (opts : ProcessOpts) (prepared : PreparedBlock) {c : Ctx}
  (hwf : c.store.WellFormed env.sdk) (tables : IndexTables)

include lawful hwf

theorem orders_refreshed_iff :
    (c.processPreparedBlock env opts prepared).ws.orders.apply tables.orders =
      ((c.processPreparedBlock env opts prepared).store.exported env.sdk).orders ↔
    ∀ key, tables.orders key = (c.store.exported env.sdk).orders key ∨
      Ctx.TasksWriteOrder env opts prepared.blockNum key (c.applySerial env opts prepared)
        prepared.markets.entries := by
  have hstart := tracks_of_view (c.store.viewTables env.sdk) hwf rfl rfl rfl rfl rfl rfl
  have htracks := Ctx.tracks_processPreparedBlock lawful hstart opts prepared
  have htouch := Ctx.touches_orders_processPreparedBlock env opts lawful prepared hstart
  rw [exported_orders htracks.orders.wf, ← htracks.orders.eq, TableWrites.apply_eq_apply_iff,
    exported_orders hwf.orders]
  exact forall_congr' fun key => or_congr_right (htouch key)

theorem vaults_refreshed_iff :
    (c.processPreparedBlock env opts prepared).ws.vaults.apply tables.vaults =
      ((c.processPreparedBlock env opts prepared).store.exported env.sdk).vaults ↔
    ∀ key, tables.vaults key = (c.store.exported env.sdk).vaults key ∨
      Ctx.GlobalsWriteVault env key (c.beginBlock prepared.block) prepared.block.globalEvents := by
  have hstart := tracks_of_view (c.store.viewTables env.sdk) hwf rfl rfl rfl rfl rfl rfl
  have htracks := Ctx.tracks_processPreparedBlock lawful hstart opts prepared
  have htouch := Ctx.touches_vaults_processPreparedBlock env opts lawful prepared hstart
  rw [exported_vaults htracks.vaults.wf, ← htracks.vaults.vaults, TableWrites.apply_eq_apply_iff,
    exported_vaults hwf.vaults]
  exact forall_congr' fun key => or_congr_right (htouch key)

theorem holdings_refreshed_iff :
    (c.processPreparedBlock env opts prepared).ws.vaultPortfolio.apply tables.vaultPortfolio =
      ((c.processPreparedBlock env opts prepared).store.exported env.sdk).vaultPortfolio ↔
    ∀ key,
      match Ctx.tasksLastHolding env opts prepared.blockNum key (c.applySerial env opts prepared)
        prepared.markets.entries with
      | none => tables.vaultPortfolio key = (c.store.exported env.sdk).vaultPortfolio key
      | some amount => amount.toNat < 2 ^ 63 := by
  have hwf' := (wellFormed_processPreparedBlock lawful hwf opts prepared).vaults
  rw [exported_holdings hwf', exported_holdings hwf.vaults, funext_iff]
  refine forall_congr' fun key => ?_
  have hmoved : Ctx.HoldingMoved tables.vaultPortfolio key _ _ _ :=
    Ctx.moved_processPreparedBlock env opts lawful prepared c
  have hempty : ({} : IndexWriteSet).vaultPortfolio.apply tables.vaultPortfolio =
    tables.vaultPortfolio := TableWrites.apply_empty _
  rw [hmoved.pending, hmoved.exported]
  dsimp only
  rw [hempty]
  cases Ctx.tasksLastHolding env opts prepared.blockNum key (c.applySerial env opts prepared)
    prepared.markets.entries with
  | none => exact Iff.rfl
  | some amount => exact eq_comm.trans (castRow_eq_positiveRow_iff amount)

end FirstLive

/-- After a restart the first live block leaves the tables equal to the full
export exactly when it writes every row that the replay has changed. -/
theorem Index.tellsTruth_iff (lawful : LawfulSdk env.sdk)
    (decodeBlockPayload : UInt64 → List UInt8 → Option ReceiptBlock) (s : Index env.sdk)
    (calls : Nat) (tables : IndexTables) (blockNum : UInt64) (digest : String)
    (htables : tables.TellsTruth env.sdk s.state blockNum digest) (blocks : List BlockRow)
    (r : Ctx × Option (UInt64 × String))
    (hrecover : recoverFromPersist env decodeBlockPayload (some (blockNum, digest)) blocks
      (s.ctx calls) = some r)
    (opts : ProcessOpts) (prepared : PreparedBlock) :
    (tables.applyIndexWriteSet
        ((r.1.hydrateAllSpotMarkets env).processPreparedBlock env opts prepared).ws).TellsTruth
      env.sdk ((r.1.hydrateAllSpotMarkets env).processPreparedBlock env opts prepared).store
      prepared.blockNum prepared.blockDigest ↔
    Ctx.Refreshed env opts prepared s.state (r.1.hydrateAllSpotMarkets env) := by
  have hwf := wellFormed_recovered lawful s calls hrecover
  generalize r.1.hydrateAllSpotMarkets env = c at hwf ⊢
  have hfull : (c.processPreparedBlock env opts prepared).ws.fullReplace = false :=
    (Ctx.tracks_processPreparedBlock lawful
      (tracks_of_view (c.store.viewTables env.sdk) hwf rfl rfl rfl rfl rfl rfl) opts
      prepared).incremental
  have horders := orders_refreshed_iff lawful opts prepared hwf tables
  have hvaults := vaults_refreshed_iff lawful opts prepared hwf tables
  have hholdings := holdings_refreshed_iff lawful opts prepared hwf tables
  have hbase : (if (c.processPreparedBlock env opts prepared).ws.fullReplace = true then
      IndexTables.empty else tables) = tables := by
    rw [hfull]
    rfl
  unfold IndexTables.applyIndexWriteSet
  simp only [hbase]
  rw [htables.orders] at horders ⊢
  rw [htables.vaults] at hvaults ⊢
  rw [htables.vaultPortfolio] at hholdings ⊢
  constructor
  · intro h
    exact ⟨horders.mp h.orders, hvaults.mp h.vaults, hholdings.mp h.vaultPortfolio⟩
  · intro h
    exact ⟨rfl, horders.mpr h.orders, hvaults.mpr h.vaults, hholdings.mpr h.holdings⟩

namespace Sample

def decodeVaultBlock (blockNum : UInt64) : List UInt8 → Option ReceiptBlock
  | [1] => some ⟨blockNum, "08", 100,
      [⟨true, account, [⟨.global (.vaultCreated ⟨vault, "Alpha", account, "usd", "alpha"⟩), none⟩]⟩]⟩
  | _ => none

def replayed : Option (Ctx × Option (UInt64 × String)) :=
  recoverFromPersist setting decodeVaultBlock (some (7, "07")) [⟨8, "08", [1]⟩]
    ((Index.empty setting.sdk).ctx 0)

def quietBlock : PreparedBlock where
  blockNum := 9
  blockDigest := "09"
  txCount := 0
  block := ⟨9, "09", 101, []⟩
  markets := ∅
  unmapped := []

def tablesAtSeven : IndexTables := { IndexTables.empty with head := some (7, "07") }

theorem isSome_replayed : replayed.isSome := by decide +kernel

def recovered : Ctx × Option (UInt64 × String) := replayed.get isSome_replayed

theorem tellsTruth_empty :
    tablesAtSeven.TellsTruth setting.sdk (Index.empty setting.sdk).state 7 "07" :=
  ⟨rfl, rfl, rfl, rfl⟩

theorem tellsTruth_replayed_iff :
    (tablesAtSeven.applyIndexWriteSet
        ((recovered.1.hydrateAllSpotMarkets setting).processPreparedBlock setting {}
          quietBlock).ws).TellsTruth
      setting.sdk ((recovered.1.hydrateAllSpotMarkets setting).processPreparedBlock setting {}
        quietBlock).store 9 "09" ↔
    Ctx.Refreshed setting {} quietBlock (Index.empty setting.sdk).state
      (recovered.1.hydrateAllSpotMarkets setting) :=
  Index.tellsTruth_iff lawful decodeVaultBlock (Index.empty setting.sdk) 0 tablesAtSeven 7 "07"
    tellsTruth_empty [⟨8, "08", [1]⟩] recovered (Option.some_get isSome_replayed).symm {} quietBlock

/-- The vault of the replayed block has no row, under the head of a later block. -/
theorem replayedVault_missing :
    tablesAtSeven.TellsTruth setting.sdk (Index.empty setting.sdk).state 7 "07" ∧
      replayed = some recovered ∧
      ¬(tablesAtSeven.applyIndexWriteSet
          ((recovered.1.hydrateAllSpotMarkets setting).processPreparedBlock setting {}
            quietBlock).ws).TellsTruth
        setting.sdk ((recovered.1.hydrateAllSpotMarkets setting).processPreparedBlock setting {}
          quietBlock).store 9 "09" := by
  refine ⟨tellsTruth_empty, (Option.some_get isSome_replayed).symm, ?_⟩
  intro h
  have hrow := congrFun h.vaults (vaultUuid setting.sdk vault).toString
  revert hrow
  decide +kernel

end Sample

end ClobIndexer
