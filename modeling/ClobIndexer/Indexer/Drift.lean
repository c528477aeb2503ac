import ClobIndexer.Http.IndexFromEvent
import ClobIndexer.Http.MarkCancelled
import ClobIndexer.Indexer.BookRows
import ClobIndexer.Indexer.Recovery
/-!
# The live index beside its store

Between two blocks the index is also changed by the startup hydration of
`run_once`, by readers and subscribers of a book, and by the two order requests.
None of them has a write set.  The write set of the next block holds the rows of
that block only, so the store keeps up exactly when the block happens to write
every row that was changed outside.
-/

namespace ClobIndexer

open Lib

/-- What changes the index between two blocks. -/
inductive OutsideStep where
  | hydrateAll
  | getBook (spotMarket : String)
  | subscribeBook (spotMarket : String)
  | markCancelled (orderId : Uuid) (userAddress : String)
  | indexFromEvent (request : IndexFromEventRequest)

def OutsideStep.run (env : Env) (c : Ctx) : OutsideStep → Ctx
  | hydrateAll => c.hydrateAllSpotMarkets env
  | getBook spotMarket => c.hydrateSpotFromChain env spotMarket
  | subscribeBook spotMarket => c.hydrateSpotFromChain env spotMarket
  | markCancelled orderId userAddress => (c.markCancelled env orderId userAddress).1
  | indexFromEvent request => request.indexFromEvent env c

structure LiveIndex where
  store : IndexState
  calls : Nat
  tables : IndexTables

inductive LiveStep where
  | outside (step : OutsideStep)
  /-- a live block, with the writing of its write set -/
  | block (opts : ProcessOpts) (prepared : PreparedBlock)

namespace LiveIndex

def ctx (s : LiveIndex) : Ctx := { store := s.store, calls := s.calls }

variable (env : Env)

def step (s : LiveIndex) : LiveStep → LiveIndex
  | .outside step =>
      let c := step.run env s.ctx
      { s with store := c.store, calls := c.calls }
  | .block opts prepared =>
      let c := s.ctx.processPreparedBlock env opts prepared
      ⟨c.store, c.calls, s.tables.applyIndexWriteSet c.ws⟩

def run (steps : List LiveStep) (s : LiveIndex) : LiveIndex := steps.foldl (step env) s

/-- The tables of orders, levels and books equal the full export. -/
structure Agrees (sdk : Sdk) (s : LiveIndex) : Prop where
  orders : s.tables.orders = (s.store.exported sdk).orders
  bookLevels : s.tables.bookLevels = (s.store.exported sdk).bookLevels
  bookMeta : s.tables.bookMeta = (s.store.exported sdk).bookMeta

/-- Each row on which the tables and the index differ when the block begins is
written by the block, and the levels that it writes are left below `2 ^ 63`. -/
structure Rewrites (opts : ProcessOpts) (prepared : PreparedBlock) (s : LiveIndex) : Prop where
  orders : ∀ key, s.tables.orders key = (s.store.exported env.sdk).orders key ∨
    Ctx.TasksWriteOrder env opts prepared.blockNum key (s.ctx.applySerial env opts prepared)
      prepared.markets.entries
  bookLevels : ∀ key,
    match s.ctx.notesBlock env opts (levelWatch key) prepared with
    | none => s.tables.bookLevels key = (s.store.exported env.sdk).bookLevels key
    | some size => size.toNat < 2 ^ 63
  bookMeta : ∀ key, s.tables.bookMeta key = (s.store.exported env.sdk).bookMeta key ∨
    s.ctx.notesBlock env opts (metaWatch key) prepared = some ()

end LiveIndex

variable {env : Env} (lawful : LawfulSdk env.sdk)

/-! ## The index stays well-formed -/

theorem Ctx.Tracks.wellFormed {tables : IndexTables} {c : Ctx} (h : c.Tracks env.sdk tables)
    (hregistry : c.store.registry.WellFormed) : c.store.WellFormed env.sdk :=
  ⟨h.orders.wf, h.books.wf, h.vaults.wf, hregistry, h.lastTradeKeys⟩

section WellFormed

variable {c : Ctx} (hwf : c.store.WellFormed env.sdk) (hws : c.ws = {})

include hwf hws

theorem tracks_of_wellFormed : c.Tracks env.sdk (c.store.viewTables env.sdk) := by
  have hstart := tracks_of_view (c.store.viewTables env.sdk) hwf rfl rfl rfl rfl rfl rfl
  rw [← hws] at hstart
  exact hstart

theorem wellFormed_markCancelled (orderId : Uuid) (userAddress : String) :
    (c.markCancelled env orderId userAddress).1.store.WellFormed env.sdk := by
  unfold Ctx.markCancelled
  split
  · exact hwf
  · rename_i order chainOrderId spotMarket _
    split_ifs
    · exact hwf
    · exact hwf
    · have htracks := Ctx.tracks_onOrders (tracks_of_wellFormed hwf hws)
        fun t ht => OrderTx.synced_updateOrderCancelled ht c.store.tsMs spotMarket chainOrderId
      exact htracks.wellFormed hwf.registry

include lawful

theorem wellFormed_hydrateSpotFromChain (spotMarket : String) :
    (c.hydrateSpotFromChain env spotMarket).store.WellFormed env.sdk := by
  have htracks := Ctx.tracks_hydrateSpotFromChain lawful (tracks_of_wellFormed hwf hws) spotMarket
  have hregistry := (Ctx.booksOnly_hydrateSpotFromChain env c spotMarket).registry
  exact htracks.wellFormed (hregistry ▸ hwf.registry)

theorem wellFormed_request_applyToBook (request : IndexFromEventRequest) (isNew : Bool) :
    (request.applyToBook env isNew c).store.WellFormed env.sdk := by
  unfold IndexFromEventRequest.applyToBook
  split_ifs
  · have htracks := Ctx.tracks_applyOrderCreatedToBook lawful (tracks_of_wellFormed hwf hws) 0
      request.event (request.spotMarket env.sdk) true
    have hregistry : (c.applyOrderCreatedToBook env 0 request.event (request.spotMarket env.sdk)
        true).store.registry = c.store.registry :=
      congrArg RegistryTx.reg (Ctx.regTx_applyOrderCreatedToBook c 0 request.event _ true)
    exact htracks.wellFormed (hregistry ▸ hwf.registry)
  · exact hwf

theorem wellFormed_request_applyToOrders (request : IndexFromEventRequest) :
    (request.applyToOrders env c).store.WellFormed env.sdk := by
  have htracks := Ctx.tracks_indexOrderCreated (tracks_of_wellFormed hwf hws) request.event
    (request.spotMarket env.sdk) (some (request.status, request.filledRaw))
  have hshows : RegistryTx.Lags env.sdk (marketView c.store.registry) (fun _ => False)
      ⟨c.store.registry, .empty⟩ :=
    RegistryTx.lags_of_eq hwf.registry (TableWrites.apply_empty _)
  exact htracks.wellFormed (RegistryTx.lags_resolveSpotMarket lawful hshows _).wf

theorem wellFormed_indexFromEvent (request : IndexFromEventRequest) :
    (request.indexFromEvent env c).store.WellFormed env.sdk := by
  unfold IndexFromEventRequest.indexFromEvent
  dsimp only
  generalize request.isNew env.sdk c = isNew
  have hbook := wellFormed_request_applyToBook lawful hwf hws request isNew
  have hbookWs : (request.applyToBook env isNew c).ws = {} := by
    unfold IndexFromEventRequest.applyToBook
    split_ifs <;> exact hws
  have horders := wellFormed_request_applyToOrders lawful hbook hbookWs request
  unfold IndexFromEventRequest.announce
  split_ifs
  · unfold Ctx.publishUserOrderCreated
    rw [Ctx.store_publishStoredOrder]
    exact horders
  · exact horders

theorem wellFormed_outside (step : OutsideStep) :
    (step.run env c).store.WellFormed env.sdk := by
  cases step with
  | hydrateAll => exact wellFormed_hydrateAllSpotMarkets lawful hwf hws
  | getBook spotMarket => exact wellFormed_hydrateSpotFromChain lawful hwf hws spotMarket
  | subscribeBook spotMarket => exact wellFormed_hydrateSpotFromChain lawful hwf hws spotMarket
  | markCancelled orderId userAddress => exact wellFormed_markCancelled hwf hws orderId userAddress
  | indexFromEvent request => exact wellFormed_indexFromEvent lawful hwf hws request

end WellFormed

namespace LiveIndex

include lawful

theorem wellFormed_step {s : LiveIndex} (hwf : s.store.WellFormed env.sdk) (step : LiveStep) :
    (s.step env step).store.WellFormed env.sdk := by
  cases step with
  | outside step => exact wellFormed_outside (c := s.ctx) lawful hwf rfl step
  | block opts prepared =>
      exact wellFormed_processPreparedBlock (c := s.ctx) lawful hwf opts prepared

theorem wellFormed_run {s : LiveIndex} (hwf : s.store.WellFormed env.sdk) (steps : List LiveStep) :
    (s.run env steps).store.WellFormed env.sdk := by
  unfold run
  induction steps generalizing s with
  | nil => exact hwf
  | cons step steps ih => exact ih (wellFormed_step lawful hwf step)

/-! ## A block and the rows it leaves behind -/

section Block

variable (opts : ProcessOpts) (prepared : PreparedBlock) {s : LiveIndex}
  (hwf : s.store.WellFormed env.sdk)

include hwf

theorem bookLevels_rewritten_iff :
    (s.ctx.processPreparedBlock env opts prepared).ws.bookLevels.apply s.tables.bookLevels =
      ((s.ctx.processPreparedBlock env opts prepared).store.exported env.sdk).bookLevels ↔
    ∀ key,
      match s.ctx.notesBlock env opts (levelWatch key) prepared with
      | none => s.tables.bookLevels key = (s.store.exported env.sdk).bookLevels key
      | some size => size.toNat < 2 ^ 63 := by
  have hwf' := (wellFormed_processPreparedBlock (c := s.ctx) lawful hwf opts prepared).books
  rw [exported_levels hwf', exported_levels hwf.books, funext_iff]
  refine forall_congr' fun key => ?_
  have hmoved := (traces_levelWatch env.sdk lawful key).block opts s.ctx prepared
  have hpending := hmoved.pending s.tables.bookLevels
  have hexported := hmoved.exported
  dsimp only [Ctx.bookTx] at hpending hexported
  rw [hpending, hexported, TableWrites.apply_empty]
  cases s.ctx.notesBlock env opts (levelWatch key) prepared with
  | none => exact Iff.rfl
  | some size => exact eq_comm.trans (castRow_eq_positiveRow_iff size)

theorem bookMeta_rewritten_iff :
    (s.ctx.processPreparedBlock env opts prepared).ws.bookMeta.apply s.tables.bookMeta =
      ((s.ctx.processPreparedBlock env opts prepared).store.exported env.sdk).bookMeta ↔
    ∀ key, s.tables.bookMeta key = (s.store.exported env.sdk).bookMeta key ∨
      s.ctx.notesBlock env opts (metaWatch key) prepared = some () := by
  have htracks := Ctx.tracks_processPreparedBlock (c := s.ctx) lawful
    (tracks_of_wellFormed (c := s.ctx) hwf rfl) opts prepared
  rw [exported_bookMeta htracks.books.wf, ← htracks.books.metas, TableWrites.apply_eq_apply_iff,
    exported_bookMeta hwf.books]
  refine forall_congr' fun key => or_congr_right ?_
  have htouches := (traces_metaWatch env.sdk lawful key).block opts s.ctx prepared
  dsimp only [Ctx.bookTx] at htouches
  rw [htouches, or_iff_right (TableWrites.not_touches_empty key)]

/-- The tables equal the export after a block exactly when the block rewrites what
differed before it. -/
theorem agrees_block_iff :
    (s.step env (.block opts prepared)).Agrees env.sdk ↔ s.Rewrites env opts prepared := by
  have hfull := (Ctx.tracks_processPreparedBlock (c := s.ctx) lawful
    (tracks_of_wellFormed (c := s.ctx) hwf rfl) opts prepared).incremental
  have horders := orders_refreshed_iff (c := s.ctx) lawful opts prepared hwf s.tables
  have hlevels := bookLevels_rewritten_iff lawful opts prepared hwf
  have hmetas := bookMeta_rewritten_iff lawful opts prepared hwf
  have hbase : (if (s.ctx.processPreparedBlock env opts prepared).ws.fullReplace = true then
      IndexTables.empty else s.tables) = s.tables := by
    rw [hfull]
    rfl
  unfold step IndexTables.applyIndexWriteSet
  simp only [hbase]
  constructor
  · intro h
    exact ⟨horders.mp h.orders, hlevels.mp h.bookLevels, hmetas.mp h.bookMeta⟩
  · intro h
    exact ⟨horders.mpr h.orders, hlevels.mpr h.bookLevels, hmetas.mpr h.bookMeta⟩

end Block

/-- Along every run, whatever the tables are at its start, the tables equal the
export right after each block exactly when each block rewrites every row on which
the steps before it have left them different. -/
theorem agrees_run_iff (s : LiveIndex) (hwf : s.store.WellFormed env.sdk) (steps : List LiveStep) :
    (∀ before opts prepared after, steps = before ++ .block opts prepared :: after →
        (s.run env (before ++ [.block opts prepared])).Agrees env.sdk) ↔
      ∀ before opts prepared after, steps = before ++ .block opts prepared :: after →
        (s.run env before).Rewrites env opts prepared := by
  refine forall_congr' fun before => forall_congr' fun opts => forall_congr' fun prepared =>
    forall_congr' fun after => imp_congr_right fun _ => ?_
  have hrun : s.run env (before ++ [.block opts prepared]) =
      (s.run env before).step env (.block opts prepared) := by
    unfold run
    rw [List.foldl_append]
    rfl
  rw [hrun]
  exact agrees_block_iff lawful opts prepared (wellFormed_run lawful hwf before)

end LiveIndex

namespace Sample

def freshIndex : LiveIndex := ⟨{}, 0, IndexTables.empty⟩

theorem agrees_freshIndex : freshIndex.Agrees setting.sdk := ⟨rfl, rfl, rfl⟩

def placingBlock : PreparedBlock where
  blockNum := 8
  blockDigest := "08"
  txCount := 1
  block := ⟨8, "08", 100, []⟩
  markets := AList.insert market
    [.created ⟨"1", .buy, 10, account, market, .limit 500000, none⟩] ∅
  unmapped := []

def cancelledBetween : List LiveStep :=
  [.block {} placingBlock, .outside (.markCancelled (orderUuid sdk market "1") account),
    .block {} quietBlock]

theorem agrees_cancelledBetween_iff :
    freshIndex.Agrees setting.sdk ∧
      ((∀ before opts prepared after, cancelledBetween = before ++ .block opts prepared :: after →
          (freshIndex.run setting (before ++ [.block opts prepared])).Agrees setting.sdk) ↔
        ∀ before opts prepared after, cancelledBetween = before ++ .block opts prepared :: after →
          (freshIndex.run setting before).Rewrites setting opts prepared) :=
  ⟨agrees_freshIndex, LiveIndex.agrees_run_iff lawful freshIndex
    (IndexState.wellFormed_empty setting.sdk) cancelledBetween⟩

/-- The request is acknowledged, but the row of the order is still there after the
next block. -/
theorem cancelledBetween_drifts :
    freshIndex.Agrees setting.sdk ∧
      ((freshIndex.run setting [.block {} placingBlock]).ctx.markCancelled setting
        (orderUuid sdk market "1") account).2 = .ok () ∧
      ¬∀ before opts prepared after, cancelledBetween = before ++ .block opts prepared :: after →
        (freshIndex.run setting (before ++ [.block opts prepared])).Agrees setting.sdk := by
  refine ⟨agrees_freshIndex, ?_, ?_⟩
  · decide +kernel
  · intro h
    have hagrees := h
      [.block {} placingBlock, .outside (.markCancelled (orderUuid sdk market "1") account)]
      {} quietBlock [] rfl
    have hrow := congrFun hagrees.orders (orderUuid sdk market "1").toString
    revert hrow
    decide +kernel

end Sample

end ClobIndexer
