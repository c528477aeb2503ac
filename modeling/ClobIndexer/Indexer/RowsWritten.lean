import ClobIndexer.Indexer.BlockWrites
import ClobIndexer.Indexer.Steps
/-!
# The rows a block writes

Which rows of `orders`, `vaults` and `vault_portfolio` the write set of a block
stores or deletes, told from its events and the states they find.  An order event
writes the row of an order that it makes hot or finds hot; a fill that leaves its
order open writes a holding; vault events write the vault they name.
-/

namespace ClobIndexer

open Lib

variable {env : Env}

namespace Ctx

/-! ## Rows by event -/

def WritesOrder (sdk : Sdk) (key spotMarket : String) (c : Ctx) : MarketOrderEvent → Prop
  | .created e =>
      c.store.orders.hasChainOrder sdk spotMarket e.orderId = false ∧
        key = (orderUuid sdk spotMarket e.orderId).toString
  | .executed _ => False
  | e => ∃ r, c.store.orders.find sdk spotMarket e.chainOrderId = some r ∧ key = r.1.toString

def fillSets (sdk : Sdk) (key : String × String) (userAddress spotMarket : String)
    (side : OrderSide) (fillAmount : UInt64) (idx : VaultIndex) : Option UInt64 :=
  if fillAmount = 0 then none
  else
    (idx.vaultByAccount.lookup (userKey userAddress)).bind fun vaultId =>
      if key = (vaultId.toString, normalizeSpotMarketKey sdk spotMarket) then
        some (VaultTx.afterFillHolding side fillAmount
          (idx.holding vaultId (normalizeSpotMarketKey sdk spotMarket)))
      else none

/-- The amount to which the order event sets the holding under the key, if it
does: only a fill of an order that stays open reaches the holdings. -/
def holdingWritten (sdk : Sdk) (key : String × String) (spotMarket : String) (c : Ctx) :
    MarketOrderEvent → Option UInt64
  | .filled e _ =>
      if e.isFullyFilled = false ∧ e.remainingAmount ≠ 0 then
        (c.store.orders.find sdk spotMarket e.orderId).bind fun r =>
          fillSets sdk key r.2.userAddress spotMarket e.side e.fillAmount c.store.vaults
      else none
  | _ => none

def NamesVault (key vaultAddress : String) (c : Ctx) : Prop :=
  ∃ id, c.store.vaults.vaultByAddress.lookup (addrKey vaultAddress) = some id ∧
    id ∈ c.store.vaults.vaults ∧ key = id.toString

def WritesVault (env : Env) (key : String) (c : Ctx) : GlobalEvent → Prop
  | .vaultCreated created => key = (vaultOfCreated env created).id.toString
  | .vaultDeposited vault _ => c.NamesVault key vault
  | .vaultWithdrawn vault _ => c.NamesVault key vault
  | .vaultManagerUpdated vault _ => c.NamesVault key vault
  | .vaultDepositPermissionUpdated vault _ => c.NamesVault key vault
  | .vaultClosed vault => c.NamesVault key vault
  | _ => False

/-! ## Events, tasks and blocks -/

section Runs

variable (env) (opts : ProcessOpts) (blockNum : UInt64)

def EventsWriteOrder (key spotMarket : String) : Ctx → List MarketOrderEvent → Prop
  | _, [] => False
  | c, e :: es =>
      c.WritesOrder env.sdk key spotMarket e ∨
        EventsWriteOrder key spotMarket (c.applyMarketOrderEvent env opts blockNum spotMarket e) es

def TasksWriteOrder (key : String) :
    Ctx → List (Sigma fun _ : String => List MarketOrderEvent) → Prop
  | _, [] => False
  | c, task :: tasks =>
      EventsWriteOrder env opts blockNum key task.1 { c with ws := {} } task.2 ∨
        TasksWriteOrder key (c.runMarketTask env opts blockNum task) tasks

def lastHolding (key : String × String) (spotMarket : String) :
    Ctx → List MarketOrderEvent → Option UInt64
  | _, [] => none
  | c, e :: es =>
      (lastHolding key spotMarket
        (c.applyMarketOrderEvent env opts blockNum spotMarket e) es).or
        (c.holdingWritten env.sdk key spotMarket e)

def tasksLastHolding (key : String × String) :
    Ctx → List (Sigma fun _ : String => List MarketOrderEvent) → Option UInt64
  | _, [] => none
  | c, task :: tasks =>
      (tasksLastHolding key (c.runMarketTask env opts blockNum task) tasks).or
        (lastHolding env opts blockNum key task.1 { c with ws := {} } task.2)

def GlobalsWriteVault (key : String) : Ctx → List GlobalEvent → Prop
  | _, [] => False
  | c, e :: es => c.WritesVault env key e ∨ GlobalsWriteVault key (c.applyGlobalEvent env e) es

end Runs

/-! ## One order event -/

/-- The parts of a context that the two order-driven tables are written from. -/
structure SameRows (c d : Ctx) : Prop where
  orders : c.store.orders = d.store.orders
  orderWrites : c.ws.orders = d.ws.orders
  vaults : c.store.vaults = d.store.vaults
  holdingWrites : c.ws.vaultPortfolio = d.ws.vaultPortfolio
  vaultWrites : c.ws.vaults = d.ws.vaults

theorem SameRows.refl (c : Ctx) : SameRows c c := ⟨rfl, rfl, rfl, rfl, rfl⟩

theorem SameRows.trans {a b c : Ctx} (h : SameRows a b) (h' : SameRows b c) : SameRows a c :=
  ⟨h.orders.trans h'.orders, h.orderWrites.trans h'.orderWrites, h.vaults.trans h'.vaults,
    h.holdingWrites.trans h'.holdingWrites, h.vaultWrites.trans h'.vaultWrites⟩

theorem BooksOnly.sameRows {c d : Ctx} (h : BooksOnly c d) : SameRows d c := by
  have horders := congrArg IndexWriteSet.orders h.ws
  have hholdings := congrArg IndexWriteSet.vaultPortfolio h.ws
  have hvaults := congrArg IndexWriteSet.vaults h.ws
  exact ⟨h.orders, horders, h.vaults, hholdings, hvaults⟩

variable (env) (opts : ProcessOpts) (blockNum : UInt64) (spotMarket : String)

theorem sameRows_enter (c : Ctx) (e : MarketOrderEvent) :
    SameRows (c.enter env spotMarket e).1 c := by
  cases e <;> exact ⟨rfl, rfl, rfl, rfl, rfl⟩

theorem sameRows_hydrateFor (skip : Bool) (c : Ctx) (e : MarketOrderEvent) :
    SameRows (c.hydrateFor env spotMarket skip e) c := by
  have hhydrate := (booksOnly_ensureChainHydrated env c spotMarket).sameRows
  cases e with
  | created e =>
      unfold hydrateFor
      dsimp only
      split_ifs
      · exact .refl c
      · exact hhydrate
  | updated e => exact hhydrate
  | filled e txSender => exact hhydrate
  | cancelled e => exact .refl c
  | executed e => exact .refl c

theorem sameRows_applyToBook (skip : Bool) (c : Ctx) (e : MarketOrderEvent) :
    SameRows (c.applyToBook env opts blockNum spotMarket skip e) c := by
  cases e with
  | created e =>
      unfold applyToBook applyOrderCreatedToBook
      dsimp only
      split_ifs
      · exact .refl c
      · split <;> exact ⟨rfl, rfl, rfl, rfl, rfl⟩
  | cancelled e => exact ⟨rfl, rfl, rfl, rfl, rfl⟩
  | updated e => exact ⟨rfl, rfl, rfl, rfl, rfl⟩
  | filled e txSender => exact ⟨rfl, rfl, rfl, rfl, rfl⟩
  | executed e => exact .refl c

def beforeOrders (c : Ctx) (e : MarketOrderEvent) : Ctx × Bool :=
  let (c, skip) := c.enter env spotMarket e
  ((c.hydrateFor env spotMarket skip e).applyToBook env opts blockNum spotMarket skip e, skip)

theorem applyMarketOrderEvent_eq (c : Ctx) (e : MarketOrderEvent) :
    c.applyMarketOrderEvent env opts blockNum spotMarket e =
      let (d, skip) := c.beforeOrders env opts blockNum spotMarket e
      (d.applyToOrders env opts blockNum spotMarket skip e).finish env opts blockNum spotMarket
        skip e :=
  (execs_steps env opts blockNum spotMarket e (c, false)).symm

theorem sameRows_beforeOrders (c : Ctx) (e : MarketOrderEvent) :
    SameRows (c.beforeOrders env opts blockNum spotMarket e).1 c :=
  ((sameRows_applyToBook env opts blockNum spotMarket _ _ e).trans
    (sameRows_hydrateFor env spotMarket _ _ e)).trans (sameRows_enter env spotMarket c e)

end Ctx

namespace OrderTx

variable {sdk : Sdk} {t : OrderTx}

theorem touches_archiveTerminalOrder (tsMs : UInt64) (id : Uuid) (stored : StoredOrder)
    (key : String) :
    (t.archiveTerminalOrder sdk tsMs id stored).writes.Touches key ↔
      t.writes.Touches key ∨ key = id.toString :=
  TableWrites.touches_remove _ _ _

theorem touches_settle (tsMs : UInt64) {id : Uuid} {stored : StoredOrder}
    (hid : stored.order.id = id) (key : String) :
    (t.settle sdk tsMs id stored).writes.Touches key ↔
      t.writes.Touches key ∨ key = id.toString := by
  unfold settle
  split_ifs with hhot
  · rw [← hid]
    exact TableWrites.touches_put _ _ _ _
  · exact touches_archiveTerminalOrder tsMs id stored key

variable (sdk) in
theorem touches_touch (hwf : t.idx.WellFormed) (tsMs : UInt64) (spotMarket chainOrderId : String)
    (change : StoredOrder → StoredOrder) (key : String)
    (hchange : ∀ stored, (change stored).order.id = stored.order.id) :
    (t.touch sdk tsMs spotMarket chainOrderId change).writes.Touches key ↔
      t.writes.Touches key ∨
        ∃ r, t.idx.find sdk spotMarket chainOrderId = some r ∧ key = r.1.toString := by
  unfold touch
  cases hfind : t.idx.find sdk spotMarket chainOrderId with
  | none => simp
  | some r =>
      obtain ⟨id, stored⟩ := r
      have hid := hwf.order_id id stored (OrderIndex.lookup_of_find hfind)
      simp only [Option.some.injEq, exists_eq_left']
      exact touches_settle tsMs ((hchange stored).trans hid) key

theorem touches_insertOrder (tsMs : UInt64) {order : Order}
    (hhot : isHotOrderStatus order.status = true) (user spotMarket chainOrderId : String)
    (sizeRaw filledRaw : UInt64) (key : String) :
    (t.insertOrder sdk tsMs order user spotMarket chainOrderId sizeRaw filledRaw).writes.Touches
        key ↔ t.writes.Touches key ∨ key = order.id.toString := by
  unfold insertOrder
  rw [if_pos hhot]
  exact TableWrites.touches_put _ _ _ _

end OrderTx

namespace Ctx

variable (env) (opts : ProcessOpts) (blockNum : UInt64) (spotMarket : String)

theorem touches_applyToOrders {c : Ctx} (hwf : c.store.orders.WellFormed) (skip : Bool)
    (e : MarketOrderEvent) (key : String)
    (hskip : ∀ created, e = .created created →
      skip = c.store.orders.hasChainOrder env.sdk spotMarket created.orderId) :
    (c.applyToOrders env opts blockNum spotMarket skip e).ws.orders.Touches key ↔
      c.ws.orders.Touches key ∨ c.WritesOrder env.sdk key spotMarket e := by
  have htouch := fun id change => OrderTx.touches_touch env.sdk
    (t := ⟨c.store.orders, c.ws.orders, c.history⟩) hwf c.store.tsMs spotMarket id change key
  cases e with
  | created e =>
      have hskip := hskip e rfl
      unfold applyToOrders WritesOrder
      dsimp only
      split_ifs with h
      · rw [h] at hskip
        rw [← hskip]
        simp
      · rw [Bool.eq_false_iff.mpr h] at hskip
        rw [← hskip]
        simp only [true_and]
        exact OrderTx.touches_insertOrder (t := ⟨c.store.orders, c.ws.orders, c.history⟩) _ rfl _ _ _
          _ _ key
  | cancelled e =>
      have hcancelled := htouch e.orderId OrderTx.cancelled fun _ => rfl
      rw [← OrderTx.updateOrderCancelled_eq_touch] at hcancelled
      exact hcancelled
  | updated e => exact htouch e.orderId (OrderTx.resized _ _) fun _ => rfl
  | filled e txSender => exact htouch e.orderId (OrderTx.afterFill _ _ _) fun _ => rfl
  | executed e =>
      have hindexed : (c.indexMarketOrderExecuted env e spotMarket).1.ws.orders = c.ws.orders :=
        (orders_indexMarketOrderExecuted c spotMarket e).2
      unfold applyToOrders WritesOrder publishExecuted
      dsimp only
      split_ifs <;> simp [publish, hindexed]

theorem sameHoldings_applyToOrders (c : Ctx) (skip : Bool) (e : MarketOrderEvent) :
    (c.applyToOrders env opts blockNum spotMarket skip e).store.vaults = c.store.vaults ∧
      (c.applyToOrders env opts blockNum spotMarket skip e).ws.vaultPortfolio =
        c.ws.vaultPortfolio ∧
      (c.applyToOrders env opts blockNum spotMarket skip e).ws.vaults = c.ws.vaults := by
  cases e with
  | created e =>
      unfold applyToOrders
      dsimp only
      split_ifs <;> exact ⟨rfl, rfl, rfl⟩
  | cancelled e => exact ⟨rfl, rfl, rfl⟩
  | updated e => exact ⟨rfl, rfl, rfl⟩
  | filled e txSender => exact ⟨rfl, rfl, rfl⟩
  | executed e =>
      unfold applyToOrders publishExecuted
      dsimp only
      split_ifs <;> exact ⟨rfl, rfl, rfl⟩

theorem ws_applyVaultFill (c : Ctx) (e : OrderFilledEvent) :
    (c.applyVaultFill env spotMarket e).ws.orders = c.ws.orders ∧
      (c.applyVaultFill env spotMarket e).ws.vaults = c.ws.vaults := by
  unfold applyVaultFill
  split
  · exact ⟨rfl, rfl⟩
  · refine ⟨rfl, ?_⟩
    unfold onVaults VaultTx.applyVaultFillToPortfolio
    dsimp only
    split_ifs
    · rfl
    · split <;> rfl

/-! ## Holdings

A run moves the pending row and the exported row of a holding together, to the
rows of the same amount.  The two rows of an amount differ from `2 ^ 63` on. -/

/-- The rows of the holding under the key, pending and exported, are those of the
amount written, if any. -/
structure HoldingMoved (rows : Table (String × String) Int64) (key : String × String)
    (written : Option UInt64) (c d : Ctx) : Prop where
  pending : d.ws.vaultPortfolio.apply rows key =
    written.elim (c.ws.vaultPortfolio.apply rows key) positiveRow
  exported : holdingView castRow d.store.vaults key =
    written.elim (holdingView castRow c.store.vaults key) castRow

variable {rows : Table (String × String) Int64} {key : String × String}

theorem HoldingMoved.of_eq {c d : Ctx} (hvaults : d.store.vaults = c.store.vaults)
    (hws : d.ws.vaultPortfolio = c.ws.vaultPortfolio) : HoldingMoved rows key none c d :=
  ⟨congrArg (fun w => TableWrites.apply w rows key) hws,
    congrArg (fun idx => holdingView castRow idx key) hvaults⟩

theorem HoldingMoved.trans {c d d' : Ctx} {w w' : Option UInt64}
    (h : HoldingMoved rows key w c d) (h' : HoldingMoved rows key w' d d') :
    HoldingMoved rows key (w'.or w) c d' := by
  cases w' with
  | none => exact ⟨h'.pending.trans h.pending, h'.exported.trans h.exported⟩
  | some amount => exact ⟨h'.pending, h'.exported⟩

theorem moved_applyVaultFillToPortfolio (lawful : LawfulSdk env.sdk) (c : Ctx)
    (userAddress : String) (side : OrderSide) (fillAmount : UInt64) :
    HoldingMoved rows key
      (fillSets env.sdk key userAddress spotMarket side fillAmount c.store.vaults) c
      (c.onVaults fun t =>
        t.applyVaultFillToPortfolio env.sdk userAddress spotMarket side fillAmount) := by
  unfold onVaults VaultTx.applyVaultFillToPortfolio fillSets
  split_ifs with h0
  · exact .of_eq rfl rfl
  dsimp only
  cases hvault : c.store.vaults.vaultByAccount.lookup (userKey userAddress) with
  | none => exact .of_eq rfl rfl
  | some vaultId =>
      rw [Option.bind_some]
      constructor
      · dsimp only
        rw [VaultTx.apply_storeVaultPortfolio, normalize_normalize lawful, Function.update_apply]
        split_ifs <;> rfl
      · dsimp only
        rw [VaultTx.holdingView_setHolding (by rfl), Function.update_apply]
        split_ifs <;> rfl

theorem moved_applyVaultFill (lawful : LawfulSdk env.sdk) (c : Ctx) (e : OrderFilledEvent) :
    HoldingMoved rows key
      ((c.store.orders.find env.sdk spotMarket e.orderId).bind fun r =>
        fillSets env.sdk key r.2.userAddress spotMarket e.side e.fillAmount c.store.vaults) c
      (c.applyVaultFill env spotMarket e) := by
  unfold applyVaultFill OrderIndex.storedOrderByChainId
  cases hfind : c.store.orders.find env.sdk spotMarket e.orderId with
  | none => exact .of_eq rfl rfl
  | some r => exact moved_applyVaultFillToPortfolio env spotMarket lawful c r.2.userAddress _ _

/-- What a fill finds of its order afterwards: nothing once it is completed. -/
theorem bind_find_updateOrderFill {α : Type} (tsMs : UInt64) (e : OrderFilledEvent) (t : OrderTx)
    (f : Uuid × StoredOrder → Option α)
    (hf : ∀ id stored, f (id, OrderTx.afterFill e.fillAmount e.remainingAmount e.isFullyFilled
      stored) = f (id, stored)) :
    ((t.updateOrderFill env.sdk tsMs spotMarket e.orderId e.fillAmount e.remainingAmount
        e.isFullyFilled).idx.find env.sdk spotMarket e.orderId).bind f =
      if e.isFullyFilled = false ∧ e.remainingAmount ≠ 0 then
        (t.idx.find env.sdk spotMarket e.orderId).bind f
      else none := by
  cases hfind : t.idx.find env.sdk spotMarket e.orderId with
  | none =>
      unfold OrderTx.updateOrderFill
      rw [hfind]
      dsimp only
      rw [hfind]
      simp
  | some r =>
      rw [OrderTx.find_updateOrderFill tsMs e.fillAmount e.remainingAmount e.isFullyFilled hfind]
      split_ifs
      · exact hf r.1 r.2
      · rfl

/-- One order event: the fill finds the order as `update_order_fill` leaves it. -/
theorem moved_applyMarketOrderEvent (lawful : LawfulSdk env.sdk) (c : Ctx)
    (e : MarketOrderEvent) :
    HoldingMoved rows key (c.holdingWritten env.sdk key spotMarket e) c
      (c.applyMarketOrderEvent env opts blockNum spotMarket e) := by
  have hbefore := sameRows_beforeOrders env opts blockNum spotMarket c e
  rw [applyMarketOrderEvent_eq]
  generalize c.beforeOrders env opts blockNum spotMarket e = b at hbefore ⊢
  obtain ⟨d, skip⟩ := b
  dsimp only at hbefore ⊢
  obtain ⟨hvaults, hholdings, -⟩ := sameHoldings_applyToOrders env opts blockNum spotMarket d skip e
  obtain ⟨hub, hfinish⟩ := finish_eq env opts blockNum spotMarket
    (d.applyToOrders env opts blockNum spotMarket skip e) skip e
  rw [hfinish]
  have hstep : HoldingMoved rows key none c
      (d.applyToOrders env opts blockNum spotMarket skip e) :=
    .of_eq (hvaults.trans hbefore.vaults) (hholdings.trans hbefore.holdingWrites)
  cases e with
  | created e => exact ⟨hstep.pending, hstep.exported⟩
  | cancelled e => exact ⟨hstep.pending, hstep.exported⟩
  | updated e => exact ⟨hstep.pending, hstep.exported⟩
  | executed e => exact ⟨hstep.pending, hstep.exported⟩
  | filled e txSender =>
      have hfill := hstep.trans (moved_applyVaultFill env spotMarket lawful _ e)
      rw [hvaults, hbefore.vaults, Option.or_none] at hfill
      have hfound := bind_find_updateOrderFill env spotMarket d.store.tsMs e
        ⟨d.store.orders, d.ws.orders, d.history⟩
        (fun r => fillSets env.sdk key r.2.userAddress spotMarket e.side e.fillAmount
          c.store.vaults) fun _ _ => rfl
      unfold holdingWritten
      dsimp only
      rw [← hbefore.orders, ← hfound]
      exact ⟨hfill.pending, hfill.exported⟩

theorem moved_applyMarketOrderEvents (lawful : LawfulSdk env.sdk) (c : Ctx)
    (events : List MarketOrderEvent) :
    HoldingMoved rows key (lastHolding env opts blockNum key spotMarket c events) c
      (c.applyMarketOrderEvents env opts blockNum spotMarket events) := by
  induction events generalizing c with
  | nil => exact .of_eq rfl rfl
  | cons e es ih =>
      exact (moved_applyMarketOrderEvent env opts blockNum spotMarket lawful c e).trans (ih _)

theorem moved_runMarketTask (lawful : LawfulSdk env.sdk) (c : Ctx)
    (task : Sigma fun _ : String => List MarketOrderEvent) :
    HoldingMoved rows key (lastHolding env opts blockNum key task.1 { c with ws := {} } task.2) c
      (c.runMarketTask env opts blockNum task) := by
  have hevents : HoldingMoved (c.ws.vaultPortfolio.apply rows) key _ { c with ws := {} } _ :=
    moved_applyMarketOrderEvents env opts blockNum task.1 lawful { c with ws := {} } task.2
  have hempty : ({} : IndexWriteSet).vaultPortfolio.apply (c.ws.vaultPortfolio.apply rows) =
    c.ws.vaultPortfolio.apply rows := TableWrites.apply_empty _
  constructor
  · have hpending := hevents.pending
    dsimp only at hpending
    rw [hempty] at hpending
    rw [← hpending]
    exact congrFun (TableWrites.apply_merge _ _ _) key
  · exact hevents.exported

theorem moved_marketTasks (lawful : LawfulSdk env.sdk) (c : Ctx)
    (tasks : List (Sigma fun _ : String => List MarketOrderEvent)) :
    HoldingMoved rows key (tasksLastHolding env opts blockNum key c tasks) c
      (tasks.foldl (runMarketTask env opts blockNum) c) := by
  induction tasks generalizing c with
  | nil => exact .of_eq rfl rfl
  | cons task tasks ih =>
      exact (moved_runMarketTask env opts blockNum lawful c task).trans (ih _)

/-! ## Orders -/

theorem touches_applyMarketOrderEvent {c : Ctx} (hwf : c.store.orders.WellFormed)
    (e : MarketOrderEvent) (key : String) :
    (c.applyMarketOrderEvent env opts blockNum spotMarket e).ws.orders.Touches key ↔
      c.ws.orders.Touches key ∨ c.WritesOrder env.sdk key spotMarket e := by
  have hbefore := sameRows_beforeOrders env opts blockNum spotMarket c e
  have hskip : ∀ created, e = .created created →
      (c.beforeOrders env opts blockNum spotMarket e).2 =
        c.store.orders.hasChainOrder env.sdk spotMarket created.orderId := by
    intro created he
    rw [he]
    rfl
  rw [applyMarketOrderEvent_eq]
  generalize c.beforeOrders env opts blockNum spotMarket e = b at hbefore hskip ⊢
  obtain ⟨d, skip⟩ := b
  dsimp only at hbefore hskip ⊢
  rw [← hbefore.orders] at hwf hskip
  have horders := touches_applyToOrders env opts blockNum spotMarket hwf skip e key hskip
  obtain ⟨hub, hfinish⟩ := finish_eq env opts blockNum spotMarket
    (d.applyToOrders env opts blockNum spotMarket skip e) skip e
  have hsettled : ((d.applyToOrders env opts blockNum spotMarket skip e).settled env spotMarket
      e).ws.orders = (d.applyToOrders env opts blockNum spotMarket skip e).ws.orders := by
    cases e with
    | filled e txSender => exact (ws_applyVaultFill env spotMarket _ e).1
    | _ => rfl
  have hwrites : d.WritesOrder env.sdk key spotMarket e ↔ c.WritesOrder env.sdk key spotMarket e := by
    unfold WritesOrder
    rw [hbefore.orders]
  rw [hfinish, ← hbefore.orderWrites, ← hwrites, ← horders]
  dsimp only
  rw [hsettled]

variable {tables : IndexTables}

theorem touches_applyMarketOrderEvents (lawful : LawfulSdk env.sdk) {c : Ctx}
    (h : c.Tracks env.sdk tables) (events : List MarketOrderEvent) (key : String) :
    (c.applyMarketOrderEvents env opts blockNum spotMarket events).ws.orders.Touches key ↔
      c.ws.orders.Touches key ∨ EventsWriteOrder env opts blockNum key spotMarket c events := by
  induction events generalizing c with
  | nil => exact (or_iff_left id).symm
  | cons e es ih =>
      have hstep := touches_applyMarketOrderEvent env opts blockNum spotMarket h.orders.wf e key
      have hrest := ih (tracks_applyMarketOrderEvent lawful h opts blockNum spotMarket e)
      exact hrest.trans ((or_congr_left hstep).trans or_assoc)

theorem touches_runMarketTask (lawful : LawfulSdk env.sdk) {c : Ctx}
    (h : c.Tracks env.sdk tables) (task : Sigma fun _ : String => List MarketOrderEvent)
    (key : String) :
    (c.runMarketTask env opts blockNum task).ws.orders.Touches key ↔
      c.ws.orders.Touches key ∨
        EventsWriteOrder env opts blockNum key task.1 { c with ws := {} } task.2 := by
  have hevents := touches_applyMarketOrderEvents env opts blockNum task.1 lawful
    (tracks_restart h) task.2 key
  have hempty : ¬({} : IndexWriteSet).orders.Touches key := TableWrites.not_touches_empty key
  rw [or_iff_right hempty] at hevents
  rw [← hevents]
  exact TableWrites.touches_merge _ _ key

theorem touches_marketTasks (lawful : LawfulSdk env.sdk) {c : Ctx} (h : c.Tracks env.sdk tables)
    (tasks : List (Sigma fun _ : String => List MarketOrderEvent)) (key : String) :
    (tasks.foldl (runMarketTask env opts blockNum) c).ws.orders.Touches key ↔
      c.ws.orders.Touches key ∨ TasksWriteOrder env opts blockNum key c tasks := by
  induction tasks generalizing c with
  | nil => exact (or_iff_left id).symm
  | cons task tasks ih =>
      have hstep := touches_runMarketTask env opts blockNum lawful h task key
      have hrest := ih (tracks_runMarketTask lawful h opts blockNum task)
      exact hrest.trans ((or_congr_left hstep).trans or_assoc)

/-! ## Vaults -/

theorem touches_modifyVault {c : Ctx} (hwf : c.store.vaults.WellFormed env.sdk)
    (vaultAddress : String) {f : Vault → Vault} (hf : ∀ vault, (f vault).id = vault.id)
    (key : String) :
    (c.onVaults fun t => t.modifyVault vaultAddress f).ws.vaults.Touches key ↔
      c.ws.vaults.Touches key ∨ c.NamesVault key vaultAddress := by
  unfold onVaults VaultTx.modifyVault NamesVault
  dsimp only
  cases hid : c.store.vaults.vaultByAddress.lookup (addrKey vaultAddress) with
  | none => simp
  | some id =>
      dsimp only
      cases hvault : c.store.vaults.vaults.lookup id with
      | none =>
          have hnot : id ∉ c.store.vaults.vaults := AList.lookup_eq_none.mp hvault
          simp [hnot]
      | some vault =>
          have hmem : id ∈ c.store.vaults.vaults := Dict.mem_iff_lookup.mpr ⟨vault, hvault⟩
          have hid : id = (f vault).id := by rw [hf, hwf.vault_id id vault hvault]
          simp only [Option.some.injEq, exists_eq_left', hmem, true_and]
          rw [hid]
          exact TableWrites.touches_put _ _ _ _

theorem touches_applyGlobalEvent {c : Ctx} (hwf : c.store.vaults.WellFormed env.sdk)
    (e : GlobalEvent) (key : String) :
    (c.applyGlobalEvent env e).ws.vaults.Touches key ↔
      c.ws.vaults.Touches key ∨ c.WritesVault env key e := by
  have hsame : ∀ {d : Ctx}, d.ws.vaults = c.ws.vaults →
      (d.ws.vaults.Touches key ↔ c.ws.vaults.Touches key ∨ False) := by
    intro d hd
    rw [hd, or_false]
  have hmodify := fun vaultAddress f hf =>
    touches_modifyVault env hwf vaultAddress (f := f) hf key
  cases e with
  | eventContractCreated created =>
      have hyes := (booksOnly_hydrateSpotFromChain env (c.onRegistry fun t =>
        t.upsertMarket env.sdk (eventMarketOf env t.reg created)) created.yesSpotMarket).sameRows
      have hno := (booksOnly_hydrateSpotFromChain env ((c.onRegistry fun t =>
        t.upsertMarket env.sdk (eventMarketOf env t.reg created)).hydrateSpotFromChain env
          created.yesSpotMarket) created.noSpotMarket).sameRows
      exact hsame (hno.vaultWrites.trans hyes.vaultWrites)
  | eventContractResolved marketAddress => exact hsame rfl
  | vaultCreated created => exact TableWrites.touches_put _ _ _ _
  | vaultDeposited vault equity => exact hmodify vault _ fun _ => rfl
  | vaultWithdrawn vault equity => exact hmodify vault _ fun _ => rfl
  | vaultManagerUpdated vault newManager => exact hmodify vault _ fun _ => rfl
  | vaultDepositPermissionUpdated vault allowDeposit => exact hmodify vault _ fun _ => rfl
  | vaultClosed vault => exact hmodify vault _ fun _ => rfl
  | marketCreated created =>
      exact hsame (booksOnly_ensureChainHydrated env _ created.marketAddress).sameRows.vaultWrites
  | secondary e => exact hsame rfl

theorem touches_globalEvents (lawful : LawfulSdk env.sdk) {c : Ctx} (h : c.Tracks env.sdk tables)
    (events : List GlobalEvent) (key : String) :
    (events.foldl (applyGlobalEvent env) c).ws.vaults.Touches key ↔
      c.ws.vaults.Touches key ∨ GlobalsWriteVault env key c events := by
  induction events generalizing c with
  | nil => exact (or_iff_left id).symm
  | cons e es ih =>
      have hstep := touches_applyGlobalEvent env h.vaults.wf e key
      have hrest := ih (tracks_applyGlobalEvent lawful h e)
      exact hrest.trans ((or_congr_left hstep).trans or_assoc)

/-! ## Blocks -/

theorem sameRows_hydrateAllSpotMarkets (c : Ctx) : SameRows (c.hydrateAllSpotMarkets env) c := by
  unfold hydrateAllSpotMarkets
  refine List.foldlRecOn (motive := fun d => SameRows d c) _ _ (.refl c) ?_
  intro d hd spot _
  exact (booksOnly_hydrateSpotFromChain env d spot).sameRows.trans hd

theorem sameRows_unmapped (events : List UnmappedOrderEvent) (c : Ctx) :
    SameRows (events.foldl (applyUnmapped env opts) c) c := by
  refine List.foldlRecOn (motive := fun d => SameRows d c) _ _ (.refl c) ?_
  intro d hd e _
  cases e <;>
  · unfold applyUnmapped
    split_ifs
    · exact (sameRows_hydrateAllSpotMarkets env d).trans hd
    · exact hd

theorem SameRows.moved {c d : Ctx} (h : SameRows d c) : HoldingMoved rows key none c d :=
  .of_eq h.vaults h.holdingWrites

/-- What global events leave alone: the order rows and the holdings. -/
structure KeepsHoldings (c d : Ctx) : Prop where
  orderWrites : d.ws.orders = c.ws.orders
  holdingWrites : d.ws.vaultPortfolio = c.ws.vaultPortfolio
  holdings : ∀ id, d.store.vaults.holdings id = c.store.vaults.holdings id

theorem KeepsHoldings.refl (c : Ctx) : KeepsHoldings c c := ⟨rfl, rfl, fun _ => rfl⟩

theorem KeepsHoldings.trans {a b c : Ctx} (h : KeepsHoldings a b) (h' : KeepsHoldings b c) :
    KeepsHoldings a c :=
  ⟨h'.orderWrites.trans h.orderWrites, h'.holdingWrites.trans h.holdingWrites,
    fun id => (h'.holdings id).trans (h.holdings id)⟩

theorem KeepsHoldings.moved {c d : Ctx} (h : KeepsHoldings c d) :
    HoldingMoved rows key none c d :=
  ⟨congrArg (fun w => TableWrites.apply w rows key) h.holdingWrites,
    congrFun (VaultTx.holdingView_congr castRow h.holdings) key⟩

theorem SameRows.keepsHoldings {c d : Ctx} (h : SameRows d c) : KeepsHoldings c d :=
  ⟨h.orderWrites, h.holdingWrites, fun id => congrArg (VaultIndex.holdings · id) h.vaults⟩

theorem keepsHoldings_modifyVault (c : Ctx) (vaultAddress : String) (f : Vault → Vault) :
    KeepsHoldings c (c.onVaults fun t => t.modifyVault vaultAddress f) := by
  unfold onVaults VaultTx.modifyVault
  dsimp only
  split
  · exact .refl c
  · split
    · exact .refl c
    · exact ⟨rfl, rfl, fun _ => rfl⟩

theorem keepsHoldings_applyGlobalEvent (c : Ctx) (e : GlobalEvent) :
    KeepsHoldings c (c.applyGlobalEvent env e) := by
  have hregistry : ∀ f, KeepsHoldings c (c.onRegistry f) := fun _ => ⟨rfl, rfl, fun _ => rfl⟩
  have hset : ∀ r, KeepsHoldings c (c.setRegistry r) := fun _ => ⟨rfl, rfl, fun _ => rfl⟩
  cases e with
  | eventContractCreated created =>
      have hyes := booksOnly_hydrateSpotFromChain env (c.onRegistry fun t =>
        t.upsertMarket env.sdk (eventMarketOf env t.reg created)) created.yesSpotMarket
      have hno := booksOnly_hydrateSpotFromChain env ((c.onRegistry fun t =>
        t.upsertMarket env.sdk (eventMarketOf env t.reg created)).hydrateSpotFromChain env
          created.yesSpotMarket) created.noSpotMarket
      exact ((hregistry _).trans hyes.sameRows.keepsHoldings).trans hno.sameRows.keepsHoldings
  | eventContractResolved marketAddress => exact hregistry _
  | vaultCreated created => exact ⟨rfl, rfl, VaultTx.holdings_upsertVault _⟩
  | vaultDeposited vault equity => exact keepsHoldings_modifyVault c vault _
  | vaultWithdrawn vault equity => exact keepsHoldings_modifyVault c vault _
  | vaultManagerUpdated vault newManager => exact keepsHoldings_modifyVault c vault _
  | vaultDepositPermissionUpdated vault allowDeposit => exact keepsHoldings_modifyVault c vault _
  | vaultClosed vault => exact keepsHoldings_modifyVault c vault _
  | marketCreated created =>
      exact (hset _).trans
        (booksOnly_ensureChainHydrated env _ created.marketAddress).sameRows.keepsHoldings
  | secondary e => exact .refl c

theorem keepsHoldings_globalEvents (c : Ctx) (events : List GlobalEvent) :
    KeepsHoldings c (events.foldl (applyGlobalEvent env) c) := by
  refine List.foldlRecOn (motive := fun d => KeepsHoldings c d) _ _ (.refl c) ?_
  intro d hd e _
  exact hd.trans (keepsHoldings_applyGlobalEvent env d e)

theorem ws_vaults_applyMarketOrderEvent (c : Ctx) (e : MarketOrderEvent) :
    (c.applyMarketOrderEvent env opts blockNum spotMarket e).ws.vaults = c.ws.vaults := by
  have hbefore := sameRows_beforeOrders env opts blockNum spotMarket c e
  rw [applyMarketOrderEvent_eq]
  generalize c.beforeOrders env opts blockNum spotMarket e = b at hbefore ⊢
  obtain ⟨d, skip⟩ := b
  dsimp only at hbefore ⊢
  obtain ⟨-, -, horders⟩ := sameHoldings_applyToOrders env opts blockNum spotMarket d skip e
  obtain ⟨hub, hfinish⟩ := finish_eq env opts blockNum spotMarket
    (d.applyToOrders env opts blockNum spotMarket skip e) skip e
  have hsettled : ((d.applyToOrders env opts blockNum spotMarket skip e).settled env spotMarket
      e).ws.vaults = (d.applyToOrders env opts blockNum spotMarket skip e).ws.vaults := by
    cases e with
    | filled e txSender => exact (ws_applyVaultFill env spotMarket _ e).2
    | _ => rfl
  rw [hfinish]
  exact hsettled.trans (horders.trans hbefore.vaultWrites)

theorem ws_vaults_applyMarketOrderEvents (c : Ctx) (events : List MarketOrderEvent) :
    (c.applyMarketOrderEvents env opts blockNum spotMarket events).ws.vaults = c.ws.vaults := by
  refine List.foldlRecOn (motive := fun d : Ctx => d.ws.vaults = c.ws.vaults) _ _ rfl ?_
  intro d hd e _
  exact (ws_vaults_applyMarketOrderEvent env opts blockNum spotMarket d e).trans hd

theorem touches_vaults_marketTasks (c : Ctx)
    (tasks : List (Sigma fun _ : String => List MarketOrderEvent)) (key : String) :
    (tasks.foldl (runMarketTask env opts blockNum) c).ws.vaults.Touches key ↔
      c.ws.vaults.Touches key := by
  refine List.foldlRecOn
    (motive := fun d : Ctx => d.ws.vaults.Touches key ↔ c.ws.vaults.Touches key) _ _ Iff.rfl ?_
  intro d hd task _
  have hevents := ws_vaults_applyMarketOrderEvents env opts blockNum task.1 { d with ws := {} }
    task.2
  have hempty : ¬({} : IndexWriteSet).vaults.Touches key := TableWrites.not_touches_empty key
  refine (TableWrites.touches_merge _ _ key).trans ?_
  rw [hevents, or_iff_left hempty, hd]

section Block

variable (lawful : LawfulSdk env.sdk) (prepared : PreparedBlock) {c : Ctx}

include lawful

private theorem tracks_serial (h : Tracks env.sdk tables { c with ws := {} }) :
    (c.beginBlock prepared.block).Tracks env.sdk tables ∧
      (c.applySerial env opts prepared).Tracks env.sdk tables := by
  have hbegin : (c.beginBlock prepared.block).Tracks env.sdk tables :=
    ⟨h.orders, h.books, h.vaults, h.lastTrades, h.lastTradeKeys, h.incremental⟩
  have hglobal := List.foldlRecOn prepared.block.globalEvents (applyGlobalEvent env) hbegin
    fun _ hc e _ => tracks_applyGlobalEvent lawful hc e
  exact ⟨hbegin, List.foldlRecOn prepared.unmapped (applyUnmapped env opts) hglobal
    fun _ hc e _ => tracks_applyUnmapped lawful hc opts e⟩

/-- The order rows that a block writes. -/
theorem touches_orders_processPreparedBlock (h : Tracks env.sdk tables { c with ws := {} })
    (key : String) :
    (c.processPreparedBlock env opts prepared).ws.orders.Touches key ↔
      TasksWriteOrder env opts prepared.blockNum key (c.applySerial env opts prepared)
        prepared.markets.entries := by
  have hserial := (tracks_serial env opts lawful prepared h).2
  have hglobal := (keepsHoldings_globalEvents env (c.beginBlock prepared.block)
    prepared.block.globalEvents).orderWrites
  have hunmapped := sameRows_unmapped env opts prepared.unmapped
    (prepared.block.globalEvents.foldl (applyGlobalEvent env) (c.beginBlock prepared.block))
  have hempty : ¬({} : IndexWriteSet).orders.Touches key := TableWrites.not_touches_empty key
  have hbefore : ¬(c.applySerial env opts prepared).ws.orders.Touches key := by
    intro ht
    rw [applySerial, hunmapped.orderWrites, hglobal] at ht
    exact hempty ht
  exact (touches_marketTasks env opts prepared.blockNum lawful hserial prepared.markets.entries
    key).trans (or_iff_right hbefore)

theorem touches_vaults_processPreparedBlock (h : Tracks env.sdk tables { c with ws := {} })
    (key : String) :
    (c.processPreparedBlock env opts prepared).ws.vaults.Touches key ↔
      GlobalsWriteVault env key (c.beginBlock prepared.block) prepared.block.globalEvents := by
  have hglobal := touches_globalEvents env lawful (tracks_serial env opts lawful prepared h).1
    prepared.block.globalEvents key
  have hunmapped := sameRows_unmapped env opts prepared.unmapped
    (prepared.block.globalEvents.foldl (applyGlobalEvent env) (c.beginBlock prepared.block))
  have hempty : ¬(c.beginBlock prepared.block).ws.vaults.Touches key :=
    TableWrites.not_touches_empty key
  rw [or_iff_right hempty, ← hunmapped.vaultWrites] at hglobal
  exact (touches_vaults_marketTasks env opts prepared.blockNum _ prepared.markets.entries
    key).trans hglobal

theorem moved_processPreparedBlock (c : Ctx) :
    HoldingMoved rows key
      (tasksLastHolding env opts prepared.blockNum key (c.applySerial env opts prepared)
        prepared.markets.entries)
      { c with ws := {} } (c.processPreparedBlock env opts prepared) := by
  have hbegin : HoldingMoved rows key none { c with ws := {} } (c.beginBlock prepared.block) :=
    .of_eq rfl rfl
  have hglobal := hbegin.trans (keepsHoldings_globalEvents env (c.beginBlock prepared.block)
    prepared.block.globalEvents).moved
  have hserial := hglobal.trans (sameRows_unmapped env opts prepared.unmapped _).moved
  have hmarkets := hserial.trans
    (moved_marketTasks env opts prepared.blockNum lawful _ prepared.markets.entries)
  simp only [Option.or_none] at hmarkets
  exact ⟨hmarkets.pending, hmarkets.exported⟩

end Block

end Ctx

end ClobIndexer
