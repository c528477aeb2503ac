import ClobIndexer.Indexer.Containment
import ClobIndexer.Indexer.Routing
/-!
# The market tasks of a block are independent

`join_all` polls the tasks of a block in an order of its own, and `merge` folds what they
return.  From a sound index every schedule that runs all tasks to their end leaves the
same index and the same candles, trade ids aside, and the write sets that the tasks
return are merged to the same rows in any order.  One of the schedules is the block of
the sequential model.
-/

namespace ClobIndexer

open Lib

variable {env : Env} {names : Set String}

/-! ## The same, whatever the order of entries -/

def Footprint.whole : Footprint := ⟨Set.univ, Set.univ, Set.univ, Set.univ, Set.univ⟩

/-- The same rows and deletions in every table. -/
structure IndexWriteSet.Same (a b : IndexWriteSet) : Prop where
  blockNum : a.blockNum = b.blockNum
  digest : a.digest = b.digest
  fullReplace : a.fullReplace = b.fullReplace
  markets : a.markets.Same b.markets
  orders : a.orders.Same b.orders
  bookLevels : a.bookLevels.Same b.bookLevels
  bookMeta : a.bookMeta.Same b.bookMeta
  lastTrades : a.lastTrades.Same b.lastTrades
  vaults : a.vaults.Same b.vaults
  vaultPortfolio : a.vaultPortfolio.Same b.vaultPortfolio

/-- The same books up to trade ids, hot orders and their indexes, market registry, vault
portfolios, last prices and candles, and the same rows to write. -/
structure World.Same (v w : World) : Prop where
  index : v.AgreeOn .whole w
  rows : v.ctx.ws.Same w.ctx.ws

/-- What agrees on the footprint of every market agrees. -/
theorem World.agreeOn_whole {sdk : Sdk} {start : Registry} {v w : World}
    (h : ∀ o, v.AgreeOn (.ofMarket sdk names start o) w) : v.AgreeOn .whole w where
  store :=
    { books := fun key _ => (h key).store.books key rfl
      orders :=
        { byId := fun key _ => (h (keyOwner key)).store.orders.byId key rfl
          orders := fun id _ => (h (idOwner sdk names id)).store.orders.orders id rfl
          byUser := fun id _ => (h (idOwner sdk names id)).store.orders.byUser id rfl }
      registry :=
        { slugs := (h "").store.registry.slugs
          spots := fun spot _ => (h spot).store.registry.spots spot rfl
          markets := fun id _ => (h (idOwner sdk names id)).store.registry.markets id (.inl rfl)
          names := fun name _ => (h (nameOwner sdk name)).store.registry.names name rfl }
      vaults :=
        { vaults := (h "").store.vaults.vaults
          byAddress := (h "").store.vaults.byAddress
          byAccount := (h "").store.vaults.byAccount
          holdings := fun vaultId market _ => (h market).store.vaults.holdings vaultId market rfl }
      lastTradePrice := fun key _ => (h key).store.lastTradePrice key rfl
      time := (h "").store.time }
  bars := fun key _ => (h key).bars key rfl

/-- Write sets of different markets are merged in any order. -/
theorem IndexWriteSet.same_foldl_merge {sdk : Sdk} {start : Registry} {ws : String → IndexWriteSet}
    (hws : ∀ o, (ws o).Within (.ofMarket sdk names start o)) {order order' : List String}
    (hperm : order.Perm order') (w : IndexWriteSet) :
    (order.foldl (fun w o => w.merge (ws o)) w).Same
      (order'.foldl (fun w o => w.merge (ws o)) w) := by
  have hkeep : ∀ order : List String,
      (order.foldl (fun w o => w.merge (ws o)) w).blockNum = w.blockNum ∧
        (order.foldl (fun w o => w.merge (ws o)) w).digest = w.digest ∧
        (order.foldl (fun w o => w.merge (ws o)) w).fullReplace = w.fullReplace := by
    intro order
    refine List.foldlRecOn (motive := fun u : IndexWriteSet => u.blockNum = w.blockNum ∧
      u.digest = w.digest ∧ u.fullReplace = w.fullReplace) _ _ ⟨rfl, rfl, rfl⟩ ?_
    rintro u ⟨hnum, hdigest, hfull⟩ o _
    refine ⟨hnum, hdigest, ?_⟩
    unfold merge
    rw [(hws o).incremental, Bool.or_false]
    exact hfull
  have htable : ∀ {K V : Type} [DecidableEq K] (table : IndexWriteSet → TableWrites K V)
      (S : String → Set K), (∀ u u', table (u.merge u') = (table u).merge (table u')) →
      (∀ o, (table (ws o)).Within (S o)) → (∀ o p k, k ∈ S o → k ∈ S p → o = p) →
      (table (order.foldl (fun w o => w.merge (ws o)) w)).Same
        (table (order'.foldl (fun w o => w.merge (ws o)) w)) := by
    intro K V _ table S hmerge hwithin hapart
    have hfold : ∀ order : List String, table (order.foldl (fun w o => w.merge (ws o)) w) =
        order.foldl (fun t o => t.merge (table (ws o))) (table w) := by
      intro order
      exact (List.foldl_hom table fun u o => (hmerge u (ws o)).symm).symm
    rw [hfold, hfold]
    exact TableWrites.Within.same_foldl_merge hwithin hapart (table w) hperm
  have hspot : ∀ o p (k : String), k ∈ (Footprint.ofMarket sdk names start o).spots →
      k ∈ (Footprint.ofMarket sdk names start p).spots → o = p :=
    fun o p k ho hp => ho.symm.trans hp
  have hnum := hkeep order
  have hnum' := hkeep order'
  constructor
  · exact hnum.1.trans hnum'.1.symm
  · exact hnum.2.1.trans hnum'.2.1.symm
  · exact hnum.2.2.trans hnum'.2.2.symm
  · exact htable (·.markets) (fun _ => ∅) (fun _ _ => rfl) (fun o => (hws o).markets)
      fun _ _ _ h => h.elim
  · refine htable (·.orders) _ (fun _ _ => rfl) (fun o => (hws o).orders) ?_
    rintro o p _ ⟨id, hid, rfl⟩ ⟨id', hid', heq⟩
    rw [Uuid.toString_injective heq] at hid'
    exact hid.symm.trans hid'
  · exact htable (·.bookLevels) _ (fun _ _ => rfl) (fun o => (hws o).books.levels)
      fun o p k => hspot o p k.1
  · exact htable (·.bookMeta) _ (fun _ _ => rfl) (fun o => (hws o).books.metas) hspot
  · exact htable (·.lastTrades) _ (fun _ _ => rfl) (fun o => (hws o).lastTrades) hspot
  · exact htable (·.vaults) (fun _ => ∅) (fun _ _ => rfl) (fun o => (hws o).vaults)
      fun _ _ _ h => h.elim
  · exact htable (·.vaultPortfolio) _ (fun _ _ => rfl) (fun o => (hws o).vaultPortfolio)
      fun o p k => hspot o p k.2

/-! ## The tasks of a block -/

/-- What the handlers keep of an index, told with the names that its UUIDs are made from. -/
structure IndexState.Sound (sdk : Sdk) (names : Set String) (s : IndexState) : Prop where
  orders : OrderIndex.Keyed sdk names s.orders
  registry : Registry.Coherent sdk names s.registry

/-- The markets of the block are printed contract addresses, and their names and those of
the created orders are among the given ones. -/
structure PreparedBlock.Fits (sdk : Sdk) (names : Set String) (prepared : PreparedBlock) :
    Prop where
  market : ∀ m, prepared.group m ≠ [] → MarketKey sdk m ∧ m ∈ names
  created : ∀ m o, .created o ∈ prepared.group m → onchainOrderId sdk m o.orderId ∈ names

/-! ### Sound indexes -/

theorem IndexState.sound_empty (sdk : Sdk) : IndexState.Sound sdk names {} where
  orders := ⟨⟨fun _ _ h => (nomatch h)⟩, fun _ _ h => (nomatch h), OrderIndex.named_empty⟩
  registry := Registry.coherent_empty

namespace Ctx

variable {c : Ctx}

theorem keyed_applyMarketOrderEvent (lawful : LawfulSdk env.sdk)
    (h : OrderIndex.Keyed env.sdk names c.store.orders) (opts : ProcessOpts) (blockNum : UInt64)
    (spotMarket : String) (e : MarketOrderEvent)
    (hname : ∀ o, e = .created o → onchainOrderId env.sdk spotMarket o.orderId ∈ names) :
    OrderIndex.Keyed env.sdk names
      (c.applyMarketOrderEvent env opts blockNum spotMarket e).store.orders := by
  have horders := orders_applyMarketOrderEvent env c opts blockNum spotMarket e
  have hchanged : ∀ {chainOrderId : String} {change : StoredOrder → StoredOrder} {idx : OrderIndex},
      OrderTx.Keeps change → (∀ stored, (change stored).order.id = stored.order.id) →
      (∃ (t : OrderTx) (tsMs : UInt64), t.idx = c.store.orders ∧
        idx = (t.touch env.sdk tsMs spotMarket chainOrderId change).idx) →
      OrderIndex.Keyed env.sdk names idx := by
    rintro chainOrderId change idx hkeeps hsame ⟨t, tsMs, ht, heq⟩
    rw [← ht] at h
    rw [heq]
    exact OrderTx.keyed_touch h hkeeps hsame tsMs spotMarket chainOrderId
  cases e with
  | created o =>
      dsimp only at horders
      split_ifs at horders
      · rw [horders]
        exact h
      · obtain ⟨t, tsMs, order, ht, hid, -, heq⟩ := horders
        rw [← ht] at h
        rw [heq]
        exact OrderTx.keyed_insertOrder lawful h tsMs o.creator o.amount 0 hid (hname o rfl)
  | cancelled o => exact hchanged OrderTx.keeps_cancelled (fun _ => rfl) horders
  | updated o => exact hchanged (OrderTx.keeps_resized _ _) (fun _ => rfl) horders
  | filled o txSender => exact hchanged (OrderTx.keeps_afterFill _ _ _) (fun _ => rfl) horders
  | executed o =>
      dsimp only at horders
      rw [horders]
      exact h

theorem sound_chainEvent (lawful : LawfulSdk env.sdk) (hinj : Set.InjOn env.sdk.uuidV5 names)
    (h : c.store.Sound env.sdk names) {e : ChainEvent} (hspots : e.spots env.sdk ⊆ names)
    (hname : ∀ opts blockNum m o, e = .order opts blockNum m (.created o) →
      onchainOrderId env.sdk m o.orderId ∈ names) :
    (e.apply env c).store.Sound env.sdk names := by
  refine ⟨?_, c.coherent_apply lawful hinj h.registry hspots⟩
  cases e with
  | global e =>
      change OrderIndex.Keyed env.sdk names (c.applyGlobalEvent env e).store.orders
      rw [orders_applyGlobalEvent]
      exact h.orders
  | order opts blockNum m e =>
      exact keyed_applyMarketOrderEvent lawful h.orders opts blockNum m e
        fun o heq => hname opts blockNum m o (heq ▸ rfl)

/-- Every index that chain events make from an empty one is sound. -/
theorem sound_chainEvents (lawful : LawfulSdk env.sdk) (hinj : Set.InjOn env.sdk.uuidV5 names)
    (hempty : c.store.orders = {}) (hempty' : c.store.registry = {}) {events : List ChainEvent}
    (hspots : ∀ e ∈ events, e.spots env.sdk ⊆ names)
    (hname : ∀ opts blockNum m o, .order opts blockNum m (.created o) ∈ events →
      onchainOrderId env.sdk m o.orderId ∈ names) :
    (events.foldl (ChainEvent.apply env) c).store.Sound env.sdk names := by
  refine List.foldlRecOn (motive := fun c : Ctx => c.store.Sound env.sdk names) events _ ?_ ?_
  · have hstart := @IndexState.sound_empty names env.sdk
    exact ⟨hempty ▸ hstart.orders, hempty' ▸ hstart.registry⟩
  · intro c hc e he
    exact sound_chainEvent lawful hinj hc (hspots e he)
      fun opts blockNum m o heq => hname opts blockNum m o (heq ▸ he)

end Ctx

/-! ### Prepared blocks -/

/-- The market and the contract of an event are printed addresses, and their names and the
one of the order that it creates are among the given ones. -/
structure TransactionEvent.Prints (sdk : Sdk) (names : Set String) (event : TransactionEvent) :
    Prop where
  contract : ∀ m, event.contract = some m → MarketKey sdk m ∧ m ∈ names
  created : ∀ o, event.payload = .order (.created o) → MarketKey sdk o.market ∧ o.market ∈ names ∧
    onchainOrderId sdk o.market o.orderId ∈ names
  filled : ∀ o, event.payload = .order (.filled o) → MarketKey sdk o.market ∧ o.market ∈ names

def ClosedNames (sdk : Sdk) (names : Set String) : Prop :=
  ∀ key ∈ names, ∀ m chainOrderId, splitOnchainOrderId key = some (m, chainOrderId) →
    MarketKey sdk m ∧ m ∈ names

theorem market_of_lookup {sdk : Sdk} (closed : ClosedNames sdk names) {idx : OrderIndex}
    (h : OrderIndex.Keyed sdk names idx) {chainOrderId m : String}
    (hfound : idx.lookupSpotMarketForChainOrder chainOrderId = some m) :
    MarketKey sdk m ∧ m ∈ names := by
  unfold OrderIndex.lookupSpotMarketForChainOrder at hfound
  dsimp only at hfound
  split at hfound
  · rename_i spot hsingle
    cases hfound
    have hmem : m ∈ [m] := List.mem_singleton_self m
    rw [← hsingle] at hmem
    obtain ⟨key, hkey, hsplit⟩ := List.mem_filterMap.mp hmem
    split_ifs at hsplit
    obtain ⟨⟨m', id⟩, hparts, rfl⟩ := Option.map_eq_some_iff.mp hsplit
    obtain ⟨uuid, hlookup⟩ := Dict.mem_iff_lookup.mp (AList.mem_keys.mp hkey)
    exact closed key (h.byId key uuid hlookup).1 m' id hparts
  · cases hfound

/-- What `prepare_block` groups fits, whatever the index that it looks orders up in. -/
theorem fits_prepareBlock {sdk : Sdk} (lawful : LawfulSdk sdk) (closed : ClosedNames sdk names)
    {s : IndexState} (h : OrderIndex.Keyed sdk names s.orders) {block : ReceiptBlock}
    (hprints : ∀ e ∈ block.okEvents, e.2.Prints sdk names) :
    (prepareBlock sdk s block).Fits sdk names := by
  have hcontract : ∀ {event : TransactionEvent} {m : String}, event.Prints sdk names →
      spotMarketFromEventContract sdk event = some m → MarketKey sdk m ∧ m ∈ names := by
    intro event m hevent hm
    obtain ⟨contract, hcontract, rfl⟩ := Option.map_eq_some_iff.mp hm
    obtain ⟨hkey, hname⟩ := hevent.contract contract hcontract
    rw [hkey.normal lawful]
    exact ⟨hkey, hname⟩
  have heither : ∀ {event : TransactionEvent} {chainOrderId m : String}, event.Prints sdk names →
      (spotMarketFromEventContract sdk event).or
        (s.orders.lookupSpotMarketForChainOrder chainOrderId) = some m →
      MarketKey sdk m ∧ m ∈ names := by
    intro event chainOrderId m hevent hm
    rcases Option.or_eq_some_iff.mp hm with hm | ⟨-, hm⟩
    · exact hcontract hevent hm
    · exact market_of_lookup closed h hm
  have hrouted : ∀ m e, e ∈ (prepareBlock sdk s block).group m → ∃ event ∈ block.okEvents, ∃ o,
      event.2.payload = .order o ∧ o.work event.1 = e ∧
        marketFor sdk s.orders.lookupSpotMarketForChainOrder event.2 o = some m := by
    intro m e he
    rw [group_prepareBlock] at he
    obtain ⟨⟨m', e'⟩, hroute, hat⟩ := List.mem_filterMap.mp he
    obtain ⟨event, hevent, hroute⟩ := List.mem_filterMap.mp hroute
    unfold atMarket at hat
    split_ifs at hat with hm
    cases hat
    unfold route at hroute
    cases hpayload : event.2.payload with
    | global g => simp [hpayload] at hroute
    | ignored => simp [hpayload] at hroute
    | order o =>
        rw [hpayload] at hroute
        obtain ⟨m'', hmarket, heq⟩ := Option.map_eq_some_iff.mp hroute
        cases heq
        exact ⟨event, hevent, o, hpayload, rfl, hm ▸ hmarket⟩
  constructor
  · intro m hgroup
    obtain ⟨e, he⟩ := List.exists_mem_of_ne_nil _ hgroup
    obtain ⟨event, hevent, o, hpayload, -, hm⟩ := hrouted m e he
    have hprint := hprints event hevent
    cases o with
    | created o =>
        obtain ⟨hkey, hname, -⟩ := hprint.created o hpayload
        cases hm
        rw [hkey.normal lawful]
        exact ⟨hkey, hname⟩
    | filled o =>
        obtain ⟨hkey, hname⟩ := hprint.filled o hpayload
        cases hm
        rw [hkey.normal lawful]
        exact ⟨hkey, hname⟩
    | cancelled o => exact heither hprint hm
    | updated o => exact heither hprint hm
    | executed o => exact hcontract hprint hm
  · intro m o ho
    obtain ⟨event, hevent, o', hpayload, hwork, hm⟩ := hrouted m _ ho
    cases o' with
    | created o' =>
        cases hwork
        cases hm
        rw [onchainOrderId_normalize lawful]
        exact ((hprints event hevent).created o hpayload).2.2
    | filled o' => cases hwork
    | cancelled o' => cases hwork
    | updated o' => cases hwork
    | executed o' => cases hwork

variable (env) in
/-- The tasks of a block, run from the given index as a schedule says. -/
def PreparedBlock.run (opts : ProcessOpts) (prepared : PreparedBlock) (schedule : List String)
    (w : World) : Tasks String World TaskLocal TaskStep :=
  Tasks.run (fun m step => World.perform env opts prepared.blockNum m step) schedule
    { shared := w
      locals := fun _ => {}
      todo := fun m => (prepared.group m).flatMap MarketOrderEvent.taskSteps }

def PreparedBlock.sequential (prepared : PreparedBlock) : List String :=
  prepared.markets.entries.flatMap fun task =>
    List.replicate (task.2.flatMap MarketOrderEvent.taskSteps).length task.1

/-- The write sets that the tasks return are folded onto the one of the block. -/
def joined (order : List String) (t : Tasks String World TaskLocal TaskStep) : World :=
  t.shared.setWs (order.foldl (fun ws m => ws.merge (t.locals m).ws) t.shared.ctx.ws)

theorem event_of_mem_taskSteps {events : List MarketOrderEvent} {step : TaskStep}
    (h : step ∈ events.flatMap MarketOrderEvent.taskSteps) : step.event ∈ events := by
  obtain ⟨e, he, hstep⟩ := List.mem_flatMap.mp h
  have hevent : step.event = e := by
    simp only [MarketOrderEvent.taskSteps, List.mem_cons, List.not_mem_nil, or_false] at hstep
    rcases hstep with rfl | rfl | rfl | rfl | rfl | rfl | rfl | rfl | rfl | rfl | rfl | rfl | rfl | rfl
    all_goals rfl
  exact hevent ▸ he

variable (env) in
def Admits (names : Set String) (start : Registry) (m : String) (step : TaskStep) : Prop :=
  Footprint.Owns env.sdk names start (.ofMarket env.sdk names start) m ∧
    ∀ o, step.event = .created o → onchainOrderId env.sdk m o.orderId ∈ names

/-- Market tasks depend on what their market owns, and on nothing else. -/
theorem local_perform (lawful : LawfulSdk env.sdk) (steady : env.chain.Steady)
    (hinj : Set.InjOn env.sdk.uuidV5 names) (start : Registry) (opts : ProcessOpts)
    (blockNum : UInt64) :
    Tasks.Local (fun m step => World.perform env opts blockNum m step) (Admits env names start)
      (fun m l => l.Within (.ofMarket env.sdk names start m))
      (fun w => w.ctx.store.Settled env.sdk names start)
      (fun m v w => v.AgreeOn (.ofMarket env.sdk names start m) w) := by
  have hcontained : ∀ {m step}, Admits env names start m step →
      World.Contained env.sdk names start (.ofMarket env.sdk names start) m
        fun s => World.perform env opts blockNum m step s :=
    fun hok => World.Contained.perform hok.1 lawful steady hinj opts blockNum _ hok.2
  exact {
    refl := fun _ w => .refl _ w
    trans := fun h h' => h.trans h'
    keeps := fun hok hl hw =>
      ⟨((hcontained hok).keeps hl hw).1, ((hcontained hok).keeps hl hw).2.1⟩
    own := fun hok hl hv hw hvw => (hcontained hok).own hl hv hw hvw
    frame := fun hok hl hne hw => (hcontained hok).frame hne.symm hl hw }

namespace World

variable {w : World} {prepared : PreparedBlock} {schedule schedule' order order' : List String}

/-- Every schedule that runs the tasks of a block to their end leaves the same, and the
order in which their write sets are merged does not matter. -/
theorem markets_independent (lawful : LawfulSdk env.sdk) (apart : PrintsApart env.sdk)
    (steady : env.chain.Steady) (hinj : Set.InjOn env.sdk.uuidV5 names)
    (sound : w.ctx.store.Sound env.sdk names) (fits : prepared.Fits env.sdk names)
    (opts : ProcessOpts) (hdone : (prepared.run env opts schedule w).Done)
    (hdone' : (prepared.run env opts schedule' w).Done)
    (horder : order.Perm prepared.markets.keys) (horder' : order'.Perm prepared.markets.keys) :
    (joined order (prepared.run env opts schedule w)).Same
      (joined order' (prepared.run env opts schedule' w)) := by
  let start := w.ctx.store.registry
  let tasks : Tasks String World TaskLocal TaskStep :=
    { shared := w
      locals := fun _ => {}
      todo := fun m => (prepared.group m).flatMap MarketOrderEvent.taskSteps }
  let act := fun m step => World.perform env opts prepared.blockNum m step
  have hlocal := local_perform lawful steady hinj start opts prepared.blockNum
  have hok : tasks.Admitted (Admits env names start) := by
    intro m step hstep
    have hevent := event_of_mem_taskSteps hstep
    obtain ⟨hm, hname⟩ := fits.market m (List.ne_nil_of_mem hevent)
    refine ⟨Footprint.owns_ofMarket lawful apart hinj sound.registry.bound hm hname, ?_⟩
    intro o ho
    exact fits.created m o (ho ▸ hevent)
  have hmine : tasks.Minded fun m l => l.Within (.ofMarket env.sdk names start m) :=
    fun m => ⟨fun _ h => (nomatch h), IndexWriteSet.within_empty _⟩
  have hinv : tasks.shared.ctx.store.Settled env.sdk names start :=
    ⟨sound.orders, sound.registry.grownFrom⟩
  -- both runs end, for every market, as its task does alone
  have hout := fun o => hlocal.outcome hok hmine hinv hdone o
  have hout' := fun o => hlocal.outcome hok hmine hinv hdone' o
  have hlocals : (prepared.run env opts schedule w).locals =
      (prepared.run env opts schedule' w).locals :=
    funext fun o => (hout o).1.trans (hout' o).1.symm
  -- a step leaves the block's own write set alone
  have haside : ∀ schedule, (prepared.run env opts schedule w).shared.ctx.ws = w.ctx.ws := by
    intro schedule
    refine hlocal.shared_run (P := fun v : World => v.ctx.ws = w.ctx.ws) ?_ schedule hok hmine hinv rfl
    intro m step l v hstep hl hv hws
    have hcontained :=
      Contained.perform hstep.1 lawful steady hinj opts prepared.blockNum step hstep.2
    exact (hcontained.keeps hl hv).2.2.trans hws
  constructor
  · have hagree : (prepared.run env opts schedule w).shared.AgreeOn .whole
        (prepared.run env opts schedule' w).shared :=
      agreeOn_whole fun o => (hout o).2.trans (hout' o).2.symm
    exact ⟨hagree.store, hagree.bars⟩
  · have hwithin := (hlocal.keeps_run schedule hok hmine hinv).2.1
    unfold joined setWs
    dsimp only
    rw [haside, haside, ← hlocals]
    exact IndexWriteSet.same_foldl_merge (fun o => (hwithin o).ws) (horder.trans horder'.symm) _

/-! ## The sequential model is one of the schedules -/

variable (env) in
theorem runMarketTask_eq (opts : ProcessOpts) (blockNum : UInt64) (w : World) (ws : IndexWriteSet)
    (task : Sigma fun _ : String => List MarketOrderEvent) :
    let s := World.performs env opts blockNum task.1 (task.2.flatMap MarketOrderEvent.taskSteps)
      ({}, w)
    (w.setWs ws).runMarketTask env opts blockNum task = s.2.setWs (ws.merge s.1.ws) ∧
      s.2.ctx.ws = w.ctx.ws := by
  have hstart : World.At w.ctx.ws false (w.setWs {}) ({}, w) := ⟨rfl, rfl, rfl⟩
  obtain ⟨skip, hend⟩ := hstart.events env opts blockNum task.1 task.2
  refine ⟨?_, hend.aside⟩
  change ((w.setWs {}).applyMarketOrderEvents env opts blockNum task.1 task.2).setWs
    (ws.merge ((w.setWs {}).applyMarketOrderEvents env opts blockNum task.1 task.2).ctx.ws) = _
  rw [← hend.world]
  rfl

variable (env) in
/-- The tasks of different markets, each run to its end, leave what the sequential model
leaves. -/
theorem run_tasks (opts : ProcessOpts) (blockNum : UInt64)
    (tasks : List (Sigma fun _ : String => List MarketOrderEvent)) (hnodup : tasks.NodupKeys)
    (t : Tasks String World TaskLocal TaskStep)
    (hnew : ∀ task ∈ tasks, t.locals task.1 = {} ∧
      t.todo task.1 = task.2.flatMap MarketOrderEvent.taskSteps) (ws : IndexWriteSet) :
    let schedule := tasks.flatMap fun task =>
      List.replicate (task.2.flatMap MarketOrderEvent.taskSteps).length task.1
    let t' := t.run (fun m step => World.perform env opts blockNum m step) schedule
    t'.shared.setWs (tasks.keys.foldl (fun ws m => ws.merge (t'.locals m).ws) ws) =
        tasks.foldl (runMarketTask env opts blockNum) (t.shared.setWs ws) ∧
      t'.shared.ctx.ws = t.shared.ctx.ws := by
  induction tasks generalizing t ws with
  | nil => exact ⟨rfl, rfl⟩
  | cons task tasks ih =>
      obtain ⟨hhead, htail⟩ := List.nodupKeys_cons.mp hnodup
      obtain ⟨hlocals, htodo⟩ := hnew task List.mem_cons_self
      let act := fun m step => World.perform env opts blockNum m step
      let s := World.performs env opts blockNum task.1 (task.2.flatMap MarketOrderEvent.taskSteps)
        ({}, t.shared)
      let t₁ : Tasks String World TaskLocal TaskStep :=
        ⟨s.2, Function.update t.locals task.1 s.1, Function.update t.todo task.1 []⟩
      have halone : t.alone act task.1 = s := by
        unfold Tasks.alone
        rw [hlocals, htodo]
        rfl
      have hfirst : t.run act (List.replicate (task.2.flatMap MarketOrderEvent.taskSteps).length
          task.1) = t₁ := by
        have hrun := Tasks.run_replicate act t task.1
        rw [htodo, halone] at hrun
        exact hrun
      have hnew₁ : ∀ other ∈ tasks, t₁.locals other.1 = {} ∧
          t₁.todo other.1 = other.2.flatMap MarketOrderEvent.taskSteps := by
        intro other hother
        have hne : other.1 ≠ task.1 := by
          intro heq
          exact hhead (heq ▸ List.mem_map_of_mem hother)
        obtain ⟨hl, ht⟩ := hnew other (List.mem_cons_of_mem task hother)
        exact ⟨(Function.update_of_ne hne _ _).trans hl, (Function.update_of_ne hne _ _).trans ht⟩
      have hrest := ih htail t₁ hnew₁ (ws.merge s.1.ws)
      have hkept : ∀ schedule : List String, task.1 ∉ schedule →
          (t₁.run act schedule).locals task.1 = s.1 := by
        intro schedule hnot
        rw [Tasks.locals_run_of_notMem act hnot]
        exact Function.update_self _ _ _
      have hkey : task.1 ∉ tasks.flatMap fun task =>
          List.replicate (task.2.flatMap MarketOrderEvent.taskSteps).length task.1 := by
        intro hmem
        obtain ⟨other, hother, hreplicate⟩ := List.mem_flatMap.mp hmem
        rw [List.eq_of_mem_replicate hreplicate] at hhead
        exact hhead (List.mem_map_of_mem hother)
      intro schedule t'
      have hsplit : t' = t₁.run act (tasks.flatMap fun task =>
          List.replicate (task.2.flatMap MarketOrderEvent.taskSteps).length task.1) := by
        simp only [t', schedule, List.flatMap_cons, Tasks.run, List.foldl_append]
        rw [← hfirst]
        rfl
      obtain ⟨htask, haside⟩ := runMarketTask_eq env opts blockNum t.shared ws task
      rw [hsplit, List.keys_cons, List.foldl_cons, hkept _ hkey, List.foldl_cons, htask]
      exact ⟨hrest.1, hrest.2.trans haside⟩

variable (env) in
/-- The tasks of a block, one after the other, leave what the sequential model leaves. -/
theorem joined_sequential (opts : ProcessOpts) (prepared : PreparedBlock) (w : World) :
    let t := prepared.run env opts prepared.sequential w
    t.Done ∧ joined prepared.markets.keys t = w.applyMarkets env opts prepared := by
  have hgroup : ∀ task ∈ prepared.markets.entries, prepared.group task.1 = task.2 := by
    intro task htask
    unfold PreparedBlock.group
    rw [Dict.mem_entries_iff.mp htask]
    rfl
  intro t
  constructor
  · refine (Tasks.done_run_iff _ _ _).mpr ?_
    intro m
    dsimp only
    cases hlookup : prepared.markets.lookup m with
    | none =>
        have hempty : prepared.group m = [] := by
          unfold PreparedBlock.group
          rw [hlookup]
          rfl
        rw [hempty]
        exact Nat.zero_le _
    | some events =>
        have hmem : (⟨m, events⟩ : Sigma fun _ : String => List MarketOrderEvent) ∈
            prepared.markets.entries := Dict.mem_entries_iff.mpr hlookup
        have hsub : (List.replicate (events.flatMap MarketOrderEvent.taskSteps).length m).Sublist
            prepared.sequential := by
          unfold PreparedBlock.sequential
          rw [List.flatMap_def]
          exact List.sublist_flatten_of_mem (List.mem_map.mpr ⟨_, hmem, rfl⟩)
        have hcount := hsub.count_le m
        rw [List.count_replicate_self] at hcount
        rw [hgroup _ hmem]
        exact hcount
  · obtain ⟨hend, haside⟩ := run_tasks env opts prepared.blockNum prepared.markets.entries
      prepared.markets.nodupKeys
      { shared := w
        locals := fun _ => {}
        todo := fun m => (prepared.group m).flatMap MarketOrderEvent.taskSteps }
      (fun task htask => ⟨rfl,
        congrArg (List.flatMap MarketOrderEvent.taskSteps) (hgroup task htask)⟩) w.ctx.ws
    have hws : t.shared.ctx.ws = w.ctx.ws := haside
    unfold joined
    rw [hws]
    exact hend

end World

namespace Sample

/-- An order is created on one market while another market sees a fill. -/
def twoMarkets : PreparedBlock where
  blockNum := 7
  blockDigest := "d7"
  txCount := 1
  block := ⟨7, "d7", 0, []⟩
  markets := AList.insert otherMarket
      [.filled ⟨"2", otherMarket, .buy, 500000, 10, 0, true, none⟩ account]
    (AList.insert market [.created ⟨"1", .buy, 10, account, market, .limit 500000, none⟩] ∅)
  unmapped := []

def twoNames : Set String := {market, otherMarket, market ++ ":1"}

def emptyWorld : World := { ctx := { store := {} } }

def turns : List String := (List.replicate 14 [market, otherMarket]).flatten

theorem injOn_twoNames : Set.InjOn setting.sdk.uuidV5 twoNames := by
  rintro a (rfl | rfl | rfl) b (rfl | rfl | rfl) heq
  all_goals first | rfl | exact absurd heq (by decide)

theorem group_twoMarkets (m : String) :
    twoMarkets.group m =
      if m = otherMarket then
        [.filled ⟨"2", otherMarket, .buy, 500000, 10, 0, true, none⟩ account]
      else if m = market then
        [.created ⟨"1", .buy, 10, account, market, .limit 500000, none⟩]
      else [] := by
  unfold PreparedBlock.group twoMarkets
  dsimp only
  rw [Dict.lookup_insert_ite, Dict.lookup_insert_ite]
  split_ifs <;> rfl

theorem marketKey_last (last : UInt8) :
    MarketKey setting.sdk (printAddress (List.replicate 19 0 ++ [last])) :=
  ⟨List.replicate 19 0 ++ [last], rfl, rfl⟩

theorem fits_twoMarkets : twoMarkets.Fits setting.sdk twoNames := by
  have hmarket : MarketKey setting.sdk market := marketKey_last 0xa1
  have hother : MarketKey setting.sdk otherMarket := marketKey_last 0xa2
  constructor
  · intro m hgroup
    rw [group_twoMarkets] at hgroup
    split_ifs at hgroup with h h
    · exact h ▸ ⟨hother, .inr (.inl rfl)⟩
    · exact h ▸ ⟨hmarket, .inl rfl⟩
    · exact absurd rfl hgroup
  · intro m o ho
    rw [group_twoMarkets] at ho
    split_ifs at ho with h h
    · cases List.mem_singleton.mp ho
    · cases List.mem_singleton.mp ho
      rw [h]
      exact .inr (.inr (congrArg (· ++ ":" ++ "1") normalize_market))
    · cases ho

theorem done_turns : (twoMarkets.run setting {} turns emptyWorld).Done := by
  refine (Tasks.done_run_iff _ _ _).mpr ?_
  intro m
  dsimp only
  rw [group_twoMarkets]
  split_ifs with hother hmarket
  · rw [hother]
    decide
  · rw [hmarket]
    decide
  · exact Nat.zero_le _

/-- Taking turns and one after the other leave the same. -/
theorem twoMarkets_independent :
    (joined [market, otherMarket] (twoMarkets.run setting {} turns emptyWorld)).Same
      (joined [otherMarket, market]
        (twoMarkets.run setting {} twoMarkets.sequential emptyWorld)) :=
  World.markets_independent lawful (printsApart_hexSdk _ _) ⟨fun _ _ _ _ => rfl, fun _ _ _ => rfl⟩
    injOn_twoNames
    (IndexState.sound_empty _) fits_twoMarkets {} done_turns
    (World.joined_sequential setting {} twoMarkets emptyWorld).1
    (List.Perm.swap _ _ _) (List.Perm.refl _)

end Sample

end ClobIndexer
