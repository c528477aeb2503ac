import ClobIndexer.Indexer.Footprint
import ClobIndexer.Indexer.Standalone
import ClobIndexer.Indexer.Tasks
/-!
# Steps that stay with their market

Every key of the shared maps has one owner, a market: a market key is its own, a
composite chain id belongs to the market that it begins with, a UUID to the market of
the name that it is made from.  Each step of a market task is contained in the footprint
of its market: it sees nothing else, and the other markets see nothing of it.
-/

namespace ClobIndexer

open Lib

variable {env : Env} {sdk : Sdk} {names : Set String} {start : Registry} {m : String}

/-! ## Owners -/

def keyOwner (key : String) : String := String.ofList (key.toList.takeWhile fun c => c ≠ ':')

theorem takeWhile_plain (hplain : ':' ∉ m.toList) (rest : List Char) :
    (m.toList ++ rest).takeWhile (fun c => c ≠ ':') =
      m.toList ++ rest.takeWhile fun c => c ≠ ':' := by
  apply List.takeWhile_append_of_pos
  intro c hc
  rw [decide_eq_true_eq]
  exact fun heq => hplain (heq ▸ hc)

theorem keyOwner_plain (hplain : ':' ∉ m.toList) : keyOwner m = m := by
  unfold keyOwner
  rw [← List.append_nil m.toList, takeWhile_plain hplain, List.takeWhile_nil, List.append_nil,
    String.ofList_toList]

theorem keyOwner_composite (hplain : ':' ∉ m.toList) (chainOrderId : String) :
    keyOwner (m ++ ":" ++ chainOrderId) = m := by
  have hlist : (m ++ ":" ++ chainOrderId).toList = m.toList ++ ':' :: chainOrderId.toList := by
    rw [String.toList_append, String.toList_append, List.append_assoc]
    rfl
  unfold keyOwner
  rw [hlist, takeWhile_plain hplain, List.takeWhile_cons_of_neg (by decide), List.append_nil,
    String.ofList_toList]

section Owners

variable (sdk names start)

noncomputable def idOwner (id : Uuid) : String := keyOwner (Function.invFunOn sdk.uuidV5 names id)

noncomputable def nameOwner (name : String) : String :=
  Function.invFunOn Text.toAsciiUppercase {m | MarketKey sdk m} name

/-- What a market owns, and the market that its address is bound to at the start. -/
def Footprint.ofMarket (m : String) : Footprint where
  spots := {m}
  keys := {key | keyOwner key = m}
  orderIds := {id | idOwner sdk names id = m}
  marketIds := {id | idOwner sdk names id = m ∨
    ∃ ref, start.spotToMarket.lookup m = some ref ∧ ref.marketId = id}
  spotNames := {name | nameOwner sdk name = m}

end Owners

/-- The keys of a market are in its footprint and in no other. -/
structure Footprint.Owns (sdk : Sdk) (names : Set String) (start : Registry)
    (F : String → Footprint) (m : String) : Prop where
  normal : normalizeSpotMarketKey sdk m = m
  spot : ∀ o, m ∈ (F o).spots ↔ o = m
  key : ∀ o chainOrderId, onchainOrderId sdk m chainOrderId ∈ (F o).keys ↔ o = m
  order : ∀ o chainOrderId, onchainOrderId sdk m chainOrderId ∈ names →
    (orderUuid sdk m chainOrderId ∈ (F o).orderIds ↔ o = m)
  market : marketUuid sdk m ∈ (F m).marketIds
  taken : ∀ o, o ≠ m → marketUuid sdk m ∈ (F o).marketIds → marketUuid sdk m ∈ start.markets
  bound : ∀ ref, start.spotToMarket.lookup m = some ref → ref.marketId ∈ (F m).marketIds
  name : ∀ o, Text.toAsciiUppercase m ∈ (F o).spotNames ↔ o = m

theorem Footprint.owns_ofMarket (lawful : LawfulSdk sdk) (apart : PrintsApart sdk)
    (hinj : Set.InjOn sdk.uuidV5 names)
    (hbound : ∀ spot ref, start.spotToMarket.lookup spot = some ref → ref.marketId ∈ start.markets)
    (hm : MarketKey sdk m) (hname : m ∈ names) :
    Footprint.Owns sdk names start (Footprint.ofMarket sdk names start) m := by
  have hnormal := hm.normal lawful
  have hplain := apart.plain m hm
  have hkey : ∀ chainOrderId, onchainOrderId sdk m chainOrderId = m ++ ":" ++ chainOrderId := by
    intro chainOrderId
    unfold onchainOrderId
    rw [hnormal]
  have hkeyOwner : ∀ chainOrderId, keyOwner (onchainOrderId sdk m chainOrderId) = m := by
    intro chainOrderId
    rw [hkey]
    exact keyOwner_composite hplain chainOrderId
  have hidOwner : ∀ key ∈ names, idOwner sdk names (sdk.uuidV5 key) = keyOwner key := by
    intro key hkey
    unfold idOwner
    rw [hinj.leftInvOn_invFunOn hkey]
  have hmarketOwner : idOwner sdk names (marketUuid sdk m) = m :=
    (hidOwner m hname).trans (keyOwner_plain hplain)
  have hcaseless : Set.InjOn Text.toAsciiUppercase {m | MarketKey sdk m} :=
    fun a ha b hb heq => apart.caseless a b ha hb heq
  have hnameOwner : nameOwner sdk (Text.toAsciiUppercase m) = m :=
    hcaseless.leftInvOn_invFunOn hm
  refine ⟨hnormal, ?_, ?_, ?_, .inl hmarketOwner, ?_, ?_, ?_⟩
  · intro o
    exact eq_comm
  · intro o chainOrderId
    change keyOwner _ = o ↔ _
    rw [hkeyOwner]
    exact eq_comm
  · intro o chainOrderId hmem
    change idOwner sdk names (sdk.uuidV5 (onchainOrderId sdk m chainOrderId)) = o ↔ _
    rw [hidOwner _ hmem, hkeyOwner]
    exact eq_comm
  · intro o hne hid
    rcases hid with howner | ⟨ref, hlookup, heq⟩
    · exact absurd (howner.symm.trans hmarketOwner) hne
    · rw [← heq]
      exact hbound o ref hlookup
  · intro ref hlookup
    exact .inr ⟨ref, hlookup, rfl⟩
  · intro o
    change nameOwner sdk _ = o ↔ _
    rw [hnameOwner]
    exact eq_comm

/-! ## What a task sees -/

/-- The same index on a footprint, trade ids aside. -/
structure IndexState.AgreeOn (F : Footprint) (a b : IndexState) : Prop where
  books : a.books.AgreeOn F.spots b.books
  orders : a.orders.AgreeOn F.keys F.orderIds b.orders
  registry : a.registry.AgreeOn F.spots F.marketIds F.spotNames b.registry
  vaults : a.vaults.AgreeOn F.spots b.vaults
  lastTradePrice : ∀ key ∈ F.spots, a.lastTradePrice.lookup key = b.lastTradePrice.lookup key
  time : a.indexingBlockTimestampSecs = b.indexingBlockTimestampSecs

namespace IndexState.AgreeOn

variable {F : Footprint} {a b c : IndexState}

theorem refl (F : Footprint) (a : IndexState) : AgreeOn F a a :=
  ⟨.refl _ _, .refl _ _ _, .refl _ _ _ _, .refl _ _, fun _ _ => rfl, rfl⟩

theorem trans (h : AgreeOn F a b) (h' : AgreeOn F b c) : AgreeOn F a c where
  books := h.books.trans h'.books
  orders := h.orders.trans h'.orders
  registry := h.registry.trans h'.registry
  vaults := h.vaults.trans h'.vaults
  lastTradePrice := fun key hkey => (h.lastTradePrice key hkey).trans (h'.lastTradePrice key hkey)
  time := h.time.trans h'.time

theorem symm (h : AgreeOn F a b) : AgreeOn F b a where
  books := h.books.symm
  orders := h.orders.symm
  registry := h.registry.symm
  vaults := h.vaults.symm
  lastTradePrice := fun key hkey => (h.lastTradePrice key hkey).symm
  time := h.time.symm

theorem tsMs (h : AgreeOn F a b) : a.tsMs = b.tsMs := by
  unfold IndexState.tsMs
  rw [h.time]

end IndexState.AgreeOn

structure World.AgreeOn (F : Footprint) (v w : World) : Prop where
  store : v.ctx.store.AgreeOn F w.ctx.store
  bars : ∀ key ∈ F.spots, v.bars.bySpot.lookup key = w.bars.bySpot.lookup key

theorem World.AgreeOn.refl (F : Footprint) (w : World) : AgreeOn F w w :=
  ⟨.refl F _, fun _ _ => rfl⟩

theorem World.AgreeOn.trans {F : Footprint} {u v w : World} (h : AgreeOn F u v)
    (h' : AgreeOn F v w) : AgreeOn F u w :=
  ⟨h.store.trans h'.store, fun key hkey => (h.bars key hkey).trans (h'.bars key hkey)⟩

theorem World.AgreeOn.symm {F : Footprint} {v w : World} (h : AgreeOn F v w) : AgreeOn F w v :=
  ⟨h.store.symm, fun key hkey => (h.bars key hkey).symm⟩

structure IndexWriteSet.Within (F : Footprint) (ws : IndexWriteSet) : Prop where
  incremental : ws.fullReplace = false
  markets : ws.markets.Within ∅
  orders : ws.orders.Within (Uuid.toString '' F.orderIds)
  books : BookTx.Within F.spots ⟨{}, ws.bookLevels, ws.bookMeta⟩
  lastTrades : ws.lastTrades.Within F.spots
  vaults : ws.vaults.Within ∅
  vaultPortfolio : ws.vaultPortfolio.Within {k | k.2 ∈ F.spots}

theorem IndexWriteSet.within_empty (F : Footprint) : IndexWriteSet.Within F {} where
  incremental := rfl
  markets := TableWrites.within_empty _
  orders := TableWrites.within_empty _
  books := ⟨TableWrites.within_empty _, TableWrites.within_empty _⟩
  lastTrades := TableWrites.within_empty _
  vaults := TableWrites.within_empty _
  vaultPortfolio := TableWrites.within_empty _

structure TaskLocal.Within (F : Footprint) (l : TaskLocal) : Prop where
  mapped : ∀ mapped, l.mapped = some mapped → mapped.1 ∈ F.marketIds
  ws : l.ws.Within F

structure IndexState.Settled (sdk : Sdk) (names : Set String) (start : Registry)
    (s : IndexState) : Prop where
  orders : OrderIndex.Keyed sdk names s.orders
  registry : Registry.GrownFrom sdk start s.registry

/-! ## Steps that stay in the footprint of their market -/

namespace World

/-- What the step does is contained in the footprint of the market. -/
structure Contained (sdk : Sdk) (names : Set String) (start : Registry) (F : String → Footprint)
    (m : String) (f : TaskLocal × World → TaskLocal × World) : Prop where
  keeps : ∀ {l : TaskLocal} {w : World}, l.Within (F m) → w.ctx.store.Settled sdk names start →
    (f (l, w)).1.Within (F m) ∧ (f (l, w)).2.ctx.store.Settled sdk names start ∧
      (f (l, w)).2.ctx.ws = w.ctx.ws
  own : ∀ {l : TaskLocal} {v w : World}, l.Within (F m) → v.ctx.store.Settled sdk names start →
    w.ctx.store.Settled sdk names start → v.AgreeOn (F m) w →
    (f (l, v)).1 = (f (l, w)).1 ∧ (f (l, v)).2.AgreeOn (F m) (f (l, w)).2
  frame : ∀ {o : String} {l : TaskLocal} {w : World}, o ≠ m → l.Within (F m) →
    w.ctx.store.Settled sdk names start → (f (l, w)).2.AgreeOn (F o) w

namespace Contained

variable {F : String → Footprint} {f g : TaskLocal × World → TaskLocal × World} {v w : World}

theorem of_local (h : ∀ l : TaskLocal, l.Within (F m) →
    ∃ g, Contained sdk names start F m g ∧ ∀ w, f (l, w) = g (l, w)) :
    Contained sdk names start F m f where
  keeps := by
    intro l w hl hw
    obtain ⟨g, hg, heq⟩ := h l hl
    rw [heq]
    exact hg.keeps hl hw
  own := by
    intro l v w hl hv hw hvw
    obtain ⟨g, hg, heq⟩ := h l hl
    rw [heq, heq]
    exact hg.own hl hv hw hvw
  frame := by
    intro o l w ho hl hw
    obtain ⟨g, hg, heq⟩ := h l hl
    rw [heq]
    exact hg.frame ho hl hw

theorem ask (learn : TaskLocal → World → TaskLocal) (calls : TaskLocal → World → Nat)
    (hkeeps : ∀ {l : TaskLocal} {w : World}, l.Within (F m) →
      w.ctx.store.Settled sdk names start → (learn l w).Within (F m))
    (hown : ∀ {l : TaskLocal} {v w : World}, l.Within (F m) → v.ctx.store.Settled sdk names start →
      w.ctx.store.Settled sdk names start → v.AgreeOn (F m) w → learn l v = learn l w) :
    Contained sdk names start F m fun s => (learn s.1 s.2, s.2.setCalls (calls s.1 s.2)) where
  keeps := fun hl hw => ⟨hkeeps hl hw, hw, rfl⟩
  own := fun hl hv hw hvw => ⟨hown hl hv hw hvw, ⟨hvw.store, hvw.bars⟩⟩
  frame := fun _ _ _ => ⟨.refl _ _, fun _ _ => rfl⟩

theorem learn (learn : TaskLocal → World → TaskLocal)
    (hkeeps : ∀ {l : TaskLocal} {w : World}, l.Within (F m) →
      w.ctx.store.Settled sdk names start → (learn l w).Within (F m))
    (hown : ∀ {l : TaskLocal} {v w : World}, l.Within (F m) → v.ctx.store.Settled sdk names start →
      w.ctx.store.Settled sdk names start → v.AgreeOn (F m) w → learn l v = learn l w) :
    Contained sdk names start F m fun s => (learn s.1 s.2, s.2) :=
  ask learn (fun _ w => w.ctx.calls) hkeeps hown

theorem idle : Contained sdk names start F m id :=
  learn (fun l _ => l) (fun hl _ => hl) fun _ _ _ _ => rfl

theorem andThen (hf : Contained sdk names start F m f) (hg : Contained sdk names start F m g) :
    Contained sdk names start F m fun s => g (f s) where
  keeps := by
    intro l w hl hw
    obtain ⟨hl', hw', haside⟩ := hf.keeps hl hw
    obtain ⟨hl'', hw'', haside'⟩ := hg.keeps hl' hw'
    exact ⟨hl'', hw'', haside'.trans haside⟩
  own := by
    intro l v w hl hv hw hvw
    obtain ⟨hl', hv', -⟩ := hf.keeps hl hv
    obtain ⟨-, hw', -⟩ := hf.keeps hl hw
    obtain ⟨hlocal, hagree⟩ := hf.own hl hv hw hvw
    have hpair : f (l, w) = ((f (l, v)).1, (f (l, w)).2) := Prod.ext hlocal.symm rfl
    rw [hpair]
    exact hg.own hl' hv' hw' hagree
  frame := by
    intro o l w ho hl hw
    obtain ⟨hl', hw', -⟩ := hf.keeps hl hw
    exact (hg.frame ho hl' hw').trans (hf.frame ho hl hw)

theorem onTask {f : Ctx → Ctx}
    (hkeeps : ∀ {c : Ctx}, c.ws.Within (F m) → c.store.Settled sdk names start →
      (f c).ws.Within (F m) ∧ (f c).store.Settled sdk names start)
    (hown : ∀ {c d : Ctx}, c.store.Settled sdk names start → d.store.Settled sdk names start →
      c.ws = d.ws → c.store.AgreeOn (F m) d.store →
      (f c).ws = (f d).ws ∧ (f c).store.AgreeOn (F m) (f d).store)
    (hframe : ∀ {o : String} {c : Ctx}, o ≠ m → c.store.Settled sdk names start →
      (f c).store.AgreeOn (F o) c.store) :
    Contained sdk names start F m (World.onTask f) where
  keeps := by
    intro l w hl hw
    have h := @hkeeps { w.ctx with ws := l.ws } hl.ws hw
    exact ⟨⟨hl.mapped, h.1⟩, h.2, rfl⟩
  own := by
    intro l v w hl hv hw hvw
    have h := @hown { v.ctx with ws := l.ws } { w.ctx with ws := l.ws } hv hw rfl hvw.store
    refine ⟨?_, ⟨h.2, hvw.bars⟩⟩
    unfold World.onTask
    dsimp only
    rw [h.1]
  frame := by
    intro o l w ho hl hw
    exact ⟨@hframe o { w.ctx with ws := l.ws } ho hw, fun _ _ => rfl⟩

theorem aside {f : Ctx → Ctx} (hf : ∀ c, (f c).store = c.store ∧ (f c).ws = c.ws) :
    Contained sdk names start F m (World.onTask f) := by
  apply onTask
  · intro c hws hc
    rw [(hf c).1, (hf c).2]
    exact ⟨hws, hc⟩
  · intro c d _ _ hws hcd
    rw [(hf c).1, (hf c).2, (hf d).1, (hf d).2]
    exact ⟨hws, hcd⟩
  · intro o c _ _
    rw [(hf c).1]
    exact .refl _ _

theorem message {f : Ctx → Ctx} (hf : ∀ c, ∃ hub, f c = { c with hub }) :
    Contained sdk names start F m (World.onTask f) := by
  apply aside
  intro c
  obtain ⟨hub, heq⟩ := hf c
  rw [heq]
  exact ⟨rfl, rfl⟩

section Maps

variable (lawful : LawfulSdk sdk) (owns : Footprint.Owns sdk names start F m)

include lawful owns

theorem books (op : UInt64 → BookOp) (hop : ∀ tsMs, (op tsMs).spotMarket = m) (publishWs : Bool) :
    Contained sdk names start F m
      (World.onTask fun c => c.onBooks publishWs fun t => (op c.store.tsMs).apply sdk t) := by
  have hkey : ∀ tsMs, (op tsMs).key sdk = m := by
    intro tsMs
    unfold BookOp.key
    rw [hop, owns.normal]
  have hmem : ∀ tsMs, (op tsMs).key sdk ∈ (F m).spots := by
    intro tsMs
    rw [hkey, owns.spot]
  apply onTask
  · intro c hws hc
    have hbooks : BookTx.Within (F m).spots ⟨c.store.books, c.ws.bookLevels, c.ws.bookMeta⟩ :=
      ⟨hws.books.levels, hws.books.metas⟩
    have hrows := hbooks.apply lawful (hmem c.store.tsMs)
    exact ⟨{ hws with books := ⟨hrows.levels, hrows.metas⟩ }, ⟨hc.orders, hc.registry⟩⟩
  · intro c d _ _ hws hcd
    unfold Ctx.onBooks
    dsimp only
    rw [hcd.tsMs, hws]
    have hshard := hcd.books.anonymous_shard (hmem d.store.tsMs)
    have hrows := (op d.store.tsMs).writes_apply sdk
      (s := ⟨c.store.books, d.ws.bookLevels, d.ws.bookMeta⟩)
      (t := ⟨d.store.books, d.ws.bookLevels, d.ws.bookMeta⟩) hshard rfl rfl
    rw [hrows.1, hrows.2]
    refine ⟨rfl, { hcd with books := ?_ }⟩
    exact Books.AgreeOn.own (s := ⟨c.store.books, _, _⟩) (t := ⟨d.store.books, _, _⟩) hcd.books _
  · intro o c ho _
    have hnot : (op c.store.tsMs).key sdk ∉ (F o).spots := by
      rw [hkey, owns.spot]
      exact ho
    exact { IndexState.AgreeOn.refl (F o) c.store with books := Books.AgreeOn.frame hnot _ }

omit lawful in
theorem orders_touch (change : StoredOrder → StoredOrder) (hkeeps : OrderTx.Keeps change)
    (hsame : ∀ stored, (change stored).order.id = stored.order.id)
    (hinj : Set.InjOn sdk.uuidV5 names) (chainOrderId : String) :
    Contained sdk names start F m
      (World.onTask fun c => c.onOrders fun t => t.touch sdk c.store.tsMs m chainOrderId change) := by
  have hkey : onchainOrderId sdk m chainOrderId ∈ (F m).keys := (owns.key m chainOrderId).mpr rfl
  have hid : onchainOrderId sdk m chainOrderId ∈ names →
      orderUuid sdk m chainOrderId ∈ (F m).orderIds :=
    fun hname => (owns.order m chainOrderId hname).mpr rfl
  apply onTask
  · intro c hws hc
    refine ⟨{ hws with orders := ?_ }, ⟨?_, hc.registry⟩⟩
    · exact OrderTx.within_touch (t := ⟨c.store.orders, c.ws.orders, c.history⟩) hws.orders hc.orders
        hsame c.store.tsMs fun hname => ⟨_, hid hname, rfl⟩
    · exact OrderTx.keyed_touch (t := ⟨c.store.orders, c.ws.orders, c.history⟩) hc.orders hkeeps hsame
        c.store.tsMs m chainOrderId
  · intro c d hc _ hws hcd
    have hagree : OrderTx.AgreeOn (F m).keys (F m).orderIds
        ⟨c.store.orders, c.ws.orders, c.history⟩ ⟨d.store.orders, d.ws.orders, d.history⟩ :=
      ⟨hcd.orders, congrArg IndexWriteSet.orders hws⟩
    have hafter := hagree.touch hc.orders hkey hid d.store.tsMs change
    unfold Ctx.onOrders
    dsimp only
    rw [hcd.tsMs, hws]
    rw [hws] at hafter
    exact ⟨congrArg (fun orders => { d.ws with orders }) hafter.writes,
      { hcd with orders := hafter.idx }⟩
  · intro o c ho hc
    refine { IndexState.AgreeOn.refl (F o) c.store with orders := ?_ }
    refine OrderTx.frame_touch hinj ⟨c.store.orders, c.ws.orders, c.history⟩ hc.orders hkeeps ?_ ?_
      c.store.tsMs
    · rw [owns.key]
      exact ho
    · intro hname
      rw [owns.order o chainOrderId hname]
      exact ho

theorem orders_insert (order : Order) (userAddress chainOrderId : String)
    (sizeRaw filledRaw : UInt64) (hid : order.id = orderUuid sdk m chainOrderId)
    (hname : onchainOrderId sdk m chainOrderId ∈ names) :
    Contained sdk names start F m (World.onTask fun c => c.onOrders fun t =>
      t.insertOrder sdk c.store.tsMs order userAddress m chainOrderId sizeRaw filledRaw) := by
  apply onTask
  · intro c hws hc
    refine ⟨{ hws with orders := ?_ }, ⟨?_, hc.registry⟩⟩
    · refine OrderTx.within_insertOrder (t := ⟨c.store.orders, c.ws.orders, c.history⟩) hws.orders
        c.store.tsMs userAddress m chainOrderId sizeRaw filledRaw ?_
      rw [hid]
      exact ⟨_, (owns.order m chainOrderId hname).mpr rfl, rfl⟩
    · exact OrderTx.keyed_insertOrder (t := ⟨c.store.orders, c.ws.orders, c.history⟩) lawful hc.orders
        c.store.tsMs userAddress sizeRaw filledRaw hid hname
  · intro c d _ _ hws hcd
    have hagree : OrderTx.AgreeOn (F m).keys (F m).orderIds
        ⟨c.store.orders, c.ws.orders, c.history⟩ ⟨d.store.orders, d.ws.orders, d.history⟩ :=
      ⟨hcd.orders, congrArg IndexWriteSet.orders hws⟩
    have hafter := hagree.insertOrder sdk d.store.tsMs order userAddress m chainOrderId sizeRaw
      filledRaw
    unfold Ctx.onOrders
    dsimp only
    rw [hcd.tsMs, hws]
    rw [hws] at hafter
    exact ⟨congrArg (fun orders => { d.ws with orders }) hafter.writes,
      { hcd with orders := hafter.idx }⟩
  · intro o c ho _
    refine { IndexState.AgreeOn.refl (F o) c.store with orders := ?_ }
    refine OrderTx.frame_insertOrder lawful c.store.tsMs order userAddress sizeRaw filledRaw ?_ ?_
      ⟨c.store.orders, c.ws.orders, c.history⟩
    · rw [owns.key]
      exact ho
    · rw [hid, owns.order o chainOrderId hname]
      exact ho

theorem vaults (userAddress : String) (side : OrderSide) (fillAmount : UInt64) :
    Contained sdk names start F m (World.onTask fun c => c.onVaults fun t =>
      t.applyVaultFillToPortfolio sdk userAddress m side fillAmount) := by
  have hmem : normalizeSpotMarketKey sdk m ∈ (F m).spots := by
    rw [owns.normal, owns.spot]
  apply onTask
  · intro c hws hc
    have hrows := VaultTx.within_applyVaultFill
      (t := ⟨c.store.vaults, c.ws.vaults, c.ws.vaultPortfolio⟩) lawful hws.vaultPortfolio hmem
      userAddress side fillAmount
    refine ⟨{ hws with vaults := ?_, vaultPortfolio := hrows }, ⟨hc.orders, hc.registry⟩⟩
    unfold Ctx.onVaults
    dsimp only
    rw [VaultTx.vaults_applyVaultFill]
    exact hws.vaults
  · intro c d _ _ hws hcd
    have hafter := VaultTx.own_applyVaultFill
      (s := ⟨c.store.vaults, d.ws.vaults, d.ws.vaultPortfolio⟩)
      (t := ⟨d.store.vaults, d.ws.vaults, d.ws.vaultPortfolio⟩) hcd.vaults rfl hmem userAddress side
      fillAmount
    unfold Ctx.onVaults
    dsimp only
    rw [hws, VaultTx.vaults_applyVaultFill, VaultTx.vaults_applyVaultFill, hafter.2]
    exact ⟨rfl, { hcd with vaults := hafter.1 }⟩
  · intro o c ho _
    refine { IndexState.AgreeOn.refl (F o) c.store with vaults := ?_ }
    refine VaultTx.frame_applyVaultFill ?_ userAddress side fillAmount
      ⟨c.store.vaults, c.ws.vaults, c.ws.vaultPortfolio⟩
    rw [owns.normal, owns.spot]
    exact ho

omit lawful in
theorem price (price : UInt64) :
    Contained sdk names start F m (World.onTask fun c => c.recordLastTradePrice sdk m price) := by
  apply onTask
  · intro c hws hc
    refine ⟨{ hws with lastTrades := ?_ }, ⟨hc.orders, hc.registry⟩⟩
    change TableWrites.Within _ (storeLastTrade sdk (normalizeSpotMarketKey sdk m) _ _)
    unfold storeLastTrade
    rw [owns.normal, owns.normal]
    exact hws.lastTrades.put ((owns.spot m).mpr rfl) _
  · intro c d _ _ hws hcd
    unfold Ctx.recordLastTradePrice
    dsimp only
    rw [hws]
    refine ⟨rfl, { hcd with lastTradePrice := ?_ }⟩
    intro key hkey
    dsimp only
    rw [Dict.lookup_insert_ite, Dict.lookup_insert_ite, hcd.lastTradePrice key hkey]
  · intro o c ho _
    refine { IndexState.AgreeOn.refl (F o) c.store with lastTradePrice := ?_ }
    intro key hkey
    have hne : key ≠ normalizeSpotMarketKey sdk m := by
      rw [owns.normal]
      intro heq
      rw [heq, owns.spot] at hkey
      exact ho hkey
    change AList.lookup key (c.store.lastTradePrice.insert _ price) = _
    rw [Dict.lookup_insert_ite, if_neg hne]

end Maps

section Registers

variable (lawful : LawfulSdk sdk) (owns : Footprint.Owns sdk names start F m)

include owns in
theorem marketId_mem {r : Registry} (hgrown : Registry.GrownFrom sdk start r) {ref : SpotMarketRef}
    (hlookup : r.spotToMarket.lookup m = some ref) : ref.marketId ∈ (F m).marketIds := by
  rcases hgrown.bound m ref hlookup with hold | hnew
  · exact owns.bound ref hold
  · rw [hnew]
    exact owns.market

include lawful owns in
theorem registered :
    Contained sdk names start F m fun s =>
      let r := s.2.ctx.store.registry.ensureStandaloneSpotMarket sdk m
      ({ s.1 with mapped := some r.2 }, { s.2 with ctx := s.2.ctx.setRegistry r.1 }) where
  keeps := by
    intro l w hl hw
    rcases Registry.ensureStandaloneSpotMarket_cases lawful owns.normal hw.registry.named with
      ⟨ref, hlookup, heq⟩ | ⟨-, heq⟩
    · dsimp only
      rw [heq]
      refine ⟨⟨?_, hl.ws⟩, hw, rfl⟩
      intro mapped hmapped
      cases hmapped
      exact marketId_mem owns hw.registry hlookup
    · dsimp only
      rw [heq]
      refine ⟨⟨?_, hl.ws⟩, ⟨hw.orders, ?_⟩, rfl⟩
      · intro mapped hmapped
        cases hmapped
        exact owns.market
      · change Registry.GrownFrom sdk start (if m = "" then _ else _)
        split_ifs
        · exact hw.registry
        · exact hw.registry.withShell m m ""
  own := by
    intro l v w _ hv hw hvw
    have hspot := hvw.store.registry.spots m ((owns.spot m).mpr rfl)
    dsimp only
    rcases Registry.ensureStandaloneSpotMarket_cases lawful owns.normal hv.registry.named with
      ⟨ref, hlookup, heq⟩ | ⟨hlookup, heq⟩
    · rcases Registry.ensureStandaloneSpotMarket_cases lawful owns.normal hw.registry.named with
        ⟨ref', hlookup', heq'⟩ | ⟨hlookup', -⟩
      · rw [hlookup, hlookup'] at hspot
        cases hspot
        rw [heq, heq']
        exact ⟨rfl, hvw⟩
      · rw [hlookup, hlookup'] at hspot
        cases hspot
    · rcases Registry.ensureStandaloneSpotMarket_cases lawful owns.normal hw.registry.named with
        ⟨ref', hlookup', -⟩ | ⟨-, heq'⟩
      · rw [hlookup, hlookup'] at hspot
        cases hspot
      · rw [heq, heq']
        refine ⟨rfl, ⟨{ hvw.store with registry := ?_ }, hvw.bars⟩⟩
        change Registry.AgreeOn _ _ _ (if m = "" then _ else _) (if m = "" then _ else _)
        split_ifs
        · exact hvw.store.registry
        · exact hvw.store.registry.withShell sdk m m ""
  frame := by
    intro o l w ho _ hw
    dsimp only
    rcases Registry.ensureStandaloneSpotMarket_cases lawful owns.normal hw.registry.named with
      ⟨ref, -, heq⟩ | ⟨-, heq⟩
    · rw [heq]
      exact .refl _ _
    · rw [heq]
      refine ⟨{ IndexState.AgreeOn.refl (F o) w.ctx.store with registry := ?_ }, fun _ _ => rfl⟩
      change Registry.AgreeOn _ _ _ (if m = "" then _ else _) _
      split_ifs
      · exact .refl _ _ _ _
      · have htrim : Text.trim m = m := by
          rw [← owns.normal]
          exact trim_normalize lawful m
        apply Registry.frame_withShell
        · rw [owns.spot]
          exact ho
        · intro hid
          have hstart := owns.taken o ho hid
          obtain ⟨market, hmarket⟩ := Dict.mem_iff_lookup.mp hstart
          rw [Dict.mem_iff_lookup, hw.registry.kept _ hstart]
          exact ⟨market, hmarket⟩
        · rw [htrim, owns.name]
          exact ho

end Registers

theorem candles (owns : Footprint.Owns env.sdk names start F m) (opts : ProcessOpts)
    (e : MarketOrderEvent) :
    Contained env.sdk names start F m fun s =>
      (s.1, { s.2 with bars := s.2.bars.applyMarketOrderEvent env opts m e }) where
  keeps := fun hl hw => ⟨hl, hw, rfl⟩
  own := by
    intro l v w _ _ _ hvw
    refine ⟨rfl, ⟨hvw.store, ?_⟩⟩
    intro key hkey
    have hbars := hvw.bars key hkey
    cases e with
    | filled e txSender =>
        unfold Bars.applyMarketOrderEvent
        dsimp only
        split_ifs
        · rw [Bars.lookup_onTrade, Bars.lookup_onTrade, hbars]
        · exact hbars
    | created e => exact hbars
    | cancelled e => exact hbars
    | updated e => exact hbars
    | executed e => exact hbars
  frame := by
    intro o l w ho _ _
    refine ⟨.refl _ _, ?_⟩
    intro key hkey
    cases e with
    | filled e txSender =>
        have hne : ¬(key = normalizeSpotMarketKey env.sdk m ∧ e.fillAmount ≠ 0) := by
          rintro ⟨heq, -⟩
          rw [heq, owns.normal, owns.spot] at hkey
          exact ho hkey
        unfold Bars.applyMarketOrderEvent
        dsimp only
        split_ifs
        · rw [Bars.lookup_onTrade, if_neg hne]
        · rfl
    | created e => rfl
    | cancelled e => rfl
    | updated e => rfl
    | executed e => rfl

/-! ### Each step of a task -/

section Steps

variable (owns : Footprint.Owns env.sdk names start F m)

include owns

theorem orders_find (hinv : v.ctx.store.Settled env.sdk names start)
    (h : v.AgreeOn (F m) w) (chainOrderId : String) :
    v.ctx.store.orders.find env.sdk m chainOrderId =
      w.ctx.store.orders.find env.sdk m chainOrderId :=
  h.store.orders.find hinv.orders ((owns.key m chainOrderId).mpr rfl)
    fun hname => (owns.order m chainOrderId hname).mpr rfl

theorem enter (e : MarketOrderEvent) :
    Contained env.sdk names start F m fun s => World.enter env m s e := by
  have hknown : ∀ chainOrderId, Contained env.sdk names start F m fun s =>
      ({ s.1 with skip := s.2.ctx.store.orders.hasChainOrder env.sdk m chainOrderId }, s.2) := by
    intro chainOrderId
    refine learn (fun l w =>
      { l with skip := w.ctx.store.orders.hasChainOrder env.sdk m chainOrderId }) ?_ ?_
    · exact fun hl _ => ⟨hl.mapped, hl.ws⟩
    · intro l v w _ _ _ hvw
      unfold OrderIndex.hasChainOrder
      rw [hvw.store.orders.byId _ ((owns.key m chainOrderId).mpr rfl)]
  have hnew : Contained env.sdk names start F m fun s => ({ s.1 with skip := false }, s.2) :=
    learn (fun l _ => { l with skip := false }) (fun hl _ => ⟨hl.mapped, hl.ws⟩)
      fun _ _ _ _ => rfl
  cases e with
  | created e => exact hknown e.orderId
  | executed e => exact hknown e.orderId
  | cancelled e => exact hnew
  | updated e => exact hnew
  | filled e txSender => exact hnew.andThen (price owns e.price)

theorem probe (e : MarketOrderEvent) :
    Contained env.sdk names start F m fun s => World.probe env m s e := by
  refine learn (fun l w => { l with loads := e.needsBook && !l.skip &&
    !w.ctx.store.books.isChainHydrated env.sdk m }) ?_ ?_
  · exact fun hl _ => ⟨hl.mapped, hl.ws⟩
  · intro l v w _ _ _ hvw
    have hkey : normalizeSpotMarketKey env.sdk m ∈ (F m).spots := by
      rw [owns.normal, owns.spot]
    rw [hvw.store.books.isChainHydrated hkey]

omit owns in
theorem fetch (steady : env.chain.Steady) :
    Contained env.sdk names start F m fun s => World.fetch env m s := by
  have hnone : Contained env.sdk names start F m fun s => ({ s.1 with answer := none }, s.2) :=
    learn (fun l _ => { l with answer := none }) (fun hl _ => ⟨hl.mapped, hl.ws⟩)
      fun _ _ _ _ => rfl
  apply of_local
  intro l _
  unfold World.fetch
  cases env.sdk.parseTokenContract m with
  | none => exact ⟨_, hnone, fun w => rfl⟩
  | some contract =>
      let asked (w : World) := getBookWithDepthFallback env.chain contract defaultBookDepth
        defaultBookDepth w.ctx.calls
      dsimp only
      split_ifs
      · refine ⟨_, ask (fun l w => { l with answer := (asked w).1 }) (fun _ w => (asked w).2) ?_ ?_,
          fun w => rfl⟩
        · exact fun hl _ => ⟨hl.mapped, hl.ws⟩
        · intro l v w _ _ _ _
          have hanswer : (asked v).1 = (asked w).1 :=
            getBookWithDepthFallback_steady steady contract _ _ _ _
          rw [hanswer]
      · exact ⟨_, hnone, fun w => rfl⟩

theorem askPrice (steady : env.chain.Steady) :
    Contained env.sdk names start F m fun s => World.price env m s := by
  have hnone : Contained env.sdk names start F m fun s => ({ s.1 with view := none }, s.2) :=
    learn (fun l _ => { l with view := none }) (fun hl _ => ⟨hl.mapped, hl.ws⟩)
      fun _ _ _ _ => rfl
  have hkey : normalizeSpotMarketKey env.sdk m ∈ (F m).spots := by
    rw [owns.normal, owns.spot]
  apply of_local
  rintro ⟨ws, skip, loads, answer, view, mapped, texts, owner⟩ _
  unfold World.price
  dsimp only
  cases answer with
  | none => exact ⟨_, hnone, fun w => rfl⟩
  | some book =>
      cases env.sdk.parseTokenContract m with
      | none => exact ⟨_, hnone, fun w => rfl⟩
      | some contract =>
          let known (w : World) :=
            w.ctx.store.lastTradePrice.lookup (normalizeSpotMarketKey env.sdk m)
          let told (w : World) : Option (GetOrderBook × Option UInt64) :=
            (known w).elim
              ((env.chain.getMarketInfo w.ctx.calls contract).map fun price => (book, price))
              fun price => some (book, some price)
          let calls (w : World) := (known w).elim (w.ctx.calls + 1) fun _ => w.ctx.calls
          refine ⟨_, ask (fun l w => { l with view := told w }) (fun _ w => calls w) ?_ ?_, ?_⟩
          · exact fun hl _ => ⟨hl.mapped, hl.ws⟩
          · intro l v w _ _ _ hvw
            have hknown : known v = known w := hvw.store.lastTradePrice _ hkey
            simp only [told, hknown, steady.getMarketInfo v.ctx.calls w.ctx.calls]
          · intro w
            simp only [told, calls, known]
            cases w.ctx.store.lastTradePrice.lookup (normalizeSpotMarketKey env.sdk m) with
            | some price => rfl
            | none => rfl

theorem install (lawful : LawfulSdk env.sdk) :
    Contained env.sdk names start F m fun s => World.install env m s := by
  apply of_local
  intro l _
  unfold World.install
  dsimp only
  cases l.view with
  | none => exact ⟨_, idle, fun w => rfl⟩
  | some view =>
      exact ⟨_, books lawful owns (fun _ => .hydrate m view.1 view.2) (fun _ => rfl) false,
        fun w => rfl⟩

theorem lookup (e : MarketOrderEvent) :
    Contained env.sdk names start F m fun s => World.lookup env m s e := by
  apply of_local
  intro l _
  unfold World.lookup
  dsimp only
  split_ifs
  · refine ⟨_, learn (fun l w =>
      { l with mapped := w.ctx.store.registry.lookupSpotMarket env.sdk m }) ?_ ?_, fun w => rfl⟩
    · intro l w hl hw
      refine ⟨?_, hl.ws⟩
      intro mapped hmapped
      obtain ⟨ref, hlookup, rfl⟩ := Option.map_eq_some_iff.mp hmapped
      rw [owns.normal] at hlookup
      exact marketId_mem owns hw.registry hlookup
    · intro l v w _ _ _ hvw
      unfold Registry.lookupSpotMarket
      rw [owns.normal, hvw.store.registry.spots m ((owns.spot m).mpr rfl)]
  · exact ⟨_, idle, fun w => rfl⟩

theorem register (lawful : LawfulSdk env.sdk) (e : MarketOrderEvent) :
    Contained env.sdk names start F m fun s => World.register env m s e := by
  apply of_local
  intro l _
  unfold World.register
  dsimp only
  split_ifs
  · exact ⟨_, registered lawful owns, fun w => rfl⟩
  · exact ⟨_, idle, fun w => rfl⟩

omit owns in
theorem describe (e : MarketOrderEvent) :
    Contained env.sdk names start F m fun s => World.describe s e := by
  apply of_local
  rintro ⟨ws, skip, loads, answer, view, mapped, texts, owner⟩ hl
  unfold World.describe
  dsimp only
  cases mapped with
  | none => exact ⟨_, idle, fun w => rfl⟩
  | some mapped =>
      dsimp only
      split_ifs
      · refine ⟨_, learn (fun l w =>
          { l with texts := marketTexts w.ctx.store.registry mapped.1 }) ?_ ?_, fun w => rfl⟩
        · exact fun hl _ => ⟨hl.mapped, hl.ws⟩
        · intro l v w _ _ _ hvw
          unfold marketTexts Registry.getMarket
          rw [hvw.store.registry.markets _ (hl.mapped mapped rfl)]
      · exact ⟨_, idle, fun w => rfl⟩

theorem book (lawful : LawfulSdk env.sdk) (opts : ProcessOpts) (blockNum : UInt64)
    (e : MarketOrderEvent) :
    Contained env.sdk names start F m fun s =>
      World.onTask (fun c => c.applyToBook env opts blockNum m s.1.skip e) s := by
  have hidle : Contained env.sdk names start F m (World.onTask fun c => c) :=
    message fun c => ⟨c.hub, rfl⟩
  apply of_local
  intro l _
  refine ⟨World.onTask fun c => c.applyToBook env opts blockNum m l.skip e, ?_, fun w => rfl⟩
  cases e with
  | created e =>
      unfold Ctx.applyToBook Ctx.applyOrderCreatedToBook
      dsimp only
      split_ifs
      · exact hidle
      · cases e.orderType with
        | limit price =>
            exact books lawful owns
              (fun _ => .created m e.side price e.amount blockNum opts.publishWs) (fun _ => rfl) _
        | market => exact hidle
        | trigger limitPrice => exact hidle
  | cancelled e =>
      exact books lawful owns (fun _ =>
        .cancelled m e.side e.price e.cancelledAmount blockNum opts.publishWs) (fun _ => rfl) _
  | updated e =>
      exact books lawful owns (fun _ => .updated m e.side e.price e.oldAmount e.newAmount
        e.remainingAmount blockNum opts.publishWs) (fun _ => rfl) _
  | filled e txSender =>
      exact books lawful owns (fun tsMs => .filled m e.side e.price e.fillAmount blockNum e.price
        opts.publishWs (if tsMs = 0 then none else some tsMs) env.nowMs) (fun _ => rfl) _
  | executed e => exact hidle

theorem order (lawful : LawfulSdk env.sdk) (hinj : Set.InjOn env.sdk.uuidV5 names)
    (e : MarketOrderEvent)
    (hname : ∀ o, e = .created o → onchainOrderId env.sdk m o.orderId ∈ names) :
    Contained env.sdk names start F m fun s => World.order env m s e := by
  apply of_local
  intro l _
  cases e with
  | created e =>
      unfold World.order
      dsimp only
      cases l.mapped with
      | none => exact ⟨_, idle, fun w => rfl⟩
      | some mapped =>
          dsimp only
          split_ifs
          · exact ⟨_, idle, fun w => rfl⟩
          · exact ⟨_, orders_insert lawful owns (createdOrder env m mapped l.texts e) e.creator
              e.orderId e.amount 0 rfl (hname e rfl), fun w => rfl⟩
  | executed e =>
      unfold World.order
      dsimp only
      cases l.mapped with
      | none => exact ⟨_, idle, fun w => rfl⟩
      | some mapped =>
          dsimp only
          split_ifs
          · exact ⟨_, idle, fun w => rfl⟩
          · refine ⟨_, aside ?_, fun w => rfl⟩
            have hterminal : isHotOrderStatus (executedOrder env m mapped l.texts e).status = false :=
              Ctx.isHot_executedStatus e
            intro c
            unfold Ctx.onOrders OrderTx.insertOrder
            dsimp only
            rw [hterminal, if_neg Bool.false_ne_true]
            exact ⟨rfl, rfl⟩
  | cancelled e =>
      refine ⟨_, orders_touch owns OrderTx.cancelled OrderTx.keeps_cancelled (fun _ => rfl) hinj
        e.orderId, fun w => ?_⟩
      simp only [World.order, OrderTx.updateOrderCancelled_eq_touch]
  | updated e =>
      exact ⟨_, orders_touch owns (OrderTx.resized e.newAmount e.remainingAmount)
        (OrderTx.keeps_resized _ _) (fun _ => rfl) hinj e.orderId, fun w => rfl⟩
  | filled e txSender =>
      exact ⟨_, orders_touch owns
        (OrderTx.afterFill e.fillAmount e.remainingAmount e.isFullyFilled)
        (OrderTx.keeps_afterFill _ _ _) (fun _ => rfl) hinj e.orderId, fun w => rfl⟩

theorem owner (e : MarketOrderEvent) :
    Contained env.sdk names start F m fun s => World.owner env m s e := by
  cases e with
  | filled e txSender =>
      let found (w : World) := w.ctx.store.orders.storedOrderByChainId env.sdk m e.orderId
      refine learn (fun l w => { l with owner := (found w).map fun r => r.2.1 }) ?_ ?_
      · exact fun hl _ => ⟨hl.mapped, hl.ws⟩
      · intro l v w _ hv _ hvw
        have hfound : found v = found w := by
          simp only [found, OrderIndex.storedOrderByChainId, orders_find owns hv hvw]
        rw [hfound]
  | created e => exact idle
  | cancelled e => exact idle
  | updated e => exact idle
  | executed e => exact idle

theorem vault (lawful : LawfulSdk env.sdk) (e : MarketOrderEvent) :
    Contained env.sdk names start F m fun s => World.vault env m s e := by
  cases e with
  | filled e txSender =>
      apply of_local
      intro l _
      unfold World.vault
      dsimp only
      cases l.owner with
      | none => exact ⟨_, idle, fun w => rfl⟩
      | some userAddress =>
          exact ⟨_, vaults lawful owns userAddress e.side e.fillAmount, fun w => rfl⟩
  | created e => exact idle
  | cancelled e => exact idle
  | updated e => exact idle
  | executed e => exact idle

omit owns in
theorem publish (opts : ProcessOpts) (blockNum : UInt64) (e : MarketOrderEvent) :
    Contained env.sdk names start F m fun s => World.publish env opts blockNum m s e := by
  have hidle : Contained env.sdk names start F m (World.onTask fun c => c) :=
    message fun c => ⟨c.hub, rfl⟩
  apply of_local
  intro l _
  unfold World.publish
  split_ifs
  · refine ⟨World.onTask fun c => publishTo env blockNum m l c e, ?_, fun w => rfl⟩
    cases e with
    | created e =>
        unfold publishTo
        dsimp only
        split_ifs
        · exact hidle
        · exact message fun c => Ctx.publishStoredOrder_hub c _ m e.orderId blockNum
    | cancelled e => exact message fun c => Ctx.publishStoredOrder_hub c _ m e.orderId blockNum
    | updated e => exact message fun c => Ctx.publishStoredOrder_hub c _ m e.orderId blockNum
    | filled e txSender =>
        exact message fun c => Ctx.publishUserOrderFilled_hub c e m blockNum txSender
    | executed e =>
        unfold publishTo
        dsimp only
        cases l.mapped with
        | none => exact hidle
        | some mapped =>
            dsimp only
            split_ifs
            · exact hidle
            · exact message fun c => Ctx.publishExecuted_hub c m blockNum e _
  · exact ⟨_, idle, fun w => rfl⟩

/-- Every step of a market task is contained in the footprint of the market. -/
theorem perform (lawful : LawfulSdk env.sdk) (steady : env.chain.Steady)
    (hinj : Set.InjOn env.sdk.uuidV5 names) (opts : ProcessOpts) (blockNum : UInt64)
    (step : TaskStep)
    (hname : ∀ o, step.event = .created o → onchainOrderId env.sdk m o.orderId ∈ names) :
    Contained env.sdk names start F m fun s => World.perform env opts blockNum m step s := by
  obtain ⟨phase, e⟩ := step
  cases phase with
  | enter => exact enter owns e
  | candles => exact candles owns opts e
  | probe => exact probe owns e
  | fetch => exact fetch steady
  | price => exact askPrice owns steady
  | install => exact install owns lawful
  | book => exact book owns lawful opts blockNum e
  | lookup => exact lookup owns e
  | register => exact register owns lawful e
  | describe => exact describe e
  | order => exact order owns lawful hinj e hname
  | owner => exact owner owns e
  | vault => exact vault owns lawful e
  | publish => exact publish opts blockNum e

end Steps

end Contained

end World

end ClobIndexer
