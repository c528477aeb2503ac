import ClobIndexer.Indexer.BookShard
import ClobIndexer.Indexer.OrderIndexes
import ClobIndexer.Indexer.RowsWritten
/-!
# What a market task can see

The maps of the index are shared by all markets, but a task reads and writes them at
keys of its own market.  Two indexes agree on a footprint when they hold the same at
its keys, trade ids aside.  For every operation on a map: run on two indexes that agree
on a footprint with its keys in it, it gives the same result and leaves them agreeing;
and an index agrees with itself before the operation on a footprint without its keys.
-/

namespace ClobIndexer

open Lib

variable {sdk : Sdk}

/-- The keys of some entries in the shared maps. -/
structure Footprint where
  /-- market keys: books, bindings, holdings, last prices and candles -/
  spots : Set String
  /-- composite chain ids -/
  keys : Set String
  orderIds : Set Uuid
  marketIds : Set Uuid
  /-- names of spot markets -/
  spotNames : Set String

/-! ## Books -/

/-- The same books at the given keys, but for the ids of trades. -/
def Books.AgreeOn (S : Set String) (b b' : Books) : Prop :=
  ∀ key ∈ S, (b.shards.lookup key).map SpotBook.anonymous =
    (b'.shards.lookup key).map SpotBook.anonymous

namespace Books.AgreeOn

variable {S : Set String} {b b' : Books}

theorem anonymous_shard (h : AgreeOn S b b') {key : String} (hkey : key ∈ S) :
    (b.shard key).anonymous = (b'.shard key).anonymous := by
  have hlookup := h key hkey
  unfold Books.shard
  cases hb : b.shards.lookup key with
  | none =>
      cases hb' : b'.shards.lookup key with
      | none => rfl
      | some book' => simp [hb, hb'] at hlookup
  | some book =>
      cases hb' : b'.shards.lookup key with
      | none => simp [hb, hb'] at hlookup
      | some book' => simpa [hb, hb'] using hlookup

theorem isChainHydrated (h : AgreeOn S b b') {spotMarket : String}
    (hkey : normalizeSpotMarketKey sdk spotMarket ∈ S) :
    b.isChainHydrated sdk spotMarket = b'.isChainHydrated sdk spotMarket := by
  have hflag := congrArg SpotBook.chainHydrated (h.anonymous_shard hkey)
  rw [BookTx.isChainHydrated_eq, BookTx.isChainHydrated_eq]
  exact hflag

theorem refl (S : Set String) (b : Books) : AgreeOn S b b := fun _ _ => rfl

theorem trans {c : Books} (h : AgreeOn S b b') (h' : AgreeOn S b' c) : AgreeOn S b c :=
  fun key hkey => (h key hkey).trans (h' key hkey)

theorem symm (h : AgreeOn S b b') : AgreeOn S b' b := fun key hkey => (h key hkey).symm

theorem own {s t : BookTx} (h : AgreeOn S s.books t.books) (op : BookOp) :
    AgreeOn S (op.apply sdk s).1.books (op.apply sdk t).1.books := by
  intro key hkey
  rw [BookOp.lookup_apply, BookOp.lookup_apply]
  split_ifs
  · rw [Option.map_some, Option.map_some, op.anonymous_onBook _ 0, h.anonymous_shard hkey,
      ← op.anonymous_onBook _ 0]
  · exact h key hkey

theorem frame {op : BookOp} (hkey : op.key sdk ∉ S) (t : BookTx) :
    AgreeOn S (op.apply sdk t).1.books t.books := by
  intro key hmem
  have hne : key ≠ op.key sdk := fun heq => hkey (heq ▸ hmem)
  rw [BookOp.lookup_apply, if_neg fun h => hne h.1]

end Books.AgreeOn

section Rows

variable {S : Set String} {levels : TableWrites LevelKey Int64} {metas : TableWrites String BookMetaRow}
  {key : String}

theorem within_storeBookLevel (lawful : LawfulSdk sdk)
    (hkey : normalizeSpotMarketKey sdk key ∈ S) (side : String) (price size : Int64)
    (h : levels.Within {k | k.1 ∈ S}) :
    (storeBookLevel sdk (normalizeSpotMarketKey sdk key) side price size levels).Within
      {k | k.1 ∈ S} := by
  unfold storeBookLevel
  dsimp only
  rw [normalize_normalize lawful]
  split_ifs
  · exact h.remove hkey
  · exact h.put hkey size

theorem within_deleteBookLevel (lawful : LawfulSdk sdk)
    (hkey : normalizeSpotMarketKey sdk key ∈ S) (side : String) (price : Int64)
    (h : levels.Within {k | k.1 ∈ S}) :
    (deleteBookLevel sdk (normalizeSpotMarketKey sdk key) side price levels).Within
      {k | k.1 ∈ S} := by
  unfold deleteBookLevel
  rw [normalize_normalize lawful]
  exact h.remove hkey

theorem within_storeBookMeta (lawful : LawfulSdk sdk)
    (hkey : normalizeSpotMarketKey sdk key ∈ S) (row : BookMetaRow) (h : metas.Within S) :
    (storeBookMeta sdk (normalizeSpotMarketKey sdk key) row metas).Within S := by
  unfold storeBookMeta
  rw [normalize_normalize lawful]
  exact h.put hkey row

structure BookTx.Within (S : Set String) (t : BookTx) : Prop where
  levels : t.levels.Within {k | k.1 ∈ S}
  metas : t.metas.Within S

namespace BookTx.Within

variable {t : BookTx} {spotMarket : String}

theorem changeLevel (lawful : LawfulSdk sdk) (hkey : normalizeSpotMarketKey sdk spotMarket ∈ S)
    (h : t.Within S) (side : OrderSide) (priceRaw amountRaw : UInt64) (isAdd : Bool)
    (blockNum : UInt64) (lastTradePrice : Option UInt64) :
    (t.changeLevel sdk spotMarket side priceRaw amountRaw isAdd blockNum lastTradePrice).1.Within
      S := by
  unfold BookTx.changeLevel Books.applyLevelChange
  dsimp only
  refine ⟨?_, within_storeBookMeta lawful hkey _ h.metas⟩
  generalize (if isAdd = true then _ else _) = next
  split_ifs
  · exact within_deleteBookLevel lawful hkey _ _ h.levels
  · exact within_storeBookLevel lawful hkey _ _ _ h.levels

theorem hydrateFromChain (lawful : LawfulSdk sdk)
    (hkey : normalizeSpotMarketKey sdk spotMarket ∈ S) (h : t.Within S)
    (chainBook : GetOrderBook) (lastTradePrice : Option UInt64) :
    (t.hydrateFromChain sdk spotMarket chainBook lastTradePrice).Within S := by
  have hdrop : ∀ side resting levels, TableWrites.Within {k : LevelKey | k.1 ∈ S} levels →
      (dropSide sdk (normalizeSpotMarketKey sdk spotMarket) side resting levels).Within
        {k | k.1 ∈ S} := by
    intro side resting levels hlevels
    refine List.foldlRecOn (motive := fun w => TableWrites.Within {k : LevelKey | k.1 ∈ S} w) _ _
      hlevels ?_
    intro w hw e _
    exact within_deleteBookLevel lawful hkey _ _ hw
  have hload : ∀ side chainLevels (acc : Dict UInt64 UInt64 × TableWrites LevelKey Int64),
      acc.2.Within {k | k.1 ∈ S} →
      (loadSide sdk (normalizeSpotMarketKey sdk spotMarket) side chainLevels acc).2.Within
        {k | k.1 ∈ S} := by
    intro side chainLevels acc hacc
    refine List.foldlRecOn (motive := fun a : Dict UInt64 UInt64 × TableWrites LevelKey Int64 =>
      a.2.Within {k | k.1 ∈ S}) _ _ hacc ?_
    intro a ha level _
    split_ifs
    · exact ha
    · exact within_storeBookLevel lawful hkey _ _ _ ha
  unfold BookTx.hydrateFromChain
  dsimp only
  refine ⟨?_, within_storeBookMeta lawful hkey _ h.metas⟩
  exact hload _ _ _ (hload _ _ _ (hdrop _ _ _ (hdrop _ _ _ h.levels)))

theorem apply (lawful : LawfulSdk sdk) {op : BookOp} (hkey : op.key sdk ∈ S) (h : t.Within S) :
    (op.apply sdk t).1.Within S := by
  cases op with
  | created spotMarket side priceRaw amountRaw blockNum publishWs =>
      simp only [BookOp.apply, BookTx.applyCreated]
      split_ifs
      · exact h
      · exact h.changeLevel lawful hkey side priceRaw amountRaw true blockNum none
  | cancelled spotMarket side priceRaw amountRaw blockNum publishWs =>
      simp only [BookOp.apply, BookTx.applyCancelled]
      split_ifs
      · exact h
      · exact h.changeLevel lawful hkey side priceRaw amountRaw false blockNum none
  | updated spotMarket side priceRaw oldAmountRaw newAmountRaw newRemainingRaw blockNum publishWs =>
      simp only [BookOp.apply, BookTx.applyUpdated]
      split_ifs
      · exact h
      · exact h.changeLevel lawful hkey side priceRaw _ true blockNum none
      · exact h.changeLevel lawful hkey side priceRaw _ false blockNum none
  | filled spotMarket side priceRaw fillAmountRaw blockNum lastTradePrice publishWs tradeTimeMs
      nowMs =>
      obtain ⟨hlevels, hmetas⟩ := BookTx.writes_applyFilled sdk t spotMarket side priceRaw
        fillAmountRaw blockNum lastTradePrice tradeTimeMs nowMs
      have hchange := h.changeLevel lawful hkey side priceRaw fillAmountRaw false blockNum
        (some lastTradePrice)
      constructor
      · simp only [BookOp.apply, hlevels]
        split_ifs
        · exact h.levels
        · exact hchange.levels
      · simp only [BookOp.apply, hmetas]
        split_ifs
        · exact h.metas
        · exact hchange.metas
  | hydrate spotMarket chainBook lastTradePrice =>
      exact h.hydrateFromChain lawful hkey chainBook lastTradePrice

end BookTx.Within

end Rows

/-! ## Orders -/

namespace OrderIndex

structure AgreeOn (K : Set String) (I : Set Uuid) (a b : OrderIndex) : Prop where
  byId : ∀ key ∈ K, a.ordersById.lookup key = b.ordersById.lookup key
  orders : ∀ id ∈ I, a.orders.lookup id = b.orders.lookup id
  byUser : ∀ id ∈ I, ∀ user, id ∈ a.idsOf user ↔ id ∈ b.idsOf user

/-- Every composite id that is known leads to its UUID, and every id is the UUID of
what is stored under it. -/
structure Keyed (sdk : Sdk) (names : Set String) (idx : OrderIndex) : Prop where
  wf : idx.WellFormed
  byId : ∀ key id, idx.ordersById.lookup key = some id → key ∈ names ∧ id = sdk.uuidV5 key
  stored : Named sdk names idx

variable {names : Set String} {K : Set String} {I : Set Uuid} {idx a b : OrderIndex}
  {spotMarket chainOrderId : String} {id : Uuid} {stored : StoredOrder}

theorem AgreeOn.refl (K : Set String) (I : Set Uuid) (idx : OrderIndex) : AgreeOn K I idx idx :=
  ⟨fun _ _ => rfl, fun _ _ => rfl, fun _ _ _ => Iff.rfl⟩

theorem AgreeOn.trans {c : OrderIndex} (h : AgreeOn K I a b) (h' : AgreeOn K I b c) :
    AgreeOn K I a c where
  byId := fun key hkey => (h.byId key hkey).trans (h'.byId key hkey)
  orders := fun id hid => (h.orders id hid).trans (h'.orders id hid)
  byUser := fun id hid user => (h.byUser id hid user).trans (h'.byUser id hid user)

theorem AgreeOn.symm (h : AgreeOn K I a b) : AgreeOn K I b a where
  byId := fun key hkey => (h.byId key hkey).symm
  orders := fun id hid => (h.orders id hid).symm
  byUser := fun id hid user => (h.byUser id hid user).symm

theorem Indexed.keyed (h : Indexed sdk idx) (hwf : idx.WellFormed) (hnamed : Named sdk names idx) :
    Keyed sdk names idx := by
  refine ⟨hwf, fun key id hlookup => ?_, hnamed⟩
  obtain ⟨stored, hstored, rfl⟩ := (h.byId key id).mp hlookup
  exact hnamed id stored hstored

theorem Keyed.key_of_find (h : Keyed sdk names idx) (hinj : Set.InjOn sdk.uuidV5 names)
    (hfind : idx.find sdk spotMarket chainOrderId = some (id, stored)) :
    id = orderUuid sdk spotMarket chainOrderId ∧
      stored.key sdk = onchainOrderId sdk spotMarket chainOrderId ∧
      onchainOrderId sdk spotMarket chainOrderId ∈ names := by
  obtain ⟨hkey, hid⟩ := find_eq_some_iff.mp hfind
  obtain ⟨hname, huuid⟩ := h.byId _ _ hkey
  obtain ⟨hname', huuid'⟩ := h.stored _ _ hid
  exact ⟨huuid, hinj hname' hname (huuid'.symm.trans huuid), hname⟩

theorem AgreeOn.find (h : AgreeOn K I a b) (ha : Keyed sdk names a)
    (hkey : onchainOrderId sdk spotMarket chainOrderId ∈ K)
    (hid : onchainOrderId sdk spotMarket chainOrderId ∈ names →
      orderUuid sdk spotMarket chainOrderId ∈ I) :
    a.find sdk spotMarket chainOrderId = b.find sdk spotMarket chainOrderId := by
  unfold OrderIndex.find
  rw [← h.byId _ hkey]
  cases hlookup : a.ordersById.lookup (onchainOrderId sdk spotMarket chainOrderId) with
  | none => rfl
  | some id =>
      obtain ⟨hname, huuid⟩ := ha.byId _ _ hlookup
      dsimp only
      rw [h.orders id (huuid ▸ hid hname)]

end OrderIndex

namespace OrderTx

open OrderIndex

variable {names : Set String} {K : Set String} {I : Set Uuid} {s t : OrderTx}
  {spotMarket chainOrderId : String} {id : Uuid} {stored : StoredOrder}

structure AgreeOn (K : Set String) (I : Set Uuid) (s t : OrderTx) : Prop where
  idx : s.idx.AgreeOn K I t.idx
  writes : s.writes = t.writes

variable (sdk) in
theorem AgreeOn.insertOrder (h : AgreeOn K I s t) (tsMs : UInt64) (order : Order)
    (userAddress spotMarket chainOrderId : String) (sizeRaw filledRaw : UInt64) :
    AgreeOn K I
      (s.insertOrder sdk tsMs order userAddress spotMarket chainOrderId sizeRaw filledRaw)
      (t.insertOrder sdk tsMs order userAddress spotMarket chainOrderId sizeRaw filledRaw) := by
  unfold OrderTx.insertOrder
  dsimp only
  split_ifs
  · refine ⟨⟨?_, ?_, ?_⟩, by rw [h.writes]⟩
    · intro key hkey
      dsimp only
      rw [Dict.lookup_insert_ite, Dict.lookup_insert_ite, h.idx.byId key hkey]
    · intro id hid
      dsimp only
      rw [Dict.lookup_insert_ite, Dict.lookup_insert_ite, h.idx.orders id hid]
    · intro id hid user
      rw [← idsOf, ← idsOf, mem_idsOf_insert, mem_idsOf_insert, h.idx.byUser id hid user]
  · exact ⟨h.idx, h.writes⟩

variable (sdk) in
theorem AgreeOn.settle (h : AgreeOn K I s t) (tsMs : UInt64) (id : Uuid) (stored : StoredOrder) :
    AgreeOn K I (s.settle sdk tsMs id stored) (t.settle sdk tsMs id stored) := by
  unfold OrderTx.settle
  split_ifs
  · refine ⟨⟨h.idx.byId, ?_, h.idx.byUser⟩, by rw [h.writes]⟩
    intro id' hid
    dsimp only
    rw [Dict.lookup_insert_ite, Dict.lookup_insert_ite, h.idx.orders id' hid]
  · refine ⟨⟨?_, ?_, ?_⟩, ?_⟩
    · intro key hkey
      change AList.lookup key (s.idx.ordersById.erase _) = AList.lookup key (t.idx.ordersById.erase _)
      rw [Dict.lookup_erase_ite, Dict.lookup_erase_ite, h.idx.byId key hkey]
    · intro id' hid
      change AList.lookup id' (s.idx.orders.erase _) = AList.lookup id' (t.idx.orders.erase _)
      rw [Dict.lookup_erase_ite, Dict.lookup_erase_ite, h.idx.orders id' hid]
    · intro id' hid user
      change id' ∈ (s.idx.removeHotOrder sdk id stored).idsOf user ↔
        id' ∈ (t.idx.removeHotOrder sdk id stored).idsOf user
      rw [mem_idsOf_removeHotOrder, mem_idsOf_removeHotOrder, h.idx.byUser id' hid user]
    · change deleteOrder id.toString s.writes = deleteOrder id.toString t.writes
      rw [h.writes]

theorem AgreeOn.touch (h : AgreeOn K I s t) (hs : Keyed sdk names s.idx)
    (hkey : onchainOrderId sdk spotMarket chainOrderId ∈ K)
    (hid : onchainOrderId sdk spotMarket chainOrderId ∈ names →
      orderUuid sdk spotMarket chainOrderId ∈ I) (tsMs : UInt64)
    (change : StoredOrder → StoredOrder) :
    AgreeOn K I (s.touch sdk tsMs spotMarket chainOrderId change)
      (t.touch sdk tsMs spotMarket chainOrderId change) := by
  unfold OrderTx.touch
  rw [← h.idx.find hs hkey hid]
  cases s.idx.find sdk spotMarket chainOrderId with
  | none => exact h
  | some found => exact h.settle sdk tsMs found.1 (change found.2)

theorem frame_insertOrder (lawful : LawfulSdk sdk) (tsMs : UInt64) (order : Order)
    (userAddress : String) (sizeRaw filledRaw : UInt64)
    (hkey : onchainOrderId sdk spotMarket chainOrderId ∉ K) (hid : order.id ∉ I) (t : OrderTx) :
    (t.insertOrder sdk tsMs order userAddress spotMarket chainOrderId sizeRaw
      filledRaw).idx.AgreeOn K I t.idx := by
  unfold insertOrder
  dsimp only
  split_ifs
  · refine ⟨?_, ?_, ?_⟩
    · intro key hmem
      have hne : key ≠ onchainOrderId sdk (normalizeSpotMarketKey sdk spotMarket) chainOrderId := by
        rw [onchainOrderId_normalize lawful]
        exact fun heq => hkey (heq ▸ hmem)
      dsimp only
      rw [Dict.lookup_insert_ite, if_neg hne]
    · intro id hmem
      have hne : id ≠ order.id := fun heq => hid (heq ▸ hmem)
      dsimp only
      rw [Dict.lookup_insert_ite, if_neg hne]
    · intro id hmem user
      rw [← idsOf, mem_idsOf_insert]
      have hne : id ≠ order.id := fun heq => hid (heq ▸ hmem)
      simp [hne]
  · exact OrderIndex.AgreeOn.refl K I t.idx

theorem frame_settle (tsMs : UInt64) (hkey : stored.key sdk ∉ K) (hid : id ∉ I) (t : OrderTx) :
    (t.settle sdk tsMs id stored).idx.AgreeOn K I t.idx := by
  unfold settle
  split_ifs
  · refine ⟨fun _ _ => rfl, ?_, fun _ _ _ => Iff.rfl⟩
    intro id' hmem
    have hne : id' ≠ id := fun heq => hid (heq ▸ hmem)
    dsimp only
    rw [Dict.lookup_insert_ite, if_neg hne]
  · refine ⟨?_, ?_, ?_⟩
    · intro key hmem
      have hne : key ≠ stored.key sdk := fun heq => hkey (heq ▸ hmem)
      change AList.lookup key (t.idx.ordersById.erase (stored.key sdk)) = _
      rw [Dict.lookup_erase_ite, if_neg hne]
    · intro id' hmem
      have hne : id' ≠ id := fun heq => hid (heq ▸ hmem)
      change AList.lookup id' (t.idx.orders.erase id) = _
      rw [Dict.lookup_erase_ite, if_neg hne]
    · intro id' hmem user
      change id' ∈ (t.idx.removeHotOrder sdk id stored).idsOf user ↔ _
      have hne : id' ≠ id := fun heq => hid (heq ▸ hmem)
      rw [mem_idsOf_removeHotOrder]
      simp [hne]

theorem frame_touch (hinj : Set.InjOn sdk.uuidV5 names) (t : OrderTx)
    (hkeyed : Keyed sdk names t.idx) {change : StoredOrder → StoredOrder} (hkeeps : Keeps change)
    (hkey : onchainOrderId sdk spotMarket chainOrderId ∉ K)
    (hid : onchainOrderId sdk spotMarket chainOrderId ∈ names →
      orderUuid sdk spotMarket chainOrderId ∉ I) (tsMs : UInt64) :
    (t.touch sdk tsMs spotMarket chainOrderId change).idx.AgreeOn K I t.idx := by
  unfold touch
  cases hfind : t.idx.find sdk spotMarket chainOrderId with
  | none => exact OrderIndex.AgreeOn.refl K I t.idx
  | some found =>
      obtain ⟨huuid, hstored, hname⟩ := hkeyed.key_of_find hinj hfind
      have hchanged : (change found.2).key sdk = found.2.key sdk := by
        unfold StoredOrder.key
        rw [hkeeps.spotMarket, hkeeps.chainOrderId]
      refine frame_settle tsMs ?_ ?_ t
      · rw [hchanged, hstored]
        exact hkey
      · rw [huuid]
        exact hid hname

theorem keyed_insertOrder (lawful : LawfulSdk sdk) (h : Keyed sdk names t.idx) (tsMs : UInt64)
    {order : Order} (userAddress : String) (sizeRaw filledRaw : UInt64)
    (hid : order.id = orderUuid sdk spotMarket chainOrderId)
    (hname : onchainOrderId sdk spotMarket chainOrderId ∈ names) :
    Keyed sdk names
      (t.insertOrder sdk tsMs order userAddress spotMarket chainOrderId sizeRaw filledRaw).idx := by
  let stored : StoredOrder := ⟨order, userAddress, chainOrderId,
    normalizeSpotMarketKey sdk spotMarket, filledRaw, sizeRaw⟩
  have hkey : stored.key sdk = onchainOrderId sdk spotMarket chainOrderId :=
    onchainOrderId_normalize lawful spotMarket chainOrderId
  have hstored : stored.key sdk ∈ names := hkey ▸ hname
  have huuid : order.id = sdk.uuidV5 (stored.key sdk) := by
    rw [hid, hkey]
    rfl
  unfold insertOrder
  dsimp only
  split_ifs
  · refine ⟨⟨wellFormed_insert h.wf.order_id rfl⟩, ?_, h.stored.insert hstored huuid _ _⟩
    intro key id hlookup
    rw [Dict.lookup_insert_ite] at hlookup
    split_ifs at hlookup with heq
    · cases hlookup
      rw [heq]
      exact ⟨hstored, huuid⟩
    · exact h.byId key id hlookup
  · exact h

theorem keyed_touch (h : Keyed sdk names t.idx) {change : StoredOrder → StoredOrder}
    (hkeeps : Keeps change) (hsame : ∀ stored, (change stored).order.id = stored.order.id)
    (tsMs : UInt64) (spotMarket chainOrderId : String) :
    Keyed sdk names (t.touch sdk tsMs spotMarket chainOrderId change).idx := by
  unfold touch
  cases hfind : t.idx.find sdk spotMarket chainOrderId with
  | none => exact h
  | some found =>
      obtain ⟨hname, huuid⟩ := h.stored _ _ (lookup_of_find hfind)
      have hid : (change found.2).order.id = found.1 :=
        (hsame found.2).trans (h.wf.order_id _ _ (lookup_of_find hfind))
      have hchanged : (change found.2).key sdk = found.2.key sdk := by
        unfold StoredOrder.key
        rw [hkeeps.spotMarket, hkeeps.chainOrderId]
      unfold settle
      dsimp only
      split_ifs
      · exact ⟨⟨wellFormed_insert h.wf.order_id hid⟩, h.byId,
          h.stored.insert (hchanged ▸ hname) (hchanged ▸ huuid) _ _⟩
      · refine ⟨⟨?_⟩, ?_, h.stored.remove found.1 (change found.2)⟩
        · intro id stored hlookup
          change AList.lookup id (t.idx.orders.erase found.1) = some stored at hlookup
          rw [Dict.lookup_erase_ite] at hlookup
          split_ifs at hlookup
          exact h.wf.order_id id stored hlookup
        intro key id hlookup
        change AList.lookup key (t.idx.ordersById.erase _) = some id at hlookup
        rw [Dict.lookup_erase_ite] at hlookup
        split_ifs at hlookup
        exact h.byId key id hlookup

theorem within_insertOrder {S : Set String} (h : t.writes.Within S) (tsMs : UInt64) {order : Order}
    (userAddress spotMarket chainOrderId : String) (sizeRaw filledRaw : UInt64)
    (hid : order.id.toString ∈ S) :
    (t.insertOrder sdk tsMs order userAddress spotMarket chainOrderId sizeRaw
      filledRaw).writes.Within S := by
  unfold insertOrder
  dsimp only
  split_ifs
  · exact h.put hid _
  · exact h

theorem within_touch {S : Set String} (h : t.writes.Within S) (hkeyed : Keyed sdk names t.idx)
    {change : StoredOrder → StoredOrder}
    (hsame : ∀ stored, (change stored).order.id = stored.order.id) (tsMs : UInt64)
    (hid : onchainOrderId sdk spotMarket chainOrderId ∈ names →
      (orderUuid sdk spotMarket chainOrderId).toString ∈ S) :
    (t.touch sdk tsMs spotMarket chainOrderId change).writes.Within S := by
  intro key htouches
  rcases (touches_touch sdk hkeyed.wf tsMs spotMarket chainOrderId change key hsame).mp htouches with
    hold | ⟨found, hfind, rfl⟩
  · exact h key hold
  · obtain ⟨hname, huuid⟩ := hkeyed.byId _ _ (find_eq_some_iff.mp hfind).1
    rw [huuid]
    exact hid hname

end OrderTx

/-! ## Vaults -/

structure VaultIndex.AgreeOn (S : Set String) (a b : VaultIndex) : Prop where
  vaults : a.vaults = b.vaults
  byAddress : a.vaultByAddress = b.vaultByAddress
  byAccount : a.vaultByAccount = b.vaultByAccount
  holdings : ∀ vaultId, ∀ market ∈ S,
    (a.holdings vaultId).lookup market = (b.holdings vaultId).lookup market

namespace VaultIndex.AgreeOn

variable {S : Set String} {a b c : VaultIndex}

theorem refl (S : Set String) (a : VaultIndex) : AgreeOn S a a := ⟨rfl, rfl, rfl, fun _ _ _ => rfl⟩

theorem trans (h : AgreeOn S a b) (h' : AgreeOn S b c) : AgreeOn S a c where
  vaults := h.vaults.trans h'.vaults
  byAddress := h.byAddress.trans h'.byAddress
  byAccount := h.byAccount.trans h'.byAccount
  holdings := fun id market hmarket => (h.holdings id market hmarket).trans (h'.holdings id market hmarket)

theorem symm (h : AgreeOn S a b) : AgreeOn S b a where
  vaults := h.vaults.symm
  byAddress := h.byAddress.symm
  byAccount := h.byAccount.symm
  holdings := fun id market hmarket => (h.holdings id market hmarket).symm

end VaultIndex.AgreeOn

namespace VaultTx

variable {S : Set String} {s t : VaultTx} {spotMarket : String}

theorem own_applyVaultFill (h : s.idx.AgreeOn S t.idx) (hportfolio : s.portfolio = t.portfolio)
    (hkey : normalizeSpotMarketKey sdk spotMarket ∈ S) (userAddress : String) (side : OrderSide)
    (fillAmount : UInt64) :
    let s' := s.applyVaultFillToPortfolio sdk userAddress spotMarket side fillAmount
    let t' := t.applyVaultFillToPortfolio sdk userAddress spotMarket side fillAmount
    s'.idx.AgreeOn S t'.idx ∧ s'.portfolio = t'.portfolio := by
  intro s' t'
  have hholding : ∀ vaultId, s.idx.holding vaultId (normalizeSpotMarketKey sdk spotMarket) =
      t.idx.holding vaultId (normalizeSpotMarketKey sdk spotMarket) := by
    intro vaultId
    unfold VaultIndex.holding
    rw [h.holdings vaultId _ hkey]
  simp only [s', t', applyVaultFillToPortfolio, h.byAccount]
  split_ifs
  · exact ⟨h, hportfolio⟩
  · cases t.idx.vaultByAccount.lookup (userKey userAddress) with
    | none => exact ⟨h, hportfolio⟩
    | some vaultId =>
        dsimp only
        rw [hholding, hportfolio]
        refine ⟨⟨h.vaults, h.byAddress, h.byAccount, ?_⟩, rfl⟩
        intro vaultId' market hmarket
        rw [VaultIndex.lookup_holdings_setHolding, VaultIndex.lookup_holdings_setHolding,
          h.holdings vaultId' market hmarket]

theorem frame_applyVaultFill (hkey : normalizeSpotMarketKey sdk spotMarket ∉ S)
    (userAddress : String) (side : OrderSide) (fillAmount : UInt64) (t : VaultTx) :
    (t.applyVaultFillToPortfolio sdk userAddress spotMarket side fillAmount).idx.AgreeOn S t.idx := by
  unfold applyVaultFillToPortfolio
  split_ifs
  · exact .refl S t.idx
  · cases t.idx.vaultByAccount.lookup (userKey userAddress) with
    | none => exact .refl S t.idx
    | some vaultId =>
        dsimp only
        refine ⟨rfl, rfl, rfl, ?_⟩
        intro vaultId' market hmarket
        have hne : ¬(vaultId' = vaultId ∧ market = normalizeSpotMarketKey sdk spotMarket) :=
          fun heq => hkey (heq.2 ▸ hmarket)
        rw [VaultIndex.lookup_holdings_setHolding, if_neg hne]

variable (sdk) in
theorem vaults_applyVaultFill (t : VaultTx) (userAddress spotMarket : String) (side : OrderSide)
    (fillAmount : UInt64) :
    (t.applyVaultFillToPortfolio sdk userAddress spotMarket side fillAmount).vaults = t.vaults := by
  unfold applyVaultFillToPortfolio
  split_ifs
  · rfl
  · split <;> rfl

theorem within_applyVaultFill (lawful : LawfulSdk sdk) (h : t.portfolio.Within {k | k.2 ∈ S})
    (hkey : normalizeSpotMarketKey sdk spotMarket ∈ S) (userAddress : String) (side : OrderSide)
    (fillAmount : UInt64) :
    (t.applyVaultFillToPortfolio sdk userAddress spotMarket side fillAmount).portfolio.Within
      {k | k.2 ∈ S} := by
  unfold applyVaultFillToPortfolio
  split_ifs
  · exact h
  · cases t.idx.vaultByAccount.lookup (userKey userAddress) with
    | none => exact h
    | some vaultId =>
        dsimp only
        unfold storeVaultPortfolio
        dsimp only
        rw [normalize_normalize lawful]
        split_ifs
        · exact h.remove hkey
        · exact h.put hkey _

end VaultTx

end ClobIndexer
