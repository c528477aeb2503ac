import ClobIndexer.HexSdk
import ClobIndexer.Indexer.Orders
import ClobIndexer.Lib.SortedStore
import ClobIndexer.Lib.TableView
import ClobIndexer.Persist.RowCodec
/-!
# The stored tables of orders and markets

`IndexStateStore` of `src/persist/index_state_tables.rs` over the encoded rows.
`clear_map` finds the rows of a table by the scan that also loads it, so rows
behind one that does not decode are neither loaded nor cleared.
-/

namespace ClobIndexer

open Lib

/-! ## Keys -/

structure RowKey where
  text : String
deriving DecidableEq

namespace RowKey

/-- `be_fix_int_ser` of a text: the length in eight bytes, highest first, then the
UTF-8 bytes. -/
def bytes (k : RowKey) : Bytes :=
  let content := k.text.toUTF8.data.toList
  (Bcs.leBytes 8 content.length).reverse ++ content

/-- The bytes as numbers, which is how keys are compared. -/
def order (k : RowKey) : List Nat := k.bytes.map UInt8.toNat

theorem order_injective : Function.Injective order := by
  intro a b h
  have hbytes : a.bytes = b.bytes := List.map_injective_iff.mpr (fun _ _ => UInt8.toNat_inj.mp) h
  have hlength : ∀ k : RowKey, ((Bcs.leBytes 8 k.text.toUTF8.data.toList.length).reverse).length = 8 :=
    fun _ => rfl
  have hcontent : a.text.toUTF8.data.toList = b.text.toUTF8.data.toList :=
    (List.append_inj hbytes ((hlength a).trans (hlength b).symm)).2
  have htext : a.text.toByteArray = b.text.toByteArray :=
    ByteArray.ext (Array.toList_inj.mp hcontent)
  cases a
  cases b
  exact congrArg RowKey.mk (String.toByteArray_inj.mp htext)

instance : LinearOrder RowKey := LinearOrder.lift' order order_injective

end RowKey

/-! ## Tables -/

abbrev RowTable := SortedStore RowKey Bytes

/-- `clear_map` and the batch of one table: the keys that the scan finds are
deleted, then the deletes, then the stores. -/
def writeTable {R : Type} (encode : R → Option Bytes) (decode : Bytes → Option R)
    (fullReplace : Bool) (w : TableWrites String R) (t : RowTable) : Option RowTable := do
  let stored ← w.store.entries.mapM fun e => (encode e.2).map fun v => (RowKey.mk e.1, v)
  let cleared := if fullReplace then (t.scan decode).map Prod.fst else []
  return ((t.deleteAll cleared).deleteAll (w.delete.keys.map RowKey.mk)).putAll stored

structure IndexStateStore where
  markets : RowTable
  orders : RowTable

namespace IndexStateStore

def applyIndexWriteSet (ws : IndexWriteSet) (s : IndexStateStore) : Option IndexStateStore := do
  let markets ← writeTable encodeMarket decodeMarket ws.fullReplace ws.markets s.markets
  let orders ← writeTable encodeOrderRow decodeOrderRow ws.fullReplace ws.orders s.orders
  return { markets, orders }

def loadMarkets (s : IndexStateStore) : List Market := (s.markets.scan decodeMarket).map (·.2)

def persistOrderRow (row : OrderRow) : PersistOrderRow where
  order := row.order
  userAddress := row.userAddress
  chainOrderId := row.chainOrderId
  spotMarket := row.spotMarket
  sizeRaw := row.sizeRaw.toUInt64
  filledRaw := row.filledRaw.toUInt64
  statusTsMs := 0

def loadOrders (s : IndexStateStore) : List PersistOrderRow :=
  (s.orders.scan decodeOrderRow).map fun e => persistOrderRow e.2

end IndexStateStore

/-! ## What a full replacement leaves -/

private theorem forall₂_of_mapM {α β : Type} {f : α → Option β} {l : List α} {l' : List β}
    (h : l.mapM f = some l') : List.Forall₂ (fun a b => f a = some b) l l' := by
  induction l generalizing l' with
  | nil =>
      cases h
      exact .nil
  | cons a l ih =>
      rw [List.mapM_cons] at h
      simp only [Option.bind_eq_bind, Option.bind_eq_some_iff, Option.pure_def,
        Option.some.injEq] at h
      obtain ⟨b, hb, rest, hrest, rfl⟩ := h
      exact .cons hb (ih hrest)

section WriteTable

variable {R : Type} {encode : R → Option Bytes} {decode : Bytes → Option R}
  {w : TableWrites String R} {t t' : RowTable}

private theorem encoded_spec {entries : List (Sigma fun _ : String => R)}
    {stored : List (RowKey × Bytes)}
    (h : List.Forall₂ (fun e row => ((encode e.2).map fun v => (RowKey.mk e.1, v)) = some row)
      entries stored) :
    (stored.map fun row => row.1.text) = entries.keys ∧
      ∀ k v, (k, v) ∈ stored ↔ ∃ row, ⟨k.text, row⟩ ∈ entries ∧ encode row = some v := by
  induction h with
  | nil => simp
  | @cons e row entries stored hrow _ ih =>
      obtain ⟨key, value⟩ := e
      obtain ⟨content, hcontent, rfl⟩ := Option.map_eq_some_iff.mp hrow
      dsimp only at hcontent
      refine ⟨?_, ?_⟩
      · rw [List.map_cons, ih.1]
        rfl
      · rintro ⟨k⟩ v
        rw [List.mem_cons, ih.2]
        constructor
        · rintro (heq | ⟨row, hrow, hv⟩)
          · cases heq
            exact ⟨value, List.mem_cons_self, hcontent⟩
          · exact ⟨row, List.mem_cons_of_mem _ hrow, hv⟩
        · rintro ⟨row, hrow, hv⟩
          rcases List.mem_cons.mp hrow with heq | hrow
          · cases heq
            rw [hcontent] at hv
            cases hv
            exact Or.inl rfl
          · exact Or.inr ⟨row, hrow, hv⟩

theorem encodes_of_writeTable {fullReplace : Bool}
    (h : writeTable encode decode fullReplace w t = some t') {key : String} {row : R}
    (hrow : w.store.lookup key = some row) : ∃ v, encode row = some v := by
  unfold writeTable at h
  simp only [Option.bind_eq_bind, Option.bind_eq_some_iff, Option.pure_def, Option.some.injEq] at h
  obtain ⟨stored, hstored, -⟩ := h
  obtain ⟨hkeys, hmem⟩ := encoded_spec (forall₂_of_mapM hstored)
  have hkey : key ∈ stored.map fun row => row.1.text := by
    rw [hkeys]
    exact Dict.mem_iff_lookup.mpr ⟨row, hrow⟩
  obtain ⟨⟨k, v⟩, hkv, rfl⟩ := List.mem_map.mp hkey
  obtain ⟨row', hrow', hv⟩ := (hmem k v).mp hkv
  rw [Dict.mem_entries_iff, hrow] at hrow'
  cases hrow'
  exact ⟨v, hv⟩

/-- The rows after a full replacement without deletes: the new ones, and those old
ones that the scan of the old table did not reach. -/
theorem mem_writeTable (hdelete : w.delete = ∅)
    (h : writeTable encode decode true w t = some t') {k : RowKey} {v : Bytes} :
    (k, v) ∈ t'.rows ↔
      (∃ row, w.store.lookup k.text = some row ∧ encode row = some v) ∨
        (k.text ∉ w.store ∧ k ∉ (t.scan decode).map Prod.fst ∧ (k, v) ∈ t.rows) := by
  unfold writeTable at h
  simp only [if_true, Option.bind_eq_bind, Option.bind_eq_some_iff, Option.pure_def,
    Option.some.injEq] at h
  obtain ⟨stored, hstored, rfl⟩ := h
  obtain ⟨hkeys, hmem⟩ := encoded_spec (forall₂_of_mapM hstored)
  have hkeys' : (stored.map Prod.fst).map RowKey.text = w.store.keys := by
    rw [List.map_map]
    exact hkeys
  have hnodup : (stored.map Prod.fst).Nodup := by
    apply List.Nodup.of_map RowKey.text
    rw [hkeys']
    exact AList.keys_nodup _
  have hkey : k ∈ stored.map Prod.fst ↔ k.text ∈ w.store := by
    have hinj : Function.Injective RowKey.text := fun a b heq => by cases a; cases b; cases heq; rfl
    rw [AList.mem_keys, ← hkeys', List.mem_map_of_injective hinj]
  rw [SortedStore.mem_putAll hnodup, hmem, hkey, SortedStore.mem_deleteAll,
    SortedStore.mem_deleteAll, hdelete]
  simp [Dict.mem_entries_iff]

end WriteTable

/-! ## Orders -/

def orderWrites (sdk : Sdk) (orders : Dict Uuid StoredOrder) : TableWrites String OrderRow :=
  .ofRows (orders.entries.map fun e => ⟨e.2.order.id.toString, orderRow sdk e.2⟩)

theorem lookup_orderWrites {sdk : Sdk} {orders : Dict Uuid StoredOrder}
    (hid : ∀ id stored, orders.lookup id = some stored → stored.order.id = id) (key : String)
    (row : OrderRow) :
    (orderWrites sdk orders).store.lookup key = some row ↔
      ∃ id stored, orders.lookup id = some stored ∧ id.toString = key ∧
        orderRow sdk stored = row := by
  have hview := TableWrites.apply_ofRows_entries Uuid.toString_injective orders
    (fun _ stored => stored.order.id.toString) (orderRow sdk)
    (fun id stored hs => congrArg Uuid.toString (hid id stored hs))
  have hlookup : (orderWrites sdk orders).store.lookup key =
      (orderWrites sdk orders).apply (fun _ => none) key := by
    unfold TableWrites.apply
    cases (orderWrites sdk orders).store.lookup key with
    | none => exact (ite_self _).symm
    | some row => rfl
  rw [hlookup]
  unfold orderWrites
  rw [hview, keyedView_eq_some_iff Uuid.toString_injective]
  simp only [Option.some.injEq]

/-- An old row that the replacement by the orders neither clears nor overwrites. -/
def LeftOver (orders : Dict Uuid StoredOrder) (t : RowTable) (k : RowKey) (v : Bytes) : Prop :=
  (k, v) ∈ t.rows ∧ k ∉ (t.scan decodeOrderRow).map Prod.fst ∧
    ∀ id ∈ orders, k.text ≠ id.toString

/-- When the orders come back: they decode, and the old rows left over start with
one that does not decode, after all of them. -/
structure Readable (sdk : Sdk) (orders : Dict Uuid StoredOrder) (t : RowTable) : Prop where
  cloid : ∀ id stored, orders.lookup id = some stored → stored.order.cloid.isSome
  spotMarket : ∀ id stored, orders.lookup id = some stored →
    normalizeSpotMarketKey sdk stored.spotMarket = stored.spotMarket
  hidden : ∀ k v, LeftOver orders t k v →
    ∃ k' v', LeftOver orders t k' v' ∧ k' ≤ k ∧ decodeOrderRow v' = none
  behind : ∀ id ∈ orders, ∀ k v, LeftOver orders t k v → decodeOrderRow v = none →
    RowKey.mk id.toString < k

section Orders

variable {sdk : Sdk} {orders : Dict Uuid StoredOrder} {t t' : RowTable}
  (hid : ∀ id stored, orders.lookup id = some stored → stored.order.id = id)
  (hwrite : writeTable encodeOrderRow decodeOrderRow true (orderWrites sdk orders) t = some t')

include hid

theorem mem_orderWrites {key : String} :
    key ∈ (orderWrites sdk orders).store ↔ ∃ id ∈ orders, key = id.toString := by
  rw [Dict.mem_iff_lookup]
  constructor
  · rintro ⟨row, hrow⟩
    obtain ⟨id, stored, hstored, rfl, -⟩ := (lookup_orderWrites hid key row).mp hrow
    exact ⟨id, Dict.mem_iff_lookup.mpr ⟨stored, hstored⟩, rfl⟩
  · rintro ⟨id, hmem, rfl⟩
    obtain ⟨stored, hstored⟩ := Dict.mem_iff_lookup.mp hmem
    exact ⟨orderRow sdk stored, (lookup_orderWrites hid _ _).mpr ⟨id, stored, hstored, rfl, rfl⟩⟩

include hwrite

theorem mem_replaced {k : RowKey} {v : Bytes} :
    (k, v) ∈ t'.rows ↔
      (∃ id stored, orders.lookup id = some stored ∧ k = ⟨id.toString⟩ ∧
        encodeOrderRow (orderRow sdk stored) = some v) ∨ LeftOver orders t k v := by
  rw [mem_writeTable rfl hwrite, mem_orderWrites hid]
  constructor
  · rintro (⟨row, hrow, hv⟩ | ⟨hnew, hscan, hrow⟩)
    · obtain ⟨id, stored, hstored, hk, rfl⟩ := (lookup_orderWrites hid _ _).mp hrow
      refine Or.inl ⟨id, stored, hstored, ?_, hv⟩
      cases k
      exact congrArg RowKey.mk hk.symm
    · exact Or.inr ⟨hrow, hscan, fun id hmem heq => hnew ⟨id, hmem, heq⟩⟩
  · rintro (⟨id, stored, hstored, rfl, hv⟩ | ⟨hrow, hscan, hnew⟩)
    · exact Or.inl ⟨_, (lookup_orderWrites hid _ _).mpr ⟨id, stored, hstored, rfl, rfl⟩, hv⟩
    · exact Or.inr ⟨fun ⟨id, hmem, heq⟩ => hnew id hmem heq, hscan, hrow⟩

theorem exists_encoded {id : Uuid} {stored : StoredOrder}
    (hstored : orders.lookup id = some stored) :
    ∃ v, encodeOrderRow (orderRow sdk stored) = some v :=
  encodes_of_writeTable hwrite
    ((lookup_orderWrites hid _ _).mpr ⟨id, stored, hstored, rfl, rfl⟩)

omit hid hwrite in
theorem decode_new {stored : StoredOrder} {v : Bytes}
    (hv : encodeOrderRow (orderRow sdk stored) = some v) :
    decodeOrderRow v = if stored.order.cloid.isSome then some (orderRow sdk stored) else none :=
  decodeOrderRow_encodeOrderRow hv

omit hid hwrite in
theorem persistOrderRow_orderRow_eq_iff (stored : StoredOrder) :
    IndexStateStore.persistOrderRow (orderRow sdk stored) = storedToPersistRow stored ↔
      normalizeSpotMarketKey sdk stored.spotMarket = stored.spotMarket := by
  unfold IndexStateStore.persistOrderRow orderRow orderRowFromParts storedToPersistRow
  simp

theorem mem_scan_of_readable (h : Readable sdk orders t) (k : RowKey) (row : OrderRow) :
    (k, row) ∈ t'.scan decodeOrderRow ↔
      ∃ id stored, orders.lookup id = some stored ∧ k = ⟨id.toString⟩ ∧
        row = orderRow sdk stored := by
  rw [SortedStore.mem_scan]
  constructor
  · rintro ⟨⟨v, hv, hdecode⟩, hall⟩
    rcases (mem_replaced hid hwrite).mp hv with ⟨id, stored, hstored, rfl, hencode⟩ | hleft
    · rw [decode_new hencode, if_pos (h.cloid id stored hstored)] at hdecode
      cases hdecode
      exact ⟨id, stored, hstored, rfl, rfl⟩
    · obtain ⟨k', v', hleft', hle, hnone⟩ := h.hidden k v hleft
      exact absurd hnone (hall k' v' ((mem_replaced hid hwrite).mpr (Or.inr hleft')) hle)
  · rintro ⟨id, stored, hstored, rfl, rfl⟩
    obtain ⟨v, hv⟩ := exists_encoded hid hwrite hstored
    refine ⟨⟨v, (mem_replaced hid hwrite).mpr (Or.inl ⟨id, stored, hstored, rfl, hv⟩), ?_⟩, ?_⟩
    · rw [decode_new hv, if_pos (h.cloid id stored hstored)]
    · intro k' v' hmem hle hnone
      rcases (mem_replaced hid hwrite).mp hmem with ⟨id', stored', hstored', rfl, hv'⟩ | hleft
      · rw [decode_new hv', if_pos (h.cloid id' stored' hstored')] at hnone
        cases hnone
      · have hmem' : id ∈ orders := Dict.mem_iff_lookup.mpr ⟨stored, hstored⟩
        exact absurd (h.behind id hmem' k' v' hleft hnone) (not_lt.mpr hle)

/-- The orders come back, each once and with nothing else, if they are readable. -/
theorem perm_of_readable (h : Readable sdk orders t) :
    ((t'.scan decodeOrderRow).map fun e => IndexStateStore.persistOrderRow e.2).Perm
      (orders.entries.map fun e => storedToPersistRow e.2) := by
  have hscan := fun k row => mem_scan_of_readable hid hwrite h k row
  have hloaded : ((t'.scan decodeOrderRow).map fun e =>
      IndexStateStore.persistOrderRow e.2).Nodup := by
    refine List.Nodup.map_on ?_ (SortedStore.nodup_scan_keys decodeOrderRow t').of_map
    rintro ⟨k, row⟩ hrow ⟨k', row'⟩ hrow' heq
    obtain ⟨id, stored, hstored, rfl, rfl⟩ := (hscan k row).mp hrow
    obtain ⟨id', stored', hstored', rfl, rfl⟩ := (hscan k' row').mp hrow'
    have hsame : stored.order.id = stored'.order.id :=
      congrArg (fun p : PersistOrderRow => p.order.id) heq
    rw [hid id stored hstored, hid id' stored' hstored'] at hsame
    subst hsame
    rw [hstored] at hstored'
    cases hstored'
    rfl
  have hexpected : (orders.entries.map fun e => storedToPersistRow e.2).Nodup := by
    refine List.Nodup.map_on ?_ (List.Nodup.of_map Sigma.fst orders.nodupKeys)
    rintro ⟨id, stored⟩ he ⟨id', stored'⟩ he' heq
    rw [Dict.mem_entries_iff] at he he'
    have hsame : stored.order.id = stored'.order.id :=
      congrArg (fun p : PersistOrderRow => p.order.id) heq
    rw [hid id stored he, hid id' stored' he'] at hsame
    subst hsame
    rw [he] at he'
    cases he'
    rfl
  rw [List.perm_ext_iff_of_nodup hloaded hexpected]
  intro p
  rw [List.mem_map, List.mem_map]
  constructor
  · rintro ⟨⟨k, row⟩, hrow, rfl⟩
    obtain ⟨id, stored, hstored, rfl, rfl⟩ := (hscan k row).mp hrow
    exact ⟨⟨id, stored⟩, Dict.mem_entries_iff.mpr hstored,
      ((persistOrderRow_orderRow_eq_iff stored).mpr (h.spotMarket id stored hstored)).symm⟩
  · rintro ⟨⟨id, stored⟩, he, rfl⟩
    rw [Dict.mem_entries_iff] at he
    exact ⟨(⟨id.toString⟩, orderRow sdk stored), (hscan _ _).mpr ⟨id, stored, he, rfl, rfl⟩,
      (persistOrderRow_orderRow_eq_iff stored).mpr (h.spotMarket id stored he)⟩

/-- If exactly the orders come back, they are readable.  Old rows are under the id
of their order, so that none of them can stand for a new one. -/
theorem readable_of_mem
    (hown : ∀ k v row, (k, v) ∈ t.rows → decodeOrderRow v = some row →
      k.text = row.order.id.toString)
    (hmem : ∀ p, (∃ e ∈ t'.scan decodeOrderRow, IndexStateStore.persistOrderRow e.2 = p) ↔
      ∃ id stored, orders.lookup id = some stored ∧ storedToPersistRow stored = p) :
    Readable sdk orders t := by
  -- a scanned row that stands for a stored order is the order's own new row
  have hown' : ∀ k v row, LeftOver orders t k v → decodeOrderRow v = some row →
      ∀ id stored, orders.lookup id = some stored →
        IndexStateStore.persistOrderRow row ≠ storedToPersistRow stored := by
    intro k v row hleft hdecode id stored hstored heq
    have horder : row.order = stored.order := congrArg PersistOrderRow.order heq
    have hkey := hown k v row hleft.1 hdecode
    rw [horder, hid id stored hstored] at hkey
    exact hleft.2.2 id (Dict.mem_iff_lookup.mpr ⟨stored, hstored⟩) hkey
  have hnew : ∀ id stored, orders.lookup id = some stored →
      stored.order.cloid.isSome ∧ normalizeSpotMarketKey sdk stored.spotMarket = stored.spotMarket ∧
        (⟨id.toString⟩, orderRow sdk stored) ∈ t'.scan decodeOrderRow := by
    intro id stored hstored
    obtain ⟨⟨k, row⟩, hrow, heq⟩ := (hmem (storedToPersistRow stored)).mpr
      ⟨id, stored, hstored, rfl⟩
    obtain ⟨v, hv, hdecode⟩ := (SortedStore.mem_scan.mp hrow).1
    rcases (mem_replaced hid hwrite).mp hv with ⟨id', stored', hstored', rfl, hencode⟩ | hleft
    · rw [decode_new hencode] at hdecode
      split_ifs at hdecode with hcloid
      cases hdecode
      have hsame : stored'.order.id = stored.order.id :=
        congrArg (fun p : PersistOrderRow => p.order.id) heq
      rw [hid id stored hstored, hid id' stored' hstored'] at hsame
      subst hsame
      rw [hstored] at hstored'
      cases hstored'
      exact ⟨hcloid, (persistOrderRow_orderRow_eq_iff stored).mp heq, hrow⟩
    · exact absurd heq (hown' k v row hleft hdecode id stored hstored)
  refine ⟨fun id stored h => (hnew id stored h).1, fun id stored h => (hnew id stored h).2.1,
    ?_, ?_⟩
  · intro k v hleft
    by_contra hnone
    push Not at hnone
    have hrow : ∃ row, decodeOrderRow v = some row :=
      Option.ne_none_iff_exists'.mp (hnone k v hleft le_rfl)
    obtain ⟨row, hrow⟩ := hrow
    have hscanned : (k, row) ∈ t'.scan decodeOrderRow := by
      rw [SortedStore.mem_scan]
      refine ⟨⟨v, (mem_replaced hid hwrite).mpr (Or.inr hleft), hrow⟩, ?_⟩
      intro k' v' hmem' hle
      rcases (mem_replaced hid hwrite).mp hmem' with ⟨id', stored', hstored', rfl, hv'⟩ | hleft'
      · rw [decode_new hv', if_pos (hnew id' stored' hstored').1]
        exact Option.some_ne_none _
      · exact hnone k' v' hleft' hle
    obtain ⟨id, stored, hstored, heq⟩ := (hmem _).mp ⟨(k, row), hscanned, rfl⟩
    exact hown' k v row hleft hrow id stored hstored heq.symm
  · intro id hid' k v hleft hnone
    obtain ⟨stored, hstored⟩ := Dict.mem_iff_lookup.mp hid'
    have hscanned := SortedStore.mem_scan.mp (hnew id stored hstored).2.2
    by_contra hle
    exact hscanned.2 k v ((mem_replaced hid hwrite).mpr (Or.inr hleft)) (not_lt.mp hle) hnone

end Orders

/-- After a full replacement `load_orders` returns exactly the orders written when
each of them has a `cloid` and the rows left over do not come in between. -/
theorem IndexStateStore.loadOrders_perm_iff (sdk : Sdk) (orders : Dict Uuid StoredOrder)
    (hid : ∀ id stored, orders.lookup id = some stored → stored.order.id = id)
    (s s' : IndexStateStore)
    (hown : ∀ k v row, (k, v) ∈ s.orders.rows → decodeOrderRow v = some row →
      k.text = row.order.id.toString)
    (ws : IndexWriteSet) (hfull : ws.fullReplace = true)
    (hrows : ws.orders = orderWrites sdk orders) (hwrite : s.applyIndexWriteSet ws = some s') :
    s'.loadOrders.Perm (orders.entries.map fun e => storedToPersistRow e.2) ↔
      Readable sdk orders s.orders := by
  unfold applyIndexWriteSet at hwrite
  rw [hfull, hrows] at hwrite
  simp only [Option.bind_eq_bind, Option.bind_eq_some_iff, Option.pure_def,
    Option.some.injEq] at hwrite
  obtain ⟨markets, -, t', horders, rfl⟩ := hwrite
  constructor
  · intro hperm
    refine readable_of_mem hid horders hown fun p => ?_
    have hp := hperm.mem_iff (a := p)
    unfold loadOrders at hp
    rw [List.mem_map, List.mem_map] at hp
    rw [hp]
    constructor
    · rintro ⟨⟨id, stored⟩, he, rfl⟩
      exact ⟨id, stored, Dict.mem_entries_iff.mp he, rfl⟩
    · rintro ⟨id, stored, hstored, rfl⟩
      exact ⟨⟨id, stored⟩, Dict.mem_entries_iff.mpr hstored, rfl⟩
  · exact perm_of_readable hid horders

namespace Sample

def orderWith (cloid : Option String) : Dict Uuid StoredOrder :=
  AList.singleton (orderUuid setting.sdk market "1")
    { order :=
        { id := orderUuid setting.sdk market "1"
          marketId := marketUuid setting.sdk market
          marketSlug := "lp"
          question := ""
          outcome := "yes"
          side := "buy"
          price := "0.5"
          size := "10"
          status := "open"
          cloid := cloid }
      userAddress := account
      chainOrderId := "1"
      spotMarket := normalizeSpotMarketKey setting.sdk market
      filledRaw := 0
      sizeRaw := 10 }

def ordersSet (cloid : Option String) : IndexWriteSet :=
  { fullReplace := true, orders := orderWrites setting.sdk (orderWith cloid) }

def emptyStore : IndexStateStore := ⟨.empty, .empty⟩

theorem isSome_written (cloid : Option String) (h : cloid = some "a" ∨ cloid = none) :
    (emptyStore.applyIndexWriteSet (ordersSet cloid)).isSome := by
  rcases h with rfl | rfl
  · decide +kernel
  · decide +kernel

def storeWithCloid : IndexStateStore :=
  (emptyStore.applyIndexWriteSet (ordersSet (some "a"))).get (isSome_written _ (Or.inl rfl))

def storeWithoutCloid : IndexStateStore :=
  (emptyStore.applyIndexWriteSet (ordersSet none)).get (isSome_written _ (Or.inr rfl))

theorem id_orderWith (cloid : Option String) (id : Uuid) (stored : StoredOrder)
    (h : (orderWith cloid).lookup id = some stored) : stored.order.id = id := by
  obtain ⟨rfl, hstored⟩ : orderUuid setting.sdk market "1" = id ∧ _ :=
    Sigma.mk.inj (List.mem_singleton.mp (Dict.mem_entries_iff.mpr h)).symm
  cases hstored
  rfl

theorem loadOrders_withCloid_iff :
    storeWithCloid.loadOrders.Perm
      ((orderWith (some "a")).entries.map fun e => storedToPersistRow e.2) ↔
    Readable setting.sdk (orderWith (some "a")) .empty :=
  IndexStateStore.loadOrders_perm_iff setting.sdk (orderWith (some "a")) (id_orderWith _) emptyStore
    storeWithCloid (fun _ _ _ h => (List.not_mem_nil h).elim) (ordersSet (some "a")) rfl rfl
    (Option.some_get _).symm

/-- An order without a client id does not come back. -/
theorem loadOrders_withoutCloid :
    emptyStore.applyIndexWriteSet (ordersSet none) = some storeWithoutCloid ∧
      storeWithoutCloid.loadOrders = [] ∧
      ¬storeWithoutCloid.loadOrders.Perm
        ((orderWith none).entries.map fun e => storedToPersistRow e.2) := by
  have hnone : storeWithoutCloid.loadOrders = [] := by decide +kernel
  refine ⟨(Option.some_get _).symm, hnone, ?_⟩
  rw [hnone]
  intro hperm
  exact absurd hperm.length_eq (by decide)

end Sample

/-! ## Markets -/

namespace IndexStateStore

theorem loadMarkets_eq_nil (s : IndexStateStore) : s.loadMarkets = [] := by
  unfold loadMarkets SortedStore.scan
  cases s.markets.rows with
  | nil => rfl
  | cons row rows => rfl

/-- After a write set is written `load_markets` returns exactly its markets only if
there are none. -/
theorem loadMarkets_perm_iff (s s' : IndexStateStore) (ws : IndexWriteSet)
    (_hwrite : s.applyIndexWriteSet ws = some s') :
    s'.loadMarkets.Perm (ws.markets.store.entries.map (·.2)) ↔ ws.markets.store = ∅ := by
  rw [loadMarkets_eq_nil, List.nil_perm, List.map_eq_nil_iff]
  constructor
  · intro h
    exact AList.ext h
  · intro h
    rw [h]
    rfl

end IndexStateStore

namespace Sample

def spotMarket : Market :=
  .spot
    { id := marketUuid setting.sdk market
      name := "LP/USD"
      iconUrl := none
      marketAddress := market
      state := "Active"
      deployer := account
      baseToken := "lp"
      quoteToken := "usd" }

def marketSet : IndexWriteSet := { markets := storeMarket spotMarket .empty }

theorem isSome_marketSet : (emptyStore.applyIndexWriteSet marketSet).isSome := by decide +kernel

def storeWithMarket : IndexStateStore :=
  (emptyStore.applyIndexWriteSet marketSet).get isSome_marketSet

theorem loadMarkets_spotMarket_iff :
    storeWithMarket.loadMarkets.Perm (marketSet.markets.store.entries.map (·.2)) ↔
      marketSet.markets.store = ∅ :=
  IndexStateStore.loadMarkets_perm_iff emptyStore storeWithMarket marketSet
    (Option.some_get isSome_marketSet).symm

/-- The spot market has a row, and is not loaded. -/
theorem loadMarkets_spotMarket :
    emptyStore.applyIndexWriteSet marketSet = some storeWithMarket ∧
      storeWithMarket.markets.rows.length = 1 ∧ storeWithMarket.loadMarkets = [] ∧
      ¬storeWithMarket.loadMarkets.Perm (marketSet.markets.store.entries.map (·.2)) := by
  have hnone : storeWithMarket.loadMarkets = [] := IndexStateStore.loadMarkets_eq_nil _
  refine ⟨(Option.some_get isSome_marketSet).symm, by decide +kernel, hnone, ?_⟩
  rw [hnone]
  intro hperm
  exact absurd hperm.length_eq (by decide)

end Sample

end ClobIndexer
