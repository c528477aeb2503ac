import ClobIndexer.HexSdk
import ClobIndexer.Persist.StateStore
/-!
# Two ways into the order history

A row may be written directly or through the queue.  The queue leaves out the time at
which the status changed, and the writer puts in its own clock; so the two ways agree
where the time is not known or is that of the writer.
-/

namespace ClobIndexer

open Lib

section

variable (sdk : Sdk) (json : HistoryJson)

def OrderHistoryRow.listed (row : OrderHistoryRow) : Option PersistOrderRow := do
  let order ← json.readOrder row.payload
  return {
    order := order
    userAddress := row.userAddress
    chainOrderId := row.chainOrderId
    spotMarket := row.spotMarket
    sizeRaw := row.sizeRaw.toUInt64
    filledRaw := row.filledRaw.toUInt64
    statusTsMs := Word.clampNeg row.statusTsMs
  }

namespace StateStore

def directRow (row : PersistOrderRow) (payload : String) (s : StateStore) : OrderHistoryRow where
  id := row.order.id.toString
  userAddress := userKey row.userAddress
  chainOrderId := row.chainOrderId
  spotMarket := normalizeSpotMarketKey sdk row.spotMarket
  sizeRaw := row.sizeRaw.toInt64
  filledRaw := row.filledRaw.toInt64
  status := row.order.status
  payload := payload
  statusTsMs := if 0 < row.statusTsMs then row.statusTsMs.toInt64 else s.nowMs

def upsertOrderHistory (row : PersistOrderRow) (s : StateStore) : Option StateStore := do
  let payload ← json.order row.order
  return { s with
    orderHistory := s.orderHistory.insert row.order.id.toString (s.directRow sdk row payload) }

def listLimit (limit : Nat) : Nat := min (max limit 1) orderHistoryLimit

def historyOf (userAddress : String) (s : StateStore) : List OrderHistoryRow :=
  ((s.orderHistory.entries.map Sigma.snd).filter fun row =>
    row.userAddress = userKey userAddress).mergeSort fun a b => b.statusTsMs ≤ a.statusTsMs

/-- `list_order_history`; SQLite says nothing about the order of rows of one time. -/
def listOrderHistory (userAddress : String) (limit : Nat) (s : StateStore) :
    Option (List PersistOrderRow) :=
  ((s.historyOf userAddress).take (listLimit limit)).mapM (OrderHistoryRow.listed json)

/-! ## Writes -/

/-- A row written directly, a batch from the queue, or the clock goes on. -/
inductive Write where
  | direct (row : PersistOrderRow)
  | batch (ops : List PersistOp)
  | clock (nowMs : Int64)

def write (s : StateStore) : Write → StateStore
  | .direct row => (s.upsertOrderHistory sdk json row).getD s
  | .batch ops => s.applyEncodedStateBatch sdk (ops.filterMap (encodePersistOp sdk json))
  | .clock nowMs => { s with nowMs }

def Readable (s : StateStore) : Prop :=
  ∀ id row, s.orderHistory.lookup id = some row → (json.readOrder row.payload).isSome

variable {sdk json} {s : StateStore}

theorem readable_insert (h : s.Readable json) {order : Order} {row : OrderHistoryRow}
    (hrow : json.order order = some row.payload) (id : String) :
    ({ s with orderHistory := s.orderHistory.insert id row } : StateStore).Readable json := by
  intro id' row' hrow'
  change AList.lookup id' (s.orderHistory.insert id row) = _ at hrow'
  rw [Dict.lookup_insert_ite] at hrow'
  split_ifs at hrow'
  · rw [← Option.some.inj hrow', json.readOrder_order order _ hrow]
    rfl
  · exact h id' row' hrow'

theorem readable_execute (h : s.Readable json) {op : PersistOp} {e : EncodedPersistOp}
    (he : encodePersistOp sdk json op = some e) : (s.execute sdk e).Readable json := by
  cases op with
  | upsertOrderHistory row =>
      unfold encodePersistOp at he
      simp only [Option.bind_eq_bind, Option.bind_eq_some_iff, Option.pure_def,
        Option.some.injEq] at he
      obtain ⟨payload, hpayload, rfl⟩ := he
      exact readable_insert h hpayload _
  | saveClosedBar bar =>
      cases he
      exact h
  | savePaperHouseHistory row =>
      cases he
      exact h
  | savePaperPositionHistory row =>
      unfold encodePersistOp at he
      simp only [Option.bind_eq_bind, Option.bind_eq_some_iff, Option.pure_def,
        Option.some.injEq] at he
      obtain ⟨payload, -, rfl⟩ := he
      exact h

theorem orderHistory_trim (s : StateStore) (e : EncodedPersistOp) :
    (s.trim sdk e).orderHistory = s.orderHistory := by
  cases e <;> rfl

theorem orderHistory_applyEncodedStateBatch (s : StateStore) (ops : List EncodedPersistOp) :
    (s.applyEncodedStateBatch sdk ops).orderHistory =
      (ops.foldl (execute sdk) s).orderHistory := by
  unfold applyEncodedStateBatch
  generalize ops.foldl (execute sdk) s = executed
  induction ops generalizing executed with
  | nil => rfl
  | cons e ops ih => rw [List.foldl_cons, ih, orderHistory_trim]

theorem readable_write (h : s.Readable json) (w : Write) : (s.write sdk json w).Readable json := by
  cases w with
  | direct row =>
      unfold write upsertOrderHistory
      dsimp only
      cases hpayload : json.order row.order with
      | none => exact h
      | some payload =>
          have hrow : json.order row.order = some (s.directRow sdk row payload).payload := hpayload
          exact readable_insert h hrow _
  | batch ops =>
      have hexecuted : ((ops.filterMap (encodePersistOp sdk json)).foldl (execute sdk) s).Readable
          json := by
        induction ops generalizing s with
        | nil => exact h
        | cons op ops ih =>
            rw [List.filterMap_cons]
            cases he : encodePersistOp sdk json op with
            | none => exact ih h
            | some e => exact ih (readable_execute h he)
      unfold write Readable
      dsimp only
      rw [orderHistory_applyEncodedStateBatch]
      exact hexecuted
  | clock nowMs => exact h

theorem readable_writes (past : List Write) : (past.foldl (write sdk json) {}).Readable json := by
  have hall : ∀ (s : StateStore), s.Readable json → (past.foldl (write sdk json) s).Readable json := by
    induction past with
    | nil => exact fun s h => h
    | cons w past ih => exact fun s h => ih _ (readable_write h w)
  exact hall {} fun _ _ h => nomatch h

/-! ## Listings -/

theorem mem_historyOf {userAddress : String} {row : OrderHistoryRow} :
    row ∈ s.historyOf userAddress ↔
      row.userAddress = userKey userAddress ∧ ∃ id, s.orderHistory.lookup id = some row := by
  unfold historyOf
  rw [List.mem_mergeSort, List.mem_filter, decide_eq_true_eq, and_comm, List.mem_map]
  refine and_congr_right fun _ => ?_
  constructor
  · rintro ⟨⟨id, row⟩, hentry, rfl⟩
    exact ⟨id, Dict.mem_entries_iff.mp hentry⟩
  · rintro ⟨id, hrow⟩
    exact ⟨⟨id, row⟩, Dict.mem_entries_iff.mpr hrow, rfl⟩

theorem historyOf_sorted (userAddress : String) :
    (s.historyOf userAddress).Pairwise fun a b => b.statusTsMs ≤ a.statusTsMs := by
  refine SeriesTable.pairwise_mergeSort_decide
    (fun a b : OrderHistoryRow => b.statusTsMs ≤ a.statusTsMs) ?_ ?_ _
  · intro a b c hab hbc
    simp only [Int64.le_iff_toInt_le] at hab hbc ⊢
    omega
  · intro a b
    simp only [Int64.le_iff_toInt_le]
    omega

theorem exists_listed (h : s.Readable json) {userAddress : String} {row : OrderHistoryRow}
    (hrow : row ∈ s.historyOf userAddress) : ∃ listed, row.listed json = some listed := by
  obtain ⟨-, id, hlookup⟩ := mem_historyOf.mp hrow
  obtain ⟨order, horder⟩ := Option.isSome_iff_exists.mp (h id row hlookup)
  unfold OrderHistoryRow.listed
  rw [horder]
  exact ⟨_, rfl⟩

/-- Where every order can be read back, a listing leaves none out. -/
theorem listOrderHistory_eq (h : s.Readable json) (userAddress : String) (limit : Nat) :
    s.listOrderHistory json userAddress limit =
      some (((s.historyOf userAddress).take (listLimit limit)).filterMap
        (OrderHistoryRow.listed json)) := by
  have hreads : ∀ row ∈ (s.historyOf userAddress).take (listLimit limit),
      (row.listed json).isSome := by
    intro row hrow
    obtain ⟨listed, hlisted⟩ := exists_listed h (List.mem_of_mem_take hrow)
    exact Option.isSome_of_eq_some hlisted
  exact SeriesTable.mapM_of_map (SeriesTable.map_eq_map_filterMap hreads)

theorem listed_statusTsMs {row : OrderHistoryRow} {listed : PersistOrderRow}
    (h : row.listed json = some listed) : listed.statusTsMs = Word.clampNeg row.statusTsMs := by
  unfold OrderHistoryRow.listed at h
  simp only [Option.bind_eq_bind, Option.bind_eq_some_iff, Option.pure_def,
    Option.some.injEq] at h
  obtain ⟨order, -, rfl⟩ := h
  rfl

/-! ## The queue and the direct way -/

/-- The fields of a row as the table keeps them, with the time of the status where it is
known. -/
structure SameFields (sdk : Sdk) (row listed : PersistOrderRow) : Prop where
  order : listed.order = row.order
  userAddress : listed.userAddress = userKey row.userAddress
  chainOrderId : listed.chainOrderId = row.chainOrderId
  spotMarket : listed.spotMarket = normalizeSpotMarketKey sdk row.spotMarket
  sizeRaw : listed.sizeRaw = row.sizeRaw
  filledRaw : listed.filledRaw = row.filledRaw
  statusTsMs : row.statusTsMs ≠ 0 → listed.statusTsMs = row.statusTsMs

/-- A listing for the user is sorted by the times of the statuses, and it has the row unless
it is full of rows that are not earlier. -/
def Lists (sdk : Sdk) (json : HistoryJson) (s : StateStore) (row : PersistOrderRow) : Prop :=
  ∀ limit, ∃ out, s.listOrderHistory json row.userAddress limit = some out ∧
    out.Pairwise (fun a b => b.statusTsMs ≤ a.statusTsMs) ∧
    ((∃ listed ∈ out, SameFields sdk row listed) ∨
      out.length = listLimit limit ∧ ∀ listed ∈ out, row.statusTsMs ≤ listed.statusTsMs)

/-- The row that is stored is the one that the direct way would store, where the clock has no
part in it. -/
def StoresAsDirect (sdk : Sdk) (json : HistoryJson) (row : PersistOrderRow)
    (s stored : StateStore) : Prop :=
  ∃ direct r r', s.upsertOrderHistory sdk json row = some direct ∧
    stored.orderHistory.lookup row.order.id.toString = some r ∧
    direct.orderHistory.lookup row.order.id.toString = some r' ∧
    { r with statusTsMs := 0 } = { r' with statusTsMs := 0 } ∧
    (row.statusTsMs ≠ 0 → r.statusTsMs = r'.statusTsMs)

theorem lists_of_lookup (h : s.Readable json) {row : PersistOrderRow} {id : String}
    {r : OrderHistoryRow} {listed : PersistOrderRow} (hr : s.orderHistory.lookup id = some r)
    (huser : r.userAddress = userKey row.userAddress) (hlisted : r.listed json = some listed)
    (hsame : SameFields sdk row listed) : s.Lists sdk json row := by
  intro limit
  refine ⟨_, listOrderHistory_eq h row.userAddress limit, ?_, ?_⟩
  · rw [List.pairwise_filterMap]
    refine ((historyOf_sorted row.userAddress).sublist (List.take_sublist _ _)).imp ?_
    intro a b hle a' ha' b' hb'
    rw [listed_statusTsMs ha', listed_statusTsMs hb']
    exact Word.clampNeg_mono hle
  · let n := listLimit limit
    let rows := s.historyOf row.userAddress
    have hmem : r ∈ rows.take n ++ rows.drop n := by
      rw [List.take_append_drop]
      exact mem_historyOf.mpr ⟨huser, id, hr⟩
    rcases List.mem_append.mp hmem with htaken | hdropped
    · exact Or.inl ⟨listed, List.mem_filterMap.mpr ⟨r, htaken, hlisted⟩, hsame⟩
    · -- the listing is full of rows before this one
      have hsorted : (rows.take n ++ rows.drop n).Pairwise fun a b =>
          b.statusTsMs ≤ a.statusTsMs := by
        rw [List.take_append_drop]
        exact historyOf_sorted row.userAddress
      refine Or.inr ⟨?_, ?_⟩
      · have hall : ((rows.take n).filterMap (OrderHistoryRow.listed json)).length =
            (rows.take n).length := by
          rw [List.length_filterMap_eq_countP, List.countP_eq_length]
          intro a ha
          obtain ⟨a', ha'⟩ := exists_listed h (List.mem_of_mem_take ha)
          rw [ha']
          rfl
        have hpos := List.length_pos_of_mem hdropped
        rw [List.length_drop] at hpos
        rw [hall, List.length_take]
        exact Nat.min_eq_left (by omega)
      · intro later hlater
        obtain ⟨a, ha, ha'⟩ := List.mem_filterMap.mp hlater
        have hle : listed.statusTsMs ≤ later.statusTsMs := by
          rw [listed_statusTsMs hlisted, listed_statusTsMs ha']
          exact Word.clampNeg_mono ((List.pairwise_append.mp hsorted).2.2 a ha r hdropped)
        by_cases hknown : row.statusTsMs = 0
        · rw [hknown]
          exact UInt64.zero_le
        · rw [← hsame.statusTsMs hknown]
          exact hle

section

variable {row : PersistOrderRow} {payload : String} {stored : StateStore}

def queuedRow (sdk : Sdk) (row : PersistOrderRow) (payload : String) (s : StateStore) :
    OrderHistoryRow :=
  { s.directRow sdk row payload with statusTsMs := s.nowMs }

theorem directRow_statusTsMs (hknown : row.statusTsMs ≠ 0) :
    (s.directRow sdk row payload).statusTsMs = row.statusTsMs.toInt64 :=
  if_pos (UInt64.pos_iff_ne_zero.mpr hknown)

theorem storesAsDirect_iff (hpayload : json.order row.order = some payload)
    (hrow : stored.orderHistory.lookup row.order.id.toString = some (queuedRow sdk row payload s)) :
    StoresAsDirect sdk json row s stored ↔
      row.statusTsMs = 0 ∨ row.statusTsMs.toInt64 = s.nowMs := by
  have hdirect : s.upsertOrderHistory sdk json row = some
      { s with
        orderHistory := s.orderHistory.insert row.order.id.toString
          (s.directRow sdk row payload) } := by
    unfold upsertOrderHistory
    rw [hpayload]
    rfl
  constructor
  · rintro ⟨direct, r, r', hdirect', hr, hr', -, hsame⟩
    rw [hdirect, Option.some.injEq] at hdirect'
    rw [← hdirect'] at hr'
    rw [hrow, Option.some.injEq] at hr
    have hinserted : s.directRow sdk row payload = r' :=
      Option.some.inj ((AList.lookup_insert _).symm.trans hr')
    by_cases hknown : row.statusTsMs = 0
    · exact Or.inl hknown
    · have hts := hsame hknown
      rw [← hr, ← hinserted, directRow_statusTsMs hknown] at hts
      exact Or.inr hts.symm
  · intro htime
    refine ⟨_, _, _, hdirect, hrow, AList.lookup_insert _, rfl, fun hknown => ?_⟩
    rw [directRow_statusTsMs hknown]
    exact (htime.resolve_left hknown).symm

theorem lists_iff (hreadable : stored.Readable json) (hpayload : json.order row.order = some payload)
    (hrow : stored.orderHistory.lookup row.order.id.toString = some (queuedRow sdk row payload s))
    (htime : row.statusTsMs = 0 ∨ row.statusTsMs.toInt64 = s.nowMs) :
    stored.Lists sdk json row ↔ row.statusTsMs = 0 ∨ ¬s.nowMs < 0 := by
  constructor
  · intro hlists
    by_contra hnot
    rw [not_or, not_not] at hnot
    -- a time that is negative as an `i64` is in no listing
    have hlarge : 2 ^ 63 ≤ row.statusTsMs.toNat := by
      by_contra hlt
      have hpos := (Word.not_toInt64_nonpos_iff row.statusTsMs).mpr ⟨hnot.1, by omega⟩
      rw [htime.resolve_left hnot.1, Int64.le_iff_toInt_le] at hpos
      have hneg := Int64.lt_iff_toInt_lt.mp hnot.2
      omega
    obtain ⟨out, hout, -, hrows⟩ := hlists 0
    rw [listOrderHistory_eq hreadable, Option.some.injEq] at hout
    have hsmall : ∀ listed ∈ out, listed.statusTsMs.toNat < 2 ^ 63 := by
      intro listed hlisted
      rw [← hout] at hlisted
      obtain ⟨a, -, ha⟩ := List.mem_filterMap.mp hlisted
      rw [listed_statusTsMs ha]
      exact Word.clampNeg_lt _
    rcases hrows with ⟨listed, hlisted, hsame⟩ | ⟨hfull, hlater⟩
    · have hlt := hsmall listed hlisted
      rw [hsame.statusTsMs hnot.1] at hlt
      omega
    · cases out with
      | nil => exact absurd hfull (by decide)
      | cons listed out =>
          have hlt := hsmall listed List.mem_cons_self
          have hle := UInt64.le_iff_toNat_le.mp (hlater listed List.mem_cons_self)
          omega
  · intro hcond
    have hlisted : (queuedRow sdk row payload s).listed json = some
        ⟨row.order, userKey row.userAddress, row.chainOrderId,
          normalizeSpotMarketKey sdk row.spotMarket, row.sizeRaw, row.filledRaw,
          Word.clampNeg s.nowMs⟩ := by
      unfold OrderHistoryRow.listed
      change (json.readOrder payload >>= _) = _
      rw [json.readOrder_order row.order payload hpayload]
      rfl
    refine lists_of_lookup hreadable hrow rfl hlisted ⟨rfl, rfl, rfl, rfl, rfl, rfl, ?_⟩
    intro hknown
    change Word.clampNeg s.nowMs = row.statusTsMs
    have hnow := htime.resolve_left hknown
    rw [← hnow]
    rw [← hnow] at hcond
    exact Word.clampNeg_toInt64 (hcond.resolve_left hknown)

end

/-- A row through the queue is stored as written directly, and listed so, exactly if the time
of its status is not known or is the time of the write. -/
theorem queued_iff (sdk : Sdk) (json : HistoryJson) (past : List Write) (row : PersistOrderRow) :
    let s := past.foldl (write sdk json) {}
    match encodePersistOp sdk json (.upsertOrderHistory row) with
    | none => s.upsertOrderHistory sdk json row = none
    | some e =>
        let stored := s.applyEncodedStateBatch sdk [e]
        (StoresAsDirect sdk json row s stored ∧ stored.Lists sdk json row) ↔
          row.statusTsMs = 0 ∨ row.statusTsMs.toInt64 = s.nowMs ∧ ¬s.nowMs < 0 := by
  intro s
  have hreadable : s.Readable json := readable_writes past
  cases hpayload : json.order row.order with
  | none =>
      have hnone : encodePersistOp sdk json (.upsertOrderHistory row) = none := by
        unfold encodePersistOp
        dsimp only
        rw [hpayload]
        rfl
      rw [hnone]
      unfold upsertOrderHistory
      dsimp only
      rw [hpayload]
      rfl
  | some payload =>
      have he : ∃ e, encodePersistOp sdk json (.upsertOrderHistory row) = some e ∧
          (s.execute sdk e).orderHistory.lookup row.order.id.toString =
            some (queuedRow sdk row payload s) := by
        unfold encodePersistOp
        dsimp only
        rw [hpayload]
        exact ⟨_, rfl, AList.lookup_insert _⟩
      obtain ⟨e, he, hrow⟩ := he
      have hstored : (s.applyEncodedStateBatch sdk [e]).Readable json := by
        unfold Readable
        rw [orderHistory_applyEncodedStateBatch]
        exact readable_execute hreadable he
      have hlookup : (s.applyEncodedStateBatch sdk [e]).orderHistory.lookup
          row.order.id.toString = some (queuedRow sdk row payload s) := by
        rw [orderHistory_applyEncodedStateBatch]
        exact hrow
      rw [he]
      dsimp only
      rw [storesAsDirect_iff hpayload hlookup]
      constructor
      · rintro ⟨htime, hlists⟩
        have hcond := (lists_iff hstored hpayload hlookup htime).mp hlists
        tauto
      · intro hcond
        have htime : row.statusTsMs = 0 ∨ row.statusTsMs.toInt64 = s.nowMs := by tauto
        refine ⟨htime, (lists_iff hstored hpayload hlookup htime).mpr ?_⟩
        tauto

end StateStore

end

namespace Sample

def filledHistoryOrder : Order :=
  ⟨orderUuid sdk market "1", Uuid.nil, "", "", "", "buy", "0.5", "10", "filled", none⟩

def historyRow : PersistOrderRow := ⟨filledHistoryOrder, account, "1", market, 10, 10, 5000⟩

def filledHistoryText : String :=
  "\x7b\"id\":\"bcd03192-778f-5192-a215-69e4fbfb10c9\"," ++
    "\"market_id\":\"00000000-0000-0000-0000-000000000000\"," ++
    "\"market_slug\":\"\",\"question\":\"\",\"outcome\":\"\",\"side\":\"buy\"," ++
    "\"price\":\"0.5\",\"size\":\"10\",\"status\":\"filled\"\x7d"

def historyJson : HistoryJson where
  order o := if o = filledHistoryOrder then some filledHistoryText else none
  readOrder text := if text = filledHistoryText then some filledHistoryOrder else none
  readOrder_order o text h := by
    split_ifs at h with heq
    rw [← Option.some.inj h, heq]
    exact if_pos rfl
  position _ := none

/-- A row of the second 5 that is written in the second 9. -/
theorem historyRow_late :
    ¬StateStore.StoresAsDirect sdk historyJson historyRow { nowMs := 9000 }
      (({ nowMs := 9000 } : StateStore).applyEncodedStateBatch sdk
        ((encodePersistOp sdk historyJson (.upsertOrderHistory historyRow)).toList)) := by
  rintro ⟨direct, r, r', hdirect, hr, hr', -, hsame⟩
  have hqueued : ((({ nowMs := 9000 } : StateStore).applyEncodedStateBatch sdk
      ((encodePersistOp sdk historyJson (.upsertOrderHistory historyRow)).toList)).orderHistory.lookup
        historyRow.order.id.toString).map OrderHistoryRow.statusTsMs = some 9000 := by
    decide +kernel
  have hwritten : (({ nowMs := 9000 } : StateStore).upsertOrderHistory sdk historyJson
      historyRow).bind (fun s => (s.orderHistory.lookup historyRow.order.id.toString).map
        OrderHistoryRow.statusTsMs) = some 5000 := by
    decide +kernel
  rw [hr] at hqueued
  rw [hdirect, Option.bind_some, hr'] at hwritten
  have hts := hsame (by decide)
  rw [Option.some.inj hqueued, Option.some.inj hwritten] at hts
  exact absurd hts (by decide)

end Sample

end ClobIndexer
