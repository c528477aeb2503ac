import ClobIndexer.HexSdk
import ClobIndexer.Lib.Paging
import ClobIndexer.Persist.StateStore
/-!
# Pages of the positions

`query_paper_positions` of `src/indexer/index_state.rs`: the positions of an owner and a
market by pages.  The open positions are in memory and the closed ones in a table, and a
page of all of them is put together from one of each, the open ones first.
-/

namespace ClobIndexer

open Lib Lib.Paging

/-! ## The table of the closed positions -/

/-- `serde_json` on the closed positions as well: one is read back from its text. -/
structure PositionJson extends HistoryJson where
  readPosition : String → Option PaperPositionHistory
  readPosition_position : ∀ row text, position row = some text → readPosition text = some row

/-- The total of a query: `u32::try_from(total).unwrap_or(u32::MAX)`. -/
def clampU32 (n : Nat) : UInt32 := UInt32.ofNat (min n (2 ^ 32 - 1))

theorem toNat_clampU32 (n : Nat) : (clampU32 n).toNat = min n (2 ^ 32 - 1) := by
  unfold clampU32
  rw [UInt32.toNat_ofNat']
  omega

abbrev PositionEntry := Sigma fun _ : String × Int64 => PositionColumns

/-- `?1 IS NULL OR owner = ?1`, and the same for the market. -/
def PositionEntry.Matches (owner market : Option String) (e : PositionEntry) : Prop :=
  (∀ o ∈ owner, e.2.owner = o) ∧ ∀ m ∈ market, e.1.1 = m

instance (owner market : Option String) (e : PositionEntry) :
    Decidable (e.Matches owner market) := by
  unfold PositionEntry.Matches
  infer_instance

/-- `ORDER BY closed_block DESC, position DESC`. -/
def PositionEntry.NotAfter (a b : PositionEntry) : Prop :=
  b.2.closedBlock < a.2.closedBlock ∨ (b.2.closedBlock = a.2.closedBlock ∧ b.1.2 ≤ a.1.2)

instance (a b : PositionEntry) : Decidable (a.NotAfter b) := by
  unfold PositionEntry.NotAfter
  infer_instance

namespace StateStore

def closedPositions (owner market : Option String) (s : StateStore) : List PositionEntry :=
  (s.paperPositionHistory.entries.filter fun e => PositionEntry.Matches owner market e).mergeSort
    fun a b => PositionEntry.NotAfter a b

/-- `query_paper_position_history`; it fails at a text that cannot be read. -/
def queryPaperPositionHistory (json : PositionJson) (owner market : Option String)
    (limit offset : Nat) (s : StateStore) : Option (List PaperPositionHistory × UInt32) := do
  let total := clampU32
    (s.paperPositionHistory.entries.filter fun e => PositionEntry.Matches owner market e).length
  if limit = 0 then return ([], total)
  let page ← (((s.closedPositions owner market).drop offset).take limit).mapM fun e =>
    json.readPosition e.2.payload
  return (page, total)

def deletePaperPositionHistoryAfter (blockNum : UInt64) (s : StateStore) : StateStore :=
  { s with
    paperPositionHistory :=
      Dict.retain (fun _ columns => ¬blockNum.toInt64 < columns.closedBlock)
        s.paperPositionHistory }

/-- A transaction of the writer, or the positions closed after a checkpoint go. -/
inductive PositionWrite where
  | batch (ops : List PersistOp)
  | deleteAfter (blockNum : UInt64)

def positionWrite (sdk : Sdk) (json : PositionJson) (s : StateStore) : PositionWrite → StateStore
  | .batch ops =>
      s.applyEncodedStateBatch sdk (ops.filterMap (encodePersistOp sdk json.toHistoryJson))
  | .deleteAfter blockNum => s.deletePaperPositionHistoryAfter blockNum

end StateStore

/-! ## Queries -/

inductive PaperPositionStatus where
  | opened | closed | all
deriving DecidableEq

structure PaperPositionQuery where
  owner : Option String
  market : Option String
  status : PaperPositionStatus
  limit : UInt32
  offset : UInt32

/-- `query_closed_history`; a failure is an empty page, and is logged. -/
def queryClosedHistory (json : PositionJson) (persist : Option StateStore)
    (owner market : Option String) (limit offset : Nat) : List PaperPositionHistory × UInt32 :=
  match persist with
  | none => ([], 0)
  | some s => (s.queryPaperPositionHistory json owner market limit offset).getD ([], 0)

def PaperPositionOpen.Matches (owner market : Option String) (row : PaperPositionOpen) : Prop :=
  (∀ o ∈ owner, userKey row.owner = o) ∧ ∀ m ∈ market, addrKey row.market = m

instance (owner market : Option String) (row : PaperPositionOpen) :
    Decidable (row.Matches owner market) := by
  unfold PaperPositionOpen.Matches
  infer_instance

/-- The block of the opening and then the position, both descending. -/
def PaperPositionOpen.NotAfter (a b : PaperPositionOpen) : Prop :=
  b.openedBlock < a.openedBlock ∨ (b.openedBlock = a.openedBlock ∧ b.position ≤ a.position)

instance (a b : PaperPositionOpen) : Decidable (a.NotAfter b) := by
  unfold PaperPositionOpen.NotAfter
  infer_instance

namespace Paper

def openRows (owner market : Option String) (p : Paper) : List PaperPositionOpen :=
  ((p.positionsOpen.entries.map Sigma.snd).filter fun row =>
    row.Matches owner market).mergeSort fun a b => a.NotAfter b

def queryPaperPositions (json : PositionJson) (persist : Option StateStore)
    (query : PaperPositionQuery) (p : Paper) :
    List PaperPositionOpen × List PaperPositionHistory × UInt32 :=
  let owner := query.owner.map userKey
  let market := query.market.map addrKey
  let limit := max query.limit.toNat 1
  let offset := query.offset.toNat
  let openRows := p.openRows owner market
  match query.status with
  | .opened => ((openRows.drop offset).take limit, [], UInt32.ofNat openRows.length)
  | .closed =>
      let (page, total) := queryClosedHistory json persist owner market limit offset
      ([], page, total)
  | .all =>
      let pageOpen := (openRows.drop offset).take limit
      let remain := limit - pageOpen.length
      let histSkip := offset - openRows.length
      let (pageHist, histTotal) := queryClosedHistory json persist owner market remain histSkip
      let total := clampU32 ((UInt32.ofNat openRows.length).toNat + histTotal.toNat)
      (pageOpen, pageHist, total)

end Paper

/-! ## The list that is paged -/

def StateStore.PositionsReadable (json : PositionJson) (s : StateStore) : Prop :=
  ∀ key columns, s.paperPositionHistory.lookup key = some columns →
    (json.readPosition columns.payload).isSome

namespace StateStore

variable {sdk : Sdk} {json : PositionJson} {s : StateStore}

theorem PositionsReadable.execute (h : s.PositionsReadable json) {op : PersistOp}
    {e : EncodedPersistOp} (he : encodePersistOp sdk json.toHistoryJson op = some e) :
    (s.execute sdk e).PositionsReadable json := by
  cases op with
  | savePaperPositionHistory row =>
      simp only [encodePersistOp, Option.bind_eq_bind, Option.bind_eq_some_iff, Option.pure_def,
        Option.some.injEq] at he
      obtain ⟨payload, hpayload, rfl⟩ := he
      intro key columns hcolumns
      change AList.lookup key (s.paperPositionHistory.insert _ _) = _ at hcolumns
      rw [Dict.lookup_insert_ite] at hcolumns
      split_ifs at hcolumns
      · rw [← Option.some.inj hcolumns, json.readPosition_position row payload hpayload]
        rfl
      · exact h key columns hcolumns
  | upsertOrderHistory row =>
      simp only [encodePersistOp, Option.bind_eq_bind, Option.bind_eq_some_iff, Option.pure_def,
        Option.some.injEq] at he
      obtain ⟨payload, -, rfl⟩ := he
      exact h
  | saveClosedBar bar =>
      cases he
      exact h
  | savePaperHouseHistory row =>
      cases he
      exact h

theorem paperPositionHistory_trim (s : StateStore) (e : EncodedPersistOp) :
    (s.trim sdk e).paperPositionHistory = s.paperPositionHistory := by
  cases e <;> rfl

theorem PositionsReadable.positionWrite (h : s.PositionsReadable json) (w : PositionWrite) :
    (s.positionWrite sdk json w).PositionsReadable json := by
  cases w with
  | batch ops =>
      have hexecuted : ((ops.filterMap (encodePersistOp sdk json.toHistoryJson)).foldl
          (StateStore.execute sdk) s).PositionsReadable json := by
        induction ops generalizing s with
        | nil => exact h
        | cons op ops ih =>
            rw [List.filterMap_cons]
            cases he : encodePersistOp sdk json.toHistoryJson op with
            | none => exact ih h
            | some e => exact ih (h.execute he)
      have htrimmed : ∀ (trimmed : List EncodedPersistOp) (s : StateStore),
          s.PositionsReadable json →
            (trimmed.foldl (StateStore.trim sdk) s).PositionsReadable json := by
        intro trimmed
        induction trimmed with
        | nil => exact fun s h => h
        | cons e trimmed ih =>
            intro s h
            refine ih _ fun key columns hcolumns => h key columns ?_
            rwa [paperPositionHistory_trim] at hcolumns
      exact htrimmed _ _ hexecuted
  | deleteAfter blockNum =>
      intro key columns hcolumns
      change (Dict.retain _ s.paperPositionHistory).lookup key = _ at hcolumns
      rw [Dict.lookup_retain, Option.filter_eq_some_iff] at hcolumns
      exact h key columns hcolumns.1

theorem positionsReadable_writes (past : List PositionWrite) :
    (past.foldl (StateStore.positionWrite sdk json) {}).PositionsReadable json := by
  have hall : ∀ s : StateStore, s.PositionsReadable json →
      (past.foldl (StateStore.positionWrite sdk json) s).PositionsReadable json := by
    induction past with
    | nil => exact fun s h => h
    | cons w past ih => exact fun s h => ih _ (h.positionWrite w)
  exact hall {} fun _ _ h => nomatch h

end StateStore

def positionEntries : Option StateStore → List PositionEntry
  | none => []
  | some s => s.paperPositionHistory.entries

/-- The positions of an owner and a market: the open ones and then the closed ones, each in
the order of its query. -/
structure PositionListing (json : PositionJson) (persist : Option StateStore)
    (owner market : Option String) (p : Paper) where
  opened : List PaperPositionOpen
  entries : List PositionEntry
  closed : List PaperPositionHistory
  opened_perm : opened.Perm ((p.positionsOpen.entries.map Sigma.snd).filter fun row =>
    row.Matches (owner.map userKey) (market.map addrKey))
  opened_sorted : opened.Pairwise PaperPositionOpen.NotAfter
  entries_perm : entries.Perm ((positionEntries persist).filter fun e =>
    PositionEntry.Matches (owner.map userKey) (market.map addrKey) e)
  entries_sorted : entries.Pairwise PositionEntry.NotAfter
  closed_read : entries.map (fun e => json.readPosition e.2.payload) = closed.map some

namespace PositionListing

variable {json : PositionJson} {persist : Option StateStore} {owner market : Option String}
  {p : Paper}

def rows (l : PositionListing json persist owner market p) :
    List (PaperPositionOpen ⊕ PaperPositionHistory) :=
  l.opened.map Sum.inl ++ l.closed.map Sum.inr

end PositionListing

def pageRows (json : PositionJson) (persist : Option StateStore) (owner market : Option String)
    (limit offset : UInt32) (p : Paper) : List (PaperPositionOpen ⊕ PaperPositionHistory) :=
  let page := p.queryPaperPositions json persist ⟨owner, market, .all, limit, offset⟩
  page.1.map Sum.inl ++ page.2.1.map Sum.inr

/-- A page is the rows of the list from its offset on, the total is their number, and pages
one after the other have every row once. -/
structure PagesTile (json : PositionJson) (persist : Option StateStore)
    (owner market : Option String) (p : Paper)
    (rows : List (PaperPositionOpen ⊕ PaperPositionHistory)) : Prop where
  page : ∀ limit offset, pageRows json persist owner market limit offset p =
    (rows.drop offset.toNat).take (max limit.toNat 1)
  total : rows.length < 2 ^ 32 → ∀ limit offset,
    (p.queryPaperPositions json persist ⟨owner, market, .all, limit, offset⟩).2.2.toNat =
      rows.length
  whole : ∀ (limit : UInt32) (n : Nat), rows.length ≤ n * max limit.toNat 1 →
    (n - 1) * max limit.toNat 1 < 2 ^ 32 →
      (List.range n).flatMap (fun k =>
        pageRows json persist owner market limit (UInt32.ofNat (k * max limit.toNat 1)) p) = rows

/-! ## The pages -/

section

variable {json : PositionJson} {persist : Option StateStore} {owner market : Option String}
  {p : Paper}

theorem PaperPositionOpen.notAfter_trans (a b c : PaperPositionOpen) (hab : a.NotAfter b)
    (hbc : b.NotAfter c) : a.NotAfter c := by
  simp only [PaperPositionOpen.NotAfter, UInt64.lt_iff_toNat_lt, UInt64.le_iff_toNat_le,
    ← UInt64.toNat_inj] at hab hbc ⊢
  omega

theorem PaperPositionOpen.notAfter_total (a b : PaperPositionOpen) :
    a.NotAfter b ∨ b.NotAfter a := by
  simp only [PaperPositionOpen.NotAfter, UInt64.lt_iff_toNat_lt, UInt64.le_iff_toNat_le,
    ← UInt64.toNat_inj]
  omega

theorem PositionEntry.notAfter_trans (a b c : PositionEntry) (hab : a.NotAfter b)
    (hbc : b.NotAfter c) : a.NotAfter c := by
  simp only [PositionEntry.NotAfter, Int64.lt_iff_toInt_lt, Int64.le_iff_toInt_le,
    ← Int64.toInt_inj] at hab hbc ⊢
  omega

theorem PositionEntry.notAfter_total (a b : PositionEntry) : a.NotAfter b ∨ b.NotAfter a := by
  simp only [PositionEntry.NotAfter, Int64.lt_iff_toInt_lt, Int64.le_iff_toInt_le,
    ← Int64.toInt_inj]
  omega

theorem queryPaperPositionHistory_eq {s : StateStore} {closed : List PaperPositionHistory}
    (hread : (s.closedPositions owner market).map (fun e => json.readPosition e.2.payload) =
      closed.map some) (limit offset : Nat) :
    s.queryPaperPositionHistory json owner market limit offset =
      some (window offset limit closed, clampU32 closed.length) := by
  have hcount : (s.paperPositionHistory.entries.filter fun e =>
      PositionEntry.Matches owner market e).length = closed.length := by
    have hlength := congrArg List.length hread
    rw [List.length_map, List.length_map] at hlength
    rw [← hlength]
    exact (List.mergeSort_perm _ _).length_eq.symm
  have hpage : (((s.closedPositions owner market).drop offset).take limit).mapM
      (fun e => json.readPosition e.2.payload) = some (window offset limit closed) := by
    apply SeriesTable.mapM_of_map
    rw [map_window some, ← hread]
    exact map_window _ _ _ _
  unfold StateStore.queryPaperPositionHistory
  rw [hcount]
  by_cases hlimit : limit = 0
  · rw [if_pos hlimit, hlimit]
    rfl
  · rw [if_neg hlimit, hpage]
    rfl

theorem exists_listing (hread : ∀ s ∈ persist, s.PositionsReadable json) :
    ∃ l : PositionListing json persist owner market p,
      l.opened = p.openRows (owner.map userKey) (market.map addrKey) ∧
        ∀ limit offset,
          queryClosedHistory json persist (owner.map userKey) (market.map addrKey) limit offset =
            (window offset limit l.closed, clampU32 l.closed.length) := by
  have hopened := SeriesTable.pairwise_mergeSort_decide PaperPositionOpen.NotAfter
    PaperPositionOpen.notAfter_trans PaperPositionOpen.notAfter_total
    ((p.positionsOpen.entries.map Sigma.snd).filter fun row =>
      row.Matches (owner.map userKey) (market.map addrKey))
  cases persist with
  | none =>
      refine ⟨⟨_, [], [], List.mergeSort_perm _ _, hopened, List.Perm.nil, List.Pairwise.nil, rfl⟩,
        rfl, fun limit offset => ?_⟩
      simp [queryClosedHistory, window, clampU32]
  | some s =>
      have hreadable : ∀ e ∈ s.closedPositions (owner.map userKey) (market.map addrKey),
          (json.readPosition e.2.payload).isSome := by
        rintro ⟨key, columns⟩ he
        rw [StateStore.closedPositions, List.mem_mergeSort, List.mem_filter] at he
        exact hread s rfl key columns (Dict.mem_entries_iff.mp he.1)
      have hclosed := SeriesTable.map_eq_map_filterMap hreadable
      have hsorted := SeriesTable.pairwise_mergeSort_decide PositionEntry.NotAfter
        PositionEntry.notAfter_trans PositionEntry.notAfter_total
        (s.paperPositionHistory.entries.filter fun e =>
          PositionEntry.Matches (owner.map userKey) (market.map addrKey) e)
      refine ⟨⟨_, _, _, List.mergeSort_perm _ _, hopened, List.mergeSort_perm _ _, hsorted,
        hclosed⟩, rfl, fun limit offset => ?_⟩
      unfold queryClosedHistory
      dsimp only
      rw [queryPaperPositionHistory_eq hclosed, Option.getD_some]

end

/-- For every state of the process and every table that its writer can leave behind, the
pages of the positions of an owner and a market tile the list of all of them. -/
theorem paperPositions_tiled (sdk : Sdk) (json : PositionJson)
    (past : Option (List StateStore.PositionWrite)) (p : Paper) (owner market : Option String) :
    let persist := past.map fun writes => writes.foldl (StateStore.positionWrite sdk json) {}
    ∃ l : PositionListing json persist owner market p,
      PagesTile json persist owner market p l.rows := by
  intro persist
  have hread : ∀ s ∈ persist, s.PositionsReadable json := by
    intro s hs
    obtain ⟨writes, -, rfl⟩ := Option.map_eq_some_iff.mp hs
    exact StateStore.positionsReadable_writes writes
  obtain ⟨l, hopened, hclosed⟩ := @exists_listing json persist owner market p hread
  have hpage : ∀ limit offset, pageRows json persist owner market limit offset p =
      window offset.toNat (max limit.toNat 1) l.rows := by
    intro limit offset
    unfold PositionListing.rows
    rw [window_append, ← map_window, ← map_window, List.length_map, List.length_map]
    unfold pageRows Paper.queryPaperPositions
    simp only [hclosed, hopened]
    rfl
  refine ⟨l, hpage, ?_, ?_⟩
  · intro hrows limit offset
    have hsum : l.rows.length = l.opened.length + l.closed.length := by
      unfold PositionListing.rows
      rw [List.length_append, List.length_map, List.length_map]
    unfold Paper.queryPaperPositions
    simp only [hclosed, ← hopened]
    rw [toNat_clampU32, toNat_clampU32, UInt32.toNat_ofNat']
    omega
  · intro limit n hlength hoffsets
    have hpages : ∀ k ∈ List.range n,
        pageRows json persist owner market limit (UInt32.ofNat (k * max limit.toNat 1)) p =
          window (k * max limit.toNat 1) (max limit.toNat 1) l.rows := by
      intro k hk
      have hle : k * max limit.toNat 1 ≤ (n - 1) * max limit.toNat 1 :=
        Nat.mul_le_mul_right _ (by have := List.mem_range.mp hk; omega)
      rw [hpage, UInt32.toNat_ofNat', Nat.mod_eq_of_lt (by omega)]
    rw [List.flatMap_congr hpages, flatMap_window, List.take_of_length_le hlength]

end ClobIndexer
