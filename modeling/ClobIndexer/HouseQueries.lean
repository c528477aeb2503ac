import ClobIndexer.HexSdk
import ClobIndexer.Persist.StateStore
/-!
# Queries of the house history

`paper_house_history` of `src/indexer/index_state.rs`.  A market that has no ring in memory
gets one from the table with the first query that finds a row, and that query's lower bound
cuts the ring.  The start of the process fills the rings without a bound, but a checkpoint
that is taken over empties them all.
-/

namespace ClobIndexer

open Lib

/-! ## Loading -/

def HouseColumns.row (market : String) (tsMs : Int) (columns : HouseColumns) :
    PaperHouseHistoryRow where
  market := market
  tsMs := UInt64.ofInt tsMs
  houseFundsRaw := (Text.parseI128 columns.houseFundsRaw).getD 0
  lpBalanceRaw := columns.lpBalanceRaw.toUInt64
  openHousePnlRaw := columns.openHousePnlRaw
  queueDebtRaw := columns.queueDebtRaw.toUInt64

def StateStore.loadPaperHouseHistory (s : StateStore) (market : String) (fromMs : Option UInt64)
    (limit : Nat) : List PaperHouseHistoryRow :=
  let market := Text.toAsciiLowercase (Text.trim market)
  let lower := sqliteInteger (fromMs.getD 0)
  let limit := min (max limit 1) paperHouseHistoryLimit
  let rows := (SeriesTable.series market s.paperHouseHistory).rows.reverse
  let selected := (rows.filter fun row => lower ≤ row.1).take limit
  (selected.map fun row => row.2.row market row.1).reverse

def PaperHouseHistoryRow.tick (row : PaperHouseHistoryRow) : PaperHouseTick where
  tsMs := row.tsMs
  houseFunds := row.houseFundsRaw
  lpBalance := row.lpBalanceRaw
  openHousePnl := row.openHousePnlRaw
  queueDebt := row.queueDebtRaw

/-! ## Queries -/

structure HouseQuery where
  fromMs : Option UInt64
  limit : Nat

/-- The ring that a query finds, loaded where there is none. -/
def Paper.withHouseRing (persist : Option StateStore) (market : String) (fromMs : Option UInt64)
    (p : Paper) : Paper :=
  let key := addrKey market
  if key ∈ p.houseHistory then p
  else
    match persist with
    | none => p
    | some s =>
        let rows := s.loadPaperHouseHistory market fromMs paperHouseHistoryLimit
        if rows = [] then p
        else
          { p with
            houseHistory := p.houseHistory.insert key (rows.map PaperHouseHistoryRow.tick) }

def Paper.paperHouseHistory (persist : Option StateStore) (market : String) (q : HouseQuery)
    (p : Paper) : List PaperHouseTick × Paper :=
  let limit := min (max q.limit 1) paperHouseHistoryLimit
  let p := p.withHouseRing persist market q.fromMs
  match p.houseHistory.lookup (addrKey market) with
  | none => ([], p)
  | some hist =>
      let filtered := hist.filter fun t => atOrAfter q.fromMs t.tsMs
      if filtered.length ≤ limit then (filtered, p)
      else (filtered.drop (filtered.length - limit), p)

def houseAnswers (persist : Option StateStore) (market : String) :
    List HouseQuery → Paper → List (List PaperHouseTick)
  | [], _ => []
  | q :: queries, p =>
      (p.paperHouseHistory persist market q).1 ::
        houseAnswers persist market queries (p.paperHouseHistory persist market q).2

/-! ## What is asked -/

def StateStore.houseTicks (s : StateStore) (market : String) : List PaperHouseTick :=
  (SeriesTable.series (addrKey market) s.paperHouseHistory).rows.map fun row =>
    (row.2.row (addrKey market) row.1).tick

namespace HouseQuery

def Asks (q : HouseQuery) (t : PaperHouseTick) : Prop := ∀ lower ∈ q.fromMs, lower ≤ t.tsMs

instance (q : HouseQuery) (t : PaperHouseTick) : Decidable (q.Asks t) :=
  decidable_of_iff _ atOrAfter_iff

def clampedLimit (q : HouseQuery) : Nat := min (max q.limit 1) paperHouseHistoryLimit

def newest (q : HouseQuery) (ticks : List PaperHouseTick) : List PaperHouseTick :=
  (ticks.filter fun t => q.Asks t).rtake q.clampedLimit

/-- The ticks that a query loads where there is no ring, compared as the table does. -/
def loads (q : HouseQuery) (ticks : List PaperHouseTick) : List PaperHouseTick :=
  ticks.filter fun t => sqliteInteger (q.fromMs.getD 0) ≤ t.tsMs.toNat

/-- A query asks for nothing before the ticks that were loaded, or for so few that these are
enough. -/
def Covered (q : HouseQuery) (ticks loaded : List PaperHouseTick) : Prop :=
  (∀ t ∈ ticks, q.Asks t → t ∈ loaded) ∨ q.clampedLimit ≤ loaded.length

/-- The queries after the first one that loads a tick are covered by what it loaded. -/
def AllCovered (ticks : List PaperHouseTick) : List HouseQuery → Prop
  | [] => True
  | q :: queries =>
      if q.loads ticks = [] then AllCovered ticks queries
      else ∀ q' ∈ queries, q'.Covered ticks (q.loads ticks)

end HouseQuery

/-! ## Answers -/

section

variable {s : StateStore} {persist : Option StateStore} {market : String} {p : Paper}
  {q : HouseQuery} {ticks ring : List PaperHouseTick}

/-- The rows of the market are as many as a trim leaves, and their times have 63 bits. -/
def StateStore.HouseRowsFit (s : StateStore) (market : String) : Prop :=
  (SeriesTable.series (addrKey market) s.paperHouseHistory).rows.length ≤
      paperHouseHistoryLimit ∧
    ∀ row ∈ (SeriesTable.series (addrKey market) s.paperHouseHistory).rows,
      0 ≤ row.1 ∧ row.1 < 2 ^ 63

theorem tsMs_tick {k : Int} (hk : 0 ≤ k ∧ k < 2 ^ 63) (columns : HouseColumns) :
    (((columns.row market k).tick.tsMs.toNat : Nat) : Int) = k :=
  toNat_ofInt hk

theorem houseTicks_sorted (h : s.HouseRowsFit market) :
    (s.houseTicks market).Pairwise fun a b => a.tsMs < b.tsMs := by
  unfold StateStore.houseTicks
  rw [List.pairwise_map]
  refine (SortedStore.sorted _).imp_of_mem fun {a b} ha hb hlt => ?_
  have hstarta : (((a.2.row (addrKey market) a.1).tick.tsMs.toNat : Nat) : Int) = a.1 :=
    tsMs_tick (h.2 a ha) a.2
  have hstartb : (((b.2.row (addrKey market) b.1).tick.tsMs.toNat : Nat) : Int) = b.1 :=
    tsMs_tick (h.2 b hb) b.2
  rw [UInt64.lt_iff_toNat_lt]
  omega

theorem tsMs_houseTicks (h : s.HouseRowsFit market) :
    ∀ t ∈ s.houseTicks market, t.tsMs.toNat < 2 ^ 63 := by
  intro t ht
  obtain ⟨row, hrow, rfl⟩ := List.mem_map.mp ht
  have hfits := h.2 row hrow
  have hstart : (((row.2.row (addrKey market) row.1).tick.tsMs.toNat : Nat) : Int) = row.1 :=
    tsMs_tick hfits row.2
  omega

theorem load_ticks (h : s.HouseRowsFit market) (q : HouseQuery) :
    (s.loadPaperHouseHistory market q.fromMs paperHouseHistoryLimit).map
        PaperHouseHistoryRow.tick = q.loads (s.houseTicks market) := by
  have hshort : ∀ {rows : List PaperHouseTick}, rows.length ≤ paperHouseHistoryLimit →
      rows.rtake paperHouseHistoryLimit = rows := by
    intro rows hrows
    unfold List.rtake
    rw [Nat.sub_eq_zero_of_le hrows, List.drop_zero]
  have hselect : (s.loadPaperHouseHistory market q.fromMs paperHouseHistoryLimit).map
      PaperHouseHistoryRow.tick =
      (((SeriesTable.series (addrKey market) s.paperHouseHistory).rows.filter fun row =>
        sqliteInteger (q.fromMs.getD 0) ≤ row.1).map fun row =>
          (row.2.row (addrKey market) row.1).tick).rtake paperHouseHistoryLimit := by
    have hlimit : min (max paperHouseHistoryLimit 1) paperHouseHistoryLimit =
        paperHouseHistoryLimit := by decide
    unfold StateStore.loadPaperHouseHistory
    rw [hlimit, List.map_reverse, List.map_map, ← SortedStore.reverse_select]
    rfl
  rw [hselect, hshort]
  · unfold HouseQuery.loads StateStore.houseTicks
    rw [List.filter_map]
    congr 1
    refine List.filter_congr fun row hrow => ?_
    have hstart : (((row.2.row (addrKey market) row.1).tick.tsMs.toNat : Nat) : Int) = row.1 :=
      tsMs_tick (h.2 row hrow) row.2
    simp only [Function.comp_apply, hstart]
  · rw [List.length_map]
    exact (List.length_filter_le _ _).trans h.1

theorem paperHouseHistory_of_ring (hring : p.houseHistory.lookup (addrKey market) = some ring) :
    p.paperHouseHistory persist market q = (q.newest ring, p) := by
  have hmem : addrKey market ∈ p.houseHistory := Dict.mem_iff_lookup.mpr ⟨ring, hring⟩
  have hsame : p.withHouseRing persist market q.fromMs = p := by
    unfold Paper.withHouseRing
    exact if_pos hmem
  have hasked : ring.filter (fun t => atOrAfter q.fromMs t.tsMs) =
      ring.filter fun t => q.Asks t := by
    refine List.filter_congr fun t _ => ?_
    rw [Bool.eq_iff_iff, atOrAfter_iff, decide_eq_true_eq]
    rfl
  unfold Paper.paperHouseHistory
  simp only [hsame, hring, hasked]
  unfold HouseQuery.newest List.rtake HouseQuery.clampedLimit
  split_ifs with hlength
  · rw [Nat.sub_eq_zero_of_le hlength, List.drop_zero]
  · rfl

theorem houseAnswers_of_ring (hring : p.houseHistory.lookup (addrKey market) = some ring)
    (queries : List HouseQuery) :
    houseAnswers persist market queries p = queries.map fun q => q.newest ring := by
  induction queries with
  | nil => rfl
  | cons q queries ih =>
      rw [houseAnswers, paperHouseHistory_of_ring hring, List.map_cons, ih]

theorem lower_le_of_asks {t : PaperHouseTick} (ht : t.tsMs.toNat < 2 ^ 63) (hasks : q.Asks t) :
    sqliteInteger (q.fromMs.getD 0) ≤ t.tsMs.toNat := by
  cases hfrom : q.fromMs with
  | none =>
      rw [Option.getD_none, sqliteInteger_of_lt (by decide)]
      simp
  | some lower =>
      have hle := UInt64.le_iff_toNat_le.mp (hasks lower hfrom)
      rw [Option.getD_some, sqliteInteger_of_lt (by omega)]
      omega

theorem newest_loads (hticks : ∀ t ∈ ticks, t.tsMs.toNat < 2 ^ 63) (q : HouseQuery) :
    q.newest (q.loads ticks) = q.newest ticks := by
  unfold HouseQuery.newest HouseQuery.loads
  rw [List.filter_filter]
  congr 1
  refine List.filter_congr fun t ht => ?_
  have hlower := fun hasks => lower_le_of_asks (q := q) (hticks t ht) hasks
  simpa using hlower

/-- What an earlier query loaded answers a later one exactly when it covers it. -/
theorem newest_loads_iff (hsorted : ticks.Pairwise fun a b => a.tsMs < b.tsMs)
    (q later : HouseQuery) :
    later.newest (q.loads ticks) = later.newest ticks ↔ later.Covered ticks (q.loads ticks) := by
  let lower := sqliteInteger (q.fromMs.getD 0)
  let asked := ticks.filter fun t => later.Asks t
  let before := asked.filter fun t => ¬lower ≤ t.tsMs.toNat
  have hsplit : before ++ asked.filter (fun t => lower ≤ t.tsMs.toNat) = asked := by
    refine SortedStore.filter_not_append_filter ((hsorted.filter _).imp fun {a b} hlt hle => ?_)
    have hnat := UInt64.lt_iff_toNat_lt.mp hlt
    omega
  have hloaded : (q.loads ticks).filter (fun t => later.Asks t) =
      asked.filter fun t => lower ≤ t.tsMs.toNat := List.filter_comm _ _ _
  have hiff : later.newest (q.loads ticks) = later.newest ticks ↔
      before = [] ∨
        later.clampedLimit ≤ (asked.filter fun t => lower ≤ t.tsMs.toNat).length := by
    unfold HouseQuery.newest
    rw [hloaded, eq_comm, ← SortedStore.rtake_append_iff, hsplit]
  rw [hiff]
  unfold HouseQuery.Covered
  have hbefore : before = [] ↔ ∀ t ∈ ticks, later.Asks t → t ∈ q.loads ticks := by
    simp only [before, asked, List.filter_eq_nil_iff, List.mem_filter, decide_eq_true_eq,
      decide_not, Bool.not_eq_true', decide_eq_false_iff_not, not_not, and_imp]
    refine forall₃_congr fun t ht _ => ?_
    simp [HouseQuery.loads, ht, lower]
  by_cases hnil : before = []
  · exact iff_of_true (Or.inl hnil) (Or.inl (hbefore.mp hnil))
  · -- a tick before the loaded ones is asked for, and then so are all the loaded ones
    obtain ⟨first, hfirst⟩ := List.exists_mem_of_ne_nil _ hnil
    have hall : (asked.filter fun t => lower ≤ t.tsMs.toNat) = q.loads ticks := by
      rw [← hloaded, List.filter_eq_self]
      intro t ht
      obtain ⟨hasked, hnot⟩ := List.mem_filter.mp hfirst
      have hasks := of_decide_eq_true (List.mem_filter.mp hasked).2
      have hle := of_decide_eq_true (List.mem_filter.mp ht).2
      have hlt : ¬lower ≤ first.tsMs.toNat := of_decide_eq_true hnot
      refine decide_eq_true fun bound hbound => ?_
      have hbelow := UInt64.le_iff_toNat_le.mp (hasks bound hbound)
      rw [UInt64.le_iff_toNat_le]
      omega
    rw [hall]
    exact ⟨fun h => Or.inr (h.resolve_left hnil), fun h => Or.inr (h.resolve_left
      fun hcovers => hnil (hbefore.mpr hcovers))⟩

theorem paperHouseHistory_of_empty (h : s.HouseRowsFit market)
    (hnone : addrKey market ∉ p.houseHistory) (hloads : q.loads (s.houseTicks market) = []) :
    p.paperHouseHistory (some s) market q = ([], p) := by
  have hrows : s.loadPaperHouseHistory market q.fromMs paperHouseHistoryLimit = [] := by
    rw [← load_ticks h q] at hloads
    exact List.map_eq_nil_iff.mp hloads
  have hsame : p.withHouseRing (some s) market q.fromMs = p := by
    unfold Paper.withHouseRing
    simp only [if_neg hnone, if_pos hrows]
  unfold Paper.paperHouseHistory
  simp only [hsame, AList.lookup_eq_none.mpr hnone]

theorem paperHouseHistory_of_loads (h : s.HouseRowsFit market)
    (hnone : addrKey market ∉ p.houseHistory) (hloads : q.loads (s.houseTicks market) ≠ []) :
    (p.paperHouseHistory (some s) market q).1 = q.newest (q.loads (s.houseTicks market)) ∧
      (p.paperHouseHistory (some s) market q).2.houseHistory.lookup (addrKey market) =
        some (q.loads (s.houseTicks market)) := by
  have hrows : s.loadPaperHouseHistory market q.fromMs paperHouseHistoryLimit ≠ [] := by
    intro hnil
    rw [← load_ticks h q, hnil] at hloads
    exact hloads rfl
  have hring : (p.withHouseRing (some s) market q.fromMs).houseHistory.lookup (addrKey market) =
      some (q.loads (s.houseTicks market)) := by
    unfold Paper.withHouseRing
    simp only [if_neg hnone, if_neg hrows]
    rw [AList.lookup_insert, load_ticks h q]
  -- the query runs as it would on the ring that it has put
  have hagain : p.paperHouseHistory (some s) market q =
      (p.withHouseRing (some s) market q.fromMs).paperHouseHistory (some s) market q := by
    have hmem : addrKey market ∈ (p.withHouseRing (some s) market q.fromMs).houseHistory :=
      Dict.mem_iff_lookup.mpr ⟨_, hring⟩
    have hidem : (p.withHouseRing (some s) market q.fromMs).withHouseRing (some s) market
        q.fromMs = p.withHouseRing (some s) market q.fromMs := if_pos hmem
    unfold Paper.paperHouseHistory
    rw [hidem]
  rw [hagain, paperHouseHistory_of_ring hring]
  exact ⟨rfl, hring⟩

end

/-- Where the market has no ring, every query is answered as if it were the first exactly
when those after the first one that loads are covered by it. -/
theorem houseAnswers_eq_iff (s : StateStore) (market : String) (h : s.HouseRowsFit market)
    (p : Paper) (hnone : addrKey market ∉ p.houseHistory) (queries : List HouseQuery) :
    houseAnswers (some s) market queries p =
        queries.map (fun q => q.newest (s.houseTicks market)) ↔
      HouseQuery.AllCovered (s.houseTicks market) queries := by
  induction queries with
  | nil => exact iff_of_true rfl trivial
  | cons q queries ih =>
      rw [houseAnswers, List.map_cons, List.cons.injEq, HouseQuery.AllCovered]
      by_cases hloads : q.loads (s.houseTicks market) = []
      · -- no ring is made, and nothing is asked for
        have hnewest : q.newest (s.houseTicks market) = [] := by
          rw [← newest_loads (tsMs_houseTicks h), hloads]
          exact List.rtake_nil _
        rw [paperHouseHistory_of_empty h hnone hloads, if_pos hloads, ← ih, hnewest]
        exact and_iff_right rfl
      · obtain ⟨hanswer, hring⟩ := paperHouseHistory_of_loads h hnone hloads
        rw [hanswer, houseAnswers_of_ring hring, if_neg hloads,
          newest_loads (tsMs_houseTicks h), List.map_inj_left]
        rw [and_iff_right rfl]
        exact forall₂_congr fun later _ => newest_loads_iff (houseTicks_sorted h) q later

namespace Sample

def houseStore : StateStore :=
  ({} : StateStore).applyEncodedStateBatch sdk
    [.savePaperHouseHistory ⟨market, 100, 5, 1, 0, 0⟩,
      .savePaperHouseHistory ⟨market, 200, 6, 1, 0, 0⟩]

theorem houseStore_fits : houseStore.HouseRowsFit market := by
  unfold StateStore.HouseRowsFit
  decide +kernel

/-- A longer and then a shorter range. -/
theorem wideFirst_answered :
    houseAnswers (some houseStore) market [⟨none, 10⟩, ⟨some 150, 10⟩] {} =
      [⟨none, 10⟩, ⟨some 150, 10⟩].map fun q : HouseQuery =>
        q.newest (houseStore.houseTicks market) :=
  (houseAnswers_eq_iff houseStore market houseStore_fits {} (AList.notMem_empty _) _).mpr (by
    unfold HouseQuery.AllCovered
    rw [if_neg (by decide +kernel)]
    intro q hq
    rw [List.mem_singleton.mp hq]
    exact Or.inl (by decide +kernel))

/-- A shorter range first: the longer one then lacks the older sample. -/
theorem narrowFirst_cut :
    houseAnswers (some houseStore) market [⟨some 150, 10⟩, ⟨none, 10⟩] {} ≠
      [⟨some 150, 10⟩, ⟨none, 10⟩].map fun q : HouseQuery =>
        q.newest (houseStore.houseTicks market) := by
  decide +kernel

end Sample

end ClobIndexer
