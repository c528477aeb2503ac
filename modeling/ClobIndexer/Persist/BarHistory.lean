import ClobIndexer.HexSdk
import ClobIndexer.Persist.StateStore
/-!
# The history of the bars

`load_closed_bars` of `src/persist/store.rs` and `load_history` of `src/bars.rs`.  The table
keeps of each series the newest bars that were saved, and a query should return the newest
of those in its range.  The bounds of a query are numbers of 64 bits without a sign, and the
table compares them as numbers with one.
-/

namespace ClobIndexer

open Lib

/-! ## Loading -/

def BarColumns.row (spotMarket : String) (interval : BarInterval) (startTs : Int)
    (columns : BarColumns) : ClosedBarRow where
  spotMarket := spotMarket
  interval := interval
  startTs := UInt64.ofInt startTs
  openRaw := columns.openRaw.toUInt64
  highRaw := columns.highRaw.toUInt64
  lowRaw := columns.lowRaw.toUInt64
  closeRaw := columns.closeRaw.toUInt64
  volumeRaw := columns.volumeRaw.toUInt64
  tradeCount := columns.tradeCount.toUInt64

def i64Max : UInt64 := 9223372036854775807

namespace StateStore

variable (sdk : Sdk)

def closedBars (s : StateStore) (spotMarket : String) (interval : BarInterval) :
    List ClosedBarRow :=
  let spot := normalizeSpotMarketKey sdk spotMarket
  (SeriesTable.series (spot, interval) s.bars).rows.map fun row => row.2.row spot interval row.1

def loadClosedBars (s : StateStore) (spotMarket : String) (interval : BarInterval)
    (fromTs toTs : Option UInt64) (limit : Nat) : List ClosedBarRow :=
  let spot := normalizeSpotMarketKey sdk spotMarket
  let lower := sqliteInteger (fromTs.getD 0)
  let upper := sqliteInteger (toTs.getD i64Max)
  let limit := min (max limit 1) barHistoryLimit
  let rows := (SeriesTable.series (spot, interval) s.bars).rows.reverse
  let selected := (rows.filter fun row => lower ≤ row.1 ∧ row.1 ≤ upper).take limit
  (selected.map fun row => row.2.row spot interval row.1).reverse

end StateStore

def ClosedBarRow.InRange (fromTs toTs : Option UInt64) (bar : ClosedBarRow) : Prop :=
  (∀ lower ∈ fromTs, lower ≤ bar.startTs) ∧ ∀ upper ∈ toTs, bar.startTs ≤ upper

instance (fromTs toTs : Option UInt64) (bar : ClosedBarRow) :
    Decidable (bar.InRange fromTs toTs) :=
  @instDecidableAnd _ _ (Option.decidableForallMem fromTs) (Option.decidableForallMem toTs)

/-! ## Retention -/

def savedBars (sdk : Sdk) (g : String × BarInterval) (ops : List EncodedPersistOp) :
    List (Int × BarColumns) :=
  ops.filterMap fun
    | .saveClosedBar bar =>
        if (normalizeSpotMarketKey sdk bar.spotMarket, bar.interval) = g then
          some (sqliteInteger bar.startTs, bar.columns)
        else none
    | _ => none

namespace StateStore

variable (sdk : Sdk)

def applyBatches (batches : List (List EncodedPersistOp)) (s : StateStore) : StateStore :=
  batches.foldl (fun s ops => s.applyEncodedStateBatch sdk ops) s

/-- The table has of each series the newest bars of those that were saved, each with the
columns it was saved with last. -/
def KeepsNewestBars (s : StateStore) (ops : List EncodedPersistOp) : Prop :=
  ∀ g, (SeriesTable.series g s.bars).rows =
    (SortedStore.putAll (savedBars sdk g ops) .empty).rows.rtake barHistoryLimit

variable {sdk} {g : String × BarInterval}

theorem series_execute (s : StateStore) (ops : List EncodedPersistOp) :
    SeriesTable.series g (ops.foldl (execute sdk) s).bars =
      (SeriesTable.series g s.bars).putAll (savedBars sdk g ops) := by
  induction ops generalizing s with
  | nil => rfl
  | cons op ops ih =>
      rw [List.foldl_cons, ih]
      cases op with
      | saveClosedBar bar =>
          unfold savedBars
          rw [List.filterMap_cons]
          by_cases hg : (normalizeSpotMarketKey sdk bar.spotMarket, bar.interval) = g
          · simp only [execute, SeriesTable.upsert, SeriesTable.series_insert, hg, if_true]
            rfl
          · have hne : ¬g = (normalizeSpotMarketKey sdk bar.spotMarket, bar.interval) :=
              fun heq => hg heq.symm
            simp only [execute, SeriesTable.upsert, SeriesTable.series_insert, hg, hne, if_false]
      | upsertOrderHistory _ _ _ _ _ _ _ _ => rfl
      | savePaperHouseHistory _ => rfl
      | savePaperPositionHistory _ _ _ _ _ => rfl

/-- The trims after a transaction cut a series that it saved a bar in. -/
theorem series_trim (s : StateStore) (ops : List EncodedPersistOp) :
    (SeriesTable.series g (ops.foldl (trim sdk) s).bars).rows.reverse =
      if savedBars sdk g ops = [] then (SeriesTable.series g s.bars).rows.reverse
      else (SeriesTable.series g s.bars).rows.reverse.take barHistoryLimit := by
  induction ops generalizing s with
  | nil => rfl
  | cons op ops ih =>
      rw [List.foldl_cons, ih]
      cases op with
      | saveClosedBar bar =>
          unfold savedBars
          rw [List.filterMap_cons]
          by_cases hg : (normalizeSpotMarketKey sdk bar.spotMarket, bar.interval) = g
          · simp only [trim, SeriesTable.trim, SeriesTable.series_insert, hg, if_true]
            rw [SortedStore.reverse_keepNewest (by decide), List.take_take, Nat.min_self,
              ite_self, if_neg (List.cons_ne_nil _ _)]
          · have hne : ¬g = (normalizeSpotMarketKey sdk bar.spotMarket, bar.interval) :=
              fun heq => hg heq.symm
            simp only [trim, SeriesTable.trim, SeriesTable.series_insert, hg, hne, if_false]
      | upsertOrderHistory _ _ _ _ _ _ _ _ => rfl
      | savePaperHouseHistory _ => rfl
      | savePaperPositionHistory _ _ _ _ _ => rfl

theorem KeepsNewestBars.applyEncodedStateBatch {s : StateStore} {saved : List EncodedPersistOp}
    (h : s.KeepsNewestBars sdk saved) (ops : List EncodedPersistOp) :
    (s.applyEncodedStateBatch sdk ops).KeepsNewestBars sdk (saved ++ ops) := by
  intro g
  have hsplit : savedBars sdk g (saved ++ ops) = savedBars sdk g saved ++ savedBars sdk g ops :=
    List.filterMap_append
  have halike : SortedStore.Alike barHistoryLimit (SeriesTable.series g s.bars)
      (SortedStore.putAll (savedBars sdk g saved) .empty) := by
    unfold SortedStore.Alike
    rw [h g, List.rtake_eq_reverse_take_reverse, List.reverse_reverse, List.take_take,
      Nat.min_self]
  have hput := halike.putAll (savedBars sdk g ops)
  unfold SortedStore.Alike at hput
  have hall : SortedStore.putAll (savedBars sdk g (saved ++ ops)) .empty =
      (SortedStore.putAll (savedBars sdk g saved) .empty).putAll (savedBars sdk g ops) := by
    rw [hsplit]
    exact List.foldl_append
  rw [List.rtake_eq_reverse_take_reverse, hall, ← hput, ← List.reverse_eq_iff]
  unfold StateStore.applyEncodedStateBatch
  rw [series_trim, series_execute]
  split_ifs with hnone
  · -- the transaction saved no bar of the series, which was cut before
    rw [hnone]
    exact (List.take_of_length_le (by
      rw [List.length_reverse]
      unfold SortedStore.putAll
      rw [List.foldl_nil, h g, List.rtake_eq_reverse_take_reverse, List.length_reverse]
      exact List.length_take_le _ _)).symm
  · rfl

/-- The rows that a run of transactions leaves. -/
theorem keepsNewestBars_applyBatches (batches : List (List EncodedPersistOp)) (nowMs : Int64) :
    (({ nowMs := nowMs } : StateStore).applyBatches sdk batches).KeepsNewestBars sdk
      batches.flatten := by
  have hrun : ∀ (batches : List (List EncodedPersistOp)) (s : StateStore)
      (saved : List EncodedPersistOp), s.KeepsNewestBars sdk saved →
        (s.applyBatches sdk batches).KeepsNewestBars sdk (saved ++ batches.flatten) := by
    intro batches
    induction batches with
    | nil => exact fun s saved h => by rwa [List.flatten_nil, List.append_nil]
    | cons ops batches ih =>
        intro s saved h
        rw [List.flatten_cons, ← List.append_assoc]
        exact ih _ _ (h.applyEncodedStateBatch ops)
  refine hrun batches _ [] fun g => ?_
  have hempty : (SortedStore.putAll (savedBars sdk g []) SortedStore.empty).rows = [] := rfl
  rw [hempty, List.rtake_nil]
  rfl

/-! ## Queries -/

/-- The query returns the newest of the stored bars in its range, oldest first. -/
structure AnswersBars (sdk : Sdk) (s : StateStore) (spotMarket : String) (interval : BarInterval)
    (fromTs toTs : Option UInt64) (limit : Nat) : Prop where
  newest : s.loadClosedBars sdk spotMarket interval fromTs toTs limit =
    ((s.closedBars sdk spotMarket interval).filter fun bar => bar.InRange fromTs toTs).rtake
      (min (max limit 1) barHistoryLimit)
  ascending : (s.loadClosedBars sdk spotMarket interval fromTs toTs limit).Pairwise
    fun a b => a.startTs < b.startTs

/-- Each bound fits in a number with a sign, or it matters for no stored bar. -/
def BoundsHarmless (fromTs toTs : Option UInt64) (bars : List ClosedBarRow) : Prop :=
  ((∀ upper ∈ toTs, upper ≤ i64Max) ∨ ∀ bar ∈ bars, ¬bar.InRange fromTs none) ∧
    ((∀ lower ∈ fromTs, lower ≤ i64Max) ∨ (∃ upper ∈ toTs, i64Max < upper) ∨
      ∀ bar ∈ bars, ¬bar.InRange none toTs)

def StartsFit (s : StateStore) : Prop :=
  ∀ g, ∀ row ∈ (SeriesTable.series g s.bars).rows, 0 ≤ row.1 ∧ row.1 < 2 ^ 63

variable {s : StateStore} {spotMarket : String} {interval : BarInterval}
  {fromTs toTs : Option UInt64} {limit : Nat}

theorem KeepsNewestBars.startsFit {ops : List EncodedPersistOp} (h : s.KeepsNewestBars sdk ops)
    (hops : ∀ bar, EncodedPersistOp.saveClosedBar bar ∈ ops → bar.startTs.toNat < 2 ^ 63) :
    s.StartsFit := by
  intro g row hrow
  rw [h g] at hrow
  have hput := List.mem_of_mem_drop hrow
  rcases SortedStore.mem_of_mem_putAll hput with hsaved | hnone
  · obtain ⟨op, hop, hsome⟩ := List.mem_filterMap.mp hsaved
    cases op with
    | saveClosedBar bar =>
        dsimp only at hsome
        split_ifs at hsome with hg
        have hfits := hops bar hop
        rw [← Option.some.inj hsome]
        dsimp only
        rw [sqliteInteger_of_lt hfits]
        omega
    | upsertOrderHistory _ _ _ _ _ _ _ _ => cases hsome
    | savePaperHouseHistory _ => cases hsome
    | savePaperPositionHistory _ _ _ _ _ => cases hsome
  · exact absurd hnone (List.not_mem_nil)

theorem startTs_row {k : Int} (hk : 0 ≤ k ∧ k < 2 ^ 63) (columns : BarColumns) :
    ((columns.row spotMarket interval k).startTs.toNat : Int) = k :=
  toNat_ofInt hk

theorem lower_le_iff (hfits : ∀ lower ∈ fromTs, lower ≤ i64Max) {bar : ClosedBarRow} :
    sqliteInteger (fromTs.getD 0) ≤ bar.startTs.toNat ↔ bar.InRange fromTs none := by
  cases fromTs with
  | none => simp [ClosedBarRow.InRange, sqliteInteger]
  | some lower =>
      have hlt : lower.toNat < 2 ^ 63 := by
        have hle := UInt64.le_iff_toNat_le.mp (hfits lower rfl)
        have hmax : i64Max.toNat = 2 ^ 63 - 1 := by decide
        omega
      rw [Option.getD_some, sqliteInteger_of_lt hlt, Int.ofNat_le, ← UInt64.le_iff_toNat_le]
      simp [ClosedBarRow.InRange]

theorem le_upper_iff (hfits : ∀ upper ∈ toTs, upper ≤ i64Max) {bar : ClosedBarRow}
    (hbar : bar.startTs.toNat < 2 ^ 63) :
    (bar.startTs.toNat : Int) ≤ sqliteInteger (toTs.getD i64Max) ↔ bar.InRange none toTs := by
  have hmax : i64Max.toNat = 2 ^ 63 - 1 := by decide
  cases toTs with
  | none =>
      rw [Option.getD_none, sqliteInteger_of_lt (by omega), hmax]
      simp only [ClosedBarRow.InRange, Option.not_mem_none, false_implies, implies_true, and_self,
        iff_true]
      omega
  | some upper =>
      have hlt : upper.toNat < 2 ^ 63 := by
        have hle := UInt64.le_iff_toNat_le.mp (hfits upper rfl)
        omega
      rw [Option.getD_some, sqliteInteger_of_lt hlt, Int.ofNat_le, ← UInt64.le_iff_toNat_le]
      simp [ClosedBarRow.InRange]

theorem sqliteInteger_wide {x : UInt64} (hx : i64Max < x) : sqliteInteger x < 0 := by
  have hlt := UInt64.lt_iff_toNat_lt.mp hx
  have hmax : i64Max.toNat = 2 ^ 63 - 1 := by decide
  exact sqliteInteger_neg (by omega)

def Selected (fromTs toTs : Option UInt64) (bar : ClosedBarRow) : Prop :=
  sqliteInteger (fromTs.getD 0) ≤ bar.startTs.toNat ∧
    (bar.startTs.toNat : Int) ≤ sqliteInteger (toTs.getD i64Max)

instance (fromTs toTs : Option UInt64) (bar : ClosedBarRow) :
    Decidable (Selected fromTs toTs bar) := by
  unfold Selected
  infer_instance

theorem startTs_closedBars (h : s.StartsFit) :
    ∀ bar ∈ s.closedBars sdk spotMarket interval, bar.startTs.toNat < 2 ^ 63 := by
  intro bar hbar
  obtain ⟨row, hrow, rfl⟩ := List.mem_map.mp hbar
  have hfits := h _ row hrow
  have hstart : ((row.2.row (normalizeSpotMarketKey sdk spotMarket) interval
      row.1).startTs.toNat : Int) = row.1 := startTs_row hfits row.2
  omega

theorem loadClosedBars_eq (h : s.StartsFit) :
    s.loadClosedBars sdk spotMarket interval fromTs toTs limit =
      ((s.closedBars sdk spotMarket interval).filter fun bar => Selected fromTs toTs bar).rtake
        (min (max limit 1) barHistoryLimit) := by
  unfold loadClosedBars closedBars
  dsimp only
  rw [SortedStore.reverse_select, List.filter_map]
  congr 2
  refine List.filter_congr fun row hrow => ?_
  have hfits := h _ row hrow
  have hstart : ((row.2.row (normalizeSpotMarketKey sdk spotMarket) interval
      row.1).startTs.toNat : Int) = row.1 := startTs_row hfits row.2
  simp only [Function.comp_apply, Selected, hstart]

theorem inRange_iff {bar : ClosedBarRow} :
    bar.InRange fromTs toTs ↔ bar.InRange fromTs none ∧ bar.InRange none toTs := by
  simp [ClosedBarRow.InRange]

theorem filter_rtake_eq_nil {bars : List ClosedBarRow} {p : ClosedBarRow → Prop}
    [DecidablePred p] :
    (bars.filter p).rtake (min (max limit 1) barHistoryLimit) = [] ↔ ∀ bar ∈ bars, ¬p bar := by
  have hpos : min (max limit 1) barHistoryLimit ≠ 0 := by
    unfold barHistoryLimit
    omega
  rw [List.rtake_eq_reverse_take_reverse, List.reverse_eq_nil_iff, List.take_eq_nil_iff,
    List.reverse_eq_nil_iff, List.filter_eq_nil_iff]
  simp [hpos]

/-- The bars that are selected are the ones asked for, or neither bound is harmless. -/
theorem selected_iff {bars : List ClosedBarRow} (hbars : ∀ bar ∈ bars, bar.startTs.toNat < 2 ^ 63) :
    (bars.filter fun bar => Selected fromTs toTs bar).rtake (min (max limit 1) barHistoryLimit) =
        (bars.filter fun bar => bar.InRange fromTs toTs).rtake
          (min (max limit 1) barHistoryLimit) ↔
      BoundsHarmless fromTs toTs bars := by
  have hmax : i64Max.toNat = 2 ^ 63 - 1 := by decide
  by_cases hto : ∀ upper ∈ toTs, upper ≤ i64Max
  · have hnowide : ¬∃ upper ∈ toTs, i64Max < upper := by
      rintro ⟨upper, hupper, hwide⟩
      exact absurd (hto upper hupper) (UInt64.not_le.mpr hwide)
    by_cases hfrom : ∀ lower ∈ fromTs, lower ≤ i64Max
    · -- both bounds are compared as they stand
      have hsame : bars.filter (fun bar => Selected fromTs toTs bar) =
          bars.filter fun bar => bar.InRange fromTs toTs := by
        refine List.filter_congr fun bar hbar => ?_
        rw [decide_eq_decide, inRange_iff, ← lower_le_iff hfrom, ← le_upper_iff hto (hbars bar hbar)]
        rfl
      rw [hsame]
      exact iff_of_true rfl ⟨Or.inl hto, Or.inl hfrom⟩
    · -- the lower bound is above all the stored starts, and no bound once it is cast
      obtain ⟨lower, hlower, hwide⟩ : ∃ lower ∈ fromTs, i64Max < lower := by
        simpa using hfrom
      have hasked : bars.filter (fun bar => bar.InRange fromTs toTs) = [] := by
        rw [List.filter_eq_nil_iff]
        intro bar hbar hrange
        have hle := UInt64.le_iff_toNat_le.mp ((of_decide_eq_true hrange).1 lower hlower)
        have hlt := UInt64.lt_iff_toNat_lt.mp hwide
        have := hbars bar hbar
        omega
      have hselected : bars.filter (fun bar => Selected fromTs toTs bar) =
          bars.filter fun bar => bar.InRange none toTs := by
        refine List.filter_congr fun bar hbar => ?_
        have hcast := sqliteInteger_wide hwide
        rw [decide_eq_decide, ← le_upper_iff hto (hbars bar hbar), Selected, hlower,
          Option.getD_some]
        omega
      rw [hasked, hselected, List.rtake_nil, filter_rtake_eq_nil]
      exact ⟨fun h => ⟨Or.inl hto, Or.inr (Or.inr h)⟩,
        fun h => (h.2.resolve_left hfrom).resolve_left hnowide⟩
  · -- the upper bound is above all the stored starts, and below them once it is cast
    obtain ⟨upper, hupper, hwide⟩ : ∃ upper ∈ toTs, i64Max < upper := by
      simpa using hto
    have hselected : bars.filter (fun bar => Selected fromTs toTs bar) = [] := by
      rw [List.filter_eq_nil_iff]
      intro bar hbar hsel
      have hcast := sqliteInteger_wide hwide
      have hle := (of_decide_eq_true hsel).2
      rw [hupper, Option.getD_some] at hle
      omega
    have hasked : bars.filter (fun bar => bar.InRange fromTs toTs) =
        bars.filter fun bar => bar.InRange fromTs none := by
      refine List.filter_congr fun bar hbar => ?_
      rw [decide_eq_decide, inRange_iff, and_iff_left_iff_imp]
      intro _
      refine ⟨fun _ h => (nomatch h), fun upper' hupper' => ?_⟩
      rw [hupper, Option.mem_some_iff] at hupper'
      rw [← hupper', UInt64.le_iff_toNat_le]
      have hlt := UInt64.lt_iff_toNat_lt.mp hwide
      have := hbars bar hbar
      omega
    rw [hasked, hselected, List.rtake_nil, eq_comm, filter_rtake_eq_nil]
    exact ⟨fun h => ⟨Or.inr h, Or.inr (Or.inl ⟨upper, hupper, hwide⟩)⟩,
      fun h => h.1.resolve_left hto⟩

theorem ascending_loadClosedBars (h : s.StartsFit) :
    (s.loadClosedBars sdk spotMarket interval fromTs toTs limit).Pairwise
      fun a b => a.startTs < b.startTs := by
  rw [loadClosedBars_eq h]
  have hstored : (s.closedBars sdk spotMarket interval).Pairwise
      fun a b => a.startTs < b.startTs := by
    unfold closedBars
    rw [List.pairwise_map]
    refine (SortedStore.sorted _).imp_of_mem fun {a b} ha hb hlt => ?_
    have hstarta : ((a.2.row (normalizeSpotMarketKey sdk spotMarket) interval
        a.1).startTs.toNat : Int) = a.1 := startTs_row (h _ a ha) a.2
    have hstartb : ((b.2.row (normalizeSpotMarketKey sdk spotMarket) interval
        b.1).startTs.toNat : Int) = b.1 := startTs_row (h _ b hb) b.2
    rw [UInt64.lt_iff_toNat_lt]
    omega
  exact (hstored.filter _).sublist (List.drop_sublist _ _)

/-- After any run of transactions the table has the newest bars of each series, and a query
is answered unless a bound that does not fit in a number with a sign matters for it. -/
theorem closedBars_answered_iff (sdk : Sdk) (batches : List (List EncodedPersistOp))
    (nowMs : Int64)
    (hstarts : ∀ bar, EncodedPersistOp.saveClosedBar bar ∈ batches.flatten →
      bar.startTs.toNat < 2 ^ 63)
    (spotMarket : String) (interval : BarInterval) (fromTs toTs : Option UInt64) (limit : Nat) :
    let s := ({ nowMs := nowMs } : StateStore).applyBatches sdk batches
    s.KeepsNewestBars sdk batches.flatten ∧
        s.AnswersBars sdk spotMarket interval fromTs toTs limit ↔
      BoundsHarmless fromTs toTs (s.closedBars sdk spotMarket interval) := by
  intro s
  have hkeeps : s.KeepsNewestBars sdk batches.flatten := keepsNewestBars_applyBatches batches nowMs
  have hfits : s.StartsFit := hkeeps.startsFit hstarts
  have hbars : ∀ bar ∈ s.closedBars sdk spotMarket interval, bar.startTs.toNat < 2 ^ 63 :=
    startTs_closedBars hfits
  rw [← @selected_iff fromTs toTs limit _ hbars, ← loadClosedBars_eq hfits]
  constructor
  · rintro ⟨-, hanswers⟩
    exact hanswers.newest
  · intro hnewest
    exact ⟨hkeeps, hnewest, ascending_loadClosedBars hfits⟩

end StateStore

namespace Sample

def closedBar (startTs closeRaw : UInt64) : ClosedBarRow :=
  ⟨market, .m1, startTs, 5, 9, 4, closeRaw, 100, 3⟩

/-- Four bars in three transactions; the second is saved again with another close. -/
def barBatches : List (List EncodedPersistOp) :=
  [[.saveClosedBar (closedBar 60 7), .saveClosedBar (closedBar 120 7)],
    [.saveClosedBar (closedBar 180 6), .saveClosedBar (closedBar 120 8)],
    [.saveClosedBar (closedBar 240 5)]]

def barStore : StateStore :=
  ({ nowMs := 0 } : StateStore).applyBatches sdk barBatches

theorem startTs_barBatches :
    ∀ bar, EncodedPersistOp.saveClosedBar bar ∈ barBatches.flatten →
      bar.startTs.toNat < 2 ^ 63 := by
  intro bar hbar
  simp only [barBatches, List.flatten_cons, List.flatten_nil, List.cons_append, List.nil_append,
    List.mem_cons, List.not_mem_nil, or_false, EncodedPersistOp.saveClosedBar.injEq] at hbar
  rcases hbar with rfl | rfl | rfl | rfl | rfl <;> decide

/-- Three bars are in the range of the query, and its limit cuts the oldest of them. -/
theorem closedBars_answered :
    barStore.AnswersBars sdk market .m1 (some 60) (some 200) 2 ∧
      barStore.loadClosedBars sdk market .m1 (some 60) (some 200) 2 =
        [closedBar 120 8, closedBar 180 6] := by
  constructor
  · have hlower : (60 : UInt64) ≤ i64Max := by decide
    have hupper : (200 : UInt64) ≤ i64Max := by decide
    exact ((StateStore.closedBars_answered_iff sdk barBatches 0 startTs_barBatches market .m1
      (some 60) (some 200) 2).mpr
        ⟨Or.inl (by simpa using hupper), Or.inl (by simpa using hlower)⟩).2
  · decide +kernel

/-- No bar is found up to the greatest number of 64 bits. -/
theorem closedBar_notFound :
    ¬barStore.AnswersBars sdk market .m1 none (some 18446744073709551615) 500 := by
  intro hanswers
  have hloaded : (barStore.loadClosedBars sdk market .m1 none (some 18446744073709551615)
      500).length = 0 := by
    decide +kernel
  have hasked : (((barStore.closedBars sdk market .m1).filter fun bar =>
      bar.InRange none (some 18446744073709551615)).rtake (min (max 500 1) barHistoryLimit)).length =
        4 := by
    decide +kernel
  rw [hanswers.newest, hasked] at hloaded
  exact absurd hloaded (by decide)

end Sample

end ClobIndexer
