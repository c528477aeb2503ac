import ClobIndexer.Candles
import ClobIndexer.Lib.Runs
/-!
# The closer of candles

`spawn_bars_closer` and the market tasks call the candles at the same time.  A call reads
the clock first and waits for the lock then, so the calls come in with times that are out
of order.  A candle is closed twice when a trade comes in whose candle is closed already.
-/

namespace ClobIndexer

open Lib

/-! ## Candles of which none is opened again -/

namespace SpotBars

variable {s : SpotBars}

/-- The rows of the table `bars` of a market, a later row of a candle replacing an earlier. -/
def savedRows (s : SpotBars) : Dict (BarInterval × UInt64) ClosedBarRow :=
  Dict.insertAll (s.closed.map fun bar => ⟨(bar.interval, bar.startTs), bar.toClosedRow⟩) ∅

/-- Each candle was closed once, and its row is the one of the candle as it was closed. -/
structure ClosedOnce (s : SpotBars) : Prop where
  nodup : (s.closed.map fun bar => (bar.interval, bar.startTs)).Nodup
  saved : ∀ bar ∈ s.closed,
    s.savedRows.lookup (bar.interval, bar.startTs) = some bar.toClosedRow

def ClosedAt (interval : BarInterval) (start : UInt64) (s : SpotBars) : Prop :=
  ∃ bar ∈ s.closed, bar.interval = interval ∧ bar.startTs = start

theorem mem_closed_buckets (interval : BarInterval) (start : UInt64) :
    start ∈ (s.buckets interval).closed.map Prod.fst ↔ s.ClosedAt interval start := by
  unfold buckets ClosedAt
  simp [and_assoc]

theorem nodup_candles {bars : List Bar}
    (h : ∀ interval, ((bars.filter fun bar => bar.interval = interval).map Bar.startTs).Nodup) :
    (bars.map fun bar => (bar.interval, bar.startTs)).Nodup := by
  induction bars with
  | nil => exact List.nodup_nil
  | cons bar bars ih =>
      rw [List.map_cons, List.nodup_cons]
      constructor
      · intro hmem
        obtain ⟨other, hother, heq⟩ := List.mem_map.mp hmem
        rw [Prod.mk.injEq] at heq
        have hown := h bar.interval
        rw [List.filter_cons, if_pos (decide_eq_true rfl), List.map_cons, List.nodup_cons] at hown
        have hkept : other ∈ bars.filter fun bar' => bar'.interval = bar.interval :=
          List.mem_filter.mpr ⟨hother, decide_eq_true heq.1⟩
        exact hown.1 (List.mem_map.mpr ⟨other, hkept, heq.2⟩)
      · apply ih
        intro interval
        have hall := h interval
        rw [List.filter_cons] at hall
        split_ifs at hall
        · exact (List.nodup_cons.mp hall).2
        · exact hall

theorem closedOnce_of_distinct (h : ∀ interval, (s.buckets interval).Distinct) : s.ClosedOnce := by
  have hnodup : (s.closed.map fun bar => (bar.interval, bar.startTs)).Nodup := by
    apply nodup_candles
    intro interval
    have hclosed := (h interval).closed
    unfold buckets at hclosed
    rw [List.map_map] at hclosed
    exact hclosed
  refine ⟨hnodup, ?_⟩
  intro bar hbar
  let rows : List (Sigma fun _ : BarInterval × UInt64 => ClosedBarRow) :=
    s.closed.map fun bar => ⟨(bar.interval, bar.startTs), bar.toClosedRow⟩
  have hkeys : rows.NodupKeys := by
    unfold List.NodupKeys List.keys
    rw [List.map_map]
    exact hnodup
  have hrow : ⟨(bar.interval, bar.startTs), bar.toClosedRow⟩ ∈ rows :=
    List.mem_map.mpr ⟨bar, hbar, rfl⟩
  unfold savedRows
  rw [Dict.lookup_insertAll hkeys, List.mem_dlookup_iff hkeys |>.mpr hrow]
  rfl

end SpotBars

namespace Bars

variable (sdk : Sdk)

def Marked (b : Bars) : Prop := ∀ key, (b.ofSpot key).Marked

def Distinct (b : Bars) : Prop := ∀ key interval, ((b.ofSpot key).buckets interval).Distinct

end Bars

def BarStep.OpensNone (sdk : Sdk) (b : Bars) : BarStep → Prop
  | .trade spotMarket _ volumeRaw ts =>
      volumeRaw ≠ 0 → ∀ interval, ∀ start ∈ bucketStart ts interval,
        ¬(b.ofSpot (normalizeSpotMarketKey sdk spotMarket)).ClosedAt interval start
  | .close _ => True

namespace Bars

variable {sdk} {b : Bars}

theorem marked_step (h : b.Marked) (call : BarStep) : (b.step sdk call).Marked := by
  intro key
  cases call with
  | trade spotMarket priceRaw volumeRaw ts =>
      unfold step
      dsimp only
      rw [ofSpot_onTrade]
      split_ifs
      · exact (SpotBars.changed_onTrade (h key) key priceRaw volumeRaw ts).1
      · exact h key
  | close nowTs =>
      unfold step
      dsimp only
      rw [ofSpot_closeExpired]
      exact (SpotBars.changed_closeExpired (h key) nowTs).1

theorem distinct_step_iff (h : b.Marked) (hdistinct : b.Distinct) (call : BarStep) :
    (b.step sdk call).Distinct ↔ call.OpensNone sdk b := by
  cases call with
  | trade spotMarket priceRaw volumeRaw ts =>
      let key := normalizeSpotMarketKey sdk spotMarket
      have hown := SpotBars.distinct_onTrade_iff (h key) (hdistinct key) key priceRaw volumeRaw ts
      simp only [SpotBars.mem_closed_buckets] at hown
      unfold Distinct step BarStep.OpensNone
      dsimp only
      constructor
      · intro hnew hvolume
        apply hown.mp
        intro interval
        have hkey := hnew key interval
        rwa [ofSpot_onTrade, if_pos ⟨rfl, hvolume⟩] at hkey
      · intro hopens key' interval
        rw [ofSpot_onTrade]
        split_ifs with hkey
        · rw [hkey.1]
          exact hown.mpr (hopens hkey.2) interval
        · exact hdistinct key' interval
  | close nowTs =>
      refine iff_of_true ?_ trivial
      intro key interval
      unfold step
      dsimp only
      rw [ofSpot_closeExpired]
      exact SpotBars.distinct_closeExpired (h key) (hdistinct key) nowTs interval

end Bars

/-! ## Calls that wait for the lock -/

/-- Who calls the candles: the task of a market in a block, and the timer. -/
inductive BarCaller where
  | market (spotMarket : String)
  | timer
deriving DecidableEq

/-- The clock in seconds, the calls that have read it and wait for the lock, and the
candles. -/
structure BarRace where
  clock : UInt64 := 0
  waiting : Dict BarCaller BarStep := ∅
  bars : Bars := {}

inductive BarRaceStep where
  | tick (now : UInt64)
  | fill (spotMarket : String) (priceRaw volumeRaw : UInt64)
  | expire
  | enter (caller : BarCaller)

namespace BarRace

variable (sdk : Sdk)

def await (caller : BarCaller) (call : BarStep) (r : BarRace) : BarRace :=
  match r.waiting.lookup caller with
  | none => { r with waiting := r.waiting.insert caller call }
  | some _ => r

def step (r : BarRace) : BarRaceStep → BarRace
  | .tick now => { r with clock := max r.clock now }
  | .fill spotMarket priceRaw volumeRaw =>
      r.await (.market spotMarket) (.trade spotMarket priceRaw volumeRaw r.clock)
  | .expire => r.await .timer (.close r.clock)
  | .enter caller =>
      match r.waiting.lookup caller with
      | none => r
      | some call => { r with waiting := r.waiting.erase caller, bars := r.bars.step sdk call }

def OpensNone (r : BarRace) : BarRaceStep → Prop
  | .tick _ => True
  | .fill _ _ _ => True
  | .expire => True
  | .enter caller => ∀ call ∈ r.waiting.lookup caller, call.OpensNone sdk r.bars

variable {sdk}

@[simp] theorem bars_await (caller : BarCaller) (call : BarStep) (r : BarRace) :
    (r.await caller call).bars = r.bars := by
  unfold await
  split <;> rfl

theorem marked_step (r : BarRace) (e : BarRaceStep) (h : r.bars.Marked) :
    (r.step sdk e).bars.Marked := by
  cases e with
  | tick now => exact h
  | fill spotMarket priceRaw volumeRaw => simpa [step] using h
  | expire => simpa [step] using h
  | enter caller =>
      unfold step
      dsimp only
      cases r.waiting.lookup caller with
      | none => exact h
      | some call => exact Bars.marked_step h call

theorem distinct_step_iff (r : BarRace) (e : BarRaceStep) (h : r.bars.Marked)
    (hdistinct : r.bars.Distinct) : (r.step sdk e).bars.Distinct ↔ r.OpensNone sdk e := by
  cases e with
  | tick now => exact iff_of_true hdistinct trivial
  | fill spotMarket priceRaw volumeRaw =>
      exact iff_of_true (by simpa [step] using hdistinct) trivial
  | expire => exact iff_of_true (by simpa [step] using hdistinct) trivial
  | enter caller =>
      unfold step OpensNone
      dsimp only
      cases r.waiting.lookup caller with
      | none => exact iff_of_true hdistinct nofun
      | some call => simpa using Bars.distinct_step_iff h hdistinct call

/-- In every interleaving no candle is opened again exactly if every trade that comes in
belongs to no closed candle; then each candle is closed once and its row stays. -/
theorem closedOnce_of_along (sdk : Sdk) (steps : List BarRaceStep) :
    (Throughout (step sdk) (fun r => r.bars.Distinct) steps {} ↔
      Along (step sdk) (OpensNone sdk) steps {}) ∧
    (Along (step sdk) (OpensNone sdk) steps {} →
      Throughout (step sdk) (fun r => ∀ key, (r.bars.ofSpot key).ClosedOnce) steps {}) := by
  have hkeeps : ∀ (r : BarRace) (e : BarRaceStep), True → r.bars.Marked →
      (r.step sdk e).bars.Marked := fun r e _ h => marked_step r e h
  have hstep : ∀ (r : BarRace) (e : BarRaceStep), True → r.bars.Marked → r.bars.Distinct →
      ((r.step sdk e).bars.Distinct ↔ r.OpensNone sdk e) :=
    fun r e _ h hdistinct => distinct_step_iff r e h hdistinct
  have hiff : Throughout (step sdk) (fun r => r.bars.Distinct) steps {} ↔
      Along (step sdk) (OpensNone sdk) steps {} :=
    throughout_iff_along hkeeps hstep (fun _ _ => trivial) (fun _ => SpotBars.marked_empty)
      (fun _ _ => List.nodup_nil)
  refine ⟨hiff, fun halong => ?_⟩
  exact (hiff.mpr halong).mono fun r hdistinct key =>
    SpotBars.closedOnce_of_distinct (hdistinct key)

end BarRace

namespace Sample

/-- A trade reads the clock at the end of a minute, and comes in after the timer has closed
the minute. -/
def lateTrade : List BarRaceStep :=
  [.fill market 500000 10, .enter (.market market), .tick 59, .fill market 600000 1, .tick 60,
    .expire, .enter .timer, .enter (.market market), .expire, .enter .timer]

/-- The minute is closed twice, and the row of the ten traded first is lost. -/
theorem lateTrade_closes_twice :
    ¬Throughout (BarRace.step sdk) (fun r => ∀ key, (r.bars.ofSpot key).ClosedOnce) lateTrade {} ∧
      (((lateTrade.foldl (BarRace.step sdk) {}).bars.ofSpot market).savedRows.lookup (.m1, 0)).map
        ClosedBarRow.volumeRaw = some 1 := by
  constructor
  · intro h
    have hnodup := (h.finish market).nodup
    revert hnodup
    decide +kernel
  · decide +kernel

end Sample

end ClobIndexer
