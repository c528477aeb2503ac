import ClobIndexer.BucketStart
import ClobIndexer.HexSdk
import ClobIndexer.Lib.Buckets
import Mathlib.Algebra.Order.BigOperators.Group.List
import Mathlib.Algebra.Order.Group.Nat
/-!
# Candles of a stream

The bars of one market and interval are the buckets of a stream: its trades are the
items, and `close_expired` is the clock.  With the calls in the order of their times,
a bucket has one bar, the candle of all its trades, closed once or still forming.
-/

namespace ClobIndexer

open Lib

/-- Times are ordered as numbers. -/
local instance timeOrder : LinearOrder UInt64 where
  le_refl := UInt64.le_refl
  le_trans := fun _ _ _ => UInt64.le_trans
  lt_iff_le_not_ge := fun a b => by
    rw [UInt64.lt_iff_toNat_lt, UInt64.le_iff_toNat_le, UInt64.le_iff_toNat_le]
    omega
  le_antisymm := fun _ _ => UInt64.le_antisymm
  le_total := UInt64.le_total
  toDecidableLE := inferInstance
  toDecidableLT := inferInstance
  toDecidableEq := inferInstance

inductive BarStep where
  | trade (spotMarket : String) (priceRaw volumeRaw ts : UInt64)
  | close (nowTs : UInt64)
deriving DecidableEq

namespace BarStep

variable (sdk : Sdk)

def ts : BarStep → UInt64
  | trade _ _ _ ts => ts
  | close nowTs => nowTs

def inBuckets (key : String) (interval : BarInterval) :
    BarStep → Option (BucketStep UInt64 (UInt64 × UInt64))
  | trade spotMarket priceRaw volumeRaw ts =>
      if key = normalizeSpotMarketKey sdk spotMarket ∧ volumeRaw ≠ 0 then
        some (.item (bucketOf interval ts) (priceRaw, volumeRaw))
      else none
  | close nowTs => some (.tick (bucketOf interval nowTs))

def tradesIn (key : String) (interval : BarInterval) (start : UInt64) (steps : List BarStep) :
    List (UInt64 × UInt64) :=
  steps.filterMap fun
    | trade spotMarket priceRaw volumeRaw ts =>
        if key = normalizeSpotMarketKey sdk spotMarket ∧ volumeRaw ≠ 0 ∧
            bucketOf interval ts = start then
          some (priceRaw, volumeRaw)
        else none
    | close _ => none

def Concerns (key : String) : BarStep → Prop
  | trade spotMarket _ volumeRaw _ =>
      key = normalizeSpotMarketKey sdk spotMarket ∧ volumeRaw ≠ 0
  | close _ => True

end BarStep

def Bars.step (sdk : Sdk) (b : Bars) : BarStep → Bars
  | .trade spotMarket priceRaw volumeRaw ts => b.onTrade sdk spotMarket priceRaw volumeRaw ts
  | .close nowTs => b.closeExpired nowTs

def candle (key : String) (interval : BarInterval) (start : UInt64) (first : UInt64 × UInt64)
    (rest : List (UInt64 × UInt64)) : Bar where
  spotMarket := key
  interval := interval
  startTs := start
  openRaw := first.1
  highRaw := rest.foldl (fun high trade => max high trade.1) first.1
  lowRaw := rest.foldl (fun low trade => min low trade.1) first.1
  closeRaw := (rest.getLastD first).1
  volumeRaw := Word.clamp ((first :: rest).map fun trade => trade.2.toNat).sum
  tradeCount := Word.clamp (first :: rest).length
  closed := false

def barFold (key : String) (interval : BarInterval) : BucketFold UInt64 (UInt64 × UInt64) Bar where
  first start trade := Bar.opened key interval start trade.1 trade.2
  next bar trade := bar.traded trade.1 trade.2

theorem batch_barFold (key : String) (interval : BarInterval) (start : UInt64)
    (first : UInt64 × UInt64) (rest : List (UInt64 × UInt64)) :
    (barFold key interval).batch start (first :: rest) =
      some (candle key interval start first rest) := by
  induction rest using List.reverseRecOn with
  | nil =>
      have hvolume : Word.clamp first.2.toNat = first.2 := by
        rw [← UInt64.toNat_inj, Word.toNat_clamp]
        exact Nat.min_eq_left (Word.toNat_le _)
      unfold BucketFold.batch barFold candle Bar.opened
      simp [hvolume]
      rfl
  | append_singleton rest trade ih =>
      rw [← List.cons_append, BucketFold.batch_append_singleton, ih]
      unfold barFold candle Bar.traded
      have hcount : Word.satAdd (Word.clamp (rest.length + 1)) 1 =
          Word.clamp (rest.length + 1 + 1) := Word.satAdd_clamp _ _
      simp [Word.satAdd_clamp, hcount, Nat.add_assoc]

/-! ## The bars of one interval -/

namespace SpotBars

variable {s : SpotBars} {interval other : BarInterval}

structure Marked (s : SpotBars) : Prop where
  forming : ∀ interval bar, s.forming.lookup interval = some bar →
    bar.interval = interval ∧ bar.closed = false
  closed : ∀ bar ∈ s.closed, bar.closed = true

theorem marked_empty : ({} : SpotBars).Marked :=
  ⟨fun _ _ h => (nomatch h), fun _ h => (nomatch h)⟩

def buckets (interval : BarInterval) (s : SpotBars) : Buckets UInt64 Bar where
  forming := (s.forming.lookup interval).map fun bar => (bar.startTs, bar)
  closed := (s.closed.filter fun bar => bar.interval = interval).map fun bar =>
    (bar.startTs, { bar with closed := false })

def closeBar (interval : BarInterval) (bar : Bar) (s : SpotBars) : SpotBars :=
  let bar := { bar with closed := true }
  ({ s with
    forming := s.forming.erase interval
    closed := s.closed ++ [bar] }).send interval (bar.toWsMessage "bar_closed")

def putBar (interval : BarInterval) (bar : Bar) (s : SpotBars) : SpotBars :=
  ({ s with forming := s.forming.insert interval bar }).send interval (bar.toWsMessage "bar")

@[simp] theorem forming_send (message : BarWsMessage) :
    (s.send interval message).forming = s.forming := by
  unfold send
  split_ifs <;> rfl

@[simp] theorem closed_send (message : BarWsMessage) :
    (s.send interval message).closed = s.closed := by
  unfold send
  split_ifs <;> rfl

theorem marked_closeBar (h : s.Marked) (bar : Bar) : (s.closeBar interval bar).Marked := by
  unfold closeBar
  constructor
  · intro interval' bar' hbar'
    rw [forming_send] at hbar'
    dsimp only at hbar'
    rw [Dict.lookup_erase_ite] at hbar'
    split_ifs at hbar'
    exact h.forming interval' bar' hbar'
  · intro bar' hbar'
    rw [closed_send, List.mem_append, List.mem_singleton] at hbar'
    rcases hbar' with hold | rfl
    · exact h.closed bar' hold
    · rfl

theorem marked_putBar (h : s.Marked) {bar : Bar} (hinterval : bar.interval = interval)
    (hforming : bar.closed = false) : (s.putBar interval bar).Marked := by
  unfold putBar
  constructor
  · intro interval' bar' hbar'
    rw [forming_send] at hbar'
    dsimp only at hbar'
    rw [Dict.lookup_insert_ite] at hbar'
    split_ifs at hbar' with heq
    · cases hbar'
      exact ⟨hinterval.trans heq.symm, hforming⟩
    · exact h.forming interval' bar' hbar'
  · intro bar' hbar'
    rw [closed_send] at hbar'
    exact h.closed bar' hbar'

theorem buckets_closeBar (h : s.Marked) {bar : Bar} (hbar : s.forming.lookup interval = some bar) :
    (s.closeBar interval bar).buckets other =
      if other = interval then ⟨none, (s.buckets other).closed ++ [(bar.startTs, bar)]⟩
      else s.buckets other := by
  obtain ⟨hinterval, hforming⟩ := h.forming interval bar hbar
  have hreopened : { bar with closed := false } = bar := by rw [← hforming]
  unfold buckets closeBar
  rw [forming_send, closed_send]
  dsimp only
  rw [Dict.lookup_erase_ite, List.filter_append, List.map_append]
  by_cases heq : other = interval
  · subst heq
    have hkept : [{ bar with closed := true }].filter (fun b => b.interval = other) =
        [{ bar with closed := true }] := by simp [hinterval]
    rw [if_pos rfl, if_pos rfl, hkept, List.map_singleton]
    dsimp only
    rw [hreopened]
    rfl
  · have hdropped : [{ bar with closed := true }].filter (fun b => b.interval = other) = [] := by
      simp [hinterval, Ne.symm heq]
    rw [if_neg heq, if_neg heq, hdropped, List.map_nil, List.append_nil]

theorem buckets_putBar (bar : Bar) :
    (s.putBar interval bar).buckets other =
      if other = interval then { s.buckets other with forming := some (bar.startTs, bar) }
      else s.buckets other := by
  unfold buckets putBar
  rw [forming_send, closed_send]
  dsimp only
  rw [Dict.lookup_insert_ite]
  split_ifs <;> rfl

theorem marked_rollOver (h : s.Marked) (startTs : UInt64) :
    (s.rollOver interval startTs).Marked := by
  unfold rollOver
  cases s.forming.lookup interval with
  | none => exact h
  | some bar =>
      dsimp only
      split_ifs
      · exact h
      · exact marked_closeBar h bar

theorem buckets_rollOver (h : s.Marked) (startTs : UInt64) :
    (s.rollOver interval startTs).buckets other =
      if other = interval then (s.buckets other).closeIf fun start => start ≠ startTs
      else s.buckets other := by
  cases hlookup : s.forming.lookup interval with
  | none =>
      have hrolled : s.rollOver interval startTs = s := by
        unfold rollOver
        rw [hlookup]
      rw [hrolled]
      split_ifs with heq
      · subst heq
        unfold buckets Buckets.closeIf
        rw [hlookup]
        rfl
      · rfl
  | some bar =>
      have hrolled : s.rollOver interval startTs =
          if bar.startTs = startTs then s else s.closeBar interval bar := by
        unfold rollOver closeBar
        rw [hlookup]
      rw [hrolled]
      by_cases hstart : bar.startTs = startTs
      · rw [if_pos hstart]
        split_ifs with heq
        · subst heq
          unfold buckets Buckets.closeIf
          rw [hlookup]
          exact (if_neg (not_not.mpr hstart)).symm
        · rfl
      · rw [if_neg hstart, buckets_closeBar h hlookup]
        split_ifs with heq
        · subst heq
          unfold buckets Buckets.closeIf
          rw [hlookup]
          exact (if_pos hstart).symm
        · rfl

/-- A function on the bars of a market that does to one interval what `change` says, and
nothing to the others. -/
structure ChangesOnly (change : BarInterval → Buckets UInt64 Bar → Buckets UInt64 Bar)
    (f : SpotBars → BarInterval → SpotBars) : Prop where
  marked : ∀ s interval, s.Marked → (f s interval).Marked
  buckets : ∀ s interval other, s.Marked → (f s interval).buckets other =
    if other = interval then change other (s.buckets other) else s.buckets other

theorem ChangesOnly.foldl {change : BarInterval → Buckets UInt64 Bar → Buckets UInt64 Bar}
    {f : SpotBars → BarInterval → SpotBars} (hf : ChangesOnly change f)
    {intervals : List BarInterval} (hnodup : intervals.Nodup) (h : s.Marked) :
    (intervals.foldl f s).Marked ∧ ∀ other, (intervals.foldl f s).buckets other =
      if other ∈ intervals then change other (s.buckets other) else s.buckets other := by
  induction intervals generalizing s with
  | nil => exact ⟨h, fun _ => rfl⟩
  | cons interval rest ih =>
      obtain ⟨hnew, hrest⟩ := List.nodup_cons.mp hnodup
      obtain ⟨hmarked, hbuckets⟩ := ih hrest (hf.marked s interval h)
      refine ⟨hmarked, ?_⟩
      intro other
      rw [List.foldl_cons, hbuckets, hf.buckets s interval other h]
      by_cases heq : other = interval
      · subst heq
        rw [if_neg hnew, if_pos rfl, if_pos List.mem_cons_self]
      · simp [heq]

theorem tradeIn_eq (key : String) (priceRaw volumeRaw : UInt64) {ts start : UInt64}
    (hstart : bucketStart ts interval = some start) :
    s.tradeIn key priceRaw volumeRaw ts interval =
      let rolled := s.rollOver interval start
      rolled.putBar interval (Buckets.grow (barFold key interval) start (priceRaw, volumeRaw)
        (rolled.buckets interval).forming) := by
  unfold tradeIn
  rw [hstart]
  unfold putBar buckets
  dsimp only
  cases (s.rollOver interval start).forming.lookup interval with
  | none => rfl
  | some bar => rfl

def inBucket (ts : UInt64) (change : UInt64 → Buckets UInt64 Bar → Buckets UInt64 Bar)
    (interval : BarInterval) (b : Buckets UInt64 Bar) : Buckets UInt64 Bar :=
  (bucketStart ts interval).elim b fun start => change start b

theorem changesOnly_tradeIn (key : String) (priceRaw volumeRaw ts : UInt64) :
    ChangesOnly (fun interval => inBucket ts (fun start b =>
        Buckets.step (barFold key interval) b (.item start (priceRaw, volumeRaw))) interval)
      (tradeIn key priceRaw volumeRaw ts) := by
  -- the bar that is put is the one of the bucket
  have hgrown : ∀ (s : SpotBars) (interval : BarInterval) (start : UInt64), s.Marked →
      let bar := Buckets.grow (barFold key interval) start (priceRaw, volumeRaw)
        ((s.rollOver interval start).buckets interval).forming
      bar.startTs = start ∧ bar.interval = interval ∧ bar.closed = false := by
    intro s interval start h bar
    have hopen : ∀ e ∈ ((s.rollOver interval start).buckets interval).forming, e.1 = start := by
      rw [buckets_rollOver h, if_pos rfl]
      exact fun e he => not_not.mp (Buckets.forming_closeIf he).2
    have hmarked : (s.rollOver interval start).Marked := marked_rollOver h start
    simp only [bar]
    unfold buckets at hopen ⊢
    dsimp only at hopen ⊢
    cases hlookup : (s.rollOver interval start).forming.lookup interval with
    | none => exact ⟨rfl, rfl, rfl⟩
    | some old =>
        rw [hlookup] at hopen
        obtain ⟨hinterval, hclosed⟩ := hmarked.forming interval old hlookup
        exact ⟨hopen (old.startTs, old) rfl, hinterval, hclosed⟩
  have hnowhere : ∀ (s : SpotBars) (interval : BarInterval), bucketStart ts interval = none →
      s.tradeIn key priceRaw volumeRaw ts interval = s := by
    intro s interval hnone
    unfold tradeIn
    rw [hnone]
  constructor
  · intro s interval h
    cases hstart : bucketStart ts interval with
    | none => rwa [hnowhere s interval hstart]
    | some start =>
        obtain ⟨-, hinterval, hclosed⟩ := hgrown s interval start h
        rw [tradeIn_eq key priceRaw volumeRaw hstart]
        exact marked_putBar (marked_rollOver h _) hinterval hclosed
  · intro s interval other h
    cases hstart : bucketStart ts interval with
    | none =>
        rw [hnowhere s interval hstart]
        split_ifs with heq
        · unfold inBucket
          rw [heq, hstart]
          rfl
        · rfl
    | some start =>
        obtain ⟨hbar, -, -⟩ := hgrown s interval start h
        rw [tradeIn_eq key priceRaw volumeRaw hstart]
        dsimp only
        rw [buckets_putBar, hbar, buckets_rollOver h, buckets_rollOver h, if_pos rfl]
        split_ifs with heq
        · subst heq
          unfold inBucket
          rw [hstart]
          rfl
        · rfl

theorem closeIf_buckets (s : SpotBars) (interval : BarInterval) (current : UInt64) :
    (s.buckets interval).closeIf (fun start => start < current) =
      match s.forming.lookup interval with
      | none => s.buckets interval
      | some bar => if bar.startTs < current then
          ⟨none, (s.buckets interval).closed ++ [(bar.startTs, bar)]⟩ else s.buckets interval := by
  unfold Buckets.closeIf
  cases hlookup : s.forming.lookup interval with
  | none =>
      have hforming : (s.buckets interval).forming = none := by
        unfold buckets
        rw [hlookup]
        rfl
      rw [hforming]
  | some bar =>
      have hforming : (s.buckets interval).forming = some (bar.startTs, bar) := by
        unfold buckets
        rw [hlookup]
        rfl
      rw [hforming]

theorem changesOnly_closeIn (nowTs : UInt64) :
    ChangesOnly (inBucket nowTs fun current b => b.closeIf fun start => start < current)
      (closeIn nowTs) := by
  constructor
  · intro s interval h
    unfold closeIn
    cases bucketStart nowTs interval with
    | none => exact h
    | some current =>
        cases s.forming.lookup interval with
        | none => exact h
        | some bar =>
            dsimp only
            split_ifs
            · exact marked_closeBar h bar
            · exact h
  · intro s interval other h
    unfold closeIn
    by_cases heq : other = interval
    · subst heq
      rw [if_pos rfl]
      unfold inBucket
      cases hcurrent : bucketStart nowTs other with
      | none => rfl
      | some current =>
          rw [Option.elim_some]
          refine Eq.trans ?_ (closeIf_buckets s other current).symm
          cases hlookup : s.forming.lookup other with
          | none => rfl
          | some bar =>
              dsimp only
              split_ifs
              · exact (buckets_closeBar h hlookup).trans (if_pos rfl)
              · rfl
    · rw [if_neg heq]
      cases bucketStart nowTs interval with
      | none => rfl
      | some current =>
          cases hlookup : s.forming.lookup interval with
          | none => rfl
          | some bar =>
              dsimp only
              split_ifs
              · exact (buckets_closeBar h hlookup).trans (if_neg heq)
              · rfl

theorem mem_barIntervals (interval : BarInterval) : interval ∈ barIntervals := by
  cases interval <;> decide

theorem changed_onTrade (h : s.Marked) (key : String) (priceRaw volumeRaw ts : UInt64) :
    (s.onTrade key priceRaw volumeRaw ts).Marked ∧
      ∀ interval, (s.onTrade key priceRaw volumeRaw ts).buckets interval =
        inBucket ts (fun start b => Buckets.step (barFold key interval) b
          (.item start (priceRaw, volumeRaw))) interval (s.buckets interval) := by
  have hnodup : barIntervals.Nodup := by decide
  obtain ⟨hmarked, hbuckets⟩ :=
    (changesOnly_tradeIn key priceRaw volumeRaw ts).foldl hnodup h
  refine ⟨hmarked, ?_⟩
  intro interval
  exact (hbuckets interval).trans (if_pos (mem_barIntervals interval))

theorem buckets_onTrade (h : s.Marked) (key : String) (priceRaw volumeRaw : UInt64) {ts : UInt64}
    (hts : InCalendar ts) :
    (s.onTrade key priceRaw volumeRaw ts).Marked ∧
      ∀ interval, (s.onTrade key priceRaw volumeRaw ts).buckets interval =
        Buckets.step (barFold key interval) (s.buckets interval)
          (.item (bucketOf interval ts) (priceRaw, volumeRaw)) := by
  obtain ⟨hmarked, hbuckets⟩ := changed_onTrade h key priceRaw volumeRaw ts
  refine ⟨hmarked, ?_⟩
  intro interval
  rw [hbuckets]
  unfold inBucket
  rw [bucketStart_eq interval hts]
  rfl

/-- A trade opens no bucket again exactly if the ones of its time are not closed. -/
theorem distinct_onTrade_iff (h : s.Marked) (hdistinct : ∀ interval, (s.buckets interval).Distinct)
    (key : String) (priceRaw volumeRaw ts : UInt64) :
    (∀ interval, ((s.onTrade key priceRaw volumeRaw ts).buckets interval).Distinct) ↔
      ∀ interval, ∀ start ∈ bucketStart ts interval,
        start ∉ (s.buckets interval).closed.map Prod.fst := by
  apply forall_congr'
  intro interval
  rw [(changed_onTrade h key priceRaw volumeRaw ts).2]
  unfold inBucket
  cases bucketStart ts interval with
  | none => exact iff_of_true (hdistinct interval) nofun
  | some start =>
      rw [Option.elim_some, Buckets.distinct_item_iff (hdistinct interval)]
      simp

def counted (interval : BarInterval) (s : SpotBars) : Nat :=
  (s.buckets interval).total fun bar => bar.tradeCount.toNat

theorem counted_onTrade (h : s.Marked) (key : String) (priceRaw volumeRaw : UInt64) {ts : UInt64}
    (hts : InCalendar ts) :
    (s.onTrade key priceRaw volumeRaw ts).Marked ∧
      ∀ interval, s.counted interval < Word.u64Max →
        (s.onTrade key priceRaw volumeRaw ts).counted interval = s.counted interval + 1 := by
  obtain ⟨hmarked, hbuckets⟩ := buckets_onTrade h key priceRaw volumeRaw hts
  refine ⟨hmarked, ?_⟩
  intro interval hroom
  unfold counted
  rw [hbuckets interval]
  apply Buckets.total_item
  · rfl
  · intro e he
    -- no bar counts more than all of them
    have hle : e.2.tradeCount.toNat ≤ s.counted interval := by
      unfold counted Buckets.total
      apply List.le_sum_of_mem
      exact List.mem_map.mpr ⟨e, List.mem_append_right _ (Option.mem_toList.mpr he), rfl⟩
    change (Word.satAdd e.2.tradeCount 1).toNat = _
    rw [Word.toNat_satAdd]
    change min (e.2.tradeCount.toNat + 1) Word.u64Max = _
    omega

theorem changed_closeExpired (h : s.Marked) (nowTs : UInt64) :
    (s.closeExpired nowTs).Marked ∧ ∀ interval, (s.closeExpired nowTs).buckets interval =
      inBucket nowTs (fun current b => b.closeIf fun start => start < current) interval
        (s.buckets interval) := by
  obtain ⟨hmarked, hbuckets⟩ :=
    (changesOnly_closeIn nowTs).foldl (AList.keys_nodup s.forming) h
  refine ⟨hmarked, ?_⟩
  intro interval
  unfold closeExpired
  rw [hbuckets]
  split_ifs with hmem
  · rfl
  · -- there is no bar to close
    have hnone : (s.buckets interval).forming = none := by
      unfold buckets
      rw [AList.lookup_eq_none.mpr (AList.mem_keys.not.mpr hmem)]
      rfl
    unfold inBucket
    cases bucketStart nowTs interval with
    | none => rfl
    | some current =>
        rw [Option.elim_some]
        unfold Buckets.closeIf
        dsimp only
        rw [hnone]

theorem distinct_closeExpired (h : s.Marked)
    (hdistinct : ∀ interval, (s.buckets interval).Distinct) (nowTs : UInt64)
    (interval : BarInterval) : ((s.closeExpired nowTs).buckets interval).Distinct := by
  rw [(changed_closeExpired h nowTs).2]
  unfold inBucket
  cases bucketStart nowTs interval with
  | none => exact hdistinct interval
  | some current =>
      exact (Buckets.distinct_closeIf fun start => start < current).mpr (hdistinct interval)

theorem buckets_closeExpired (h : s.Marked) (key : String) {nowTs : UInt64}
    (hnow : InCalendar nowTs) :
    (s.closeExpired nowTs).Marked ∧ ∀ interval, (s.closeExpired nowTs).buckets interval =
      Buckets.step (barFold key interval) (s.buckets interval)
        (.tick (bucketOf interval nowTs)) := by
  obtain ⟨hmarked, hbuckets⟩ := changed_closeExpired h nowTs
  refine ⟨hmarked, ?_⟩
  intro interval
  rw [hbuckets]
  unfold inBucket
  rw [bucketStart_eq interval hnow]
  rfl

end SpotBars

/-! ## Every sequence of calls -/

namespace Bars

variable (sdk : Sdk)

theorem buckets_step {b : Bars} {step : BarStep} (hts : InCalendar step.ts) (key : String)
    (h : (b.ofSpot key).Marked) :
    ((b.step sdk step).ofSpot key).Marked ∧ ∀ interval,
      ((b.step sdk step).ofSpot key).buckets interval =
        ((step.inBuckets sdk key interval).toList.foldl (Buckets.step (barFold key interval))
          ((b.ofSpot key).buckets interval)) := by
  cases step with
  | trade spotMarket priceRaw volumeRaw ts =>
      unfold step BarStep.inBuckets
      dsimp only
      rw [ofSpot_onTrade]
      split_ifs
      · exact SpotBars.buckets_onTrade h key priceRaw volumeRaw hts
      · exact ⟨h, fun _ => rfl⟩
  | close nowTs =>
      unfold step BarStep.inBuckets
      dsimp only
      rw [ofSpot_closeExpired]
      exact SpotBars.buckets_closeExpired h key hts

/-- After every sequence of calls, the bars of a market and interval are the buckets of
its stream. -/
theorem buckets_run {steps : List BarStep} (hcalendar : ∀ step ∈ steps, InCalendar step.ts)
    (key : String) {b : Bars} (h : (b.ofSpot key).Marked) :
    ((steps.foldl (step sdk) b).ofSpot key).Marked ∧ ∀ interval,
      ((steps.foldl (step sdk) b).ofSpot key).buckets interval =
        (steps.filterMap (BarStep.inBuckets sdk key interval)).foldl
          (Buckets.step (barFold key interval)) ((b.ofSpot key).buckets interval) := by
  induction steps generalizing b with
  | nil => exact ⟨h, fun _ => rfl⟩
  | cons call rest ih =>
      obtain ⟨hmarked, hbuckets⟩ :=
        buckets_step sdk (hcalendar call List.mem_cons_self) key h
      obtain ⟨hmarkedRest, hrest⟩ :=
        ih (fun step hstep => hcalendar step (List.mem_cons_of_mem call hstep)) hmarked
      refine ⟨hmarkedRest, ?_⟩
      intro interval
      rw [List.foldl_cons, hrest, hbuckets, List.filterMap_cons]
      cases call.inBuckets sdk key interval with
      | none => rfl
      | some bucketStep => rfl

/-- Calls in the order of their times are steps in the order of their buckets. -/
theorem pairwise_inBuckets {steps : List BarStep} (hcalendar : ∀ step ∈ steps, InCalendar step.ts)
    (hordered : steps.Pairwise fun step later => step.ts ≤ later.ts) (key : String)
    (interval : BarInterval) :
    (steps.filterMap (BarStep.inBuckets sdk key interval)).Pairwise
      fun step later => step.bucket ≤ later.bucket := by
  have hbucket : ∀ {step : BarStep} {s}, step.inBuckets sdk key interval = some s →
      s.bucket = bucketOf interval step.ts := by
    intro step s hs
    unfold BarStep.inBuckets at hs
    cases step with
    | trade spotMarket priceRaw volumeRaw ts =>
        dsimp only at hs
        split_ifs at hs
        cases hs
        rfl
    | close nowTs =>
        cases hs
        rfl
  rw [List.pairwise_filterMap]
  refine List.Pairwise.imp_of_mem ?_ hordered
  intro step later hstep hlater hle s hs s' hs'
  rw [hbucket hs, hbucket hs']
  exact bucketOf_mono interval (hcalendar step hstep) (hcalendar later hlater) hle

theorem itemsIn_inBuckets (steps : List BarStep) (key : String) (interval : BarInterval)
    (start : UInt64) :
    BucketStep.itemsIn start (steps.filterMap (BarStep.inBuckets sdk key interval)) =
      BarStep.tradesIn sdk key interval start steps := by
  unfold BucketStep.itemsIn BarStep.tradesIn
  rw [List.filterMap_filterMap]
  congr 1
  funext step
  unfold BarStep.inBuckets
  cases step with
  | trade spotMarket priceRaw volumeRaw ts =>
      dsimp only
      by_cases htrade : key = normalizeSpotMarketKey sdk spotMarket ∧ volumeRaw ≠ 0
      · rw [if_pos htrade]
        change (if _ then _ else _) = (if _ then _ else _)
        simp [htrade.1, htrade.2]
      · rw [if_neg htrade, if_neg fun hall => htrade ⟨hall.1, hall.2.1⟩]
        rfl
  | close nowTs => rfl

end Bars

/-- The bars of a market and interval in a bucket: the closed ones, then the forming one. -/
def SpotBars.barsIn (s : SpotBars) (interval : BarInterval) (start : UInt64) : List Bar :=
  (s.closed ++ (s.forming.lookup interval).toList).filter fun bar =>
    bar.interval = interval ∧ bar.startTs = start

theorem SpotBars.all_buckets {s : SpotBars} (h : s.Marked) (interval : BarInterval)
    (start : UInt64) :
    (s.buckets interval).all.filter (fun e => e.1 = start) =
      (s.barsIn interval start).map fun bar => (bar.startTs, { bar with closed := false }) := by
  have hforming : (s.buckets interval).forming.toList =
      ((s.forming.lookup interval).toList.filter fun bar => bar.interval = interval).map
        fun bar => (bar.startTs, { bar with closed := false }) := by
    unfold buckets
    dsimp only
    cases hlookup : s.forming.lookup interval with
    | none => rfl
    | some bar =>
        obtain ⟨hinterval, hopen⟩ := h.forming interval bar hlookup
        have hreopened : { bar with closed := false } = bar := by rw [← hopen]
        have hkept : [bar].filter (fun b => b.interval = interval) = [bar] := by simp [hinterval]
        rw [Option.map_some, Option.toList_some, Option.toList_some, hkept, List.map_singleton,
          hreopened]
  have hsplit : ∀ bars : List Bar,
      ((bars.filter fun bar => bar.interval = interval).map fun bar =>
        (bar.startTs, { bar with closed := false })).filter (fun e => e.1 = start) =
        (bars.filter fun bar => bar.interval = interval ∧ bar.startTs = start).map fun bar =>
          (bar.startTs, { bar with closed := false }) := by
    intro bars
    rw [List.filter_map, List.filter_filter]
    congr 2
    funext bar
    simp [and_comm]
  unfold Buckets.all barsIn
  rw [List.filter_append, List.filter_append, List.map_append, hforming, hsplit]
  congr 1
  exact hsplit s.closed

namespace Bars

variable (sdk : Sdk)

/-- With the calls in the order of their times, a bucket with trades has one bar, the
candle of the trades, closed once or still forming; a bucket without trades has none; and
no forming bar is behind the trades of its market or the clock. -/
theorem candles_of_run (steps : List BarStep)
    (hordered : steps.Pairwise fun step later => step.ts ≤ later.ts)
    (hcalendar : ∀ step ∈ steps, InCalendar step.ts) (key : String) (interval : BarInterval) :
    let s := (steps.foldl (step sdk) {}).ofSpot key
    (∀ start, match BarStep.tradesIn sdk key interval start steps with
      | [] => s.barsIn interval start = []
      | first :: rest =>
          let bar := candle key interval start first rest
          s.barsIn interval start = [{ bar with closed := true }] ∧
              (∀ forming ∈ s.forming.lookup interval, forming.startTs ≠ start) ∨
            s.barsIn interval start = [bar] ∧ s.forming.lookup interval = some bar) ∧
      ∀ forming ∈ s.forming.lookup interval, ∀ call ∈ steps, call.Concerns sdk key →
        bucketOf interval call.ts ≤ forming.startTs := by
  intro s
  obtain ⟨hmarked, hbuckets⟩ := buckets_run sdk hcalendar key (b := {}) SpotBars.marked_empty
  have hreflects : Buckets.Reflects (barFold key interval)
      (steps.filterMap (BarStep.inBuckets sdk key interval)) (s.buckets interval) := by
    rw [hbuckets]
    exact Buckets.reflects_run (pairwise_inBuckets sdk hcalendar hordered key interval)
  constructor
  · intro start
    have hvalues := hreflects.values start
    rw [SpotBars.all_buckets hmarked, itemsIn_inBuckets] at hvalues
    cases htrades : BarStep.tradesIn sdk key interval start steps with
    | nil =>
        rw [htrades] at hvalues
        exact List.map_eq_nil_iff.mp hvalues
    | cons first rest =>
        rw [htrades, batch_barFold] at hvalues
        dsimp only
        obtain ⟨bar, hbar, heq⟩ := List.map_eq_singleton_iff.mp hvalues
        rw [Prod.mk.injEq] at heq
        obtain ⟨hstart, hcandle⟩ := heq
        rw [hbar, ← hcandle]
        -- the forming bar of the bucket is the one, if there is one
        by_cases hforming : ∃ forming ∈ s.forming.lookup interval, forming.startTs = start
        · right
          obtain ⟨forming, hlookup, hin⟩ := hforming
          obtain ⟨hinterval, hopen⟩ := hmarked.forming interval forming hlookup
          have hmem : forming ∈ s.barsIn interval start := by
            unfold SpotBars.barsIn
            rw [List.mem_filter, List.mem_append, Option.mem_toList]
            exact ⟨.inr hlookup, decide_eq_true ⟨hinterval, hin⟩⟩
          rw [hbar, List.mem_singleton] at hmem
          have hreopened : { bar with closed := false } = bar := by rw [← hmem, ← hopen]
          rw [hreopened, ← hmem]
          exact ⟨rfl, hlookup⟩
        · left
          push Not at hforming
          have hmem : bar ∈ s.barsIn interval start := by
            rw [hbar]
            exact List.mem_singleton_self bar
          unfold SpotBars.barsIn at hmem
          rw [List.mem_filter, List.mem_append, Option.mem_toList] at hmem
          obtain ⟨hclosed | hopen, hin⟩ := hmem
          · have hreclosed : { bar with closed := true } = bar := by
              rw [← hmarked.closed bar hclosed]
            refine ⟨?_, hforming⟩
            dsimp only
            rw [hreclosed]
          · exact absurd (of_decide_eq_true hin).2 (hforming bar hopen)
  · intro forming hforming call hcall hconcerns
    obtain ⟨bucketStep, hstep, hbucket⟩ : ∃ bucketStep,
        call.inBuckets sdk key interval = some bucketStep ∧
          bucketStep.bucket = bucketOf interval call.ts := by
      cases call with
      | trade spotMarket priceRaw volumeRaw ts => exact ⟨_, if_pos hconcerns, rfl⟩
      | close nowTs => exact ⟨_, rfl, rfl⟩
    have hopen : (forming.startTs, forming) ∈ (s.buckets interval).forming := by
      unfold SpotBars.buckets
      dsimp only
      rw [hforming]
      rfl
    rw [← hbucket]
    exact hreflects.live _ hopen bucketStep (List.mem_filterMap.mpr ⟨call, hcall, hstep⟩)

end Bars

namespace Sample

/-- A trade at the start of a minute, and one without volume in the next. -/
def volumeless : List BarStep := [.trade market 500000 10 0, .trade market 500000 0 60]

theorem inCalendar_volumeless : ∀ step ∈ volumeless, InCalendar step.ts := by decide

theorem ordered_volumeless : volumeless.Pairwise fun step later => step.ts ≤ later.ts := by decide

theorem candles_volumeless :
    (∀ step ∈ volumeless, InCalendar step.ts) ∧
      ∀ forming ∈ ((volumeless.foldl (Bars.step sdk) {}).ofSpot market).forming.lookup .m1,
        ∀ call ∈ volumeless, call.Concerns sdk market → bucketOf .m1 call.ts ≤ forming.startTs :=
  ⟨inCalendar_volumeless,
    (Bars.candles_of_run sdk volumeless ordered_volumeless inCalendar_volumeless market .m1).2⟩

/-- The second call leaves the bar of the first minute forming. -/
theorem volumeless_leaves_bar :
    ¬∀ forming ∈ ((volumeless.foldl (Bars.step sdk) {}).ofSpot market).forming.lookup .m1,
      ∀ call ∈ volumeless, bucketOf .m1 call.ts ≤ forming.startTs := by
  intro h
  have hforming : ((volumeless.foldl (Bars.step sdk) {}).ofSpot market).forming.lookup .m1 =
      some (Bar.opened market .m1 0 500000 10) := by
    decide +kernel
  have hbehind := h _ hforming (.trade market 500000 0 60)
    (List.mem_cons_of_mem _ List.mem_cons_self)
  revert hbehind
  decide

end Sample

end ClobIndexer
