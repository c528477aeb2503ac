import ClobIndexer.Events
/-!
# Candles

`src/bars.rs`: one forming bar per market and interval, fed by the buy side of the
fills.  A trade in a new bucket closes the bar of the old one, which is handed to
the history lane.  The bars of a market, the rows it has handed on and the messages
it has sent are kept together; the order between markets is of no account.
-/

namespace ClobIndexer

open Lib

inductive BarInterval where
  | m1 | m3 | m5 | m15 | m30 | h1 | h2 | h4 | h8 | h12 | d1 | d3 | w1 | month
deriving DecidableEq

namespace BarInterval

def str : BarInterval → String
  | m1 => "1m"
  | m3 => "3m"
  | m5 => "5m"
  | m15 => "15m"
  | m30 => "30m"
  | h1 => "1h"
  | h2 => "2h"
  | h4 => "4h"
  | h8 => "8h"
  | h12 => "12h"
  | d1 => "1d"
  | d3 => "3d"
  | w1 => "1w"
  | month => "1M"

end BarInterval

def barIntervals : List BarInterval :=
  [.m1, .m3, .m5, .m15, .m30, .h1, .h2, .h4, .h8, .h12, .d1, .d3, .w1, .month]

/-- `interval_secs`: a calendar month has no fixed length. -/
def intervalSecs : BarInterval → Option Nat
  | .m1 => some 60
  | .m3 => some 180
  | .m5 => some 300
  | .m15 => some 900
  | .m30 => some 1800
  | .h1 => some 3600
  | .h2 => some 7200
  | .h4 => some 14400
  | .h8 => some 28800
  | .h12 => some 43200
  | .d1 => some 86400
  | .d3 => some 259200
  | .w1 => some 604800
  | .month => none

/-! ## The civil calendar -/

/-- `y as i32`. -/
def wrapI32 (y : Int) : Int := Int.bmod y (2 ^ 32)

def civilFromDays (days : Int) : Int × Nat × Nat :=
  let z := days + 719468
  let era := (if 0 ≤ z then z else z - 146096).tdiv 146097
  let doe := (z - era * 146097).toNat
  let yoe := (doe - doe / 1460 + doe / 36524 - doe / 146096) / 365
  let y := (yoe : Int) + era * 400
  let doy := doe - (365 * yoe + yoe / 4 - yoe / 100)
  let mp := (5 * doy + 2) / 153
  let d := doy - (153 * mp + 2) / 5 + 1
  let m := if mp < 10 then mp + 3 else mp - 9
  (wrapI32 (if m ≤ 2 then y + 1 else y), m, d)

def daysFromCivil (year : Int) (month day : Nat) : Option Int :=
  if month < 1 ∨ 12 < month ∨ day < 1 ∨ 31 < day then none
  else
    let y := if month ≤ 2 then wrapI32 (year - 1) else year
    let era := (if 0 ≤ y then y else y - 399).tdiv 400
    let yoe := (y - era * 400).toNat
    let doy := (153 * (if 2 < month then month - 3 else month + 9) + 2) / 5 + day - 1
    let doe := yoe * 365 + yoe / 4 - yoe / 100 + doy
    some (era * 146097 + doe - 719468)

def calendarMonthStartUtc (ts : UInt64) : Option UInt64 :=
  let (year, month, _) := civilFromDays (ts.toNat / 86400)
  (daysFromCivil year month 1).map fun days => Word.satMul (UInt64.ofInt days) 86400

def bucketStart (ts : UInt64) (interval : BarInterval) : Option UInt64 :=
  if interval = .month then calendarMonthStartUtc ts
  else (intervalSecs interval).map fun secs => UInt64.ofNat (ts.toNat / secs * secs)

example : bucketStart 1709290000 .month = some 1709251200 := by decide

example : bucketStart 1709290000 .h4 = some 1709280000 := by decide

/-! ## Bars -/

structure Bar where
  spotMarket : String
  interval : BarInterval
  startTs : UInt64
  openRaw : UInt64
  highRaw : UInt64
  lowRaw : UInt64
  closeRaw : UInt64
  volumeRaw : UInt64
  tradeCount : UInt64
  closed : Bool
deriving DecidableEq

structure BarWsMessage where
  msgType : String
  spotMarket : String
  interval : String
  startTs : UInt64
  opened : String
  high : String
  low : String
  close : String
  volume : String
  tradeCount : UInt64
  closed : Bool
deriving DecidableEq

structure ClosedBarRow where
  spotMarket : String
  interval : BarInterval
  startTs : UInt64
  openRaw : UInt64
  highRaw : UInt64
  lowRaw : UInt64
  closeRaw : UInt64
  volumeRaw : UInt64
  tradeCount : UInt64
deriving DecidableEq

namespace Bar

def toClosedRow (bar : Bar) : ClosedBarRow where
  spotMarket := bar.spotMarket
  interval := bar.interval
  startTs := bar.startTs
  openRaw := bar.openRaw
  highRaw := bar.highRaw
  lowRaw := bar.lowRaw
  closeRaw := bar.closeRaw
  volumeRaw := bar.volumeRaw
  tradeCount := bar.tradeCount

def toWsMessage (msgType : String) (bar : Bar) : BarWsMessage where
  msgType := msgType
  spotMarket := bar.spotMarket
  interval := bar.interval.str
  startTs := bar.startTs
  opened := formatPricePieces bar.openRaw
  high := formatPricePieces bar.highRaw
  low := formatPricePieces bar.lowRaw
  close := formatPricePieces bar.closeRaw
  volume := formatTokenAmount bar.volumeRaw
  tradeCount := bar.tradeCount
  closed := bar.closed

def opened (spotMarket : String) (interval : BarInterval) (startTs priceRaw volumeRaw : UInt64) :
    Bar where
  spotMarket := spotMarket
  interval := interval
  startTs := startTs
  openRaw := priceRaw
  highRaw := priceRaw
  lowRaw := priceRaw
  closeRaw := priceRaw
  volumeRaw := volumeRaw
  tradeCount := 1
  closed := false

def traded (priceRaw volumeRaw : UInt64) (bar : Bar) : Bar :=
  { bar with
    highRaw := max bar.highRaw priceRaw
    lowRaw := min bar.lowRaw priceRaw
    closeRaw := priceRaw
    volumeRaw := Word.satAdd bar.volumeRaw volumeRaw
    tradeCount := Word.satAdd bar.tradeCount 1 }

end Bar

/-- The forming bars of a market, the closed ones handed to the history lane and
the messages sent, the latter two oldest first. -/
structure SpotBars where
  forming : Dict BarInterval Bar := ∅
  closed : List Bar := []
  sent : List BarWsMessage := []
deriving DecidableEq

namespace SpotBars

/-- Only the one-minute bars are sent. -/
def send (interval : BarInterval) (message : BarWsMessage) (s : SpotBars) : SpotBars :=
  if interval = .m1 then { s with sent := s.sent ++ [message] } else s

def rollOver (interval : BarInterval) (startTs : UInt64) (s : SpotBars) : SpotBars :=
  match s.forming.lookup interval with
  | none => s
  | some bar =>
      if bar.startTs = startTs then s
      else
        let bar := { bar with closed := true }
        ({ s with
          forming := s.forming.erase interval
          closed := s.closed ++ [bar] }).send interval (bar.toWsMessage "bar_closed")

def tradeIn (spotMarket : String) (priceRaw volumeRaw ts : UInt64) (s : SpotBars)
    (interval : BarInterval) : SpotBars :=
  match bucketStart ts interval with
  | none => s
  | some startTs =>
      let s := s.rollOver interval startTs
      let bar :=
        match s.forming.lookup interval with
        | some bar => bar.traded priceRaw volumeRaw
        | none => Bar.opened spotMarket interval startTs priceRaw volumeRaw
      ({ s with forming := s.forming.insert interval bar }).send interval (bar.toWsMessage "bar")

def onTrade (spotMarket : String) (priceRaw volumeRaw ts : UInt64) (s : SpotBars) : SpotBars :=
  barIntervals.foldl (tradeIn spotMarket priceRaw volumeRaw ts) s

def closeIn (nowTs : UInt64) (s : SpotBars) (interval : BarInterval) : SpotBars :=
  match bucketStart nowTs interval, s.forming.lookup interval with
  | some currentStart, some bar =>
      if bar.startTs < currentStart then
        let bar := { bar with closed := true }
        ({ s with
          forming := s.forming.erase interval
          closed := s.closed ++ [bar] }).send interval (bar.toWsMessage "bar_closed")
      else s
  | _, _ => s

def closeExpired (nowTs : UInt64) (s : SpotBars) : SpotBars :=
  s.forming.keys.foldl (closeIn nowTs) s

end SpotBars

structure Bars where
  bySpot : Dict String SpotBars := ∅
deriving DecidableEq

namespace Bars

variable (sdk : Sdk)

def ofSpot (b : Bars) (key : String) : SpotBars := (b.bySpot.lookup key).getD {}

def onTrade (spotMarket : String) (priceRaw volumeRaw ts : UInt64) (b : Bars) : Bars :=
  if volumeRaw = 0 then b
  else
    let key := normalizeSpotMarketKey sdk spotMarket
    ⟨b.bySpot.insert key ((b.ofSpot key).onTrade key priceRaw volumeRaw ts)⟩

def closeExpired (nowTs : UInt64) (b : Bars) : Bars :=
  ⟨Dict.mapVal (SpotBars.closeExpired nowTs) b.bySpot⟩

theorem lookup_onTrade (spotMarket : String) (priceRaw volumeRaw ts : UInt64) (b : Bars)
    (key : String) :
    (b.onTrade sdk spotMarket priceRaw volumeRaw ts).bySpot.lookup key =
      if key = normalizeSpotMarketKey sdk spotMarket ∧ volumeRaw ≠ 0 then
        some (((b.bySpot.lookup key).getD {}).onTrade key priceRaw volumeRaw ts)
      else b.bySpot.lookup key := by
  unfold onTrade
  by_cases h0 : volumeRaw = 0
  · rw [if_pos h0, if_neg fun h => h.2 h0]
  · rw [if_neg h0]
    dsimp only
    rw [Dict.lookup_insert_ite]
    by_cases hkey : key = normalizeSpotMarketKey sdk spotMarket
    · rw [if_pos hkey, if_pos ⟨hkey, h0⟩, ← hkey]
      rfl
    · rw [if_neg hkey, if_neg fun h => hkey h.1]

theorem ofSpot_onTrade (spotMarket : String) (priceRaw volumeRaw ts : UInt64) (b : Bars)
    (key : String) :
    (b.onTrade sdk spotMarket priceRaw volumeRaw ts).ofSpot key =
      if key = normalizeSpotMarketKey sdk spotMarket ∧ volumeRaw ≠ 0 then
        (b.ofSpot key).onTrade key priceRaw volumeRaw ts
      else b.ofSpot key := by
  unfold ofSpot
  rw [lookup_onTrade]
  split_ifs
  · rw [Option.getD_some]
  · rfl

theorem ofSpot_closeExpired (nowTs : UInt64) (b : Bars) (key : String) :
    (b.closeExpired nowTs).ofSpot key = (b.ofSpot key).closeExpired nowTs := by
  unfold closeExpired ofSpot
  dsimp only
  rw [Dict.lookup_mapVal]
  cases b.bySpot.lookup key with
  | none => rfl
  | some s => rfl

end Bars

end ClobIndexer
