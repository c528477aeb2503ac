import ClobIndexer.Lib.Readings
import ClobIndexer.PaperLedger
import ClobIndexer.PaperStakeView
/-!
# Running totals and the activity of paper markets

`src/indexer/index_state.rs` keeps the volume of a market, the rewards of its stakers and
what each user has claimed as numbers that saturate, and the last things that happened in a
list of bounded length.  Each is written by a few of the events and read by a query.
-/

namespace ClobIndexer

open Lib

namespace Paper

/-! ## Queries -/

def totalOf (totals : Dict String UInt64) (key : String) : UInt64 := (totals.lookup key).getD 0

def paperVolume (market : String) (p : Paper) : UInt64 := totalOf p.volume (addrKey market)

def paperActivity (market : Option String) (limit : Nat) (p : Paper) : List PaperActivityItem :=
  let limit := min (max limit 1) paperActivityLimit
  let marketKey := market.map addrKey
  (p.activity.reverse.filter fun a => marketKey.all fun m => addrKey a.market = m).take limit

end Paper

/-! ## What an event adds -/

namespace SecondaryEvent

def volumeOn (marketKey : String) : SecondaryEvent → Nat
  | .paperOpened e => if addrKey e.market = marketKey then e.notional.toNat else 0
  | _ => 0

def rewardsOn (marketKey : String) : SecondaryEvent → Nat
  | .paperFeesPushed market stakerFee sweptStakers _ =>
      if addrKey market = marketKey then stakerFee.toNat + sweptStakers.toNat else 0
  | _ => 0

def claimedUnder (key : String) : SecondaryEvent → Nat
  | .paperClaimed market user reward =>
      if paperRewardsClaimedKey market user = key then reward.toNat else 0
  | _ => 0

def activityItem (env : PaperEnv) (kind market user : String) (amountRaw : UInt64)
    (pnlRaw : Option Int64) (position : Option UInt64) : PaperActivityItem where
  kind := kind
  market := market
  user := user
  amount := formatTokenAmount amountRaw
  amountRaw := amountRaw
  pnl := pnlRaw.map formatI64Token
  pnlRaw := pnlRaw
  position := position
  blockNum := env.blockNum
  tsMs := env.stampMs

/-- Losing closes, closes that mint, liquidations and moves of stakes are activity. -/
def activity (env : PaperEnv) : SecondaryEvent → List PaperActivityItem
  | .paperClosed e =>
      if e.minted ≠ 0 ∨ e.pnl < 0 then
        [activityItem env "close_loss" e.market e.owner e.minted (some e.pnl) (some e.position)]
      else []
  | .paperLiquidated e =>
      [activityItem env "liquidated" e.market e.owner e.minted (some (-e.margin.toInt64))
        (some e.position)]
  | .paperStaked market user amount => [activityItem env "staked" market user amount none none]
  | .paperUnstaked market user amount => [activityItem env "unstaked" market user amount none none]
  | _ => []

end SecondaryEvent

/-- The totals and the activity, with nothing else of the paper markets. -/
structure PaperTotals where
  volume : Dict String UInt64 := ∅
  totalStakerRewards : Dict String UInt64 := ∅
  rewardsClaimed : Dict String UInt64 := ∅
  activity : List PaperActivityItem := []
deriving DecidableEq

namespace PaperTotals

def push (items : List PaperActivityItem) (t : PaperTotals) : PaperTotals :=
  { t with activity := Ring.trim paperActivityLimit (t.activity ++ items) }

def step (t : PaperTotals) (s : PaperStep) : PaperTotals :=
  match s.event with
  | .paperOpened e => { t with volume := addTotal (addrKey e.market) e.notional t.volume }
  | .paperFeesPushed market stakerFee swept _ =>
      if Word.satAdd stakerFee swept = 0 then t
      else
        { t with
          totalStakerRewards :=
            addTotal (addrKey market) (Word.satAdd stakerFee swept) t.totalStakerRewards }
  | .paperClaimed market user reward =>
      if reward = 0 then t
      else
        { t with
          rewardsClaimed := addTotal (paperRewardsClaimedKey market user) reward t.rewardsClaimed }
  | .paperClosed e =>
      if e.minted ≠ 0 ∨ e.pnl < 0 then t.push (s.event.activity s.env) else t
  | .paperLiquidated _ => t.push (s.event.activity s.env)
  | .paperStaked _ _ _ => t.push (s.event.activity s.env)
  | .paperUnstaked _ _ _ => t.push (s.event.activity s.env)
  | _ => t

end PaperTotals

namespace Paper

def totals (p : Paper) : PaperTotals :=
  ⟨p.volume, p.totalStakerRewards, p.rewardsClaimed, p.activity⟩

/-! ## What the handlers leave alone -/

section

variable (env : PaperEnv) (p : Paper)

@[simp] theorem totals_markPaperHouseDirty (market : String) :
    (p.markPaperHouseDirty market).volume = p.volume ∧
      (p.markPaperHouseDirty market).totalStakerRewards = p.totalStakerRewards ∧
      (p.markPaperHouseDirty market).rewardsClaimed = p.rewardsClaimed ∧
      (p.markPaperHouseDirty market).activity = p.activity := by
  unfold markPaperHouseDirty
  split_ifs <;> exact ⟨rfl, rfl, rfl, rfl⟩

@[simp] theorem totals_markPaperStakeDirty (market : String) :
    (p.markPaperStakeDirty market).volume = p.volume ∧
      (p.markPaperStakeDirty market).totalStakerRewards = p.totalStakerRewards ∧
      (p.markPaperStakeDirty market).rewardsClaimed = p.rewardsClaimed ∧
      (p.markPaperStakeDirty market).activity = p.activity := by
  unfold markPaperStakeDirty
  split_ifs <;> exact ⟨rfl, rfl, rfl, rfl⟩

@[simp] theorem totals_applyPaperHouseAfter (market : String) (house : PaperHouseAfter) :
    (p.applyPaperHouseAfter market house).volume = p.volume ∧
      (p.applyPaperHouseAfter market house).totalStakerRewards = p.totalStakerRewards ∧
      (p.applyPaperHouseAfter market house).rewardsClaimed = p.rewardsClaimed ∧
      (p.applyPaperHouseAfter market house).activity = p.activity := by
  simp [applyPaperHouseAfter]

@[simp] theorem totals_recordOracleMark (spotMarket : String) (e : OracleCommittedEvent) :
    (p.recordOracleMark env spotMarket e).volume = p.volume ∧
      (p.recordOracleMark env spotMarket e).totalStakerRewards = p.totalStakerRewards ∧
      (p.recordOracleMark env spotMarket e).rewardsClaimed = p.rewardsClaimed ∧
      (p.recordOracleMark env spotMarket e).activity = p.activity := by
  unfold recordOracleMark
  obtain ⟨dirty, hdirty⟩ := markPaperHouseDirtyForPriceMarket_eq env
    (normalizeSpotMarketKey env.sdk spotMarket) _
  rw [hdirty]
  exact ⟨rfl, rfl, rfl, rfl⟩

@[simp] theorem totals_applyPaperOiDelta (market : String) (instrument : UInt32)
    (isLong isAdd : Bool) (notional : UInt64) :
    (p.applyPaperOiDelta env market instrument isLong isAdd notional).volume = p.volume ∧
      (p.applyPaperOiDelta env market instrument isLong isAdd notional).totalStakerRewards =
        p.totalStakerRewards ∧
      (p.applyPaperOiDelta env market instrument isLong isAdd notional).rewardsClaimed =
        p.rewardsClaimed ∧
      (p.applyPaperOiDelta env market instrument isLong isAdd notional).activity =
        p.activity := by
  simp [applyPaperOiDelta, pushPaperOiHistory]

@[simp] theorem totals_closePaperPosition (market : String) (position : UInt64)
    (ownerFallback : String) (closing : Closing) :
    (p.closePaperPosition env market position ownerFallback closing).volume = p.volume ∧
      (p.closePaperPosition env market position ownerFallback closing).totalStakerRewards =
        p.totalStakerRewards ∧
      (p.closePaperPosition env market position ownerFallback closing).rewardsClaimed =
        p.rewardsClaimed ∧
      (p.closePaperPosition env market position ownerFallback closing).activity =
        p.activity := by
  cases hrow : p.positionsOpen.lookup (paperPositionKey market position) <;>
    simp [closePaperPosition, hrow]

/-- An opening counts as volume and is no activity. -/
@[simp] theorem totals_upsertPaperPositionOpen (row : PaperPositionOpen) :
    (p.upsertPaperPositionOpen env row).volume =
        addTotal (addrKey row.market) row.notionalRaw p.volume ∧
      (p.upsertPaperPositionOpen env row).totalStakerRewards = p.totalStakerRewards ∧
      (p.upsertPaperPositionOpen env row).rewardsClaimed = p.rewardsClaimed ∧
      (p.upsertPaperPositionOpen env row).activity = p.activity := by
  simp [upsertPaperPositionOpen]

@[simp] theorem totals_pushPaperActivity (kind market user : String) (amount : UInt64)
    (pnl : Option Int64) (position : Option UInt64) :
    (p.pushPaperActivity env kind market user amount pnl position).volume = p.volume ∧
      (p.pushPaperActivity env kind market user amount pnl position).totalStakerRewards =
        p.totalStakerRewards ∧
      (p.pushPaperActivity env kind market user amount pnl position).rewardsClaimed =
        p.rewardsClaimed ∧
      (p.pushPaperActivity env kind market user amount pnl position).activity =
        Ring.trim paperActivityLimit (p.activity ++
          [SecondaryEvent.activityItem env kind market user amount pnl position]) :=
  ⟨rfl, rfl, rfl, rfl⟩

end

/-- An event changes the totals as it should. -/
theorem totals_step (p : Paper) (s : PaperStep) : (p.step s).totals = p.totals.step s := by
  obtain ⟨env, e⟩ := s
  unfold Paper.step applySecondaryEvent PaperTotals.step totals
  cases e with
  | oracleCommitted contract e =>
      dsimp only
      split_ifs <;> simp
  | paperInstrumentAdded market instrument name priceMarket => rfl
  | paperOpened e => simp [indexPaperOpened]
  | paperClosed e =>
      unfold indexPaperClosed
      dsimp only
      split_ifs <;> simp_all [PaperTotals.push, SecondaryEvent.activity]
  | paperLiquidated e => simp [indexPaperLiquidated, PaperTotals.push, SecondaryEvent.activity]
  | paperQueued market index user amount house => simp [applyPaperQueued]
  | paperHarvested market index house => simp [applyPaperHarvested]
  | paperFeesPushed market stakerFee sweptStakers house =>
      unfold applyPaperFeesPushedRewards
      dsimp only
      split_ifs <;> simp
  | paperClaimed market user reward =>
      unfold applyPaperClaimedReward
      dsimp only
      split_ifs <;> simp
  | paperStaked market user amount => simp [PaperTotals.push, SecondaryEvent.activity]
  | paperUnstaked market user amount => simp [PaperTotals.push, SecondaryEvent.activity]

theorem totals_run (steps : List PaperStep) (p : Paper) :
    (steps.foldl step p).totals = steps.foldl PaperTotals.step p.totals := by
  induction steps generalizing p with
  | nil => rfl
  | cons s steps ih => rw [List.foldl_cons, List.foldl_cons, ih, totals_step]

end Paper

/-! ## One event -/

namespace PaperTotals

open Paper

theorem totalOf_addTotal (key key' : String) (amount : UInt64) (totals : Dict String UInt64) :
    (totalOf (addTotal key amount totals) key').toNat =
      min ((totalOf totals key').toNat + if key = key' then amount.toNat else 0) Word.u64Max := by
  have hle := Word.toNat_le (totalOf totals key')
  unfold totalOf addTotal at *
  rw [Dict.lookup_insert_ite]
  by_cases hkey : key' = key
  · subst hkey
    rw [if_pos rfl, if_pos rfl, Option.getD_some]
    cases htotal : totals.lookup key' with
    | none =>
        have hamount := Word.toNat_le amount
        simp only [Option.getD_none, UInt64.toNat_zero, Nat.zero_add]
        omega
    | some total => rw [Option.getD_some, Word.toNat_satAdd]
  · rw [if_neg hkey, if_neg fun heq => hkey heq.symm]
    omega

theorem totalOf_add_zero (totals : Dict String UInt64) (key : String) :
    (totalOf totals key).toNat = min ((totalOf totals key).toNat + 0) Word.u64Max := by
  rw [Nat.add_zero, Nat.min_eq_left (Word.toNat_le _)]

variable (t : PaperTotals) (s : PaperStep)

@[simp] theorem totals_push (items : List PaperActivityItem) :
    (t.push items).volume = t.volume ∧
      (t.push items).totalStakerRewards = t.totalStakerRewards ∧
      (t.push items).rewardsClaimed = t.rewardsClaimed :=
  ⟨rfl, rfl, rfl⟩

theorem volume_step (key : String) :
    (totalOf (t.step s).volume key).toNat =
      min ((totalOf t.volume key).toNat + s.event.volumeOn key) Word.u64Max := by
  have hsame := totalOf_add_zero t.volume key
  unfold step SecondaryEvent.volumeOn
  cases s.event with
  | paperOpened e =>
      dsimp only
      rw [totalOf_addTotal]
  | paperFeesPushed market stakerFee swept house =>
      dsimp only
      split_ifs <;> exact hsame
  | paperClaimed market user reward =>
      dsimp only
      split_ifs <;> exact hsame
  | paperClosed e =>
      dsimp only
      split_ifs <;> simpa using hsame
  | _ => simpa using hsame

theorem totalStakerRewards_step (key : String) :
    (totalOf (t.step s).totalStakerRewards key).toNat =
      min ((totalOf t.totalStakerRewards key).toNat + s.event.rewardsOn key) Word.u64Max := by
  have hsame := totalOf_add_zero t.totalStakerRewards key
  unfold step SecondaryEvent.rewardsOn
  cases s.event with
  | paperFeesPushed market stakerFee swept house =>
      dsimp only
      split_ifs with hzero hkey hkey
      · rw [Word.eq_zero_iff, Word.toNat_satAdd] at hzero
        have hpositive : 0 < Word.u64Max := by decide
        have hnone : stakerFee.toNat + swept.toNat = 0 := by omega
        rw [hnone]
        exact hsame
      · exact hsame
      · rw [totalOf_addTotal, if_pos hkey, Word.toNat_satAdd]
        omega
      · rw [totalOf_addTotal, if_neg hkey]
  | paperClaimed market user reward =>
      dsimp only
      split_ifs <;> exact hsame
  | paperClosed e =>
      dsimp only
      split_ifs <;> simpa using hsame
  | _ => simpa using hsame

theorem rewardsClaimed_step (key : String) :
    (totalOf (t.step s).rewardsClaimed key).toNat =
      min ((totalOf t.rewardsClaimed key).toNat + s.event.claimedUnder key) Word.u64Max := by
  have hsame := totalOf_add_zero t.rewardsClaimed key
  unfold step SecondaryEvent.claimedUnder
  cases s.event with
  | paperClaimed market user reward =>
      dsimp only
      split_ifs with hzero hkey hkey
      · rw [hzero, UInt64.toNat_zero]
        exact hsame
      · exact hsame
      · rw [totalOf_addTotal, if_pos hkey]
      · rw [totalOf_addTotal, if_neg hkey]
  | paperFeesPushed market stakerFee swept house =>
      dsimp only
      split_ifs <;> exact hsame
  | paperClosed e =>
      dsimp only
      split_ifs <;> simpa using hsame
  | _ => simpa using hsame

theorem activity_step (h : t.activity.length ≤ paperActivityLimit) :
    (t.step s).activity =
      Ring.trim paperActivityLimit (t.activity ++ s.event.activity s.env) := by
  have hkept : t.activity = Ring.trim paperActivityLimit (t.activity ++ []) := by
    rw [List.append_nil, Ring.trim_of_length_le h]
  unfold step
  cases hevent : s.event with
  | paperFeesPushed market stakerFee swept house =>
      dsimp only
      split_ifs <;> exact hkept
  | paperClaimed market user reward =>
      dsimp only
      split_ifs <;> exact hkept
  | paperClosed e =>
      dsimp only
      split_ifs with hloss
      · rfl
      · rw [SecondaryEvent.activity, if_neg hloss]
        exact hkept
  | paperLiquidated e => rfl
  | paperStaked market user amount => rfl
  | paperUnstaked market user amount => rfl
  | _ => exact hkept

end PaperTotals

/-! ## Runs -/

namespace Paper

/-- After every sequence of events the totals are what they were and what the events add, as
far as a word holds it: the volume of a market, the rewards of its stakers, and what a user
has claimed on it. -/
theorem paperTotals_of_run (steps : List PaperStep) (p : Paper) (market user : String) :
    let q := steps.foldl step p
    (q.paperVolume market).toNat =
        min ((p.paperVolume market).toNat +
          (steps.map fun s => s.event.volumeOn (addrKey market)).sum) Word.u64Max ∧
      (q.paperTotalStakerRewards market).toNat =
        min ((p.paperTotalStakerRewards market).toNat +
          (steps.map fun s => s.event.rewardsOn (addrKey market)).sum) Word.u64Max ∧
      (q.paperRewardsClaimed market user).toNat =
        min ((p.paperRewardsClaimed market user).toNat +
          (steps.map fun s =>
            s.event.claimedUnder (paperRewardsClaimedKey market user)).sum) Word.u64Max := by
  intro q
  have htotals : q.totals = steps.foldl PaperTotals.step p.totals := totals_run steps p
  refine ⟨?_, ?_, ?_⟩
  · have hvolume := toNat_foldl_of_adds (fun t : PaperTotals => totalOf t.volume (addrKey market))
      (fun s : PaperStep => s.event.volumeOn (addrKey market))
      (fun t s => PaperTotals.volume_step t s (addrKey market)) steps p.totals
    rw [← htotals] at hvolume
    exact hvolume
  · have hrewards := toNat_foldl_of_adds
      (fun t : PaperTotals => totalOf t.totalStakerRewards (addrKey market))
      (fun s : PaperStep => s.event.rewardsOn (addrKey market))
      (fun t s => PaperTotals.totalStakerRewards_step t s (addrKey market)) steps p.totals
    rw [← htotals] at hrewards
    exact hrewards
  · have hclaimed := toNat_foldl_of_adds
      (fun t : PaperTotals => totalOf t.rewardsClaimed (paperRewardsClaimedKey market user))
      (fun s : PaperStep => s.event.claimedUnder (paperRewardsClaimedKey market user))
      (fun t s => PaperTotals.rewardsClaimed_step t s (paperRewardsClaimedKey market user)) steps
      p.totals
    rw [← htotals] at hclaimed
    exact hclaimed

/-- After every sequence of events from a fresh index, the activity of a market is, of the
newest items of all markets that the list holds, those of the market, newest first and as
many as were asked for. -/
theorem paperActivity_of_run (steps : List PaperStep) (market : Option String) (limit : Nat) :
    (steps.foldl step {}).paperActivity market limit =
      ((((steps.flatMap fun s => s.event.activity s.env).rtake paperActivityLimit).reverse.filter
        fun a => (market.map addrKey).all fun m => addrKey a.market = m).take
          (min (max limit 1) paperActivityLimit)) := by
  have htotals := totals_run steps {}
  have hlogs := foldl_of_logs PaperTotals.activity
    (fun s : PaperStep => s.event.activity s.env)
    (fun t s h => PaperTotals.activity_step t s h) steps (s := (({} : Paper).totals))
    (Nat.zero_le _)
  rw [← htotals] at hlogs
  have hactivity : (steps.foldl step {}).activity =
      (steps.flatMap fun s => s.event.activity s.env).rtake paperActivityLimit := hlogs
  unfold paperActivity
  rw [hactivity]

end Paper

end ClobIndexer
