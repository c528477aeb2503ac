import ClobIndexer.Paper
/-!
# The stake view of a paper market

`src/indexer/paper_stake_view.rs`: what `/paper/stake` and the channel `paper.stake`
tell a holder, and the curve of the mint rate.  The products of the curve are formed in
128 bits before the division, so they can overflow where the quotient would fit.
-/

namespace ClobIndexer

open Lib

/-! ## The curve of the mint rate -/

def checkedU128 (n : Nat) : Option Nat := if n < 2 ^ 128 then some n else none

/-- `mint_rate_ppm`; `none` where a product overflows. -/
def mintRatePpm (trackedLp : Int)
    (tailHwm flatThreshold flatRatePpm tailDecayScale : UInt64) : Option UInt64 :=
  if trackedLp < flatThreshold.toNat then some flatRatePpm
  else
    let s := tailDecayScale.toNat
    let h := tailHwm.toNat
    if s = 0 then some 0
    else do
      let scaled ← checkedU128 (flatRatePpm.toNat * s)
      let scaled ← checkedU128 (scaled * s)
      let sum ← checkedU128 (s + h)
      let square ← checkedU128 (sum * sum)
      return UInt64.ofNat (scaled / square)

/-- `reward_rate_label`; `none` where a product overflows. -/
def rewardRateLabel (trackedLp : Int)
    (tailHwm flatThreshold flatRatePpm tailDecayScale : UInt64) : Option String :=
  if flatRatePpm = 0 then some "0% / 0% / 99%"
  else do
    let rate ← mintRatePpm trackedLp tailHwm flatThreshold flatRatePpm tailDecayScale
    let scaled ← checkedU128 (rate.toNat * 100)
    let pct := min (scaled / flatRatePpm.toNat) 99
    return "0% / " ++ Nat.repr pct ++ "% / 99%"

def mintCurve (trackedLp : Int) (h threshold rate s : Nat) : Nat :=
  if trackedLp < threshold then rate
  else if s = 0 then 0
  else rate * s ^ 2 / (s + h) ^ 2

/-- At these inputs nothing overflows, the rate is that of the curve and at most the flat
one, a smaller tail does not lower it, and the label shows it as a share of the flat one. -/
structure MintRateExact (trackedLp : Int)
    (tailHwm flatThreshold flatRatePpm tailDecayScale : UInt64) : Prop where
  rate : ∃ rate, mintRatePpm trackedLp tailHwm flatThreshold flatRatePpm tailDecayScale = some rate ∧
    rate.toNat = mintCurve trackedLp tailHwm.toNat flatThreshold.toNat flatRatePpm.toNat
      tailDecayScale.toNat ∧
    rate ≤ flatRatePpm ∧
    (∀ hwm ≤ tailHwm, ∃ larger,
      mintRatePpm trackedLp hwm flatThreshold flatRatePpm tailDecayScale = some larger ∧
        rate ≤ larger) ∧
    rewardRateLabel trackedLp tailHwm flatThreshold flatRatePpm tailDecayScale =
      some ("0% / " ++ Nat.repr (min (100 * rate.toNat / flatRatePpm.toNat) 99) ++ "% / 99%")

def MintRateFits (trackedLp : Int)
    (tailHwm flatThreshold flatRatePpm tailDecayScale : UInt64) : Prop :=
  trackedLp < flatThreshold.toNat ∨ tailDecayScale = 0 ∨
    (flatRatePpm.toNat * tailDecayScale.toNat ^ 2 < 2 ^ 128 ∧
      (tailDecayScale.toNat + tailHwm.toNat) ^ 2 < 2 ^ 128)

instance (trackedLp : Int) (tailHwm flatThreshold flatRatePpm tailDecayScale : UInt64) :
    Decidable (MintRateFits trackedLp tailHwm flatThreshold flatRatePpm tailDecayScale) :=
  inferInstanceAs (Decidable (_ ∨ _))

theorem mintCurve_le (trackedLp : Int) (h threshold rate s : Nat) :
    mintCurve trackedLp h threshold rate s ≤ rate := by
  unfold mintCurve
  split_ifs with hflat hs
  · exact le_refl rate
  · exact Nat.zero_le rate
  · have hsquare : s ^ 2 ≤ (s + h) ^ 2 := Nat.pow_le_pow_left (Nat.le_add_right s h) 2
    have hpos : 0 < (s + h) ^ 2 := Nat.pow_pos (by omega)
    calc
      rate * s ^ 2 / (s + h) ^ 2 ≤ rate * (s + h) ^ 2 / (s + h) ^ 2 :=
        Nat.div_le_div_right (Nat.mul_le_mul_left rate hsquare)
      _ = rate := Nat.mul_div_cancel rate hpos

theorem mintCurve_anti (trackedLp : Int) {h h' : Nat} (hle : h' ≤ h) (threshold rate s : Nat) :
    mintCurve trackedLp h threshold rate s ≤ mintCurve trackedLp h' threshold rate s := by
  unfold mintCurve
  split_ifs with hflat hs
  · exact le_refl rate
  · exact le_refl 0
  · have hsum : s + h' ≤ s + h := Nat.add_le_add_left hle s
    have hpos : 0 < (s + h') ^ 2 := Nat.pow_pos (by omega)
    exact Nat.div_le_div_left (Nat.pow_le_pow_left hsum 2) hpos

section

variable {trackedLp : Int} {tailHwm flatThreshold flatRatePpm tailDecayScale : UInt64}

theorem checkedU128_of_lt {n : Nat} (h : n < 2 ^ 128) : checkedU128 n = some n := if_pos h

theorem checkedU128_of_le {n : Nat} (h : 2 ^ 128 ≤ n) : checkedU128 n = none :=
  if_neg (Nat.not_lt.mpr h)

theorem mintRatePpm_tail (hflat : ¬trackedLp < flatThreshold.toNat) (hs : tailDecayScale ≠ 0) :
    mintRatePpm trackedLp tailHwm flatThreshold flatRatePpm tailDecayScale = do
      let scaled ← checkedU128 (flatRatePpm.toNat * tailDecayScale.toNat ^ 2)
      let square ← checkedU128 ((tailDecayScale.toNat + tailHwm.toNat) ^ 2)
      return UInt64.ofNat (scaled / square) := by
  have hrate := flatRatePpm.toNat_lt
  have hscale := tailDecayScale.toNat_lt
  have hhwm := tailHwm.toNat_lt
  have hs' : tailDecayScale.toNat ≠ 0 := fun h => hs ((Word.eq_zero_iff _).mpr h)
  have hproduct : flatRatePpm.toNat * tailDecayScale.toNat < 2 ^ 128 :=
    calc
      flatRatePpm.toNat * tailDecayScale.toNat < 2 ^ 64 * 2 ^ 64 :=
        Nat.mul_lt_mul_of_lt_of_lt hrate hscale
      _ = 2 ^ 128 := (Nat.pow_add 2 64 64).symm
  have hsum : tailDecayScale.toNat + tailHwm.toNat < 2 ^ 128 := by omega
  unfold mintRatePpm
  rw [if_neg hflat]
  dsimp only
  rw [if_neg hs', checkedU128_of_lt hproduct, checkedU128_of_lt hsum, Nat.pow_two, Nat.pow_two,
    ← Nat.mul_assoc]
  rfl

theorem mintRatePpm_of_fits
    (h : MintRateFits trackedLp tailHwm flatThreshold flatRatePpm tailDecayScale) :
    mintRatePpm trackedLp tailHwm flatThreshold flatRatePpm tailDecayScale =
      some (UInt64.ofNat (mintCurve trackedLp tailHwm.toNat flatThreshold.toNat
        flatRatePpm.toNat tailDecayScale.toNat)) := by
  by_cases hflat : trackedLp < flatThreshold.toNat
  · unfold mintRatePpm mintCurve
    rw [if_pos hflat, if_pos hflat, UInt64.ofNat_toNat]
  by_cases hs : tailDecayScale = 0
  · unfold mintRatePpm mintCurve
    subst hs
    rw [if_neg hflat, if_neg hflat]
    rfl
  obtain ⟨hscaled, hsquare⟩ := (h.resolve_left hflat).resolve_left hs
  have hs' : tailDecayScale.toNat ≠ 0 := fun h => hs ((Word.eq_zero_iff _).mpr h)
  rw [mintRatePpm_tail hflat hs, checkedU128_of_lt hscaled, checkedU128_of_lt hsquare]
  unfold mintCurve
  rw [if_neg hflat, if_neg hs']
  rfl

theorem mintRatePpm_of_not_fits
    (h : ¬MintRateFits trackedLp tailHwm flatThreshold flatRatePpm tailDecayScale) :
    mintRatePpm trackedLp tailHwm flatThreshold flatRatePpm tailDecayScale = none := by
  unfold MintRateFits at h
  rw [not_or, not_or] at h
  obtain ⟨hflat, hs, hfits⟩ := h
  rw [mintRatePpm_tail hflat hs]
  by_cases hscaled : flatRatePpm.toNat * tailDecayScale.toNat ^ 2 < 2 ^ 128
  · have hsquare : 2 ^ 128 ≤ (tailDecayScale.toNat + tailHwm.toNat) ^ 2 :=
      Nat.le_of_not_lt fun hlt => hfits ⟨hscaled, hlt⟩
    rw [checkedU128_of_lt hscaled, checkedU128_of_le hsquare]
    rfl
  · rw [checkedU128_of_le (Nat.le_of_not_lt hscaled)]
    rfl

theorem MintRateFits.of_le
    (h : MintRateFits trackedLp tailHwm flatThreshold flatRatePpm tailDecayScale) {hwm : UInt64}
    (hle : hwm ≤ tailHwm) :
    MintRateFits trackedLp hwm flatThreshold flatRatePpm tailDecayScale := by
  refine h.imp_right fun h => h.imp_right fun ⟨hscaled, hsquare⟩ => ⟨hscaled, ?_⟩
  have hsum := Nat.add_le_add_left (UInt64.le_iff_toNat_le.mp hle) tailDecayScale.toNat
  exact (Nat.pow_le_pow_left hsum 2).trans_lt hsquare

theorem toNat_ofNat_mintCurve (trackedLp : Int) (h threshold s : Nat) (rate : UInt64) :
    (UInt64.ofNat (mintCurve trackedLp h threshold rate.toNat s)).toNat =
      mintCurve trackedLp h threshold rate.toNat s := by
  rw [UInt64.toNat_ofNat']
  exact Nat.mod_eq_of_lt ((mintCurve_le _ _ _ _ _).trans_lt rate.toNat_lt)

theorem rewardRateLabel_of_rate {rate : UInt64}
    (h : mintRatePpm trackedLp tailHwm flatThreshold flatRatePpm tailDecayScale = some rate) :
    rewardRateLabel trackedLp tailHwm flatThreshold flatRatePpm tailDecayScale =
      some ("0% / " ++ Nat.repr (min (100 * rate.toNat / flatRatePpm.toNat) 99) ++ "% / 99%") := by
  unfold rewardRateLabel
  by_cases hzero : flatRatePpm = 0
  · subst hzero
    rw [if_pos rfl]
    have hshare : min (100 * rate.toNat / (0 : UInt64).toNat) 99 = 0 := by
      rw [UInt64.toNat_zero, Nat.div_zero, Nat.zero_min]
    rw [hshare]
    decide
  · have hrate := rate.toNat_lt
    have hscaled : rate.toNat * 100 < 2 ^ 128 := by omega
    rw [if_neg hzero, h, Option.bind_eq_bind, Option.bind_some, checkedU128_of_lt hscaled,
      Nat.mul_comm]
    rfl

end

/-- The curve is exact exactly where its products fit. -/
theorem mintRateExact_iff (trackedLp : Int)
    (tailHwm flatThreshold flatRatePpm tailDecayScale : UInt64) :
    MintRateExact trackedLp tailHwm flatThreshold flatRatePpm tailDecayScale ↔
      MintRateFits trackedLp tailHwm flatThreshold flatRatePpm tailDecayScale := by
  constructor
  · rintro ⟨rate, hrate, -⟩
    by_contra hnot
    rw [mintRatePpm_of_not_fits hnot] at hrate
    nomatch hrate
  · intro hfits
    have hrate := mintRatePpm_of_fits hfits
    refine ⟨_, hrate, ?_, ?_, ?_, ?_⟩
    · exact toNat_ofNat_mintCurve _ _ _ _ _
    · rw [UInt64.le_iff_toNat_le, toNat_ofNat_mintCurve]
      exact mintCurve_le _ _ _ _ _
    · intro hwm hle
      refine ⟨_, mintRatePpm_of_fits (hfits.of_le hle), ?_⟩
      rw [UInt64.le_iff_toNat_le, toNat_ofNat_mintCurve, toNat_ofNat_mintCurve]
      exact mintCurve_anti _ (UInt64.le_iff_toNat_le.mp hle) _ _ _
    · exact rewardRateLabel_of_rate hrate

/-- With a flat rate of one million and a scale of a hundred billion tokens, the flat rate
times the square of the scale does not fit. -/
theorem mintRate_overflows :
    mintRatePpm 0 0 0 1000000 100000000000000000 = none ∧
      ¬MintRateExact 0 0 0 1000000 100000000000000000 := by
  have hnone : mintRatePpm 0 0 0 1000000 100000000000000000 = none := by decide
  refine ⟨hnone, ?_⟩
  rintro ⟨rate, hrate, -⟩
  rw [hnone] at hrate
  nomatch hrate

/-! ## The view -/

def sharePct (part whole : UInt64) : String :=
  if whole = 0 ∨ part = 0 then "0"
  else
    let bps := part.toNat * 10000 / whole.toNat
    let frac := bps % 100
    if frac = 0 then Nat.repr (bps / 100)
    else Nat.repr (bps / 100) ++ "." ++ Text.padZeros 2 frac

def stakeSharePct (staked totalStaked : UInt64) : String := sharePct staked totalStaked

def stakeRatioPct (stakedSupply totalSupply : UInt64) : String := sharePct stakedSupply totalSupply

structure PaperMarketInfo where
  paperToken : Option (List UInt8) := none
  flatThreshold : UInt64 := 0
  flatRatePpm : UInt64 := 0
  tailDecayScale : UInt64 := 0

structure PaperLpInfo where
  trackedLp : Int := 0
  tailHwm : UInt64 := 0
  buybackCash : UInt64 := 0

structure PaperStakeInfo where
  staked : UInt64 := 0
  claimable : UInt64 := 0
  pendingReward : UInt64 := 0
  rewardPool : UInt64 := 0
  totalStaked : UInt64 := 0

/-- The node's answers that the view is made of; `none` is an error, and counts as zeroes. -/
structure StakeChain where
  getPaperMarket : List UInt8 → Option PaperMarketInfo
  /-- what an address holds of a token -/
  getBalance : List UInt8 → List UInt8 → Option UInt64
  /-- the total supply of a token, as an address asks for it -/
  getTokenInfo : List UInt8 → List UInt8 → Option UInt64
  getPaperLp : List UInt8 → Option PaperLpInfo
  /-- the stake of an address in a market -/
  getPaperStake : List UInt8 → List UInt8 → Option PaperStakeInfo

/-- The numbers of the stake view; its other texts are these numbers formatted.  The rate and
its label are `none` where a product overflows. -/
structure PaperStakeView where
  market : String
  address : String
  paperToken : String
  paperRaw : UInt64
  stakedRaw : UInt64
  claimableRaw : UInt64
  pendingRewardRaw : UInt64
  rewardPoolRaw : UInt64
  buybackCashRaw : UInt64
  totalStakedRaw : UInt64
  stakeSharePct : String
  rewardsClaimedRaw : UInt64
  totalStakerRewardsRaw : UInt64
  rewardRate : Option String
  mintRateRaw : Option UInt64
  trackedLpRaw : Int64
  tailHwmRaw : UInt64
  flatThresholdRaw : UInt64
  flatRatePpm : UInt64
  tailDecayScaleRaw : UInt64
  rewardToken : String
  totalSupplyRaw : UInt64
  stakedSupplyRaw : UInt64
  stakeRatioPct : String
  stakingContract : String
deriving DecidableEq

/-- The numbers of a message of `paper.stake`; its other texts are these numbers formatted. -/
structure PaperStakeWsMessage where
  msgType : String
  market : String
  tsMs : UInt64
  stakingRevenueRaw : UInt64
  totalPaperSupplyRaw : UInt64
  totalStakingRewardRaw : UInt64
  stake : Option PaperStakeView
deriving DecidableEq

def stakeTickMessage (market : String) (tick : PaperStakeTick) : PaperStakeWsMessage where
  msgType := "paper_stake"
  market := market
  tsMs := tick.tsMs
  stakingRevenueRaw := tick.stakingRevenue
  totalPaperSupplyRaw := tick.totalPaperSupply
  totalStakingRewardRaw := tick.totalStakingReward
  stake := none

namespace Paper

def paperRewardsClaimed (market user : String) (p : Paper) : UInt64 :=
  (p.rewardsClaimed.lookup (paperRewardsClaimedKey market user)).getD 0

def paperTotalStakerRewards (market : String) (p : Paper) : UInt64 :=
  (p.totalStakerRewards.lookup (addrKey market)).getD 0

def paperStakeHistory (market : String) (fromMs : Option UInt64) (limit : Nat) (p : Paper) :
    List PaperStakeTick :=
  let limit := min (max limit 1) paperStakeHistoryLimit
  let hist := (p.stakeHistory.lookup (addrKey market)).getD []
  (((hist.filter fun t => atOrAfter fromMs t.tsMs).reverse).take limit).reverse

def paperStakeView (sdk : Sdk) (chain : StakeChain) (marketRaw addressRaw : String) (p : Paper) :
    Option PaperStakeView :=
  let marketRaw := Text.trim marketRaw
  let addressRaw := Text.trim addressRaw
  if marketRaw = "" ∨ addressRaw = "" then none
  else do
    let paperMarket ← sdk.parseTokenContract marketRaw
    let user ← sdk.addressFromStr addressRaw
    let mkt := (chain.getPaperMarket paperMarket).getD {}
    let paperRaw := (mkt.paperToken.bind (chain.getBalance user)).getD 0
    let totalSupplyRaw := (mkt.paperToken.bind (chain.getTokenInfo user)).getD 0
    let lp := (chain.getPaperLp paperMarket).getD {}
    let s := (chain.getPaperStake user paperMarket).getD {}
    return {
      market := marketRaw
      address := addressRaw
      paperToken := (mkt.paperToken.map sdk.contractToString).getD ""
      paperRaw := paperRaw
      stakedRaw := s.staked
      claimableRaw := s.claimable
      pendingRewardRaw := s.pendingReward
      rewardPoolRaw := s.rewardPool
      buybackCashRaw := lp.buybackCash
      totalStakedRaw := s.totalStaked
      stakeSharePct := ClobIndexer.stakeSharePct s.staked s.totalStaked
      rewardsClaimedRaw := p.paperRewardsClaimed marketRaw addressRaw
      totalStakerRewardsRaw := p.paperTotalStakerRewards marketRaw
      rewardRate := rewardRateLabel lp.trackedLp lp.tailHwm mkt.flatThreshold mkt.flatRatePpm
        mkt.tailDecayScale
      mintRateRaw := mintRatePpm lp.trackedLp lp.tailHwm mkt.flatThreshold mkt.flatRatePpm
        mkt.tailDecayScale
      trackedLpRaw := Int64.ofInt lp.trackedLp
      tailHwmRaw := lp.tailHwm
      flatThresholdRaw := mkt.flatThreshold
      flatRatePpm := mkt.flatRatePpm
      tailDecayScaleRaw := mkt.tailDecayScale
      rewardToken := "USDC"
      totalSupplyRaw := totalSupplyRaw
      stakedSupplyRaw := s.totalStaked
      stakeRatioPct := ClobIndexer.stakeRatioPct s.totalStaked totalSupplyRaw
      stakingContract := marketRaw
    }

/-- `paper_stake_ws`: what a new subscriber is sent.  A market that has no sample yet shows
the pool of the chain as its revenue. -/
def paperStakeWs (env : PaperEnv) (chain : StakeChain) (market address : String) (p : Paper) :
    Option PaperStakeWsMessage :=
  (p.paperStakeView env.sdk chain market address).map fun stake =>
    let (rev, supply, reward) :=
      match (p.paperStakeHistory market none 1).getLast? with
      | some t => (t.stakingRevenue, t.totalPaperSupply, t.totalStakingReward)
      | none => (stake.rewardPoolRaw, stake.totalSupplyRaw, stake.totalStakerRewardsRaw)
    { msgType := "paper_stake"
      market := stake.market
      tsMs := env.stampMs
      stakingRevenueRaw := rev
      totalPaperSupplyRaw := supply
      totalStakingRewardRaw := reward
      stake := some stake }

end Paper

end ClobIndexer
