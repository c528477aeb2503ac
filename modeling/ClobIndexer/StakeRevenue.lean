import ClobIndexer.HexSdk
import ClobIndexer.Lib.Runs
import ClobIndexer.PaperHistory
import ClobIndexer.PaperStakeView
/-!
# One number for the revenue

The revenue that stakers are told is what was pushed to them in the life of the process: a
flush samples it, and a new subscriber gets the newest sample.  A subscriber that comes
before the first sample of its market gets the pool of the chain instead, which goes down
with every claim.
-/

namespace ClobIndexer

open Lib

namespace Paper

/-! ## What the events do to the rewards and the samples -/

variable (env : PaperEnv) (p : Paper)

@[simp] theorem stakes_markPaperHouseDirty (market : String) :
    (p.markPaperHouseDirty market).totalStakerRewards = p.totalStakerRewards ∧
      (p.markPaperHouseDirty market).stakeHistory = p.stakeHistory := by
  unfold markPaperHouseDirty
  split_ifs <;> exact ⟨rfl, rfl⟩

@[simp] theorem stakes_markPaperStakeDirty (market : String) :
    (p.markPaperStakeDirty market).totalStakerRewards = p.totalStakerRewards ∧
      (p.markPaperStakeDirty market).stakeHistory = p.stakeHistory := by
  unfold markPaperStakeDirty
  split_ifs <;> exact ⟨rfl, rfl⟩

@[simp] theorem stakes_applyPaperHouseAfter (market : String) (house : PaperHouseAfter) :
    (p.applyPaperHouseAfter market house).totalStakerRewards = p.totalStakerRewards ∧
      (p.applyPaperHouseAfter market house).stakeHistory = p.stakeHistory := by
  simp [applyPaperHouseAfter]

@[simp] theorem stakes_recordOracleMark (spotMarket : String) (e : OracleCommittedEvent) :
    (p.recordOracleMark env spotMarket e).totalStakerRewards = p.totalStakerRewards ∧
      (p.recordOracleMark env spotMarket e).stakeHistory = p.stakeHistory := by
  unfold recordOracleMark
  obtain ⟨dirty, hdirty⟩ := markPaperHouseDirtyForPriceMarket_eq env
    (normalizeSpotMarketKey env.sdk spotMarket) _
  rw [hdirty]
  exact ⟨rfl, rfl⟩

@[simp] theorem stakes_applyPaperOiDelta (market : String) (instrument : UInt32)
    (isLong isAdd : Bool) (notional : UInt64) :
    (p.applyPaperOiDelta env market instrument isLong isAdd notional).totalStakerRewards =
        p.totalStakerRewards ∧
      (p.applyPaperOiDelta env market instrument isLong isAdd notional).stakeHistory =
        p.stakeHistory := by
  simp [applyPaperOiDelta, pushPaperOiHistory]

@[simp] theorem stakes_pushPaperActivity (kind market user : String) (amount : UInt64)
    (pnl : Option Int64) (position : Option UInt64) :
    (p.pushPaperActivity env kind market user amount pnl position).totalStakerRewards =
        p.totalStakerRewards ∧
      (p.pushPaperActivity env kind market user amount pnl position).stakeHistory =
        p.stakeHistory := by
  simp [pushPaperActivity]

@[simp] theorem stakes_upsertPaperPositionOpen (row : PaperPositionOpen) :
    (p.upsertPaperPositionOpen env row).totalStakerRewards = p.totalStakerRewards ∧
      (p.upsertPaperPositionOpen env row).stakeHistory = p.stakeHistory := by
  simp [upsertPaperPositionOpen]

@[simp] theorem stakes_closePaperPosition (market : String) (position : UInt64)
    (ownerFallback : String) (closing : Closing) :
    (p.closePaperPosition env market position ownerFallback closing).totalStakerRewards =
        p.totalStakerRewards ∧
      (p.closePaperPosition env market position ownerFallback closing).stakeHistory =
        p.stakeHistory := by
  cases hrow : p.positionsOpen.lookup (paperPositionKey market position) <;>
    simp [closePaperPosition, hrow]

theorem stakes_applySecondaryEvent (e : SecondaryEvent) :
    (p.applySecondaryEvent env e).totalStakerRewards =
        (match e with
        | .paperFeesPushed market stakerFee sweptStakers _ =>
            (p.applyPaperFeesPushedRewards market stakerFee sweptStakers).totalStakerRewards
        | _ => p.totalStakerRewards) ∧
      (p.applySecondaryEvent env e).stakeHistory = p.stakeHistory := by
  unfold applySecondaryEvent
  cases e with
  | oracleCommitted contract e =>
      dsimp only
      split_ifs <;> simp
  | paperInstrumentAdded market instrument name priceMarket => exact ⟨rfl, rfl⟩
  | paperOpened e => simp [indexPaperOpened]
  | paperClosed e =>
      unfold indexPaperClosed
      dsimp only
      split_ifs <;> simp
  | paperLiquidated e => simp [indexPaperLiquidated]
  | paperQueued market index user amount house => simp [applyPaperQueued]
  | paperHarvested market index house => simp [applyPaperHarvested]
  | paperFeesPushed market stakerFee sweptStakers house =>
      unfold applyPaperFeesPushedRewards
      dsimp only
      split_ifs <;> simp
  | paperClaimed market user reward =>
      unfold applyPaperClaimedReward
      dsimp only
      split_ifs <;> simp
  | paperStaked market user amount => simp
  | paperUnstaked market user amount => simp

@[simp] theorem stakes_hydratePaperHouseHistory
    (history : List (String × List PaperHouseHistoryRow)) :
    (p.hydratePaperHouseHistory history).totalStakerRewards = p.totalStakerRewards ∧
      (p.hydratePaperHouseHistory history).stakeHistory = p.stakeHistory := by
  unfold hydratePaperHouseHistory
  induction history generalizing p with
  | nil => exact ⟨rfl, rfl⟩
  | cons loaded history ih =>
      rw [List.foldl_cons]
      split_ifs
      · exact ih p
      · exact ih _

/-! ## What a flush records -/

def stakeSamples (chain : PaperChain) : List (String × PaperStakeTick) :=
  p.stakeDirty.keys.filterMap fun market =>
    (env.sdk.parseTokenContract market).map fun paperMarket =>
      let reward := p.paperTotalStakerRewards market
      (market, ⟨env.stampMs, reward, paperSupply chain paperMarket, reward⟩)

def recordSamples (samples : List (String × PaperStakeTick)) : Paper :=
  samples.foldl (fun p s => p.recordPaperStakeTick s.1 s.2) p

theorem foldl_stakeSamples (chain : PaperChain) (publish : Bool) (markets : List String) :
    ∀ (q : Paper) (messages : List PaperWsMessage),
      q.totalStakerRewards = p.totalStakerRewards →
        let samples := markets.filterMap fun market =>
          (env.sdk.parseTokenContract market).map fun paperMarket =>
            let reward := p.paperTotalStakerRewards market
            (market, (⟨env.stampMs, reward, paperSupply chain paperMarket, reward⟩ :
              PaperStakeTick))
        markets.foldl
          (fun s market =>
            match env.sdk.parseTokenContract market with
            | none => s
            | some paperMarket =>
                let reward := (s.1.totalStakerRewards.lookup (addrKey market)).getD 0
                let tick : PaperStakeTick :=
                  ⟨env.stampMs, reward, paperSupply chain paperMarket, reward⟩
                let p := s.1.recordPaperStakeTick market tick
                if publish then (p, s.2 ++ [.stake market tick]) else (p, s.2))
          (q, messages) =
        (q.recordSamples samples,
          messages ++ if publish then samples.map fun s => .stake s.1 s.2 else []) := by
  induction markets with
  | nil =>
      intro q messages _
      cases publish <;> simp [recordSamples]
  | cons market markets ih =>
      intro q messages hq
      rw [List.foldl_cons, List.filterMap_cons]
      cases env.sdk.parseTokenContract market with
      | none => exact ih q messages hq
      | some paperMarket =>
          have hreward : (q.totalStakerRewards.lookup (addrKey market)).getD 0 =
              p.paperTotalStakerRewards market := by
            rw [hq]
            rfl
          cases publish with
          | false =>
              refine (ih _ messages (by rw [recordPaperStakeTick]; exact hq)).trans ?_
              simp only [hreward]
              rfl
          | true =>
              refine (ih _ _ (by rw [recordPaperStakeTick]; exact hq)).trans ?_
              simp only [hreward, if_true, Option.map_some, List.map_cons]
              rw [List.append_assoc]
              rfl

theorem flushPaperStakeHistory_eq (chain : PaperChain) (publish : Bool) :
    flushPaperStakeHistory env chain publish (p, []) =
      (({ p with stakeDirty := ∅ } : Paper).recordSamples (p.stakeSamples env chain),
        if publish then (p.stakeSamples env chain).map fun s => .stake s.1 s.2 else []) :=
  foldl_stakeSamples env p chain publish p.stakeDirty.keys { p with stakeDirty := ∅ } [] rfl

def stakeTip (key : String) : Option PaperStakeTick :=
  ((p.stakeHistory.lookup key).getD []).getLast?

theorem getLast?_record {tick : PaperStakeTick} (ring : List PaperStakeTick) :
    (Ring.record PaperStakeTick.tsMs tick ring).getLast? = some tick := by
  unfold Ring.record
  split
  · split_ifs <;> simp
  · simp

theorem stakeTip_recordPaperStakeTick (market : String) (tick : PaperStakeTick) (key : String) :
    (p.recordPaperStakeTick market tick).stakeTip key =
      if addrKey market = key then some tick else p.stakeTip key := by
  unfold stakeTip recordPaperStakeTick
  dsimp only
  rw [Dict.lookup_insert_ite]
  by_cases hkey : key = addrKey market
  · subst hkey
    rw [if_pos rfl, if_pos rfl, Option.getD_some]
    split_ifs
    · exact getLast?_record _
    · unfold Ring.push Ring.trim
      rw [List.getLast?_drop, getLast?_record]
      have hpos := List.length_pos_of_ne_nil
        (List.getLast?_isSome.mp (Option.isSome_of_eq_some
          (@getLast?_record tick ((p.stakeHistory.lookup (addrKey market)).getD []))))
      rw [if_neg]
      unfold paperStakeHistoryLimit
      omega
  · have hne : ¬addrKey market = key := fun heq => hkey heq.symm
    rw [if_neg hkey, if_neg hne]

theorem stakeTip_recordSamples (samples : List (String × PaperStakeTick)) (key : String) :
    (p.recordSamples samples).stakeTip key =
      ((samples.filter fun s => addrKey s.1 = key).getLast?.map Prod.snd).or (p.stakeTip key) := by
  unfold recordSamples
  induction samples generalizing p with
  | nil => simp
  | cons s samples ih =>
      rw [List.foldl_cons, ih, stakeTip_recordPaperStakeTick]
      by_cases hkey : addrKey s.1 = key
      · rw [if_pos hkey, List.filter_cons_of_pos (by simpa using hkey), List.getLast?_cons]
        cases (samples.filter fun s => addrKey s.1 = key).getLast? <;> rfl
      · rw [if_neg hkey, List.filter_cons_of_neg (by simpa using hkey)]

theorem totalStakerRewards_recordSamples (samples : List (String × PaperStakeTick)) :
    (p.recordSamples samples).totalStakerRewards = p.totalStakerRewards := by
  unfold recordSamples
  induction samples generalizing p with
  | nil => rfl
  | cons s samples ih => exact (ih (p.recordPaperStakeTick s.1 s.2)).trans rfl

theorem getLast?_paperStakeHistory (market : String) :
    (p.paperStakeHistory market none 1).getLast? = p.stakeTip (addrKey market) := by
  unfold paperStakeHistory stakeTip
  generalize (p.stakeHistory.lookup (addrKey market)).getD [] = ring
  have hlimit : min (max 1 1) paperStakeHistoryLimit = 1 := by decide
  rw [hlimit, List.getLast?_reverse, List.filter_eq_self.mpr (by simp)]
  cases ring using List.reverseRecOn with
  | nil => rfl
  | append_singleton ring last => simp

end Paper

/-! ## Runs -/

/-- A tick that was recorded, and what had been pushed to the stakers of its market then. -/
structure StakeSampled where
  lifetime : Nat
  market : String
  tick : PaperStakeTick

structure StakeSent where
  lifetime : Nat
  message : PaperStakeWsMessage

/-- The paper market of a process.  Beside it stand what was pushed to the stakers of each
market, the ticks recorded and the messages sent. -/
structure StakeRun where
  paper : Paper := {}
  pushed : List (String × Nat) := []
  ticks : List StakeSampled := []
  messages : List StakeSent := []

/-- An event, the flush at the end of a block, a request for the history or a subscription. -/
inductive StakeOp where
  | event (s : PaperStep)
  | flush (env : PaperEnv) (chain : PaperChain) (publish : Bool)
  | getStakeHistory (env : PaperEnv) (chain : PaperChain) (market : String)
  | subscribe (env : PaperEnv) (chain : StakeChain) (market address : String)

def SecondaryEvent.pushed : SecondaryEvent → Option (String × Nat)
  | .paperFeesPushed market stakerFee sweptStakers _ =>
      some (addrKey market, stakerFee.toNat + sweptStakers.toNat)
  | _ => none

namespace StakeRun

/-- A process that starts with the house rings that it finds in its table. -/
def start (history : List (String × List PaperHouseHistoryRow)) : StakeRun where
  paper := ({} : Paper).hydratePaperHouseHistory history

def lifetime (r : StakeRun) (key : String) : Nat :=
  ((r.pushed.filter fun push => push.1 = key).map Prod.snd).sum

def tip (r : StakeRun) (key : String) : Option StakeSampled :=
  (r.ticks.filter fun t => addrKey t.market = key).getLast?

def sentBy (r : StakeRun) : PaperWsMessage → Option StakeSent
  | .stake market tick => some ⟨r.lifetime (addrKey market), stakeTickMessage market tick⟩
  | .house _ _ _ => none

def flush (env : PaperEnv) (chain : PaperChain) (publish : Bool) (r : StakeRun) : StakeRun :=
  let flushed := Paper.flushPaperStakeHistory env chain publish (r.paper, [])
  { r with
    paper := flushed.1
    ticks := r.ticks ++ (r.paper.stakeSamples env chain).map fun s =>
      ⟨r.lifetime (addrKey s.1), s.1, s.2⟩
    messages := r.messages ++ flushed.2.filterMap r.sentBy }

def step (r : StakeRun) : StakeOp → StakeRun
  | .event s => { r with paper := r.paper.step s, pushed := r.pushed ++ s.event.pushed.toList }
  | .flush env chain publish => r.flush env chain publish
  | .getStakeHistory env chain market =>
      let market := Text.trim market
      if market = "" ∨ env.sdk.parseTokenContract market = none then r
      else ({ r with paper := r.paper.markPaperStakeDirty market }).flush env chain false
  | .subscribe env chain market address =>
      if Text.trim market = "" ∨ Text.trim address = "" then r
      else
        match r.paper.paperStakeWs env chain market address with
        | none => r
        | some message =>
            let sampled := ((r.tip (addrKey market)).map StakeSampled.lifetime).getD
              (r.lifetime (addrKey market))
            { r with messages := r.messages ++ [⟨sampled, message⟩] }

/-- Every tick and every message shows what had been pushed as its revenue and as its reward,
and the messages of a market do not go down. -/
structure OneNumber (r : StakeRun) : Prop where
  ticks : ∀ t ∈ r.ticks,
    t.tick.stakingRevenue.toNat = t.lifetime ∧ t.tick.totalStakingReward.toNat = t.lifetime
  messages : ∀ m ∈ r.messages, m.message.stakingRevenueRaw.toNat = m.lifetime ∧
    m.message.totalStakingRewardRaw.toNat = m.lifetime
  rising : r.messages.Pairwise fun a b => addrKey a.message.market = addrKey b.message.market →
    a.message.stakingRevenueRaw ≤ b.message.stakingRevenueRaw

/-- What is pushed stays a number of 64 bits, and a subscriber finds a tick of its market or
a pool on the chain that no claim has taken from. -/
def Sound (r : StakeRun) : StakeOp → Prop
  | .event s => ∀ push ∈ s.event.pushed, r.lifetime push.1 + push.2 < 2 ^ 64
  | .flush _ _ _ => True
  | .getStakeHistory _ _ _ => True
  | .subscribe env chain market address =>
      (r.paper.stakeHistory.lookup (addrKey market)).getD [] ≠ [] ∨
        ∀ paperMarket user, env.sdk.parseTokenContract (Text.trim market) = some paperMarket →
          env.sdk.addressFromStr (Text.trim address) = some user →
            ((chain.getPaperStake user paperMarket).getD {}).rewardPool.toNat =
              r.lifetime (addrKey market)

/-! ## The invariant -/

/-- What a new subscriber of the market is shown at least. -/
def floor (r : StakeRun) (key : String) : Nat :=
  ((r.tip key).map StakeSampled.lifetime).getD (r.lifetime key)

/-- The totals are what was pushed, the newest ticks are those recorded last, and no message
shows more than a new subscriber is shown. -/
structure Steady (r : StakeRun) : Prop where
  totals : ∀ key, ((r.paper.totalStakerRewards.lookup key).getD 0).toNat = r.lifetime key
  tips : ∀ key, r.paper.stakeTip key = (r.tip key).map StakeSampled.tick
  below : ∀ t ∈ r.ticks, t.lifetime ≤ r.lifetime (addrKey t.market)
  shown : ∀ m ∈ r.messages, m.lifetime ≤ r.floor (addrKey m.message.market)
  one : r.OneNumber

variable {r : StakeRun}

theorem mem_of_tip {key : String} {t : StakeSampled} (h : r.tip key = some t) :
    t ∈ r.ticks ∧ addrKey t.market = key := by
  have hmem := List.mem_of_getLast? h
  rw [List.mem_filter] at hmem
  exact ⟨hmem.1, of_decide_eq_true hmem.2⟩

theorem Steady.floor_le (h : r.Steady) (key : String) : r.floor key ≤ r.lifetime key := by
  unfold floor
  cases htip : r.tip key with
  | none => exact le_refl _
  | some t =>
      obtain ⟨ht, hkey⟩ := mem_of_tip htip
      have hbelow := h.below t ht
      rwa [hkey] at hbelow

theorem steady_start (history : List (String × List PaperHouseHistoryRow)) :
    (start history).Steady where
  totals := by
    intro key
    have hempty : (start history).paper.totalStakerRewards = ∅ :=
      (Paper.stakes_hydratePaperHouseHistory {} history).1
    rw [hempty, AList.lookup_empty]
    rfl
  tips := by
    intro key
    have hempty : (start history).paper.stakeHistory = ∅ :=
      (Paper.stakes_hydratePaperHouseHistory {} history).2
    unfold Paper.stakeTip
    rw [hempty, AList.lookup_empty]
    rfl
  below := fun t ht => absurd ht List.not_mem_nil
  shown := fun m hm => absurd hm List.not_mem_nil
  one :=
    { ticks := fun t ht => absurd ht List.not_mem_nil
      messages := fun m hm => absurd hm List.not_mem_nil
      rising := List.Pairwise.nil }

/-! ## Events -/

theorem lifetime_event (s : PaperStep) (key : String) :
    (r.step (.event s)).lifetime key =
      r.lifetime key + (s.event.pushed.elim 0 fun push => if push.1 = key then push.2 else 0) := by
  change (((r.pushed ++ s.event.pushed.toList).filter fun push => push.1 = key).map
    Prod.snd).sum = _
  rw [List.filter_append, List.map_append, List.sum_append]
  congr 1
  cases s.event.pushed with
  | none => rfl
  | some push =>
      by_cases hkey : push.1 = key
      · simp [hkey]
      · simp [hkey]

theorem totals_applyPaperFeesPushedRewards (h : r.Steady) (market : String)
    (stakerFee swept : UInt64)
    (hfits : r.lifetime (addrKey market) + (stakerFee.toNat + swept.toNat) < 2 ^ 64)
    (key : String) :
    (((r.paper.applyPaperFeesPushedRewards market stakerFee swept).totalStakerRewards.lookup
        key).getD 0).toNat =
      r.lifetime key + if addrKey market = key then stakerFee.toNat + swept.toNat else 0 := by
  have hadd : (Word.satAdd stakerFee swept).toNat = stakerFee.toNat + swept.toNat := by
    rw [Word.toNat_satAdd]
    unfold Word.u64Max
    omega
  have htotal := h.totals key
  unfold Paper.applyPaperFeesPushedRewards
  dsimp only
  split_ifs with hzero hkey hkey
  · rw [hzero, UInt64.toNat_zero] at hadd
    omega
  · omega
  · -- the total of the market is moved
    subst hkey
    dsimp only
    unfold addTotal
    rw [AList.lookup_insert, Option.getD_some]
    cases hlookup : r.paper.totalStakerRewards.lookup (addrKey market) with
    | none =>
        rw [hlookup, Option.getD_none, UInt64.toNat_zero] at htotal
        dsimp only
        omega
    | some total =>
        rw [hlookup, Option.getD_some] at htotal
        dsimp only
        rw [Word.toNat_satAdd]
        unfold Word.u64Max
        omega
  · have hne : ¬key = addrKey market := fun heq => hkey heq.symm
    dsimp only
    unfold addTotal
    rw [AList.lookup_insert_ne hne]
    omega

/-- An event moves the totals with what it pushes, and nothing that was shown. -/
theorem steady_event (h : r.Steady) (s : PaperStep)
    (hsound : ∀ push ∈ s.event.pushed, r.lifetime push.1 + push.2 < 2 ^ 64) :
    (r.step (.event s)).Steady := by
  obtain ⟨hrewards, hhistory⟩ := Paper.stakes_applySecondaryEvent s.env r.paper s.event
  have hlifetime : ∀ key, r.lifetime key ≤ (r.step (.event s)).lifetime key := by
    intro key
    rw [lifetime_event]
    exact Nat.le_add_right _ _
  have htip : ∀ key, (r.step (.event s)).tip key = r.tip key := fun key => rfl
  refine ⟨?_, ?_, ?_, ?_, ?_⟩
  · intro key
    change (((r.paper.step s).totalStakerRewards.lookup key).getD 0).toNat = _
    rw [Paper.step, hrewards, lifetime_event]
    cases hevent : s.event with
    | paperFeesPushed market stakerFee swept house =>
        have hfits := hsound (addrKey market, stakerFee.toNat + swept.toNat) (by rw [hevent]; rfl)
        simp only [SecondaryEvent.pushed, Option.elim_some]
        exact totals_applyPaperFeesPushedRewards h market stakerFee swept hfits key
    | _ =>
        simp only [SecondaryEvent.pushed, Option.elim_none, Nat.add_zero]
        exact h.totals key
  · intro key
    rw [htip, ← h.tips key]
    change (r.paper.step s).stakeTip key = _
    unfold Paper.stakeTip
    rw [Paper.step, hhistory]
  · intro t ht
    exact (h.below t ht).trans (hlifetime _)
  · intro m hm
    refine (h.shown m hm).trans ?_
    unfold floor
    rw [htip]
    cases r.tip (addrKey m.message.market) with
    | none => exact hlifetime _
    | some t => exact le_refl _
  · exact ⟨h.one.ticks, h.one.messages, h.one.rising⟩

/-! ## Flushes -/

variable (r) in
def sentSamples (env : PaperEnv) (chain : PaperChain) (publish : Bool) : List StakeSent :=
  if publish then
    (r.paper.stakeSamples env chain).map fun s =>
      ⟨r.lifetime (addrKey s.1), stakeTickMessage s.1 s.2⟩
  else []

theorem flush_eq (env : PaperEnv) (chain : PaperChain) (publish : Bool) :
    r.flush env chain publish =
      { r with
        paper := ({ r.paper with stakeDirty := ∅ } : Paper).recordSamples
          (r.paper.stakeSamples env chain)
        ticks := r.ticks ++ (r.paper.stakeSamples env chain).map fun s =>
          ⟨r.lifetime (addrKey s.1), s.1, s.2⟩
        messages := r.messages ++ r.sentSamples env chain publish } := by
  unfold flush sentSamples
  rw [Paper.flushPaperStakeHistory_eq]
  cases publish with
  | false => rfl
  | true =>
      dsimp only
      rw [if_pos rfl, if_pos rfl, List.filterMap_map]
      congr 2
      exact congrFun List.filterMap_eq_map _

theorem sampled_values (h : r.Steady) {env : PaperEnv} {chain : PaperChain}
    {s : String × PaperStakeTick} (hs : s ∈ r.paper.stakeSamples env chain) :
    s.2.stakingRevenue.toNat = r.lifetime (addrKey s.1) ∧
      s.2.totalStakingReward.toNat = r.lifetime (addrKey s.1) := by
  obtain ⟨market, -, hsome⟩ := List.mem_filterMap.mp hs
  obtain ⟨paperMarket, -, rfl⟩ := Option.map_eq_some_iff.mp hsome
  exact ⟨h.totals (addrKey market), h.totals (addrKey market)⟩

theorem lifetime_flush (env : PaperEnv) (chain : PaperChain) (publish : Bool) (key : String) :
    (r.flush env chain publish).lifetime key = r.lifetime key := by
  rw [flush_eq]
  unfold lifetime
  dsimp only

theorem tip_flush (env : PaperEnv) (chain : PaperChain) (publish : Bool) (key : String) :
    (r.flush env chain publish).tip key =
      (((r.paper.stakeSamples env chain).filter fun s => addrKey s.1 = key).getLast?.map fun s =>
        (⟨r.lifetime (addrKey s.1), s.1, s.2⟩ : StakeSampled)).or (r.tip key) := by
  rw [flush_eq]
  unfold tip
  dsimp only
  simp only [List.filter_append, List.getLast?_append, List.filter_map, List.getLast?_map,
    Function.comp_def]

/-- A flush shows a market all that was pushed, or leaves what it is shown. -/
theorem floor_flush (env : PaperEnv) (chain : PaperChain) (publish : Bool) (key : String) :
    (r.flush env chain publish).floor key =
      if ∃ s ∈ r.paper.stakeSamples env chain, addrKey s.1 = key then r.lifetime key
      else r.floor key := by
  unfold floor
  rw [tip_flush, lifetime_flush]
  generalize Paper.stakeSamples env r.paper chain = samples
  cases hlast : (samples.filter fun s => addrKey s.1 = key).getLast? with
  | none =>
      have hnone : ¬∃ s ∈ samples, addrKey s.1 = key := by
        rintro ⟨s, hs, hkey⟩
        have hnil := List.filter_eq_nil_iff.mp (List.getLast?_eq_none_iff.mp hlast) s hs
        exact hnil (decide_eq_true hkey)
      rw [if_neg hnone, Option.map_none, Option.none_or]
  | some s =>
      obtain ⟨hs, hdecide⟩ := List.mem_filter.mp (List.mem_of_getLast? hlast)
      have hkey : addrKey s.1 = key := of_decide_eq_true hdecide
      rw [if_pos ⟨s, hs, hkey⟩, Option.map_some, Option.some_or, Option.map_some,
        Option.getD_some, hkey]

theorem steady_flush (h : r.Steady) (env : PaperEnv) (chain : PaperChain) (publish : Bool) :
    (r.flush env chain publish).Steady := by
  have hfloor : ∀ key, r.floor key ≤ (r.flush env chain publish).floor key := by
    intro key
    rw [floor_flush]
    split_ifs
    · exact h.floor_le key
    · exact le_refl _
  have hsent : ∀ m ∈ r.sentSamples env chain publish, ∃ s ∈ r.paper.stakeSamples env chain,
      m = ⟨r.lifetime (addrKey s.1), stakeTickMessage s.1 s.2⟩ := by
    intro m hm
    unfold sentSamples at hm
    split_ifs at hm
    · obtain ⟨s, hs, rfl⟩ := List.mem_map.mp hm
      exact ⟨s, hs, rfl⟩
    · exact absurd hm List.not_mem_nil
  have hticks : ∀ t ∈ (r.flush env chain publish).ticks, t ∈ r.ticks ∨
      ∃ s ∈ r.paper.stakeSamples env chain, t = ⟨r.lifetime (addrKey s.1), s.1, s.2⟩ := by
    intro t ht
    rw [flush_eq] at ht
    rcases List.mem_append.mp ht with hold | hnew
    · exact Or.inl hold
    · obtain ⟨s, hs, rfl⟩ := List.mem_map.mp hnew
      exact Or.inr ⟨s, hs, rfl⟩
  have hmessages : ∀ m ∈ (r.flush env chain publish).messages, m ∈ r.messages ∨
      m ∈ r.sentSamples env chain publish := by
    intro m hm
    rw [flush_eq] at hm
    exact List.mem_append.mp hm
  refine ⟨?_, ?_, ?_, ?_, ?_, ?_, ?_⟩
  · intro key
    rw [flush_eq]
    dsimp only
    rw [Paper.totalStakerRewards_recordSamples]
    exact h.totals key
  · intro key
    rw [tip_flush, flush_eq]
    dsimp only
    rw [Paper.stakeTip_recordSamples, Option.map_or, Option.map_map]
    exact congrArg _ (h.tips key)
  · intro t ht
    rw [lifetime_flush]
    rcases hticks t ht with hold | ⟨s, hs, rfl⟩
    · exact h.below t hold
    · exact le_refl _
  · intro m hm
    rcases hmessages m hm with hold | hnew
    · exact (h.shown m hold).trans (hfloor _)
    · obtain ⟨s, hs, rfl⟩ := hsent m hnew
      have hkey : addrKey (stakeTickMessage s.1 s.2).market = addrKey s.1 := rfl
      rw [hkey, floor_flush, if_pos ⟨s, hs, rfl⟩]
  · intro t ht
    rcases hticks t ht with hold | ⟨s, hs, rfl⟩
    · exact h.one.ticks t hold
    · exact sampled_values h hs
  · intro m hm
    rcases hmessages m hm with hold | hnew
    · exact h.one.messages m hold
    · obtain ⟨s, hs, rfl⟩ := hsent m hnew
      exact sampled_values h hs
  · rw [flush_eq]
    dsimp only
    rw [List.pairwise_append]
    refine ⟨h.one.rising, ?_, ?_⟩
    · -- the samples of one flush are of one moment
      refine List.pairwise_of_forall_mem_list fun a ha b hb hkey => ?_
      obtain ⟨s, hs, rfl⟩ := hsent a ha
      obtain ⟨s', hs', rfl⟩ := hsent b hb
      have hkeys : addrKey s.1 = addrKey s'.1 := hkey
      refine UInt64.le_iff_toNat_le.mpr (le_of_eq ?_)
      exact (sampled_values h hs).1.trans ((congrArg r.lifetime hkeys).trans
        (sampled_values h hs').1.symm)
    · intro a ha b hb hkey
      obtain ⟨s, hs, rfl⟩ := hsent b hb
      have hkeys : addrKey a.message.market = addrKey s.1 := hkey
      have hshown := (h.shown a ha).trans (h.floor_le _)
      rw [hkeys] at hshown
      refine UInt64.le_iff_toNat_le.mpr ?_
      rw [(h.one.messages a ha).1]
      exact hshown.trans (le_of_eq (sampled_values h hs).1.symm)

theorem steady_mark (h : r.Steady) (market : String) :
    ({ r with paper := r.paper.markPaperStakeDirty market } : StakeRun).Steady where
  totals := by
    intro key
    dsimp only
    rw [(Paper.stakes_markPaperStakeDirty r.paper market).1]
    have htotals := h.totals key
    unfold lifetime at htotals ⊢
    exact htotals
  tips := by
    intro key
    have htips := h.tips key
    unfold Paper.stakeTip tip at htips ⊢
    dsimp only
    rw [(Paper.stakes_markPaperStakeDirty r.paper market).2]
    exact htips
  below := by
    intro t ht
    have hbelow := h.below t ht
    unfold lifetime at hbelow ⊢
    exact hbelow
  shown := by
    intro m hm
    have hshown := h.shown m hm
    unfold floor tip lifetime at hshown ⊢
    exact hshown
  one := ⟨h.one.ticks, h.one.messages, h.one.rising⟩

/-! ## Subscriptions -/

theorem of_paperStakeView {sdk : Sdk} {chain : StakeChain} {market address : String} {p : Paper}
    {view : PaperStakeView} (h : p.paperStakeView sdk chain market address = some view) :
    ∃ paperMarket user, sdk.parseTokenContract (Text.trim market) = some paperMarket ∧
      sdk.addressFromStr (Text.trim address) = some user ∧
      view.market = Text.trim market ∧
      view.rewardPoolRaw = ((chain.getPaperStake user paperMarket).getD {}).rewardPool ∧
      view.totalStakerRewardsRaw = p.paperTotalStakerRewards (Text.trim market) := by
  unfold Paper.paperStakeView at h
  dsimp only at h
  split_ifs at h
  simp only [Option.bind_eq_bind, Option.bind_eq_some_iff, Option.pure_def,
    Option.some.injEq] at h
  obtain ⟨paperMarket, hmarket, user, huser, rfl⟩ := h
  exact ⟨paperMarket, user, hmarket, huser, rfl, rfl, rfl⟩

theorem addrKey_trim (market : String) : addrKey (Text.trim market) = addrKey market := by
  unfold addrKey
  rw [Text.trim_trim]

theorem subscribed_values (h : r.Steady) {env : PaperEnv} {chain : StakeChain}
    {market address : String} {message : PaperStakeWsMessage}
    (hsound : r.Sound (.subscribe env chain market address))
    (hmessage : r.paper.paperStakeWs env chain market address = some message) :
    addrKey message.market = addrKey market ∧
      message.stakingRevenueRaw.toNat = r.floor (addrKey market) ∧
      message.totalStakingRewardRaw.toNat = r.floor (addrKey market) := by
  obtain ⟨view, hview, rfl⟩ := Option.map_eq_some_iff.mp hmessage
  obtain ⟨paperMarket, user, hparse, huser, hmarket, hpool, htotal⟩ := of_paperStakeView hview
  have hkey : addrKey view.market = addrKey market := by rw [hmarket, addrKey_trim]
  have htips := h.tips (addrKey market)
  rw [Paper.getLast?_paperStakeHistory]
  cases htip : r.tip (addrKey market) with
  | some t =>
      rw [htip] at htips
      have hfloor : r.floor (addrKey market) = t.lifetime := by
        unfold floor
        rw [htip]
        rfl
      obtain ⟨hrevenue, hreward⟩ := h.one.ticks t (mem_of_tip htip).1
      rw [htips, hfloor]
      exact ⟨hkey, hrevenue, hreward⟩
  | none =>
      rw [htip] at htips
      have hfloor : r.floor (addrKey market) = r.lifetime (addrKey market) := by
        unfold floor
        rw [htip]
        rfl
      have hring : (r.paper.stakeHistory.lookup (addrKey market)).getD [] = [] :=
        List.getLast?_eq_none_iff.mp htips
      have hpooled := (hsound.resolve_left fun hne => hne hring) paperMarket user hparse huser
      have htotals := h.totals (addrKey market)
      rw [htips, hfloor]
      refine ⟨hkey, ?_, ?_⟩
      · dsimp only [Option.map_none]
        rw [hpool]
        exact hpooled
      · dsimp only [Option.map_none]
        rw [htotal, Paper.paperTotalStakerRewards, addrKey_trim]
        exact htotals

theorem steady_subscribe (h : r.Steady) (env : PaperEnv) (chain : StakeChain)
    (market address : String) (hsound : r.Sound (.subscribe env chain market address)) :
    (r.step (.subscribe env chain market address)).Steady := by
  unfold step
  dsimp only
  split_ifs
  · exact h
  cases hmessage : r.paper.paperStakeWs env chain market address with
  | none => exact h
  | some message =>
      obtain ⟨hkey, hrevenue, hreward⟩ := subscribed_values h hsound hmessage
      refine ⟨h.totals, h.tips, h.below, ?_, h.one.ticks, ?_, ?_⟩
      · intro m hm
        rcases List.mem_append.mp hm with hold | hnew
        · exact h.shown m hold
        · rw [List.mem_singleton.mp hnew, hkey]
          exact le_refl _
      · intro m hm
        rcases List.mem_append.mp hm with hold | hnew
        · exact h.one.messages m hold
        · rw [List.mem_singleton.mp hnew]
          exact ⟨hrevenue, hreward⟩
      · refine List.pairwise_append.mpr ⟨h.one.rising, List.pairwise_singleton _ _, ?_⟩
        intro a ha b hb hsame
        rw [List.mem_singleton.mp hb] at hsame ⊢
        refine UInt64.le_iff_toNat_le.mpr ?_
        dsimp only at hsame ⊢
        rw [(h.one.messages a ha).1, hrevenue, ← hkey, ← hsame]
        exact h.shown a ha

theorem steady_step (h : r.Steady) (op : StakeOp) (hsound : r.Sound op) : (r.step op).Steady := by
  cases op with
  | event s => exact steady_event h s hsound
  | flush env chain publish => exact steady_flush h env chain publish
  | getStakeHistory env chain market =>
      unfold step
      dsimp only
      split_ifs
      · exact h
      · exact steady_flush (steady_mark h _) env chain false
  | subscribe env chain market address => exact steady_subscribe h env chain market address hsound

/-- Along every run of a process in which the pushes fit and no subscriber comes before the
first sample of its market, unless the pool of the chain is whole then, the revenue is one
number. -/
theorem oneNumber_of_run (history : List (String × List PaperHouseHistoryRow))
    (ops : List StakeOp) (hsound : Along step Sound ops (start history)) :
    Throughout step OneNumber ops (start history) := by
  have hsteady : Throughout step Steady ops (start history) :=
    throughout_of_along (fun r op h hop => steady_step h op hop) (steady_start history) hsound
  exact hsteady.mono fun r h => h.one

end StakeRun

namespace Sample

def pooledChain : StakeChain where
  getPaperMarket _ := none
  getBalance _ _ := none
  getTokenInfo _ _ := none
  getPaperLp _ := none
  getPaperStake _ _ := some { rewardPool := 5 }

def silentChain : PaperChain := ⟨fun _ => none, fun _ => none⟩

def sampledRun : List StakeOp :=
  [.event ⟨paperEnv, .paperFeesPushed paperMarket 3 4 {}⟩, .flush paperEnv silentChain true,
    .subscribe paperEnv pooledChain paperMarket account]

theorem oneNumber_sampledRun :
    Throughout StakeRun.step StakeRun.OneNumber sampledRun (StakeRun.start []) :=
  StakeRun.oneNumber_of_run [] sampledRun
    ⟨by
      intro push hpush
      rw [← Option.some.inj hpush]
      decide, trivial, Or.inl (by decide +kernel), trivial⟩

/-- A subscriber that comes first is shown the pool. -/
theorem earlySubscriber_pool :
    ¬Throughout StakeRun.step StakeRun.OneNumber
      [.subscribe paperEnv pooledChain paperMarket account] (StakeRun.start []) := by
  intro h
  have hshown : ((StakeRun.start []).step (.subscribe paperEnv pooledChain paperMarket
      account)).messages.map (fun m => (m.lifetime, m.message.stakingRevenueRaw.toNat)) =
        [(0, 5)] := by
    decide +kernel
  have hone := h.finish.messages
  obtain ⟨m, hm, heq⟩ := List.mem_map.mp (hshown ▸ List.mem_singleton_self (0, 5))
  have hrevenue := (hone m hm).1
  rw [Prod.mk.injEq] at heq
  omega

end Sample

end ClobIndexer
