import ClobIndexer.Events
import ClobIndexer.Lib.Ring
/-!
# Oracle marks and the paper market

The part of `IndexState` that no index-state table holds: oracle marks, and the
open positions, open interest, house, payout queue, staking totals and activity of
the paper markets, with their rings of samples.  It is fed by events that the
serial stage handles, and by two flushes at the end of a block that sample the
markets marked dirty.  Rows for the history lane are collected, oldest first; of
the messages only those that the flushes gate are kept.
-/

namespace ClobIndexer

open Lib

def oracleHistoryLimit : Nat := 3600

def paperOiHistoryLimit : Nat := 3600

def paperHouseHistoryLimit : Nat := 3600

def paperStakeHistoryLimit : Nat := 3600

def paperActivityLimit : Nat := 120

/-- `from_ms.map(|f| ts_ms >= f).unwrap_or(true)`, the filter of the history queries. -/
def atOrAfter (fromMs : Option UInt64) (tsMs : UInt64) : Bool :=
  (fromMs.map fun f => decide (f ≤ tsMs)).getD true

@[simp] theorem atOrAfter_iff {fromMs : Option UInt64} {tsMs : UInt64} :
    atOrAfter fromMs tsMs = true ↔ ∀ f ∈ fromMs, f ≤ tsMs := by
  cases fromMs with
  | none => simp [atOrAfter]
  | some f => simp [atOrAfter]

/-! ## Records -/

structure OracleMark where
  spotMarket : String
  round : UInt64
  oraclePrice : UInt64
  markPrice : UInt64
  blockNum : UInt64
  tsMs : UInt64
deriving DecidableEq

structure OracleMarkTick where
  tsMs : UInt64
  round : UInt64
  oraclePrice : UInt64
  markPrice : UInt64
  blockNum : UInt64
deriving DecidableEq

structure PaperInstrumentMeta where
  name : String
  priceMarket : String
deriving DecidableEq

structure PaperInstrumentOi where
  long : UInt64 := 0
  short : UInt64 := 0
deriving DecidableEq

structure PaperOiTick where
  tsMs : UInt64
  long : UInt64
  short : UInt64
deriving DecidableEq

structure PaperHouseTick where
  tsMs : UInt64
  houseFunds : Int
  lpBalance : UInt64
  openHousePnl : Int64
  queueDebt : UInt64
deriving DecidableEq

structure PaperStakeTick where
  tsMs : UInt64
  stakingRevenue : UInt64
  totalPaperSupply : UInt64
  totalStakingReward : UInt64
deriving DecidableEq

structure PaperQueueClaim where
  market : String
  index : UInt64
  user : String
  amount : UInt64
  queuedAtMs : UInt64
deriving DecidableEq

structure PaperPositionOpen where
  market : String
  position : UInt64
  owner : String
  instrument : UInt32
  isLong : Bool
  margin : String
  notional : String
  entryPrice : String
  bustPrice : String
  marginRaw : UInt64
  notionalRaw : UInt64
  entryPriceRaw : UInt64
  bustPriceRaw : UInt64
  fundedFromQueued : Bool
  openedBlock : UInt64
deriving DecidableEq

inductive PaperCloseKind where
  | closed
  | liquidated
deriving DecidableEq

structure PaperPositionHistory where
  market : String
  position : UInt64
  owner : String
  instrument : UInt32
  isLong : Bool
  margin : String
  notional : String
  entryPrice : String
  bustPrice : String
  exitPrice : String
  pnl : String
  fee : String
  payout : String
  queued : String
  minted : String
  kind : PaperCloseKind
  liquidator : Option String
  openedBlock : UInt64
  closedBlock : UInt64
deriving DecidableEq

structure PaperActivityItem where
  kind : String
  market : String
  user : String
  amount : String
  amountRaw : UInt64
  pnl : Option String
  pnlRaw : Option Int64
  position : Option UInt64
  blockNum : UInt64
  tsMs : UInt64
deriving DecidableEq

structure PaperInstrumentExposure where
  instrument : UInt32
  name : String
  long : String
  longRaw : UInt64
  short : String
  shortRaw : UInt64
  net : String
  netRaw : Int
deriving DecidableEq

/-- The numbers of the house view and the exposures.  Its other texts are these numbers
formatted; the summary of the queue, which only messages carry, is left out. -/
structure PaperHouseView where
  market : String
  house : PaperHouseAfter
  openInterestRaw : UInt64
  openMarginRaw : UInt64
  openPositions : UInt32
  instruments : List PaperInstrumentExposure
  lpBalanceRaw : UInt64
  openHousePnlRaw : Int64
  queueDebtRaw : UInt64
  houseFundsRaw : Int
  volumeRaw : UInt64
deriving DecidableEq

structure PaperHouseHistoryRow where
  market : String
  tsMs : UInt64
  houseFundsRaw : Int
  lpBalanceRaw : UInt64
  openHousePnlRaw : Int64
  queueDebtRaw : UInt64
deriving DecidableEq

inductive PaperWsMessage where
  | house (market : String) (tsMs : UInt64) (view : PaperHouseView)
  | stake (market : String) (tick : PaperStakeTick)
deriving DecidableEq

structure Paper where
  oracleMarks : Dict String OracleMark := ∅
  oracleHistory : Dict String (List OracleMarkTick) := ∅
  positionsOpen : Dict String PaperPositionOpen := ∅
  house : Dict String PaperHouseAfter := ∅
  houseDirty : KeySet String := ∅
  instruments : Dict String PaperInstrumentMeta := ∅
  oi : Dict String PaperInstrumentOi := ∅
  oiHistory : Dict String (List PaperOiTick) := ∅
  houseHistory : Dict String (List PaperHouseTick) := ∅
  queueOpen : Dict String PaperQueueClaim := ∅
  volume : Dict String UInt64 := ∅
  totalStakerRewards : Dict String UInt64 := ∅
  rewardsClaimed : Dict String UInt64 := ∅
  activity : List PaperActivityItem := []
  stakeDirty : KeySet String := ∅
  stakeHistory : Dict String (List PaperStakeTick) := ∅
  /-- rows handed to the history lane -/
  positionRows : List PaperPositionHistory := []
  houseRows : List PaperHouseHistoryRow := []
deriving DecidableEq

/-! ## Texts and keys -/

def formatOracleHuman (raw : UInt64) : String :=
  let whole := raw.toNat / tokenScale
  let frac := raw.toNat % tokenScale
  if frac = 0 then Nat.repr whole
  else Nat.repr whole ++ "." ++ Text.trimEndMatches '0' (Text.padZeros 6 frac)

def formatI64Token (raw : Int64) : String :=
  (if raw < 0 then "-" else "") ++ formatTokenAmount (UInt64.ofNat raw.toInt.natAbs)

def formatI128Token (raw : Int) : String :=
  let sign := if raw < 0 then "-" else ""
  let whole := raw.natAbs / tokenScale
  let frac := raw.natAbs % tokenScale
  if frac = 0 then sign ++ Nat.repr whole
  else sign ++ Nat.repr whole ++ "." ++ Text.padZeros 6 frac

def paperInstrKey (market : String) (instrument : UInt32) : String :=
  addrKey market ++ ":" ++ Nat.repr instrument.toNat

def paperPositionKey (market : String) (position : UInt64) : String :=
  addrKey market ++ ":" ++ Nat.repr position.toNat

def paperQueueKey (market : String) (index : UInt64) : String :=
  addrKey market ++ ":" ++ Nat.repr index.toNat

def paperRewardsClaimedKey (market user : String) : String :=
  addrKey market ++ ":" ++ addrKey user

def wrapI128 (x : Int) : Int := Int.bmod x (2 ^ 128)

def addTotal (key : String) (amount : UInt64) (totals : Dict String UInt64) : Dict String UInt64 :=
  totals.insert key
    (match totals.lookup key with
    | some total => Word.satAdd total amount
    | none => amount)

/-- What the handlers take from outside: the block's time, or the wall clock. -/
structure PaperEnv where
  sdk : Sdk
  blockNum : UInt64
  blockMs : UInt64
  nowMs : UInt64

def PaperEnv.stampMs (env : PaperEnv) : UInt64 := if env.blockMs = 0 then env.nowMs else env.blockMs

/-- The node's answers about paper markets and their tokens; `none` is an error. -/
structure PaperChain where
  /-- the token of a paper market, if it has one -/
  getPaperMarket : List UInt8 → Option (Option (List UInt8))
  /-- the total supply of a token -/
  getTokenInfo : List UInt8 → Option UInt64

namespace Paper

variable (env : PaperEnv)

/-! ## Dirty markets -/

def markPaperHouseDirty (market : String) (p : Paper) : Paper :=
  if addrKey market = "" then p
  else { p with houseDirty := p.houseDirty.insert (addrKey market) () }

def markPaperStakeDirty (market : String) (p : Paper) : Paper :=
  if addrKey market = "" then p
  else { p with stakeDirty := p.stakeDirty.insert (addrKey market) () }

def markPaperHouseDirtyForPriceMarket (priceMarket : String) (p : Paper) : Paper :=
  let priceKey := normalizeSpotMarketKey env.sdk priceMarket
  if priceKey = "" then p
  else
    p.instruments.entries.foldl
      (fun q e =>
        if e.2.priceMarket = priceKey then
          match Text.rsplitOnce ':' e.1 with
          | some (market, _) => q.markPaperHouseDirty market
          | none => q
        else q) p

theorem markPaperHouseDirty_eq (market : String) (p : Paper) :
    ∃ dirty, p.markPaperHouseDirty market = { p with houseDirty := dirty } := by
  unfold markPaperHouseDirty
  split_ifs
  · exact ⟨p.houseDirty, rfl⟩
  · exact ⟨_, rfl⟩

theorem markPaperHouseDirtyForPriceMarket_eq (priceMarket : String) (p : Paper) :
    ∃ dirty, p.markPaperHouseDirtyForPriceMarket env priceMarket = { p with houseDirty := dirty } := by
  unfold markPaperHouseDirtyForPriceMarket
  dsimp only
  split_ifs
  · exact ⟨p.houseDirty, rfl⟩
  · generalize p.instruments.entries = entries
    induction entries generalizing p with
    | nil => exact ⟨p.houseDirty, rfl⟩
    | cons e rest ih =>
        rw [List.foldl_cons]
        split_ifs
        · cases Text.rsplitOnce ':' e.1 with
          | none => exact ih p
          | some split =>
              obtain ⟨marked, hmarked⟩ := markPaperHouseDirty_eq split.1 p
              obtain ⟨dirty, hdirty⟩ := ih (p.markPaperHouseDirty split.1)
              refine ⟨dirty, hdirty.trans ?_⟩
              rw [hmarked]
        · exact ih p

def applyPaperHouseAfter (market : String) (house : PaperHouseAfter) (p : Paper) : Paper :=
  ({ p with house := p.house.insert (addrKey market) house }).markPaperHouseDirty market

/-! ## Oracle -/

def recordOracleMark (spotMarket : String) (e : OracleCommittedEvent) (p : Paper) : Paper :=
  let key := normalizeSpotMarketKey env.sdk spotMarket
  let tsMs := env.stampMs
  let tick : OracleMarkTick := ⟨tsMs, e.round, e.oraclePrice, e.markPrice, env.blockNum⟩
  let ring := Ring.push OracleMarkTick.tsMs oracleHistoryLimit tick
    ((p.oracleHistory.lookup key).getD [])
  ({ p with
    oracleHistory := p.oracleHistory.insert key ring
    oracleMarks := p.oracleMarks.insert key
      ⟨key, e.round, e.oraclePrice, e.markPrice, env.blockNum, tsMs⟩ }).markPaperHouseDirtyForPriceMarket
    env key

/-! ## Positions -/

def pushPaperOiHistory (market : String) (instrument : UInt32) (long short : UInt64) (p : Paper) :
    Paper :=
  let key := paperInstrKey market instrument
  let ring := Ring.push PaperOiTick.tsMs paperOiHistoryLimit ⟨env.stampMs, long, short⟩
    ((p.oiHistory.lookup key).getD [])
  { p with oiHistory := p.oiHistory.insert key ring }

def applyPaperOiDelta (market : String) (instrument : UInt32) (isLong isAdd : Bool)
    (notional : UInt64) (p : Paper) : Paper :=
  let key := paperInstrKey market instrument
  let entry := (p.oi.lookup key).getD {}
  let change (side : UInt64) : UInt64 :=
    if isAdd then Word.satAdd side notional else Word.satSub side notional
  let entry : PaperInstrumentOi :=
    if isLong then { entry with long := change entry.long }
    else { entry with short := change entry.short }
  ({ p with oi := p.oi.insert key entry }).pushPaperOiHistory env market instrument entry.long
    entry.short

def upsertPaperPositionOpen (row : PaperPositionOpen) (p : Paper) : Paper :=
  let p := p.applyPaperOiDelta env row.market row.instrument row.isLong true row.notionalRaw
  let p := { p with volume := addTotal (addrKey row.market) row.notionalRaw p.volume }
  let p := p.markPaperHouseDirty row.market
  let key := paperPositionKey row.market row.position
  { p with positionsOpen := p.positionsOpen.insert key row }

structure Closing where
  exitPrice : String
  fee : String
  payout : String
  queued : String
  minted : String
  pnl : String
  kind : PaperCloseKind
  liquidator : Option String
  knownMargin : Option UInt64

def unseenPosition (market : String) (position : UInt64) (owner : String) : PaperPositionOpen where
  market := market
  position := position
  owner := owner
  instrument := 0
  isLong := true
  margin := "0"
  notional := "0"
  entryPrice := "0"
  bustPrice := "0"
  marginRaw := 0
  notionalRaw := 0
  entryPriceRaw := 0
  bustPriceRaw := 0
  fundedFromQueued := false
  openedBlock := 0

def closePaperPosition (market : String) (position : UInt64) (ownerFallback : String)
    (closing : Closing) (p : Paper) : Paper :=
  let key := paperPositionKey market position
  let row := (p.positionsOpen.lookup key).getD (unseenPosition market position ownerFallback)
  let p :=
    match p.positionsOpen.lookup key with
    | some o =>
        ({ p with positionsOpen := p.positionsOpen.erase key }).applyPaperOiDelta env market
          o.instrument o.isLong false o.notionalRaw
    | none => p
  let margin :=
    match closing.knownMargin with
    | some raw => if raw = 0 then row.margin else formatTokenAmount raw
    | none => row.margin
  let p := p.markPaperHouseDirty market
  let hist : PaperPositionHistory :=
    { market := addrKey market
      position := position
      owner := userKey row.owner
      instrument := row.instrument
      isLong := row.isLong
      margin := margin
      notional := row.notional
      entryPrice := row.entryPrice
      bustPrice := row.bustPrice
      exitPrice := closing.exitPrice
      pnl := closing.pnl
      fee := closing.fee
      payout := closing.payout
      queued := closing.queued
      minted := closing.minted
      kind := closing.kind
      liquidator := closing.liquidator
      openedBlock := row.openedBlock
      closedBlock := env.blockNum }
  { p with positionRows := p.positionRows ++ [hist] }

/-- `push_paper_activity`, for an item without a time of its own. -/
def pushPaperActivity (kind market user : String) (amountRaw : UInt64) (pnlRaw : Option Int64)
    (position : Option UInt64) (p : Paper) : Paper :=
  let item : PaperActivityItem :=
    { kind := kind
      market := market
      user := user
      amount := formatTokenAmount amountRaw
      amountRaw := amountRaw
      pnl := pnlRaw.map formatI64Token
      pnlRaw := pnlRaw
      position := position
      blockNum := env.blockNum
      tsMs := env.stampMs }
  { p with activity := Ring.trim paperActivityLimit (p.activity ++ [item]) }

/-! ## Events -/

def indexPaperOpened (e : PaperOpenedEvent) (p : Paper) : Paper :=
  (p.applyPaperHouseAfter e.market e.house).upsertPaperPositionOpen env
    { market := e.market
      position := e.position
      owner := e.owner
      instrument := e.instrument
      isLong := e.isLong
      margin := formatTokenAmount e.margin
      notional := formatTokenAmount e.notional
      entryPrice := formatOracleHuman e.entryPrice
      bustPrice := formatOracleHuman e.bustPrice
      marginRaw := e.margin
      notionalRaw := e.notional
      entryPriceRaw := e.entryPrice
      bustPriceRaw := e.bustPrice
      fundedFromQueued := e.fundedFromQueued
      openedBlock := env.blockNum }

def indexPaperClosed (e : PaperClosedEvent) (p : Paper) : Paper :=
  let p := p.applyPaperHouseAfter e.market e.house
  let p := p.closePaperPosition env e.market e.position e.owner
    { exitPrice := formatOracleHuman e.exitPrice
      fee := formatTokenAmount e.fee
      payout := formatTokenAmount e.payout
      queued := formatTokenAmount e.queued
      minted := formatTokenAmount e.minted
      pnl := formatI64Token e.pnl
      kind := .closed
      liquidator := none
      knownMargin := none }
  -- a losing close, or one that mints
  let p :=
    if e.minted ≠ 0 ∨ e.pnl < 0 then
      p.pushPaperActivity env "close_loss" e.market e.owner e.minted (some e.pnl) (some e.position)
    else p
  if e.minted ≠ 0 then p.markPaperStakeDirty e.market else p

def indexPaperLiquidated (e : PaperLiquidatedEvent) (p : Paper) : Paper :=
  let loss : Int64 := -e.margin.toInt64
  let p := p.applyPaperHouseAfter e.market e.house
  let p := p.closePaperPosition env e.market e.position e.owner
    { exitPrice := formatOracleHuman e.exitPrice
      fee := "0"
      payout := "0"
      queued := "0"
      minted := formatTokenAmount e.minted
      pnl := formatI64Token loss
      kind := .liquidated
      liquidator := some e.liquidator
      knownMargin := some e.margin }
  let p := p.pushPaperActivity env "liquidated" e.market e.owner e.minted (some loss)
    (some e.position)
  p.markPaperStakeDirty e.market

def applyPaperQueued (market : String) (index : UInt64) (user : String) (amount : UInt64)
    (house : PaperHouseAfter) (p : Paper) : Paper :=
  let claim : PaperQueueClaim := ⟨market, index, userKey user, amount, env.stampMs⟩
  let queueOpen := p.queueOpen.insert (paperQueueKey market index) claim
  ({ p with queueOpen := queueOpen }).applyPaperHouseAfter market house

def applyPaperHarvested (market : String) (index : UInt64) (house : PaperHouseAfter) (p : Paper) :
    Paper :=
  ({ p with queueOpen := p.queueOpen.erase (paperQueueKey market index) }).applyPaperHouseAfter
    market house

def applyPaperFeesPushedRewards (market : String) (stakerFee swept : UInt64) (p : Paper) : Paper :=
  let add := Word.satAdd stakerFee swept
  if add = 0 then p
  else { p with totalStakerRewards := addTotal (addrKey market) add p.totalStakerRewards }

def applyPaperClaimedReward (market user : String) (reward : UInt64) (p : Paper) : Paper :=
  if reward = 0 then p
  else
    let key := paperRewardsClaimedKey market user
    { p with rewardsClaimed := addTotal key reward p.rewardsClaimed }

/-- The oracle and paper branches of `apply_global_event`. -/
def applySecondaryEvent (p : Paper) : SecondaryEvent → Paper
  | .oracleCommitted contract e =>
      let spotMarket := (contract.map (normalizeSpotMarketKey env.sdk)).getD ""
      if spotMarket = "" then p else p.recordOracleMark env spotMarket e
  | .paperInstrumentAdded market instrument name priceMarket =>
      let row : PaperInstrumentMeta := ⟨name, normalizeSpotMarketKey env.sdk priceMarket⟩
      { p with instruments := p.instruments.insert (paperInstrKey market instrument) row }
  | .paperOpened e => p.indexPaperOpened env e
  | .paperClosed e => p.indexPaperClosed env e
  | .paperLiquidated e => p.indexPaperLiquidated env e
  | .paperQueued market index user amount house =>
      p.applyPaperQueued env market index user amount house
  | .paperHarvested market index house => p.applyPaperHarvested market index house
  | .paperFeesPushed market stakerFee sweptStakers house =>
      ((p.applyPaperFeesPushedRewards market stakerFee sweptStakers).markPaperStakeDirty
        market).applyPaperHouseAfter market house
  | .paperClaimed market user reward =>
      (p.applyPaperClaimedReward market user reward).markPaperStakeDirty market
  | .paperStaked market user amount =>
      (p.pushPaperActivity env "staked" market user amount none none).markPaperStakeDirty market
  | .paperUnstaked market user amount =>
      (p.pushPaperActivity env "unstaked" market user amount none none).markPaperStakeDirty market

/-! ## The end of a block -/

def userPnl (p : Paper) (row : PaperPositionOpen) : Int :=
  let marked := do
    let instrument ← p.instruments.lookup (paperInstrKey row.market row.instrument)
    let mark ← p.oracleMarks.lookup instrument.priceMarket
    if mark.markPrice = 0 then none else some mark.markPrice
  let mark := marked.getD row.entryPriceRaw
  if row.entryPriceRaw = 0 then 0
  else
    let diff : Int := (mark.toNat : Int) - (row.entryPriceRaw.toNat : Int)
    let signed := if row.isLong then diff else -diff
    (wrapI128 ((row.notionalRaw.toNat : Int) * signed)).tdiv (row.entryPriceRaw.toNat : Int)

def instrumentOf (marketKey key : String) : Option UInt32 :=
  (Text.stripPrefix (marketKey ++ ":") key).bind Text.parseU32

def exposureOf (p : Paper) (marketKey : String)
    (e : Sigma fun _ : String => PaperInstrumentOi) : Option PaperInstrumentExposure :=
  match instrumentOf marketKey e.1 with
  | none => none
  | some instrument =>
      if e.2.long = 0 ∧ e.2.short = 0 then none
      else
        let net : Int := (e.2.long.toNat : Int) - (e.2.short.toNat : Int)
        some
          { instrument := instrument
            name := ((p.instruments.lookup e.1).map PaperInstrumentMeta.name).getD
              ("#" ++ Nat.repr instrument.toNat)
            long := formatTokenAmount e.2.long
            longRaw := e.2.long
            short := formatTokenAmount e.2.short
            shortRaw := e.2.short
            net := formatI128Token net
            netRaw := net }

/-- `x.clamp(i64::MIN, i64::MAX) as i64`. -/
def clampI64 (x : Int) : Int64 := Int64.ofInt (max (-2 ^ 63) (min (2 ^ 63 - 1) x))

def paperHouseView (market : String) (p : Paper) : PaperHouseView :=
  let marketKey := addrKey market
  let house := (p.house.lookup marketKey).getD {}
  let rows := (p.positionsOpen.entries.map (·.2)).filter fun row => addrKey row.market = marketKey
  let openHousePnl := rows.foldl (fun sum row => wrapI128 (sum - p.userPnl row)) 0
  let exposures := p.oi.entries.filterMap (p.exposureOf marketKey)
  let lpBalance := Word.satAdd (Word.satAdd house.freeCash house.sideBucket) house.buybackCash
  { market := market
    house := house
    openInterestRaw :=
      exposures.foldl (fun sum x => Word.satAdd (Word.satAdd sum x.longRaw) x.shortRaw) 0
    openMarginRaw := rows.foldl (fun sum row => Word.satAdd sum row.marginRaw) 0
    openPositions := rows.foldl (fun n _ => n + 1) 0
    instruments := exposures.mergeSort fun x y => x.instrument ≤ y.instrument
    lpBalanceRaw := lpBalance
    openHousePnlRaw := clampI64 openHousePnl
    queueDebtRaw := house.totalQueued
    houseFundsRaw :=
      wrapI128 ((lpBalance.toNat : Int) + openHousePnl - (house.totalQueued.toNat : Int))
    volumeRaw := (p.volume.lookup marketKey).getD 0 }

def pushPaperHouseHistory (market : String) (tsMs : UInt64) (view : PaperHouseView) (p : Paper) :
    Paper :=
  let key := addrKey market
  if key = "" then p
  else
    let tick : PaperHouseTick :=
      ⟨tsMs, view.houseFundsRaw, view.lpBalanceRaw, view.openHousePnlRaw, view.queueDebtRaw⟩
    { p with
      houseHistory := p.houseHistory.insert key
        (Ring.push PaperHouseTick.tsMs paperHouseHistoryLimit tick
          ((p.houseHistory.lookup key).getD []))
      houseRows := p.houseRows ++
        [⟨market, tsMs, view.houseFundsRaw, view.lpBalanceRaw, view.openHousePnlRaw,
          view.queueDebtRaw⟩] }

/-- `flush_paper_house_ws`: sample the dirty houses; the flag gates the messages. -/
def flushPaperHouseWs (publish : Bool) (s : Paper × List PaperWsMessage) :
    Paper × List PaperWsMessage :=
  let tsMs := env.stampMs
  s.1.houseDirty.keys.foldl
    (fun s market =>
      let view := s.1.paperHouseView market
      let p := s.1.pushPaperHouseHistory market tsMs view
      if publish then (p, s.2 ++ [.house market tsMs view]) else (p, s.2))
    ({ s.1 with houseDirty := ∅ }, s.2)

/-- `record_paper_stake_tick`: a sample that replaces the newest one trims nothing. -/
def recordPaperStakeTick (market : String) (tick : PaperStakeTick) (p : Paper) : Paper :=
  let key := addrKey market
  let ring := (p.stakeHistory.lookup key).getD []
  let ring :=
    if ring.getLast?.map PaperStakeTick.tsMs = some tick.tsMs then
      Ring.record PaperStakeTick.tsMs tick ring
    else Ring.push PaperStakeTick.tsMs paperStakeHistoryLimit tick ring
  { p with stakeHistory := p.stakeHistory.insert key ring }

/-- The supply that a stake sample shows; zero when the node does not tell. -/
def paperSupply (chain : PaperChain) (paperMarket : List UInt8) : UInt64 :=
  match (chain.getPaperMarket paperMarket).getD none with
  | some token => (chain.getTokenInfo token).getD 0
  | none => 0

/-- `flush_paper_stake_history`: sample the dirty stakes; the flag gates the messages. -/
def flushPaperStakeHistory (chain : PaperChain) (publish : Bool) (s : Paper × List PaperWsMessage) :
    Paper × List PaperWsMessage :=
  s.1.stakeDirty.keys.foldl
    (fun s market =>
      match env.sdk.parseTokenContract market with
      | none => s
      | some paperMarket =>
          let reward := (s.1.totalStakerRewards.lookup (addrKey market)).getD 0
          let tick : PaperStakeTick :=
            ⟨env.stampMs, reward, paperSupply chain paperMarket, reward⟩
          let p := s.1.recordPaperStakeTick market tick
          if publish then (p, s.2 ++ [.stake market tick]) else (p, s.2))
    ({ s.1 with stakeDirty := ∅ }, s.2)

end Paper

end ClobIndexer
