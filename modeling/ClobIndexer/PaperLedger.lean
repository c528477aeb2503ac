import ClobIndexer.HexSdk
import ClobIndexer.Lib.Runs
import ClobIndexer.Paper
/-!
# Open interest

What is open is said by the events: a position is open from `paper_opened` until it is
closed or liquidated.  The index keeps the rows of the open positions under one key,
and the interest of each instrument, by deltas, under another; both follow the events.
-/

namespace ClobIndexer

open Lib

structure OpenedPosition where
  event : PaperOpenedEvent
  blockNum : UInt64

/-- The open positions, by market and number. -/
abbrev PaperLedger := Dict (String × UInt64) OpenedPosition

structure PaperStep where
  env : PaperEnv
  event : SecondaryEvent

def SecondaryEvent.MovesPosition : SecondaryEvent → Prop
  | .paperOpened _ => True
  | .paperClosed _ => True
  | .paperLiquidated _ => True
  | _ => False

def Paper.step (p : Paper) (s : PaperStep) : Paper := p.applySecondaryEvent s.env s.event

namespace PaperLedger

def step (l : PaperLedger) (s : PaperStep) : PaperLedger :=
  match s.event with
  | .paperOpened e => l.insert (addrKey e.market, e.position) ⟨e, s.env.blockNum⟩
  | .paperClosed e => l.erase (addrKey e.market, e.position)
  | .paperLiquidated e => l.erase (addrKey e.market, e.position)
  | _ => l

/-- Positions are not opened while they are open. -/
def Fresh (l : PaperLedger) (s : PaperStep) : Prop :=
  match s.event with
  | .paperOpened e => (addrKey e.market, e.position) ∉ l
  | _ => True

def interest (l : PaperLedger) (marketKey : String) (instrument : UInt32) (isLong : Bool) : Nat :=
  l.sumOf fun id o =>
    if id.1 = marketKey ∧ o.event.instrument = instrument ∧ o.event.isLong = isLong then
      o.event.notional.toNat
    else 0

def total (weight : PaperOpenedEvent → Nat) (marketKey : String) (l : PaperLedger) : Nat :=
  l.sumOf fun id o => if id.1 = marketKey then weight o.event else 0

/-- The interest of every instrument fits into a word. -/
def Fits (l : PaperLedger) : Prop :=
  ∀ marketKey instrument isLong, l.interest marketKey instrument isLong ≤ Word.u64Max

end PaperLedger

def OpenedPosition.row (o : OpenedPosition) : PaperPositionOpen where
  market := o.event.market
  position := o.event.position
  owner := o.event.owner
  instrument := o.event.instrument
  isLong := o.event.isLong
  margin := formatTokenAmount o.event.margin
  notional := formatTokenAmount o.event.notional
  entryPrice := formatOracleHuman o.event.entryPrice
  bustPrice := formatOracleHuman o.event.bustPrice
  marginRaw := o.event.margin
  notionalRaw := o.event.notional
  entryPriceRaw := o.event.entryPrice
  bustPriceRaw := o.event.bustPrice
  fundedFromQueued := o.event.fundedFromQueued
  openedBlock := o.blockNum

namespace PaperInstrumentOi

def side (isLong : Bool) (oi : PaperInstrumentOi) : UInt64 := if isLong then oi.long else oi.short

def both (oi : PaperInstrumentOi) : Nat := oi.long.toNat + oi.short.toNat

def change (isLong : Bool) (f : UInt64 → UInt64) (oi : PaperInstrumentOi) : PaperInstrumentOi :=
  if isLong then { oi with long := f oi.long } else { oi with short := f oi.short }

variable {f : UInt64 → UInt64} {oi : PaperInstrumentOi}

theorem side_change (isLong side : Bool) :
    (oi.change isLong f).side side = if side = isLong then f (oi.side side) else oi.side side := by
  cases isLong <;> cases side <;> rfl

variable (f oi) in
theorem both_change (isLong : Bool) :
    (oi.change isLong f).both + (oi.side isLong).toNat =
      oi.both + (f (oi.side isLong)).toNat := by
  cases isLong with
  | true =>
      change (f oi.long).toNat + oi.short.toNat + oi.long.toNat =
        oi.long.toNat + oi.short.toNat + (f oi.long).toNat
      omega
  | false =>
      change oi.long.toNat + (f oi.short).toNat + oi.short.toNat =
        oi.long.toNat + oi.short.toNat + (f oi.short).toNat
      omega

end PaperInstrumentOi

namespace Paper

/-! ## What the events do to the positions and to the interest -/

variable (env : PaperEnv) (p : Paper)

@[simp] theorem positionsOpen_markPaperHouseDirty (market : String) :
    (p.markPaperHouseDirty market).positionsOpen = p.positionsOpen := by
  unfold markPaperHouseDirty
  split_ifs <;> rfl

@[simp] theorem oi_markPaperHouseDirty (market : String) :
    (p.markPaperHouseDirty market).oi = p.oi := by
  unfold markPaperHouseDirty
  split_ifs <;> rfl

@[simp] theorem positionsOpen_markPaperStakeDirty (market : String) :
    (p.markPaperStakeDirty market).positionsOpen = p.positionsOpen := by
  unfold markPaperStakeDirty
  split_ifs <;> rfl

@[simp] theorem oi_markPaperStakeDirty (market : String) :
    (p.markPaperStakeDirty market).oi = p.oi := by
  unfold markPaperStakeDirty
  split_ifs <;> rfl

@[simp] theorem positionsOpen_applyPaperHouseAfter (market : String) (house : PaperHouseAfter) :
    (p.applyPaperHouseAfter market house).positionsOpen = p.positionsOpen := by
  simp [applyPaperHouseAfter]

@[simp] theorem oi_applyPaperHouseAfter (market : String) (house : PaperHouseAfter) :
    (p.applyPaperHouseAfter market house).oi = p.oi := by
  simp [applyPaperHouseAfter]

theorem kept_recordOracleMark (spotMarket : String) (e : OracleCommittedEvent) :
    (p.recordOracleMark env spotMarket e).positionsOpen = p.positionsOpen ∧
      (p.recordOracleMark env spotMarket e).oi = p.oi := by
  unfold recordOracleMark
  obtain ⟨dirty, hdirty⟩ := markPaperHouseDirtyForPriceMarket_eq env
    (normalizeSpotMarketKey env.sdk spotMarket) _
  rw [hdirty]
  exact ⟨rfl, rfl⟩

theorem oi_applyPaperOiDelta (market : String) (instrument : UInt32) (isLong isAdd : Bool)
    (notional : UInt64) :
    (p.applyPaperOiDelta env market instrument isLong isAdd notional).oi =
      p.oi.insert (paperInstrKey market instrument)
        (((p.oi.lookup (paperInstrKey market instrument)).getD {}).change isLong fun side =>
          if isAdd then Word.satAdd side notional else Word.satSub side notional) := by
  unfold applyPaperOiDelta pushPaperOiHistory PaperInstrumentOi.change
  rfl

@[simp] theorem positionsOpen_applyPaperOiDelta (market : String) (instrument : UInt32)
    (isLong isAdd : Bool) (notional : UInt64) :
    (p.applyPaperOiDelta env market instrument isLong isAdd notional).positionsOpen =
      p.positionsOpen := rfl

theorem opened_indexPaperOpened (e : PaperOpenedEvent) :
    (p.indexPaperOpened env e).positionsOpen =
        p.positionsOpen.insert (paperPositionKey e.market e.position)
          (OpenedPosition.row ⟨e, env.blockNum⟩) ∧
      (p.indexPaperOpened env e).oi =
        p.oi.insert (paperInstrKey e.market e.instrument)
          (((p.oi.lookup (paperInstrKey e.market e.instrument)).getD {}).change e.isLong fun side =>
            Word.satAdd side e.notional) := by
  unfold indexPaperOpened upsertPaperPositionOpen
  dsimp only
  constructor
  · rw [positionsOpen_markPaperHouseDirty]
    dsimp only
    rw [positionsOpen_applyPaperOiDelta, positionsOpen_applyPaperHouseAfter]
    rfl
  · rw [oi_markPaperHouseDirty]
    dsimp only
    rw [oi_applyPaperOiDelta, oi_applyPaperHouseAfter]
    rfl

/-- The position under the key leaves the positions and the interest. -/
structure ClosesAt (market : String) (position : UInt64) (p q : Paper) : Prop where
  unseen : p.positionsOpen.lookup (paperPositionKey market position) = none →
    q.positionsOpen = p.positionsOpen ∧ q.oi = p.oi
  seen : ∀ row, p.positionsOpen.lookup (paperPositionKey market position) = some row →
    q.positionsOpen = p.positionsOpen.erase (paperPositionKey market position) ∧
      q.oi = p.oi.insert (paperInstrKey market row.instrument)
        (((p.oi.lookup (paperInstrKey market row.instrument)).getD {}).change row.isLong fun side =>
          Word.satSub side row.notionalRaw)

theorem ClosesAt.congr {market : String} {position : UInt64} {p p' q q' : Paper}
    (h : ClosesAt market position p q) (hp : p'.positionsOpen = p.positionsOpen ∧ p'.oi = p.oi)
    (hq : q'.positionsOpen = q.positionsOpen ∧ q'.oi = q.oi) : ClosesAt market position p' q' := by
  constructor
  · rw [hp.1, hp.2, hq.1, hq.2]
    exact h.unseen
  · rw [hp.1, hp.2, hq.1, hq.2]
    exact h.seen

theorem closesAt_closePaperPosition (market : String) (position : UInt64) (ownerFallback : String)
    (closing : Closing) :
    ClosesAt market position p (p.closePaperPosition env market position ownerFallback closing) := by
  unfold closePaperPosition
  dsimp only
  constructor
  · intro hlookup
    rw [positionsOpen_markPaperHouseDirty, oi_markPaperHouseDirty, hlookup]
    exact ⟨rfl, rfl⟩
  · intro row hlookup
    rw [positionsOpen_markPaperHouseDirty, oi_markPaperHouseDirty, hlookup]
    exact ⟨rfl, oi_applyPaperOiDelta _ _ _ _ _ _ _⟩

def closingOf (e : PaperClosedEvent) : Closing where
  exitPrice := formatOracleHuman e.exitPrice
  fee := formatTokenAmount e.fee
  payout := formatTokenAmount e.payout
  queued := formatTokenAmount e.queued
  minted := formatTokenAmount e.minted
  pnl := formatI64Token e.pnl
  kind := .closed
  liquidator := none
  knownMargin := none

def liquidationOf (e : PaperLiquidatedEvent) : Closing where
  exitPrice := formatOracleHuman e.exitPrice
  fee := "0"
  payout := "0"
  queued := "0"
  minted := formatTokenAmount e.minted
  pnl := formatI64Token (-e.margin.toInt64)
  kind := .liquidated
  liquidator := some e.liquidator
  knownMargin := some e.margin

theorem closesAt_indexPaperClosed (e : PaperClosedEvent) :
    ClosesAt e.market e.position p (p.indexPaperClosed env e) := by
  unfold indexPaperClosed
  dsimp only
  refine ClosesAt.congr (closesAt_closePaperPosition env (p.applyPaperHouseAfter e.market e.house)
    e.market e.position e.owner (closingOf e)) ?_ ?_
  · simp
  · split_ifs <;> simp [pushPaperActivity, closingOf]

theorem closesAt_indexPaperLiquidated (e : PaperLiquidatedEvent) :
    ClosesAt e.market e.position p (p.indexPaperLiquidated env e) := by
  unfold indexPaperLiquidated
  dsimp only
  refine ClosesAt.congr (closesAt_closePaperPosition env (p.applyPaperHouseAfter e.market e.house)
    e.market e.position e.owner (liquidationOf e)) ?_ ?_
  · simp
  · simp [pushPaperActivity, liquidationOf]

/-- Every other event leaves the positions and the interest. -/
theorem kept_applySecondaryEvent (e : SecondaryEvent) (h : ¬e.MovesPosition) :
    (p.applySecondaryEvent env e).positionsOpen = p.positionsOpen ∧
      (p.applySecondaryEvent env e).oi = p.oi := by
  unfold applySecondaryEvent
  cases e with
  | oracleCommitted contract e =>
      dsimp only
      split_ifs
      · exact ⟨rfl, rfl⟩
      · exact kept_recordOracleMark env p _ e
  | paperInstrumentAdded market instrument name priceMarket => exact ⟨rfl, rfl⟩
  | paperOpened e => exact absurd trivial h
  | paperClosed e => exact absurd trivial h
  | paperLiquidated e => exact absurd trivial h
  | paperQueued market index user amount house => simp [applyPaperQueued]
  | paperHarvested market index house => simp [applyPaperHarvested]
  | paperFeesPushed market stakerFee sweptStakers house =>
      unfold applyPaperFeesPushedRewards
      dsimp only
      split_ifs <;> simp
  | paperClaimed market user reward =>
      unfold applyPaperClaimedReward
      dsimp only
      split_ifs <;> simp
  | paperStaked market user amount => simp [pushPaperActivity]
  | paperUnstaked market user amount => simp [pushPaperActivity]

/-! ## The index follows the events -/

def positionKey (id : String × UInt64) : String := id.1 ++ ":" ++ Nat.repr id.2.toNat

def interestKey (marketKey : String) (instrument : UInt32) : String :=
  marketKey ++ ":" ++ Nat.repr instrument.toNat

theorem positionKey_inj {id id' : String × UInt64} : positionKey id = positionKey id' ↔ id = id' := by
  constructor
  · intro h
    obtain ⟨hmarket, hnumber⟩ :=
      Text.colon_inj (Text.colon_notMem_repr _) (Text.colon_notMem_repr _) h
    exact Prod.ext hmarket (UInt64.toNat_inj.mp (Text.repr_inj hnumber))
  · rintro rfl
    rfl

theorem paperPositionKey_eq (market : String) (position : UInt64) :
    paperPositionKey market position = positionKey (addrKey market, position) := rfl

theorem positionKey_eq {id : String × UInt64} {market : String} {position : UInt64} :
    positionKey id = paperPositionKey market position ↔ id = (addrKey market, position) := by
  rw [paperPositionKey_eq]
  exact positionKey_inj

theorem interestKey_inj {m m' : String} {i i' : UInt32} :
    interestKey m i = interestKey m' i' ↔ m = m' ∧ i = i' := by
  constructor
  · intro h
    obtain ⟨hmarket, hnumber⟩ :=
      Text.colon_inj (Text.colon_notMem_repr _) (Text.colon_notMem_repr _) h
    exact ⟨hmarket, UInt32.toNat_inj.mp (Text.repr_inj hnumber)⟩
  · rintro ⟨rfl, rfl⟩
    rfl

theorem instrumentOf_interestKey (m m' : String) (i : UInt32) :
    instrumentOf m (interestKey m' i) = if m' = m then some i else none :=
  Text.parse_stripPrefix_colon m m' i

def totalOi (m : String) (p : Paper) : Nat :=
  p.oi.sumOf fun key oi => if (instrumentOf m key).isSome then oi.both else 0

/-- The index holds what the events have left open. -/
structure Follows (l : PaperLedger) (p : Paper) : Prop where
  positions : ∀ id, p.positionsOpen.lookup (positionKey id) = (l.lookup id).map OpenedPosition.row
  keys : ∀ key ∈ p.positionsOpen, ∃ id, key = positionKey id
  placed : ∀ id o, l.lookup id = some o → id = (addrKey o.event.market, o.event.position)
  interest : ∀ m i isLong,
    (((p.oi.lookup (interestKey m i)).getD {}).side isLong).toNat = l.interest m i isLong
  instruments : ∀ key ∈ p.oi, ∃ m i, key = interestKey m i
  total : ∀ m, p.totalOi m = l.total (fun e => e.notional.toNat) m

theorem follows_empty : Follows ∅ {} where
  positions := fun _ => rfl
  keys := fun _ h => absurd h (AList.notMem_empty _)
  placed := fun _ _ h => nomatch h
  interest := fun _ _ isLong => by cases isLong <;> rfl
  instruments := fun _ h => absurd h (AList.notMem_empty _)
  total := fun _ => rfl

variable {p} {l : PaperLedger} {q : Paper}

theorem Follows.congr (h : Follows l p)
    (hkept : q.positionsOpen = p.positionsOpen ∧ q.oi = p.oi) : Follows l q := by
  obtain ⟨hpositions, hoi⟩ := hkept
  constructor
  · rw [hpositions]
    exact h.positions
  · rw [hpositions]
    exact h.keys
  · exact h.placed
  · rw [hoi]
    exact h.interest
  · rw [hoi]
    exact h.instruments
  · unfold totalOi
    rw [hoi]
    exact h.total

theorem totalOi_insert (m m' : String) (i : UInt32) (isLong : Bool) (f : UInt64 → UInt64)
    (hoi : q.oi = p.oi.insert (interestKey m' i)
      (((p.oi.lookup (interestKey m' i)).getD {}).change isLong f)) :
    let old := ((p.oi.lookup (interestKey m' i)).getD {}).side isLong
    q.totalOi m + (if m' = m then old.toNat else 0) =
      p.totalOi m + (if m' = m then (f old).toNat else 0) := by
  intro old
  let weight := fun (key : String) (oi : PaperInstrumentOi) =>
    if (instrumentOf m key).isSome then oi.both else 0
  have hweight : ∀ oi, weight (interestKey m' i) oi = if m' = m then oi.both else 0 := by
    intro oi
    simp only [weight, instrumentOf_interestKey]
    by_cases hm : m' = m <;> simp [hm]
  have hold : weight (interestKey m' i) ((p.oi.lookup (interestKey m' i)).getD {}) +
      Dict.sumOf weight (p.oi.erase (interestKey m' i)) = p.totalOi m := by
    cases hlookup : p.oi.lookup (interestKey m' i) with
    | none =>
        rw [Option.getD_none, hweight, Dict.sumOf_erase_of_notMem weight p.oi hlookup]
        change (if m' = m then 0 else 0) + p.totalOi m = p.totalOi m
        rw [ite_self, Nat.zero_add]
    | some oi => exact Dict.sumOf_erase weight p.oi hlookup
  have hnew : q.totalOi m =
      weight (interestKey m' i) (((p.oi.lookup (interestKey m' i)).getD {}).change isLong f) +
        Dict.sumOf weight (p.oi.erase (interestKey m' i)) := by
    unfold totalOi
    rw [hoi]
    exact Dict.sumOf_insert weight p.oi _ _
  have hboth := PaperInstrumentOi.both_change f ((p.oi.lookup (interestKey m' i)).getD {}) isLong
  rw [hweight] at hold hnew
  by_cases hm : m' = m
  · rw [if_pos hm] at hold hnew ⊢
    rw [if_pos hm]
    simp only [old]
    omega
  · rw [if_neg hm] at hold hnew ⊢
    rw [if_neg hm]
    omega

theorem side_insert {m m' : String} {i i' : UInt32} {isLong : Bool} {f : UInt64 → UInt64}
    (hoi : q.oi = p.oi.insert (interestKey m' i')
      (((p.oi.lookup (interestKey m' i')).getD {}).change isLong f)) (side : Bool) :
    ((q.oi.lookup (interestKey m i)).getD {}).side side =
      if m' = m ∧ i' = i ∧ isLong = side then
        f (((p.oi.lookup (interestKey m i)).getD {}).side side)
      else ((p.oi.lookup (interestKey m i)).getD {}).side side := by
  rw [hoi, Dict.lookup_insert_ite]
  by_cases hkey : m' = m ∧ i' = i
  · obtain ⟨rfl, rfl⟩ := hkey
    rw [if_pos rfl, Option.getD_some, PaperInstrumentOi.side_change]
    by_cases hside : isLong = side
    · rw [if_pos hside.symm, if_pos ⟨rfl, rfl, hside⟩]
    · rw [if_neg (Ne.symm hside), if_neg fun hall => hside hall.2.2]
  · have hne : interestKey m i ≠ interestKey m' i' := by
      intro heq
      obtain ⟨hm, hi⟩ := interestKey_inj.mp heq
      exact hkey ⟨hm.symm, hi.symm⟩
    rw [if_neg hne, if_neg fun hall => hkey ⟨hall.1, hall.2.1⟩]

theorem instruments_insert (h : ∀ key ∈ p.oi, ∃ m i, key = interestKey m i) {m : String}
    {i : UInt32} {oi : PaperInstrumentOi} (hoi : q.oi = p.oi.insert (interestKey m i) oi) :
    ∀ key ∈ q.oi, ∃ m i, key = interestKey m i := by
  intro key hkey
  rw [hoi, AList.mem_insert] at hkey
  rcases hkey with rfl | hold
  · exact ⟨m, i, rfl⟩
  · exact h key hold

def RowsOf (l : PaperLedger) (p : Paper) : Prop :=
  ∀ id, p.positionsOpen.lookup (positionKey id) = (l.lookup id).map OpenedPosition.row

theorem rowsOf_opened (h : RowsOf l p) (e : PaperOpenedEvent) (blockNum : UInt64)
    (hpositions : q.positionsOpen = p.positionsOpen.insert (paperPositionKey e.market e.position)
      (OpenedPosition.row ⟨e, blockNum⟩)) :
    RowsOf (l.insert (addrKey e.market, e.position) ⟨e, blockNum⟩) q := by
  intro id
  rw [hpositions, Dict.lookup_insert_ite, Dict.lookup_insert_ite]
  by_cases hid : id = (addrKey e.market, e.position)
  · rw [if_pos hid, if_pos (positionKey_eq.mpr hid)]
    rfl
  · rw [if_neg hid, if_neg fun heq => hid (positionKey_eq.mp heq)]
    exact h id

theorem rowsOf_closed (h : RowsOf l p) {market : String} {position : UInt64}
    (hclosed : ClosesAt market position p q) : RowsOf (l.erase (addrKey market, position)) q := by
  intro id
  have hid := @positionKey_eq id market position
  rw [Dict.lookup_erase_ite]
  cases hlookup : p.positionsOpen.lookup (paperPositionKey market position) with
  | none =>
      rw [(hclosed.unseen hlookup).1, h id]
      split_ifs with heq
      · have hrow := h id
        rw [hid.mpr heq, hlookup] at hrow
        exact hrow.symm
      · rfl
  | some row =>
      rw [(hclosed.seen row hlookup).1, Dict.lookup_erase_ite]
      by_cases heq : id = (addrKey market, position)
      · rw [if_pos heq, if_pos (hid.mpr heq)]
        rfl
      · rw [if_neg heq, if_neg fun hkey => heq (hid.mp hkey)]
        exact h id

theorem follows_opened (h : Follows l p) (e : PaperOpenedEvent) (blockNum : UInt64)
    (hfresh : (addrKey e.market, e.position) ∉ l)
    (hfits : PaperLedger.Fits (l.insert (addrKey e.market, e.position) ⟨e, blockNum⟩))
    (hpositions : q.positionsOpen = p.positionsOpen.insert (paperPositionKey e.market e.position)
      (OpenedPosition.row ⟨e, blockNum⟩))
    (hoi : q.oi = p.oi.insert (paperInstrKey e.market e.instrument)
      (((p.oi.lookup (paperInstrKey e.market e.instrument)).getD {}).change e.isLong fun side =>
        Word.satAdd side e.notional)) :
    Follows (l.insert (addrKey e.market, e.position) ⟨e, blockNum⟩) q := by
  have hnone : l.lookup (addrKey e.market, e.position) = none := AList.lookup_eq_none.mpr hfresh
  have hsum : ∀ f : String × UInt64 → OpenedPosition → Nat,
      Dict.sumOf f (l.insert (addrKey e.market, e.position) ⟨e, blockNum⟩) =
        f (addrKey e.market, e.position) ⟨e, blockNum⟩ + Dict.sumOf f l := by
    intro f
    rw [Dict.sumOf_insert, Dict.sumOf_erase_of_notMem f l hnone]
  constructor
  · exact rowsOf_opened h.positions e blockNum hpositions
  · intro key hkey
    rw [hpositions, AList.mem_insert] at hkey
    rcases hkey with rfl | hold
    · exact ⟨(addrKey e.market, e.position), paperPositionKey_eq e.market e.position⟩
    · exact h.keys key hold
  · intro id o ho
    rw [Dict.lookup_insert_ite] at ho
    split_ifs at ho with hid
    · cases ho
      exact hid
    · exact h.placed id o ho
  · intro m i isLong
    have hold := h.interest m i isLong
    have hfit := hfits m i isLong
    rw [side_insert hoi isLong]
    unfold PaperLedger.interest at hold hfit ⊢
    rw [hsum] at hfit ⊢
    dsimp only at hfit ⊢
    split_ifs at hfit ⊢
    · rw [Word.toNat_satAdd, hold]
      omega
    · rw [hold, Nat.zero_add]
  · exact instruments_insert h.instruments hoi
  · intro m
    have hold := h.total m
    have hnew := totalOi_insert m (addrKey e.market) e.instrument e.isLong _ hoi
    have hside := h.interest (addrKey e.market) e.instrument e.isLong
    have hfit := hfits (addrKey e.market) e.instrument e.isLong
    have hgrown : (Word.satAdd (((p.oi.lookup (interestKey (addrKey e.market) e.instrument)).getD
        {}).side e.isLong) e.notional).toNat =
          (((p.oi.lookup (interestKey (addrKey e.market) e.instrument)).getD {}).side
            e.isLong).toNat + e.notional.toNat := by
      unfold PaperLedger.interest at hside hfit
      rw [hsum] at hfit
      dsimp only at hfit
      rw [if_pos ⟨rfl, rfl, rfl⟩] at hfit
      rw [Word.toNat_satAdd, hside]
      apply Nat.min_eq_left
      omega
    unfold PaperLedger.total at hold ⊢
    rw [hsum]
    dsimp only at hold hnew ⊢
    rw [hgrown] at hnew
    by_cases hm : addrKey e.market = m
    · rw [if_pos hm, if_pos hm] at hnew
      rw [if_pos hm]
      omega
    · rw [if_neg hm, if_neg hm] at hnew
      rw [if_neg hm]
      omega

theorem follows_closed (h : Follows l p) {market : String} {position : UInt64}
    (hclosed : ClosesAt market position p q) :
    Follows (l.erase (addrKey market, position)) q := by
  have hlookup : p.positionsOpen.lookup (paperPositionKey market position) =
      (l.lookup (addrKey market, position)).map OpenedPosition.row := by
    rw [paperPositionKey_eq]
    exact h.positions (addrKey market, position)
  cases hposition : l.lookup (addrKey market, position) with
  | none =>
      rw [hposition] at hlookup
      have hsame : l.erase (addrKey market, position) = l := by
        apply AList.ext
        exact List.kerase_of_notMem_keys (AList.lookup_eq_none.mp hposition)
      rw [hsame]
      exact h.congr (hclosed.unseen hlookup)
  | some o =>
      rw [hposition] at hlookup
      have hpositions := (hclosed.seen o.row hlookup).1
      have hoi : q.oi = p.oi.insert (interestKey (addrKey market) o.event.instrument)
          (((p.oi.lookup (interestKey (addrKey market) o.event.instrument)).getD {}).change
            o.event.isLong fun side => Word.satSub side o.event.notional) :=
        (hclosed.seen o.row hlookup).2
      have hsum := fun f => Dict.sumOf_erase f l hposition
      constructor
      · exact rowsOf_closed h.positions hclosed
      · intro key hkey
        rw [hpositions, AList.mem_erase] at hkey
        exact h.keys key hkey.2
      · intro id o' ho'
        rw [Dict.lookup_erase_ite] at ho'
        split_ifs at ho'
        exact h.placed id o' ho'
      · intro m i isLong
        have hold := h.interest m i isLong
        have herased := hsum fun id o =>
          if id.1 = m ∧ o.event.instrument = i ∧ o.event.isLong = isLong then
            o.event.notional.toNat
          else 0
        rw [side_insert hoi isLong]
        unfold PaperLedger.interest at hold ⊢
        dsimp only at herased
        rw [← hold] at herased
        by_cases hsame : addrKey market = m ∧ o.event.instrument = i ∧ o.event.isLong = isLong
        · rw [if_pos hsame] at herased
          rw [if_pos hsame, Word.toNat_satSub]
          omega
        · rw [if_neg hsame] at herased
          rw [if_neg hsame]
          omega
      · exact instruments_insert h.instruments hoi
      · intro m
        have hold := h.total m
        have hnew := totalOi_insert m (addrKey market) o.event.instrument o.event.isLong _ hoi
        have herased := hsum fun id o => if id.1 = m then o.event.notional.toNat else 0
        -- what leaves was part of the interest
        have hpart : o.event.notional.toNat ≤ (((p.oi.lookup (interestKey (addrKey market)
            o.event.instrument)).getD {}).side o.event.isLong).toNat := by
          rw [h.interest]
          have hle := Dict.le_sumOf (fun id o' =>
            if id.1 = addrKey market ∧ o'.event.instrument = o.event.instrument ∧
                o'.event.isLong = o.event.isLong then o'.event.notional.toNat
            else 0) l hposition
          dsimp only at hle
          rw [if_pos ⟨rfl, rfl, rfl⟩] at hle
          exact hle
        unfold PaperLedger.total at hold ⊢
        dsimp only at hold hnew herased ⊢
        rw [Word.toNat_satSub] at hnew
        rw [← hold] at herased
        by_cases hm : addrKey market = m
        · rw [if_pos hm, if_pos hm] at hnew
          rw [if_pos hm] at herased
          omega
        · rw [if_neg hm, if_neg hm] at hnew
          rw [if_neg hm] at herased
          omega

/-- Each event keeps the index with the events. -/
theorem follows_step (h : Follows l p) (s : PaperStep) (hfresh : l.Fresh s)
    (hfits : (l.step s).Fits) : Follows (l.step s) (p.step s) := by
  obtain ⟨env, e⟩ := s
  have hother : ¬e.MovesPosition → Follows l (p.applySecondaryEvent env e) :=
    fun hnot => h.congr (kept_applySecondaryEvent env p e hnot)
  cases e with
  | paperOpened e =>
      obtain ⟨hpositions, hoi⟩ := opened_indexPaperOpened env p e
      exact follows_opened h e env.blockNum hfresh hfits hpositions hoi
  | paperClosed e => exact follows_closed h (closesAt_indexPaperClosed env p e)
  | paperLiquidated e => exact follows_closed h (closesAt_indexPaperLiquidated env p e)
  | oracleCommitted contract e => exact hother id
  | paperInstrumentAdded market instrument name priceMarket => exact hother id
  | paperQueued market index user amount house => exact hother id
  | paperHarvested market index house => exact hother id
  | paperFeesPushed market stakerFee sweptStakers house => exact hother id
  | paperClaimed market user reward => exact hother id
  | paperStaked market user amount => exact hother id
  | paperUnstaked market user amount => exact hother id

/-- Positions that are not opened twice, and totals that fit: the index follows. -/
theorem follows_run {steps : List PaperStep} (h : Follows l p)
    (hfresh : Along PaperLedger.step PaperLedger.Fresh steps l)
    (hfits : Throughout PaperLedger.step PaperLedger.Fits steps l) :
    Follows (steps.foldl PaperLedger.step l) (steps.foldl Paper.step p) := by
  induction steps generalizing l p with
  | nil => exact h
  | cons s rest ih =>
      have hnext : (l.step s).Fits := hfits.2.start
      exact ih (follows_step h s hfresh.1 hnext) hfresh.2 hfits.2

/-! ## The house overview -/

/-- Summing over the rows of a market is summing over its open positions. -/
theorem Follows.sum_rows (h : Follows l p) (m : String) (w : PaperPositionOpen → Nat)
    (w' : PaperOpenedEvent → Nat) (hw : ∀ o : OpenedPosition, w o.row = w' o.event) :
    (((p.positionsOpen.entries.map Sigma.snd).filter fun row => addrKey row.market = m).map w).sum =
      l.total w' m := by
  rw [Dict.sum_filter_values fun row : PaperPositionOpen => addrKey row.market = m]
  unfold PaperLedger.total
  apply Dict.sumOf_eq_sumOf positionKey
  · intro id _ id' _ heq
    exact positionKey_inj.mp heq
  · intro id o ho
    have hplaced := h.placed id o ho
    refine ⟨o.row, ?_, ?_⟩
    · rw [h.positions, ho]
      rfl
    · rw [hw, hplaced]
      rfl
  · intro key row hrow hnone
    obtain ⟨id, rfl⟩ := h.keys key (Dict.mem_iff_lookup.mpr ⟨row, hrow⟩)
    rw [h.positions, Option.map_eq_some_iff] at hrow
    obtain ⟨o, ho, -⟩ := hrow
    exact absurd rfl (hnone id (Dict.mem_iff_lookup.mpr ⟨o, ho⟩))

theorem foldl_count {A : Type} (rows : List A) (n : Nat) :
    rows.foldl (fun n _ => n + 1) (UInt32.ofNat n) = UInt32.ofNat (n + rows.length) := by
  induction rows generalizing n with
  | nil => rfl
  | cons row rest ih =>
      rw [List.foldl_cons, List.length_cons, ← Nat.add_assoc, Nat.add_right_comm]
      have hsucc : UInt32.ofNat n + 1 = UInt32.ofNat (n + 1) := by
        rw [UInt32.ofNat_add]
        rfl
      rw [hsucc]
      exact ih (n + 1)

def exposures (p : Paper) (m : String) : List PaperInstrumentExposure :=
  p.oi.entries.filterMap (p.exposureOf m)

theorem mem_exposures (h : Follows l p) {m : String} {x : PaperInstrumentExposure}
    (hx : x ∈ p.exposures m) :
    ∃ oi, p.oi.lookup (interestKey m x.instrument) = some oi ∧
      ¬(oi.long = 0 ∧ oi.short = 0) ∧ x.longRaw = oi.long ∧ x.shortRaw = oi.short ∧
      x.netRaw = (oi.long.toNat : Int) - (oi.short.toNat : Int) := by
  obtain ⟨⟨key, oi⟩, hentry, hexposure⟩ := List.mem_filterMap.mp hx
  have hlookup : p.oi.lookup key = some oi := Dict.mem_entries_iff.mp hentry
  obtain ⟨m', i, rfl⟩ := h.instruments key (Dict.mem_iff_lookup.mpr ⟨oi, hlookup⟩)
  unfold exposureOf at hexposure
  dsimp only at hexposure
  rw [instrumentOf_interestKey] at hexposure
  by_cases hm : m' = m
  · subst hm
    rw [if_pos rfl] at hexposure
    dsimp only at hexposure
    split_ifs at hexposure with hzero
    cases hexposure
    exact ⟨oi, hlookup, hzero, rfl, rfl, rfl⟩
  · rw [if_neg hm] at hexposure
    cases hexposure

theorem instrument_mem_exposures (p : Paper) {m : String} {i : UInt32} {oi : PaperInstrumentOi}
    (hlookup : p.oi.lookup (interestKey m i) = some oi) (hsome : ¬(oi.long = 0 ∧ oi.short = 0)) :
    ∃ x ∈ p.exposures m, x.instrument = i := by
  have hexposure : ∃ x, p.exposureOf m ⟨interestKey m i, oi⟩ = some x ∧ x.instrument = i := by
    unfold exposureOf
    dsimp only
    rw [instrumentOf_interestKey, if_pos rfl]
    dsimp only
    rw [if_neg hsome]
    exact ⟨_, rfl, rfl⟩
  obtain ⟨x, hx, hi⟩ := hexposure
  exact ⟨x, List.mem_filterMap.mpr ⟨_, Dict.mem_entries_iff.mpr hlookup, hx⟩, hi⟩

theorem nodup_exposures (h : Follows l p) (m : String) :
    (p.exposures m).Pairwise fun x y => x.instrument ≠ y.instrument := by
  have hkey : ∀ {e : Sigma fun _ : String => PaperInstrumentOi} {x}, e ∈ p.oi.entries →
      p.exposureOf m e = some x → e.1 = interestKey m x.instrument := by
    intro e x he hx
    obtain ⟨m', i, hkey⟩ :=
      h.instruments e.1 (Dict.mem_iff_lookup.mpr ⟨e.2, Dict.mem_entries_iff.mp he⟩)
    unfold exposureOf at hx
    rw [hkey, instrumentOf_interestKey] at hx
    by_cases hm : m' = m
    · rw [if_pos hm] at hx
      dsimp only at hx
      split_ifs at hx
      cases hx
      rw [hkey, hm]
    · rw [if_neg hm] at hx
      cases hx
  have hdistinct : p.oi.entries.Pairwise fun e e' => e.1 ≠ e'.1 :=
    List.pairwise_map.mp p.oi.nodupKeys
  unfold exposures
  rw [List.pairwise_filterMap]
  refine List.Pairwise.imp_of_mem ?_ hdistinct
  intro e e' he he' hne x hx x' hx' heq
  exact hne ((hkey he hx).trans (heq ▸ (hkey he' hx').symm))

/-- The exposures of a market hold all of its interest. -/
theorem sum_exposures (p : Paper) (m : String) :
    ((p.exposures m).map fun x => x.longRaw.toNat + x.shortRaw.toNat).sum = p.totalOi m := by
  have hentry : ∀ e, ((p.exposureOf m e).elim 0 fun x => x.longRaw.toNat + x.shortRaw.toNat) =
      if (instrumentOf m e.1).isSome then e.2.both else 0 := by
    intro e
    unfold exposureOf
    cases instrumentOf m e.1 with
    | none => rfl
    | some i =>
        dsimp only
        rw [Option.isSome_some, if_pos rfl]
        split_ifs with hzero
        · unfold PaperInstrumentOi.both
          rw [hzero.1, hzero.2]
          rfl
        · rfl
  unfold exposures totalOi Dict.sumOf
  induction p.oi.entries with
  | nil => rfl
  | cons e rest ih =>
      rw [List.map_cons, List.sum_cons, ← ih, List.filterMap_cons]
      dsimp only
      rw [← hentry]
      cases p.exposureOf m e with
      | none => exact (Nat.zero_add _).symm
      | some x => rw [List.map_cons, List.sum_cons]; rfl

/-- The numbers of an overview are those of the open positions of the market. -/
structure Overview (l : PaperLedger) (view : PaperHouseView) : Prop where
  openPositions : view.openPositions = UInt32.ofNat (l.total (fun _ => 1) (addrKey view.market))
  openMargin : view.openMarginRaw =
    Word.clamp (l.total (fun e => e.margin.toNat) (addrKey view.market))
  openInterest : view.openInterestRaw =
    Word.clamp (l.total (fun e => e.notional.toNat) (addrKey view.market))
  /-- in order, and none twice -/
  sorted : view.instruments.Pairwise fun x y => x.instrument < y.instrument
  /-- the instruments with interest, and no others -/
  listed : ∀ i, (∃ x ∈ view.instruments, x.instrument = i) ↔
    l.interest (addrKey view.market) i true ≠ 0 ∨ l.interest (addrKey view.market) i false ≠ 0
  exposures : ∀ x ∈ view.instruments,
    x.longRaw.toNat = l.interest (addrKey view.market) x.instrument true ∧
      x.shortRaw.toNat = l.interest (addrKey view.market) x.instrument false ∧
      x.netRaw = (x.longRaw.toNat : Int) - (x.shortRaw.toNat : Int)

theorem overview_paperHouseView (h : Follows l p) (market : String) :
    Overview l (p.paperHouseView market) := by
  have hrows := h.sum_rows (addrKey market)
  have hmem : ∀ {x}, x ∈ (p.paperHouseView market).instruments ↔
      x ∈ p.exposures (addrKey market) := List.mem_mergeSort
  constructor
  · have hcount := hrows (fun _ => 1) (fun _ => 1) fun _ => rfl
    rw [List.map_const', List.sum_replicate_nat, Nat.mul_one] at hcount
    change List.foldl (fun n _ => n + 1) (UInt32.ofNat 0) _ = _
    rw [foldl_count, Nat.zero_add]
    exact congrArg UInt32.ofNat hcount
  · change List.foldl _ (Word.clamp 0) _ = _
    rw [Word.foldl_satAdd, Nat.zero_add]
    exact congrArg Word.clamp (hrows (fun row => row.marginRaw.toNat) _ fun _ => rfl)
  · have hboth : ∀ (xs : List PaperInstrumentExposure) (n : Nat),
        xs.foldl (fun sum x => Word.satAdd (Word.satAdd sum x.longRaw) x.shortRaw) (Word.clamp n) =
          Word.clamp (n + (xs.map fun x => x.longRaw.toNat + x.shortRaw.toNat).sum) := by
      intro xs
      induction xs with
      | nil => exact fun n => rfl
      | cons x rest ih =>
          intro n
          rw [List.foldl_cons, Word.satAdd_clamp, Word.satAdd_clamp, ih, List.map_cons,
            List.sum_cons, Nat.add_assoc, Nat.add_assoc, Nat.add_assoc]
    change List.foldl _ (Word.clamp 0) (p.exposures (addrKey market)) = _
    rw [hboth, Nat.zero_add, sum_exposures]
    exact congrArg Word.clamp (h.total (addrKey market))
  · have hle : (p.paperHouseView market).instruments.Pairwise
        fun x y => x.instrument ≤ y.instrument := by
      have hsorted : (p.paperHouseView market).instruments.Pairwise
          fun x y => decide (x.instrument ≤ y.instrument) = true := by
        apply List.pairwise_mergeSort
        · intro x y z hxy hyz
          rw [decide_eq_true_eq] at hxy hyz ⊢
          exact UInt32.le_trans hxy hyz
        · intro x y
          rw [Bool.or_eq_true, decide_eq_true_eq, decide_eq_true_eq]
          exact UInt32.le_total _ _
      exact hsorted.imp of_decide_eq_true
    have hne : (p.paperHouseView market).instruments.Pairwise
        fun x y => x.instrument ≠ y.instrument :=
      (List.mergeSort_perm _ _).symm.pairwise (nodup_exposures h (addrKey market)) fun h => h.symm
    exact hle.imp₂ (fun x y hxy hxy' => UInt32.lt_of_le_of_ne hxy hxy') hne
  · intro i
    change _ ↔ l.interest (addrKey market) i true ≠ 0 ∨ l.interest (addrKey market) i false ≠ 0
    rw [← h.interest, ← h.interest]
    constructor
    · rintro ⟨x, hx, rfl⟩
      obtain ⟨oi, hlookup, hsome, -⟩ := mem_exposures h (hmem.mp hx)
      rw [hlookup, Option.getD_some]
      rw [not_and_or, Word.eq_zero_iff, Word.eq_zero_iff] at hsome
      exact hsome
    · intro hinterest
      cases hlookup : p.oi.lookup (interestKey (addrKey market) i) with
      | none =>
          rw [hlookup] at hinterest
          exact absurd hinterest (by decide)
      | some oi =>
          rw [hlookup, Option.getD_some] at hinterest
          have hsome : ¬(oi.long = 0 ∧ oi.short = 0) := by
            rw [not_and_or, Word.eq_zero_iff, Word.eq_zero_iff]
            exact hinterest
          obtain ⟨x, hx, hi⟩ := instrument_mem_exposures p hlookup hsome
          exact ⟨x, hmem.mpr hx, hi⟩
  · intro x hx
    obtain ⟨oi, hlookup, -, hlong, hshort, hnet⟩ := mem_exposures h (hmem.mp hx)
    have hinterest := h.interest (addrKey market) x.instrument
    rw [hlookup] at hinterest
    rw [hlong, hshort]
    exact ⟨hinterest true, hinterest false, hnet⟩

/-- After every sequence of events, where no open position is opened again and the interest
of every instrument fits into a word: the interest is that of the open positions, and so
is the overview of every market. -/
theorem openInterest_of_run (steps : List PaperStep)
    (hfresh : Along PaperLedger.step PaperLedger.Fresh steps ∅)
    (hfits : Throughout PaperLedger.step PaperLedger.Fits steps ∅) :
    let l := steps.foldl PaperLedger.step ∅
    let p := steps.foldl step {}
    (∀ market instrument isLong,
      (((p.oi.lookup (paperInstrKey market instrument)).getD {}).side isLong).toNat =
        l.interest (addrKey market) instrument isLong) ∧
      ∀ market, Overview l (p.paperHouseView market) := by
  intro l p
  have h : Follows l p := follows_run follows_empty hfresh hfits
  exact ⟨fun market instrument isLong => h.interest (addrKey market) instrument isLong,
    overview_paperHouseView h⟩

end Paper

namespace Sample

def paperMarket : String := "0x00000000000000000000000000000000000000d1"

def paperEnv : PaperEnv := ⟨sdk, 7, 7000, 0⟩

def openedWith (position margin : UInt64) : PaperStep :=
  ⟨paperEnv, .paperOpened
    ⟨paperMarket, position, account, 3, true, margin, 10, 500000, 400000, false, {}⟩⟩

/-- Two positions whose margins do not fit into a word together. -/
def hugeMargins : List PaperStep := [openedWith 1 (2 ^ 63), openedWith 2 (2 ^ 63)]

theorem fresh_hugeMargins : Along PaperLedger.step PaperLedger.Fresh hugeMargins ∅ := by
  refine ⟨AList.notMem_empty _, ?_, trivial⟩
  change (addrKey paperMarket, (2 : UInt64)) ∉ _
  decide +kernel

theorem fits_hugeMargins : Throughout PaperLedger.step PaperLedger.Fits hugeMargins ∅ := by
  have hsum : ∀ l : PaperLedger, (l.sumOf fun _ o => o.event.notional.toNat) ≤ Word.u64Max →
      l.Fits := by
    intro l hl marketKey instrument isLong
    refine le_trans (Dict.sumOf_mono ?_ l) hl
    intro id o
    split_ifs
    · exact le_refl _
    · exact Nat.zero_le _
  exact ⟨hsum _ (by decide +kernel), hsum _ (by decide +kernel), hsum _ (by decide +kernel)⟩

theorem openInterest_hugeMargins :
    Along PaperLedger.step PaperLedger.Fresh hugeMargins ∅ ∧
      Throughout PaperLedger.step PaperLedger.Fits hugeMargins ∅ ∧
      Paper.Overview (hugeMargins.foldl PaperLedger.step ∅)
        ((hugeMargins.foldl Paper.step {}).paperHouseView paperMarket) :=
  ⟨fresh_hugeMargins, fits_hugeMargins,
    (Paper.openInterest_of_run hugeMargins fresh_hugeMargins fits_hugeMargins).2 paperMarket⟩

/-- The overview shows a margin that is one less than the sum. -/
theorem hugeMargins_saturate :
    Along PaperLedger.step PaperLedger.Fresh hugeMargins ∅ ∧
      Throughout PaperLedger.step PaperLedger.Fits hugeMargins ∅ ∧
      ((hugeMargins.foldl Paper.step {}).paperHouseView paperMarket).openMarginRaw.toNat ≠
        PaperLedger.total (fun e => e.margin.toNat) (addrKey paperMarket)
          (hugeMargins.foldl PaperLedger.step ∅) := by
  refine ⟨fresh_hugeMargins, fits_hugeMargins, ?_⟩
  have hfollows := Paper.follows_run Paper.follows_empty fresh_hugeMargins fits_hugeMargins
  rw [(Paper.overview_paperHouseView hfollows paperMarket).openMargin]
  decide +kernel

end Sample

end ClobIndexer
