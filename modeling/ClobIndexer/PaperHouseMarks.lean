import ClobIndexer.Lib.Dirty
import ClobIndexer.PaperQueue
/-!
# The marks of the paper houses

An event marks the houses that it may have moved.  Every event marks all houses whose overview
or queue it changes, except that a new name or oracle of an instrument is not marked: an
instrument that is registered while nothing of it is open changes no house.
-/

namespace ClobIndexer

open Lib

@[simp] theorem addrKey_addrKey (address : String) :
    addrKey (addrKey address) = addrKey address := by
  unfold addrKey
  rw [Text.trim_toAsciiLowercase, Text.trim_trim, Text.toAsciiLowercase_toAsciiLowercase]

namespace Paper

/-- What a house shows under its key: its overview and its queue. -/
def houseShown (market : String) (p : Paper) : PaperHouseView × PaperHouseQueue :=
  (p.paperHouseView (addrKey market), p.paperHouseQueue market)

def valuesOf {V : Type} (id : V → String × UInt64) (m : String) (d : Dict String V) : List V :=
  (d.entries.map (·.2)).filter fun v => (id v).1 = m

theorem market_of_mem_valuesOf {V : Type} {id : V → String × UInt64} {m : String}
    {d : Dict String V} {v : V} (h : v ∈ valuesOf id m d) : (id v).1 = m :=
  of_decide_eq_true (List.mem_filter.mp h).2

theorem paperInstrKey_inj {market market' : String} {i i' : UInt32} :
    paperInstrKey market i = paperInstrKey market' i' ↔ addrKey market = addrKey market' ∧ i = i' :=
  interestKey_inj

def KeyedBy {V : Type} (id : V → String × UInt64) (d : Dict String V) : Prop :=
  ∀ key v, d.lookup key = some v → key = positionKey (id v)

def rowId (row : PaperPositionOpen) : String × UInt64 := (addrKey row.market, row.position)

def claimId (c : PaperQueueClaim) : String × UInt64 := (addrKey c.market, c.index)

/-- Rows and claims are kept under their own keys, and houses are marked by theirs. -/
structure Keyed (p : Paper) : Prop where
  rows : KeyedBy rowId p.positionsOpen
  claims : KeyedBy claimId p.queueOpen
  dirty : ∀ m ∈ p.houseDirty, addrKey m = m ∧ m ≠ ""

def Idle (market : String) (instrument : UInt32) (p : Paper) : Prop :=
  (∀ row ∈ valuesOf rowId (addrKey market) p.positionsOpen, row.instrument ≠ instrument) ∧
    ∀ oi ∈ p.oi.lookup (paperInstrKey market instrument), oi.long = 0 ∧ oi.short = 0

end Paper

/-- An instrument is registered while nothing of it is open, or again as it was. -/
def SecondaryEvent.KeepsInstruments (sdk : Sdk) (p : Paper) : SecondaryEvent → Prop
  | .paperInstrumentAdded market instrument name priceMarket =>
      p.Idle market instrument ∨ p.instruments.lookup (paperInstrKey market instrument) =
        some ⟨name, normalizeSpotMarketKey sdk priceMarket⟩
  | _ => True

namespace Paper

/-! ## What an event leaves as it is -/

/-- From one state to the other, nothing is changed but the house of the key. -/
structure OnlyHouse (k : String) (p q : Paper) : Prop where
  keyed : p.Keyed → q.Keyed
  dirty : ∀ m ∈ p.houseDirty, m ∈ q.houseDirty
  instruments : q.instruments = p.instruments
  oracleMarks : q.oracleMarks = p.oracleMarks
  houseHistory : q.houseHistory = p.houseHistory
  house : ∀ m, m ≠ k → q.house.lookup m = p.house.lookup m
  volume : ∀ m, m ≠ k → q.volume.lookup m = p.volume.lookup m
  rows : p.Keyed → ∀ m, m ≠ k → valuesOf rowId m q.positionsOpen = valuesOf rowId m p.positionsOpen
  claims : p.Keyed → ∀ m, m ≠ k → valuesOf claimId m q.queueOpen = valuesOf claimId m p.queueOpen
  exposures : ∀ m, m ≠ k → q.exposures m = p.exposures m

variable {p q r : Paper} {k m : String}

theorem OnlyHouse.trans (h : OnlyHouse k p q) (h' : OnlyHouse k q r) : OnlyHouse k p r where
  keyed := fun hp => h'.keyed (h.keyed hp)
  dirty := fun m hm => h'.dirty m (h.dirty m hm)
  instruments := h'.instruments.trans h.instruments
  oracleMarks := h'.oracleMarks.trans h.oracleMarks
  houseHistory := h'.houseHistory.trans h.houseHistory
  house := fun m hm => (h'.house m hm).trans (h.house m hm)
  volume := fun m hm => (h'.volume m hm).trans (h.volume m hm)
  rows := fun hp m hm => (h'.rows (h.keyed hp) m hm).trans (h.rows hp m hm)
  claims := fun hp m hm => (h'.claims (h.keyed hp) m hm).trans (h.claims hp m hm)
  exposures := fun m hm => (h'.exposures m hm).trans (h.exposures m hm)

structure SameHouses (p q : Paper) : Prop where
  dirty : q.houseDirty = p.houseDirty
  instruments : q.instruments = p.instruments
  oracleMarks : q.oracleMarks = p.oracleMarks
  houseHistory : q.houseHistory = p.houseHistory
  house : q.house = p.house
  volume : q.volume = p.volume
  positionsOpen : q.positionsOpen = p.positionsOpen
  queueOpen : q.queueOpen = p.queueOpen
  oi : q.oi = p.oi

theorem exposureOf_congr (h : q.instruments = p.instruments) : q.exposureOf = p.exposureOf := by
  unfold exposureOf
  rw [h]

theorem SameHouses.keyed (h : SameHouses p q) (hp : p.Keyed) : q.Keyed := by
  constructor
  · rw [h.positionsOpen]
    exact hp.rows
  · rw [h.queueOpen]
    exact hp.claims
  · rw [h.dirty]
    exact hp.dirty

theorem exposures_congr (hinstruments : q.instruments = p.instruments) (hoi : q.oi = p.oi)
    (m : String) : q.exposures m = p.exposures m := by
  unfold exposures
  rw [hoi, exposureOf_congr hinstruments]

theorem SameHouses.onlyHouse (h : SameHouses p q) (k : String) : OnlyHouse k p q where
  keyed := h.keyed
  dirty := fun m hm => h.dirty ▸ hm
  instruments := h.instruments
  oracleMarks := h.oracleMarks
  houseHistory := h.houseHistory
  house := fun m _ => by rw [h.house]
  volume := fun m _ => by rw [h.volume]
  rows := fun _ m _ => by rw [h.positionsOpen]
  claims := fun _ m _ => by rw [h.queueOpen]
  exposures := fun m _ => exposures_congr h.instruments h.oi m

theorem mem_markPaperHouseDirty {market : String} :
    m ∈ (p.markPaperHouseDirty market).houseDirty ↔
      m ∈ p.houseDirty ∨ m = addrKey market ∧ m ≠ "" := by
  unfold markPaperHouseDirty
  split_ifs with hempty
  · constructor
    · exact Or.inl
    · rintro (hm | ⟨rfl, hne⟩)
      · exact hm
      · exact absurd hempty hne
  · rw [AList.mem_insert, or_comm]
    refine or_congr_right ⟨fun hm => ⟨hm, hm ▸ hempty⟩, fun hm => hm.1⟩

theorem onlyHouse_markPaperHouseDirty (market : String) (p : Paper) (k : String) :
    OnlyHouse k p (p.markPaperHouseDirty market) := by
  have hmem := fun m => @mem_markPaperHouseDirty p m market
  obtain ⟨dirty, heq⟩ := markPaperHouseDirty_eq market p
  rw [heq] at hmem ⊢
  refine ⟨?_, fun m hm => (hmem m).mpr (Or.inl hm), rfl, rfl, rfl, fun _ _ => rfl, fun _ _ => rfl,
    fun _ _ _ => rfl, fun _ _ _ => rfl, fun _ _ => rfl⟩
  intro hp
  refine ⟨hp.rows, hp.claims, ?_⟩
  intro m hm
  rcases (hmem m).mp hm with hold | ⟨rfl, hne⟩
  · exact hp.dirty m hold
  · exact ⟨addrKey_addrKey market, hne⟩

theorem onlyHouse_applyPaperHouseAfter (market : String) (house : PaperHouseAfter) (p : Paper) :
    OnlyHouse (addrKey market) p (p.applyPaperHouseAfter market house) := by
  refine OnlyHouse.trans ?_ (onlyHouse_markPaperHouseDirty market _ _)
  refine { SameHouses.onlyHouse ⟨rfl, rfl, rfl, rfl, rfl, rfl, rfl, rfl, rfl⟩ (addrKey market) with
    keyed := fun hp => ⟨hp.rows, hp.claims, hp.dirty⟩
    house := ?_ }
  intro m hm
  rw [Dict.lookup_insert_ite, if_neg hm]

theorem marked_applyPaperHouseAfter (market : String) (house : PaperHouseAfter) (p : Paper) :
    addrKey market = "" ∨ addrKey market ∈ (p.applyPaperHouseAfter market house).houseDirty := by
  by_cases hempty : addrKey market = ""
  · exact Or.inl hempty
  · exact Or.inr (mem_markPaperHouseDirty.mpr (Or.inr ⟨rfl, hempty⟩))

variable (env : PaperEnv)

theorem onlyHouse_applyPaperOiDelta (market : String) (instrument : UInt32) (isLong isAdd : Bool)
    (notional : UInt64) (p : Paper) :
    OnlyHouse (addrKey market) p
      (p.applyPaperOiDelta env market instrument isLong isAdd notional) := by
  unfold applyPaperOiDelta pushPaperOiHistory
  dsimp only
  refine { SameHouses.onlyHouse ⟨rfl, rfl, rfl, rfl, rfl, rfl, rfl, rfl, rfl⟩ (addrKey market) with
    keyed := fun hp => ⟨hp.rows, hp.claims, hp.dirty⟩
    exposures := ?_ }
  intro m hm
  have hother : ∀ oi, p.exposureOf m ⟨paperInstrKey market instrument, oi⟩ = none := by
    intro oi
    have hnone : instrumentOf m (paperInstrKey market instrument) = none :=
      (instrumentOf_interestKey m (addrKey market) instrument).trans
        (if_neg fun heq => hm heq.symm)
    unfold exposureOf
    dsimp only
    rw [hnone]
  exact Dict.filterMap_insert (p.exposureOf m) p.oi (hother _) fun oi _ => hother oi

/-! ### Rows and claims -/

section

variable {V : Type} {id : V → String × UInt64} {d : Dict String V}

theorem valuesOf_eq_filterMap (m : String) (d : Dict String V) :
    valuesOf id m d = d.entries.filterMap fun e => if (id e.2).1 = m then some e.2 else none := by
  unfold valuesOf
  induction d.entries with
  | nil => rfl
  | cons e entries ih =>
      rw [List.map_cons, List.filter_cons, List.filterMap_cons, ih]
      by_cases hm : (id e.2).1 = m <;> simp [hm]

theorem KeyedBy.insert (h : KeyedBy id d) (v : V) :
    KeyedBy id (d.insert (positionKey (id v)) v) := by
  intro key w hw
  rw [Dict.lookup_insert_ite] at hw
  split_ifs at hw with hkey
  · cases hw
    exact hkey
  · exact h key w hw

theorem KeyedBy.erase (h : KeyedBy id d) (key : String) : KeyedBy id (d.erase key) := by
  intro key' w hw
  rw [Dict.lookup_erase_ite] at hw
  split_ifs at hw
  exact h key' w hw

theorem KeyedBy.not_listed (h : KeyedBy id d) {k : String × UInt64} (hm : m ≠ k.1) (v : V)
    (hv : d.lookup (positionKey k) = some v) :
    (if (id v).1 = m then some v else none) = none := by
  have hk := positionKey_inj.mp (h _ v hv)
  exact if_neg fun heq => hm (heq.symm.trans (congrArg Prod.fst hk).symm)

theorem KeyedBy.valuesOf_insert (h : KeyedBy id d) {v : V} (hm : m ≠ (id v).1) :
    valuesOf id m (d.insert (positionKey (id v)) v) = valuesOf id m d := by
  rw [valuesOf_eq_filterMap, valuesOf_eq_filterMap]
  exact Dict.filterMap_insert _ d (if_neg fun heq => hm heq.symm) (h.not_listed hm)

theorem KeyedBy.valuesOf_erase (h : KeyedBy id d) {k : String × UInt64} (hm : m ≠ k.1) :
    valuesOf id m (d.erase (positionKey k)) = valuesOf id m d := by
  rw [valuesOf_eq_filterMap, valuesOf_eq_filterMap]
  exact Dict.filterMap_erase _ d (h.not_listed hm)

end

theorem onlyHouse_insertRow (row : PaperPositionOpen) (p : Paper) :
    OnlyHouse (addrKey row.market) p { p with
      positionsOpen := p.positionsOpen.insert (paperPositionKey row.market row.position) row } :=
  { SameHouses.onlyHouse ⟨rfl, rfl, rfl, rfl, rfl, rfl, rfl, rfl, rfl⟩ (addrKey row.market) with
    keyed := fun hp => ⟨hp.rows.insert row, hp.claims, hp.dirty⟩
    rows := fun hp _ hm => hp.rows.valuesOf_insert hm }

theorem onlyHouse_eraseRow (market : String) (position : UInt64) (p : Paper) :
    OnlyHouse (addrKey market) p { p with
      positionsOpen := p.positionsOpen.erase (paperPositionKey market position) } :=
  { SameHouses.onlyHouse ⟨rfl, rfl, rfl, rfl, rfl, rfl, rfl, rfl, rfl⟩ (addrKey market) with
    keyed := fun hp => ⟨hp.rows.erase _, hp.claims, hp.dirty⟩
    rows := fun hp _ hm => hp.rows.valuesOf_erase (k := (addrKey market, position)) hm }

theorem onlyHouse_insertClaim (c : PaperQueueClaim) (p : Paper) :
    OnlyHouse (addrKey c.market) p { p with
      queueOpen := p.queueOpen.insert (paperQueueKey c.market c.index) c } :=
  { SameHouses.onlyHouse ⟨rfl, rfl, rfl, rfl, rfl, rfl, rfl, rfl, rfl⟩ (addrKey c.market) with
    keyed := fun hp => ⟨hp.rows, hp.claims.insert c, hp.dirty⟩
    claims := fun hp _ hm => hp.claims.valuesOf_insert hm }

theorem onlyHouse_eraseClaim (market : String) (index : UInt64) (p : Paper) :
    OnlyHouse (addrKey market) p { p with
      queueOpen := p.queueOpen.erase (paperQueueKey market index) } :=
  { SameHouses.onlyHouse ⟨rfl, rfl, rfl, rfl, rfl, rfl, rfl, rfl, rfl⟩ (addrKey market) with
    keyed := fun hp => ⟨hp.rows, hp.claims.erase _, hp.dirty⟩
    claims := fun hp _ hm => hp.claims.valuesOf_erase (k := (addrKey market, index)) hm }

theorem onlyHouse_addVolume (market : String) (amount : UInt64) (p : Paper) :
    OnlyHouse (addrKey market) p { p with
      volume := addTotal (addrKey market) amount p.volume } :=
  { SameHouses.onlyHouse ⟨rfl, rfl, rfl, rfl, rfl, rfl, rfl, rfl, rfl⟩ (addrKey market) with
    keyed := fun hp => ⟨hp.rows, hp.claims, hp.dirty⟩
    volume := fun m hm => by
      unfold addTotal
      rw [Dict.lookup_insert_ite, if_neg hm] }

/-! ### Events -/

theorem sameHouses_positionRows (rows : List PaperPositionHistory) (p : Paper) :
    SameHouses p { p with positionRows := rows } :=
  ⟨rfl, rfl, rfl, rfl, rfl, rfl, rfl, rfl, rfl⟩

theorem onlyHouse_closePaperPosition (market : String) (position : UInt64) (ownerFallback : String)
    (closing : Closing) (p : Paper) :
    OnlyHouse (addrKey market) p
      (p.closePaperPosition env market position ownerFallback closing) := by
  unfold closePaperPosition
  dsimp only
  cases p.positionsOpen.lookup (paperPositionKey market position) with
  | none =>
      have hmarked := onlyHouse_markPaperHouseDirty market p (addrKey market)
      exact hmarked.trans ((sameHouses_positionRows _ _).onlyHouse _)
  | some row =>
      have hclosed := (onlyHouse_eraseRow market position p).trans
        (onlyHouse_applyPaperOiDelta env market row.instrument row.isLong false row.notionalRaw _)
      have hmarked := hclosed.trans (onlyHouse_markPaperHouseDirty market _ (addrKey market))
      exact hmarked.trans ((sameHouses_positionRows _ _).onlyHouse _)

theorem onlyHouse_upsertPaperPositionOpen (row : PaperPositionOpen) (p : Paper) :
    OnlyHouse (addrKey row.market) p (p.upsertPaperPositionOpen env row) :=
  (onlyHouse_applyPaperOiDelta env row.market _ _ _ _ p).trans
    ((onlyHouse_addVolume row.market _ _).trans
      ((onlyHouse_markPaperHouseDirty row.market _ _).trans (onlyHouse_insertRow row _)))

theorem sameHouses_pushPaperActivity (kind market user : String) (amountRaw : UInt64)
    (pnlRaw : Option Int64) (position : Option UInt64) (p : Paper) :
    SameHouses p (p.pushPaperActivity env kind market user amountRaw pnlRaw position) :=
  ⟨rfl, rfl, rfl, rfl, rfl, rfl, rfl, rfl, rfl⟩

theorem sameHouses_markPaperStakeDirty (market : String) (p : Paper) :
    SameHouses p (p.markPaperStakeDirty market) := by
  unfold markPaperStakeDirty
  split_ifs <;> exact ⟨rfl, rfl, rfl, rfl, rfl, rfl, rfl, rfl, rfl⟩

theorem sameHouses_applyPaperFeesPushedRewards (market : String) (stakerFee swept : UInt64)
    (p : Paper) : SameHouses p (p.applyPaperFeesPushedRewards market stakerFee swept) := by
  unfold applyPaperFeesPushedRewards
  dsimp only
  split_ifs <;> exact ⟨rfl, rfl, rfl, rfl, rfl, rfl, rfl, rfl, rfl⟩

theorem sameHouses_applyPaperClaimedReward (market user : String) (reward : UInt64) (p : Paper) :
    SameHouses p (p.applyPaperClaimedReward market user reward) := by
  unfold applyPaperClaimedReward
  dsimp only
  split_ifs <;> exact ⟨rfl, rfl, rfl, rfl, rfl, rfl, rfl, rfl, rfl⟩

def houseOf : SecondaryEvent → Option String
  | .paperOpened e => some e.market
  | .paperClosed e => some e.market
  | .paperLiquidated e => some e.market
  | .paperQueued market _ _ _ _ => some market
  | .paperHarvested market _ _ => some market
  | .paperFeesPushed market _ _ _ => some market
  | _ => none

/-- A step changes one house at most, and marks it. -/
structure MarksHouse (k : String) (p q : Paper) : Prop where
  only : OnlyHouse k p q
  marked : k = "" ∨ k ∈ q.houseDirty

theorem MarksHouse.then (h : MarksHouse k p q) (h' : OnlyHouse k q r) : MarksHouse k p r where
  only := h.only.trans h'
  marked := h.marked.imp_right (h'.dirty k)

theorem marksHouse_applyPaperHouseAfter (market : String) (house : PaperHouseAfter) (p : Paper) :
    MarksHouse (addrKey market) p (p.applyPaperHouseAfter market house) :=
  ⟨onlyHouse_applyPaperHouseAfter market house p, marked_applyPaperHouseAfter market house p⟩

theorem marksHouse_indexPaperClosed (e : PaperClosedEvent) (p : Paper) :
    MarksHouse (addrKey e.market) p (p.indexPaperClosed env e) := by
  have hclosed := (marksHouse_applyPaperHouseAfter e.market e.house p).then
    (onlyHouse_closePaperPosition env e.market e.position e.owner (closingOf e) _)
  unfold indexPaperClosed
  dsimp only
  unfold closingOf at hclosed
  revert hclosed
  generalize closePaperPosition env e.market e.position e.owner _ _ = closed
  intro hclosed
  have hpushed : MarksHouse (addrKey e.market) p
      (if e.minted ≠ 0 ∨ e.pnl < 0 then
        closed.pushPaperActivity env "close_loss" e.market e.owner e.minted (some e.pnl)
          (some e.position)
      else closed) := by
    split_ifs
    · exact hclosed.then ((sameHouses_pushPaperActivity env _ _ _ _ _ _ closed).onlyHouse _)
    · exact hclosed
  by_cases hminted : e.minted ≠ 0
  · rw [if_pos hminted]
    exact hpushed.then ((sameHouses_markPaperStakeDirty _ _).onlyHouse _)
  · rw [if_neg hminted]
    exact hpushed

theorem marksHouse_indexPaperLiquidated (e : PaperLiquidatedEvent) (p : Paper) :
    MarksHouse (addrKey e.market) p (p.indexPaperLiquidated env e) := by
  have hclosed := (marksHouse_applyPaperHouseAfter e.market e.house p).then
    (onlyHouse_closePaperPosition env e.market e.position e.owner (liquidationOf e) _)
  unfold indexPaperLiquidated
  dsimp only
  unfold liquidationOf at hclosed
  revert hclosed
  generalize closePaperPosition env e.market e.position e.owner _ _ = closed
  intro hclosed
  exact (hclosed.then ((sameHouses_pushPaperActivity env _ _ _ _ _ _ closed).onlyHouse _)).then
    ((sameHouses_markPaperStakeDirty _ _).onlyHouse _)

/-- An event that carries a house marks it, and changes no other. -/
theorem marksHouse_applySecondaryEvent {e : SecondaryEvent} {market : String}
    (h : houseOf e = some market) (p : Paper) :
    MarksHouse (addrKey market) p (p.applySecondaryEvent env e) := by
  cases e with
  | paperOpened e =>
      cases h
      have hhouse := marksHouse_applyPaperHouseAfter e.market e.house p
      exact hhouse.then
        (onlyHouse_upsertPaperPositionOpen env (OpenedPosition.row ⟨e, env.blockNum⟩) _)
  | paperClosed e =>
      cases h
      exact marksHouse_indexPaperClosed env e p
  | paperLiquidated e =>
      cases h
      exact marksHouse_indexPaperLiquidated env e p
  | paperQueued market index user amount house =>
      cases h
      have hqueued := onlyHouse_insertClaim ⟨market, index, userKey user, amount, env.stampMs⟩ p
      have hhouse := marksHouse_applyPaperHouseAfter market house
        { p with queueOpen := p.queueOpen.insert (paperQueueKey market index)
                  ⟨market, index, userKey user, amount, env.stampMs⟩ }
      exact ⟨hqueued.trans hhouse.only, hhouse.marked⟩
  | paperHarvested market index house =>
      cases h
      have hhouse := marksHouse_applyPaperHouseAfter market house
        { p with queueOpen := p.queueOpen.erase (paperQueueKey market index) }
      exact ⟨(onlyHouse_eraseClaim market index p).trans hhouse.only, hhouse.marked⟩
  | paperFeesPushed market stakerFee sweptStakers house =>
      cases h
      have hpushed := (sameHouses_applyPaperFeesPushedRewards market stakerFee sweptStakers
        p).onlyHouse (addrKey market)
      have hstake := hpushed.trans ((sameHouses_markPaperStakeDirty market _).onlyHouse _)
      have hhouse := marksHouse_applyPaperHouseAfter market house
        ((p.applyPaperFeesPushedRewards market stakerFee sweptStakers).markPaperStakeDirty market)
      exact ⟨hstake.trans hhouse.only, hhouse.marked⟩
  | oracleCommitted contract e => cases h
  | paperInstrumentAdded market instrument name priceMarket => cases h
  | paperClaimed market user reward => cases h
  | paperStaked market user amount => cases h
  | paperUnstaked market user amount => cases h

/-! ## What a house shows -/

theorem paperHouseView_congr {market : String}
    (hhouse : q.house.lookup (addrKey market) = p.house.lookup (addrKey market))
    (hvolume : q.volume.lookup (addrKey market) = p.volume.lookup (addrKey market))
    (hrows : valuesOf rowId (addrKey market) q.positionsOpen =
      valuesOf rowId (addrKey market) p.positionsOpen)
    (hexposures : q.exposures (addrKey market) = p.exposures (addrKey market))
    (hpnl : ∀ row ∈ valuesOf rowId (addrKey market) p.positionsOpen,
      q.userPnl row = p.userPnl row) :
    q.paperHouseView market = p.paperHouseView market := by
  have hsum : (valuesOf rowId (addrKey market) q.positionsOpen).foldl
        (fun sum row => wrapI128 (sum - q.userPnl row)) 0 =
      (valuesOf rowId (addrKey market) p.positionsOpen).foldl
        (fun sum row => wrapI128 (sum - p.userPnl row)) 0 := by
    rw [hrows]
    exact List.foldl_ext _ _ _ fun sum row hrow => by rw [hpnl row hrow]
  unfold valuesOf rowId at hrows hsum
  unfold exposures at hexposures
  unfold paperHouseView
  dsimp only
  rw [hhouse, hvolume, hexposures, hsum, hrows]

theorem houseShown_congr {market : String}
    (hhouse : q.house.lookup (addrKey market) = p.house.lookup (addrKey market))
    (hvolume : q.volume.lookup (addrKey market) = p.volume.lookup (addrKey market))
    (hrows : valuesOf rowId (addrKey market) q.positionsOpen =
      valuesOf rowId (addrKey market) p.positionsOpen)
    (hclaims : valuesOf claimId (addrKey market) q.queueOpen =
      valuesOf claimId (addrKey market) p.queueOpen)
    (hexposures : q.exposures (addrKey market) = p.exposures (addrKey market))
    (hpnl : ∀ row ∈ valuesOf rowId (addrKey market) p.positionsOpen,
      q.userPnl row = p.userPnl row) :
    q.houseShown market = p.houseShown market := by
  have hqueue : q.paperQueueClaimsForMarket market = p.paperQueueClaimsForMarket market :=
    congrArg (fun l : List PaperQueueClaim => l.mergeSort fun a b => a.index ≤ b.index) hclaims
  apply Prod.ext
  · rw [← addrKey_addrKey market] at hhouse hvolume hrows hexposures hpnl
    exact paperHouseView_congr hhouse hvolume hrows hexposures hpnl
  · change q.paperHouseQueue market = p.paperHouseQueue market
    unfold paperHouseQueue
    rw [hhouse, hqueue]

theorem userPnl_of_lookup {row : PaperPositionOpen}
    (hinstrument : q.instruments.lookup (paperInstrKey row.market row.instrument) =
      p.instruments.lookup (paperInstrKey row.market row.instrument))
    (hmarks : ∀ info ∈ p.instruments.lookup (paperInstrKey row.market row.instrument),
      q.oracleMarks.lookup info.priceMarket = p.oracleMarks.lookup info.priceMarket) :
    q.userPnl row = p.userPnl row := by
  unfold userPnl
  rw [hinstrument]
  cases hinfo : p.instruments.lookup (paperInstrKey row.market row.instrument) with
  | none => rfl
  | some info =>
      dsimp only [bind, Option.bind]
      rw [hmarks info hinfo]

theorem exposureOf_of_lookup {key : String} {oi : PaperInstrumentOi}
    (h : (oi.long = 0 ∧ oi.short = 0) ∨ q.instruments.lookup key = p.instruments.lookup key)
    (m : String) : q.exposureOf m ⟨key, oi⟩ = p.exposureOf m ⟨key, oi⟩ := by
  unfold exposureOf
  dsimp only
  cases instrumentOf m key with
  | none => rfl
  | some i =>
      dsimp only
      rcases h with hzero | hlookup
      · rw [if_pos hzero, if_pos hzero]
      · rw [hlookup]

theorem userPnl_congr (hinstruments : q.instruments = p.instruments)
    (hmarks : q.oracleMarks = p.oracleMarks) (row : PaperPositionOpen) :
    q.userPnl row = p.userPnl row := by
  unfold userPnl
  rw [hinstruments, hmarks]

theorem OnlyHouse.shown (h : OnlyHouse k p q) (hp : p.Keyed) {market : String}
    (hm : addrKey market ≠ k) : q.houseShown market = p.houseShown market :=
  houseShown_congr (h.house _ hm) (h.volume _ hm) (h.rows hp _ hm) (h.claims hp _ hm)
    (h.exposures _ hm) fun row _ => userPnl_congr h.instruments h.oracleMarks row

/-! ## Every event marks what it changes -/

def houseMarked (market : String) (p : Paper) : Prop :=
  addrKey market = "" ∨ addrKey market ∈ p.houseDirty

abbrev MarksHouses (p q : Paper) : Prop := Dirty.Marks houseShown houseMarked p q

theorem MarksHouse.marks (h : MarksHouse k p q) (hp : p.Keyed) : MarksHouses p q where
  changed := by
    intro market
    by_cases hm : addrKey market = k
    · refine Or.inl ?_
      unfold houseMarked
      rw [hm]
      exact h.marked
    · exact Or.inr (h.only.shown hp hm)
  kept := fun market => Or.imp_right (h.only.dirty _)

theorem SameHouses.marks (h : SameHouses p q) : MarksHouses p q := by
  refine Dirty.Marks.of_eq ?_ ?_
  · intro market
    exact houseShown_congr (by rw [h.house]) (by rw [h.volume]) (by rw [h.positionsOpen])
      (by rw [h.queueOpen]) (exposures_congr h.instruments h.oi _)
      fun row _ => userPnl_congr h.instruments h.oracleMarks row
  · intro market
    unfold houseMarked
    rw [h.dirty]
    exact id

theorem marks_paperInstrumentAdded {market name priceMarket : String} {instrument : UInt32}
    (hkeeps : SecondaryEvent.KeepsInstruments env.sdk p
      (.paperInstrumentAdded market instrument name priceMarket)) :
    MarksHouses p
      (p.applySecondaryEvent env (.paperInstrumentAdded market instrument name priceMarket)) := by
  refine Dirty.Marks.of_eq ?_ fun _ hm => hm
  intro m
  let row : PaperInstrumentMeta := ⟨name, normalizeSpotMarketKey env.sdk priceMarket⟩
  have hlookup : ∀ key, (p.instruments.insert (paperInstrKey market instrument) row).lookup key =
        p.instruments.lookup key ↔ key ≠ paperInstrKey market instrument ∨
      p.instruments.lookup (paperInstrKey market instrument) = some row := by
    intro key
    rw [Dict.lookup_insert_ite]
    split_ifs with hkey
    · rw [hkey]
      simp [eq_comm]
    · simp [hkey]
  refine houseShown_congr rfl rfl rfl rfl ?_ ?_
  · unfold exposures
    refine List.filterMap_congr fun e he => exposureOf_of_lookup ?_ (addrKey m)
    by_cases hkey : e.1 = paperInstrKey market instrument
    · rcases hkeeps with hidle | hsame
      · exact Or.inl (hidle.2 e.2 (hkey ▸ Dict.mem_entries_iff.mp he))
      · exact Or.inr ((hlookup e.1).mpr (Or.inr hsame))
    · exact Or.inr ((hlookup e.1).mpr (Or.inl hkey))
  · intro row hrow
    refine userPnl_of_lookup ?_ fun _ _ => rfl
    refine (hlookup _).mpr ?_
    by_cases hkey : paperInstrKey row.market row.instrument = paperInstrKey market instrument
    · rcases hkeeps with hidle | hsame
      · obtain ⟨hmarket, hinstrument⟩ := paperInstrKey_inj.mp hkey
        have hm := market_of_mem_valuesOf hrow
        change addrKey row.market = addrKey m at hm
        rw [← hm, hmarket] at hrow
        exact absurd hinstrument (hidle.1 row hrow)
      · exact Or.inr hsame
    · exact Or.inl hkey

/-- The instrument of the entry is priced by the oracle, and is one of the house. -/
def Prices (priceKey m : String) (e : Sigma fun _ : String => PaperInstrumentMeta) : Prop :=
  e.2.priceMarket = priceKey ∧
    ∃ market rest, Text.rsplitOnce ':' e.1 = some (market, rest) ∧ m = addrKey market

theorem mem_markPaperHouseDirtyForPriceMarket {priceMarket : String}
    (hkey : normalizeSpotMarketKey env.sdk priceMarket ≠ "") :
    m ∈ (p.markPaperHouseDirtyForPriceMarket env priceMarket).houseDirty ↔
      m ∈ p.houseDirty ∨ m ≠ "" ∧
        ∃ e ∈ p.instruments.entries, Prices (normalizeSpotMarketKey env.sdk priceMarket) m e := by
  unfold markPaperHouseDirtyForPriceMarket
  dsimp only
  rw [if_neg hkey]
  generalize normalizeSpotMarketKey env.sdk priceMarket = priceKey
  generalize p.instruments.entries = entries
  induction entries generalizing p with
  | nil => simp
  | cons e entries ih =>
      rw [List.foldl_cons, ih, List.exists_mem_cons_iff]
      unfold Prices
      split_ifs with hprice
      · cases hsplit : Text.rsplitOnce ':' e.1 with
        | none => simp
        | some split =>
            dsimp only
            rw [mem_markPaperHouseDirty]
            simp only [hprice, Option.some.injEq, true_and]
            constructor
            · rintro ((hm | ⟨hm, hne⟩) | ⟨hne, hrest⟩)
              · exact Or.inl hm
              · exact Or.inr ⟨hne, Or.inl ⟨split.1, split.2, rfl, hm⟩⟩
              · exact Or.inr ⟨hne, Or.inr hrest⟩
            · rintro (hm | ⟨hne, ⟨market, rest, rfl, hm⟩ | hrest⟩)
              · exact Or.inl (Or.inl hm)
              · exact Or.inl (Or.inr ⟨hm, hne⟩)
              · exact Or.inr ⟨hne, hrest⟩
      · simp [hprice]

/-- A step that marks the houses that it changes, takes no sample of them, and keeps the records
under their keys. -/
structure Moves (p q : Paper) : Prop where
  marks : MarksHouses p q
  keyed : q.Keyed
  houseHistory : q.houseHistory = p.houseHistory

theorem SameHouses.moves (h : SameHouses p q) (hp : p.Keyed) : Moves p q :=
  ⟨h.marks, h.keyed hp, h.houseHistory⟩

theorem Moves.trans (h : Moves p q) (h' : Moves q r) : Moves p r :=
  ⟨h.marks.trans h'.marks, h'.keyed, h'.houseHistory.trans h.houseHistory⟩

theorem moves_staked (hp : p.Keyed) (kind market user : String)
    (amount : UInt64) :
    Moves p ((p.pushPaperActivity env kind market user amount none none).markPaperStakeDirty
      market) := by
  have hpushed := sameHouses_pushPaperActivity env kind market user amount none none p
  have hstake := sameHouses_markPaperStakeDirty market
    (p.pushPaperActivity env kind market user amount none none)
  exact (hpushed.moves hp).trans (hstake.moves (hpushed.keyed hp))

variable {env} (lawful : LawfulSdk env.sdk)
include lawful

theorem recordOracleMark_eq {spotMarket : String} (e : OracleCommittedEvent)
    (hkey : normalizeSpotMarketKey env.sdk spotMarket ≠ "") :
    ∃ mark hist dirty, p.recordOracleMark env spotMarket e =
        { p with
          oracleMarks := p.oracleMarks.insert (normalizeSpotMarketKey env.sdk spotMarket) mark
          oracleHistory := hist
          houseDirty := dirty } ∧
      ∀ m, m ∈ dirty ↔ m ∈ p.houseDirty ∨ m ≠ "" ∧ ∃ e ∈ p.instruments.entries,
        Prices (normalizeSpotMarketKey env.sdk spotMarket) m e := by
  have hnormal := normalize_normalize lawful spotMarket
  unfold recordOracleMark
  dsimp only
  generalize Ring.push OracleMarkTick.tsMs oracleHistoryLimit _ _ = ring
  generalize normalizeSpotMarketKey env.sdk spotMarket = key at hkey hnormal ⊢
  generalize hmarked : ({ p with
    oracleHistory := p.oracleHistory.insert key ring
    oracleMarks := p.oracleMarks.insert key
      ⟨key, e.round, e.oraclePrice, e.markPrice, env.blockNum, env.stampMs⟩ } : Paper) = marked
  have hdirty := fun m => @mem_markPaperHouseDirtyForPriceMarket marked m env key
    (by rw [hnormal]; exact hkey)
  rw [hnormal] at hdirty
  obtain ⟨dirty, heq⟩ := markPaperHouseDirtyForPriceMarket_eq env key marked
  rw [heq] at hdirty ⊢
  subst hmarked
  exact ⟨_, _, dirty, rfl, hdirty⟩

/-- An oracle mark changes the houses whose instruments it prices. -/
theorem marks_recordOracleMark {spotMarket : String} (e : OracleCommittedEvent)
    (hkey : normalizeSpotMarketKey env.sdk spotMarket ≠ "") :
    MarksHouses p (p.recordOracleMark env spotMarket e) := by
  obtain ⟨mark, hist, dirty, heq, hdirty⟩ := recordOracleMark_eq (p := p) lawful e hkey
  rw [heq]
  constructor
  · intro market
    by_cases hmarked : houseMarked market p ∨ addrKey market ≠ "" ∧
        ∃ e ∈ p.instruments.entries, Prices (normalizeSpotMarketKey env.sdk spotMarket)
          (addrKey market) e
    · rcases hmarked with (hempty | hold) | hprices
      · exact Or.inl (Or.inl hempty)
      · exact Or.inl (Or.inr ((hdirty _).mpr (Or.inl hold)))
      · exact Or.inl (Or.inr ((hdirty _).mpr (Or.inr hprices)))
    · refine Or.inr (houseShown_congr rfl rfl rfl rfl ?_ fun row hrow => ?_)
      · apply exposures_congr <;> rfl
      refine userPnl_of_lookup rfl fun info hinfo => ?_
      refine AList.lookup_insert_ne fun hprice => hmarked (Or.inr ⟨?_, ?_⟩)
      · exact fun hempty => hmarked (Or.inl (Or.inl hempty))
      · have hm := market_of_mem_valuesOf hrow
        change addrKey row.market = addrKey market at hm
        refine ⟨⟨paperInstrKey row.market row.instrument, info⟩, Dict.mem_entries_iff.mpr hinfo,
          hprice, addrKey row.market, Nat.repr row.instrument.toNat, ?_, ?_⟩
        · exact Text.rsplitOnce_colon _ (Text.colon_notMem_repr _)
        · rw [addrKey_addrKey, hm]
  · exact fun market hold => hold.imp_right fun hmem => (hdirty _).mpr (Or.inl hmem)

theorem keyed_recordOracleMark (hp : p.Keyed) {spotMarket : String} (e : OracleCommittedEvent)
    (hkey : normalizeSpotMarketKey env.sdk spotMarket ≠ "") :
    (p.recordOracleMark env spotMarket e).Keyed := by
  obtain ⟨mark, hist, dirty, heq, hdirty⟩ := recordOracleMark_eq (p := p) lawful e hkey
  rw [heq]
  refine ⟨hp.rows, hp.claims, fun m hm => ?_⟩
  rcases (hdirty m).mp hm with hold | ⟨hne, e, he, hprice, market, rest, hsplit, rfl⟩
  · exact hp.dirty m hold
  · exact ⟨addrKey_addrKey market, hne⟩

theorem moves_recordOracleMark (hp : p.Keyed) {spotMarket : String} (e : OracleCommittedEvent)
    (hkey : normalizeSpotMarketKey env.sdk spotMarket ≠ "") :
    Moves p (p.recordOracleMark env spotMarket e) where
  marks := marks_recordOracleMark lawful e hkey
  keyed := keyed_recordOracleMark lawful hp e hkey
  houseHistory := by
    obtain ⟨mark, hist, dirty, heq, hdirty⟩ := recordOracleMark_eq (p := p) lawful e hkey
    rw [heq]

/-- Every event marks the houses that it changes. -/
theorem moves_applySecondaryEvent (hp : p.Keyed) {e : SecondaryEvent}
    (hkeeps : e.KeepsInstruments env.sdk p) : Moves p (p.applySecondaryEvent env e) := by
  cases hhouse : houseOf e with
  | some market =>
      have hmarks := marksHouse_applySecondaryEvent env hhouse p
      exact ⟨hmarks.marks hp, hmarks.only.keyed hp, hmarks.only.houseHistory⟩
  | none =>
      cases e with
      | oracleCommitted contract e =>
          unfold applySecondaryEvent
          dsimp only
          split_ifs with hempty
          · exact ⟨Dirty.Marks.refl p, hp, rfl⟩
          · cases contract with
            | none => exact absurd rfl hempty
            | some contract =>
                have hkey : normalizeSpotMarketKey env.sdk
                    (normalizeSpotMarketKey env.sdk contract) ≠ "" := by
                  rw [normalize_normalize lawful]
                  exact hempty
                exact moves_recordOracleMark lawful hp e hkey
      | paperInstrumentAdded market instrument name priceMarket =>
          exact ⟨marks_paperInstrumentAdded env hkeeps, ⟨hp.rows, hp.claims, hp.dirty⟩, rfl⟩
      | paperClaimed market user reward =>
          have hclaimed := sameHouses_applyPaperClaimedReward market user reward p
          have hstake := sameHouses_markPaperStakeDirty market
            (p.applyPaperClaimedReward market user reward)
          exact (hclaimed.moves hp).trans (hstake.moves (hclaimed.keyed hp))
      | paperStaked market user amount => exact moves_staked env hp "staked" market user amount
      | paperUnstaked market user amount => exact moves_staked env hp "unstaked" market user amount
      | paperOpened e => cases hhouse
      | paperClosed e => cases hhouse
      | paperLiquidated e => cases hhouse
      | paperQueued market index user amount house => cases hhouse
      | paperHarvested market index house => cases hhouse
      | paperFeesPushed market stakerFee sweptStakers house => cases hhouse

end Paper

end ClobIndexer
