import ClobIndexer.PaperLedger
/-!
# The history of the closed positions

A closed position becomes a row of the history.  What the row tells of the opening
is taken from the row of the open position, and only the memory of the process holds
that one: neither the tables nor a checkpoint do.  A process that starts again, or
that takes over the checkpoint of a peer, has forgotten what is open, and the closing
rows then tell zeroes.
-/

namespace ClobIndexer

open Lib

/-- What happens to the paper market: an event, a start of the process on its tables
with no block to replay, or the checkpoint of a peer. -/
inductive PaperOp where
  | event (s : PaperStep)
  | recoverFromPersist (history : List (String × List PaperHouseHistoryRow))
  | applyCheckpointSnapshot

structure PositionEnd where
  market : String
  position : UInt64
  owner : String

def PositionEnd.id (c : PositionEnd) : String × UInt64 := (addrKey c.market, c.position)

def PaperOp.ends : PaperOp → Option PositionEnd
  | .event ⟨_, .paperClosed e⟩ => some ⟨e.market, e.position, e.owner⟩
  | .event ⟨_, .paperLiquidated e⟩ => some ⟨e.market, e.position, e.owner⟩
  | _ => none

namespace Paper

/-- `clear_all`; the rows that the history lane was handed stay with it. -/
def clearAll (p : Paper) : Paper where
  positionRows := p.positionRows
  houseRows := p.houseRows

/-- `hydrate_paper_house_history_from_persist`, from the rows of each market. -/
def hydratePaperHouseHistory (history : List (String × List PaperHouseHistoryRow)) (p : Paper) :
    Paper :=
  history.foldl
    (fun p loaded =>
      if loaded.2 = [] then p
      else
        let ticks := loaded.2.map fun row : PaperHouseHistoryRow =>
          (⟨row.tsMs, row.houseFundsRaw, row.lpBalanceRaw, row.openHousePnlRaw,
            row.queueDebtRaw⟩ : PaperHouseTick)
        { p with houseHistory := p.houseHistory.insert (addrKey loaded.1) ticks }) p

def apply (p : Paper) : PaperOp → Paper
  | .event s => p.step s
  | .recoverFromPersist history => p.clearAll.hydratePaperHouseHistory history
  | .applyCheckpointSnapshot => p.clearAll

end Paper

/-- The paper market, beside the positions that the events have left open and those of
them that were opened since the process last began anew. -/
structure PaperTrace where
  paper : Paper := {}
  opened : PaperLedger := ∅
  kept : PaperLedger := ∅

namespace PaperTrace

def step (t : PaperTrace) (op : PaperOp) : PaperTrace where
  paper := t.paper.apply op
  opened :=
    match op with
    | .event s => t.opened.step s
    | _ => t.opened
  kept :=
    match op with
    | .event s => t.kept.step s
    | _ => ∅

end PaperTrace

structure PaperPositionHistory.CameFrom (row : PaperPositionHistory) (o : PaperPositionOpen) :
    Prop where
  owner : row.owner = userKey o.owner
  instrument : row.instrument = o.instrument
  isLong : row.isLong = o.isLong
  notional : row.notional = o.notional
  entryPrice : row.entryPrice = o.entryPrice
  bustPrice : row.bustPrice = o.bustPrice
  openedBlock : row.openedBlock = o.openedBlock

/-- A position opened with the values that stand in for one that was never seen. -/
structure OpenedPosition.LooksUnseen (o : OpenedPosition) (owner : String) : Prop where
  owner : userKey owner = userKey o.event.owner
  instrument : o.event.instrument = 0
  isLong : o.event.isLong = true
  notional : o.event.notional = 0
  entryPrice : o.event.entryPrice = 0
  bustPrice : o.event.bustPrice = 0
  blockNum : o.blockNum = 0

namespace PaperTrace

/-- If the event ends an open position, one row is handed to the history lane, and it
tells the opening. -/
def Recorded (t : PaperTrace) (op : PaperOp) : Prop :=
  ∀ c, op.ends = some c → ∀ o, t.opened.lookup c.id = some o →
    ∃ row, (t.step op).paper.positionRows = t.paper.positionRows ++ [row] ∧
      row.market = addrKey c.market ∧ row.position = c.position ∧ row.CameFrom o.row

/-- If the event ends an open position, the process has not begun anew since it was
opened, or it was opened with the values of a position that was never seen. -/
def Remembered (t : PaperTrace) (op : PaperOp) : Prop :=
  ∀ c, op.ends = some c → ∀ o, t.opened.lookup c.id = some o →
    c.id ∈ t.kept ∨ o.LooksUnseen c.owner

end PaperTrace

/-! ## The row that a closing hands on -/

namespace Paper

variable (env : PaperEnv) (p : Paper)

@[simp] theorem positionRows_markPaperHouseDirty (market : String) :
    (p.markPaperHouseDirty market).positionRows = p.positionRows := by
  unfold markPaperHouseDirty
  split_ifs <;> rfl

@[simp] theorem positionRows_markPaperStakeDirty (market : String) :
    (p.markPaperStakeDirty market).positionRows = p.positionRows := by
  unfold markPaperStakeDirty
  split_ifs <;> rfl

@[simp] theorem positionRows_applyPaperHouseAfter (market : String) (house : PaperHouseAfter) :
    (p.applyPaperHouseAfter market house).positionRows = p.positionRows := by
  simp [applyPaperHouseAfter]

def HandsOn (c : PositionEnd) (p q : Paper) : Prop :=
  ∃ row : PaperPositionHistory, q.positionRows = p.positionRows ++ [row] ∧
    row.market = addrKey c.market ∧ row.position = c.position ∧
    row.CameFrom ((p.positionsOpen.lookup (paperPositionKey c.market c.position)).getD
      (unseenPosition c.market c.position c.owner))

theorem handsOn_closePaperPosition (c : PositionEnd) (closing : Closing) :
    HandsOn c p (p.closePaperPosition env c.market c.position c.owner closing) := by
  unfold HandsOn closePaperPosition
  dsimp only
  rw [positionRows_markPaperHouseDirty]
  cases p.positionsOpen.lookup (paperPositionKey c.market c.position) with
  | none => exact ⟨_, rfl, rfl, rfl, ⟨rfl, rfl, rfl, rfl, rfl, rfl, rfl⟩⟩
  | some o => exact ⟨_, rfl, rfl, rfl, ⟨rfl, rfl, rfl, rfl, rfl, rfl, rfl⟩⟩

theorem HandsOn.congr {c : PositionEnd} {p p' q q' : Paper} (h : HandsOn c p q)
    (hpositions : p'.positionsOpen = p.positionsOpen) (hrows : p'.positionRows = p.positionRows)
    (hrows' : q'.positionRows = q.positionRows) : HandsOn c p' q' := by
  unfold HandsOn
  rw [hpositions, hrows, hrows']
  exact h

theorem handsOn_step (s : PaperStep) {c : PositionEnd}
    (hends : (PaperOp.event s).ends = some c) : HandsOn c p (p.step s) := by
  obtain ⟨env, e⟩ := s
  cases e with
  | paperClosed e =>
      cases hends
      change HandsOn _ p (p.indexPaperClosed env e)
      unfold indexPaperClosed
      dsimp only
      have hclosed := handsOn_closePaperPosition env (p.applyPaperHouseAfter e.market e.house)
        ⟨e.market, e.position, e.owner⟩ (closingOf e)
      refine hclosed.congr ?_ ?_ ?_
      · simp
      · simp
      · split_ifs <;> simp [pushPaperActivity, closingOf]
  | paperLiquidated e =>
      cases hends
      change HandsOn _ p (p.indexPaperLiquidated env e)
      unfold indexPaperLiquidated
      dsimp only
      have hclosed := handsOn_closePaperPosition env (p.applyPaperHouseAfter e.market e.house)
        ⟨e.market, e.position, e.owner⟩ (liquidationOf e)
      refine hclosed.congr ?_ ?_ ?_
      · simp
      · simp
      · simp [pushPaperActivity, liquidationOf]
  | _ => cases hends

/-- Every event keeps the rows of the open positions with the ledger. -/
theorem rowsOf_step {l : PaperLedger} {p : Paper} (h : RowsOf l p) (s : PaperStep) :
    RowsOf (l.step s) (p.step s) := by
  obtain ⟨env, e⟩ := s
  by_cases hmoves : e.MovesPosition
  · cases e with
    | paperOpened e =>
        exact rowsOf_opened h e env.blockNum (opened_indexPaperOpened env p e).1
    | paperClosed e => exact rowsOf_closed h (closesAt_indexPaperClosed env p e)
    | paperLiquidated e => exact rowsOf_closed h (closesAt_indexPaperLiquidated env p e)
    | _ => cases hmoves
  · have hkept := (kept_applySecondaryEvent env p e hmoves).1
    have hledger : l.step ⟨env, e⟩ = l := by
      cases e with
      | paperOpened e => exact absurd trivial hmoves
      | paperClosed e => exact absurd trivial hmoves
      | paperLiquidated e => exact absurd trivial hmoves
      | _ => rfl
    rw [hledger]
    intro id
    change (p.applySecondaryEvent env e).positionsOpen.lookup (positionKey id) = _
    rw [hkept]
    exact h id

end Paper

/-! ## What the row tells -/

theorem formatOracleHuman_ne_zero {raw : UInt64} (h : raw ≠ 0) : formatOracleHuman raw ≠ "0" :=
  pieces_ne_zero (fun hz => h ((Word.eq_zero_iff raw).mpr hz)) _

theorem formatTokenAmount_eq_zero_iff {raw : UInt64} : formatTokenAmount raw = "0" ↔ raw = 0 := by
  constructor
  · exact fun h => by_contra fun hne => formatTokenAmount_ne_zero hne h
  · rintro rfl
    decide

theorem formatOracleHuman_eq_zero_iff {raw : UInt64} : formatOracleHuman raw = "0" ↔ raw = 0 := by
  constructor
  · exact fun h => by_contra fun hne => formatOracleHuman_ne_zero hne h
  · rintro rfl
    decide

/-- A row made from nothing tells the opening only if the opening looks like nothing. -/
theorem cameFrom_unseen_iff {row : PaperPositionHistory} {market owner : String} {position : UInt64}
    (h : row.CameFrom (Paper.unseenPosition market position owner)) (o : OpenedPosition) :
    row.CameFrom o.row ↔ o.LooksUnseen owner := by
  constructor
  · intro hrow
    exact
      { owner := h.owner.symm.trans hrow.owner
        instrument := hrow.instrument.symm.trans h.instrument
        isLong := hrow.isLong.symm.trans h.isLong
        notional := formatTokenAmount_eq_zero_iff.mp (hrow.notional.symm.trans h.notional)
        entryPrice := formatOracleHuman_eq_zero_iff.mp (hrow.entryPrice.symm.trans h.entryPrice)
        bustPrice := formatOracleHuman_eq_zero_iff.mp (hrow.bustPrice.symm.trans h.bustPrice)
        blockNum := hrow.openedBlock.symm.trans h.openedBlock }
  · intro hlooks
    exact
      { owner := h.owner.trans hlooks.owner
        instrument := h.instrument.trans hlooks.instrument.symm
        isLong := h.isLong.trans hlooks.isLong.symm
        notional := h.notional.trans (formatTokenAmount_eq_zero_iff.mpr hlooks.notional).symm
        entryPrice := h.entryPrice.trans (formatOracleHuman_eq_zero_iff.mpr hlooks.entryPrice).symm
        bustPrice := h.bustPrice.trans (formatOracleHuman_eq_zero_iff.mpr hlooks.bustPrice).symm
        openedBlock := h.openedBlock.trans hlooks.blockNum.symm }

namespace PaperTrace

/-- The memory holds the positions opened since the process began anew, and these are
among those that the events have left open. -/
structure Sound (t : PaperTrace) : Prop where
  rows : Paper.RowsOf t.kept t.paper
  known : ∀ id o, t.kept.lookup id = some o → t.opened.lookup id = some o

theorem sound_empty : Sound {} := ⟨fun _ => rfl, fun _ _ h => nomatch h⟩

theorem known_step {kept opened : PaperLedger}
    (h : ∀ id o, kept.lookup id = some o → opened.lookup id = some o) (s : PaperStep) :
    ∀ id o, (kept.step s).lookup id = some o → (opened.step s).lookup id = some o := by
  obtain ⟨env, e⟩ := s
  cases e with
  | paperOpened e =>
      intro id o ho
      unfold PaperLedger.step at ho ⊢
      rw [Dict.lookup_insert_ite] at ho ⊢
      split_ifs at ho ⊢ with hid
      · exact ho
      · exact h id o ho
  | paperClosed e =>
      intro id o ho
      unfold PaperLedger.step at ho ⊢
      rw [Dict.lookup_erase_ite] at ho ⊢
      split_ifs at ho ⊢ with hid
      exact h id o ho
  | paperLiquidated e =>
      intro id o ho
      unfold PaperLedger.step at ho ⊢
      rw [Dict.lookup_erase_ite] at ho ⊢
      split_ifs at ho ⊢ with hid
      exact h id o ho
  | _ => exact h

theorem positionsOpen_hydratePaperHouseHistory
    (history : List (String × List PaperHouseHistoryRow)) (p : Paper) :
    (p.hydratePaperHouseHistory history).positionsOpen = p.positionsOpen := by
  unfold Paper.hydratePaperHouseHistory
  induction history generalizing p with
  | nil => rfl
  | cons loaded rest ih =>
      rw [List.foldl_cons, ih]
      split_ifs <;> rfl

theorem sound_step {t : PaperTrace} (h : Sound t) (op : PaperOp) : Sound (t.step op) := by
  cases op with
  | event s => exact ⟨Paper.rowsOf_step h.rows s, known_step h.known s⟩
  | recoverFromPersist history =>
      refine ⟨?_, fun _ _ hkept => nomatch hkept⟩
      intro id
      change ((t.paper.clearAll.hydratePaperHouseHistory history).positionsOpen).lookup _ = _
      rw [positionsOpen_hydratePaperHouseHistory]
      rfl
  | applyCheckpointSnapshot => exact ⟨fun _ => rfl, fun _ _ hkept => nomatch hkept⟩

theorem recorded_iff_remembered {t : PaperTrace} (h : Sound t) (op : PaperOp) :
    t.Recorded op ↔ t.Remembered op := by
  unfold Recorded Remembered
  refine forall_congr' fun c => forall_congr' fun hends => forall_congr' fun o =>
    forall_congr' fun ho => ?_
  cases op with
  | recoverFromPersist history => cases hends
  | applyCheckpointSnapshot => cases hends
  | event s =>
      obtain ⟨row, hrow, hmarket, hposition, hfrom⟩ := Paper.handsOn_step t.paper s hends
      -- the one row that is handed on is this one
      have honly : (∃ row', (t.step (.event s)).paper.positionRows = t.paper.positionRows ++ [row'] ∧
          row'.market = addrKey c.market ∧ row'.position = c.position ∧ row'.CameFrom o.row) ↔
            row.CameFrom o.row := by
        constructor
        · rintro ⟨row', hrow', -, -, hfrom'⟩
          have heq := List.append_cancel_left (hrow'.symm.trans hrow)
          cases heq
          exact hfrom'
        · exact fun hrow' => ⟨row, hrow, hmarket, hposition, hrow'⟩
      rw [honly]
      have hlookup : t.paper.positionsOpen.lookup (paperPositionKey c.market c.position) =
          (t.kept.lookup c.id).map OpenedPosition.row := h.rows c.id
      rw [hlookup] at hfrom
      cases hkept : t.kept.lookup c.id with
      | some o' =>
          have heq : o' = o := by
            have hknown := (h.known c.id o' hkept).symm.trans ho
            exact Option.some.inj hknown
          rw [hkept, heq] at hfrom
          exact iff_of_true hfrom (Or.inl (Dict.mem_iff_lookup.mpr ⟨o', hkept⟩))
      | none =>
          have hnotMem : c.id ∉ t.kept := AList.lookup_eq_none.mp hkept
          rw [hkept] at hfrom
          rw [or_iff_right hnotMem]
          exact cameFrom_unseen_iff hfrom o

/-- Along every sequence of events, starts and checkpoints, each closing hands on a row
that tells the opening of the position exactly when the process has not begun anew in
between, or the opening looks like nothing. -/
theorem recorded_along_iff (ops : List PaperOp) :
    Along step Recorded ops {} ↔ Along step Remembered ops {} :=
  along_iff_along (fun _ op h => sound_step h op) (fun _ op h => recorded_iff_remembered h op) ops
    sound_empty

end PaperTrace

namespace Sample

def closedOne : PaperStep :=
  ⟨paperEnv, .paperClosed ⟨paperMarket, 1, account, 600000, 0, 0, 0, 0, 5, {}⟩⟩

def openOverRestart : List PaperOp :=
  [.event (openedWith 1 100), .recoverFromPersist [], .event closedOne]

def closingOne : PositionEnd := ⟨paperMarket, 1, account⟩

def openedOne : OpenedPosition :=
  ⟨⟨paperMarket, 1, account, 3, true, 100, 10, 500000, 400000, false, {}⟩, 7⟩

def restarted : PaperTrace :=
  (PaperTrace.step {} (.event (openedWith 1 100))).step (.recoverFromPersist [])

theorem openOverRestart_forgotten :
    ¬Along PaperTrace.step PaperTrace.Recorded openOverRestart {} := by
  intro h
  have hopened : restarted.opened.lookup closingOne.id = some openedOne :=
    AList.lookup_insert _
  obtain ⟨row, hrow, -, -, hfrom⟩ := h.2.2.1 closingOne rfl openedOne hopened
  have hrows : ((restarted.step (.event closedOne)).paper.positionRows.map
      PaperPositionHistory.openedBlock) = [0] := by
    decide +kernel
  have htold : row.openedBlock = 0 := by
    rw [show (restarted.step (.event closedOne)).paper.positionRows = [row] from hrow] at hrows
    exact List.head_eq_of_cons_eq hrows
  exact absurd (htold.symm.trans hfrom.openedBlock) (by decide)

end Sample

end ClobIndexer
