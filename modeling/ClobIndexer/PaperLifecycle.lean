import ClobIndexer.PaperHouseMarks
/-!
# The feed of the paper positions

Every opening, closing and liquidation is announced, to the owner of the position and to all.
A client that knows the open positions and takes the announcements in order knows them from
then on, and what an end tells of a position is what the client has of it.
-/

namespace ClobIndexer

open Lib

structure PaperPositionWsMessage where
  event : String
  userAddress : String
  market : String
  position : UInt64
  blockNum : UInt64
  instrument : Option UInt32
  isLong : Option Bool
  bustPriceRaw : Option UInt64
  notional : Option String
  notionalRaw : Option UInt64
  margin : Option String
  marginRaw : Option UInt64
  entryPrice : Option String
  entryPriceRaw : Option UInt64
  instrumentName : Option String := none
  pnl : Option String
  pnlRaw : Option Int64
deriving DecidableEq

structure PaperUserWsMessage where
  event : String
  userAddress : String
  market : String
  position : UInt64
  blockNum : UInt64
deriving DecidableEq

def PaperPositionWsMessage.toUser (m : PaperPositionWsMessage) : PaperUserWsMessage :=
  ⟨m.event, m.userAddress, m.market, m.position, m.blockNum⟩

def PaperCloseKind.event : PaperCloseKind → String
  | .liquidated => "liquidated"
  | .closed => "closed"

namespace Paper

/-- `publish_paper_lifecycle`: the name of the instrument is added. -/
def publishPaperLifecycle (m : PaperPositionWsMessage) (p : Paper) : PaperPositionWsMessage :=
  { m with
    instrumentName := m.instrument.bind fun id =>
      (p.instruments.lookup (paperInstrKey m.market id)).map PaperInstrumentMeta.name }

def openedMessage (row : PaperPositionOpen) (p : Paper) : PaperPositionWsMessage :=
  p.publishPaperLifecycle
    { event := "opened"
      userAddress := row.owner
      market := row.market
      position := row.position
      blockNum := row.openedBlock
      instrument := some row.instrument
      isLong := some row.isLong
      bustPriceRaw := some row.bustPriceRaw
      notional := some row.notional
      notionalRaw := some row.notionalRaw
      margin := some row.margin
      marginRaw := some row.marginRaw
      entryPrice := some row.entryPrice
      entryPriceRaw := some row.entryPriceRaw
      pnl := none
      pnlRaw := none }

def closedMessage (market : String) (position : UInt64) (ownerFallback : String)
    (closedBlock : UInt64) (closing : Closing) (pnlRaw : Int64) (p : Paper) :
    PaperPositionWsMessage :=
  let row := (p.positionsOpen.lookup (paperPositionKey market position)).getD
    (unseenPosition market position ownerFallback)
  let (margin, marginRaw) :=
    match closing.knownMargin with
    | some raw => if raw = 0 then (row.margin, row.marginRaw) else (formatTokenAmount raw, raw)
    | none => (row.margin, row.marginRaw)
  p.publishPaperLifecycle
    { event := closing.kind.event
      userAddress := row.owner
      market := market
      position := position
      blockNum := closedBlock
      instrument := some row.instrument
      isLong := some row.isLong
      bustPriceRaw := none
      notional := some row.notional
      notionalRaw := some row.notionalRaw
      margin := some margin
      marginRaw := some marginRaw
      entryPrice := some row.entryPrice
      entryPriceRaw := some row.entryPriceRaw
      pnl := some closing.pnl
      pnlRaw := some pnlRaw }

/-- What an event announces.  The house and the interest, which come before, are not read. -/
def lifecycleMessage (env : PaperEnv) (p : Paper) : SecondaryEvent → Option PaperPositionWsMessage
  | .paperOpened e => some (p.openedMessage (OpenedPosition.row ⟨e, env.blockNum⟩))
  | .paperClosed e =>
      some (p.closedMessage e.market e.position e.owner env.blockNum (closingOf e) e.pnl)
  | .paperLiquidated e =>
      some (p.closedMessage e.market e.position e.owner env.blockNum (liquidationOf e)
        (-e.margin.toInt64))
  | _ => none

end Paper

/-! ## Boards -/

/-- An open position as a client knows it. -/
structure BoardRow where
  userAddress : String
  market : String
  position : UInt64
  blockNum : UInt64
  instrument : UInt32
  isLong : Bool
  bustPriceRaw : UInt64
  notional : String
  notionalRaw : UInt64
  margin : String
  marginRaw : UInt64
  entryPrice : String
  entryPriceRaw : UInt64
deriving DecidableEq

def PaperPositionOpen.boardRow (row : PaperPositionOpen) : BoardRow where
  userAddress := row.owner
  market := row.market
  position := row.position
  blockNum := row.openedBlock
  instrument := row.instrument
  isLong := row.isLong
  bustPriceRaw := row.bustPriceRaw
  notional := row.notional
  notionalRaw := row.notionalRaw
  margin := row.margin
  marginRaw := row.marginRaw
  entryPrice := row.entryPrice
  entryPriceRaw := row.entryPriceRaw

namespace PaperPositionWsMessage

def id (m : PaperPositionWsMessage) : String × UInt64 := (addrKey m.market, m.position)

def boardRow (m : PaperPositionWsMessage) : Option BoardRow := do
  return {
    userAddress := m.userAddress
    market := m.market
    position := m.position
    blockNum := m.blockNum
    instrument := ← m.instrument
    isLong := ← m.isLong
    bustPriceRaw := ← m.bustPriceRaw
    notional := ← m.notional
    notionalRaw := ← m.notionalRaw
    margin := ← m.margin
    marginRaw := ← m.marginRaw
    entryPrice := ← m.entryPrice
    entryPriceRaw := ← m.entryPriceRaw
  }

/-- The message of an end tells of the position; a liquidation has a margin of its own. -/
structure TellsOf (m : PaperPositionWsMessage) (row : BoardRow) : Prop where
  userAddress : m.userAddress = row.userAddress
  instrument : m.instrument = some row.instrument
  isLong : m.isLong = some row.isLong
  notional : m.notional = some row.notional ∧ m.notionalRaw = some row.notionalRaw
  entryPrice : m.entryPrice = some row.entryPrice ∧ m.entryPriceRaw = some row.entryPriceRaw
  margin : m.event = "closed" → m.margin = some row.margin ∧ m.marginRaw = some row.marginRaw

end PaperPositionWsMessage

abbrev PositionBoard := Dict (String × UInt64) BoardRow

namespace PositionBoard

def take (b : PositionBoard) (m : PaperPositionWsMessage) : PositionBoard :=
  if m.event = "opened" then
    match m.boardRow with
    | some row => b.insert m.id row
    | none => b
  else b.erase m.id

/-- The message fits what the client knows: an end tells of the position that it has. -/
def Expects (b : PositionBoard) (m : PaperPositionWsMessage) : Prop :=
  m.event ≠ "opened" → ∀ row ∈ b.lookup m.id, m.TellsOf row

/-- The client knows the open positions. -/
def Shows (b : PositionBoard) (p : Paper) : Prop :=
  ∀ id, b.lookup id = (p.positionsOpen.lookup (Paper.positionKey id)).map PaperPositionOpen.boardRow

end PositionBoard

def Paper.announced (p : Paper) : List PaperStep → List PaperPositionWsMessage
  | [] => []
  | s :: steps => (p.lifecycleMessage s.env s.event).toList ++ (p.step s).announced steps

/-! ## A client follows -/

namespace Paper

variable (env : PaperEnv) {p : Paper} {b : PositionBoard}

theorem boardRow_openedMessage (row : PaperPositionOpen) :
    (p.openedMessage row).boardRow = some row.boardRow := rfl

theorem event_openedMessage (row : PaperPositionOpen) : (p.openedMessage row).event = "opened" :=
  rfl

theorem take_openedMessage (row : PaperPositionOpen) :
    b.take (p.openedMessage row) = b.insert (rowId row) row.boardRow := by
  unfold PositionBoard.take
  rw [if_pos (event_openedMessage row), boardRow_openedMessage]
  rfl

section

variable (market : String) (position : UInt64) (ownerFallback : String) (closedBlock : UInt64)
  (closing : Closing) (pnlRaw : Int64)

theorem id_closedMessage :
    (p.closedMessage market position ownerFallback closedBlock closing pnlRaw).id =
      (addrKey market, position) := rfl

theorem event_closedMessage :
    (p.closedMessage market position ownerFallback closedBlock closing pnlRaw).event =
      closing.kind.event := rfl

theorem tellsOf_closedMessage {row : PaperPositionOpen}
    (hrow : p.positionsOpen.lookup (paperPositionKey market position) = some row)
    (hmargin : closing.kind = .closed → closing.knownMargin = none) :
    (p.closedMessage market position ownerFallback closedBlock closing pnlRaw).TellsOf
      row.boardRow := by
  unfold closedMessage
  rw [hrow, Option.getD_some]
  refine ⟨rfl, rfl, rfl, ⟨rfl, rfl⟩, ⟨rfl, rfl⟩, fun hevent => ?_⟩
  cases hkind : closing.kind with
  | closed =>
      rw [hmargin hkind]
      exact ⟨rfl, rfl⟩
  | liquidated =>
      change closing.kind.event = "closed" at hevent
      rw [hkind] at hevent
      exact absurd hevent (by decide)

end

theorem shows_insert (h : b.Shows p) (row : PaperPositionOpen) {q : Paper}
    (hq : q.positionsOpen =
      p.positionsOpen.insert (paperPositionKey row.market row.position) row) :
    PositionBoard.Shows (b.insert (rowId row) row.boardRow) q := by
  intro id
  rw [hq, Dict.lookup_insert_ite, Dict.lookup_insert_ite]
  by_cases hid : id = rowId row
  · rw [if_pos hid, if_pos (positionKey_eq.mpr hid), Option.map_some]
  · rw [if_neg hid, if_neg fun heq => hid (positionKey_eq.mp heq)]
    exact h id

theorem shows_erase (h : b.Shows p) {market : String} {position : UInt64} {q : Paper}
    (hq : ClosesAt market position p q) :
    PositionBoard.Shows (b.erase (addrKey market, position)) q := by
  have hopen : ∀ id, q.positionsOpen.lookup (positionKey id) =
      if id = (addrKey market, position) then none else p.positionsOpen.lookup (positionKey id) := by
    intro id
    cases hlookup : p.positionsOpen.lookup (paperPositionKey market position) with
    | none =>
        rw [(hq.unseen hlookup).1]
        split_ifs with hid
        · rw [positionKey_eq.mpr hid, hlookup]
        · rfl
    | some row =>
        rw [(hq.seen row hlookup).1, Dict.lookup_erase_ite]
        by_cases hid : id = (addrKey market, position)
        · rw [if_pos hid, if_pos (positionKey_eq.mpr hid)]
        · rw [if_neg hid, if_neg fun heq => hid (positionKey_eq.mp heq)]
  intro id
  rw [hopen, Dict.lookup_erase_ite]
  split_ifs with hid
  · rfl
  · exact h id

/-- The end of a position is announced after it. -/
theorem shows_closedMessage (h : b.Shows p) {market : String} {position : UInt64}
    (ownerFallback : String) (closedBlock : UInt64) (closing : Closing) (pnlRaw : Int64) {q : Paper}
    (hq : ClosesAt market position p q)
    (hmargin : closing.kind = .closed → closing.knownMargin = none) :
    (b.take (p.closedMessage market position ownerFallback closedBlock closing pnlRaw)).Shows q ∧
      b.Expects (p.closedMessage market position ownerFallback closedBlock closing pnlRaw) := by
  have hevent : closing.kind.event ≠ "opened" := by cases closing.kind <;> decide
  constructor
  · unfold PositionBoard.take
    rw [event_closedMessage, if_neg hevent, id_closedMessage]
    exact shows_erase h hq
  · intro _ row hrow
    rw [id_closedMessage, h, positionKey_eq.mpr rfl] at hrow
    obtain ⟨row', hrow', rfl⟩ := Option.map_eq_some_iff.mp hrow
    exact tellsOf_closedMessage market position ownerFallback closedBlock closing pnlRaw hrow'
      hmargin

def TakesTo (b : PositionBoard) (q : Paper) (m : Option PaperPositionWsMessage) : Prop :=
  (m.toList.foldl PositionBoard.take b).Shows q ∧ ∀ m' ∈ m, b.Expects m'

theorem shows_applySecondaryEvent (h : b.Shows p) (e : SecondaryEvent) :
    TakesTo b (p.applySecondaryEvent env e) (p.lifecycleMessage env e) := by
  have hsome : ∀ {m : PaperPositionWsMessage} {q : Paper}, (b.take m).Shows q → b.Expects m →
      TakesTo b q (some m) :=
    fun hshows hexpects => ⟨hshows, fun m' hm => Option.some.inj hm ▸ hexpects⟩
  have hnone : ¬e.MovesPosition → TakesTo b (p.applySecondaryEvent env e) none := by
    intro hmoves
    refine ⟨fun id => ?_, fun m hm => nomatch hm⟩
    rw [(kept_applySecondaryEvent env p e hmoves).1]
    exact h id
  cases e with
  | paperOpened e =>
      have hopened := shows_insert h (OpenedPosition.row ⟨e, env.blockNum⟩)
        (opened_indexPaperOpened env p e).1
      rw [← take_openedMessage (p := p)] at hopened
      exact hsome hopened fun hother => absurd (event_openedMessage _) hother
  | paperClosed e =>
      obtain ⟨hshows, hexpects⟩ := shows_closedMessage h e.owner env.blockNum (closingOf e) e.pnl
        (closesAt_indexPaperClosed env p e) fun _ => rfl
      exact hsome hshows hexpects
  | paperLiquidated e =>
      obtain ⟨hshows, hexpects⟩ := shows_closedMessage h e.owner env.blockNum (liquidationOf e)
        (-e.margin.toInt64) (closesAt_indexPaperLiquidated env p e) fun hkind => by cases hkind
      exact hsome hshows hexpects
  | _ => exact hnone id

end Paper

/-- After every sequence of events, from any state: a client that knew the open positions and
has taken the announcements since knows them, and every end told of the position that the client
had. -/
theorem shows_announced (steps : List PaperStep) (p : Paper) (b : PositionBoard)
    (h : b.Shows p) :
    ((p.announced steps).foldl PositionBoard.take b).Shows (steps.foldl Paper.step p) ∧
      Along PositionBoard.take PositionBoard.Expects (p.announced steps) b := by
  induction steps generalizing p b with
  | nil => exact ⟨h, trivial⟩
  | cons s steps ih =>
      obtain ⟨hstep, hexpects⟩ := Paper.shows_applySecondaryEvent s.env h s.event
      obtain ⟨hshows, hrest⟩ := ih (p.step s) _ hstep
      unfold Paper.announced
      rw [List.foldl_append]
      refine ⟨hshows, ?_⟩
      cases hmessage : p.lifecycleMessage s.env s.event with
      | none =>
          rw [hmessage] at hrest
          exact hrest
      | some m =>
          rw [hmessage] at hrest
          exact ⟨hexpects m hmessage, hrest⟩

namespace Sample

def lifecycleSteps : List PaperStep :=
  [openedWith 1 5, openedWith 2 7,
    ⟨paperEnv, .paperLiquidated ⟨paperMarket, 1, account, account, 2, 5, 0, {}⟩⟩]

theorem shows_lifecycleSteps :
    ((({} : Paper).announced lifecycleSteps).map PaperPositionWsMessage.event =
        ["opened", "opened", "liquidated"]) ∧
      PositionBoard.Shows ((({} : Paper).announced lifecycleSteps).foldl PositionBoard.take ∅)
        (lifecycleSteps.foldl Paper.step {}) :=
  ⟨by decide +kernel, (shows_announced lifecycleSteps {} ∅ fun _ => rfl).1⟩

end Sample

end ClobIndexer
