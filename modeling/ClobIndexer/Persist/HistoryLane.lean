import ClobIndexer.HexSdk
import ClobIndexer.Lib.Runs
import ClobIndexer.Persist.SqliteLane
import ClobIndexer.Persist.StateStore
/-!
# Which row of the history wins

The pipeline of the history, drained, should leave for each key the row of the operation
that was enqueued last.  The batches keep the order in which the operations reach the
coalescer, and the tables that of the batches; only the encode workers may overtake each
other.
-/

namespace ClobIndexer

open Lib

inductive HistoryKey where
  | order (id : String)
  | bar (spotMarket : String) (interval : BarInterval) (startTs : Int)
  | house (market : String) (tsMs : Int)
  | position (market : String) (position : Int64)
deriving DecidableEq

def EncodedPersistOp.key (sdk : Sdk) : EncodedPersistOp → HistoryKey
  | .upsertOrderHistory orderId _ _ _ _ _ _ _ => .order orderId
  | .saveClosedBar bar =>
      .bar (normalizeSpotMarketKey sdk bar.spotMarket) bar.interval (sqliteInteger bar.startTs)
  | .savePaperHouseHistory row => .house row.marketKey (sqliteInteger row.tsMs)
  | .savePaperPositionHistory market position _ _ _ => .position market position

namespace StateStore

variable (sdk : Sdk)

/-- The row of the operation's key is the one of the operation.  The time of a status is the
writer's clock; a row of a series that is trimmed may have made room for newer ones. -/
def Holds (s : StateStore) : EncodedPersistOp → Prop
  | .upsertOrderHistory orderId userAddress chainOrderId spotMarket sizeRaw filledRaw status
      payload =>
      ∃ statusTsMs, s.orderHistory.lookup orderId = some
        ⟨orderId, userAddress, chainOrderId, spotMarket, sizeRaw, filledRaw, status, payload,
          statusTsMs⟩
  | .saveClosedBar bar =>
      SeriesTable.Kept barHistoryLimit (normalizeSpotMarketKey sdk bar.spotMarket, bar.interval)
        (sqliteInteger bar.startTs) bar.columns s.bars
  | .savePaperHouseHistory row =>
      SeriesTable.Kept paperHouseHistoryLimit row.marketKey (sqliteInteger row.tsMs) row.columns
        s.paperHouseHistory
  | .savePaperPositionHistory market position owner closedBlock payload =>
      s.paperPositionHistory.lookup (market, position) = some ⟨owner, closedBlock, payload⟩

def LastWins (ops : List EncodedPersistOp) (s : StateStore) : Prop :=
  ∀ k, ∀ e ∈ (ops.filter fun e => e.key sdk = k).getLast?, s.Holds sdk e

variable {sdk} {s : StateStore} {e other : EncodedPersistOp} {ops : List EncodedPersistOp}

theorem holds_execute (s : StateStore) (e : EncodedPersistOp) : (s.execute sdk e).Holds sdk e := by
  cases e with
  | upsertOrderHistory orderId userAddress chainOrderId spotMarket sizeRaw filledRaw status
      payload => exact ⟨s.nowMs, AList.lookup_insert _⟩
  | saveClosedBar bar => exact SeriesTable.kept_upsert _ _ _ _ _
  | savePaperHouseHistory row => exact SeriesTable.kept_upsert _ _ _ _ _
  | savePaperPositionHistory market position owner closedBlock payload =>
      exact AList.lookup_insert _

theorem Holds.execute (h : s.Holds sdk e) (hne : e.key sdk ≠ other.key sdk) :
    (s.execute sdk other).Holds sdk e := by
  cases e with
  | upsertOrderHistory orderId userAddress chainOrderId spotMarket sizeRaw filledRaw status
      payload =>
      cases other with
      | upsertOrderHistory orderId' _ _ _ _ _ _ _ =>
          obtain ⟨statusTsMs, hrow⟩ := h
          have hid : orderId ≠ orderId' := fun heq => hne (congrArg HistoryKey.order heq)
          exact ⟨statusTsMs, (AList.lookup_insert_ne hid).trans hrow⟩
      | saveClosedBar _ => exact h
      | savePaperHouseHistory _ => exact h
      | savePaperPositionHistory _ _ _ _ _ => exact h
  | saveClosedBar bar =>
      cases other with
      | saveClosedBar bar' =>
          refine SeriesTable.Kept.upsert h (fun heq => hne ?_) _
          simp only [Prod.mk.injEq] at heq
          obtain ⟨⟨hmarket, hinterval⟩, hstart⟩ := heq
          simp only [EncodedPersistOp.key, hmarket, hinterval, hstart]
      | upsertOrderHistory _ _ _ _ _ _ _ _ => exact h
      | savePaperHouseHistory _ => exact h
      | savePaperPositionHistory _ _ _ _ _ => exact h
  | savePaperHouseHistory row =>
      cases other with
      | savePaperHouseHistory row' =>
          refine SeriesTable.Kept.upsert h (fun heq => hne ?_) _
          rw [Prod.mk.injEq] at heq
          simp only [EncodedPersistOp.key, heq.1, heq.2]
      | upsertOrderHistory _ _ _ _ _ _ _ _ => exact h
      | saveClosedBar _ => exact h
      | savePaperPositionHistory _ _ _ _ _ => exact h
  | savePaperPositionHistory market position owner closedBlock payload =>
      cases other with
      | savePaperPositionHistory market' position' _ _ _ =>
          have hid : (market, position) ≠ (market', position') := by
            intro heq
            rw [Prod.mk.injEq] at heq
            exact hne (by simp only [EncodedPersistOp.key, heq.1, heq.2])
          exact (AList.lookup_insert_ne hid).trans h
      | upsertOrderHistory _ _ _ _ _ _ _ _ => exact h
      | saveClosedBar _ => exact h
      | savePaperHouseHistory _ => exact h

theorem Holds.trim (h : s.Holds sdk e) (other : EncodedPersistOp) :
    (s.trim sdk other).Holds sdk e := by
  cases other with
  | upsertOrderHistory _ _ _ _ _ _ _ _ => exact h
  | savePaperPositionHistory _ _ _ _ _ => exact h
  | saveClosedBar bar =>
      cases e with
      | saveClosedBar bar' => exact SeriesTable.Kept.trim h (by decide) _
      | upsertOrderHistory _ _ _ _ _ _ _ _ => exact h
      | savePaperHouseHistory _ => exact h
      | savePaperPositionHistory _ _ _ _ _ => exact h
  | savePaperHouseHistory row =>
      cases e with
      | savePaperHouseHistory row' => exact SeriesTable.Kept.trim h (by decide) _
      | upsertOrderHistory _ _ _ _ _ _ _ _ => exact h
      | saveClosedBar _ => exact h
      | savePaperPositionHistory _ _ _ _ _ => exact h

theorem LastWins.execute (h : s.LastWins sdk ops) (e : EncodedPersistOp) :
    (s.execute sdk e).LastWins sdk (ops ++ [e]) := by
  intro k last hlast
  rw [List.filter_append, List.filter_cons, List.filter_nil] at hlast
  by_cases hk : e.key sdk = k
  · rw [if_pos (decide_eq_true hk), List.getLast?_append, List.getLast?_singleton] at hlast
    rw [← Option.some.inj hlast]
    exact holds_execute s e
  · rw [if_neg (by simpa using hk), List.append_nil] at hlast
    have hlastk : last.key sdk = k := by
      have hmem := List.mem_of_getLast? hlast
      exact of_decide_eq_true (List.mem_filter.mp hmem).2
    exact (h k last hlast).execute fun heq => hk (heq.symm.trans hlastk)

/-- A batch is its operations in their order. -/
theorem LastWins.applyEncodedStateBatch (h : s.LastWins sdk ops) (batch : List EncodedPersistOp) :
    (s.applyEncodedStateBatch sdk batch).LastWins sdk (ops ++ batch) := by
  have hexecuted : (batch.foldl (StateStore.execute sdk) s).LastWins sdk (ops ++ batch) := by
    induction batch generalizing s ops with
    | nil => rwa [List.append_nil]
    | cons e batch ih =>
        have hrest := ih (h.execute e)
        rwa [List.append_assoc] at hrest
  have htrimmed : ∀ (trimmed : List EncodedPersistOp) (s : StateStore),
      s.LastWins sdk (ops ++ batch) →
        (trimmed.foldl (StateStore.trim sdk) s).LastWins sdk (ops ++ batch) := by
    intro trimmed
    induction trimmed with
    | nil => exact fun s h => h
    | cons e trimmed ih =>
        exact fun s h => ih (s.trim sdk e) fun k last hlast => (h k last hlast).trim e
  exact htrimmed batch _ hexecuted

end StateStore

/-! ## Runs of the lane -/

/-- The pipeline of the history, with the operations that its queue has accepted and those
that are in the tables, oldest first. -/
structure HistoryLane where
  lane : SqliteLane PersistOp EncodedPersistOp StateStore
  accepted : List PersistOp := []
  written : List EncodedPersistOp := []

inductive HistoryAction where
  | lane (a : SqliteAction PersistOp)
  | clock (nowMs : Int64)

namespace HistoryLane

variable (sdk : Sdk) (json : HistoryJson)

def step (h : HistoryLane) : HistoryAction → HistoryLane
  | .lane a =>
      { lane := h.lane.apply (encodePersistOp sdk json) (StateStore.applyEncodedStateBatch sdk) a
        accepted := h.accepted ++ h.lane.accepts a
        written := h.written ++ (h.lane.writes a).getD [] }
  | .clock nowMs => { h with lane := { h.lane with tables := { h.lane.tables with nowMs } } }

/-- No operation is lost, and none is passed on before an earlier one of its key that
differs. -/
def InTurn (h : HistoryLane) : HistoryAction → Prop
  | .lane a => h.lane.InTurn (encodePersistOp sdk json) (EncodedPersistOp.key sdk) a
  | .clock _ => True

def Ordered (h : HistoryLane) : Prop :=
  h.lane.Ordered (encodePersistOp sdk json) (EncodedPersistOp.key sdk) h.accepted h.written

/-- Once nothing is on its way, each key has the row of the last operation accepted for it. -/
def LastWins (h : HistoryLane) : Prop :=
  h.lane.Drained →
    h.lane.tables.LastWins sdk (h.accepted.filterMap (encodePersistOp sdk json))

variable {sdk json}

theorem ordered_step_iff (h : HistoryLane) (a : HistoryAction) (hordered : h.Ordered sdk json) :
    (h.step sdk json a).Ordered sdk json ↔ h.InTurn sdk json a := by
  cases a with
  | lane a => exact SqliteLane.ordered_apply_iff hordered a
  | clock nowMs => exact iff_of_true hordered trivial

/-- The tables hold the last of what was written. -/
theorem written_step (h : HistoryLane) (a : HistoryAction)
    (hwritten : h.lane.tables.LastWins sdk h.written) :
    (h.step sdk json a).lane.tables.LastWins sdk (h.step sdk json a).written := by
  cases a with
  | lane a =>
      unfold step
      dsimp only
      rw [SqliteLane.tables_apply]
      cases h.lane.writes a with
      | none => rwa [Option.getD_none, List.append_nil]
      | some batch => exact hwritten.applyEncodedStateBatch batch
  | clock nowMs =>
      intro k e he
      have hrow := hwritten k e he
      cases e <;> exact hrow

theorem lastWins_of_ordered {h : HistoryLane} (hordered : h.Ordered sdk json)
    (hwritten : h.lane.tables.LastWins sdk h.written) : h.LastWins sdk json := by
  intro hdrained k e he
  have hsame := hordered k
  rw [hdrained.1, hdrained.2, List.append_nil, List.filterMap_nil, List.append_nil] at hsame
  rw [hsame] at he
  exact hwritten k e he

/-- In every run from tables with any rows, the operations of each key stay in order exactly
if every action is in turn; then the last operation of each key wins. -/
theorem lastWins_of_inTurn (sdk : Sdk) (json : HistoryJson) (s : StateStore)
    (actions : List HistoryAction) :
    (Throughout (step sdk json) (Ordered sdk json) actions { lane := { tables := s } } ↔
      Along (step sdk json) (InTurn sdk json) actions { lane := { tables := s } }) ∧
    (Along (step sdk json) (InTurn sdk json) actions { lane := { tables := s } } →
      Throughout (step sdk json) (LastWins sdk json) actions { lane := { tables := s } }) := by
  have hkeeps : ∀ (h : HistoryLane) (a : HistoryAction), True →
      h.lane.tables.LastWins sdk h.written →
        (h.step sdk json a).lane.tables.LastWins sdk (h.step sdk json a).written :=
    fun h a _ hwritten => written_step h a hwritten
  have hstep : ∀ (h : HistoryLane) (a : HistoryAction), True →
      h.lane.tables.LastWins sdk h.written → h.Ordered sdk json →
        ((h.step sdk json a).Ordered sdk json ↔ h.InTurn sdk json a) :=
    fun h a _ _ hordered => ordered_step_iff h a hordered
  have hempty : ({ lane := { tables := s } } : HistoryLane).Ordered sdk json := fun _ => rfl
  have hnothing : s.LastWins sdk [] := fun _ _ he => nomatch he
  have hiff : Throughout (step sdk json) (Ordered sdk json) actions { lane := { tables := s } } ↔
      Along (step sdk json) (InTurn sdk json) actions { lane := { tables := s } } :=
    throughout_iff_along hkeeps hstep (fun _ _ => trivial) hnothing hempty
  refine ⟨hiff, fun hturn => ?_⟩
  have hwritten : Throughout (step sdk json) (fun h => h.lane.tables.LastWins sdk h.written) actions
      { lane := { tables := s } } := throughout_of_keeps hkeeps (fun _ _ => trivial) hnothing
  exact ((hiff.mpr hturn).and hwritten).mono fun h hboth => lastWins_of_ordered hboth.1 hboth.2

end HistoryLane

namespace Sample

def houseAt (funds : Int) : PaperHouseHistoryRow := ⟨market, 1000, funds, 0, 0, 0⟩

def noJson : HistoryJson := ⟨fun _ => none, fun _ => none, nofun, fun _ => none⟩

/-- Two workers take the two rows, and the later one is passed on first. -/
def overtakenHouse : List HistoryAction :=
  [.enqueue (.savePaperHouseHistory (houseAt 1)), .enqueue (.savePaperHouseHistory (houseAt 2)),
    .take, .take, .finishEncode 1 true, .finishEncode 0 true, .coalesce, .coalesce, .closeBatch,
    .sendBatch, .startWrite, .finishWrite true].map .lane

/-- The lane is drained and the table has the house of the earlier block. -/
theorem overtakenHouse_keeps_older :
    ¬Throughout (HistoryLane.step sdk noJson) (HistoryLane.LastWins sdk noJson) overtakenHouse
        { lane := { tables := {} } } := by
  intro h
  let done := overtakenHouse.foldl (HistoryLane.step sdk noJson) { lane := { tables := {} } }
  have hdrained : done.lane.Drained := ⟨by decide +kernel, by decide +kernel⟩
  have hlast := h.finish hdrained (.house market 1000) (.savePaperHouseHistory (houseAt 2))
    (by decide +kernel)
  have hvalue := hlast.value (houseAt 1).columns (by decide +kernel)
  revert hvalue
  decide +kernel

end Sample

end ClobIndexer
