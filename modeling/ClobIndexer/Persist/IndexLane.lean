import ClobIndexer.Lib.Runs
import ClobIndexer.Persist.IndexWriteSet
/-!
# The index-state pipeline

`src/persist/index_state_write.rs`: one task builds a batch from each write set, one
writes the batches in the same order.  The build runs ahead of the write, and for a
full replacement it lists the keys to delete from the tables as they are while it
builds.  A row that a batch ahead of it brings later is not in that list.
-/

namespace ClobIndexer

open Lib

/-- The tables, in the order in which `build_index_write_batch` clears them. -/
inductive IndexTable where
  | markets
  | orders
  | bookLevels
  | bookMeta
  | lastTrades
  | vaults
  | vaultPortfolio
deriving DecidableEq

def IndexTable.all : List IndexTable :=
  [.markets, .orders, .bookLevels, .bookMeta, .lastTrades, .vaults, .vaultPortfolio]

structure FoundKeys where
  markets : String → Bool := fun _ => false
  orders : String → Bool := fun _ => false
  bookLevels : LevelKey → Bool := fun _ => false
  bookMeta : String → Bool := fun _ => false
  lastTrades : String → Bool := fun _ => false
  vaults : String → Bool := fun _ => false
  vaultPortfolio : String × String → Bool := fun _ => false

def FoundKeys.clearMap (t : IndexTables) (found : FoundKeys) : IndexTable → FoundKeys
  | .markets => { found with markets := TableWrites.keysFound t.markets }
  | .orders => { found with orders := TableWrites.keysFound t.orders }
  | .bookLevels => { found with bookLevels := TableWrites.keysFound t.bookLevels }
  | .bookMeta => { found with bookMeta := TableWrites.keysFound t.bookMeta }
  | .lastTrades => { found with lastTrades := TableWrites.keysFound t.lastTrades }
  | .vaults => { found with vaults := TableWrites.keysFound t.vaults }
  | .vaultPortfolio => { found with vaultPortfolio := TableWrites.keysFound t.vaultPortfolio }

structure BuiltIndexBatch where
  ws : IndexWriteSet
  found : FoundKeys := {}

/-- `batch.write()`: the keys found are deleted, then the deletes and the stores of the
write set follow. -/
def BuiltIndexBatch.write (b : BuiltIndexBatch) (t : IndexTables) : IndexTables where
  head := some (b.ws.blockNum, b.ws.digest)
  markets := b.ws.markets.apply (TableWrites.deleteFound b.found.markets t.markets)
  orders := b.ws.orders.apply (TableWrites.deleteFound b.found.orders t.orders)
  bookLevels := b.ws.bookLevels.apply (TableWrites.deleteFound b.found.bookLevels t.bookLevels)
  bookMeta := b.ws.bookMeta.apply (TableWrites.deleteFound b.found.bookMeta t.bookMeta)
  lastTrades := b.ws.lastTrades.apply (TableWrites.deleteFound b.found.lastTrades t.lastTrades)
  vaults := b.ws.vaults.apply (TableWrites.deleteFound b.found.vaults t.vaults)
  vaultPortfolio :=
    b.ws.vaultPortfolio.apply (TableWrites.deleteFound b.found.vaultPortfolio t.vaultPortfolio)

structure IndexBuild where
  ws : IndexWriteSet
  found : FoundKeys := {}
  toClear : List IndexTable

/-- The queue of write sets, the set in the build task, the channel of batches, the batch
in the write task, and the tables. -/
structure IndexLane where
  queue : List IndexWriteSet := []
  building : Option IndexBuild := none
  batches : List BuiltIndexBatch := []
  writing : Option BuiltIndexBatch := none
  tables : IndexTables

def indexWriteCapacity : Nat := 32

def builtBatchCapacity : Nat := 32

/-- What the two tasks and those who enqueue do.  A build that fails is dropped, and so
is a batch whose write fails. -/
inductive LaneAction where
  | enqueueIndexWrite (ws : IndexWriteSet)
  | startBuild
  | clearMap
  | finishBuild (ok : Bool)
  | startWrite
  | finishWrite (ok : Bool)

namespace IndexLane

def step (l : IndexLane) : LaneAction → Option IndexLane
  | .enqueueIndexWrite ws =>
      if l.queue.length < indexWriteCapacity then some { l with queue := l.queue ++ [ws] } else none
  | .startBuild =>
      match l.building, l.queue with
      | none, ws :: queue =>
          let toClear := if ws.fullReplace then IndexTable.all else []
          some { l with queue := queue, building := some { ws := ws, toClear := toClear } }
      | _, _ => none
  | .clearMap =>
      match l.building with
      | some ⟨ws, found, table :: toClear⟩ =>
          some { l with building := some ⟨ws, found.clearMap l.tables table, toClear⟩ }
      | _ => none
  | .finishBuild ok =>
      match l.building with
      | some build =>
          if ok = false then some { l with building := none }
          else if build.toClear = [] ∧ l.batches.length < builtBatchCapacity then
            some { l with building := none, batches := l.batches ++ [⟨build.ws, build.found⟩] }
          else none
      | none => none
  | .startWrite =>
      match l.writing, l.batches with
      | none, b :: batches => some { l with batches := batches, writing := some b }
      | _, _ => none
  | .finishWrite ok =>
      match l.writing with
      | some b =>
          some { l with writing := none, tables := if ok then b.write l.tables else l.tables }
      | none => none

def apply (l : IndexLane) (a : LaneAction) : IndexLane := (l.step a).getD l

end IndexLane

/-- The tables hold the rows of the write set and no others, under its head. -/
structure IndexTables.HoldsOnly (t : IndexTables) (ws : IndexWriteSet) : Prop where
  head : t.head = some (ws.blockNum, ws.digest)
  bookLevels : t.bookLevels = fun k => ws.bookLevels.store.lookup k
  bookMeta : t.bookMeta = fun k => ws.bookMeta.store.lookup k
  lastTrades : t.lastTrades = fun k => ws.lastTrades.store.lookup k
  vaults : t.vaults = fun k => ws.vaults.store.lookup k
  vaultPortfolio : t.vaultPortfolio = fun k => ws.vaultPortfolio.store.lookup k

/-- No row has come into the tables that the scans did not find and the write set does
not write. -/
structure BuiltIndexBatch.Covers (b : BuiltIndexBatch) (t : IndexTables) : Prop where
  bookLevels : b.ws.bookLevels.Covers b.found.bookLevels t.bookLevels
  bookMeta : b.ws.bookMeta.Covers b.found.bookMeta t.bookMeta
  lastTrades : b.ws.lastTrades.Covers b.found.lastTrades t.lastTrades
  vaults : b.ws.vaults.Covers b.found.vaults t.vaults
  vaultPortfolio : b.ws.vaultPortfolio.Covers b.found.vaultPortfolio t.vaultPortfolio

theorem BuiltIndexBatch.holdsOnly_write_iff (b : BuiltIndexBatch) (t : IndexTables) :
    (b.write t).HoldsOnly b.ws ↔ b.Covers t := by
  constructor
  · intro h
    exact
      { bookLevels := (TableWrites.apply_deleteFound_iff _ _ _).mp h.bookLevels
        bookMeta := (TableWrites.apply_deleteFound_iff _ _ _).mp h.bookMeta
        lastTrades := (TableWrites.apply_deleteFound_iff _ _ _).mp h.lastTrades
        vaults := (TableWrites.apply_deleteFound_iff _ _ _).mp h.vaults
        vaultPortfolio := (TableWrites.apply_deleteFound_iff _ _ _).mp h.vaultPortfolio }
  · intro h
    exact
      { head := rfl
        bookLevels := (TableWrites.apply_deleteFound_iff _ _ _).mpr h.bookLevels
        bookMeta := (TableWrites.apply_deleteFound_iff _ _ _).mpr h.bookMeta
        lastTrades := (TableWrites.apply_deleteFound_iff _ _ _).mpr h.lastTrades
        vaults := (TableWrites.apply_deleteFound_iff _ _ _).mpr h.vaults
        vaultPortfolio := (TableWrites.apply_deleteFound_iff _ _ _).mpr h.vaultPortfolio }

/-- A batch that is built on the tables it is written to is the write set applied at once. -/
theorem BuiltIndexBatch.write_built (ws : IndexWriteSet) (t : IndexTables) :
    let toClear := if ws.fullReplace then IndexTable.all else []
    (BuiltIndexBatch.mk ws (toClear.foldl (FoundKeys.clearMap t) {})).write t =
      t.applyIndexWriteSet ws := by
  unfold BuiltIndexBatch.write IndexTables.applyIndexWriteSet
  cases ws.fullReplace with
  | false => rfl
  | true =>
      simp only [if_true, IndexTable.all, List.foldl_cons, List.foldl_nil, FoundKeys.clearMap,
        TableWrites.deleteFound_keysFound]
      rfl

namespace IndexLane

/-- If the action writes the batch of a full replacement, the tables then hold its rows
and no others. -/
def Replaces (l : IndexLane) (a : LaneAction) : Prop :=
  a = .finishWrite true → ∀ b, l.writing = some b → b.ws.fullReplace = true →
    (l.apply a).tables.HoldsOnly b.ws

/-- If the action writes the batch of a full replacement, no row has come since the scan of
its table that the write set does not write. -/
def NothingLate (l : IndexLane) (a : LaneAction) : Prop :=
  a = .finishWrite true → ∀ b, l.writing = some b → b.ws.fullReplace = true → b.Covers l.tables

theorem replaces_iff_nothingLate (l : IndexLane) (a : LaneAction) :
    l.Replaces a ↔ l.NothingLate a := by
  unfold Replaces NothingLate
  refine forall_congr' fun ha => forall_congr' fun b => forall_congr' fun hb =>
    forall_congr' fun _ => ?_
  have htables : (l.apply a).tables = b.write l.tables := by
    subst ha
    unfold apply step
    rw [hb]
    rfl
  rw [htables]
  exact b.holdsOnly_write_iff l.tables

/-- Along every interleaving, each full replacement leaves its rows and no others exactly
when nothing late is in the tables where it is written. -/
theorem replaces_along_iff (actions : List LaneAction) (l : IndexLane) :
    Along apply Replaces actions l ↔ Along apply NothingLate actions l :=
  along_congr replaces_iff_nothingLate actions l

/-! ## Scans with nothing ahead -/

def ahead (l : IndexLane) : List BuiltIndexBatch := l.writing.toList ++ l.batches

/-- A table is scanned only when every batch built before is written. -/
def ScansAlone (l : IndexLane) (a : LaneAction) : Prop := a = .clearMap → l.ahead = []

end IndexLane

def FoundKeys.Has (found : FoundKeys) (t : IndexTables) : IndexTable → Prop
  | .markets => found.markets = TableWrites.keysFound t.markets
  | .orders => found.orders = TableWrites.keysFound t.orders
  | .bookLevels => found.bookLevels = TableWrites.keysFound t.bookLevels
  | .bookMeta => found.bookMeta = TableWrites.keysFound t.bookMeta
  | .lastTrades => found.lastTrades = TableWrites.keysFound t.lastTrades
  | .vaults => found.vaults = TableWrites.keysFound t.vaults
  | .vaultPortfolio => found.vaultPortfolio = TableWrites.keysFound t.vaultPortfolio

theorem FoundKeys.has_clearMap (found : FoundKeys) (t : IndexTables) (table : IndexTable) :
    (found.clearMap t table).Has t table := by
  cases table <;> rfl

theorem FoundKeys.has_clearMap_of_ne {found : FoundKeys} {t : IndexTables}
    {table other : IndexTable} (hne : other ≠ table) (h : found.Has t other) :
    (found.clearMap t table).Has t other := by
  cases table <;> cases other <;> first | exact absurd rfl hne | exact h

theorem BuiltIndexBatch.covers_of_has {b : BuiltIndexBatch} {t : IndexTables}
    (h : ∀ table, b.found.Has t table) : b.Covers t where
  bookLevels := (h .bookLevels : b.found.bookLevels = _) ▸ TableWrites.covers_keysFound _ _
  bookMeta := (h .bookMeta : b.found.bookMeta = _) ▸ TableWrites.covers_keysFound _ _
  lastTrades := (h .lastTrades : b.found.lastTrades = _) ▸ TableWrites.covers_keysFound _ _
  vaults := (h .vaults : b.found.vaults = _) ▸ TableWrites.covers_keysFound _ _
  vaultPortfolio := (h .vaultPortfolio : b.found.vaultPortfolio = _) ▸
    TableWrites.covers_keysFound _ _

namespace IndexLane

/-- What scans with nothing ahead keep: a full replacement has found the keys that the
tables have, from its first scan until it is written, and is first in line. -/
structure Lonely (l : IndexLane) : Prop where
  building : ∀ build, l.building = some build → build.ws.fullReplace = true →
    build.toClear = IndexTable.all ∨
      l.ahead = [] ∧ ∀ table, table ∉ build.toClear → build.found.Has l.tables table
  first : ∀ b, l.ahead.head? = some b → b.ws.fullReplace = true →
    ∀ table, b.found.Has l.tables table
  rest : ∀ b ∈ l.ahead.tail, b.ws.fullReplace = false

theorem step_cases {l l' : IndexLane} {a : LaneAction} (h : l.step a = some l') :
    match (motive := LaneAction → Prop) a with
    | .enqueueIndexWrite ws => l' = { l with queue := l.queue ++ [ws] }
    | .startBuild => ∃ ws queue, l.queue = ws :: queue ∧ l.building = none ∧
        l' = { l with
          queue := queue
          building := some ⟨ws, {}, if ws.fullReplace then IndexTable.all else []⟩ }
    | .clearMap => ∃ ws found table toClear, l.building = some ⟨ws, found, table :: toClear⟩ ∧
        l' = { l with building := some ⟨ws, found.clearMap l.tables table, toClear⟩ }
    | .finishBuild ok => ∃ build, l.building = some build ∧
        (l' = { l with building := none } ∨
          ok = true ∧ build.toClear = [] ∧
            l' = { l with
              building := none
              batches := l.batches ++ [⟨build.ws, build.found⟩] })
    | .startWrite => ∃ b batches, l.batches = b :: batches ∧ l.writing = none ∧
        l' = { l with batches := batches, writing := some b }
    | .finishWrite ok => ∃ b, l.writing = some b ∧
        l' = { l with writing := none, tables := if ok then b.write l.tables else l.tables } := by
  cases a with
  | enqueueIndexWrite ws =>
      simp only [step, Option.ite_none_right_eq_some, Option.some.injEq] at h
      exact h.2.symm
  | startBuild =>
      unfold step at h
      cases hbuilding : l.building <;> cases hqueue : l.queue <;> rw [hbuilding, hqueue] at h <;>
        cases h
      exact ⟨_, _, rfl, rfl, rfl⟩
  | clearMap =>
      unfold step at h
      cases hbuilding : l.building with
      | none => rw [hbuilding] at h; cases h
      | some build =>
          obtain ⟨ws, found, toClear⟩ := build
          rw [hbuilding] at h
          cases toClear with
          | nil => cases h
          | cons table toClear =>
              cases h
              exact ⟨ws, found, table, toClear, rfl, rfl⟩
  | finishBuild ok =>
      unfold step at h
      cases hbuilding : l.building with
      | none => rw [hbuilding] at h; cases h
      | some build =>
          rw [hbuilding] at h
          dsimp only at h
          refine ⟨build, rfl, ?_⟩
          split_ifs at h with hok hready
          · cases h
            exact Or.inl rfl
          · cases h
            exact Or.inr ⟨Bool.eq_true_of_not_eq_false hok, hready.1, rfl⟩
  | startWrite =>
      unfold step at h
      cases hwriting : l.writing <;> cases hbatches : l.batches <;>
        rw [hwriting, hbatches] at h <;> cases h
      exact ⟨_, _, rfl, rfl, rfl⟩
  | finishWrite ok =>
      unfold step at h
      cases hwriting : l.writing with
      | none => rw [hwriting] at h; cases h
      | some b =>
          rw [hwriting] at h
          cases h
          exact ⟨b, rfl, rfl⟩

theorem lonely_step {l l' : IndexLane} {a : LaneAction} (h : Lonely l) (hscan : l.ScansAlone a)
    (hstep : l.step a = some l') : Lonely l' := by
  have hcases := step_cases hstep
  cases a with
  | enqueueIndexWrite ws =>
      subst hcases
      exact ⟨h.building, h.first, h.rest⟩
  | startBuild =>
      obtain ⟨ws, queue, -, -, rfl⟩ := hcases
      refine ⟨?_, h.first, h.rest⟩
      rintro build hbuild hfull
      cases hbuild
      exact Or.inl (if_pos hfull)
  | clearMap =>
      obtain ⟨ws, found, table, toClear, hbuilding, rfl⟩ := hcases
      have hahead : l.ahead = [] := hscan rfl
      refine ⟨?_, h.first, h.rest⟩
      rintro build hbuild hfull
      cases hbuild
      refine Or.inr ⟨hahead, ?_⟩
      intro other hother
      by_cases heq : other = table
      · rw [heq]
        exact found.has_clearMap l.tables table
      · have hnot : other ∉ table :: toClear := by
          rw [List.mem_cons, not_or]
          exact ⟨heq, hother⟩
        apply FoundKeys.has_clearMap_of_ne heq
        rcases h.building _ hbuilding hfull with hall | ⟨-, hhas⟩
        · dsimp only at hall
          rw [hall] at hnot
          exact absurd (by cases other <;> decide) hnot
        · exact hhas other hnot
  | finishBuild ok =>
      obtain ⟨build, hbuilding, rfl | ⟨-, hclear, rfl⟩⟩ := hcases
      · exact ⟨fun _ hnone => (by cases hnone), h.first, h.rest⟩
      · have hahead : ∀ b : BuiltIndexBatch,
            ahead { l with building := none, batches := l.batches ++ [b] } = l.ahead ++ [b] :=
          fun b => (List.append_assoc _ _ _).symm
        refine ⟨fun _ hnone => (by cases hnone), ?_, ?_⟩
        · intro b hb hfull
          rw [hahead] at hb
          cases hl : l.ahead with
          | nil =>
              rw [hl] at hb
              cases hb
              rcases h.building build hbuilding hfull with hall | ⟨-, hhas⟩
              · rw [hclear] at hall
                cases hall
              · exact fun table => hhas table (by rw [hclear]; exact List.not_mem_nil)
          | cons b' rest =>
              rw [hl] at hb
              cases hb
              exact h.first _ (by rw [hl]; rfl) hfull
        · intro b hb
          rw [hahead] at hb
          cases hl : l.ahead with
          | nil =>
              rw [hl] at hb
              cases hb
          | cons b' rest =>
              rw [hl, List.cons_append, List.tail_cons, List.mem_append, List.mem_singleton] at hb
              rcases hb with hb | rfl
              · exact h.rest b (by rw [hl]; exact hb)
              · -- a full replacement would have scanned with nothing ahead
                by_contra hfull
                rcases h.building build hbuilding (Bool.eq_true_of_not_eq_false hfull) with
                  hall | ⟨hnil, -⟩
                · rw [hclear] at hall
                  cases hall
                · rw [hl] at hnil
                  cases hnil
  | startWrite =>
      obtain ⟨b, batches, hbatches, hwriting, rfl⟩ := hcases
      have hahead : ahead { l with batches := batches, writing := some b } = l.ahead := by
        unfold ahead
        rw [hbatches, hwriting]
        rfl
      constructor
      · rw [hahead]
        exact h.building
      · rw [hahead]
        exact h.first
      · rw [hahead]
        exact h.rest
  | finishWrite ok =>
      obtain ⟨b, hwriting, rfl⟩ := hcases
      have hahead : l.ahead = b :: l.batches := by
        unfold ahead
        rw [hwriting]
        rfl
      have hrest : ∀ b' ∈ l.batches, b'.ws.fullReplace = false := by
        have hrest := h.rest
        rw [hahead] at hrest
        exact hrest
      refine ⟨?_, ?_, ?_⟩
      · intro build hbuild hfull
        rcases h.building build hbuild hfull with hall | ⟨hnil, -⟩
        · exact Or.inl hall
        · rw [hahead] at hnil
          cases hnil
      · intro b' hb' hfull
        have hmem : b' ∈ l.batches := List.mem_of_mem_head? hb'
        rw [hrest b' hmem] at hfull
        cases hfull
      · exact fun b' hb' => hrest b' (List.mem_of_mem_tail hb')

theorem lonely_apply {l : IndexLane} {a : LaneAction} (h : Lonely l) (hscan : l.ScansAlone a) :
    Lonely (l.apply a) := by
  unfold apply
  cases hstep : l.step a with
  | none => exact h
  | some l' => exact lonely_step h hscan hstep

/-- A build that scans with nothing ahead replaces everything. -/
theorem replaces_of_scansAlone {actions : List LaneAction} {l : IndexLane} (h : Lonely l)
    (hscans : Along apply ScansAlone actions l) : Along apply Replaces actions l := by
  refine along_of_along (fun _ _ h hscan => lonely_apply h hscan) ?_ h hscans
  intro l a h _
  rw [replaces_iff_nothingLate]
  intro ha b hb hfull
  have hfirst : l.ahead.head? = some b := by
    unfold ahead
    rw [hb]
    rfl
  exact BuiltIndexBatch.covers_of_has (h.first b hfirst hfull)

end IndexLane

namespace Sample

/-- A row of one block, and the full replacement by an index without rows. -/
def tradeThenReplace : IndexLane where
  queue := [{ blockNum := 7, digest := "07", lastTrades := .put "m" 5 .empty },
    { blockNum := 8, digest := "08", fullReplace := true }]
  tables := .empty

def buildAhead : List LaneAction :=
  [.startBuild, .finishBuild true, .startBuild] ++ List.replicate 7 .clearMap ++
    [.finishBuild true, .startWrite, .finishWrite true, .startWrite, .finishWrite true]

theorem buildAhead_leaves_row :
    ¬Along IndexLane.apply IndexLane.Replaces buildAhead tradeThenReplace := by
  intro h
  have hlast : (buildAhead.dropLast.foldl IndexLane.apply tradeThenReplace).Replaces
      (.finishWrite true) := h.2.2.2.2.2.2.2.2.2.2.2.2.2.2.1
  have hrow := congrFun (hlast rfl _ rfl rfl).lastTrades "m"
  exact absurd hrow (by decide)

end Sample

end ClobIndexer
