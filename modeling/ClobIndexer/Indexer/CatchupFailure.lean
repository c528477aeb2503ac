import ClobIndexer.Indexer.PeerHead
/-!
# A catch-up that fails

`run_peer_catchup` once more, with what it leaves behind when it returns an error.  The
checkpoint replaces the index in memory before anything is written to disk, and the head
is written only behind the last buffered block, so each error after the download leaves a
head that names the block from before.
-/

namespace ClobIndexer

open Lib

/-- The shared head, the index, and the block that the index has taken last. -/
structure IndexedHead where
  head : UInt64 × String
  ctx : Ctx
  last : UInt64 × String

inductive CatchupOutcome where
  | ok
  | err
  | waiting
deriving DecidableEq

structure SnapshotStores where
  checkpoint : Bool := true
  deleteBlocksThrough : Bool := true
  deleteBlocksAfter : Bool := true
  deletePaperPositionHistoryAfter : Bool := true

def SnapshotStores.all (stores : SnapshotStores) : Bool :=
  stores.checkpoint && stores.deleteBlocksThrough && stores.deleteBlocksAfter &&
    stores.deletePaperPositionHistoryAfter

section

variable (env : Env) (decodeBlockPayload : UInt64 → List UInt8 → Option ReceiptBlock)

/-- Apply the peer's blocks up to the first that does not decode, and say whether there is
one. -/
def applyPeerBlocks : List BlockRow → Catchup → Bool × Catchup
  | [], s => (true, s)
  | row :: rows, s =>
      match s.applyPeerBlock env decodeBlockPayload row with
      | some s' => applyPeerBlocks rows s'
      | none => (false, s)

def installDownload (stores : SnapshotStores) (download : Download) (buffer : List ReceiptBlock)
    (i : IndexedHead) : CatchupOutcome × IndexedHead :=
  let start := Catchup.start download i.ctx
  if stores.all = false then (.err, { i with ctx := start.ctx, last := start.tip })
  else
    match applyPeerBlocks env decodeBlockPayload download.blocks start with
    | (false, s) => (.err, { i with ctx := s.ctx, last := s.tip })
    | (true, s) =>
        let s := buffer.foldl (Catchup.applyBuffered env) s
        (.ok, { head := s.tip, ctx := s.ctx, last := s.tip })

/-- `run_peer_catchup`, with what it leaves behind. -/
def catchupLeaves (tips : List (String × PeerTip)) (threshold : UInt64)
    (events : List CatchupEvent) (stores : SnapshotStores) (i : IndexedHead) :
    CatchupOutcome × IndexedHead :=
  match selectCatchupPeer tips i.head.1 threshold with
  | none => (.ok, i)
  | some _ =>
      match awaitDownload [] events with
      | .waiting => (.waiting, i)
      | .cancelled => (.ok, i)
      | .failed => (.err, i)
      | .downloaded download buffer => installDownload env decodeBlockPayload stores download buffer i

/-- The index holds the state after a block: it is the one from before, or it is built from
a checkpoint by the blocks behind it. -/
inductive HoldsStateAfter (before : IndexedHead) : Ctx → UInt64 × String → Prop where
  | unchanged : HoldsStateAfter before before.ctx before.last
  | checkpoint (download : Download) :
      HoldsStateAfter before (Catchup.start download before.ctx).ctx
        (download.snapshot.blockNum, download.snapshot.digest)
  | peerBlock {c : Ctx} {last : UInt64 × String} (row : BlockRow) (block : ReceiptBlock)
      (decodes : decodeBlockPayload row.blockNum row.payload = some block)
      (holds : HoldsStateAfter before c last) :
      HoldsStateAfter before (c.processBlock env .quiet block) (row.blockNum, row.digest)
  | buffered {c : Ctx} {last : UInt64 × String} (block : ReceiptBlock)
      (holds : HoldsStateAfter before c last) :
      HoldsStateAfter before (c.processBlock env .quiet block) (block.blockNum, block.digest)

end

def decodedRows (decodeBlockPayload : UInt64 → List UInt8 → Option ReceiptBlock)
    (rows : List BlockRow) : List BlockRow :=
  rows.takeWhile fun row => (decodeBlockPayload row.blockNum row.payload).isSome

/-- How far a failing catch-up gets: to the checkpoint if it is not stored, and otherwise to
the last row before one that does not decode. -/
def reached (decodeBlockPayload : UInt64 → List UInt8 → Option ReceiptBlock)
    (stores : SnapshotStores) (download : Download) : UInt64 × String :=
  let rows := if stores.all then decodedRows decodeBlockPayload download.blocks else []
  ((download.snapshot.blockNum, download.snapshot.digest) ::
    rows.map fun row => (row.blockNum, row.digest)).getLast (List.cons_ne_nil _ _)

/-- If a peer is chosen, its download arrives, and then a write fails or a payload does not
decode: the head named the block that the catch-up gets to before it started. -/
def FailsAtHead (decodeBlockPayload : UInt64 → List UInt8 → Option ReceiptBlock)
    (tips : List (String × PeerTip)) (threshold : UInt64) (events : List CatchupEvent)
    (stores : SnapshotStores) (head : UInt64 × String) : Prop :=
  selectCatchupPeer tips head.1 threshold ≠ none →
    ∀ download buffer, awaitDownload [] events = .downloaded download buffer →
      stores.all = false ∨ decodedRows decodeBlockPayload download.blocks ≠ download.blocks →
        head = reached decodeBlockPayload stores download

variable {env : Env} {decodeBlockPayload : UInt64 → List UInt8 → Option ReceiptBlock}

theorem fst_applyPeerBlocks (rows : List BlockRow) (s : Catchup) :
    (applyPeerBlocks env decodeBlockPayload rows s).1 = true ↔
      decodedRows decodeBlockPayload rows = rows := by
  unfold decodedRows
  induction rows generalizing s with
  | nil => exact iff_of_true rfl rfl
  | cons row rows ih =>
      unfold applyPeerBlocks Catchup.applyPeerBlock
      rw [List.takeWhile_cons]
      cases hdecode : decodeBlockPayload row.blockNum row.payload with
      | none => simp
      | some block =>
          simp only [Option.bind_eq_bind, Option.bind_some, Option.pure_def, Option.isSome_some,
            if_true, List.cons.injEq, true_and]
          exact ih _

theorem tip_applyPeerBlocks (rows : List BlockRow) (s : Catchup) :
    (applyPeerBlocks env decodeBlockPayload rows s).2.tip =
      (s.tip :: (decodedRows decodeBlockPayload rows).map fun row =>
        (row.blockNum, row.digest)).getLast (List.cons_ne_nil _ _) := by
  unfold decodedRows
  induction rows generalizing s with
  | nil => rfl
  | cons row rows ih =>
      unfold applyPeerBlocks Catchup.applyPeerBlock
      rw [List.takeWhile_cons]
      cases hdecode : decodeBlockPayload row.blockNum row.payload with
      | none => simp
      | some block =>
          simp only [Option.bind_eq_bind, Option.bind_some, Option.pure_def, Option.isSome_some,
            if_true, List.map_cons]
          rw [ih, List.getLast_cons (List.cons_ne_nil _ _)]

theorem reached_of_unstored {stores : SnapshotStores} (h : stores.all = false)
    (download : Download) :
    reached decodeBlockPayload stores download =
      (download.snapshot.blockNum, download.snapshot.digest) := by
  unfold reached
  simp [h]

theorem reached_of_stored {stores : SnapshotStores} (h : stores.all = true) (download : Download)
    (i : IndexedHead) :
    reached decodeBlockPayload stores download =
      (applyPeerBlocks env decodeBlockPayload download.blocks
        (Catchup.start download i.ctx)).2.tip := by
  rw [tip_applyPeerBlocks]
  unfold reached
  simp only [h, if_true]
  rfl

/-- The installation fails if a write fails or a payload does not decode; the head then stays
and the index is where the catch-up got to. -/
theorem installDownload_cases (stores : SnapshotStores) (download : Download)
    (buffer : List ReceiptBlock) (i : IndexedHead) :
    let r := installDownload env decodeBlockPayload stores download buffer i
    (stores.all = false ∨ decodedRows decodeBlockPayload download.blocks ≠ download.blocks) ∧
        r.1 = .err ∧ r.2.head = i.head ∧ r.2.last = reached decodeBlockPayload stores download ∨
      stores.all = true ∧ decodedRows decodeBlockPayload download.blocks = download.blocks ∧
        r.1 = .ok ∧ r.2.head = r.2.last := by
  intro r
  simp only [r]
  unfold installDownload
  dsimp only
  cases hstores : stores.all with
  | false =>
      left
      rw [if_pos rfl]
      exact ⟨Or.inl rfl, rfl, rfl, (reached_of_unstored hstores download).symm⟩
  | true =>
      rw [if_neg (by decide)]
      have hreached : reached decodeBlockPayload stores download =
          (applyPeerBlocks env decodeBlockPayload download.blocks _).2.tip :=
        reached_of_stored hstores download i
      have hdecoded : (applyPeerBlocks env decodeBlockPayload download.blocks
          (Catchup.start download i.ctx)).1 = true ↔ _ :=
        fst_applyPeerBlocks download.blocks (Catchup.start download i.ctx)
      revert hreached hdecoded
      generalize applyPeerBlocks env decodeBlockPayload download.blocks
        (Catchup.start download i.ctx) = applied
      intro hreached hdecoded
      obtain ⟨decodes, s⟩ := applied
      cases decodes with
      | false =>
          left
          have hrows : decodedRows decodeBlockPayload download.blocks ≠ download.blocks :=
            fun heq => Bool.false_ne_true (hdecoded.mpr heq)
          exact ⟨Or.inr hrows, rfl, rfl, hreached.symm⟩
      | true =>
          right
          exact ⟨rfl, hdecoded.mp rfl, rfl, rfl⟩

theorem holds_applyPeerBlocks {before : IndexedHead} (rows : List BlockRow) {s : Catchup}
    (h : HoldsStateAfter env decodeBlockPayload before s.ctx s.tip) :
    HoldsStateAfter env decodeBlockPayload before
      (applyPeerBlocks env decodeBlockPayload rows s).2.ctx
      (applyPeerBlocks env decodeBlockPayload rows s).2.tip := by
  induction rows generalizing s with
  | nil => exact h
  | cons row rows ih =>
      unfold applyPeerBlocks Catchup.applyPeerBlock
      cases hdecode : decodeBlockPayload row.blockNum row.payload with
      | none => exact h
      | some block => exact ih (HoldsStateAfter.peerBlock row block hdecode h)

theorem holds_applyBuffered {before : IndexedHead} (buffer : List ReceiptBlock) {s : Catchup}
    (h : HoldsStateAfter env decodeBlockPayload before s.ctx s.tip) :
    HoldsStateAfter env decodeBlockPayload before
      (buffer.foldl (Catchup.applyBuffered env) s).ctx
      (buffer.foldl (Catchup.applyBuffered env) s).tip := by
  induction buffer generalizing s with
  | nil => exact h
  | cons block buffer ih =>
      rw [List.foldl_cons]
      apply ih
      unfold Catchup.applyBuffered
      split_ifs
      · exact h
      · exact HoldsStateAfter.buffered block h

/-- The block that is said to be taken last is the one whose state the index holds. -/
theorem holds_catchupLeaves (tips : List (String × PeerTip)) (threshold : UInt64)
    (events : List CatchupEvent) (stores : SnapshotStores) (i : IndexedHead) :
    let r := catchupLeaves env decodeBlockPayload tips threshold events stores i
    HoldsStateAfter env decodeBlockPayload i r.2.ctx r.2.last := by
  intro r
  simp only [r]
  unfold catchupLeaves
  cases selectCatchupPeer tips i.head.1 threshold with
  | none => exact .unchanged
  | some peer =>
      dsimp only
      cases awaitDownload [] events with
      | waiting => exact .unchanged
      | cancelled => exact .unchanged
      | failed => exact .unchanged
      | downloaded download buffer =>
          unfold installDownload
          dsimp only
          split_ifs
          · exact .checkpoint download
          · have hstart : HoldsStateAfter env decodeBlockPayload i
                (Catchup.start download i.ctx).ctx (Catchup.start download i.ctx).tip :=
              .checkpoint download
            have hpeer := holds_applyPeerBlocks download.blocks hstart
            revert hpeer
            generalize applyPeerBlocks env decodeBlockPayload download.blocks
              (Catchup.start download i.ctx) = applied
            intro hpeer
            obtain ⟨decodes, s⟩ := applied
            cases decodes with
            | false => exact hpeer
            | true => exact holds_applyBuffered buffer hpeer

theorem foldlM_applyPeerBlocks (rows : List BlockRow) (s : Catchup) :
    rows.foldlM (Catchup.applyPeerBlock env decodeBlockPayload) s =
      match applyPeerBlocks env decodeBlockPayload rows s with
      | (true, s) => some s
      | (false, _) => none := by
  induction rows generalizing s with
  | nil => rfl
  | cons row rows ih =>
      rw [List.foldlM_cons]
      unfold applyPeerBlocks
      cases s.applyPeerBlock env decodeBlockPayload row with
      | none => rfl
      | some s' => exact ih s'

/-- On the head that it returns, this is the catch-up with writes that work. -/
theorem runPeerCatchup_eq (tips : List (String × PeerTip)) (threshold : UInt64)
    (events : List CatchupEvent) (i : IndexedHead) :
    runPeerCatchup env decodeBlockPayload tips threshold i.head events i.ctx =
      match catchupLeaves env decodeBlockPayload tips threshold events {} i with
      | (.ok, left) => .ok left.head
      | (.err, _) => .err
      | (.waiting, _) => .waiting := by
  unfold runPeerCatchup catchupLeaves
  cases selectCatchupPeer tips i.head.1 threshold with
  | none => rfl
  | some peer =>
      dsimp only
      cases awaitDownload [] events with
      | waiting => rfl
      | cancelled => rfl
      | failed => rfl
      | downloaded download buffer =>
          unfold applyDownload installDownload
          dsimp only
          rw [foldlM_applyPeerBlocks, if_neg (by decide)]
          cases applyPeerBlocks env decodeBlockPayload download.blocks
            (Catchup.start download i.ctx) with
          | mk decodes s => cases decodes <;> rfl

/-- After every catch-up that returns an error, the head names the block that the index has
taken last exactly when the error comes before the download is installed, or the catch-up
got to just that block. -/
theorem catchup_agrees_iff (env : Env)
    (decodeBlockPayload : UInt64 → List UInt8 → Option ReceiptBlock)
    (tips : List (String × PeerTip)) (threshold : UInt64) (events : List CatchupEvent)
    (stores : SnapshotStores) (head : UInt64 × String) (c : Ctx) :
    let r := catchupLeaves env decodeBlockPayload tips threshold events stores ⟨head, c, head⟩
    (r.1 = .err → r.2.head = r.2.last) ↔
      FailsAtHead decodeBlockPayload tips threshold events stores head := by
  intro r
  simp only [r]
  unfold catchupLeaves FailsAtHead
  dsimp only
  cases hselect : selectCatchupPeer tips head.1 threshold with
  | none => exact iff_of_true (fun h => nomatch h) fun hne => absurd rfl hne
  | some peer =>
      dsimp only
      cases hloop : awaitDownload [] events with
      | waiting => exact iff_of_true (fun h => nomatch h) fun _ _ _ h => nomatch h
      | cancelled => exact iff_of_true (fun h => nomatch h) fun _ _ _ h => nomatch h
      | failed => exact iff_of_true (fun _ => rfl) fun _ _ _ h => nomatch h
      | downloaded download buffer =>
          dsimp only
          rcases installDownload_cases stores download buffer
              (⟨head, c, head⟩ : IndexedHead) with
            ⟨hfails, herr, hhead, hlast⟩ | ⟨hstores, hrows, hok, hagree⟩
          · rw [hhead, hlast]
            constructor
            · intro h _ download' buffer' heq _
              cases heq
              exact h herr
            · intro h _
              exact h (Option.some_ne_none peer) download buffer rfl hfails
          · refine iff_of_true (fun _ => hagree) ?_
            intro _ download' buffer' heq hfails
            cases heq
            rcases hfails with hfalse | hne
            · rw [hstores] at hfalse
              cases hfalse
            · exact absurd hrows hne

namespace Sample

def spoiledRow : List CatchupEvent :=
  [.downloaded (some ⟨⟨50, "32", {}⟩, [⟨51, "33", []⟩]⟩)]

/-- The head still names block 20, and the index holds the state after block 50. -/
theorem spoiledRow_disagrees :
    let r := catchupLeaves setting (fun _ _ => none) peerAhead 10 spoiledRow {}
      ⟨(20, "14"), { store := {} }, (20, "14")⟩
    r.1 = .err ∧ r.2.head = (20, "14") ∧ r.2.last = (50, "32") ∧
      ¬(r.1 = .err → r.2.head = r.2.last) := by
  refine ⟨rfl, rfl, rfl, ?_⟩
  intro h
  exact absurd (h rfl) (by decide)

end Sample

end ClobIndexer
