import ClobIndexer.Events
import ClobIndexer.Persist.BlockStore
import ClobIndexer.Persist.SqliteLane
/-!
# What a restart finds of the blocks

The pipeline of the blocks, beside the index-state pipeline that moves the head of the
tables on.  The encode workers may overtake each other, so a block may be saved before
the one it follows; a process that stops in between finds a gap after the head.
-/

namespace ClobIndexer

open Lib

/-- The pipeline of the blocks, and the number in the head of the index tables. -/
structure PersistedBlocks where
  lane : SqliteLane ReceiptBlock BlockRow BlockTable
  head : UInt64

inductive PersistAction where
  | blocks (a : SqliteAction ReceiptBlock)
  | indexWritten (blockNum : UInt64)

section

/- `encode_block_payload`: `serde_json`, then `bincode`. -/
variable (encodeBlockPayload : ReceiptBlock → Option (List UInt8))

def encodeBlock (block : ReceiptBlock) : Option BlockRow := do
  let payload ← encodeBlockPayload block
  return ⟨block.blockNum, block.digest, payload⟩

namespace PersistedBlocks

def step (p : PersistedBlocks) : PersistAction → PersistedBlocks
  | .blocks a =>
      { p with
        lane := p.lane.apply (encodeBlock encodeBlockPayload) BlockTable.applyEncodedBlocksBatch a }
  | .indexWritten blockNum =>
      if BlockKey.mk p.head < BlockKey.mk blockNum then { p with head := blockNum } else p

/-- A process that starts now replays a run of blocks without a gap. -/
def Replayable (p : PersistedBlocks) : Prop := p.lane.tables.GapFree p.head

/-- If the action commits a batch, each block of it that is after the head follows the head,
or follows a block that is saved or in the batch too. -/
def CommitsInOrder (p : PersistedBlocks) (a : PersistAction) : Prop :=
  ∀ action, a = .blocks action → ∀ batch, p.lane.writes action = some batch →
    ∀ row ∈ batch, BlockKey.mk p.head < BlockKey.mk row.blockNum →
      row.blockNum = p.head + 1 ∨ p.lane.tables.Saved (row.blockNum - 1) ∨
        ∃ row' ∈ batch, row'.blockNum = row.blockNum - 1

theorem replayable_step_iff (p : PersistedBlocks) (a : PersistAction) (h : p.Replayable) :
    (p.step encodeBlockPayload a).Replayable ↔ p.CommitsInOrder a := by
  cases a with
  | indexWritten blockNum =>
      have hstep : (p.step encodeBlockPayload (.indexWritten blockNum)).Replayable := by
        unfold step Replayable
        dsimp only
        split_ifs with hlater
        · exact h.mono hlater.le
        · exact h
      exact iff_of_true hstep fun _ heq => nomatch heq
  | blocks action =>
      have htables : (p.step encodeBlockPayload (.blocks action)).lane.tables = _ :=
        p.lane.tables_apply (encodeBlock encodeBlockPayload) BlockTable.applyEncodedBlocksBatch
          action
      unfold Replayable CommitsInOrder at *
      rw [htables]
      cases hwrites : p.lane.writes action with
      | none =>
          refine iff_of_true h ?_
          intro action' heq batch hbatch
          cases heq
          rw [hwrites] at hbatch
          cases hbatch
      | some batch =>
          change (p.lane.tables.applyEncodedBlocksBatch batch).GapFree p.head ↔ _
          rw [BlockTable.gapFree_iff] at h ⊢
          simp only [BlockTable.saved_applyEncodedBlocksBatch]
          constructor
          · intro hfree action' heq batch' hbatch row hrow hafter
            cases heq
            rw [hwrites] at hbatch
            cases hbatch
            rcases hfree row.blockNum (Or.inl ⟨row, hrow, rfl⟩) hafter with
              hnext | ⟨row', hrow', hpred⟩ | hsaved
            · exact Or.inl hnext
            · exact Or.inr (Or.inr ⟨row', hrow', hpred.symm⟩)
            · exact Or.inr (Or.inl hsaved)
          · intro horder m hm hafter
            rcases hm with ⟨row, hrow, rfl⟩ | hsaved
            · rcases horder action rfl batch hwrites row hrow hafter with
                hnext | hsaved | ⟨row', hrow', hpred⟩
              · exact Or.inl hnext
              · exact Or.inr (Or.inr hsaved)
              · exact Or.inr (Or.inl ⟨row', hrow', hpred.symm⟩)
            · exact (h m hsaved hafter).imp_right Or.inr

/-- At every point of every interleaving a restart replays a run without a gap, exactly when
it would at the start and no batch is committed ahead of a block that its blocks follow. -/
theorem replayable_throughout_iff (actions : List PersistAction) (p : PersistedBlocks) :
    Throughout (step encodeBlockPayload) Replayable actions p ↔
      p.Replayable ∧ Along (step encodeBlockPayload) CommitsInOrder actions p := by
  have hrun : p.Replayable → (Throughout (step encodeBlockPayload) Replayable actions p ↔
      Along (step encodeBlockPayload) CommitsInOrder actions p) :=
    fun h => @throughout_iff_along _ _ _ (fun _ => True) _ _ (fun _ => True)
      (fun _ _ _ _ => trivial) (fun p a _ _ h => replayable_step_iff encodeBlockPayload p a h)
      actions (fun _ _ => trivial) p trivial h
  constructor
  · exact fun h => ⟨h.start, (hrun h.start).mp h⟩
  · exact fun h => (hrun h.1).mpr h.2

end PersistedBlocks

end

namespace Sample

/-- The tables are at block 7, and two blocks follow. -/
def atSeven : PersistedBlocks where
  lane := { tables := .empty }
  head := 7

def overtaken : List PersistAction :=
  [.enqueue ⟨8, "08", 100, []⟩, .enqueue ⟨9, "09", 101, []⟩, .take, .take, .finishEncode 1 true,
    .coalesce, .closeBatch, .sendBatch, .startWrite, .finishWrite true].map .blocks

/-- A restart then replays block 9 on the state after block 7. -/
theorem overtaken_leaves_gap :
    ¬Throughout (PersistedBlocks.step fun _ => some []) PersistedBlocks.Replayable overtaken
      atSeven := by
  intro h
  obtain ⟨k, hk⟩ := h.finish
  have hloaded : ((overtaken.foldl (PersistedBlocks.step fun _ => some []) atSeven).lane.tables
      |>.loadBlocksAfter (some 7)).map BlockRow.blockNum = [9] := by
    decide +kernel
  change _ = following 7 k at hk
  cases k with
  | zero => exact absurd (hloaded.symm.trans hk) (by decide)
  | succ k =>
      have hfirst : (9 : UInt64) = 7 + 1 := (List.cons.inj (hloaded.symm.trans hk)).1
      exact absurd hfirst (by decide)

end Sample

end ClobIndexer
