import ClobIndexer.HexSdk
import ClobIndexer.Indexer.Pipeline
import ClobIndexer.Indexer.Recovery
/-!
# Catching up from a peer

`run_peer_catchup` of `src/indexer/mod.rs` downloads the checkpoint of a peer and
the blocks saved after it while the node's live blocks are buffered.  It then
applies the checkpoint, the peer's blocks and the buffered blocks whose digest it
has not seen, and leaves the rest of the messages to the live pipeline.  Blocks
are told apart by digest alone: a live block from before the checkpoint passes,
and the pipeline applies whatever it receives.
-/

namespace ClobIndexer

/-- `CheckpointSnapshot`, with its rows as the index that they are loaded to. -/
structure CheckpointSnapshot where
  blockNum : UInt64
  digest : String
  index : IndexState

structure Download where
  snapshot : CheckpointSnapshot
  blocks : List BlockRow

/-- What the catch-up loop waits for; `none` is the end of the channel, or a failed
download. -/
inductive CatchupEvent where
  | cancelled
  | message (message : Option Message)
  | downloaded (result : Option Download)

def peerLiveBufferMax : Nat := 256

/-- Buffer a live block; a full buffer drops its oldest one. -/
def pushLive (buffer : List ReceiptBlock) (block : ReceiptBlock) : List ReceiptBlock :=
  (if buffer.length ≥ peerLiveBufferMax then buffer.drop 1 else buffer) ++ [block]

inductive LoopEnd where
  | downloaded (download : Download) (buffer : List ReceiptBlock)
  | cancelled
  | failed
  | waiting

def awaitDownload : List ReceiptBlock → List CatchupEvent → LoopEnd
  | _, [] => .waiting
  | _, .cancelled :: _ => .cancelled
  | buffer, .message (some (.newBlock block)) :: events =>
      awaitDownload (pushLive buffer block) events
  | buffer, .message (some (.receiptBlock _)) :: events => awaitDownload buffer events
  | _, .message (some (.error _)) :: _ => .failed
  | _, .message none :: _ => .failed
  | buffer, .downloaded (some download) :: _ => .downloaded download buffer
  | _, .downloaded none :: _ => .failed

def digestSetFromBlocks (blocks : List BlockRow) : Finset String :=
  (blocks.map (·.digest)).toFinset

structure Catchup where
  ctx : Ctx
  appliedDigests : Finset String
  tip : UInt64 × String
  processed : List ReceiptBlock

section

variable (env : Env) (decodeBlockPayload : UInt64 → List UInt8 → Option ReceiptBlock)

namespace Catchup

def start (download : Download) (c : Ctx) : Catchup where
  ctx := { c with store := download.snapshot.index }
  appliedDigests := insert download.snapshot.digest (digestSetFromBlocks download.blocks)
  tip := (download.snapshot.blockNum, download.snapshot.digest)
  processed := []

def processBlock (block : ReceiptBlock) (s : Catchup) : Catchup :=
  { s with
    ctx := s.ctx.processBlock env .quiet block
    processed := s.processed ++ [block] }

def applyPeerBlock (s : Catchup) (row : BlockRow) : Option Catchup := do
  let block ← decodeBlockPayload row.blockNum row.payload
  return { s.processBlock env block with tip := (row.blockNum, row.digest) }

def applyBuffered (s : Catchup) (block : ReceiptBlock) : Catchup :=
  if block.digest ∈ s.appliedDigests then s
  else
    { s.processBlock env block with
      appliedDigests := insert block.digest s.appliedDigests
      tip := (block.blockNum, block.digest) }

end Catchup

/-- The part of `run_peer_catchup` after the loop. -/
def applyDownload (download : Download) (buffer : List ReceiptBlock) (c : Ctx) :
    Option Catchup := do
  let s ← download.blocks.foldlM (Catchup.applyPeerBlock env decodeBlockPayload)
    (Catchup.start download c)
  return buffer.foldl (Catchup.applyBuffered env) s

/-- `run_once` with a peer: the catch-up on the given events, then the pipeline on
the messages left, in the given order of its workers' actions. -/
def runOnce (events : List CatchupEvent) (ws : List Message) (actions : List PipelineAction)
    (c : Ctx) : Option Pipeline :=
  match awaitDownload [] events with
  | .downloaded download buffer => do
      let s ← applyDownload env decodeBlockPayload download buffer c
      Pipeline.run env actions { ws, ctx := s.ctx, processed := s.processed }
  | _ => none

end

/-! ## Each block once -/

/-- Only blocks after the checkpoint are applied, and none of them twice. -/
structure AppliedOnce (checkpoint : UInt64) (processed : List ReceiptBlock) : Prop where
  after : ∀ block ∈ processed, checkpoint < block.blockNum
  once : (processed.map (·.digest)).Nodup

def receivedLive : List CatchupEvent → List ReceiptBlock
  | .message (some (.newBlock block)) :: events => block :: receivedLive events
  | .message (some (.receiptBlock _)) :: events => receivedLive events
  | _ => []

def lastLive (blocks : List ReceiptBlock) : List ReceiptBlock :=
  blocks.drop (blocks.length - peerLiveBufferMax)

/-- The rows of a peer ascend from the checkpoint on, and decode to the blocks of
their number and digest. -/
structure PeerServes (decodeBlockPayload : UInt64 → List UInt8 → Option ReceiptBlock)
    (download : Download) (blocks : List ReceiptBlock) : Prop where
  ascending : (download.snapshot.blockNum :: download.blocks.map (·.blockNum)).Pairwise (· < ·)
  decodes : List.Forall₂ (fun row block =>
    decodeBlockPayload row.blockNum row.payload = some block ∧
      block.blockNum = row.blockNum ∧ block.digest = row.digest) download.blocks blocks

def DigestsNameNumbers (blocks : List ReceiptBlock) : Prop :=
  ∀ a ∈ blocks, ∀ b ∈ blocks, a.digest = b.digest → a.blockNum = b.blockNum

instance (blocks : List ReceiptBlock) : Decidable (DigestsNameNumbers blocks) :=
  inferInstanceAs (Decidable (∀ a ∈ blocks, ∀ b ∈ blocks, a.digest = b.digest →
    a.blockNum = b.blockNum))

/-- The live blocks do not reach back: a block in the buffer is from after the
checkpoint, the checkpoint's, or one of the peer's; a block left to the pipeline is
from after the checkpoint and none of the peer's. -/
structure NoReachBack (download : Download) (buffered left : List ReceiptBlock) : Prop where
  buffered : ∀ block ∈ buffered, download.snapshot.blockNum < block.blockNum ∨
    block.digest = download.snapshot.digest ∨ block.digest ∈ download.blocks.map (·.digest)
  left : ∀ block ∈ left, download.snapshot.blockNum < block.blockNum ∧
    block.digest ∉ download.blocks.map (·.digest)

/-! ## What a run applies -/

theorem pushLive_lastLive (blocks : List ReceiptBlock) (block : ReceiptBlock) :
    pushLive (lastLive blocks) block = lastLive (blocks ++ [block]) := by
  have hlength : (lastLive blocks).length = min blocks.length peerLiveBufferMax := by
    unfold lastLive
    rw [List.length_drop]
    omega
  unfold pushLive
  rw [hlength]
  unfold lastLive
  rw [List.length_append, List.length_singleton]
  split_ifs with hfull
  · have hsum : blocks.length - peerLiveBufferMax + 1 =
        blocks.length + 1 - peerLiveBufferMax := by omega
    have hle : blocks.length + 1 - peerLiveBufferMax ≤ blocks.length := by
      unfold peerLiveBufferMax
      omega
    rw [List.drop_drop, hsum, List.drop_append_of_le_length hle]
  · have hnone : blocks.length - peerLiveBufferMax = 0 := by omega
    have hnone' : blocks.length + 1 - peerLiveBufferMax = 0 := by omega
    rw [hnone, hnone']
    rfl

/-- The buffer at the end of the loop holds the most recent live blocks. -/
theorem awaitDownload_buffer (blocks : List ReceiptBlock) {events : List CatchupEvent}
    {download : Download} {buffer : List ReceiptBlock}
    (h : awaitDownload (lastLive blocks) events = .downloaded download buffer) :
    buffer = lastLive (blocks ++ receivedLive events) := by
  induction events generalizing blocks with
  | nil => cases h
  | cons event events ih =>
      cases event with
      | cancelled => cases h
      | downloaded result =>
          cases result with
          | none => cases h
          | some result =>
              cases h
              exact congrArg lastLive (List.append_nil blocks).symm
      | message message =>
          cases message with
          | none => cases h
          | some message =>
              cases message with
              | newBlock block =>
                  rw [awaitDownload, pushLive_lastLive] at h
                  rw [ih _ h, receivedLive, List.append_assoc, List.singleton_append]
              | receiptBlock block => exact ih _ h
              | error text => cases h

variable {env : Env} {decodeBlockPayload : UInt64 → List UInt8 → Option ReceiptBlock}

namespace Catchup

theorem foldlM_applyPeerBlock {rows : List BlockRow} {blocks : List ReceiptBlock}
    (h : List.Forall₂ (fun row block =>
      decodeBlockPayload row.blockNum row.payload = some block ∧
        block.blockNum = row.blockNum ∧ block.digest = row.digest) rows blocks) (s : Catchup) :
    ∃ s', rows.foldlM (applyPeerBlock env decodeBlockPayload) s = some s' ∧
      s'.appliedDigests = s.appliedDigests ∧ s'.processed = s.processed ++ blocks := by
  induction h generalizing s with
  | nil => exact ⟨s, rfl, rfl, (List.append_nil _).symm⟩
  | @cons row block rows blocks hrow _ ih =>
      obtain ⟨s', hrun, hdigests, hprocessed⟩ :=
        ih { s.processBlock env block with tip := (row.blockNum, row.digest) }
      refine ⟨s', ?_, hdigests, ?_⟩
      · rw [List.foldlM_cons]
        unfold applyPeerBlock
        rw [hrow.1]
        exact hrun
      · rw [hprocessed]
        exact List.append_assoc _ _ _

/-- Of buffered blocks with digests of their own, those not seen before are applied. -/
theorem foldl_applyBuffered {buffer : List ReceiptBlock}
    (hdigests : (buffer.map (·.digest)).Nodup) (s : Catchup) :
    (buffer.foldl (applyBuffered env) s).processed =
      s.processed ++ buffer.filter fun block => block.digest ∉ s.appliedDigests := by
  induction buffer generalizing s with
  | nil => exact (List.append_nil _).symm
  | cons block buffer ih =>
      rw [List.map_cons, List.nodup_cons] at hdigests
      rw [List.foldl_cons, ih hdigests.2]
      unfold applyBuffered
      split_ifs with hseen
      · rw [List.filter_cons_of_neg (by simpa using hseen)]
      · rw [List.filter_cons_of_pos (by simpa using hseen), List.append_cons]
        congr 1
        -- the digest just added is not that of a later block
        refine List.filter_congr fun other hother => ?_
        have hne : other.digest ≠ block.digest := by
          intro heq
          exact hdigests.1 (heq ▸ List.mem_map_of_mem hother)
        simp [hne]

end Catchup

namespace PeerServes

variable {download : Download} {blocks : List ReceiptBlock}

private theorem map_eq_of_forall₂ {rows : List BlockRow} {blocks : List ReceiptBlock}
    (h : List.Forall₂ (fun row block =>
      decodeBlockPayload row.blockNum row.payload = some block ∧
        block.blockNum = row.blockNum ∧ block.digest = row.digest) rows blocks) :
    blocks.map (·.blockNum) = rows.map (·.blockNum) ∧
      blocks.map (·.digest) = rows.map (·.digest) := by
  induction h with
  | nil => exact ⟨rfl, rfl⟩
  | cons hrow _ ih =>
      simp only [List.map_cons, hrow.2.1, hrow.2.2, ih.1, ih.2, and_self]

theorem map_digest (h : PeerServes decodeBlockPayload download blocks) :
    blocks.map (·.digest) = download.blocks.map (·.digest) :=
  (map_eq_of_forall₂ h.decodes).2

theorem pairwise_blockNum (h : PeerServes decodeBlockPayload download blocks) :
    (download.snapshot.blockNum :: blocks.map (·.blockNum)).Pairwise (· < ·) := by
  rw [(map_eq_of_forall₂ h.decodes).1]
  exact h.ascending

end PeerServes

def freshBlocks (download : Download) (buffer : List ReceiptBlock) : List ReceiptBlock :=
  buffer.filter fun block =>
    block.digest ∉ insert download.snapshot.digest (digestSetFromBlocks download.blocks)

theorem mem_freshBlocks {download : Download} {buffer : List ReceiptBlock} {block : ReceiptBlock} :
    block ∈ freshBlocks download buffer ↔ block ∈ buffer ∧
      block.digest ≠ download.snapshot.digest ∧
      block.digest ∉ download.blocks.map (·.digest) := by
  unfold freshBlocks digestSetFromBlocks
  rw [List.mem_filter, decide_eq_true_eq, Finset.mem_insert, List.mem_toFinset, not_or]

variable (env) in
/-- What the catch-up applies: the peer's blocks, then the fresh ones. -/
theorem applyDownload_processed {download : Download} {blocks : List ReceiptBlock}
    (hpeer : PeerServes decodeBlockPayload download blocks) {buffer : List ReceiptBlock}
    (hdigests : (buffer.map (·.digest)).Nodup) (c : Ctx) :
    ∃ s, applyDownload env decodeBlockPayload download buffer c = some s ∧
      s.processed = blocks ++ freshBlocks download buffer := by
  obtain ⟨s, hrun, happlied, hprocessed⟩ :=
    Catchup.foldlM_applyPeerBlock hpeer.decodes (Catchup.start download c)
  refine ⟨buffer.foldl (Catchup.applyBuffered env) s, ?_, ?_⟩
  · unfold applyDownload
    rw [hrun]
    rfl
  · rw [Catchup.foldl_applyBuffered hdigests, hprocessed, happlied]
    rfl

theorem nodup_digests {blocks : List ReceiptBlock}
    (hascending : (blocks.map (·.blockNum)).Pairwise (· < ·)) (hnames : DigestsNameNumbers blocks) :
    (blocks.map (·.digest)).Nodup := by
  rw [List.pairwise_map] at hascending
  rw [List.Nodup, List.pairwise_map]
  refine hascending.imp_of_mem fun {a b} ha hb hlt heq => ?_
  rw [hnames a ha b hb heq] at hlt
  exact UInt64.lt_irrefl _ hlt

namespace AppliedOnce

theorem of_prefix {checkpoint : UInt64} {processed all : List ReceiptBlock}
    (h : AppliedOnce checkpoint all) (hle : processed <+: all) :
    AppliedOnce checkpoint processed :=
  ⟨fun block hb => h.after block (hle.subset hb), h.once.sublist (hle.sublist.map _)⟩

/-- Of peer, fresh and remaining blocks each is applied once exactly when no live
block reaches back. -/
theorem append_iff {download : Download} {blocks buffered left : List ReceiptBlock}
    (hpeer : PeerServes decodeBlockPayload download blocks)
    (hblocks : (blocks.map (·.digest)).Nodup)
    (hlive : ((buffered ++ left).map (·.digest)).Nodup) :
    AppliedOnce download.snapshot.blockNum (blocks ++ freshBlocks download buffered ++ left) ↔
      NoReachBack download buffered left := by
  rw [List.map_append, List.nodup_append'] at hlive
  have hafter : ∀ block ∈ blocks, download.snapshot.blockNum < block.blockNum := by
    intro block hb
    exact List.rel_of_pairwise_cons hpeer.pairwise_blockNum (List.mem_map_of_mem hb)
  constructor
  · intro h
    refine ⟨fun block hb => ?_, fun block hb => ?_⟩
    · by_cases hfresh : block ∈ freshBlocks download buffered
      · exact Or.inl (h.after block (by simp [hfresh]))
      · rw [mem_freshBlocks] at hfresh
        tauto
    · refine ⟨h.after block (by simp [hb]), fun hrow => ?_⟩
      have hdisjoint := h.once
      rw [List.map_append, List.nodup_append', List.map_append, hpeer.map_digest] at hdisjoint
      exact hdisjoint.2.2 (List.mem_append_left _ hrow) (List.mem_map_of_mem hb)
  · intro h
    constructor
    · intro block hb
      rw [List.mem_append, List.mem_append] at hb
      rcases hb with (hb | hb) | hb
      · exact hafter block hb
      · rw [mem_freshBlocks] at hb
        have hor := h.buffered block hb.1
        tauto
      · exact (h.left block hb).1
    · rw [List.map_append, List.map_append, List.nodup_append', List.nodup_append']
      refine ⟨⟨hblocks, hlive.1.sublist (List.filter_sublist.map _), ?_⟩, hlive.2.1, ?_⟩
      · intro digest hpeerDigest hfresh
        obtain ⟨block, hb, rfl⟩ := List.mem_map.mp hfresh
        rw [hpeer.map_digest] at hpeerDigest
        exact (mem_freshBlocks.mp hb).2.2 hpeerDigest
      · intro digest hdone hleft
        obtain ⟨block, hb, rfl⟩ := List.mem_map.mp hleft
        rw [List.mem_append, hpeer.map_digest] at hdone
        rcases hdone with hdone | hdone
        · exact (h.left block hb).2 hdone
        · exact hlive.2.2 ((List.filter_sublist.map _).subset hdone) hleft

end AppliedOnce

/-- Every run of a catch-up and the pipeline after it applies each block once
exactly when no live block reaches back. -/
theorem runOnce_appliedOnce_iff (env : Env)
    (decodeBlockPayload : UInt64 → List UInt8 → Option ReceiptBlock) (c : Ctx)
    (events : List CatchupEvent) (ws : List Message) (download : Download)
    (buffer blocks : List ReceiptBlock)
    (hloop : awaitDownload [] events = .downloaded download buffer)
    (hpeer : PeerServes decodeBlockPayload download blocks)
    (hlive : ((receivedLive events ++ delivered ws).map (·.blockNum)).Pairwise (· < ·))
    (hnames : DigestsNameNumbers (blocks ++ (receivedLive events ++ delivered ws))) :
    (∀ actions p, runOnce env decodeBlockPayload events ws actions c = some p →
      AppliedOnce download.snapshot.blockNum p.processed) ↔
    NoReachBack download (lastLive (receivedLive events)) (delivered ws) := by
  have hbuffer : buffer = lastLive (receivedLive events) := awaitDownload_buffer [] hloop
  have hblocks := nodup_digests hpeer.pairwise_blockNum.of_cons fun a ha b hb =>
    hnames a (List.mem_append_left _ ha) b (List.mem_append_left _ hb)
  have hdigests := nodup_digests hlive fun a ha b hb =>
    hnames a (List.mem_append_right _ ha) b (List.mem_append_right _ hb)
  have hkept : (lastLive (receivedLive events) ++ delivered ws).Sublist
      (receivedLive events ++ delivered ws) :=
    (List.drop_sublist _ _).append (List.Sublist.refl _)
  have hdigests' := hdigests.sublist (hkept.map (·.digest))
  have hbuffered := (hbuffer ▸ (List.nodup_append'.mp (List.map_append ▸ hdigests')).1 :
    (buffer.map (·.digest)).Nodup)
  obtain ⟨s, hcatchup, hprocessed⟩ := applyDownload_processed env hpeer hbuffered c
  have hrun : ∀ actions, runOnce env decodeBlockPayload events ws actions c =
      Pipeline.run env actions { ws, ctx := s.ctx, processed := s.processed } := by
    intro actions
    unfold runOnce
    rw [hloop]
    dsimp only
    rw [hcatchup]
    rfl
  rw [← AppliedOnce.append_iff hpeer hblocks hdigests', ← hbuffer, ← hprocessed]
  constructor
  · intro h
    obtain ⟨q, hq, hall⟩ := Pipeline.run_drain env ws s.ctx s.processed
    rw [← hall]
    exact h _ q ((hrun _).trans hq)
  · intro h actions p hp
    rw [hrun] at hp
    exact h.of_prefix (Pipeline.processed_prefix hp)

namespace Sample

def emptyBlock (blockNum : UInt64) (digest : String) : ReceiptBlock := ⟨blockNum, digest, 100, []⟩

def decodeEleven (_ : UInt64) : List UInt8 → Option ReceiptBlock
  | [1] => some (emptyBlock 11 "0b")
  | _ => none

def downloadTen : Download := ⟨⟨10, "0a", {}⟩, [⟨11, "0b", [1]⟩]⟩

def nodeBehind : List CatchupEvent :=
  [.message (some (.newBlock (emptyBlock 9 "09"))), .downloaded (some downloadTen)]

def nodeGoesOn : List Message := [.newBlock (emptyBlock 10 "0a"), .newBlock (emptyBlock 11 "0b")]

theorem runOnce_nodeBehind_iff :
    (∀ actions p, runOnce setting decodeEleven nodeBehind nodeGoesOn actions
        { store := {} } = some p →
      AppliedOnce 10 p.processed) ↔
    NoReachBack downloadTen [emptyBlock 9 "09"] [emptyBlock 10 "0a", emptyBlock 11 "0b"] :=
  runOnce_appliedOnce_iff setting decodeEleven { store := {} } nodeBehind nodeGoesOn
    downloadTen [emptyBlock 9 "09"] [emptyBlock 11 "0b"] rfl
    ⟨by decide, .cons ⟨rfl, rfl, rfl⟩ .nil⟩ (by decide) (by decide)

/-- Block 9 is applied on top of the checkpoint of block 10, and the pipeline then
applies blocks 10 and 11 once more. -/
theorem nodeBehind_reapplied :
    awaitDownload [] nodeBehind = .downloaded downloadTen [emptyBlock 9 "09"] ∧
      PeerServes decodeEleven downloadTen [emptyBlock 11 "0b"] ∧
      ∃ p, runOnce setting decodeEleven nodeBehind nodeGoesOn (Pipeline.drain nodeGoesOn)
          { store := {} } = some p ∧
        (p.processed.map fun block => block.blockNum) = [11, 9, 10, 11] ∧
        ¬AppliedOnce 10 p.processed := by
  refine ⟨rfl, ⟨by decide, .cons ⟨rfl, rfl, rfl⟩ .nil⟩, ?_⟩
  refine ⟨_, rfl, rfl, ?_⟩
  intro h
  have hnine := h.after (emptyBlock 9 "09") (by decide)
  revert hnine
  decide

end Sample

end ClobIndexer
