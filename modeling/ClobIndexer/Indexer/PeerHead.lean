import ClobIndexer.Indexer.PeerCatchup
/-!
# The head after a catch-up

A peer is chosen by its live tip: it must be ahead of the local one.  What is then
installed is the peer's last checkpoint, the blocks it happens to keep and the
buffered live blocks, and the head moves to the last of these, wherever that is.
-/

namespace ClobIndexer

open Lib

structure PeerTip where
  blockNum : UInt64
  digest : String
  connected : Bool
  checkpointBlockNum : Option UInt64
  checkpointDigest : Option String
deriving DecidableEq

/-- `max_by_key` on the tip's number: the last of the greatest. -/
def maxByBlockNum : List (String × PeerTip) → Option (String × PeerTip)
  | [] => none
  | tip :: tips =>
      match maxByBlockNum tips with
      | none => some tip
      | some best => if best.2.blockNum < tip.2.blockNum then some tip else some best

def selectCatchupPeer (tips : List (String × PeerTip)) (localBlockNum threshold : UInt64) :
    Option (String × PeerTip) :=
  maxByBlockNum (tips.filter fun tip =>
    Word.satAdd localBlockNum threshold < tip.2.blockNum ∧ tip.2.checkpointBlockNum.isSome)

inductive CatchupResult where
  | ok (head : UInt64 × String)
  | err
  | waiting

section

variable (env : Env) (decodeBlockPayload : UInt64 → List UInt8 → Option ReceiptBlock)

def runPeerCatchup (tips : List (String × PeerTip)) (threshold : UInt64)
    (head : UInt64 × String) (events : List CatchupEvent) (c : Ctx) : CatchupResult :=
  match selectCatchupPeer tips head.1 threshold with
  | none => .ok head
  | some _ =>
      match awaitDownload [] events with
      | .waiting => .waiting
      | .cancelled => .ok head
      | .failed => .err
      | .downloaded download buffer =>
          match applyDownload env decodeBlockPayload download buffer c with
          | none => .err
          | some s => .ok s.tip

end

def unseen : Finset String → List ReceiptBlock → List ReceiptBlock
  | _, [] => []
  | seen, block :: buffer =>
      if block.digest ∈ seen then unseen seen buffer
      else block :: unseen (insert block.digest seen) buffer

def installed (download : Download) (buffer : List ReceiptBlock) : List UInt64 :=
  download.snapshot.blockNum :: (download.blocks.map (·.blockNum) ++
    (unseen (insert download.snapshot.digest (digestSetFromBlocks download.blocks)) buffer).map
      (·.blockNum))

/-- If a peer is chosen and its download arrives, the last block installed is not
behind the local tip. -/
def EndsAhead (tips : List (String × PeerTip)) (threshold localTip : UInt64)
    (events : List CatchupEvent) : Prop :=
  selectCatchupPeer tips localTip threshold ≠ none →
    ∀ download buffer, awaitDownload [] events = .downloaded download buffer →
      localTip ≤ (installed download buffer).getLast (List.cons_ne_nil _ _)

variable {env : Env} {decodeBlockPayload : UInt64 → List UInt8 → Option ReceiptBlock}

namespace Catchup

theorem tip_foldlM_applyPeerBlock {rows : List BlockRow} {s s' : Catchup}
    (h : rows.foldlM (applyPeerBlock env decodeBlockPayload) s = some s') :
    s'.appliedDigests = s.appliedDigests ∧
      s'.tip.1 = (s.tip.1 :: rows.map (·.blockNum)).getLast (List.cons_ne_nil _ _) := by
  induction rows generalizing s with
  | nil =>
      cases h
      exact ⟨rfl, rfl⟩
  | cons row rows ih =>
      rw [List.foldlM_cons, Option.bind_eq_bind, Option.bind_eq_some_iff] at h
      obtain ⟨next, hnext, hrest⟩ := h
      unfold applyPeerBlock at hnext
      simp only [Option.bind_eq_bind, Option.bind_eq_some_iff, Option.pure_def,
        Option.some.injEq] at hnext
      obtain ⟨block, -, rfl⟩ := hnext
      obtain ⟨hdigests, htip⟩ := ih hrest
      refine ⟨hdigests, ?_⟩
      rw [htip, List.map_cons, List.getLast_cons (List.cons_ne_nil _ _)]

theorem tip_foldl_applyBuffered (buffer : List ReceiptBlock) (s : Catchup) :
    (buffer.foldl (applyBuffered env) s).tip.1 =
      (s.tip.1 :: (unseen s.appliedDigests buffer).map (·.blockNum)).getLast
        (List.cons_ne_nil _ _) := by
  induction buffer generalizing s with
  | nil => rfl
  | cons block buffer ih =>
      rw [List.foldl_cons, ih]
      unfold applyBuffered
      split_ifs with hseen
      · simp only [unseen, hseen, if_true]
      · simp only [unseen, hseen, if_false, List.map_cons]
        rw [List.getLast_cons (List.cons_ne_nil _ _)]

end Catchup

private theorem getLast_getLast_cons {α : Type} (x : α) (xs ys : List α) :
    ((x :: xs).getLast (List.cons_ne_nil _ _) :: ys).getLast (List.cons_ne_nil _ _) =
      (x :: (xs ++ ys)).getLast (List.cons_ne_nil _ _) := by
  induction xs generalizing x with
  | nil => rfl
  | cons y xs ih =>
      rw [List.cons_append, List.getLast_cons (List.cons_ne_nil y (xs ++ ys)), ← ih y]
      simp only [List.getLast_cons (List.cons_ne_nil y xs)]

/-- The head moves to the last block installed. -/
theorem tip_applyDownload {download : Download} {buffer : List ReceiptBlock} {c : Ctx}
    {s : Catchup} (h : applyDownload env decodeBlockPayload download buffer c = some s) :
    s.tip.1 = (installed download buffer).getLast (List.cons_ne_nil _ _) := by
  unfold applyDownload at h
  simp only [Option.bind_eq_bind, Option.bind_eq_some_iff, Option.pure_def,
    Option.some.injEq] at h
  obtain ⟨s', hpeer, rfl⟩ := h
  obtain ⟨hdigests, htip⟩ := Catchup.tip_foldlM_applyPeerBlock hpeer
  rw [Catchup.tip_foldl_applyBuffered, htip, hdigests]
  exact getLast_getLast_cons _ _ _

/-- A catch-up that returns does not move the head backwards exactly when the last
block installed is not behind it. -/
theorem runPeerCatchup_head_iff (env : Env)
    (decodeBlockPayload : UInt64 → List UInt8 → Option ReceiptBlock)
    (tips : List (String × PeerTip)) (threshold : UInt64) (head head' : UInt64 × String)
    (events : List CatchupEvent) (c : Ctx)
    (hok : runPeerCatchup env decodeBlockPayload tips threshold head events c = .ok head') :
    head.1 ≤ head'.1 ↔ EndsAhead tips threshold head.1 events := by
  unfold runPeerCatchup at hok
  unfold EndsAhead
  cases hselect : selectCatchupPeer tips head.1 threshold with
  | none =>
      rw [hselect] at hok
      cases hok
      exact iff_of_true (UInt64.le_refl _) fun hne => absurd rfl hne
  | some peer =>
      rw [hselect] at hok
      dsimp only at hok
      cases hloop : awaitDownload [] events with
      | waiting =>
          rw [hloop] at hok
          cases hok
      | failed =>
          rw [hloop] at hok
          cases hok
      | cancelled =>
          rw [hloop] at hok
          cases hok
          exact iff_of_true (UInt64.le_refl _) fun _ _ _ h => by cases h
      | downloaded download buffer =>
          rw [hloop] at hok
          dsimp only at hok
          cases hdone : applyDownload env decodeBlockPayload download buffer c with
          | none =>
              rw [hdone] at hok
              cases hok
          | some s =>
              rw [hdone] at hok
              cases hok
              rw [tip_applyDownload hdone]
              constructor
              · intro hle _ download' buffer' heq
                cases heq
                exact hle
              · intro h
                exact h (Option.some_ne_none peer) download buffer rfl

namespace Sample

def peerAhead : List (String × PeerTip) := [("peer", ⟨1000, "3e8", true, some 50, some "32"⟩)]

def oldCheckpoint : List CatchupEvent := [.downloaded (some ⟨⟨50, "32", {}⟩, []⟩)]

theorem head_oldCheckpoint_iff :
    (100 : UInt64) ≤ 50 ↔ EndsAhead peerAhead 10 100 oldCheckpoint :=
  runPeerCatchup_head_iff setting decodeEleven peerAhead 10 (100, "64") (50, "32") oldCheckpoint
    { store := {} } rfl

/-- The head falls back from block 100 to block 50. -/
theorem head_oldCheckpoint :
    runPeerCatchup setting decodeEleven peerAhead 10 (100, "64") oldCheckpoint { store := {} } =
      .ok (50, "32") ∧ ¬(100 : UInt64) ≤ 50 :=
  ⟨rfl, by decide⟩

end Sample

end ClobIndexer
