import ClobIndexer.Lib.Paging
import ClobIndexer.Persist.BlockStore
/-!
# Downloading the blocks of a peer

`PeerClient::download_blocks_until_empty` of `src/peer/mod.rs` and the route
`/api/peer/blocks` that it asks.  The bytes of a block travel as base64 in JSON and come
back as they were.  The number that a download starts from is unsigned, and the table
compares it as a signed one.  The cursor of the client is the number on the last row of
a page, whatever the peer puts there.
-/

namespace ClobIndexer

open Lib

/-! ## The route -/

/-- `load_blocks_after_limited`: the rows are counted once they are in. -/
def BlockTable.loadBlocksAfterLimited (afterBlockNum : Option UInt64) (limit : Nat)
    (t : BlockTable) : List BlockRow :=
  (t.loadBlocksAfter afterBlockNum).take (max limit 1)

/-- `/api/peer/blocks`. -/
def peerBlocks (after : Option UInt64) (limit : Option Nat) (t : BlockTable) : List BlockRow :=
  t.loadBlocksAfterLimited after (max 1 (min (limit.getD 200) 500))

/-! ## The client -/

/-- What a peer answers to each request for blocks after a number, by the limit it is
given; `none` is a request that fails. -/
abbrev BlocksPeer := Nat → UInt64 → Nat → Option (List BlockRow)

def BlocksPeer.ofTable (t : BlockTable) : BlocksPeer := fun _ after limit =>
  some (peerBlocks (some after) (some limit) t)

def downloadPage : Nat := 200

/-- `blocks_after` with the page that the download asks for. -/
def BlocksPeer.answers (peer : BlocksPeer) : Paging.Answers UInt64 BlockRow := fun k after =>
  peer k after downloadPage

/-- `download_blocks_until_empty`, for as many requests as the fuel allows. -/
def downloadBlocksUntilEmpty (peer : BlocksPeer) (fuel : Nat) (afterBlockNum : UInt64) :
    Option (Option (List BlockRow)) :=
  Paging.run BlockRow.blockNum downloadPage peer.answers fuel { cursor := afterBlockNum }

/-! ## A peer that does not change -/

namespace BlockTable

def rowsAfterNum (n : UInt64) (t : BlockTable) : List BlockRow :=
  (t.rows.map row).filter fun row => n < row.blockNum

/-- The block numbers are not negative as `i64`. -/
def NumbersFit (t : BlockTable) : Prop := ∀ e ∈ t.rows, e.1.blockNum.toNat < 2 ^ 63

theorem order_of_lt {n : UInt64} (h : n.toNat < 2 ^ 63) : BlockKey.order ⟨n⟩ = n.toNat := by
  have hmsb : n.toBitVec.toNat < 2 ^ 63 := h
  rw [BlockKey.order_eq, BitVec.toInt_eq_toNat_of_lt (by omega)]
  rfl

theorem order_neg {n : UInt64} (h : 2 ^ 63 ≤ n.toNat) : BlockKey.order ⟨n⟩ < 0 := by
  have hlt : n.toBitVec.toNat < 2 ^ 64 := n.toNat_lt
  have hmsb : 2 ^ 63 ≤ n.toBitVec.toNat := h
  rw [BlockKey.order_eq, BitVec.toInt_eq_toNat_cond, if_neg (by omega)]
  omega

theorem lt_iff_of_lt {n m : UInt64} (hn : n.toNat < 2 ^ 63) (hm : m.toNat < 2 ^ 63) :
    BlockKey.mk n < BlockKey.mk m ↔ n < m := by
  change BlockKey.order ⟨n⟩ < BlockKey.order ⟨m⟩ ↔ n < m
  rw [order_of_lt hn, order_of_lt hm, UInt64.lt_iff_toNat_lt]
  omega

theorem loadBlocksAfter_eq (n : UInt64) (t : BlockTable) :
    t.loadBlocksAfter (some n) =
      Paging.rowsAfter BlockKey.mk BlockRow.blockNum n (t.rows.map row) := by
  unfold loadBlocksAfter Paging.rowsAfter
  rw [List.filter_map]
  rfl

theorem sorted_map_row (t : BlockTable) : (t.rows.map row).Pairwise fun a b =>
    BlockKey.mk a.blockNum < BlockKey.mk b.blockNum := List.pairwise_map.mpr t.sorted

/-- From a number that is not negative on, the table has the rows after it. -/
theorem loadBlocksAfter_of_lt {t : BlockTable} (hfit : t.NumbersFit) {n : UInt64}
    (hn : n.toNat < 2 ^ 63) : t.loadBlocksAfter (some n) = t.rowsAfterNum n := by
  rw [loadBlocksAfter_eq]
  unfold Paging.rowsAfter rowsAfterNum
  refine List.filter_congr fun r hr => ?_
  obtain ⟨e, he, rfl⟩ := List.mem_map.mp hr
  exact decide_eq_decide.mpr (lt_iff_of_lt hn (hfit e he))

/-- From any other number on it has all of them, and none comes after it. -/
theorem loadBlocksAfter_of_le {t : BlockTable} (hfit : t.NumbersFit) {n : UInt64}
    (hn : 2 ^ 63 ≤ n.toNat) :
    t.loadBlocksAfter (some n) = t.rows.map row ∧ t.rowsAfterNum n = [] := by
  have hneg := order_neg hn
  rw [loadBlocksAfter_eq]
  unfold Paging.rowsAfter rowsAfterNum
  rw [List.filter_eq_self, List.filter_eq_nil_iff]
  constructor
  · intro r hr
    obtain ⟨e, he, rfl⟩ := List.mem_map.mp hr
    apply decide_eq_true
    change BlockKey.order ⟨n⟩ < BlockKey.order ⟨e.1.blockNum⟩
    rw [order_of_lt (hfit e he)]
    omega
  · intro r hr
    obtain ⟨e, he, rfl⟩ := List.mem_map.mp hr
    have hlt : e.1.blockNum.toNat < 2 ^ 63 := hfit e he
    change ¬decide (n < e.1.blockNum) = true
    rw [decide_eq_true_eq, UInt64.lt_iff_toNat_lt]
    omega

theorem ascending_rowsAfterNum {t : BlockTable} (hfit : t.NumbersFit) (n : UInt64) :
    (t.rowsAfterNum n).Pairwise fun a b => a.blockNum < b.blockNum := by
  unfold rowsAfterNum
  refine List.Pairwise.filter _ (t.sorted_map_row.imp_of_mem fun {a b} ha hb hlt => ?_)
  obtain ⟨e, he, rfl⟩ := List.mem_map.mp ha
  obtain ⟨e', he', rfl⟩ := List.mem_map.mp hb
  exact (lt_iff_of_lt (hfit e he) (hfit e' he')).mp hlt

end BlockTable

def Downloads (peer : BlocksPeer) (n : UInt64) (rows : List BlockRow) : Prop :=
  ∃ fuel, downloadBlocksUntilEmpty peer fuel n = some (some rows)

/-- Page by page the client gets what one load of the table would give. -/
theorem downloads_ofTable (t : BlockTable) (n : UInt64) :
    Downloads (.ofTable t) n (t.loadBlocksAfter (some n)) := by
  have hanswers : ∀ k after, (BlocksPeer.ofTable t).answers k after =
      some ((Paging.rowsAfter BlockKey.mk BlockRow.blockNum after
        (t.rows.map BlockTable.row)).take downloadPage) := by
    intro k after
    rw [← BlockTable.loadBlocksAfter_eq]
    rfl
  rw [BlockTable.loadBlocksAfter_eq]
  exact Paging.run_sorted BlockKey.mk (by decide) t.sorted_map_row hanswers { cursor := n }

theorem Downloads.unique {peer : BlocksPeer} {n : UInt64} {rows rows' : List BlockRow}
    (h : Downloads peer n rows) (h' : Downloads peer n rows') : rows = rows' := by
  obtain ⟨fuel, hrun⟩ := h
  obtain ⟨fuel', hrun'⟩ := h'
  exact Option.some.inj (Paging.run_unique hrun hrun')

/-- The download is exactly the rows after the start, in order, unless the start is
negative as `i64` and there are rows at all. -/
theorem downloads_rowsAfterNum_iff {t : BlockTable} (hfit : t.NumbersFit) (n : UInt64) :
    (Downloads (.ofTable t) n (t.rowsAfterNum n) ∧
      (t.rowsAfterNum n).Pairwise fun a b => a.blockNum < b.blockNum) ↔
    n.toNat < 2 ^ 63 ∨ t.rows = [] := by
  have hload := downloads_ofTable t n
  rcases Nat.lt_or_ge n.toNat (2 ^ 63) with hn | hn
  · rw [BlockTable.loadBlocksAfter_of_lt hfit hn] at hload
    exact ⟨fun _ => Or.inl hn, fun _ => ⟨hload, BlockTable.ascending_rowsAfterNum hfit n⟩⟩
  · obtain ⟨hall, hnone⟩ := BlockTable.loadBlocksAfter_of_le hfit hn
    rw [hall] at hload
    rw [hnone]
    constructor
    · rintro ⟨hempty, -⟩
      exact Or.inr (List.map_eq_nil_iff.mp (hload.unique hempty))
    · rintro (hlt | hempty)
      · omega
      · rw [hempty, List.map_nil] at hload
        exact ⟨hload, List.Pairwise.nil⟩

namespace Sample

theorem toNat_ofNat_succ {i : Nat} (hi : i < 250) : (UInt64.ofNat (i + 1)).toNat = i + 1 := by
  rw [UInt64.toNat_ofNat']
  omega

def twoPages : BlockTable where
  rows := (List.range 250).map fun i => (⟨.ofNat (i + 1)⟩, ("01", [1]))
  sorted := by
    rw [List.pairwise_map]
    refine List.pairwise_lt_range.imp_of_mem fun {i j} hi hj hlt => ?_
    rw [List.mem_range] at hi hj
    have hnum := toNat_ofNat_succ hi
    have hnum' := toNat_ofNat_succ hj
    rw [BlockTable.lt_iff_of_lt (by omega) (by omega), UInt64.lt_iff_toNat_lt]
    omega

theorem twoPages_numbersFit : twoPages.NumbersFit := by
  rintro row hrow
  obtain ⟨i, hi, rfl⟩ := List.mem_map.mp hrow
  rw [List.mem_range] at hi
  have hnum := toNat_ofNat_succ hi
  dsimp only
  omega

/-- From block 30 on the client gets 220 blocks, 200 of them with its first request. -/
theorem downloads_twoPages :
    Downloads (.ofTable twoPages) 30 (twoPages.rowsAfterNum 30) ∧
      (twoPages.rowsAfterNum 30).length = 220 ∧
      ((BlocksPeer.ofTable twoPages).answers 0 30).map List.length = some 200 := by
  refine ⟨?_, by decide +kernel, by decide +kernel⟩
  have hstart : (30 : UInt64).toNat < 2 ^ 63 := by decide
  exact ((downloads_rowsAfterNum_iff twoPages_numbersFit 30).mpr (Or.inl hstart)).1

def blockOne : BlockTable := BlockTable.saveBlock .empty ⟨1, "01", [1]⟩

/-- No block is after the number `2 ^ 63`, and the download from it brings block 1. -/
theorem blockOne_downloaded_again :
    blockOne.rowsAfterNum 9223372036854775808 = [] ∧
      Downloads (.ofTable blockOne) 9223372036854775808 [⟨1, "01", [1]⟩] ∧
      ¬Downloads (.ofTable blockOne) 9223372036854775808
        (blockOne.rowsAfterNum 9223372036854775808) := by
  have hnone : blockOne.rowsAfterNum 9223372036854775808 = [] := by decide
  have hone : Downloads (.ofTable blockOne) 9223372036854775808 [⟨1, "01", [1]⟩] := ⟨1, by decide⟩
  refine ⟨hnone, hone, ?_⟩
  intro hexact
  rw [hnone] at hexact
  nomatch hone.unique hexact

end Sample

/-! ## Any peer -/

theorem wellFounded_gt : WellFounded fun a b : UInt64 => b < a := by
  refine Subrelation.wf (fun {a b} (h : b < a) => ?_) (measure fun a : UInt64 => 2 ^ 64 - a.toNat).wf
  have ha := a.toNat_lt
  have hlt := UInt64.lt_iff_toNat_lt.mp h
  change 2 ^ 64 - a.toNat < 2 ^ 64 - b.toNat
  omega

/-- Whatever a peer answers, the cursor rises with every request that does not end the
download, the download ends, and no block number is collected twice, exactly when each full
page ends above the one before it and no number is on two rows of the pages. -/
theorem download_terminating_iff (peer : BlocksPeer) (n : UInt64) :
    Paging.Terminating BlockRow.blockNum downloadPage peer.answers n ↔
      Paging.Rising BlockRow.blockNum downloadPage peer.answers n :=
  Paging.terminating_iff wellFounded_gt peer.answers n

namespace Sample

/-- A peer that answers every request with two hundred times block 7. -/
def stuckPeer : BlocksPeer := fun _ _ limit => some (List.replicate limit ⟨7, "07", []⟩)

theorem pageAt_stuckPeer (k : Nat) :
    Paging.pageAt BlockRow.blockNum stuckPeer.answers 0 k = List.replicate 200 ⟨7, "07", []⟩ := rfl

theorem fullAt_stuckPeer (k : Nat) :
    Paging.FullAt BlockRow.blockNum downloadPage stuckPeer.answers 0 k := by
  unfold Paging.FullAt
  rw [pageAt_stuckPeer]
  exact ⟨List.cons_ne_nil _ _, (List.length_replicate).ge⟩

/-- The second request leaves the cursor at block 7, and the download never ends. -/
theorem stuckPeer_endless :
    (∀ fuel, downloadBlocksUntilEmpty stuckPeer fuel 0 = none) ∧
      ¬Paging.Terminating BlockRow.blockNum downloadPage stuckPeer.answers 0 := by
  have hendless : ∀ fuel, downloadBlocksUntilEmpty stuckPeer fuel 0 = none := by
    intro fuel
    cases hrun : downloadBlocksUntilEmpty stuckPeer fuel 0 with
    | none => rfl
    | some result =>
        obtain ⟨k, -, q, hafter, hend⟩ := Paging.run_eq_some_iff.mp hrun
        obtain ⟨-, rfl⟩ := Paging.after_eq_some_iff.mp hafter
        rw [Paging.ask_pagerAt_full (fullAt_stuckPeer k)] at hend
        nomatch hend
  refine ⟨hendless, ?_⟩
  intro hterminating
  obtain ⟨fuel, hends⟩ := hterminating.ends
  change (downloadBlocksUntilEmpty stuckPeer fuel 0).isSome = true at hends
  rw [hendless fuel] at hends
  nomatch hends

end Sample

end ClobIndexer
