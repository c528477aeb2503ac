import ClobIndexer.Lib.SortedStore
import ClobIndexer.Lib.Word
/-!
# The table of saved blocks

`BlockStore` of `src/persist/store.rs`.  SQLite keeps a block number as a signed
integer and compares it as one.
-/

namespace ClobIndexer

open Lib

structure BlockRow where
  blockNum : UInt64
  digest : String
  payload : List UInt8
deriving DecidableEq

structure BlockKey where
  blockNum : UInt64
deriving DecidableEq

namespace BlockKey

/-- `block_num as i64`. -/
def order (k : BlockKey) : Int := k.blockNum.toInt64.toInt

theorem order_injective : Function.Injective order := by
  intro a b h
  have hsame : a.blockNum = b.blockNum := Word.toInt64_injective (Int64.toInt_inj.mp h)
  cases a
  cases b
  exact congrArg BlockKey.mk hsame

instance : LinearOrder BlockKey := LinearOrder.lift' order order_injective

end BlockKey

abbrev BlockTable := SortedStore BlockKey (String × List UInt8)

namespace BlockTable

def row (e : BlockKey × (String × List UInt8)) : BlockRow := ⟨e.1.blockNum, e.2.1, e.2.2⟩

/-- `INSERT OR REPLACE` of one row. -/
def saveBlock (t : BlockTable) (row : BlockRow) : BlockTable :=
  t.put ⟨row.blockNum⟩ (row.digest, row.payload)

/-- `apply_encoded_blocks_batch`, in one transaction. -/
def applyEncodedBlocksBatch (rows : List BlockRow) (t : BlockTable) : BlockTable :=
  rows.foldl saveBlock t

def loadBlocksAfter (afterBlockNum : Option UInt64) (t : BlockTable) : List BlockRow :=
  match afterBlockNum with
  | some n => (t.rows.filter fun e => BlockKey.mk n < e.1).map row
  | none => t.rows.map row

def Saved (t : BlockTable) (blockNum : UInt64) : Prop := ∃ v, (BlockKey.mk blockNum, v) ∈ t.rows

theorem saved_saveBlock (t : BlockTable) (row : BlockRow) (n : UInt64) :
    (t.saveBlock row).Saved n ↔ n = row.blockNum ∨ t.Saved n := by
  unfold Saved saveBlock
  simp only [SortedStore.mem_put, BlockKey.mk.injEq]
  constructor
  · rintro ⟨v, ⟨hn, -⟩ | ⟨-, hv⟩⟩
    · exact Or.inl hn
    · exact Or.inr ⟨v, hv⟩
  · intro h
    by_cases hn : n = row.blockNum
    · exact ⟨_, Or.inl ⟨hn, rfl⟩⟩
    · obtain ⟨v, hv⟩ := h.resolve_left hn
      exact ⟨v, Or.inr ⟨fun heq => hn (congrArg BlockKey.blockNum heq), hv⟩⟩

theorem saved_applyEncodedBlocksBatch (rows : List BlockRow) (t : BlockTable) (n : UInt64) :
    (t.applyEncodedBlocksBatch rows).Saved n ↔ (∃ row ∈ rows, n = row.blockNum) ∨ t.Saved n := by
  unfold applyEncodedBlocksBatch
  induction rows generalizing t with
  | nil => simp
  | cons row rows ih =>
      rw [List.foldl_cons, ih, saved_saveBlock, List.exists_mem_cons_iff]
      simp only [or_assoc, or_left_comm]

end BlockTable

/-! ## Runs of block numbers -/

def following (n : UInt64) : Nat → List UInt64
  | 0 => []
  | k + 1 => (n + 1) :: following (n + 1) k

namespace BlockKey

theorem order_eq (n : UInt64) : order ⟨n⟩ = n.toBitVec.toInt := rfl

theorem order_sub_one {n m : UInt64} (h : BlockKey.mk n < BlockKey.mk m) :
    order ⟨m - 1⟩ = order ⟨m⟩ - 1 := by
  have hlt : order ⟨n⟩ < order ⟨m⟩ := h
  have hlow : -2 ^ 63 ≤ order ⟨n⟩ := Int64.le_toInt n.toInt64
  have hhigh : order ⟨m⟩ < 2 ^ 63 := Int64.toInt_lt m.toInt64
  rw [order_eq m] at hhigh hlt
  rw [order_eq, order_eq, UInt64.toBitVec_sub, BitVec.toInt_sub]
  have hone : (1 : UInt64).toBitVec.toInt = 1 := by decide
  rw [hone]
  apply Int.bmod_eq_of_le <;> omega

theorem eq_succ_or_lt_pred {n m : UInt64} (h : BlockKey.mk n < BlockKey.mk m) :
    m = n + 1 ∨ BlockKey.mk n < BlockKey.mk (m - 1) := by
  have hpred := order_sub_one h
  have hlt : order ⟨n⟩ < order ⟨m⟩ := h
  rcases Int.lt_or_eq_of_le (Int.le_sub_one_of_lt hlt) with hbelow | hsame
  · exact Or.inr (show order ⟨n⟩ < order ⟨m - 1⟩ by rw [hpred]; exact hbelow)
  · have hkeys : BlockKey.mk n = BlockKey.mk (m - 1) := order_injective (hsame.trans hpred.symm)
    have hn : n = m - 1 := congrArg BlockKey.blockNum hkeys
    left
    rw [hn, UInt64.sub_add_cancel]

theorem pred_lt {n m : UInt64} (h : BlockKey.mk n < BlockKey.mk m) :
    BlockKey.mk (m - 1) < BlockKey.mk m := by
  change order ⟨m - 1⟩ < order ⟨m⟩
  rw [order_sub_one h]
  exact Int.sub_one_lt_of_le (le_refl _)

end BlockKey

/-- Numbers in order are a run exactly when each follows the start or another one. -/
theorem eq_following_iff {l : List UInt64} {n : UInt64}
    (hsorted : l.Pairwise fun a b => BlockKey.mk a < BlockKey.mk b)
    (hafter : ∀ m ∈ l, BlockKey.mk n < BlockKey.mk m) :
    l = following n l.length ↔ ∀ m ∈ l, m = n + 1 ∨ m - 1 ∈ l := by
  induction l generalizing n with
  | nil => simp [following]
  | cons first rest ih =>
      rw [List.pairwise_cons] at hsorted
      have hfirst : BlockKey.mk n < BlockKey.mk first := hafter first List.mem_cons_self
      have hrest := ih hsorted.2 hsorted.1
      rw [List.length_cons, following, List.cons.injEq]
      constructor
      · rintro ⟨heq, hrun⟩ m hm
        rw [← heq] at hrun
        rcases List.mem_cons.mp hm with rfl | hm
        · exact Or.inl heq
        · right
          rcases hrest.mp hrun m hm with rfl | hpred
          · rw [UInt64.add_sub_cancel]
            exact List.mem_cons_self
          · exact List.mem_cons_of_mem _ hpred
      · intro h
        have hstart : first = n + 1 := by
          rcases h first List.mem_cons_self with heq | hpred
          · exact heq
          · -- the number before the first one would come after it
            have hlt := BlockKey.pred_lt hfirst
            rcases List.mem_cons.mp hpred with heq | hmem
            · rw [heq] at hlt
              exact absurd hlt (lt_irrefl _)
            · exact absurd (hsorted.1 _ hmem) (lt_asymm hlt)
        refine ⟨hstart, ?_⟩
        rw [← hstart]
        refine hrest.mpr ?_
        intro m hm
        rcases h m (List.mem_cons_of_mem _ hm) with heq | hpred
        · rw [heq, ← hstart] at hm
          exact absurd (hsorted.1 _ hm) (lt_irrefl _)
        · rcases List.mem_cons.mp hpred with heq | hmem
          · left
            rw [← heq, UInt64.sub_add_cancel]
          · exact Or.inr hmem

namespace BlockTable

/-- The blocks loaded after `n` are `n + 1`, `n + 2` and so on. -/
def GapFree (n : UInt64) (t : BlockTable) : Prop :=
  ∃ k, (t.loadBlocksAfter (some n)).map BlockRow.blockNum = following n k

theorem length_following (n : UInt64) (k : Nat) : (following n k).length = k := by
  induction k generalizing n with
  | zero => rfl
  | succ k ih => rw [following, List.length_cons, ih]

/-- No gap: each block saved after `n` follows it or another one. -/
theorem gapFree_iff (n : UInt64) (t : BlockTable) :
    t.GapFree n ↔
      ∀ m, t.Saved m → BlockKey.mk n < BlockKey.mk m → m = n + 1 ∨ t.Saved (m - 1) := by
  have hnums : (t.loadBlocksAfter (some n)).map BlockRow.blockNum =
      (t.rows.filter fun e => BlockKey.mk n < e.1).map fun e => e.1.blockNum := List.map_map
  have hmem : ∀ m, m ∈ (t.loadBlocksAfter (some n)).map BlockRow.blockNum ↔
      t.Saved m ∧ BlockKey.mk n < BlockKey.mk m := by
    intro m
    rw [hnums]
    unfold Saved
    simp only [List.mem_map, List.mem_filter, decide_eq_true_eq, Prod.exists]
    constructor
    · rintro ⟨⟨_⟩, digest, payload, ⟨hrow, hlt⟩, rfl⟩
      exact ⟨⟨digest, payload, hrow⟩, hlt⟩
    · rintro ⟨⟨digest, payload, hrow⟩, hlt⟩
      exact ⟨_, digest, payload, ⟨hrow, hlt⟩, rfl⟩
  have hsorted : ((t.loadBlocksAfter (some n)).map BlockRow.blockNum).Pairwise
      fun a b => BlockKey.mk a < BlockKey.mk b := by
    rw [hnums, List.pairwise_map]
    exact t.sorted.filter _
  have hrun : t.GapFree n ↔ (t.loadBlocksAfter (some n)).map BlockRow.blockNum =
      following n ((t.loadBlocksAfter (some n)).map BlockRow.blockNum).length := by
    constructor
    · rintro ⟨k, hk⟩
      rw [hk, length_following]
    · exact fun h => ⟨_, h⟩
  rw [hrun, eq_following_iff hsorted fun m hm => ((hmem m).mp hm).2]
  constructor
  · intro h m hsaved hlt
    exact (h m ((hmem m).mpr ⟨hsaved, hlt⟩)).imp_right fun hpred => ((hmem _).mp hpred).1
  · intro h m hm
    obtain ⟨hsaved, hlt⟩ := (hmem m).mp hm
    rcases BlockKey.eq_succ_or_lt_pred hlt with heq | hpred
    · exact Or.inl heq
    · exact (h m hsaved hlt).imp_right fun hsaved' => (hmem _).mpr ⟨hsaved', hpred⟩

theorem GapFree.mono {t : BlockTable} {n n' : UInt64} (h : t.GapFree n)
    (hle : BlockKey.mk n ≤ BlockKey.mk n') : t.GapFree n' := by
  rw [gapFree_iff] at h ⊢
  intro m hsaved hlt
  rcases BlockKey.eq_succ_or_lt_pred hlt with heq | hpred
  · exact Or.inl heq
  · have hfrom : BlockKey.mk n < BlockKey.mk m := lt_of_le_of_lt hle hlt
    rcases h m hsaved hfrom with heq | hsaved'
    · rw [heq, UInt64.add_sub_cancel] at hpred
      exact absurd hpred (not_lt.mpr hle)
    · exact Or.inr hsaved'

end BlockTable

end ClobIndexer
