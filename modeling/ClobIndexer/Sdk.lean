import ClobIndexer.Domain
import ClobIndexer.Lib.Text
import ClobIndexer.Lib.Word
/-!
# The chain SDK as the indexer sees it

Address parsing, vault accounts and name-based UUIDs come from crates outside
the repository, so they are parameters.  `LawfulSdk` records the two facts about
addresses that key normalization relies on: the contract parser reads its own
printed form back, and that form carries no surrounding white space.

The module also holds the pure helpers of `src/spot_market.rs`, the key
functions of `src/indexer/index_state.rs` and the amount formats of
`src/chain/mod.rs`.
-/

namespace ClobIndexer

open Lib

structure Sdk where
  contractAddressLength : Nat
  parseTokenContract : String → Option (List UInt8)
  addressFromStr : String → Option (List UInt8)
  contractToString : List UInt8 → String
  /-- `vault_account`: the trading account derived from a vault address. -/
  vaultAccount : String → String
  /-- `Uuid::new_v5` under the OID namespace. -/
  uuidV5 : String → Uuid

structure LawfulSdk (sdk : Sdk) : Prop where
  parse_length : ∀ s c, sdk.parseTokenContract s = some c →
    c.length = sdk.contractAddressLength
  address_length : ∀ s a, sdk.addressFromStr s = some a →
    sdk.contractAddressLength ≤ a.length
  parse_print : ∀ c, c.length = sdk.contractAddressLength →
    sdk.parseTokenContract (sdk.contractToString c) = some c
  trim_print : ∀ c, Text.trim (sdk.contractToString c) = sdk.contractToString c

variable (sdk : Sdk)

/-- `normalize_spot_market_key`: the printed contract address when the text is a
contract or an account address, the trimmed text otherwise. -/
def normalizeSpotMarketKey (value : String) : String :=
  let trimmed := Text.trim value
  match sdk.parseTokenContract trimmed with
  | some contract => sdk.contractToString contract
  | none =>
      match sdk.addressFromStr trimmed with
      | some bytes => sdk.contractToString (bytes.take sdk.contractAddressLength)
      | none => trimmed

/-- `{normalized_spot_market}:{chain_order_id}`. -/
def onchainOrderId (spotMarket chainOrderId : String) : String :=
  normalizeSpotMarketKey sdk spotMarket ++ ":" ++ chainOrderId

def splitOnchainOrderId (id : String) : Option (String × String) := Text.rsplitOnce ':' id

def userKey (userAddress : String) : String := Text.toAsciiLowercase (Text.trim userAddress)

def addrKey (address : String) : String := Text.toAsciiLowercase (Text.trim address)

def marketUuid (marketAddress : String) : Uuid := sdk.uuidV5 marketAddress

def vaultUuid (vaultAddress : String) : Uuid := sdk.uuidV5 ("vault:" ++ vaultAddress)

def orderUuid (spotMarket chainOrderId : String) : Uuid :=
  sdk.uuidV5 (normalizeSpotMarketKey sdk spotMarket ++ ":" ++ chainOrderId)

section Laws

variable {sdk} (lawful : LawfulSdk sdk)

include lawful in
theorem normalize_print {c : List UInt8} (hc : c.length = sdk.contractAddressLength) :
    normalizeSpotMarketKey sdk (sdk.contractToString c) = sdk.contractToString c := by
  simp only [normalizeSpotMarketKey, lawful.trim_print, lawful.parse_print c hc]

include lawful in
theorem normalize_normalize (value : String) :
    normalizeSpotMarketKey sdk (normalizeSpotMarketKey sdk value) =
      normalizeSpotMarketKey sdk value := by
  cases hc : sdk.parseTokenContract (Text.trim value) with
  | some contract =>
      have hn : normalizeSpotMarketKey sdk value = sdk.contractToString contract := by
        simp [normalizeSpotMarketKey, hc]
      rw [hn]
      exact normalize_print lawful (lawful.parse_length _ _ hc)
  | none =>
      cases ha : sdk.addressFromStr (Text.trim value) with
      | some bytes =>
          have hn : normalizeSpotMarketKey sdk value =
              sdk.contractToString (bytes.take sdk.contractAddressLength) := by
            simp [normalizeSpotMarketKey, hc, ha]
          rw [hn]
          apply normalize_print lawful
          rw [List.length_take]
          exact Nat.min_eq_left (lawful.address_length _ _ ha)
      | none =>
          have hn : normalizeSpotMarketKey sdk value = Text.trim value := by
            simp [normalizeSpotMarketKey, hc, ha]
          rw [hn]
          simp [normalizeSpotMarketKey, hc, ha]

include lawful in
theorem trim_normalize (value : String) :
    Text.trim (normalizeSpotMarketKey sdk value) = normalizeSpotMarketKey sdk value := by
  unfold normalizeSpotMarketKey
  dsimp only
  split
  · exact lawful.trim_print _
  · split
    · exact lawful.trim_print _
    · exact Text.trim_trim value

include lawful in
@[simp] theorem onchainOrderId_normalize (spotMarket chainOrderId : String) :
    onchainOrderId sdk (normalizeSpotMarketKey sdk spotMarket) chainOrderId =
      onchainOrderId sdk spotMarket chainOrderId := by
  unfold onchainOrderId
  rw [normalize_normalize lawful]

end Laws

/-! ## Amount formats -/

def tokenScale : Nat := 1000000

def formatTokenAmount (raw : UInt64) : String :=
  let whole := raw.toNat / tokenScale
  let frac := raw.toNat % tokenScale
  if frac = 0 then Nat.repr whole
  else Nat.repr whole ++ "." ++ Text.padZeros 6 frac

def formatPricePieces (raw : UInt64) : String :=
  let numerator := (Word.satMul raw 100).toNat
  let whole := numerator / tokenScale
  let frac := numerator % tokenScale
  if frac = 0 then Nat.repr whole
  else Nat.repr whole ++ "." ++ Text.trimEndMatches '0' (Text.padZeros 6 frac)

example : formatTokenAmount 1500000 = "1.500000" := by decide

example : formatPricePieces 4500 = "0.45" := by decide

theorem pieces_ne_zero {n : Nat} (h : n ≠ 0) (fraction : String) :
    (if n % tokenScale = 0 then Nat.repr (n / tokenScale)
      else Nat.repr (n / tokenScale) ++ "." ++ fraction) ≠ "0" := by
  have hzero : "0" = Nat.repr 0 := by decide
  rw [hzero]
  split_ifs with hfrac
  · intro heq
    have hwhole := Text.repr_inj heq
    have hdiv := Nat.div_add_mod n tokenScale
    rw [hwhole, hfrac] at hdiv
    omega
  · intro heq
    exact Text.repr_ne_point _ _ _ heq.symm

/-- A level that rests is not shown with the size of one that is gone. -/
theorem formatTokenAmount_ne_zero {raw : UInt64} (h : raw ≠ 0) : formatTokenAmount raw ≠ "0" :=
  pieces_ne_zero (fun hz => h ((Word.eq_zero_iff raw).mpr hz)) _

/-- Two prices that the format does not clamp are shown alike only if they are equal. -/
theorem formatPricePieces_inj {p q : UInt64} (hp : p.toNat ≤ Word.u64Max / 100)
    (hq : q.toNat ≤ Word.u64Max / 100) (h : formatPricePieces p = formatPricePieces q) :
    p = q := by
  have hnum : ∀ r : UInt64, r.toNat ≤ Word.u64Max / 100 →
      (Word.satMul r 100).toNat = r.toNat * 100 := by
    intro r hr
    rw [Word.satMul, Word.toNat_clamp]
    apply Nat.min_eq_left
    exact (Nat.le_div_iff_mul_le (by decide)).mp hr
  unfold formatPricePieces at h
  simp only [hnum p hp, hnum q hq] at h
  have hparts : p.toNat * 100 / tokenScale = q.toNat * 100 / tokenScale ∧
      p.toNat * 100 % tokenScale = q.toNat * 100 % tokenScale := by
    have hlt : ∀ n, n % tokenScale < 10 ^ 6 := fun n => Nat.mod_lt n (by decide)
    split_ifs at h with h1 h2 h2
    · exact ⟨Text.repr_inj h, h1.trans h2.symm⟩
    · exact absurd h (Text.repr_ne_point _ _ _)
    · exact absurd h.symm (Text.repr_ne_point _ _ _)
    · obtain ⟨hwhole, hfrac⟩ := Text.repr_point_inj h
      exact ⟨hwhole, Text.trimEndMatches_padZeros_inj (by decide) (hlt _) (hlt _) '0' hfrac⟩
  have heq : p.toNat * 100 = q.toNat * 100 := by
    rw [← Nat.div_add_mod (p.toNat * 100) tokenScale, hparts.1, hparts.2, Nat.div_add_mod]
  exact UInt64.toNat_inj.mp (Nat.eq_of_mul_eq_mul_right (by decide) heq)

end ClobIndexer
