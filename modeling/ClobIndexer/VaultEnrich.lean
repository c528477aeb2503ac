import ClobIndexer.Http.MarkCancelled
import Mathlib.Data.List.Forall2
/-!
# What a vault is worth

`src/vault_enrich.rs`: the equity of a vault is its quote balance and its holdings at their
last prices, and a holder's deposit is the share of it.  A product is formed in 128 bits and
cut back to a word after the division; the sum of the products saturates.
-/

namespace ClobIndexer

open Lib

/-! ## Amounts -/

/-- `mul_quote`: the cut keeps the low 64 bits. -/
def mulQuote (amount price : UInt64) : UInt64 :=
  UInt64.ofNat (amount.toNat * price.toNat / tokenScale)

def mulDiv (a b d : UInt64) : UInt64 :=
  if d = 0 then 0 else UInt64.ofNat (a.toNat * b.toNat / d.toNat)

def formatAmount2dp (raw : UInt64) : String :=
  let cents := (Word.satAdd raw 5000).toNat / 10000
  Nat.repr (cents / 100) ++ "." ++ Text.padZeros 2 (cents % 100)

example : formatAmount2dp 1995000 = "2.00" := by decide

/-! ## Enrichment -/

structure VaultChain where
  /-- the total that an account holds of a token -/
  getBalance : List UInt8 → List UInt8 → Option UInt64
  /-- the last price of a market, as an account asks for it -/
  getMarketInfo : List UInt8 → List UInt8 → Option (Option UInt64)
  /-- the total supply of a token, as an account asks for it -/
  getTokenInfo : List UInt8 → List UInt8 → Option UInt64

structure VaultSetting where
  sdk : Sdk
  /-- the SDK's texts for what it cannot parse -/
  addressError : String → String
  contractError : String → String
  queryAccount : String
  index : IndexState
  chain : VaultChain

/-- The two amounts that are formatted, and the portfolio; no deposit is shown as "0.00". -/
structure VaultValues where
  equity : UInt64
  userDeposit : Option UInt64
  portfolio : List VaultAsset
deriving DecidableEq

namespace VaultSetting

variable (s : VaultSetting)

def parseAddress (value : String) : Except AppError (List UInt8) :=
  match s.sdk.addressFromStr (Text.trim value) with
  | some address => .ok address
  | none =>
      .error (.badRequest
        ("invalid address '" ++ value ++ "': " ++ s.addressError (Text.trim value)))

def parseContract (value : String) : Except AppError (List UInt8) :=
  match s.sdk.parseTokenContract (Text.trim value) with
  | some contract => .ok contract
  | none =>
      .error (.badRequest
        ("invalid contract '" ++ value ++ "': " ++ s.contractError (Text.trim value)))

def vaultPortfolioHoldings (vaultAddress : String) : List (String × UInt64) :=
  match s.index.vaults.vaultByAddress.lookup (addrKey vaultAddress) with
  | none => []
  | some vaultId =>
      let holdings := (s.index.vaults.holdings vaultId).entries.map fun e => (e.1, e.2)
      (holdings.filter fun h => 0 < h.2).mergeSort fun left right => left.1 ≤ right.1

def lastTradePrice (spotMarket : String) : Option UInt64 :=
  s.index.lastTradePrice.lookup (normalizeSpotMarketKey s.sdk spotMarket)

/-- The price of a holding: the last trade's, or the node's. -/
def priceOf (queryAccount : List UInt8) (market : String) : Option UInt64 :=
  match s.lastTradePrice market with
  | some price => some price
  | none =>
      match s.parseContract market with
      | .ok contract => (s.chain.getMarketInfo queryAccount contract).join
      | .error _ => none

end VaultSetting

def addHolding (price : String → Option UInt64) (sum : UInt64 × List VaultAsset)
    (holding : String × UInt64) : UInt64 × List VaultAsset :=
  match if 0 < holding.2 then price holding.1 else none with
  | some price =>
      let value := mulQuote holding.2 price
      (Word.satAdd sum.1 value,
        sum.2 ++ [⟨holding.1, formatAmount2dp holding.2, some (formatAmount2dp price),
          some (formatAmount2dp value)⟩])
  | none => (sum.1, sum.2 ++ [⟨holding.1, formatAmount2dp holding.2, none, none⟩])

namespace VaultSetting

variable (s : VaultSetting)

def depositOf (queryAccount shareToken : List UInt8) (equity : UInt64) :
    Option String → Except AppError (Option UInt64)
  | none => .ok none
  | some account =>
      if Text.trim account = "" then .ok none
      else do
        let user ← s.parseAddress account
        let userShares := (s.chain.getBalance user shareToken).getD 0
        if userShares = 0 ∨ equity = 0 then return none
        let totalSupply := (s.chain.getTokenInfo queryAccount shareToken).getD 0
        if totalSupply = 0 then return none
        return some (mulDiv userShares equity totalSupply)

/-- `enrich_vault_inner`, before its amounts are formatted. -/
def vaultValues (vault : Vault) (userAccount : Option String) : Except AppError VaultValues := do
  let queryAccount ← s.parseAddress s.queryAccount
  let vaultAccount ← s.parseAddress vault.vaultAccount
  let quoteToken ← s.parseContract vault.quoteToken
  let shareToken ← s.parseContract vault.shareToken
  let holdings := s.vaultPortfolioHoldings vault.vaultAddress
  let quoteBalance := (s.chain.getBalance vaultAccount quoteToken).getD 0
  let cash : VaultAsset := ⟨vault.quoteToken ++ "(Cash)", formatAmount2dp quoteBalance,
    some "1.00", some (formatAmount2dp quoteBalance)⟩
  let sum := holdings.foldl (addHolding (s.priceOf queryAccount)) (quoteBalance, [cash])
  let userDeposit ← s.depositOf queryAccount shareToken sum.1 userAccount
  return ⟨sum.1, userDeposit, sum.2⟩

def enrichVaultInner (vault : Vault) (userAccount : Option String) :
    Except AppError (String × String × List VaultAsset) :=
  (s.vaultValues vault userAccount).map fun v =>
    (formatAmount2dp v.equity, (v.userDeposit.map formatAmount2dp).getD "0.00", v.portfolio)

def enrichVaultForAccount (vault : Vault) (userAccount : Option String) : Vault :=
  match s.enrichVaultInner vault userAccount with
  | .ok (equity, userDeposit, portfolio) => { vault with equity, userDeposit, portfolio }
  | .error _ =>
      { vault with
        portfolio := []
        userDeposit := if vault.userDeposit = "" then "0.00" else vault.userDeposit }

end VaultSetting

/-! ## What the amounts stand for -/

def worth (h : UInt64 × UInt64) : Nat := h.1.toNat * h.2.toNat / tokenScale

namespace VaultSetting

variable (s : VaultSetting)

def quoteBalance (vault : Vault) : UInt64 :=
  match s.parseAddress vault.vaultAccount, s.parseContract vault.quoteToken with
  | .ok account, .ok token => (s.chain.getBalance account token).getD 0
  | _, _ => 0

def pricedHoldings (vault : Vault) : List (UInt64 × UInt64) :=
  match s.parseAddress s.queryAccount with
  | .ok queryAccount =>
      (s.vaultPortfolioHoldings vault.vaultAddress).filterMap fun h =>
        (s.priceOf queryAccount h.1).map fun price => (h.2, price)
  | .error _ => []

def userShares (vault : Vault) (account : String) : UInt64 :=
  match s.parseAddress account, s.parseContract vault.shareToken with
  | .ok user, .ok token => (s.chain.getBalance user token).getD 0
  | _, _ => 0

def totalSupply (vault : Vault) : UInt64 :=
  match s.parseAddress s.queryAccount, s.parseContract vault.shareToken with
  | .ok queryAccount, .ok token => (s.chain.getTokenInfo queryAccount token).getD 0
  | _, _ => 0

/-- The equity is the exact sum, held at the greatest word; a vault with no more in it and no
greater prices has no greater equity; and a holder of no more than all shares is shown the
exact share, at most the equity. -/
structure ValuedExactly (vault : Vault) (userAccount : Option String) (v : VaultValues) :
    Prop where
  equity : v.equity.toNat =
    min ((s.quoteBalance vault).toNat + ((s.pricedHoldings vault).map worth).sum) Word.u64Max
  monotone : ∀ (s' : VaultSetting) (vault' : Vault) (userAccount' : Option String)
    (v' : VaultValues), s'.vaultValues vault' userAccount' = .ok v' →
    s'.quoteBalance vault' ≤ s.quoteBalance vault →
    List.SublistForall₂ (fun h' h => h'.1 ≤ h.1 ∧ h'.2 ≤ h.2) (s'.pricedHoldings vault')
      (s.pricedHoldings vault) →
    v'.equity ≤ v.equity
  deposit : ∀ account ∈ userAccount, Text.trim account ≠ "" →
    s.userShares vault account ≤ s.totalSupply vault →
    (v.userDeposit.getD 0).toNat =
        (s.userShares vault account).toNat * v.equity.toNat / (s.totalSupply vault).toNat ∧
      v.userDeposit.getD 0 ≤ v.equity

/-- No holding is worth more than a word, or what the cuts leave fills one anyway. -/
def WorthsFit (vault : Vault) : Prop :=
  (∀ h ∈ s.pricedHoldings vault, worth h < 2 ^ 64) ∨
    Word.u64Max ≤ (s.quoteBalance vault).toNat +
      ((s.pricedHoldings vault).map fun h => worth h % 2 ^ 64).sum

end VaultSetting

theorem toNat_mulQuote (amount price : UInt64) :
    (mulQuote amount price).toNat = worth (amount, price) % 2 ^ 64 :=
  UInt64.toNat_ofNat'

theorem equity_addHolding (price : String → Option UInt64) (sum : UInt64 × List VaultAsset)
    {holding : String × UInt64} (hpos : 0 < holding.2) :
    (addHolding price sum holding).1 =
      match price holding.1 with
      | some price => Word.satAdd sum.1 (mulQuote holding.2 price)
      | none => sum.1 := by
  unfold addHolding
  rw [if_pos hpos]
  cases price holding.1 with
  | none => rfl
  | some price => rfl

/-- The sum of the loop is the balance and what the cuts leave of the worths. -/
theorem equity_foldl_addHolding (price : String → Option UInt64)
    (holdings : List (String × UInt64)) (hpos : ∀ h ∈ holdings, 0 < h.2)
    (sum : UInt64 × List VaultAsset) :
    (holdings.foldl (addHolding price) sum).1.toNat =
      min (sum.1.toNat + ((holdings.filterMap fun h =>
        (price h.1).map fun p => (h.2, p)).map fun h => worth h % 2 ^ 64).sum) Word.u64Max := by
  induction holdings generalizing sum with
  | nil =>
      have hle := Word.toNat_le sum.1
      simp only [List.foldl_nil, List.filterMap_nil, List.map_nil, List.sum_nil]
      omega
  | cons h holdings ih =>
      obtain ⟨hh, hrest⟩ := List.forall_mem_cons.mp hpos
      have hstep := equity_addHolding price sum hh
      rw [List.foldl_cons, ih hrest, hstep]
      cases hprice : price h.1 with
      | none => simp only [List.filterMap_cons, hprice, Option.map_none]
      | some p =>
          simp only [List.filterMap_cons, hprice, Option.map_some, List.map_cons, List.sum_cons,
            Word.toNat_satAdd, toNat_mulQuote]
          omega

theorem sum_mod_le (holdings : List (UInt64 × UInt64)) :
    (holdings.map fun h => worth h % 2 ^ 64).sum ≤ (holdings.map worth).sum := by
  induction holdings with
  | nil => exact le_refl 0
  | cons h holdings ih =>
      rw [List.map_cons, List.map_cons, List.sum_cons, List.sum_cons]
      exact Nat.add_le_add (Nat.mod_le _ _) ih

/-- What is left of the worths makes up their sum exactly when each is a word. -/
theorem sum_mod_eq_iff (holdings : List (UInt64 × UInt64)) :
    (holdings.map fun h => worth h % 2 ^ 64).sum = (holdings.map worth).sum ↔
      ∀ h ∈ holdings, worth h < 2 ^ 64 := by
  induction holdings with
  | nil => simp
  | cons h holdings ih =>
      have hmod : worth h % 2 ^ 64 ≤ worth h := Nat.mod_le _ _
      have hrest := sum_mod_le holdings
      rw [List.map_cons, List.map_cons, List.sum_cons, List.sum_cons, List.forall_mem_cons, ← ih]
      constructor
      · intro hsum
        exact ⟨by omega, by omega⟩
      · rintro ⟨hword, hsum⟩
        rw [Nat.mod_eq_of_lt hword, hsum]

theorem sum_worth_mono {smaller holdings : List (UInt64 × UInt64)}
    (h : List.SublistForall₂ (fun h' h => h'.1 ≤ h.1 ∧ h'.2 ≤ h.2) smaller holdings) :
    (smaller.map worth).sum ≤ (holdings.map worth).sum := by
  induction h with
  | nil => exact Nat.zero_le _
  | cons hle _ ih =>
      rw [List.map_cons, List.map_cons, List.sum_cons, List.sum_cons]
      refine Nat.add_le_add (Nat.div_le_div_right (Nat.mul_le_mul ?_ ?_)) ih
      · exact UInt64.le_iff_toNat_le.mp hle.1
      · exact UInt64.le_iff_toNat_le.mp hle.2
  | cons_right _ ih =>
      rw [List.map_cons, List.sum_cons]
      exact ih.trans (Nat.le_add_left _ _)

theorem toNat_mulDiv_of_le {shares equity supply : UInt64} (h : shares ≤ supply) :
    (mulDiv shares equity supply).toNat = shares.toNat * equity.toNat / supply.toNat ∧
      mulDiv shares equity supply ≤ equity := by
  unfold mulDiv
  split_ifs with hzero
  · rw [hzero, UInt64.toNat_zero, Nat.div_zero]
    exact ⟨rfl, UInt64.zero_le⟩
  · have hshare : shares.toNat * equity.toNat / supply.toNat ≤ equity.toNat := by
      refine Nat.div_le_of_le_mul ?_
      exact Nat.mul_le_mul_right _ (UInt64.le_iff_toNat_le.mp h)
    have hvalue : (UInt64.ofNat (shares.toNat * equity.toNat / supply.toNat)).toNat =
        shares.toNat * equity.toNat / supply.toNat := by
      rw [UInt64.toNat_ofNat']
      exact Nat.mod_eq_of_lt (hshare.trans_lt equity.toNat_lt)
    refine ⟨hvalue, ?_⟩
    rw [UInt64.le_iff_toNat_le, hvalue]
    exact hshare

theorem mulDiv_eq_zero {a b d : UInt64} (h : a = 0 ∨ b = 0 ∨ d = 0) : mulDiv a b d = 0 := by
  unfold mulDiv
  rcases h with rfl | rfl | rfl
  · simp
  · simp
  · exact if_pos rfl

namespace VaultSetting

variable {s : VaultSetting} {vault : Vault} {userAccount : Option String} {v : VaultValues}

theorem pos_of_mem_vaultPortfolioHoldings (vaultAddress : String) :
    ∀ h ∈ s.vaultPortfolioHoldings vaultAddress, 0 < h.2 := by
  intro h hh
  unfold vaultPortfolioHoldings at hh
  split at hh
  · exact absurd hh List.not_mem_nil
  · rw [List.mem_mergeSort] at hh
    exact of_decide_eq_true (List.mem_filter.mp hh).2

theorem bind_eq_ok {A B : Type} {x : Except AppError A} {f : A → Except AppError B} {b : B}
    (h : (x >>= f) = .ok b) : ∃ a, x = .ok a ∧ f a = .ok b := by
  cases x with
  | error e => nomatch h
  | ok a => exact ⟨a, rfl, h⟩

theorem vaultValues_eq_ok (h : s.vaultValues vault userAccount = .ok v) :
    ∃ queryAccount account quoteToken shareToken assets,
      s.parseAddress s.queryAccount = .ok queryAccount ∧
      s.parseAddress vault.vaultAccount = .ok account ∧
      s.parseContract vault.quoteToken = .ok quoteToken ∧
      s.parseContract vault.shareToken = .ok shareToken ∧
      v.equity = ((s.vaultPortfolioHoldings vault.vaultAddress).foldl
        (addHolding (s.priceOf queryAccount))
        ((s.chain.getBalance account quoteToken).getD 0, assets)).1 ∧
      s.depositOf queryAccount shareToken v.equity userAccount = .ok v.userDeposit := by
  unfold vaultValues at h
  obtain ⟨queryAccount, hquery, h⟩ := bind_eq_ok h
  obtain ⟨account, haccount, h⟩ := bind_eq_ok h
  obtain ⟨quoteToken, hquote, h⟩ := bind_eq_ok h
  obtain ⟨shareToken, hshare, h⟩ := bind_eq_ok h
  obtain ⟨userDeposit, hdeposit, h⟩ := bind_eq_ok h
  cases h
  exact ⟨queryAccount, account, quoteToken, shareToken, _, hquery, haccount, hquote, hshare, rfl,
    hdeposit⟩

theorem toNat_equity (h : s.vaultValues vault userAccount = .ok v) :
    v.equity.toNat = min ((s.quoteBalance vault).toNat +
      ((s.pricedHoldings vault).map fun h => worth h % 2 ^ 64).sum) Word.u64Max := by
  obtain ⟨queryAccount, account, quoteToken, shareToken, assets, hquery, haccount, hquote, -,
    hequity, -⟩ := vaultValues_eq_ok h
  unfold quoteBalance pricedHoldings
  rw [hequity, hquery, haccount, hquote,
    equity_foldl_addHolding _ _ (pos_of_mem_vaultPortfolioHoldings _)]

theorem deposit_exact (h : s.vaultValues vault userAccount = .ok v) {account : String}
    (haccount : account ∈ userAccount) (hne : Text.trim account ≠ "")
    (hshares : s.userShares vault account ≤ s.totalSupply vault) :
    (v.userDeposit.getD 0).toNat =
        (s.userShares vault account).toNat * v.equity.toNat / (s.totalSupply vault).toNat ∧
      v.userDeposit.getD 0 ≤ v.equity := by
  obtain ⟨queryAccount, -, -, shareToken, -, hquery, -, -, hshare, -, hdeposit⟩ :=
    vaultValues_eq_ok h
  rw [Option.mem_def.mp haccount] at hdeposit
  simp only [depositOf, if_neg hne] at hdeposit
  obtain ⟨user, huser, hdeposit⟩ := bind_eq_ok hdeposit
  have hholds : s.userShares vault account = (s.chain.getBalance user shareToken).getD 0 := by
    unfold userShares
    rw [huser, hshare]
  have hsupply : s.totalSupply vault = (s.chain.getTokenInfo queryAccount shareToken).getD 0 := by
    unfold totalSupply
    rw [hquery, hshare]
  rw [← hholds, ← hsupply] at hdeposit
  have hshown : v.userDeposit.getD 0 =
      mulDiv (s.userShares vault account) v.equity (s.totalSupply vault) := by
    split_ifs at hdeposit with hnone hzero
    · rw [← Except.ok.inj hdeposit, mulDiv_eq_zero (hnone.imp_right Or.inl)]
      rfl
    · rw [← Except.ok.inj hdeposit, mulDiv_eq_zero (Or.inr (Or.inr hzero))]
      rfl
    · rw [← Except.ok.inj hdeposit, Option.getD_some]
  rw [hshown]
  exact toNat_mulDiv_of_le hshares

theorem valuedExactly_of_worthsFit (h : s.vaultValues vault userAccount = .ok v)
    (hfit : s.WorthsFit vault) : s.ValuedExactly vault userAccount v := by
  have hequity : v.equity.toNat =
      min ((s.quoteBalance vault).toNat + ((s.pricedHoldings vault).map worth).sum)
        Word.u64Max := by
    have hle := sum_mod_le (s.pricedHoldings vault)
    rw [toNat_equity h]
    rcases hfit with hwords | hfull
    · rw [(sum_mod_eq_iff _).mpr hwords]
    · omega
  refine ⟨hequity, ?_, fun account haccount hne hshares => deposit_exact h haccount hne hshares⟩
  intro s' vault' userAccount' v' h' hbalance hholdings
  have hless := sum_worth_mono hholdings
  have hle := sum_mod_le (s'.pricedHoldings vault')
  have hquote := UInt64.le_iff_toNat_le.mp hbalance
  rw [UInt64.le_iff_toNat_le, toNat_equity h', hequity]
  omega

end VaultSetting

/-- A vault is valued exactly when no holding is worth more than a word, or what the cuts
leave fills one anyway. -/
theorem valuedExactly_iff (s : VaultSetting) (vault : Vault) (userAccount : Option String)
    (v : VaultValues) (h : s.vaultValues vault userAccount = .ok v) :
    s.ValuedExactly vault userAccount v ↔ s.WorthsFit vault := by
  constructor
  · intro hexact
    have hequity := hexact.equity
    have hle := sum_mod_le (s.pricedHoldings vault)
    rw [VaultSetting.toNat_equity h] at hequity
    unfold VaultSetting.WorthsFit
    rw [← sum_mod_eq_iff]
    omega
  · exact VaultSetting.valuedExactly_of_worthsFit h

namespace Sample

def vaultHolding (amount : UInt64) : VaultSetting where
  sdk := sdk
  addressError := id
  contractError := id
  queryAccount := account
  index :=
    { vaults :=
        { vaultByAddress := (∅ : Dict String Uuid).insert vault (vaultUuid sdk vault)
          vaultPortfolio := (∅ : Dict Uuid (Dict String UInt64)).insert (vaultUuid sdk vault)
            ((∅ : Dict String UInt64).insert market amount) }
      lastTradePrice := (∅ : Dict String UInt64).insert market 2000000 }
  chain := ⟨fun _ _ => some 0, fun _ _ => none, fun _ _ => some 0⟩

def heldVault : Vault :=
  ⟨vaultUuid sdk vault, "", vault, account, account, otherMarket, otherMarket, "", "", [], true,
    false⟩

def shown (equity : UInt64) (amount value : String) : VaultValues where
  equity := equity
  userDeposit := none
  portfolio :=
    [⟨otherMarket ++ "(Cash)", "0.00", some "1.00", some "0.00"⟩,
      ⟨market, amount, some "2.00", some value⟩]

theorem vaultHolding_valued :
    (vaultHolding 1500000).ValuedExactly heldVault none (shown 3000000 "1.50" "3.00") := by
  have hvalues : (vaultHolding 1500000).vaultValues heldVault none =
      .ok (shown 3000000 "1.50" "3.00") := by decide +kernel
  have hheld : (vaultHolding 1500000).pricedHoldings heldVault = [(1500000, 2000000)] := by
    decide +kernel
  refine (valuedExactly_iff _ heldVault none _ hvalues).mpr (Or.inl ?_)
  rw [hheld]
  intro holding hmem
  rw [List.mem_singleton.mp hmem]
  decide

/-- Half of all units at a price of two are worth one more than the greatest word, and the cut
leaves nothing. -/
theorem wideHolding_wraps :
    (vaultHolding (2 ^ 63)).vaultValues heldVault none =
        .ok (shown 0 "9223372036854.78" "0.00") ∧
      ¬(vaultHolding (2 ^ 63)).ValuedExactly heldVault none
        (shown 0 "9223372036854.78" "0.00") := by
  have hheld : (vaultHolding (2 ^ 63)).pricedHoldings heldVault = [(2 ^ 63, 2000000)] := by
    decide +kernel
  refine ⟨by decide +kernel, fun hexact => ?_⟩
  have hequity := hexact.equity
  rw [hheld] at hequity
  revert hequity
  decide +kernel

end Sample

end ClobIndexer
