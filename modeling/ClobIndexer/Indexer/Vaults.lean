import ClobIndexer.Events
import ClobIndexer.Persist.IndexWriteSet
/-!
# Vaults and their holdings

The vault maps of `IndexState`: vaults by id, the lookups from address and
trading account, and the per-vault holdings that order fills move.  A `VaultTx`
carries them with the write sets of the `vaults` and `vault_portfolio` tables.
-/

namespace ClobIndexer

open Lib

structure VaultIndex where
  vaults : Dict Uuid Vault := ∅
  vaultByAddress : Dict String Uuid := ∅
  vaultByAccount : Dict String Uuid := ∅
  vaultPortfolio : Dict Uuid (Dict String UInt64) := ∅
deriving DecidableEq

structure VaultTx where
  idx : VaultIndex
  vaults : TableWrites String Vault
  portfolio : TableWrites (String × String) Int64

namespace VaultIndex

def holdings (idx : VaultIndex) (vaultId : Uuid) : Dict String UInt64 :=
  (idx.vaultPortfolio.lookup vaultId).getD ∅

/-- Units of a market that a vault holds, zero when there is no entry. -/
def holding (idx : VaultIndex) (vaultId : Uuid) (market : String) : UInt64 :=
  ((idx.holdings vaultId).lookup market).getD 0

/-- Set one holding; a zero holding has no entry. -/
def setHolding (idx : VaultIndex) (vaultId : Uuid) (market : String) (amount : UInt64) :
    VaultIndex :=
  let holdings := idx.holdings vaultId
  { idx with
    vaultPortfolio := idx.vaultPortfolio.insert vaultId
      (if amount = 0 then holdings.erase market else holdings.insert market amount) }

theorem holdings_insert (idx : VaultIndex) (vaultId vaultId' : Uuid)
    (holdings : Dict String UInt64) :
    VaultIndex.holdings
        { idx with vaultPortfolio := idx.vaultPortfolio.insert vaultId holdings } vaultId' =
      if vaultId' = vaultId then holdings else idx.holdings vaultId' := by
  unfold VaultIndex.holdings
  dsimp only
  rw [Dict.lookup_insert_ite]
  split_ifs <;> rfl

theorem lookup_holdings_setHolding (idx : VaultIndex) (vaultId vaultId' : Uuid)
    (market market' : String) (amount : UInt64) :
    ((idx.setHolding vaultId market amount).holdings vaultId').lookup market' =
      if vaultId' = vaultId ∧ market' = market then (if amount = 0 then none else some amount)
      else (idx.holdings vaultId').lookup market' := by
  unfold setHolding
  rw [holdings_insert]
  by_cases hid : vaultId' = vaultId
  · subst hid
    by_cases hm : market' = market
    · subst hm
      split_ifs <;> simp_all
    · split_ifs <;> simp_all
  · simp [hid]

end VaultIndex

variable (sdk : Sdk)

namespace VaultTx

def upsertVault (vault : Vault) (t : VaultTx) : VaultTx where
  idx :=
    { vaults := t.idx.vaults.insert vault.id vault
      vaultByAddress := t.idx.vaultByAddress.insert (addrKey vault.vaultAddress) vault.id
      vaultByAccount := t.idx.vaultByAccount.insert (addrKey vault.vaultAccount) vault.id
      vaultPortfolio := t.idx.vaultPortfolio.insert vault.id (t.idx.holdings vault.id) }
  vaults := storeVault vault t.vaults
  portfolio := t.portfolio

/-- Change the vault at an address in place; nothing happens when it is unknown. -/
def modifyVault (vaultAddress : String) (f : Vault → Vault) (t : VaultTx) : VaultTx :=
  match t.idx.vaultByAddress.lookup (addrKey vaultAddress) with
  | none => t
  | some id =>
      match t.idx.vaults.lookup id with
      | none => t
      | some vault =>
          { t with
            idx := { t.idx with vaults := t.idx.vaults.insert id (f vault) }
            vaults := storeVault (f vault) t.vaults }

def updateVaultEquity (vaultAddress equity : String) : VaultTx → VaultTx :=
  modifyVault vaultAddress fun vault => { vault with equity }

def updateVaultAllowDeposit (vaultAddress : String) (allowDeposit : Bool) : VaultTx → VaultTx :=
  modifyVault vaultAddress fun vault => { vault with allowDeposit }

def updateVaultManager (vaultAddress manager : String) : VaultTx → VaultTx :=
  modifyVault vaultAddress fun vault => { vault with manager }

def markVaultClosed (vaultAddress : String) : VaultTx → VaultTx :=
  modifyVault vaultAddress fun vault => { vault with isClosed := true, allowDeposit := false }

def afterFillHolding (side : OrderSide) (fillAmount current : UInt64) : UInt64 :=
  match side with
  | .buy => Word.satAdd current fillAmount
  | .sell => if current < fillAmount then 0 else current - fillAmount

def applyVaultFillToPortfolio (userAddress spotMarket : String) (side : OrderSide)
    (fillAmount : UInt64) (t : VaultTx) : VaultTx :=
  if fillAmount = 0 then t
  else
    match t.idx.vaultByAccount.lookup (userKey userAddress) with
    | none => t
    | some vaultId =>
        let marketKey := normalizeSpotMarketKey sdk spotMarket
        let next := afterFillHolding side fillAmount (t.idx.holding vaultId marketKey)
        { t with
          idx := t.idx.setHolding vaultId marketKey next
          portfolio :=
            storeVaultPortfolio sdk vaultId.toString marketKey next.toInt64 t.portfolio }

end VaultTx

end ClobIndexer
