import ClobIndexer.HexSdk
import ClobIndexer.Indexer.Processor
/-!
# Vault holdings against the fills of their orders

A vault holds what its orders bought less what they sold.  `order_filled` looks
the owner up after `update_order_fill`, which has archived the order when the
fill completed it, so such a fill does not reach the holdings.  The account of
all fills is a fold over the events, taken in the states they find; the holdings
follow it step by step exactly as long as no step loses a fill.
-/

namespace ClobIndexer

open Lib

variable {env : Env}

/-- The fill an event makes of a hot order that the vault's trading account owns. -/
def vaultFill (sdk : Sdk) (spotMarket : String) (vaultId : Uuid) (s : IndexState) :
    MarketOrderEvent → Option (OrderSide × UInt64)
  | .filled e _ =>
      match s.orders.find sdk spotMarket e.orderId with
      | none => none
      | some (_, stored) =>
          if s.vaults.vaultByAccount.lookup (userKey stored.userAddress) = some vaultId then
            some (e.side, e.fillAmount)
          else none
  | _ => none

/-- Bought units are added, sold units taken, at most down to zero. -/
def accountFill (units : Nat) : Option (OrderSide × UInt64) → Nat
  | none => units
  | some (.buy, amount) => units + amount.toNat
  | some (.sell, amount) => units - amount.toNat

namespace Ctx

variable (env) in
/-- The account of a vault after a run: the fold of all fills of its orders. -/
def accountOf (opts : ProcessOpts) (blockNum : UInt64) (spotMarket : String) (vaultId : Uuid) :
    Ctx → List MarketOrderEvent → Nat → Nat
  | _, [], units => units
  | c, e :: es, units =>
      accountOf opts blockNum spotMarket vaultId
        (c.applyMarketOrderEvent env opts blockNum spotMarket e) es
        (accountFill units (vaultFill env.sdk spotMarket vaultId c.store e))

def held (sdk : Sdk) (spotMarket : String) (vaultId : Uuid) (c : Ctx) : UInt64 :=
  c.store.vaults.holding vaultId (normalizeSpotMarketKey sdk spotMarket)

/-- The event completes no order of the vault by a fill that would change its
holding, and buys no more than the holding has room for. -/
def LosesNoFill (sdk : Sdk) (spotMarket : String) (vaultId : Uuid) (c : Ctx) :
    MarketOrderEvent → Prop
  | .filled e sender =>
      vaultFill sdk spotMarket vaultId c.store (.filled e sender) = none ∨
        if e.isFullyFilled = false ∧ e.remainingAmount ≠ 0 then
          e.side = .buy → (c.held sdk spotMarket vaultId).toNat + e.fillAmount.toNat ≤ Word.u64Max
        else
          e.fillAmount = 0 ∨ e.side = .sell ∧ c.held sdk spotMarket vaultId = 0
  | _ => True

variable (env) in
def RunLosesNoFill (opts : ProcessOpts) (blockNum : UInt64) (spotMarket : String)
    (vaultId : Uuid) : Ctx → List MarketOrderEvent → Prop
  | _, [] => True
  | c, e :: es =>
      c.LosesNoFill env.sdk spotMarket vaultId e ∧
        RunLosesNoFill opts blockNum spotMarket vaultId
          (c.applyMarketOrderEvent env opts blockNum spotMarket e) es

/-! ## One fill -/

theorem vaults_applyVaultFill (c : Ctx) (spotMarket : String) (filled : OrderFilledEvent) :
    (c.applyVaultFill env spotMarket filled).store.vaults =
      match c.store.orders.find env.sdk spotMarket filled.orderId with
      | none => c.store.vaults
      | some (_, stored) =>
          (VaultTx.applyVaultFillToPortfolio env.sdk stored.userAddress spotMarket filled.side
            filled.fillAmount ⟨c.store.vaults, c.ws.vaults, c.ws.vaultPortfolio⟩).idx := by
  unfold applyVaultFill OrderIndex.storedOrderByChainId
  cases c.store.orders.find env.sdk spotMarket filled.orderId with
  | none => rfl
  | some r => rfl

end Ctx

namespace VaultIndex

theorem holding_setHolding (idx : VaultIndex) (vaultId vaultId' : Uuid) (market : String)
    (amount : UInt64) :
    (idx.setHolding vaultId' market amount).holding vaultId market =
      if vaultId = vaultId' then amount else idx.holding vaultId market := by
  unfold holding
  rw [lookup_holdings_setHolding]
  by_cases h : vaultId = vaultId'
  · rw [if_pos ⟨h, rfl⟩, if_pos h]
    split_ifs with h0
    · rw [h0]
      rfl
    · rfl
  · rw [if_neg (fun h' => h h'.1), if_neg h]

end VaultIndex

namespace VaultTx

theorem toNat_afterFillHolding_sell (fillAmount current : UInt64) :
    (afterFillHolding .sell fillAmount current).toNat = current.toNat - fillAmount.toNat := by
  unfold afterFillHolding
  dsimp only
  split_ifs with h
  · rw [UInt64.lt_iff_toNat_lt] at h
    change 0 = _
    omega
  · rw [UInt64.lt_iff_toNat_lt] at h
    exact Word.toNat_sub_of_le (by omega)

theorem holding_applyVaultFillToPortfolio (sdk : Sdk) (t : VaultTx)
    (userAddress spotMarket : String) (side : OrderSide) (fillAmount : UInt64)
    (vaultId : Uuid) :
    (t.applyVaultFillToPortfolio sdk userAddress spotMarket side fillAmount).idx.holding vaultId
        (normalizeSpotMarketKey sdk spotMarket) =
      if t.idx.vaultByAccount.lookup (userKey userAddress) = some vaultId then
        afterFillHolding side fillAmount
          (t.idx.holding vaultId (normalizeSpotMarketKey sdk spotMarket))
      else t.idx.holding vaultId (normalizeSpotMarketKey sdk spotMarket) := by
  have hnothing : ∀ current : UInt64, afterFillHolding side 0 current = current := by
    intro current
    rw [← UInt64.toNat_inj]
    cases side with
    | buy =>
        have hle := Word.toNat_le current
        unfold afterFillHolding
        rw [Word.toNat_satAdd]
        change min (current.toNat + 0) _ = _
        omega
    | sell =>
        rw [toNat_afterFillHolding_sell]
        rfl
  unfold applyVaultFillToPortfolio
  split_ifs with h0 hv hv
  · rw [h0, hnothing]
  · rfl
  · rw [hv]
    dsimp only
    rw [VaultIndex.holding_setHolding, if_pos rfl]
  · split
    · rfl
    · rename_i vaultId' hv'
      have hne : vaultId ≠ vaultId' := fun heq => hv (heq ▸ hv')
      dsimp only
      rw [VaultIndex.holding_setHolding, if_neg hne]

end VaultTx

namespace Ctx

variable (opts : ProcessOpts) (blockNum : UInt64) (spotMarket : String) (vaultId : Uuid)

theorem held_congr (sdk : Sdk) {c d : Ctx} (h : d.store.vaults = c.store.vaults) :
    d.held sdk spotMarket vaultId = c.held sdk spotMarket vaultId := by
  unfold held
  rw [h]

theorem vaults_handleCreated (c : Ctx) (e : OrderCreatedEvent) :
    (c.handleCreated env opts blockNum spotMarket e).store.vaults = c.store.vaults := by
  have hbooks := booksOnly_ensureChainHydrated env c spotMarket
  cases hdup : c.store.orders.hasChainOrder env.sdk spotMarket e.orderId with
  | true =>
      unfold handleCreated
      rw [hdup]
      rfl
  | false =>
      rw [store_handleCreated c opts blockNum spotMarket e hdup, ← hbooks.vaults]
      unfold applyOrderCreatedToBook
      split <;> rfl

theorem vaults_handleCancelled (c : Ctx) (e : OrderCancelledEvent) :
    (c.handleCancelled env opts blockNum spotMarket e).store.vaults = c.store.vaults := by
  rw [store_handleCancelled]
  rfl

theorem vaults_handleUpdated (c : Ctx) (e : OrderUpdatedEvent) :
    (c.handleUpdated env opts blockNum spotMarket e).store.vaults = c.store.vaults := by
  rw [store_handleUpdated, ← (booksOnly_ensureChainHydrated env c spotMarket).vaults]
  rfl

theorem vaults_handleExecuted (c : Ctx) (e : MarketOrderExecutedEvent) :
    (c.handleExecuted env opts blockNum spotMarket e).store.vaults = c.store.vaults := by
  cases hdup : c.store.orders.hasChainOrder env.sdk spotMarket e.orderId with
  | true =>
      unfold handleExecuted
      rw [hdup]
      rfl
  | false =>
      rw [store_handleExecuted c opts blockNum spotMarket e hdup]
      rfl

theorem vaults_handleFilled (c : Ctx) (e : OrderFilledEvent) (txSender : String) :
    (c.handleFilled env opts blockNum spotMarket e txSender).store.vaults =
      (c.applyFillToIndex env opts blockNum spotMarket e).store.vaults := by
  rw [store_handleFilled]

/-- A fill moves the holding of the vault whose order it leaves in the index. -/
theorem held_applyFillToIndex (c : Ctx) (e : OrderFilledEvent) :
    (c.applyFillToIndex env opts blockNum spotMarket e).held env.sdk spotMarket vaultId =
      match (OrderTx.updateOrderFill env.sdk c.store.tsMs spotMarket e.orderId e.fillAmount
        e.remainingAmount e.isFullyFilled ⟨c.store.orders, c.ws.orders, c.history⟩).idx.find
          env.sdk spotMarket e.orderId with
      | none => c.held env.sdk spotMarket vaultId
      | some (_, stored) =>
          if c.store.vaults.vaultByAccount.lookup (userKey stored.userAddress) = some vaultId then
            VaultTx.afterFillHolding e.side e.fillAmount (c.held env.sdk spotMarket vaultId)
          else c.held env.sdk spotMarket vaultId := by
  obtain ⟨d, heq, horders, hvaults, -⟩ := applyFillToIndex_eq env c opts blockNum spotMarket e
  unfold held
  rw [heq, vaults_applyVaultFill, horders, hvaults]
  split
  · rfl
  · exact VaultTx.holding_applyVaultFillToPortfolio _ _ _ _ _ _ _

theorem toNat_afterFillHolding_iff (side : OrderSide) (amount current : UInt64) :
    (VaultTx.afterFillHolding side amount current).toNat =
        accountFill current.toNat (some (side, amount)) ↔
      (side = .buy → current.toNat + amount.toNat ≤ Word.u64Max) := by
  cases side with
  | buy =>
      have hsat : (VaultTx.afterFillHolding .buy amount current).toNat =
          min (current.toNat + amount.toNat) Word.u64Max := Word.toNat_satAdd current amount
      rw [hsat]
      constructor
      · intro h _
        exact min_eq_left_iff.mp h
      · intro h
        exact min_eq_left (h rfl)
  | sell =>
      rw [VaultTx.toNat_afterFillHolding_sell]
      exact iff_of_true rfl (fun h => by cases h)

theorem toNat_eq_accountFill_iff (side : OrderSide) (amount current : UInt64) :
    current.toNat = accountFill current.toNat (some (side, amount)) ↔
      amount = 0 ∨ side = .sell ∧ current = 0 := by
  have hzero : ∀ x : UInt64, x = 0 ↔ x.toNat = 0 := fun x => by
    rw [← UInt64.toNat_inj]
    rfl
  rw [hzero amount, hzero current]
  cases side with
  | buy =>
      change current.toNat = current.toNat + amount.toNat ↔ _
      simp
  | sell =>
      change current.toNat = current.toNat - amount.toNat ↔ _
      simp only [true_and]
      omega

/-- One event: the holding follows the account exactly when no fill is lost. -/
theorem held_filled_iff (c : Ctx) (e : OrderFilledEvent) (txSender : String) :
    ((c.handleFilled env opts blockNum spotMarket e txSender).held env.sdk spotMarket
        vaultId).toNat =
      accountFill (c.held env.sdk spotMarket vaultId).toNat
        (vaultFill env.sdk spotMarket vaultId c.store (.filled e txSender)) ↔
      c.LosesNoFill env.sdk spotMarket vaultId (.filled e txSender) := by
  rw [held_congr spotMarket vaultId env.sdk
    (vaults_handleFilled opts blockNum spotMarket c e txSender), held_applyFillToIndex]
  unfold LosesNoFill vaultFill
  dsimp only
  cases hfind : c.store.orders.find env.sdk spotMarket e.orderId with
  | none =>
      have hgone : (OrderTx.updateOrderFill env.sdk c.store.tsMs spotMarket e.orderId e.fillAmount
          e.remainingAmount e.isFullyFilled ⟨c.store.orders, c.ws.orders, c.history⟩).idx.find
            env.sdk spotMarket e.orderId = none := by
        unfold OrderTx.updateOrderFill
        dsimp only
        rw [hfind]
        exact hfind
      rw [hgone]
      exact iff_of_true rfl (Or.inl rfl)
  | some r =>
      obtain ⟨id, stored⟩ := r
      rw [OrderTx.find_updateOrderFill (t := ⟨c.store.orders, c.ws.orders, c.history⟩)
        c.store.tsMs e.fillAmount e.remainingAmount e.isFullyFilled hfind]
      dsimp only
      by_cases hvault :
          c.store.vaults.vaultByAccount.lookup (userKey stored.userAddress) = some vaultId
      · rw [if_pos hvault]
        simp only [reduceCtorEq, false_or]
        by_cases hleft : e.isFullyFilled = false ∧ e.remainingAmount ≠ 0
        · rw [if_pos hleft, if_pos hleft]
          have howner : (OrderTx.afterFill e.fillAmount e.remainingAmount e.isFullyFilled
              stored).userAddress = stored.userAddress := rfl
          dsimp only
          rw [howner, if_pos hvault]
          exact toNat_afterFillHolding_iff _ _ _
        · rw [if_neg hleft, if_neg hleft]
          exact toNat_eq_accountFill_iff _ _ _
      · rw [if_neg hvault]
        refine iff_of_true ?_ (Or.inl rfl)
        split_ifs with hleft
        · exact congrArg UInt64.toNat (if_neg hvault)
        · rfl

theorem held_step_iff (c : Ctx) (e : MarketOrderEvent) :
    ((c.applyMarketOrderEvent env opts blockNum spotMarket e).held env.sdk spotMarket
        vaultId).toNat =
      accountFill (c.held env.sdk spotMarket vaultId).toNat
        (vaultFill env.sdk spotMarket vaultId c.store e) ↔
      c.LosesNoFill env.sdk spotMarket vaultId e := by
  -- only a fill touches the vaults
  have hkept : ∀ d : Ctx, d.store.vaults = c.store.vaults →
      (d.held env.sdk spotMarket vaultId).toNat = (c.held env.sdk spotMarket vaultId).toNat :=
    fun d hd => congrArg UInt64.toNat (held_congr spotMarket vaultId env.sdk hd)
  cases e with
  | created e => exact iff_of_true (hkept _ (vaults_handleCreated opts blockNum _ c e)) trivial
  | cancelled e => exact iff_of_true (hkept _ (vaults_handleCancelled opts blockNum _ c e)) trivial
  | updated e => exact iff_of_true (hkept _ (vaults_handleUpdated opts blockNum _ c e)) trivial
  | executed e => exact iff_of_true (hkept _ (vaults_handleExecuted opts blockNum _ c e)) trivial
  | filled e txSender => exact held_filled_iff opts blockNum spotMarket vaultId c e txSender

/-- Throughout a run of order events the holding of a vault is the account of all
fills of its orders, exactly when no event loses a fill. -/
theorem held_eq_accountOf_iff (c : Ctx) (events : List MarketOrderEvent) :
    (∀ k, ((c.applyMarketOrderEvents env opts blockNum spotMarket (events.take k)).held env.sdk
        spotMarket vaultId).toNat =
      accountOf env opts blockNum spotMarket vaultId c (events.take k)
        (c.held env.sdk spotMarket vaultId).toNat) ↔
      RunLosesNoFill env opts blockNum spotMarket vaultId c events := by
  induction events generalizing c with
  | nil =>
      refine iff_of_true (fun k => ?_) trivial
      rw [List.take_nil]
      rfl
  | cons e es ih =>
      unfold RunLosesNoFill
      rw [← held_step_iff, ← ih]
      constructor
      · intro h
        have hfirst : ((c.applyMarketOrderEvent env opts blockNum spotMarket e).held env.sdk
            spotMarket vaultId).toNat = accountFill (c.held env.sdk spotMarket vaultId).toNat
              (vaultFill env.sdk spotMarket vaultId c.store e) := h 1
        refine ⟨hfirst, fun k => ?_⟩
        rw [hfirst]
        exact h (k + 1)
      · rintro ⟨hfirst, hrest⟩ k
        cases k with
        | zero => rfl
        | succ k =>
            have hk := hrest k
            rw [hfirst] at hk
            exact hk

end Ctx

namespace Sample

def vaultWithOrder : Ctx :=
  let created := Ctx.applyGlobalEvent setting { store := {} }
    (.vaultCreated ⟨vault, "fund", account, "", ""⟩)
  created.applyMarketOrderEvent setting {} 7 market
    (.created ⟨"1", .buy, 10, sdk.vaultAccount vault, market, .limit 500000, none⟩)

def completingFill : MarketOrderEvent :=
  .filled ⟨"1", market, .buy, 500000, 10, 0, true, none⟩ account

/-- Ten units were bought for the vault and none of them is held. -/
theorem held_completingFill :
    vaultWithOrder.held setting.sdk market (vaultUuid sdk vault) = 0 ∧
    (vaultWithOrder.applyMarketOrderEvents setting {} 8 market [completingFill]).held setting.sdk
      market (vaultUuid sdk vault) = 0 ∧
    Ctx.accountOf setting {} 8 market (vaultUuid sdk vault) vaultWithOrder [completingFill] 0 =
      10 := by
  decide +kernel

end Sample

end ClobIndexer
