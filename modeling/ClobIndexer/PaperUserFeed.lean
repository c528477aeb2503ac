import ClobIndexer.PaperHouseFeed
import ClobIndexer.PaperLifecycle
import ClobIndexer.PaperUserState
import ClobIndexer.Ws.Feeds
/-!
# The feed of the state of a user

The task of `paper.user.state` reads the state again when the user is told of a position on the
market, or a sample of the stakes of the market is sent.  Whatever the index contributes to the
state changes with such a message only, so a task that reads after every block that has sent one
has read the state as it is.
-/

namespace ClobIndexer

open Lib

/-- A text as addresses are printed: no blanks around it, and no colon in it. -/
structure PrintedAddress (s : String) : Prop where
  trimmed : Text.trim s = s
  noColon : ':' ∉ s.toList

instance (s : String) : Decidable (PrintedAddress s) :=
  decidable_of_iff (Text.trim s = s ∧ ':' ∉ s.toList)
    ⟨fun h => ⟨h.1, h.2⟩, fun h => ⟨h.trimmed, h.noColon⟩⟩

/-- The task of a subscription, as far as it looks at messages. -/
def userStateTask (user market : String) : Ws.Task where
  key := .paperUserState (Text.toAsciiLowercase user ++ "|" ++ Text.toAsciiLowercase market)
  user := user
  market := market
  receivers := []

def PaperUserWsMessage.wakes (user market : String) (m : PaperUserWsMessage) : Bool :=
  (userStateTask user market).refreshes .paperUser
    { userAddress := m.userAddress, market := m.market, text := m.event }

/-- A position is not opened again while it is open, and addresses are printed. -/
def SecondaryEvent.Plain (p : Paper) : SecondaryEvent → Prop
  | .paperOpened e => PrintedAddress e.owner ∧ PrintedAddress e.market ∧
      paperPositionKey e.market e.position ∉ p.positionsOpen
  | .paperClosed e => PrintedAddress e.market
  | .paperLiquidated e => PrintedAddress e.market
  | .paperClaimed _ user _ => PrintedAddress user
  | _ => True

namespace Paper

def userShown (user market : String) (p : Paper) : List PaperPositionOpen × UInt64 × UInt64 :=
  (p.selectedRows user (some market), p.paperRewardsClaimed market user,
    p.paperTotalStakerRewards market)

/-- The state is to be read again: a stake is marked, or a message was sent. -/
def UserMarked (user market : String) (s : Paper × List PaperUserWsMessage) : Prop :=
  addrKey market ∈ s.1.stakeDirty ∨ ∃ m ∈ s.2, m.wakes user market = true

variable (env : PaperEnv) {p q r : Paper} {user market : String}

/-- The state is read from what the index contributes, and from the node. -/
theorem paperUserState_congr (h : q.userShown user market = p.userShown user market) (sdk : Sdk)
    (chain : UserChain) :
    q.paperUserState sdk chain user market = p.paperUserState sdk chain user market := by
  unfold userShown at h
  obtain ⟨hrows, hclaimed, hrewards⟩ : _ ∧ _ ∧ _ := by
    simpa only [Prod.mk.injEq] using h
  have hstake : q.paperStakeView sdk chain.toStakeChain market user =
      p.paperStakeView sdk chain.toStakeChain market user := by
    have hclaimed' : q.paperRewardsClaimed (Text.trim market) (Text.trim user) =
        p.paperRewardsClaimed (Text.trim market) (Text.trim user) := by
      unfold paperRewardsClaimed paperRewardsClaimedKey at hclaimed ⊢
      rw [StakeRun.addrKey_trim, StakeRun.addrKey_trim]
      exact hclaimed
    have hrewards' : q.paperTotalStakerRewards (Text.trim market) =
        p.paperTotalStakerRewards (Text.trim market) := by
      unfold paperTotalStakerRewards at hrewards ⊢
      rw [StakeRun.addrKey_trim]
      exact hrewards
    unfold paperStakeView
    dsimp only
    rw [hclaimed', hrewards']
  have hpage : q.userPositions user market = p.userPositions user market := by
    unfold userPositions openRows
    exact congrArg (fun rows => (rows.mergeSort fun a b => a.NotAfter b).take 200) hrows
  unfold paperUserState sumOpenMargin countOpenPositions
  rw [hstake, hrows, hpage]

/-! ## Claims and marks -/

section

variable (p)

@[simp] theorem claims_markPaperHouseDirty (market : String) :
    (p.markPaperHouseDirty market).rewardsClaimed = p.rewardsClaimed ∧
      (p.markPaperHouseDirty market).stakeDirty = p.stakeDirty := by
  unfold markPaperHouseDirty
  split_ifs <;> exact ⟨rfl, rfl⟩

@[simp] theorem claims_applyPaperHouseAfter (market : String) (house : PaperHouseAfter) :
    (p.applyPaperHouseAfter market house).rewardsClaimed = p.rewardsClaimed ∧
      (p.applyPaperHouseAfter market house).stakeDirty = p.stakeDirty := by
  simp [applyPaperHouseAfter]

@[simp] theorem claims_recordOracleMark (spotMarket : String) (e : OracleCommittedEvent) :
    (p.recordOracleMark env spotMarket e).rewardsClaimed = p.rewardsClaimed ∧
      (p.recordOracleMark env spotMarket e).stakeDirty = p.stakeDirty := by
  unfold recordOracleMark
  obtain ⟨dirty, hdirty⟩ := markPaperHouseDirtyForPriceMarket_eq env
    (normalizeSpotMarketKey env.sdk spotMarket) _
  rw [hdirty]
  exact ⟨rfl, rfl⟩

@[simp] theorem claims_applyPaperOiDelta (market : String) (instrument : UInt32)
    (isLong isAdd : Bool) (notional : UInt64) :
    (p.applyPaperOiDelta env market instrument isLong isAdd notional).rewardsClaimed =
        p.rewardsClaimed ∧
      (p.applyPaperOiDelta env market instrument isLong isAdd notional).stakeDirty =
        p.stakeDirty := by
  simp [applyPaperOiDelta, pushPaperOiHistory]

@[simp] theorem claims_pushPaperActivity (kind market user : String) (amount : UInt64)
    (pnl : Option Int64) (position : Option UInt64) :
    (p.pushPaperActivity env kind market user amount pnl position).rewardsClaimed =
        p.rewardsClaimed ∧
      (p.pushPaperActivity env kind market user amount pnl position).stakeDirty =
        p.stakeDirty := by
  simp [pushPaperActivity]

@[simp] theorem claims_upsertPaperPositionOpen (row : PaperPositionOpen) :
    (p.upsertPaperPositionOpen env row).rewardsClaimed = p.rewardsClaimed ∧
      (p.upsertPaperPositionOpen env row).stakeDirty = p.stakeDirty := by
  simp [upsertPaperPositionOpen]

@[simp] theorem claims_closePaperPosition (market : String) (position : UInt64)
    (ownerFallback : String) (closing : Closing) :
    (p.closePaperPosition env market position ownerFallback closing).rewardsClaimed =
        p.rewardsClaimed ∧
      (p.closePaperPosition env market position ownerFallback closing).stakeDirty =
        p.stakeDirty := by
  cases hrow : p.positionsOpen.lookup (paperPositionKey market position) <;>
    simp [closePaperPosition, hrow]

@[simp] theorem rewardsClaimed_markPaperStakeDirty (market : String) :
    (p.markPaperStakeDirty market).rewardsClaimed = p.rewardsClaimed := by
  unfold markPaperStakeDirty
  split_ifs <;> rfl

theorem stakeDirty_markPaperStakeDirty (market : String) :
    (p.markPaperStakeDirty market).stakeDirty =
      if addrKey market = "" then p.stakeDirty else p.stakeDirty.insert (addrKey market) () := by
  unfold markPaperStakeDirty
  split_ifs <;> rfl

end

def stakeOf : SecondaryEvent → Option String
  | .paperClosed e => if e.minted ≠ 0 then some e.market else none
  | .paperLiquidated e => some e.market
  | .paperFeesPushed market _ _ _ => some market
  | .paperClaimed market _ _ => some market
  | .paperStaked market _ _ => some market
  | .paperUnstaked market _ _ => some market
  | _ => none

theorem stakeDirty_applySecondaryEvent (e : SecondaryEvent) :
    (p.applySecondaryEvent env e).stakeDirty =
      (stakeOf e).elim p.stakeDirty fun market => (p.markPaperStakeDirty market).stakeDirty := by
  unfold applySecondaryEvent stakeOf
  cases e with
  | oracleCommitted contract e =>
      dsimp only
      split_ifs <;> simp
  | paperInstrumentAdded market instrument name priceMarket => rfl
  | paperOpened e => simp [indexPaperOpened]
  | paperClosed e =>
      unfold indexPaperClosed
      dsimp only
      split_ifs <;> simp [stakeDirty_markPaperStakeDirty]
  | paperLiquidated e => simp [indexPaperLiquidated, stakeDirty_markPaperStakeDirty]
  | paperQueued market index user amount house => simp [applyPaperQueued]
  | paperHarvested market index house => simp [applyPaperHarvested]
  | paperFeesPushed market stakerFee sweptStakers house =>
      unfold applyPaperFeesPushedRewards
      dsimp only
      split_ifs <;> simp [stakeDirty_markPaperStakeDirty]
  | paperClaimed market user reward =>
      unfold applyPaperClaimedReward
      dsimp only
      split_ifs <;> simp [stakeDirty_markPaperStakeDirty]
  | paperStaked market user amount => simp [stakeDirty_markPaperStakeDirty]
  | paperUnstaked market user amount => simp [stakeDirty_markPaperStakeDirty]

theorem rewardsClaimed_applySecondaryEvent (e : SecondaryEvent)
    (h : ∀ market user reward, e ≠ .paperClaimed market user reward) :
    (p.applySecondaryEvent env e).rewardsClaimed = p.rewardsClaimed := by
  unfold applySecondaryEvent
  cases e with
  | oracleCommitted contract e =>
      dsimp only
      split_ifs <;> simp
  | paperInstrumentAdded market instrument name priceMarket => rfl
  | paperOpened e => simp [indexPaperOpened]
  | paperClosed e =>
      unfold indexPaperClosed
      dsimp only
      split_ifs <;> simp
  | paperLiquidated e => simp [indexPaperLiquidated]
  | paperQueued market index user amount house => simp [applyPaperQueued]
  | paperHarvested market index house => simp [applyPaperHarvested]
  | paperFeesPushed market stakerFee sweptStakers house =>
      unfold applyPaperFeesPushedRewards
      dsimp only
      split_ifs <;> simp
  | paperClaimed market user reward => exact absurd rfl (h market user reward)
  | paperStaked market user amount => simp
  | paperUnstaked market user amount => simp

/-! ## Messages -/

theorem wakes_iff {m : PaperUserWsMessage} : m.wakes user market = true ↔
    Text.toAsciiLowercase m.userAddress = Text.toAsciiLowercase user ∧
      Text.toAsciiLowercase m.market = Text.toAsciiLowercase market := by
  unfold PaperUserWsMessage.wakes
  change (Text.eqIgnoreAsciiCase m.userAddress user && Text.eqIgnoreAsciiCase m.market market) =
    true ↔ _
  rw [Bool.and_eq_true, Text.eqIgnoreAsciiCase_iff, Text.eqIgnoreAsciiCase_iff]

theorem wakes_of_keys {m : PaperUserWsMessage} (huser : PrintedAddress user)
    (hmarket : PrintedAddress market) (howner : PrintedAddress m.userAddress)
    (hon : PrintedAddress m.market) (hkeys : userKey m.userAddress = userKey user)
    (hmarkets : addrKey m.market = addrKey market) : m.wakes user market = true := by
  unfold userKey at hkeys
  unfold addrKey at hmarkets
  rw [huser.trimmed, howner.trimmed] at hkeys
  rw [hmarket.trimmed, hon.trimmed] at hmarkets
  exact wakes_iff.mpr ⟨hkeys, hmarkets⟩

/-- Rows are kept under their own keys, and their owners are printed. -/
structure Accounts (p : Paper) : Prop where
  keyed : KeyedBy rowId p.positionsOpen
  owners : ∀ key row, p.positionsOpen.lookup key = some row → PrintedAddress row.owner

theorem selectedRows_eq_filterMap (p : Paper) : p.selectedRows user (some market) =
    p.positionsOpen.entries.filterMap fun e =>
      if e.2.Matches (some (userKey user)) (some (addrKey market)) then some e.2 else none := by
  unfold selectedRows
  induction p.positionsOpen.entries with
  | nil => rfl
  | cons e entries ih =>
      rw [List.map_cons, List.filter_cons, List.filterMap_cons, ih]
      by_cases hm : e.2.Matches (some (userKey user)) (some (addrKey market))
      · rw [if_pos hm]
        simp [hm]
      · rw [if_neg hm]
        simp [hm]

theorem selectedRows_opened (row : PaperPositionOpen)
    (hnew : paperPositionKey row.market row.position ∉ p.positionsOpen)
    (hq : q.positionsOpen = p.positionsOpen.insert (paperPositionKey row.market row.position) row)
    (hother : ¬row.Matches (some (userKey user)) (some (addrKey market))) :
    q.selectedRows user (some market) = p.selectedRows user (some market) := by
  rw [selectedRows_eq_filterMap, selectedRows_eq_filterMap, hq]
  apply Dict.filterMap_insert
  · exact if_neg hother
  · intro old hold
    exact absurd (Dict.mem_iff_lookup.mpr ⟨old, hold⟩) hnew

theorem selectedRows_closed {on : String} {position : UInt64} (hq : ClosesAt on position p q)
    (hother : ∀ row, p.positionsOpen.lookup (paperPositionKey on position) = some row →
      ¬row.Matches (some (userKey user)) (some (addrKey market))) :
    q.selectedRows user (some market) = p.selectedRows user (some market) := by
  cases hlookup : p.positionsOpen.lookup (paperPositionKey on position) with
  | none =>
      unfold selectedRows
      rw [(hq.unseen hlookup).1]
  | some row =>
      rw [selectedRows_eq_filterMap, selectedRows_eq_filterMap, (hq.seen row hlookup).1]
      exact Dict.filterMap_erase _ _ fun old hold => if_neg (hother old hold)

theorem accounts_closed (h : p.Accounts) {on : String} {position : UInt64}
    (hq : ClosesAt on position p q) : q.Accounts := by
  cases hlookup : p.positionsOpen.lookup (paperPositionKey on position) with
  | none =>
      have hsame := (hq.unseen hlookup).1
      exact ⟨hsame ▸ h.keyed, hsame ▸ h.owners⟩
  | some row =>
      have herased := (hq.seen row hlookup).1
      refine ⟨herased ▸ h.keyed.erase _, ?_⟩
      intro key row' hrow'
      rw [herased, Dict.lookup_erase_ite] at hrow'
      split_ifs at hrow'
      exact h.owners key row' hrow'

/-- The user is told of an end that changes the rows. -/
theorem told_closed (h : p.Accounts) (huser : PrintedAddress user) (hmarket : PrintedAddress market)
    {on : String} (hon : PrintedAddress on) {position : UInt64} (hq : ClosesAt on position p q)
    (owner : String) (block : UInt64) (closing : Closing) (pnl : Int64) :
    q.selectedRows user (some market) = p.selectedRows user (some market) ∨
      (p.closedMessage on position owner block closing pnl).toUser.wakes user market = true := by
  by_cases hother : ∀ row, p.positionsOpen.lookup (paperPositionKey on position) = some row →
      ¬row.Matches (some (userKey user)) (some (addrKey market))
  · exact Or.inl (selectedRows_closed hq hother)
  · obtain ⟨row, hrow, hmatches⟩ : ∃ row, p.positionsOpen.lookup (paperPositionKey on position) =
        some row ∧ row.Matches (some (userKey user)) (some (addrKey market)) := by
      simpa using hother
    obtain ⟨howner, hmarkets⟩ := matches_some_iff.mp hmatches
    have hkey := h.keyed _ _ hrow
    unfold rowId at hkey
    rw [paperPositionKey_eq, positionKey_inj, Prod.mk.injEq] at hkey
    obtain ⟨hon', -⟩ := hkey
    have haddress : (p.closedMessage on position owner block closing pnl).toUser.userAddress =
        row.owner := by
      unfold closedMessage
      rw [hrow]
      rfl
    refine Or.inr (wakes_of_keys huser hmarket ?_ hon ?_ (hon'.trans hmarkets))
    · rw [haddress]
      exact h.owners _ row hrow
    · rw [haddress]
      exact howner

/-- What an event changes of the rows of a user, the user is told. -/
theorem told_applySecondaryEvent (h : p.Accounts) (huser : PrintedAddress user)
    (hmarket : PrintedAddress market) {e : SecondaryEvent} (hplain : e.Plain p) :
    (p.applySecondaryEvent env e).Accounts ∧
      ((p.applySecondaryEvent env e).selectedRows user (some market) =
          p.selectedRows user (some market) ∨
        ∃ m, p.lifecycleMessage env e = some m ∧ m.toUser.wakes user market = true) := by
  have hkept : ¬e.MovesPosition → (p.applySecondaryEvent env e).Accounts ∧
      (p.applySecondaryEvent env e).selectedRows user (some market) =
        p.selectedRows user (some market) := by
    intro hmoves
    have hsame := (kept_applySecondaryEvent env p e hmoves).1
    refine ⟨⟨hsame ▸ h.keyed, hsame ▸ h.owners⟩, ?_⟩
    unfold selectedRows
    rw [hsame]
  cases e with
  | paperOpened e =>
      obtain ⟨howner, hon, hnew⟩ := hplain
      have hopened := (opened_indexPaperOpened env p e).1
      constructor
      · constructor
        · change KeyedBy rowId (p.indexPaperOpened env e).positionsOpen
          rw [hopened]
          exact h.keyed.insert (OpenedPosition.row ⟨e, env.blockNum⟩)
        · intro key row hrow
          change (p.indexPaperOpened env e).positionsOpen.lookup key = some row at hrow
          rw [hopened, Dict.lookup_insert_ite] at hrow
          split_ifs at hrow
          · cases hrow
            exact howner
          · exact h.owners key row hrow
      · by_cases hmatches : (OpenedPosition.row ⟨e, env.blockNum⟩).Matches (some (userKey user))
            (some (addrKey market))
        · obtain ⟨hkeys, hmarkets⟩ := matches_some_iff.mp hmatches
          exact Or.inr ⟨_, rfl, wakes_of_keys huser hmarket howner hon hkeys hmarkets⟩
        · exact Or.inl (selectedRows_opened (OpenedPosition.row ⟨e, env.blockNum⟩) hnew hopened
            hmatches)
  | paperClosed e =>
      have hclosed := closesAt_indexPaperClosed env p e
      refine ⟨accounts_closed h hclosed, ?_⟩
      rcases told_closed h huser hmarket hplain hclosed e.owner env.blockNum (closingOf e) e.pnl
        with hsame | hwakes
      · exact Or.inl hsame
      · exact Or.inr ⟨_, rfl, hwakes⟩
  | paperLiquidated e =>
      have hclosed := closesAt_indexPaperLiquidated env p e
      refine ⟨accounts_closed h hclosed, ?_⟩
      rcases told_closed h huser hmarket hplain hclosed e.owner env.blockNum (liquidationOf e)
        (-e.margin.toInt64) with hsame | hwakes
      · exact Or.inl hsame
      · exact Or.inr ⟨_, rfl, hwakes⟩
  | _ => exact ⟨(hkept id).1, Or.inl (hkept id).2⟩

/-! ## Rewards -/

theorem stakeDirty_of_stakeOf {e : SecondaryEvent} {on : String} (hon : stakeOf e = some on)
    (hkey : addrKey on = addrKey market) (hempty : addrKey market ≠ "") :
    addrKey market ∈ (p.applySecondaryEvent env e).stakeDirty := by
  rw [stakeDirty_applySecondaryEvent, hon]
  change addrKey market ∈ (p.markPaperStakeDirty on).stakeDirty
  rw [stakeDirty_markPaperStakeDirty, hkey, if_neg hempty, AList.mem_insert]
  exact Or.inl rfl

theorem mem_stakeDirty_applySecondaryEvent (e : SecondaryEvent) {m : String}
    (hm : m ∈ p.stakeDirty) : m ∈ (p.applySecondaryEvent env e).stakeDirty := by
  rw [stakeDirty_applySecondaryEvent]
  cases stakeOf e with
  | none => exact hm
  | some on =>
      change m ∈ (p.markPaperStakeDirty on).stakeDirty
      rw [stakeDirty_markPaperStakeDirty]
      split_ifs
      · exact hm
      · rw [AList.mem_insert]
        exact Or.inr hm

theorem colon_notMem_addrKey {s : String} (h : PrintedAddress s) : ':' ∉ (addrKey s).toList := by
  unfold addrKey Text.toAsciiLowercase
  rw [h.trimmed, String.toList_ofList, List.mem_map]
  rintro ⟨c, hc, hlower⟩
  have hnat := Text.toNat_toLower c
  rw [hlower] at hnat
  change 58 = _ at hnat
  have hcolon : c.toNat = ':'.toNat := by
    change c.toNat = 58
    split_ifs at hnat <;> omega
  rw [Char.toNat_inj.mp hcolon] at hc
  exact h.noColon hc

theorem claimed_applySecondaryEvent (huser : PrintedAddress user) (hempty : addrKey market ≠ "")
    {e : SecondaryEvent} (hplain : e.Plain p) :
    addrKey market ∈ (p.applySecondaryEvent env e).stakeDirty ∨
      (p.applySecondaryEvent env e).paperRewardsClaimed market user =
        p.paperRewardsClaimed market user := by
  by_cases hclaim : ∃ on of reward, e = .paperClaimed on of reward
  · obtain ⟨on, of, reward, rfl⟩ := hclaim
    by_cases hkey : addrKey on = addrKey market
    · exact Or.inl (stakeDirty_of_stakeOf env rfl hkey hempty)
    · have hclaimed : (p.applySecondaryEvent env (.paperClaimed on of reward)).rewardsClaimed =
          (p.applyPaperClaimedReward on of reward).rewardsClaimed :=
        rewardsClaimed_markPaperStakeDirty _ on
      have hkeys : paperRewardsClaimedKey market user ≠ paperRewardsClaimedKey on of := by
        intro heq
        obtain ⟨hmarkets, -⟩ := Text.colon_inj (colon_notMem_addrKey huser)
          (colon_notMem_addrKey hplain) heq
        exact hkey hmarkets.symm
      refine Or.inr ?_
      unfold paperRewardsClaimed
      rw [hclaimed]
      unfold applyPaperClaimedReward
      split_ifs
      · rfl
      · dsimp only
        unfold addTotal
        rw [Dict.lookup_insert_ite, if_neg hkeys]
  · have hother : ∀ on of reward, e ≠ .paperClaimed on of reward :=
      fun on of reward heq => hclaim ⟨on, of, reward, heq⟩
    refine Or.inr ?_
    unfold paperRewardsClaimed
    rw [rewardsClaimed_applySecondaryEvent env e hother]

theorem rewards_applySecondaryEvent (hempty : addrKey market ≠ "") (e : SecondaryEvent) :
    addrKey market ∈ (p.applySecondaryEvent env e).stakeDirty ∨
      (p.applySecondaryEvent env e).paperTotalStakerRewards market =
        p.paperTotalStakerRewards market := by
  have hrewards := (stakes_applySecondaryEvent env p e).1
  unfold paperTotalStakerRewards
  cases e with
  | paperFeesPushed on stakerFee swept house =>
      by_cases hkey : addrKey on = addrKey market
      · exact Or.inl (stakeDirty_of_stakeOf env rfl hkey hempty)
      · refine Or.inr ?_
        rw [hrewards]
        dsimp only
        unfold applyPaperFeesPushedRewards
        dsimp only
        split_ifs
        · rfl
        · dsimp only
          unfold addTotal
          rw [Dict.lookup_insert_ite, if_neg fun heq => hkey heq.symm]
  | _ => exact Or.inr (by rw [hrewards])

/-- An event tells of what it changes of the state of a user, or marks it. -/
theorem marks_applySecondaryEvent (h : p.Accounts) (huser : PrintedAddress user)
    (hmarket : PrintedAddress market) (hempty : addrKey market ≠ "") {e : SecondaryEvent}
    (hplain : e.Plain p) (sent : List PaperUserWsMessage) :
    Dirty.Marks (fun (_ : Unit) (s : Paper × List PaperUserWsMessage) => s.1.userShown user market)
      (fun _ => UserMarked user market) (p, sent)
      (p.applySecondaryEvent env e,
        sent ++ ((p.lifecycleMessage env e).map PaperPositionWsMessage.toUser).toList) where
  changed := by
    intro _
    rcases (told_applySecondaryEvent env h huser hmarket hplain).2 with hrows | ⟨m, hm, hwakes⟩
    · rcases claimed_applySecondaryEvent env huser hempty hplain with hmarked | hclaimed
      · exact Or.inl (Or.inl hmarked)
      · rcases rewards_applySecondaryEvent env hempty e with hmarked | hrewards
        · exact Or.inl (Or.inl hmarked)
        · refine Or.inr ?_
          change userShown user market (p.applySecondaryEvent env e) = userShown user market p
          unfold userShown
          rw [hrows, hclaimed, hrewards]
    · refine Or.inl (Or.inr ⟨m.toUser, List.mem_append.mpr (Or.inr ?_), hwakes⟩)
      rw [hm]
      exact List.mem_singleton.mpr rfl
  kept := by
    rintro _ (hmarked | ⟨m, hm, hwakes⟩)
    · exact Or.inl (mem_stakeDirty_applySecondaryEvent env e hmarked)
    · exact Or.inr ⟨m, List.mem_append.mpr (Or.inl hm), hwakes⟩

/-! ## Flushes -/

theorem pushPaperHouseHistory_eq (market : String) (tsMs : UInt64) (view : PaperHouseView)
    (p : Paper) : ∃ history rows, p.pushPaperHouseHistory market tsMs view =
      { p with houseHistory := history, houseRows := rows } := by
  unfold pushPaperHouseHistory
  dsimp only
  split_ifs
  · exact ⟨p.houseHistory, p.houseRows, rfl⟩
  · exact ⟨_, _, rfl⟩

theorem flushPaperHouseWs_samples (publish : Bool) (p : Paper) (feed : List PaperWsMessage) :
    ∃ history rows houses, flushPaperHouseWs env publish (p, feed) =
      (p.sampled history rows, feed ++ houses) := by
  unfold flushPaperHouseWs
  dsimp only
  have hfold : ∀ (keys : List String) history rows (feed : List PaperWsMessage),
      ∃ history' rows' houses, keys.foldl
        (fun s market =>
          let view := s.1.paperHouseView market
          let p := s.1.pushPaperHouseHistory market env.stampMs view
          if publish then (p, s.2 ++ [PaperWsMessage.house market env.stampMs view]) else (p, s.2))
        (p.sampled history rows, feed) = (p.sampled history' rows', feed ++ houses) := by
    intro keys
    induction keys with
    | nil => exact fun history rows feed => ⟨history, rows, [], by rw [List.append_nil]; rfl⟩
    | cons key keys ih =>
        intro history rows feed
        obtain ⟨history₁, rows₁, hpush⟩ := pushPaperHouseHistory_eq key env.stampMs
          ((p.sampled history rows).paperHouseView key) (p.sampled history rows)
        rw [List.foldl_cons]
        dsimp only
        rw [hpush]
        cases publish with
        | true =>
            obtain ⟨history', rows', houses, hrest⟩ := ih history₁ rows₁
              (feed ++ [.house key env.stampMs ((p.sampled history rows).paperHouseView key)])
            exact ⟨history', rows', _, hrest.trans (by rw [List.append_assoc])⟩
        | false => exact ih history₁ rows₁ feed
  exact hfold _ p.houseHistory p.houseRows feed

/-- After the flushes no mark of the stakes is left, and users are shown what they were. -/
structure Unmarked (p q : Paper) : Prop where
  positionsOpen : q.positionsOpen = p.positionsOpen
  rewardsClaimed : q.rewardsClaimed = p.rewardsClaimed
  totalStakerRewards : q.totalStakerRewards = p.totalStakerRewards
  stakeDirty : q.stakeDirty = ∅

theorem Unmarked.userShown (h : Unmarked p q) (user market : String) :
    q.userShown user market = p.userShown user market := by
  unfold Paper.userShown selectedRows paperRewardsClaimed paperTotalStakerRewards
  rw [h.positionsOpen, h.rewardsClaimed, h.totalStakerRewards]

theorem Unmarked.accounts (h : Unmarked p q) (hp : p.Accounts) : q.Accounts :=
  ⟨h.positionsOpen ▸ hp.keyed, h.positionsOpen ▸ hp.owners⟩

theorem mem_stakeSamples (chain : PaperChain) {m : String} (hm : m ∈ p.stakeDirty)
    (hparse : (env.sdk.parseTokenContract m).isSome = true) :
    ∃ tick, (m, tick) ∈ p.stakeSamples env chain := by
  obtain ⟨contract, hcontract⟩ := Option.isSome_iff_exists.mp hparse
  unfold stakeSamples
  refine ⟨⟨env.stampMs, p.paperTotalStakerRewards m, paperSupply chain contract,
    p.paperTotalStakerRewards m⟩, List.mem_filterMap.mpr ⟨m, AList.mem_keys.mpr hm, ?_⟩⟩
  rw [hcontract]
  rfl

theorem unmarked_recordSamples (samples : List (String × PaperStakeTick)) (h : Unmarked p q) :
    Unmarked p (q.recordSamples samples) := by
  unfold recordSamples
  induction samples generalizing q with
  | nil => exact h
  | cons s samples ih => exact ih ⟨h.1, h.2, h.3, h.4⟩

end Paper

/-! ## Blocks -/

namespace World

variable {w : World} {b : FeedBlock} {user market : String}

def begun (b : FeedBlock) (w : World) : World :=
  { w with ctx := w.ctx.beginBlock b.prepared.block }

def tells (b : FeedBlock) (w : World) : GlobalEvent → List PaperUserWsMessage
  | .secondary s =>
      ((w.paper.lifecycleMessage (w.paperEnv b.env b.prepared.blockNum) s).map
        PaperPositionWsMessage.toUser).toList
  | _ => []

def userMessagesOf (b : FeedBlock) : List GlobalEvent → World → List PaperUserWsMessage
  | [], _ => []
  | e :: es, w =>
      w.tells b e ++ userMessagesOf b es (w.applyGlobalEvent b.env b.prepared.blockNum e)

def userMessages (b : FeedBlock) (w : World) : List PaperUserWsMessage :=
  userMessagesOf b b.prepared.block.globalEvents (w.begun b)

def stakeMessages (b : FeedBlock) (w : World) : List (String × PaperStakeTick) :=
  let before := w.beforeFlush b
  if b.opts.publishWs then
    before.paper.stakeSamples (before.paperEnv b.env b.prepared.blockNum) b.paperChain
  else []

def wakes (user market : String) (b : FeedBlock) (w : World) : Bool :=
  (w.userMessages b).any (PaperUserWsMessage.wakes user market) ||
    (w.stakeMessages b).any fun s => addrKey s.1 = addrKey market

def Plain (w : World) (b : FeedBlock) : Prop :=
  Along (applyGlobalEvent b.env b.prepared.blockNum)
    (fun w e => ∀ s, e = .secondary s → s.Plain w.paper)
    b.prepared.block.globalEvents (w.begun b)

theorem marks_userMessages (huser : PrintedAddress user) (hmarket : PrintedAddress market)
    (hempty : addrKey market ≠ "") (es : List GlobalEvent) (v : World) (h : v.paper.Accounts)
    (hplain : Along (applyGlobalEvent b.env b.prepared.blockNum)
      (fun w e => ∀ s, e = .secondary s → s.Plain w.paper) es v)
    (sent : List PaperUserWsMessage) :
    (es.foldl (applyGlobalEvent b.env b.prepared.blockNum) v).paper.Accounts ∧
      Dirty.Marks
        (fun (_ : Unit) (s : Paper × List PaperUserWsMessage) => s.1.userShown user market)
        (fun _ => Paper.UserMarked user market) (v.paper, sent)
        ((es.foldl (applyGlobalEvent b.env b.prepared.blockNum) v).paper,
          sent ++ userMessagesOf b es v) := by
  induction es generalizing v sent with
  | nil =>
      refine ⟨h, ?_⟩
      rw [userMessagesOf, List.append_nil]
      exact Dirty.Marks.refl _
  | cons e es ih =>
      obtain ⟨hstep, hmarks⟩ : (v.applyGlobalEvent b.env b.prepared.blockNum e).paper.Accounts ∧
          Dirty.Marks
            (fun (_ : Unit) (s : Paper × List PaperUserWsMessage) => s.1.userShown user market)
            (fun _ => Paper.UserMarked user market) (v.paper, sent)
            ((v.applyGlobalEvent b.env b.prepared.blockNum e).paper, sent ++ v.tells b e) := by
        cases e with
        | secondary s =>
            have hs := hplain.1 s rfl
            exact ⟨(Paper.told_applySecondaryEvent _ h huser hmarket hs).1,
              Paper.marks_applySecondaryEvent _ h huser hmarket hempty hs sent⟩
        | _ =>
            refine ⟨h, ?_⟩
            unfold tells
            rw [List.append_nil]
            exact Dirty.Marks.refl _
      obtain ⟨haccounts, hrest⟩ := ih _ hstep hplain.2 (sent ++ v.tells b e)
      rw [List.append_assoc] at hrest
      exact ⟨haccounts, hmarks.trans hrest⟩

/-- What a block sends, and what its flushes leave. -/
theorem unmarked_run (w : World) (b : FeedBlock) :
    Paper.Unmarked (w.beforeFlush b).paper (w.run b).paper ∧
      ∃ houses, (w.run b).paperFeed = (w.beforeFlush b).paperFeed ++ houses ++
        (w.stakeMessages b).map fun s => .stake s.1 s.2 := by
  unfold stakeMessages run processPreparedBlock
  generalize hbefore : w.beforeFlush b = before
  unfold beforeFlush at hbefore
  rw [hbefore]
  unfold endBlock
  dsimp only
  generalize before.paperEnv b.env b.prepared.blockNum = env
  obtain ⟨history, rows, houses, hflush⟩ :=
    Paper.flushPaperHouseWs_samples env b.opts.publishWs before.paper before.paperFeed
  rw [hflush, Paper.flushPaperStakeHistory_feed]
  refine ⟨Paper.unmarked_recordSamples _ ⟨rfl, rfl, rfl, rfl⟩, houses, ?_⟩
  cases b.opts.publishWs <;> rfl

structure AccountsSettled (w : World) : Prop where
  accounts : w.paper.Accounts
  unmarked : w.paper.stakeDirty = ∅

theorem accountsSettled_start (h : w.paper = {}) : w.AccountsSettled := by
  constructor
  · rw [h]
    constructor
    · intro key row hrow
      cases hrow
    · intro key row hrow
      cases hrow
  · rw [h]

theorem marks_beforeFlush (h : w.AccountsSettled) (hplain : w.Plain b)
    (huser : PrintedAddress user) (hmarket : PrintedAddress market) (hempty : addrKey market ≠ "") :
    (w.beforeFlush b).paper.Accounts ∧
      Dirty.Marks
        (fun (_ : Unit) (s : Paper × List PaperUserWsMessage) => s.1.userShown user market)
        (fun _ => Paper.UserMarked user market) (w.paper, [])
        ((w.beforeFlush b).paper, w.userMessages b) := by
  unfold beforeFlush userMessages
  rw [paper_applyMarkets]
  exact marks_userMessages huser hmarket hempty b.prepared.block.globalEvents (w.begun b)
    h.accounts hplain []

/-- A block keeps the accounts, whether it publishes or not. -/
theorem accountsSettled_run (h : w.AccountsSettled) (hplain : w.Plain b)
    (huser : PrintedAddress user) (hmarket : PrintedAddress market) (hempty : addrKey market ≠ "") :
    (w.run b).AccountsSettled := by
  have hunmarked := (unmarked_run w b).1
  have haccounts := (marks_beforeFlush h hplain huser hmarket hempty).1
  exact ⟨hunmarked.accounts haccounts, hunmarked.stakeDirty⟩

theorem accountsSettled_foldl (h : w.AccountsSettled) (huser : PrintedAddress user)
    (hmarket : PrintedAddress market) (hempty : addrKey market ≠ "") {blocks : List FeedBlock}
    (hplain : Along World.run World.Plain blocks w) : (blocks.foldl World.run w).AccountsSettled := by
  induction blocks generalizing w with
  | nil => exact h
  | cons b blocks ih =>
      exact ih (accountsSettled_run h hplain.1 huser hmarket hempty) hplain.2

theorem wakes_of_marked (hpublish : b.opts.publishWs = true)
    (hparse : (b.env.sdk.parseTokenContract (addrKey market)).isSome = true)
    (h : Paper.UserMarked user market ((w.beforeFlush b).paper, w.userMessages b)) :
    w.wakes user market b = true := by
  unfold wakes
  rw [Bool.or_eq_true, List.any_eq_true, List.any_eq_true]
  rcases h with hdirty | ⟨m, hm, hwakes⟩
  · obtain ⟨tick, htick⟩ := Paper.mem_stakeSamples
      ((w.beforeFlush b).paperEnv b.env b.prepared.blockNum) b.paperChain hdirty hparse
    refine Or.inr ⟨(addrKey market, tick), ?_, decide_eq_true (addrKey_addrKey market)⟩
    unfold stakeMessages
    dsimp only
    rw [if_pos hpublish]
    exact htick
  · exact Or.inl ⟨m, hm, hwakes⟩

end World

/-! ## A reader of the state -/

/-- A world, and the index as it was when the task last read the state. -/
structure UserFeed where
  world : World
  readAt : Paper

/-- The task reads the state when the block is done, if the block has sent it a message. -/
def UserFeed.step (user market : String) (f : UserFeed) (b : FeedBlock) : UserFeed where
  world := f.world.run b
  readAt := if f.world.wakes user market b then (f.world.run b).paper else f.readAt

section

variable {user market : String} {f : UserFeed} {b : FeedBlock}

theorem userFeed_step (huser : PrintedAddress user) (hmarket : PrintedAddress market)
    (hempty : addrKey market ≠ "") (h : f.world.AccountsSettled) (hplain : f.world.Plain b)
    (hpublish : b.opts.publishWs = true)
    (hparse : (b.env.sdk.parseTokenContract (addrKey market)).isSome = true)
    (hread : f.readAt.userShown user market = f.world.paper.userShown user market) :
    (f.step user market b).world.AccountsSettled ∧
      (f.step user market b).readAt.userShown user market =
        (f.step user market b).world.paper.userShown user market := by
  obtain ⟨haccounts, hmarks⟩ := World.marks_beforeFlush h hplain huser hmarket hempty
  have hunmarked := (World.unmarked_run f.world b).1
  refine ⟨⟨hunmarked.accounts haccounts, hunmarked.stakeDirty⟩, ?_⟩
  unfold UserFeed.step
  dsimp only
  by_cases hwakes : f.world.wakes user market b = true
  · rw [if_pos hwakes]
  · rw [if_neg hwakes, hread, hunmarked.userShown]
    rcases hmarks.changed () with hmarked | hsame
    · exact absurd (World.wakes_of_marked hpublish hparse hmarked) hwakes
    · exact hsame.symm

theorem userFeed_run (huser : PrintedAddress user) (hmarket : PrintedAddress market)
    (hempty : addrKey market ≠ "") (h : f.world.AccountsSettled) {live : List FeedBlock}
    (hplain : Along World.run World.Plain live f.world)
    (hpublish : ∀ b ∈ live, b.opts.publishWs = true)
    (hparse : ∀ b ∈ live, (b.env.sdk.parseTokenContract (addrKey market)).isSome = true)
    (hread : f.readAt.userShown user market = f.world.paper.userShown user market) :
    (live.foldl (UserFeed.step user market) f).readAt.userShown user market =
      (live.foldl World.run f.world).paper.userShown user market := by
  induction live generalizing f with
  | nil => exact hread
  | cons b live ih =>
      obtain ⟨hsettled, hstep⟩ := userFeed_step huser hmarket hempty h hplain.1
        (hpublish b List.mem_cons_self) (hparse b List.mem_cons_self) hread
      exact ih hsettled hplain.2 (fun b' h' => hpublish b' (List.mem_cons_of_mem b h'))
        (fun b' h' => hparse b' (List.mem_cons_of_mem b h')) hstep

end

/-- From a fresh start, after any blocks: a task that has read the state of a user between two
blocks, and reads it after every later block that sends a message for it, has always read the
state as it is, whatever the node answers. -/
theorem userFeed_current (w : World) (hstart : w.paper = {}) (blocks live : List FeedBlock)
    (user market : String) (huser : PrintedAddress user) (hmarket : PrintedAddress market)
    (hempty : addrKey market ≠ "") (hblocks : Along World.run World.Plain blocks w)
    (hlive : Along World.run World.Plain live (blocks.foldl World.run w))
    (hpublish : ∀ b ∈ live, b.opts.publishWs = true)
    (hparse : ∀ b ∈ live, (b.env.sdk.parseTokenContract (addrKey market)).isSome = true)
    (sdk : Sdk) (chain : UserChain) :
    (live.foldl (UserFeed.step user market)
        ⟨blocks.foldl World.run w, (blocks.foldl World.run w).paper⟩).readAt.paperUserState sdk
          chain user market =
      (live.foldl World.run (blocks.foldl World.run w)).paper.paperUserState sdk chain user
        market := by
  have hsettled := World.accountsSettled_foldl (World.accountsSettled_start hstart) huser hmarket
    hempty hblocks
  apply Paper.paperUserState_congr
  exact userFeed_run huser hmarket hempty hsettled hlive hpublish hparse rfl

namespace Sample

def openingBlock : FeedBlock where
  env := setting
  paperChain := ⟨fun _ => none, fun _ => none⟩
  opts := {}
  prepared := ⟨1, "", 1, ⟨1, "", 0, [⟨true, account,
    [⟨.global (.secondary (openedWith 1 5).event), none⟩]⟩]⟩, ∅, []⟩

theorem plain_openingBlock : houseStart.Plain openingBlock := by
  refine ⟨?_, trivial⟩
  rintro s hs
  cases hs
  have haccount : PrintedAddress account := by decide +kernel
  have hmarket : PrintedAddress paperMarket := by decide +kernel
  exact ⟨haccount, hmarket, AList.notMem_empty _⟩

theorem userFeed_openingBlock :
    ([openingBlock].foldl (UserFeed.step account paperMarket)
        ⟨houseStart, houseStart.paper⟩).readAt.paperUserState sdk silentUserChain account
          paperMarket =
      ([openingBlock].foldl World.run houseStart).paper.paperUserState sdk silentUserChain account
        paperMarket := by
  refine userFeed_current houseStart rfl [] [openingBlock] account paperMarket (by decide +kernel)
    (by decide +kernel) (by decide +kernel) trivial ⟨plain_openingBlock, trivial⟩ ?_ ?_ sdk
    silentUserChain
  · intro b hb
    cases List.mem_singleton.mp hb
    rfl
  · intro b hb
    cases List.mem_singleton.mp hb
    decide +kernel

end Sample

end ClobIndexer
