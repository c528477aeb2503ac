import ClobIndexer.PaperHistory
import ClobIndexer.PaperHouseMarks
import ClobIndexer.PaperPages
import ClobIndexer.PaperStakeView
/-!
# The state of a user on a paper market

What a client of `paper.user.state` is sent is put together from answers of the node and from
what the index knows of the user: the open positions, the margin in them, and the rewards.
Here it is compared with the positions that the events have left open.
-/

namespace ClobIndexer

open Lib

structure GetPaperAccount where
  available : UInt64 := 0
  queued : UInt64 := 0
  entryHead : UInt64 := 0
  entryTail : UInt64 := 0
  queuedTruncated : Bool := false

/-- The node's answers that the state is made of. -/
structure UserChain extends StakeChain where
  /-- the account of an address in a market -/
  getPaperAccount : List UInt8 → List UInt8 → Option GetPaperAccount

/-- The numbers of the account; its other texts are these numbers formatted. -/
structure PaperAccountView where
  market : String
  address : String
  availableRaw : UInt64
  queuedRaw : UInt64
  entryHead : UInt64
  entryTail : UInt64
  queuedTruncated : Bool
  marginInUseRaw : UInt64
  openPnlRaw : Int64
  equityRaw : Int64
  openPositions : UInt32
deriving DecidableEq

structure PaperUserStateWsMessage where
  msgType : String
  userAddress : String
  market : String
  account : PaperAccountView
  positions : List PaperPositionOpen
  paper : PaperStakeView
deriving DecidableEq

namespace Paper

def selectedRows (owner : String) (market : Option String) (p : Paper) : List PaperPositionOpen :=
  (p.positionsOpen.entries.map Sigma.snd).filter fun row =>
    row.Matches (some (userKey owner)) (market.map addrKey)

/-- `sum_open_margin`; the sum wraps in a release build. -/
def sumOpenMargin (owner : String) (market : Option String) (p : Paper) : UInt64 :=
  (p.selectedRows owner market).foldl (fun sum row => sum + row.marginRaw) 0

def countOpenPositions (owner : String) (market : Option String) (p : Paper) : UInt32 :=
  UInt32.ofNat (p.selectedRows owner market).length

/-- The query of `paper_user_state`, whose page ends after 200 positions. -/
def userPositions (user market : String) (p : Paper) : List PaperPositionOpen :=
  (p.openRows (some (userKey user)) (some (addrKey market))).take 200

def paperUserState (sdk : Sdk) (chain : UserChain) (user market : String) (p : Paper) :
    Option PaperUserStateWsMessage := do
  let paper ← p.paperStakeView sdk chain.toStakeChain market user
  let address ← sdk.addressFromStr user
  let marketAddr ← sdk.parseTokenContract market
  let acct := (chain.getPaperAccount address marketAddr).getD {}
  let marginInUse := p.sumOpenMargin user (some market)
  let equityRaw := Word.satAdd (Word.satAdd acct.available acct.queued) marginInUse
  return {
    msgType := "paper.user.state"
    userAddress := user
    market := market
    account :=
      { market := market
        address := user
        availableRaw := acct.available
        queuedRaw := acct.queued
        entryHead := acct.entryHead
        entryTail := acct.entryTail
        queuedTruncated := acct.queuedTruncated
        marginInUseRaw := marginInUse
        openPnlRaw := 0
        equityRaw := equityRaw.toInt64
        openPositions := p.countOpenPositions user (some market) }
    positions := p.userPositions user market
    paper := paper
  }

end Paper

/-! ## The ledger of a user -/

def PaperLedger.userTotal (weight : PaperOpenedEvent → Nat) (user market : String)
    (l : PaperLedger) : Nat :=
  l.sumOf fun id o =>
    if id.1 = addrKey market ∧ userKey o.event.owner = userKey user then weight o.event else 0

/-- The message shows what the events have left open for the user on the market: the margin and
the number of the positions, as far as they fit, and the newest two hundred of them. -/
structure PaperUserStateWsMessage.Shows (l : PaperLedger) (user market : String)
    (msg : PaperUserStateWsMessage) : Prop where
  margin : msg.account.marginInUseRaw.toNat =
    l.userTotal (fun e => e.margin.toNat) user market % 2 ^ 64
  count : msg.account.openPositions.toNat = l.userTotal (fun _ => 1) user market % 2 ^ 32
  page : msg.positions.length = min 200 (l.userTotal (fun _ => 1) user market)
  distinct : (msg.positions.map Paper.rowId).Nodup
  sorted : msg.positions.Pairwise PaperPositionOpen.NotAfter
  rows : ∀ row ∈ msg.positions, ∃ o, l.lookup (Paper.rowId row) = some o ∧ row = o.row ∧
    addrKey row.market = addrKey market ∧ userKey row.owner = userKey user
  newest : ∀ id o, l.lookup id = some o → id.1 = addrKey market →
    userKey o.event.owner = userKey user →
    o.row ∈ msg.positions ∨ ∀ row ∈ msg.positions, row.NotAfter o.row

namespace Paper

variable {l : PaperLedger} {p : Paper}

theorem keyedRows_step (h : KeyedBy rowId p.positionsOpen) (s : PaperStep) :
    KeyedBy rowId (p.step s).positionsOpen := by
  have hclosed : ∀ {market : String} {position : UInt64} {q : Paper},
      ClosesAt market position p q → KeyedBy rowId q.positionsOpen := by
    intro market position q hq
    cases hlookup : p.positionsOpen.lookup (paperPositionKey market position) with
    | none =>
        rw [(hq.unseen hlookup).1]
        exact h
    | some row =>
        rw [(hq.seen row hlookup).1]
        exact h.erase _
  obtain ⟨env, e⟩ := s
  by_cases hmoves : e.MovesPosition
  · cases e with
    | paperOpened e =>
        change KeyedBy rowId (p.indexPaperOpened env e).positionsOpen
        rw [(opened_indexPaperOpened env p e).1]
        exact h.insert (OpenedPosition.row ⟨e, env.blockNum⟩)
    | paperClosed e => exact hclosed (closesAt_indexPaperClosed env p e)
    | paperLiquidated e => exact hclosed (closesAt_indexPaperLiquidated env p e)
    | _ => cases hmoves
  · change KeyedBy rowId (p.applySecondaryEvent env e).positionsOpen
    rw [(kept_applySecondaryEvent env p e hmoves).1]
    exact h

theorem rows_run (steps : List PaperStep) :
    RowsOf (steps.foldl PaperLedger.step ∅) (steps.foldl step {}) ∧
      KeyedBy rowId (steps.foldl step {}).positionsOpen := by
  induction steps using List.reverseRecOn with
  | nil =>
      refine ⟨fun id => rfl, ?_⟩
      intro key row hrow
      cases hrow
  | append_singleton steps s ih =>
      rw [List.foldl_append, List.foldl_append]
      exact ⟨rowsOf_step ih.1 s, keyedRows_step ih.2 s⟩

theorem RowsOf.rowId_eq (h : RowsOf l p) (hkeyed : KeyedBy rowId p.positionsOpen)
    {id : String × UInt64} {o : OpenedPosition} (ho : l.lookup id = some o) : rowId o.row = id := by
  have hrow : p.positionsOpen.lookup (positionKey id) = some o.row := by
    rw [h id, ho]
    rfl
  exact (positionKey_inj.mp (hkeyed _ _ hrow)).symm

theorem RowsOf.mem_iff (h : RowsOf l p) (hkeyed : KeyedBy rowId p.positionsOpen)
    {row : PaperPositionOpen} : row ∈ p.positionsOpen.entries.map Sigma.snd ↔
      ∃ o, l.lookup (rowId row) = some o ∧ row = o.row := by
  constructor
  · intro hmem
    obtain ⟨e, he, rfl⟩ := List.mem_map.mp hmem
    have hlookup : p.positionsOpen.lookup e.1 = some e.2 := AList.mem_lookup_iff.mpr he
    have hkey := hkeyed _ _ hlookup
    rw [hkey, h] at hlookup
    obtain ⟨o, ho, hrow⟩ := Option.map_eq_some_iff.mp hlookup
    exact ⟨o, ho, hrow.symm⟩
  · rintro ⟨o, ho, hrow⟩
    have hlookup : p.positionsOpen.lookup (positionKey (rowId row)) = some row := by
      rw [h, ho, hrow]
      rfl
    exact List.mem_map.mpr ⟨_, AList.mem_lookup_iff.mp hlookup, rfl⟩

theorem matches_some_iff {row : PaperPositionOpen} {owner market : String} :
    row.Matches (some owner) (some market) ↔
      userKey row.owner = owner ∧ addrKey row.market = market := by
  unfold PaperPositionOpen.Matches
  simp

/-- Summing over the selected rows is summing over the open positions of the user. -/
theorem RowsOf.sum_selected (h : RowsOf l p) (hkeyed : KeyedBy rowId p.positionsOpen)
    (user market : String) (w : PaperPositionOpen → Nat) (w' : PaperOpenedEvent → Nat)
    (hw : ∀ o : OpenedPosition, w o.row = w' o.event) :
    ((p.selectedRows user (some market)).map w).sum = l.userTotal w' user market := by
  unfold selectedRows
  rw [Dict.sum_filter_values fun row : PaperPositionOpen =>
    row.Matches (some (userKey user)) (Option.map addrKey (some market))]
  unfold PaperLedger.userTotal
  apply Dict.sumOf_eq_sumOf positionKey
  · intro id _ id' _ heq
    exact positionKey_inj.mp heq
  · intro id o ho
    have hid := h.rowId_eq hkeyed ho
    refine ⟨o.row, ?_, ?_⟩
    · rw [h id, ho]
      rfl
    · rw [hw]
      subst hid
      have hmatches : o.row.Matches (some (userKey user)) (Option.map addrKey (some market)) ↔
          (rowId o.row).1 = addrKey market ∧ userKey o.event.owner = userKey user :=
        matches_some_iff.trans and_comm
      simp only [hmatches]
  · intro key row hrow hnone
    have hkey := hkeyed _ _ hrow
    rw [hkey, h] at hrow
    obtain ⟨o, ho, -⟩ := Option.map_eq_some_iff.mp hrow
    exact absurd hkey.symm (hnone _ (Dict.mem_iff_lookup.mpr ⟨o, ho⟩))

theorem toNat_foldl_add {A : Type} (f : A → UInt64) (rows : List A) (n : UInt64) :
    (rows.foldl (fun sum row => sum + f row) n).toNat =
      (n.toNat + (rows.map fun row => (f row).toNat).sum) % 2 ^ 64 := by
  induction rows generalizing n with
  | nil =>
      have hlt := n.toNat_lt
      simp only [List.foldl_nil, List.map_nil, List.sum_nil]
      omega
  | cons row rows ih =>
      rw [List.foldl_cons, ih, UInt64.toNat_add, List.map_cons, List.sum_cons]
      omega

theorem nodup_selectedRows (hkeyed : KeyedBy rowId p.positionsOpen) (user : String)
    (market : Option String) : ((p.selectedRows user market).map rowId).Nodup := by
  have hkeys : ((p.positionsOpen.entries.map Sigma.snd).map rowId).map positionKey =
      p.positionsOpen.keys := by
    rw [List.map_map, List.map_map]
    refine List.map_congr_left fun e he => ?_
    exact (hkeyed _ _ (AList.mem_lookup_iff.mpr he)).symm
  have hall : ((p.positionsOpen.entries.map Sigma.snd).map rowId).Nodup := by
    refine List.Nodup.of_map positionKey ?_
    rw [hkeys]
    exact p.positionsOpen.nodupKeys
  exact hall.sublist (List.filter_sublist.map rowId)

end Paper

/-- After any events: what a user is sent shows what they have left open for the user. -/
theorem paperUserState_of_run (steps : List PaperStep) (sdk : Sdk) (chain : UserChain)
    (user market : String) (msg : PaperUserStateWsMessage)
    (h : (steps.foldl Paper.step {}).paperUserState sdk chain user market = some msg) :
    msg.Shows (steps.foldl PaperLedger.step ∅) user market := by
  obtain ⟨hrows, hkeyed⟩ := Paper.rows_run steps
  generalize steps.foldl Paper.step {} = p at h hrows hkeyed
  generalize steps.foldl PaperLedger.step ∅ = l at hrows ⊢
  have hmargin : msg.account.marginInUseRaw = p.sumOpenMargin user (some market) ∧
      msg.account.openPositions = p.countOpenPositions user (some market) ∧
      msg.positions = p.userPositions user market := by
    unfold Paper.paperUserState at h
    simp only [Option.bind_eq_bind, Option.bind_eq_some_iff, Option.pure_def,
      Option.some.injEq] at h
    obtain ⟨_, -, _, -, _, -, rfl⟩ := h
    exact ⟨rfl, rfl, rfl⟩
  obtain ⟨hmargin, hcount, hpositions⟩ := hmargin
  have hsum := hrows.sum_selected hkeyed user market (fun row => row.marginRaw.toNat)
    (fun e => e.margin.toNat) fun _ => rfl
  have hlength : (p.selectedRows user (some market)).length =
      l.userTotal (fun _ => 1) user market := by
    have hcounted := hrows.sum_selected hkeyed user market (fun _ => 1) (fun _ => 1)
      fun _ => rfl
    simpa using hcounted
  have hperm : (p.openRows (some (userKey user)) (some (addrKey market))).Perm
      (p.selectedRows user (some market)) := List.mergeSort_perm _ _
  have hsorted : (p.openRows (some (userKey user)) (some (addrKey market))).Pairwise
      PaperPositionOpen.NotAfter :=
    SeriesTable.pairwise_mergeSort_decide PaperPositionOpen.NotAfter
      PaperPositionOpen.notAfter_trans PaperPositionOpen.notAfter_total _
  have hdistinct : ((p.openRows (some (userKey user)) (some (addrKey market))).map
      Paper.rowId).Nodup :=
    (hperm.map Paper.rowId).nodup_iff.mpr (Paper.nodup_selectedRows hkeyed user (some market))
  have hmem : ∀ row, row ∈ p.openRows (some (userKey user)) (some (addrKey market)) ↔
      (∃ o, l.lookup (Paper.rowId row) = some o ∧ row = o.row) ∧
        userKey row.owner = userKey user ∧ addrKey row.market = addrKey market := by
    intro row
    rw [hperm.mem_iff, ← hrows.mem_iff hkeyed, ← Paper.matches_some_iff]
    unfold Paper.selectedRows
    rw [List.mem_filter, decide_eq_true_eq]
    rfl
  unfold Paper.userPositions at hpositions
  generalize p.openRows (some (userKey user)) (some (addrKey market)) = rows at *
  constructor
  · rw [hmargin]
    unfold Paper.sumOpenMargin
    rw [Paper.toNat_foldl_add, hsum]
    simp
  · rw [hcount]
    unfold Paper.countOpenPositions
    rw [UInt32.toNat_ofNat', hlength]
  · rw [hpositions, List.length_take, hperm.length_eq, hlength]
  · rw [hpositions]
    exact hdistinct.sublist ((List.take_sublist _ _).map Paper.rowId)
  · rw [hpositions]
    exact hsorted.sublist (List.take_sublist _ _)
  · intro row hrow
    rw [hpositions] at hrow
    obtain ⟨⟨o, ho, hrow'⟩, howner, hmarket⟩ := (hmem row).mp (List.mem_of_mem_take hrow)
    exact ⟨o, ho, hrow', hmarket, howner⟩
  · intro id o ho hid howner
    have hrowId := hrows.rowId_eq hkeyed ho
    have hopen : o.row ∈ rows := by
      refine (hmem o.row).mpr ⟨⟨o, ?_, rfl⟩, howner, ?_⟩
      · rw [hrowId, ho]
      · rw [← hrowId] at hid
        exact hid
    rw [hpositions]
    rw [← List.take_append_drop 200 rows] at hopen hsorted
    rcases List.mem_append.mp hopen with hpage | hrest
    · exact Or.inl hpage
    · exact Or.inr fun row hrow => (List.pairwise_append.mp hsorted).2.2 row hrow o.row hrest

namespace Sample

def silentUserChain : UserChain where
  getPaperMarket := fun _ => none
  getBalance := fun _ _ => none
  getTokenInfo := fun _ _ => none
  getPaperLp := fun _ => none
  getPaperStake := fun _ _ => none
  getPaperAccount := fun _ _ => none

theorem paperUserState_hugeMargins :
    ∃ msg, (hugeMargins.foldl Paper.step {}).paperUserState sdk silentUserChain account
        paperMarket = some msg ∧
      msg.Shows (hugeMargins.foldl PaperLedger.step ∅) account paperMarket := by
  have hsome : ((hugeMargins.foldl Paper.step {}).paperUserState sdk silentUserChain account
      paperMarket).isSome = true := by decide +kernel
  obtain ⟨msg, hmsg⟩ := Option.isSome_iff_exists.mp hsome
  exact ⟨msg, hmsg, paperUserState_of_run hugeMargins sdk silentUserChain account paperMarket msg
    hmsg⟩

end Sample

end ClobIndexer
