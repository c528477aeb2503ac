import ClobIndexer.PaperLedger
/-!
# The queue of a paper house

A claim on a house waits in its queue from `paper_queued` until it is harvested.  The index
keeps the claims of all markets under one kind of key, and the placement of an owner is
counted from them: what is ahead of the first claim of the owner, the claims of the owner,
and the rest.  New claims go to the back, so what is ahead of a waiting claim only shrinks,
by what is harvested there.
-/

namespace ClobIndexer

open Lib

structure PaperQueuePlacement where
  market : String
  address : String
  ahead : String
  aheadRaw : UInt64
  yours : String
  yoursRaw : UInt64
  behind : String
  behindRaw : UInt64
  yourEntries : UInt32
  inQueue : Bool
deriving DecidableEq

structure PaperHouseQueue where
  queueDebtPositions : UInt32
  queueLargest : String
  queueLargestRaw : UInt64
  queuePaidNext : String
  queuePaidNextRaw : UInt64
  queuePaidNextUser : String
deriving DecidableEq

namespace Paper

def paperQueueClaimsForMarket (market : String) (p : Paper) : List PaperQueueClaim :=
  ((p.queueOpen.entries.map (·.2)).filter fun c => addrKey c.market = addrKey market).mergeSort
    fun a b => a.index ≤ b.index

/-- `.map(|c| c.amount).sum()`, which wraps in a release build. -/
def sumAmounts (claims : List PaperQueueClaim) : UInt64 :=
  claims.foldl (fun sum c => sum + c.amount) 0

def paperQueuePlacement (market owner : String) (p : Paper) : PaperQueuePlacement :=
  let owner := userKey owner
  let claims := p.paperQueueClaimsForMarket market
  let total := sumAmounts claims
  let yours := claims.filter fun c => c.user = owner
  let yourEntries := UInt32.ofNat yours.length
  let yoursRaw := sumAmounts yours
  let placed : UInt64 × UInt64 :=
    match (yours.map PaperQueueClaim.index).min? with
    | some first =>
        let aheadRaw := sumAmounts (claims.filter fun c => c.index < first)
        (aheadRaw, Word.satSub (Word.satSub total aheadRaw) yoursRaw)
    | none => (0, total)
  { market := market
    address := owner
    ahead := formatTokenAmount placed.1
    aheadRaw := placed.1
    yours := formatTokenAmount yoursRaw
    yoursRaw := yoursRaw
    behind := formatTokenAmount placed.2
    behindRaw := placed.2
    yourEntries := yourEntries
    inQueue := 0 < yourEntries }

/-- The part of `paper_house_view` that is read from the queue. -/
def paperHouseQueue (market : String) (p : Paper) : PaperHouseQueue :=
  let house := (p.house.lookup (addrKey market)).getD {}
  let claims := p.paperQueueClaimsForMarket market
  let largest := (claims.map PaperQueueClaim.amount).max?.getD 0
  let paidNext := (claims.find? fun c => c.index = house.queueHead).or claims.head?
  let paidRaw := (paidNext.map PaperQueueClaim.amount).getD 0
  { queueDebtPositions := UInt32.ofNat claims.length
    queueLargest := if 0 < largest then formatTokenAmount largest else ""
    queueLargestRaw := largest
    queuePaidNext := if 0 < paidRaw then formatTokenAmount paidRaw else ""
    queuePaidNextRaw := paidRaw
    queuePaidNextUser := (paidNext.map PaperQueueClaim.user).getD "" }

end Paper

/-! ## What the events leave in the queue -/

/-- The claims that wait, by market and number. -/
abbrev QueueLedger := Dict (String × UInt64) PaperQueueClaim

def SecondaryEvent.Harvests (id : String × UInt64) : SecondaryEvent → Prop
  | .paperHarvested market index _ => id = (addrKey market, index)
  | _ => False

instance (id : String × UInt64) (e : SecondaryEvent) : Decidable (e.Harvests id) := by
  unfold SecondaryEvent.Harvests
  split <;> infer_instance

/-- A claim that the event queues on the market goes behind the number, and the event does not
harvest it. -/
def SecondaryEvent.GoesBehind (id : String × UInt64) : SecondaryEvent → Prop
  | .paperQueued market index _ _ _ => addrKey market = id.1 → id.2 < index
  | .paperHarvested market index _ => id ≠ (addrKey market, index)
  | _ => True

instance (id : String × UInt64) (e : SecondaryEvent) : Decidable (e.GoesBehind id) := by
  unfold SecondaryEvent.GoesBehind
  split <;> infer_instance

namespace QueueLedger

def step (l : QueueLedger) (s : PaperStep) : QueueLedger :=
  match s.event with
  | .paperQueued market index user amount _ =>
      l.insert (addrKey market, index) ⟨market, index, userKey user, amount, s.env.stampMs⟩
  | .paperHarvested market index _ => l.erase (addrKey market, index)
  | _ => l

def total (w : PaperQueueClaim → Nat) (m : String) (P : PaperQueueClaim → Prop) [DecidablePred P]
    (l : QueueLedger) : Nat :=
  l.sumOf fun id c => if id.1 = m ∧ P c then w c else 0

def owed (m : String) (P : PaperQueueClaim → Prop) [DecidablePred P] (l : QueueLedger) : Nat :=
  l.total (fun c => c.amount.toNat) m P

/-- The owner has claims, and the claim is ahead of all of them. -/
def Ahead (m owner : String) (l : QueueLedger) (c : PaperQueueClaim) : Prop :=
  (∃ e ∈ l.entries, e.1.1 = m ∧ e.2.user = owner) ∧
    ∀ e ∈ l.entries, e.1.1 = m → e.2.user = owner → c.index < e.2.index

instance (m owner : String) (l : QueueLedger) : DecidablePred (l.Ahead m owner) := fun _ => by
  unfold Ahead
  infer_instance

/-- The numbers of the claims of a market fit into words. -/
structure Fits (m : String) (l : QueueLedger) : Prop where
  owed : l.owed m (fun _ => True) ≤ Word.u64Max
  count : l.total (fun _ => 1) m (fun _ => True) < 2 ^ 32

/-- The placement counts what is owed ahead of the owner, to the owner, and otherwise. -/
structure Places (m owner : String) (l : QueueLedger) (x : PaperQueuePlacement) : Prop where
  ahead : x.aheadRaw.toNat = l.owed m (l.Ahead m owner)
  yours : x.yoursRaw.toNat = l.owed m (fun c => c.user = owner)
  behind : x.behindRaw.toNat = l.owed m (fun c => c.user ≠ owner ∧ ¬l.Ahead m owner c)
  entries : x.yourEntries.toNat = l.total (fun _ => 1) m (fun c => c.user = owner)
  inQueue : x.inQueue = true ↔ ∃ e ∈ l.entries, e.1.1 = m ∧ e.2.user = owner
  conserved : x.aheadRaw.toNat + x.yoursRaw.toNat + x.behindRaw.toNat = l.owed m (fun _ => True)

end QueueLedger

namespace Paper

variable (env : PaperEnv) (p : Paper)

@[simp] theorem queueOpen_markPaperHouseDirty (market : String) :
    (p.markPaperHouseDirty market).queueOpen = p.queueOpen := by
  unfold markPaperHouseDirty
  split_ifs <;> rfl

@[simp] theorem queueOpen_markPaperStakeDirty (market : String) :
    (p.markPaperStakeDirty market).queueOpen = p.queueOpen := by
  unfold markPaperStakeDirty
  split_ifs <;> rfl

@[simp] theorem queueOpen_applyPaperHouseAfter (market : String) (house : PaperHouseAfter) :
    (p.applyPaperHouseAfter market house).queueOpen = p.queueOpen := by
  unfold applyPaperHouseAfter
  rw [queueOpen_markPaperHouseDirty]

@[simp] theorem queueOpen_closePaperPosition (market : String) (position : UInt64)
    (ownerFallback : String) (closing : Closing) :
    (p.closePaperPosition env market position ownerFallback closing).queueOpen = p.queueOpen := by
  unfold closePaperPosition
  dsimp only
  rw [queueOpen_markPaperHouseDirty]
  cases p.positionsOpen.lookup (paperPositionKey market position) <;> rfl

theorem queueOpen_recordOracleMark (spotMarket : String) (e : OracleCommittedEvent) :
    (p.recordOracleMark env spotMarket e).queueOpen = p.queueOpen := by
  unfold recordOracleMark
  obtain ⟨dirty, hdirty⟩ := markPaperHouseDirtyForPriceMarket_eq env
    (normalizeSpotMarketKey env.sdk spotMarket) _
  dsimp only
  rw [hdirty]

theorem queueOpen_applySecondaryEvent (e : SecondaryEvent) :
    (p.applySecondaryEvent env e).queueOpen =
      match e with
      | .paperQueued market index user amount _ =>
          p.queueOpen.insert (paperQueueKey market index)
            ⟨market, index, userKey user, amount, env.stampMs⟩
      | .paperHarvested market index _ => p.queueOpen.erase (paperQueueKey market index)
      | _ => p.queueOpen := by
  unfold applySecondaryEvent
  cases e with
  | oracleCommitted contract e =>
      dsimp only
      split_ifs
      · rfl
      · exact queueOpen_recordOracleMark env p _ e
  | paperInstrumentAdded market instrument name priceMarket => rfl
  | paperOpened e => simp [indexPaperOpened, upsertPaperPositionOpen, applyPaperOiDelta,
      pushPaperOiHistory]
  | paperClosed e =>
      simp only [indexPaperClosed]
      split_ifs <;> simp [pushPaperActivity]
  | paperLiquidated e => simp [indexPaperLiquidated, pushPaperActivity]
  | paperQueued market index user amount house => simp [applyPaperQueued]
  | paperHarvested market index house => simp [applyPaperHarvested]
  | paperFeesPushed market stakerFee sweptStakers house =>
      simp only [applyPaperFeesPushedRewards]
      split_ifs <;> simp
  | paperClaimed market user reward =>
      simp only [applyPaperClaimedReward]
      split_ifs <;> simp
  | paperStaked market user amount => simp [pushPaperActivity]
  | paperUnstaked market user amount => simp [pushPaperActivity]

theorem paperQueueKey_eq (market : String) (index : UInt64) :
    paperQueueKey market index = positionKey (addrKey market, index) := rfl

structure Queues (l : QueueLedger) (p : Paper) : Prop where
  claims : ∀ id, p.queueOpen.lookup (positionKey id) = l.lookup id
  keys : ∀ key ∈ p.queueOpen, ∃ id, key = positionKey id
  placed : ∀ id c, l.lookup id = some c → id = (addrKey c.market, c.index)

theorem queues_empty : Queues ∅ {} where
  claims := fun _ => rfl
  keys := fun _ h => absurd h (AList.notMem_empty _)
  placed := fun _ _ h => nomatch h

variable {env p} {l : QueueLedger}

theorem queues_insert (h : Queues l p) {q : Paper} (c : PaperQueueClaim)
    (hq : q.queueOpen = p.queueOpen.insert (paperQueueKey c.market c.index) c) :
    Queues (l.insert (addrKey c.market, c.index) c) q := by
  constructor
  · intro id
    rw [hq, paperQueueKey_eq, Dict.lookup_insert_ite, Dict.lookup_insert_ite, h.claims]
    simp only [positionKey_inj]
  · intro key hkey
    rw [hq, AList.mem_insert] at hkey
    rcases hkey with rfl | hkey
    · exact ⟨_, paperQueueKey_eq _ _⟩
    · exact h.keys key hkey
  · intro id c' hc'
    rw [Dict.lookup_insert_ite] at hc'
    split_ifs at hc' with hid
    · cases hc'
      exact hid
    · exact h.placed id c' hc'

theorem queues_erase (h : Queues l p) {q : Paper} (market : String) (index : UInt64)
    (hq : q.queueOpen = p.queueOpen.erase (paperQueueKey market index)) :
    Queues (l.erase (addrKey market, index)) q := by
  constructor
  · intro id
    rw [hq, paperQueueKey_eq, Dict.lookup_erase_ite, Dict.lookup_erase_ite, h.claims]
    simp only [positionKey_inj]
  · intro key hkey
    rw [hq, AList.mem_erase] at hkey
    exact h.keys key hkey.2
  · intro id c' hc'
    rw [Dict.lookup_erase_ite] at hc'
    split_ifs at hc'
    exact h.placed id c' hc'

theorem Queues.congr (h : Queues l p) {q : Paper} (hq : q.queueOpen = p.queueOpen) :
    Queues l q := by
  constructor
  · rw [hq]
    exact h.claims
  · rw [hq]
    exact h.keys
  · exact h.placed

theorem queues_step (h : Queues l p) (s : PaperStep) : Queues (l.step s) (p.step s) := by
  obtain ⟨env, e⟩ := s
  have hqueue := queueOpen_applySecondaryEvent env p e
  unfold step
  cases e with
  | paperQueued market index user amount house =>
      exact queues_insert h ⟨market, index, userKey user, amount, env.stampMs⟩ hqueue
  | paperHarvested market index house => exact queues_erase h market index hqueue
  | oracleCommitted contract e => exact h.congr hqueue
  | paperInstrumentAdded market instrument name priceMarket => exact h.congr hqueue
  | paperOpened e => exact h.congr hqueue
  | paperClosed e => exact h.congr hqueue
  | paperLiquidated e => exact h.congr hqueue
  | paperFeesPushed market stakerFee sweptStakers house => exact h.congr hqueue
  | paperClaimed market user reward => exact h.congr hqueue
  | paperStaked market user amount => exact h.congr hqueue
  | paperUnstaked market user amount => exact h.congr hqueue

theorem queues_run (h : Queues l p) (steps : List PaperStep) :
    Queues (steps.foldl QueueLedger.step l) (steps.foldl step p) := by
  induction steps generalizing l p with
  | nil => exact h
  | cons s rest ih => exact ih (queues_step h s)

/-! ## Counting claims -/

/-- A sum over claims that fits is the sum. -/
theorem toNat_sumAmounts {claims : List PaperQueueClaim}
    (h : (claims.map fun c => c.amount.toNat).sum ≤ Word.u64Max) :
    (sumAmounts claims).toNat = (claims.map fun c => c.amount.toNat).sum := by
  have hfold : ∀ (claims : List PaperQueueClaim) (sum : UInt64),
      sum.toNat + (claims.map fun c => c.amount.toNat).sum ≤ Word.u64Max →
      (claims.foldl (fun sum c => sum + c.amount) sum).toNat =
        sum.toNat + (claims.map fun c => c.amount.toNat).sum := by
    intro claims
    induction claims with
    | nil => exact fun sum _ => rfl
    | cons c claims ih =>
        intro sum hle
        rw [List.map_cons, List.sum_cons] at hle ⊢
        have hadd : (sum + c.amount).toNat = sum.toNat + c.amount.toNat := by
          rw [UInt64.toNat_add]
          unfold Word.u64Max at hle
          omega
        rw [List.foldl_cons, ih _ (by omega), hadd]
        omega
  have hzero := hfold claims 0 (by simpa using h)
  simpa [sumAmounts] using hzero

theorem Queues.sum_claims (h : Queues l p) (market : String) (w : PaperQueueClaim → Nat)
    (P : PaperQueueClaim → Prop) [DecidablePred P] :
    (((p.paperQueueClaimsForMarket market).filter P).map w).sum =
      l.total w (addrKey market) P := by
  have hrows : (((p.paperQueueClaimsForMarket market).filter P).map w).Perm
      ((((p.queueOpen.entries.map Sigma.snd).filter
        fun c => addrKey c.market = addrKey market ∧ P c)).map w) := by
    refine List.Perm.map w ?_
    refine (List.Perm.filter _ (List.mergeSort_perm _ _)).trans ?_
    rw [List.filter_filter]
    refine List.Perm.of_eq (List.filter_congr fun c _ => ?_)
    simp [and_comm]
  rw [hrows.sum_eq, Dict.sum_filter_values fun c : PaperQueueClaim =>
    addrKey c.market = addrKey market ∧ P c]
  unfold QueueLedger.total
  apply Dict.sumOf_eq_sumOf positionKey
  · intro id _ id' _ heq
    exact positionKey_inj.mp heq
  · intro id c hc
    refine ⟨c, (h.claims id).trans hc, ?_⟩
    rw [h.placed id c hc]
  · intro key c hc hnone
    obtain ⟨id, rfl⟩ := h.keys key (Dict.mem_iff_lookup.mpr ⟨c, hc⟩)
    rw [h.claims] at hc
    exact absurd rfl (hnone id (Dict.mem_iff_lookup.mpr ⟨c, hc⟩))

theorem Queues.mem_claims (h : Queues l p) {market : String} {c : PaperQueueClaim} :
    c ∈ p.paperQueueClaimsForMarket market ↔ ∃ e ∈ l.entries, e.1.1 = addrKey market ∧ e.2 = c := by
  unfold paperQueueClaimsForMarket
  rw [List.mem_mergeSort, List.mem_filter, List.mem_map, decide_eq_true_eq]
  constructor
  · rintro ⟨⟨⟨key, c'⟩, hentry, rfl⟩, hmarket⟩
    have hlookup := Dict.mem_entries_iff.mp hentry
    obtain ⟨id, rfl⟩ := h.keys key (Dict.mem_iff_lookup.mpr ⟨_, hlookup⟩)
    rw [h.claims] at hlookup
    refine ⟨⟨id, c'⟩, Dict.mem_entries_iff.mpr hlookup, ?_, rfl⟩
    rw [h.placed id c' hlookup]
    exact hmarket
  · rintro ⟨⟨id, c'⟩, hentry, hmarket, rfl⟩
    have hlookup := Dict.mem_entries_iff.mp hentry
    refine ⟨⟨⟨positionKey id, c'⟩, Dict.mem_entries_iff.mpr ((h.claims id).trans hlookup), rfl⟩, ?_⟩
    rw [h.placed id c' hlookup] at hmarket
    exact hmarket

end Paper

namespace QueueLedger

variable {l : QueueLedger} {m owner : String} {w : PaperQueueClaim → Nat}
  {P Q : PaperQueueClaim → Prop} [DecidablePred P] [DecidablePred Q]

theorem total_congr (h : ∀ e ∈ l.entries, e.1.1 = m → (P e.2 ↔ Q e.2)) :
    l.total w m P = l.total w m Q := by
  apply Dict.sumOf_congr
  intro id c hc
  by_cases hm : id.1 = m
  · have hiff := h ⟨id, c⟩ (Dict.mem_entries_iff.mpr hc) hm
    simp only [hiff]
  · simp only [hm, false_and]

theorem total_mono (h : ∀ c, P c → Q c) : l.total w m P ≤ l.total w m Q := by
  apply Dict.sumOf_mono
  intro id c
  split_ifs with hP hQ
  · exact le_refl _
  · exact absurd ⟨hP.1, h c hP.2⟩ hQ
  · exact Nat.zero_le _
  · exact le_refl _

theorem total_eq_zero (h : ∀ e ∈ l.entries, e.1.1 = m → ¬P e.2) : l.total w m P = 0 := by
  apply Dict.sumOf_eq_zero
  intro id c hc
  exact if_neg fun hP => h ⟨id, c⟩ (Dict.mem_entries_iff.mpr hc) hP.1 hP.2

theorem total_split (Q : PaperQueueClaim → Prop) [DecidablePred Q] :
    l.total w m (fun c => P c ∧ Q c) + l.total w m (fun c => P c ∧ ¬Q c) = l.total w m P := by
  unfold total Dict.sumOf
  rw [← List.sum_map_add]
  congr 1
  apply List.map_congr_left
  intro e _
  by_cases hm : e.1.1 = m <;> by_cases hP : P e.2 <;> by_cases hQ : Q e.2 <;> simp [hm, hP, hQ]

theorem not_ahead_of_own {e : Sigma fun _ : String × UInt64 => PaperQueueClaim}
    (he : e ∈ l.entries) (hm : e.1.1 = m) (howner : e.2.user = owner) :
    ¬l.Ahead m owner e.2 := by
  intro hahead
  exact absurd (hahead.2 e he hm howner) (UInt64.lt_irrefl _)

theorem owed_parts (l : QueueLedger) (m owner : String) :
    l.owed m (l.Ahead m owner) + l.owed m (fun c => c.user = owner) +
        l.owed m (fun c => c.user ≠ owner ∧ ¬l.Ahead m owner c) =
      l.owed m fun _ => True := by
  have hown : l.owed m (fun c => True ∧ c.user = owner) = l.owed m fun c => c.user = owner :=
    total_congr fun _ _ _ => by simp
  have hsplit := total_split (l := l) (m := m) (w := fun c => c.amount.toNat)
    (P := fun _ => True) fun c => c.user = owner
  have hrest := total_split (l := l) (m := m) (w := fun c => c.amount.toNat)
    (P := fun c => c.user ≠ owner) (l.Ahead m owner)
  have hahead : l.owed m (fun c => c.user ≠ owner ∧ l.Ahead m owner c) =
      l.owed m (l.Ahead m owner) := by
    apply total_congr
    intro e he hm
    exact ⟨fun h => h.2, fun h => ⟨fun howner => not_ahead_of_own he hm howner h, h⟩⟩
  have hothers : l.owed m (fun c => True ∧ ¬c.user = owner) = l.owed m fun c => c.user ≠ owner :=
    total_congr fun _ _ _ => by simp
  unfold owed at *
  omega

end QueueLedger

namespace Paper

variable {p : Paper} {l : QueueLedger}

/-- The first number of an owner with claims is below those of the others behind it. -/
theorem Queues.ahead_iff (h : Queues l p) {market owner : String} {first : UInt64}
    (hfirst : (((p.paperQueueClaimsForMarket market).filter fun c => c.user = owner).map
      PaperQueueClaim.index).min? = some first) (c : PaperQueueClaim) :
    l.Ahead (addrKey market) owner c ↔ c.index < first := by
  have hmin := List.min?_eq_some_iff.mp hfirst
  obtain ⟨own, hown, hindex⟩ := List.mem_map.mp hmin.1
  rw [List.mem_filter, decide_eq_true_eq, h.mem_claims] at hown
  obtain ⟨⟨e, he, hm, rfl⟩, howner⟩ := hown
  constructor
  · intro hahead
    rw [← hindex]
    exact hahead.2 e he hm howner
  · intro hlt
    refine ⟨⟨e, he, hm, howner⟩, ?_⟩
    intro e' he' hm' howner'
    have hle : first ≤ e'.2.index := by
      refine hmin.2 _ (List.mem_map.mpr ⟨e'.2, ?_, rfl⟩)
      rw [List.mem_filter, decide_eq_true_eq, h.mem_claims]
      exact ⟨⟨e', he', hm', rfl⟩, howner'⟩
    exact UInt64.lt_of_lt_of_le hlt hle

/-- The placement that the index shows is that of the ledger. -/
theorem Queues.places (h : Queues l p) (market owner : String) (hfits : l.Fits (addrKey market)) :
    l.Places (addrKey market) (userKey owner) (p.paperQueuePlacement market owner) := by
  have hsum : ∀ (P : PaperQueueClaim → Prop) [DecidablePred P],
      (sumAmounts ((p.paperQueueClaimsForMarket market).filter P)).toNat =
        l.owed (addrKey market) P := by
    intro P _
    have hle : l.owed (addrKey market) P ≤ Word.u64Max :=
      (QueueLedger.total_mono fun _ _ => trivial).trans hfits.owed
    rw [toNat_sumAmounts] <;> rw [h.sum_claims market]
    · rfl
    · exact hle
  have htotal : (sumAmounts (p.paperQueueClaimsForMarket market)).toNat =
      l.owed (addrKey market) fun _ => True := by
    rw [← hsum]
    simp
  have hparts := QueueLedger.owed_parts l (addrKey market) (userKey owner)
  have hyours := hsum fun c => c.user = userKey owner
  have hcount : ((p.paperQueueClaimsForMarket market).filter fun c => c.user = userKey owner).length =
      l.total (fun _ => 1) (addrKey market) fun c => c.user = userKey owner := by
    rw [← h.sum_claims market]
    simp
  have hbound : l.total (fun _ => 1) (addrKey market) (fun c => c.user = userKey owner) < 2 ^ 32 :=
    lt_of_le_of_lt (QueueLedger.total_mono fun _ _ => trivial) hfits.count
  have hentries : (p.paperQueuePlacement market owner).yourEntries.toNat =
      l.total (fun _ => 1) (addrKey market) fun c => c.user = userKey owner := by
    change (UInt32.ofNat ((p.paperQueueClaimsForMarket market).filter
      fun c => c.user = userKey owner).length).toNat = _
    rw [hcount, UInt32.toNat_ofNat']
    exact Nat.mod_eq_of_lt hbound
  have hqueued : (∃ e ∈ l.entries, e.1.1 = addrKey market ∧ e.2.user = userKey owner) ↔
      (p.paperQueueClaimsForMarket market).filter (fun c => c.user = userKey owner) ≠ [] := by
    simp only [ne_eq, List.filter_eq_nil_iff, decide_eq_true_eq, not_forall, not_not, h.mem_claims]
    constructor
    · rintro ⟨e, he, hm, howner⟩
      exact ⟨e.2, ⟨e, he, hm, rfl⟩, howner⟩
    · rintro ⟨_, ⟨e, he, hm, rfl⟩, howner⟩
      exact ⟨e, he, hm, howner⟩
  have hin : (p.paperQueuePlacement market owner).inQueue = true ↔
      ∃ e ∈ l.entries, e.1.1 = addrKey market ∧ e.2.user = userKey owner := by
    change decide (0 < (p.paperQueuePlacement market owner).yourEntries) = true ↔ _
    rw [decide_eq_true_eq, hqueued, UInt32.lt_iff_toNat_lt, hentries, ← hcount, UInt32.toNat_zero,
      List.length_pos_iff]
  have hplaced : (p.paperQueuePlacement market owner).aheadRaw.toNat =
        l.owed (addrKey market) (l.Ahead (addrKey market) (userKey owner)) ∧
      (p.paperQueuePlacement market owner).behindRaw.toNat = l.owed (addrKey market)
        (fun c => c.user ≠ userKey owner ∧ ¬l.Ahead (addrKey market) (userKey owner) c) := by
    unfold paperQueuePlacement
    dsimp only
    cases hfirst : (((p.paperQueueClaimsForMarket market).filter
      fun c => c.user = userKey owner).map PaperQueueClaim.index).min? with
    | none =>
        rw [List.min?_eq_none_iff, List.map_eq_nil_iff] at hfirst
        have hnone : ¬∃ e ∈ l.entries, e.1.1 = addrKey market ∧ e.2.user = userKey owner := by
          rw [hqueued, hfirst]
          simp
        have hahead : l.owed (addrKey market) (l.Ahead (addrKey market) (userKey owner)) = 0 :=
          QueueLedger.total_eq_zero fun e _ _ hahead => hnone hahead.1
        have hown : l.owed (addrKey market) (fun c => c.user = userKey owner) = 0 :=
          QueueLedger.total_eq_zero fun e he hm howner => hnone ⟨e, he, hm, howner⟩
        dsimp only
        rw [htotal, hahead, UInt64.toNat_zero]
        omega
    | some first =>
        have hahead : l.owed (addrKey market) (fun c => c.index < first) =
            l.owed (addrKey market) (l.Ahead (addrKey market) (userKey owner)) :=
          QueueLedger.total_congr fun e _ _ => (h.ahead_iff hfirst e.2).symm
        have hraw := hsum fun c => c.index < first
        dsimp only
        rw [Word.toNat_satSub, Word.toNat_satSub, htotal, hraw, hyours, hahead]
        omega
  refine ⟨hplaced.1, hyours, hplaced.2, hentries, hin, ?_⟩
  rw [hplaced.1, hplaced.2, ← hparts]
  congr 2

/-- After every sequence of events, where what is owed by the house fits into a word: the
placement of an owner counts what is owed ahead of the first claim of the owner, to the owner,
and to the rest, and the three are everything that is owed. -/
theorem queuePlacement_of_run (steps : List PaperStep) (market owner : String)
    (hfits : (steps.foldl QueueLedger.step ∅).Fits (addrKey market)) :
    (steps.foldl QueueLedger.step ∅).Places (addrKey market) (userKey owner)
      ((steps.foldl step {}).paperQueuePlacement market owner) :=
  (queues_run queues_empty steps).places market owner hfits

end Paper

/-! ## Waiting -/

namespace QueueLedger

variable {l : QueueLedger} {m owner : String} {first : UInt64}

def First (m owner : String) (first : UInt64) (l : QueueLedger) : Prop :=
  (∃ e ∈ l.entries, e.1 = (m, first) ∧ e.2.user = owner) ∧
    ∀ e ∈ l.entries, e.1.1 = m → e.2.user = owner → first ≤ e.1.2

instance : Decidable (First m owner first l) := by
  unfold First
  infer_instance

/-- A step that goes behind a claim changes nothing up to it but what it harvests. -/
theorem lookup_step {s : PaperStep} (h : s.event.GoesBehind (m, first)) {i : UInt64}
    (hi : i ≤ first) :
    (l.step s).lookup (m, i) = if s.event.Harvests (m, i) then none else l.lookup (m, i) := by
  obtain ⟨env, e⟩ := s
  unfold step
  cases e with
  | paperQueued market index user amount house =>
      have hne : (m, i) ≠ (addrKey market, index) := by
        intro heq
        obtain ⟨hm, hindex⟩ := Prod.mk.inj heq
        have hlt : first < index := h hm.symm
        rw [hindex] at hi
        exact UInt64.lt_irrefl _ (UInt64.lt_of_lt_of_le hlt hi)
      dsimp only
      rw [Dict.lookup_insert_ite, if_neg hne]
      rfl
  | paperHarvested market index house =>
      dsimp only
      rw [Dict.lookup_erase_ite]
      by_cases hid : (m, i) = (addrKey market, index)
      · rw [if_pos hid]
        exact (if_pos hid).symm
      · rw [if_neg hid]
        exact (if_neg hid).symm
  | oracleCommitted contract e => rfl
  | paperInstrumentAdded market instrument name priceMarket => rfl
  | paperOpened e => rfl
  | paperClosed e => rfl
  | paperLiquidated e => rfl
  | paperFeesPushed market stakerFee sweptStakers house => rfl
  | paperClaimed market user reward => rfl
  | paperStaked market user amount => rfl
  | paperUnstaked market user amount => rfl

theorem lookup_run {steps : List PaperStep} (h : ∀ s ∈ steps, s.event.GoesBehind (m, first))
    {i : UInt64} (hi : i ≤ first) :
    (steps.foldl step l).lookup (m, i) =
      if ∃ s ∈ steps, s.event.Harvests (m, i) then none else l.lookup (m, i) := by
  induction steps generalizing l with
  | nil => simp
  | cons s rest ih =>
      rw [List.foldl_cons, ih fun s' hs' => h s' (List.mem_cons_of_mem s hs'),
        lookup_step (h s List.mem_cons_self) hi]
      by_cases hs : s.event.Harvests (m, i) <;>
        by_cases hrest : ∃ s' ∈ rest, s'.event.Harvests (m, i) <;> simp [hs, hrest]

/-- The claim of the owner waits through the run, and is still the first. -/
theorem First.run (h : First m owner first l) {steps : List PaperStep}
    (hbehind : ∀ s ∈ steps, s.event.GoesBehind (m, first)) :
    First m owner first (steps.foldl step l) := by
  obtain ⟨⟨⟨_, c⟩, hc, rfl, howner⟩, hfirst⟩ := h
  rw [Dict.mem_entries_iff] at hc
  have hkept : ¬∃ s ∈ steps, s.event.Harvests (m, first) := by
    rintro ⟨⟨env, e⟩, hs, hharvests⟩
    cases e with
    | paperHarvested market index house => exact hbehind _ hs hharvests
    | _ => exact hharvests
  constructor
  · refine ⟨⟨(m, first), c⟩, Dict.mem_entries_iff.mpr ?_, rfl, howner⟩
    rw [lookup_run hbehind UInt64.le_rfl, if_neg hkept, hc]
  · rintro ⟨⟨_, i⟩, c'⟩ he rfl howner'
    have hc' := Dict.mem_entries_iff.mp he
    by_contra hlt
    rw [UInt64.not_le] at hlt
    rw [lookup_run hbehind (UInt64.le_of_lt hlt)] at hc'
    split_ifs at hc'
    exact UInt64.not_lt.mpr (hfirst ⟨_, c'⟩ (Dict.mem_entries_iff.mpr hc') rfl howner') hlt

end QueueLedger

namespace Paper

variable {p : Paper} {l : QueueLedger} {market owner : String} {first : UInt64}

theorem Queues.owed_ahead (h : Queues l p) {m : String} (hfirst : l.First m owner first)
    (P : PaperQueueClaim → Prop) [DecidablePred P] :
    l.owed m (fun c => l.Ahead m owner c ∧ P c) = l.owed m fun c => c.index < first ∧ P c := by
  obtain ⟨⟨⟨_, own⟩, hentry, rfl, howner⟩, hmin⟩ := hfirst
  have hown := Dict.mem_entries_iff.mp hentry
  have hindex : own.index = first := (congrArg Prod.snd (h.placed _ _ hown)).symm
  apply QueueLedger.total_congr
  intro e _ _
  refine and_congr_left fun _ => ?_
  constructor
  · intro hahead
    rw [← hindex]
    exact hahead.2 ⟨(m, first), own⟩ hentry rfl howner
  · intro hlt
    refine ⟨⟨⟨(m, first), own⟩, hentry, rfl, howner⟩, ?_⟩
    rintro ⟨⟨m', i⟩, c⟩ he rfl hc
    have hlookup := Dict.mem_entries_iff.mp he
    have hi : c.index = i := (congrArg Prod.snd (h.placed _ _ hlookup)).symm
    dsimp only
    rw [hi]
    exact UInt64.lt_of_lt_of_le hlt (hmin _ he rfl hc)

/-- What has a smaller number after the run is what had one before and was not harvested. -/
theorem Queues.owed_run (h : Queues l p) {m : String} {steps : List PaperStep}
    (hbehind : ∀ s ∈ steps, s.event.GoesBehind (m, first)) :
    (steps.foldl QueueLedger.step l).owed m (fun c => c.index < first) =
      l.owed m fun c => c.index < first ∧ ¬∃ s ∈ steps, s.event.Harvests (m, c.index) := by
  have hafter := queues_run h steps
  unfold QueueLedger.owed QueueLedger.total
  apply Dict.sumOf_eq_of_lookup
  rintro ⟨m', i⟩
  by_cases hm : m' = m
  · subst hm
    by_cases hi : i < first
    · rw [QueueLedger.lookup_run hbehind (UInt64.le_of_lt hi)]
      cases hc : l.lookup (m', i) with
      | none => split_ifs <;> rfl
      | some c =>
          have hindex : c.index = i := (congrArg Prod.snd (h.placed _ _ hc)).symm
          by_cases hharvested : ∃ s ∈ steps, s.event.Harvests (m', i)
          · simp only [hindex, hi, hharvested, Option.elim, if_true, not_true_eq_false, and_false,
              if_false]
          · simp only [hindex, hi, hharvested, Option.elim, if_false, not_false_eq_true, and_self]
    · have hzero : ∀ (l : QueueLedger) (p : Paper), Queues l p →
          ∀ (P : PaperQueueClaim → Prop) [DecidablePred P], ((l.lookup (m', i)).elim 0 fun c =>
            if m' = m' ∧ c.index < first ∧ P c then c.amount.toNat else 0) = 0 := by
        intro l p h P _
        cases hc : l.lookup (m', i) with
        | none => rfl
        | some c =>
            have hindex : c.index = i := (congrArg Prod.snd (h.placed _ _ hc)).symm
            simp [hindex, hi]
      have hleft := hzero _ _ hafter fun _ => True
      have hright := hzero _ _ h fun c => ¬∃ s ∈ steps, s.event.Harvests (m', c.index)
      simp only [and_true] at hleft
      rw [hright]
      simpa using hleft
  · have hzero : ∀ (c : Option PaperQueueClaim) (P : PaperQueueClaim → Prop) [DecidablePred P],
        (c.elim 0 fun c => if m' = m ∧ P c then c.amount.toNat else 0) = 0 := by
      intro c P _
      cases c with
      | none => rfl
      | some c => exact if_neg fun hc => hm hc.1
    exact (hzero _ _).trans (hzero _ _).symm

/-- While the first claim of an owner waits, and claims only join behind it: what is shown as
ahead of the owner is what was ahead before, less what has been harvested of it. -/
theorem aheadRaw_of_waiting (past steps : List PaperStep) (market owner : String) (first : UInt64)
    (hfirst : (past.foldl QueueLedger.step ∅).First (addrKey market) (userKey owner) first)
    (hbehind : ∀ s ∈ steps, s.event.GoesBehind (addrKey market, first))
    (hfits : (past.foldl QueueLedger.step ∅).Fits (addrKey market))
    (hfits' : ((past ++ steps).foldl QueueLedger.step ∅).Fits (addrKey market)) :
    (((past ++ steps).foldl step {}).paperQueuePlacement market owner).aheadRaw.toNat +
        (past.foldl QueueLedger.step ∅).owed (addrKey market) (fun c => c.index < first ∧
          ∃ s ∈ steps, s.event.Harvests (addrKey market, c.index)) =
      ((past.foldl step {}).paperQueuePlacement market owner).aheadRaw.toNat := by
  have hbefore := queues_run queues_empty past
  have hafter := queues_run queues_empty (past ++ steps)
  have hwaits : ((past ++ steps).foldl QueueLedger.step ∅).First (addrKey market) (userKey owner)
      first := by
    rw [List.foldl_append]
    exact hfirst.run hbehind
  have hahead := hbefore.owed_ahead hfirst fun _ => True
  have hahead' := hafter.owed_ahead hwaits fun _ => True
  simp only [and_true] at hahead hahead'
  have hrun := hbefore.owed_run hbehind
  rw [← List.foldl_append] at hrun
  have hsplit := QueueLedger.total_split (l := past.foldl QueueLedger.step ∅) (m := addrKey market)
    (w := fun c => c.amount.toNat) (P := fun c => c.index < first)
    fun c => ∃ s ∈ steps, s.event.Harvests (addrKey market, c.index)
  rw [(hafter.places market owner hfits').ahead, (hbefore.places market owner hfits).ahead, hahead,
    hahead', hrun]
  unfold QueueLedger.owed
  omega

end Paper

namespace Sample

def queuedClaim (index : UInt64) (user : String) (amount : UInt64) : PaperStep :=
  ⟨paperEnv, .paperQueued paperMarket index user amount {}⟩

def queueRun : List PaperStep :=
  [queuedClaim 1 "0xAA" 5, queuedClaim 2 account 7, queuedClaim 3 "0xAA" 2]

/-- The first claim is paid, and one more joins. -/
def queueMoves : List PaperStep :=
  [⟨paperEnv, .paperHarvested paperMarket 1 {}⟩, queuedClaim 4 "0xbb" 9]

theorem fits_queueRun : (queueRun.foldl QueueLedger.step ∅).Fits (addrKey paperMarket) :=
  ⟨by decide +kernel, by decide +kernel⟩

theorem fits_queueMoves :
    ((queueRun ++ queueMoves).foldl QueueLedger.step ∅).Fits (addrKey paperMarket) :=
  ⟨by decide +kernel, by decide +kernel⟩

theorem queuePlacement_queueRun :
    (queueRun.foldl QueueLedger.step ∅).Places (addrKey paperMarket) (userKey account)
      ((queueRun.foldl Paper.step {}).paperQueuePlacement paperMarket account) :=
  Paper.queuePlacement_of_run queueRun paperMarket account fits_queueRun

theorem aheadRaw_queueMoves :
    (((queueRun ++ queueMoves).foldl Paper.step {}).paperQueuePlacement
        paperMarket account).aheadRaw.toNat +
        (queueRun.foldl QueueLedger.step ∅).owed (addrKey paperMarket) (fun c => c.index < 2 ∧
          ∃ s ∈ queueMoves, s.event.Harvests (addrKey paperMarket, c.index)) =
      ((queueRun.foldl Paper.step {}).paperQueuePlacement paperMarket account).aheadRaw.toNat :=
  Paper.aheadRaw_of_waiting queueRun queueMoves paperMarket account 2 (by decide +kernel)
    (by decide +kernel) fits_queueRun fits_queueMoves

end Sample

end ClobIndexer
