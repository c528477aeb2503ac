import ClobIndexer.HouseQueries
import ClobIndexer.PaperStakeView
/-!
# The rings of samples

The four rings of `src/indexer/index_state.rs`: oracle marks, and the open interest, the
house and the stake of a paper market.  Each has a push loop of its own, and two kinds of
queries read them: one slices a filtered copy from its end, the other walks the ring
backwards and turns the result around.
-/

namespace ClobIndexer

open Lib

/-! ## Queries -/

namespace Paper

def oracleMarkHistory (sdk : Sdk) (spotMarket : String) (fromMs : Option UInt64) (limit : Nat)
    (p : Paper) : List OracleMarkTick :=
  let key := normalizeSpotMarketKey sdk spotMarket
  let limit := min (max limit 1) oracleHistoryLimit
  match p.oracleHistory.lookup key with
  | none => []
  | some hist =>
      let filtered := hist.filter fun t => atOrAfter fromMs t.tsMs
      if filtered.length ≤ limit then filtered else filtered.drop (filtered.length - limit)

def paperOiHistory (market : String) (instrument : UInt32) (fromMs : Option UInt64) (limit : Nat)
    (p : Paper) : List PaperOiTick :=
  let key := paperInstrKey market instrument
  let limit := min (max limit 1) paperOiHistoryLimit
  match p.oiHistory.lookup key with
  | none => []
  | some hist =>
      let filtered := hist.filter fun t => atOrAfter fromMs t.tsMs
      if filtered.length ≤ limit then filtered else filtered.drop (filtered.length - limit)

end Paper

/-! ## Pushes -/

inductive HistoryPush where
  | oracle (env : PaperEnv) (spotMarket : String) (e : OracleCommittedEvent)
  | oi (env : PaperEnv) (market : String) (instrument : UInt32) (long short : UInt64)
  | house (market : String) (tsMs : UInt64) (view : PaperHouseView)
  | stake (market : String) (tick : PaperStakeTick)

def HistoryPush.apply (p : Paper) : HistoryPush → Paper
  | oracle env spotMarket e => p.recordOracleMark env spotMarket e
  | oi env market instrument long short => p.pushPaperOiHistory env market instrument long short
  | house market tsMs view => p.pushPaperHouseHistory market tsMs view
  | stake market tick => p.recordPaperStakeTick market tick

/-- One of the four kinds of rings: where they are kept, which pushes are for them, and how
they are read.  `A` is what a caller names a ring by. -/
structure HistoryRing (A T : Type) where
  stamp : T → UInt64
  limit : Nat
  key : A → String
  rings : Paper → Dict String (List T)
  /-- the key and the sample of a push -/
  sample : HistoryPush → Option (String × T)
  /-- what a query with this lower bound reads -/
  reads : A → Option UInt64 → Paper → Paper
  history : A → Option UInt64 → Nat → Paper → List T

namespace HistoryRing

def oracleMarks (sdk : Sdk) : HistoryRing String OracleMarkTick where
  stamp := OracleMarkTick.tsMs
  limit := oracleHistoryLimit
  key := normalizeSpotMarketKey sdk
  rings := Paper.oracleHistory
  sample
    | .oracle env spotMarket e =>
        some (normalizeSpotMarketKey env.sdk spotMarket,
          ⟨env.stampMs, e.round, e.oraclePrice, e.markPrice, env.blockNum⟩)
    | _ => none
  reads _ _ p := p
  history spotMarket fromMs limit p := p.oracleMarkHistory sdk spotMarket fromMs limit

def paperOi : HistoryRing (String × UInt32) PaperOiTick where
  stamp := PaperOiTick.tsMs
  limit := paperOiHistoryLimit
  key a := paperInstrKey a.1 a.2
  rings := Paper.oiHistory
  sample
    | .oi env market instrument long short =>
        some (paperInstrKey market instrument, ⟨env.stampMs, long, short⟩)
    | _ => none
  reads _ _ p := p
  history a fromMs limit p := p.paperOiHistory a.1 a.2 fromMs limit

def houseTick (tsMs : UInt64) (view : PaperHouseView) : PaperHouseTick :=
  ⟨tsMs, view.houseFundsRaw, view.lpBalanceRaw, view.openHousePnlRaw, view.queueDebtRaw⟩

/-- A push for no market is not taken; a query may load a ring that is not there. -/
def paperHouse (persist : Option StateStore) : HistoryRing String PaperHouseTick where
  stamp := PaperHouseTick.tsMs
  limit := paperHouseHistoryLimit
  key := addrKey
  rings := Paper.houseHistory
  sample
    | .house market tsMs view =>
        if addrKey market = "" then none else some (addrKey market, houseTick tsMs view)
    | _ => none
  reads market fromMs p := p.withHouseRing persist market fromMs
  history market fromMs limit p := (p.paperHouseHistory persist market ⟨fromMs, limit⟩).1

def paperStake : HistoryRing String PaperStakeTick where
  stamp := PaperStakeTick.tsMs
  limit := paperStakeHistoryLimit
  key := addrKey
  rings := Paper.stakeHistory
  sample
    | .stake market tick => some (addrKey market, tick)
    | _ => none
  reads _ _ p := p
  history market fromMs limit p := p.paperStakeHistory market fromMs limit

variable {A T : Type} (r : HistoryRing A T)

def ring (p : Paper) (key : String) : List T := ((r.rings p).lookup key).getD []

def sampleFor (key : String) (push : HistoryPush) : Option T :=
  (r.sample push).bind fun s => if s.1 = key then some s.2 else none

def samples (key : String) (pushes : List HistoryPush) : List T :=
  pushes.filterMap (r.sampleFor key)

def newest (fromMs : Option UInt64) (limit : Nat) (entries : List T) : List T :=
  (entries.filter fun t => fromMs.all fun f => f ≤ r.stamp t).rtake (min (max limit 1) r.limit)

/-- Where stamps never go back, a ring that starts empty ends with the last sample of each of
the newest stamps, and its stamps increase. -/
def KeepsNewest : Prop :=
  ∀ (p : Paper) (a : A) (pushes : List HistoryPush), r.key a ∉ r.rings p →
    ((r.samples (r.key a) pushes).Pairwise fun x y => r.stamp x ≤ r.stamp y) →
    r.ring (pushes.foldl HistoryPush.apply p) (r.key a) =
        (Ring.lastOfEach r.stamp (r.samples (r.key a) pushes)).rtake r.limit ∧
      (r.ring (pushes.foldl HistoryPush.apply p) (r.key a)).Pairwise fun x y =>
        r.stamp x < r.stamp y

/-- A query answers with the newest entries of the ring, and leaves a ring that is there. -/
def AnswersNewest : Prop :=
  ∀ (p : Paper) (a : A) (fromMs : Option UInt64) (limit : Nat),
    r.history a fromMs limit p = r.newest fromMs limit (r.ring (r.reads a fromMs p) (r.key a)) ∧
      (r.key a ∈ r.rings p → r.reads a fromMs p = p)

def Pushed : Prop :=
  ∀ (p : Paper) (push : HistoryPush) (key : String), (r.ring p key).length ≤ r.limit →
    r.ring (push.apply p) key =
      match r.sampleFor key push with
      | some x => Ring.push r.stamp r.limit x (r.ring p key)
      | none => r.ring p key

end HistoryRing

/-! ## Runs of pushes -/

section

variable {A T : Type} {r : HistoryRing A T}

/-- A ring within its limit stays so, and holds what the pushes under its key make of it. -/
theorem ring_foldl_apply (h : r.Pushed) (pushes : List HistoryPush) (p : Paper) (key : String)
    (hlength : (r.ring p key).length ≤ r.limit) :
    r.ring (pushes.foldl HistoryPush.apply p) key =
      (r.samples key pushes).foldl (fun ring x => Ring.push r.stamp r.limit x ring)
        (r.ring p key) := by
  induction pushes generalizing p with
  | nil => rfl
  | cons push pushes ih =>
      have hstep := h p push key hlength
      rw [List.foldl_cons]
      unfold HistoryRing.samples
      cases hsample : r.sampleFor key push with
      | none =>
          rw [hsample] at hstep
          rw [List.filterMap_cons_none hsample, ih _ (hstep ▸ hlength), hstep]
          rfl
      | some x =>
          rw [hsample] at hstep
          rw [List.filterMap_cons_some hsample, List.foldl_cons,
            ih _ (hstep ▸ Ring.length_push_le _ x _), hstep]
          rfl

theorem ring_of_notMem {p : Paper} {key : String} (h : key ∉ r.rings p) : r.ring p key = [] := by
  unfold HistoryRing.ring
  rw [AList.lookup_eq_none.mpr h, Option.getD_none]

theorem keepsNewest_of_pushed (h : r.Pushed) : r.KeepsNewest := by
  intro p a pushes hnone hstamps
  have hempty := ring_of_notMem hnone
  have hring : r.ring (pushes.foldl HistoryPush.apply p) (r.key a) =
      (Ring.lastOfEach r.stamp (r.samples (r.key a) pushes)).rtake r.limit := by
    rw [ring_foldl_apply h pushes p (r.key a) (hempty ▸ Nat.zero_le _), hempty,
      Ring.foldl_push hstamps]
  refine ⟨hring, ?_⟩
  rw [hring]
  exact (Ring.lastOfEach_increasing hstamps).sublist (List.drop_sublist _ _)

variable (r) (p : Paper) (push : HistoryPush) (key : String)

theorem ring_of_same (hrings : r.rings (push.apply p) = r.rings p)
    (hsample : r.sample push = none) :
    r.ring (push.apply p) key =
      match r.sampleFor key push with
      | some x => Ring.push r.stamp r.limit x (r.ring p key)
      | none => r.ring p key := by
  unfold HistoryRing.sampleFor HistoryRing.ring
  rw [hrings, hsample, Option.bind_none]

theorem ring_of_insert {key' : String} {x : T} {ring : List T}
    (hrings : r.rings (push.apply p) = (r.rings p).insert key' ring)
    (hsample : r.sample push = some (key', x))
    (hring : key' = key → ring = Ring.push r.stamp r.limit x (r.ring p key)) :
    r.ring (push.apply p) key =
      match r.sampleFor key push with
      | some x => Ring.push r.stamp r.limit x (r.ring p key)
      | none => r.ring p key := by
  unfold HistoryRing.sampleFor
  rw [hsample, Option.bind_some]
  by_cases hkey : key' = key
  · rw [if_pos hkey]
    unfold HistoryRing.ring at hring ⊢
    rw [hrings, hkey, AList.lookup_insert, Option.getD_some]
    exact hring hkey
  · rw [if_neg hkey]
    unfold HistoryRing.ring
    rw [hrings, AList.lookup_insert_ne (Ne.symm hkey)]

end

/-! ## The four rings -/

namespace HistoryRing

theorem rings_recordOracleMark (env : PaperEnv) (spotMarket : String) (e : OracleCommittedEvent)
    (p : Paper) :
    (p.recordOracleMark env spotMarket e).oracleHistory =
        p.oracleHistory.insert (normalizeSpotMarketKey env.sdk spotMarket)
          (Ring.push OracleMarkTick.tsMs oracleHistoryLimit
            ⟨env.stampMs, e.round, e.oraclePrice, e.markPrice, env.blockNum⟩
            ((p.oracleHistory.lookup (normalizeSpotMarketKey env.sdk spotMarket)).getD [])) ∧
      (p.recordOracleMark env spotMarket e).oiHistory = p.oiHistory ∧
      (p.recordOracleMark env spotMarket e).houseHistory = p.houseHistory ∧
      (p.recordOracleMark env spotMarket e).stakeHistory = p.stakeHistory := by
  unfold Paper.recordOracleMark
  obtain ⟨dirty, hdirty⟩ := Paper.markPaperHouseDirtyForPriceMarket_eq env
    (normalizeSpotMarketKey env.sdk spotMarket) _
  rw [hdirty]
  exact ⟨rfl, rfl, rfl, rfl⟩

theorem rings_pushPaperOiHistory (env : PaperEnv) (market : String) (instrument : UInt32)
    (long short : UInt64) (p : Paper) :
    (p.pushPaperOiHistory env market instrument long short).oiHistory =
        p.oiHistory.insert (paperInstrKey market instrument)
          (Ring.push PaperOiTick.tsMs paperOiHistoryLimit ⟨env.stampMs, long, short⟩
            ((p.oiHistory.lookup (paperInstrKey market instrument)).getD [])) ∧
      (p.pushPaperOiHistory env market instrument long short).oracleHistory = p.oracleHistory ∧
      (p.pushPaperOiHistory env market instrument long short).houseHistory = p.houseHistory ∧
      (p.pushPaperOiHistory env market instrument long short).stakeHistory = p.stakeHistory := by
  unfold Paper.pushPaperOiHistory
  exact ⟨rfl, rfl, rfl, rfl⟩

theorem houseHistory_pushPaperHouseHistory (market : String) (tsMs : UInt64)
    (view : PaperHouseView) (p : Paper) :
    (p.pushPaperHouseHistory market tsMs view).houseHistory =
      if addrKey market = "" then p.houseHistory
      else
        p.houseHistory.insert (addrKey market)
          (Ring.push PaperHouseTick.tsMs paperHouseHistoryLimit (houseTick tsMs view)
            ((p.houseHistory.lookup (addrKey market)).getD [])) := by
  unfold Paper.pushPaperHouseHistory
  dsimp only
  split_ifs <;> rfl

theorem rings_pushPaperHouseHistory (market : String) (tsMs : UInt64) (view : PaperHouseView)
    (p : Paper) :
    (p.pushPaperHouseHistory market tsMs view).oracleHistory = p.oracleHistory ∧
      (p.pushPaperHouseHistory market tsMs view).oiHistory = p.oiHistory ∧
      (p.pushPaperHouseHistory market tsMs view).stakeHistory = p.stakeHistory := by
  unfold Paper.pushPaperHouseHistory
  dsimp only
  split_ifs <;> exact ⟨rfl, rfl, rfl⟩

/-- A stake sample is put on the ring of its market.  The path that overwrites the newest
sample does not trim. -/
theorem rings_recordPaperStakeTick (market : String) (tick : PaperStakeTick) (p : Paper) :
    (((p.stakeHistory.lookup (addrKey market)).getD []).length ≤ paperStakeHistoryLimit →
      (p.recordPaperStakeTick market tick).stakeHistory =
        p.stakeHistory.insert (addrKey market)
          (Ring.push PaperStakeTick.tsMs paperStakeHistoryLimit tick
            ((p.stakeHistory.lookup (addrKey market)).getD []))) ∧
      (p.recordPaperStakeTick market tick).oracleHistory = p.oracleHistory ∧
      (p.recordPaperStakeTick market tick).oiHistory = p.oiHistory ∧
      (p.recordPaperStakeTick market tick).houseHistory = p.houseHistory := by
  unfold Paper.recordPaperStakeTick
  refine ⟨fun hlength => ?_, rfl, rfl, rfl⟩
  dsimp only
  split_ifs with hlast
  · rw [Ring.record_eq_push hlength hlast]
  · rfl

theorem oracleMarks_pushed (sdk : Sdk) : (oracleMarks sdk).Pushed := by
  intro p push key _
  cases push with
  | oracle env spotMarket e =>
      refine ring_of_insert (oracleMarks sdk) p (.oracle env spotMarket e) key
        (rings_recordOracleMark env spotMarket e p).1 rfl fun hkey => ?_
      rw [← hkey]
      rfl
  | oi env market instrument long short =>
      refine ring_of_same (oracleMarks sdk) p (.oi env market instrument long short) key ?_ rfl
      simp only [oracleMarks, HistoryPush.apply, rings_pushPaperOiHistory]
  | house market tsMs view =>
      refine ring_of_same (oracleMarks sdk) p (.house market tsMs view) key ?_ rfl
      simp only [oracleMarks, HistoryPush.apply, rings_pushPaperHouseHistory]
  | stake market tick =>
      refine ring_of_same (oracleMarks sdk) p (.stake market tick) key ?_ rfl
      simp only [oracleMarks, HistoryPush.apply, rings_recordPaperStakeTick]

theorem paperOi_pushed : paperOi.Pushed := by
  intro p push key _
  cases push with
  | oracle env spotMarket e =>
      refine ring_of_same paperOi p (.oracle env spotMarket e) key ?_ rfl
      simp only [paperOi, HistoryPush.apply, rings_recordOracleMark]
  | oi env market instrument long short =>
      refine ring_of_insert paperOi p (.oi env market instrument long short) key
        (rings_pushPaperOiHistory env market instrument long short p).1 rfl fun hkey => ?_
      rw [← hkey]
      rfl
  | house market tsMs view =>
      refine ring_of_same paperOi p (.house market tsMs view) key ?_ rfl
      simp only [paperOi, HistoryPush.apply, rings_pushPaperHouseHistory]
  | stake market tick =>
      refine ring_of_same paperOi p (.stake market tick) key ?_ rfl
      simp only [paperOi, HistoryPush.apply, rings_recordPaperStakeTick]

theorem paperHouse_pushed (persist : Option StateStore) : (paperHouse persist).Pushed := by
  intro p push key _
  cases push with
  | oracle env spotMarket e =>
      refine ring_of_same (paperHouse persist) p (.oracle env spotMarket e) key ?_ rfl
      simp only [paperHouse, HistoryPush.apply, rings_recordOracleMark]
  | oi env market instrument long short =>
      refine ring_of_same (paperHouse persist) p (.oi env market instrument long short) key ?_ rfl
      simp only [paperHouse, HistoryPush.apply, rings_pushPaperOiHistory]
  | house market tsMs view =>
      have hrings := houseHistory_pushPaperHouseHistory market tsMs view p
      by_cases hempty : addrKey market = ""
      · refine ring_of_same (paperHouse persist) p (.house market tsMs view) key ?_ ?_
        · simp only [paperHouse, HistoryPush.apply, hrings, if_pos hempty]
        · simp only [paperHouse, if_pos hempty]
      · have hsample : (paperHouse persist).sample (.house market tsMs view) =
            some (addrKey market, houseTick tsMs view) := by
          simp only [paperHouse, if_neg hempty]
        have hput : (paperHouse persist).rings (HistoryPush.apply p (.house market tsMs view)) =
            p.houseHistory.insert (addrKey market)
              (Ring.push PaperHouseTick.tsMs paperHouseHistoryLimit (houseTick tsMs view)
                ((p.houseHistory.lookup (addrKey market)).getD [])) := by
          simp only [paperHouse, HistoryPush.apply, hrings, if_neg hempty]
        refine ring_of_insert (paperHouse persist) p (.house market tsMs view) key hput hsample
          fun hkey => ?_
        rw [← hkey]
        rfl
  | stake market tick =>
      refine ring_of_same (paperHouse persist) p (.stake market tick) key ?_ rfl
      simp only [paperHouse, HistoryPush.apply, rings_recordPaperStakeTick]

theorem paperStake_pushed : paperStake.Pushed := by
  intro p push key hlength
  cases push with
  | oracle env spotMarket e =>
      refine ring_of_same paperStake p (.oracle env spotMarket e) key ?_ rfl
      simp only [paperStake, HistoryPush.apply, rings_recordOracleMark]
  | oi env market instrument long short =>
      refine ring_of_same paperStake p (.oi env market instrument long short) key ?_ rfl
      simp only [paperStake, HistoryPush.apply, rings_pushPaperOiHistory]
  | house market tsMs view =>
      refine ring_of_same paperStake p (.house market tsMs view) key ?_ rfl
      simp only [paperStake, HistoryPush.apply, rings_pushPaperHouseHistory]
  | stake market tick =>
      by_cases hkey : addrKey market = key
      · subst hkey
        exact ring_of_insert paperStake p (.stake market tick) (addrKey market)
          ((rings_recordPaperStakeTick market tick p).1 hlength) rfl fun _ => rfl
      · refine ring_of_insert paperStake p (.stake market tick) key rfl rfl fun heq => ?_
        exact absurd heq hkey

/-! ## Answers -/

section

variable {A T : Type} (r : HistoryRing A T)

theorem filter_atOrAfter (fromMs : Option UInt64) (entries : List T) :
    entries.filter (fun t => atOrAfter fromMs (r.stamp t)) =
      entries.filter fun t => fromMs.all fun f => f ≤ r.stamp t := by
  refine List.filter_congr fun t _ => ?_
  cases fromMs with
  | none => rfl
  | some f => rfl

theorem newest_nil (fromMs : Option UInt64) (limit : Nat) : r.newest fromMs limit [] = [] :=
  List.rtake_nil _

theorem slice_eq_newest (fromMs : Option UInt64) (limit : Nat) (entries : List T) :
    (if (entries.filter fun t => atOrAfter fromMs (r.stamp t)).length ≤
          min (max limit 1) r.limit then
        entries.filter fun t => atOrAfter fromMs (r.stamp t)
      else
        (entries.filter fun t => atOrAfter fromMs (r.stamp t)).drop
          ((entries.filter fun t => atOrAfter fromMs (r.stamp t)).length -
            min (max limit 1) r.limit)) = r.newest fromMs limit entries := by
  unfold newest List.rtake
  rw [filter_atOrAfter]
  split_ifs with hlength
  · rw [Nat.sub_eq_zero_of_le hlength, List.drop_zero]
  · rfl

theorem turned_eq_newest (fromMs : Option UInt64) (limit : Nat) (entries : List T) :
    (((entries.filter fun t => atOrAfter fromMs (r.stamp t)).reverse).take
        (min (max limit 1) r.limit)).reverse = r.newest fromMs limit entries := by
  unfold newest
  rw [filter_atOrAfter, List.rtake_eq_reverse_take_reverse]

end

theorem oracleMarks_answersNewest (sdk : Sdk) : (oracleMarks sdk).AnswersNewest := by
  intro p spotMarket fromMs limit
  refine ⟨?_, fun _ => rfl⟩
  change p.oracleMarkHistory sdk spotMarket fromMs limit =
    (oracleMarks sdk).newest fromMs limit
      ((p.oracleHistory.lookup (normalizeSpotMarketKey sdk spotMarket)).getD [])
  unfold Paper.oracleMarkHistory
  dsimp only
  cases p.oracleHistory.lookup (normalizeSpotMarketKey sdk spotMarket) with
  | none => exact (newest_nil _ _ _).symm
  | some hist => exact (oracleMarks sdk).slice_eq_newest fromMs limit hist

theorem paperOi_answersNewest : paperOi.AnswersNewest := by
  intro p a fromMs limit
  refine ⟨?_, fun _ => rfl⟩
  change p.paperOiHistory a.1 a.2 fromMs limit =
    paperOi.newest fromMs limit ((p.oiHistory.lookup (paperInstrKey a.1 a.2)).getD [])
  unfold Paper.paperOiHistory
  dsimp only
  cases p.oiHistory.lookup (paperInstrKey a.1 a.2) with
  | none => exact (newest_nil _ _ _).symm
  | some hist => exact paperOi.slice_eq_newest fromMs limit hist

theorem paperHouse_answersNewest (persist : Option StateStore) :
    (paperHouse persist).AnswersNewest := by
  intro p market fromMs limit
  constructor
  · change (p.paperHouseHistory persist market ⟨fromMs, limit⟩).1 =
      (paperHouse persist).newest fromMs limit
        (((p.withHouseRing persist market fromMs).houseHistory.lookup (addrKey market)).getD [])
    unfold Paper.paperHouseHistory
    dsimp only
    cases (p.withHouseRing persist market fromMs).houseHistory.lookup (addrKey market) with
    | none => exact (newest_nil _ _ _).symm
    | some hist =>
        rw [Option.getD_some, ← slice_eq_newest]
        exact apply_ite Prod.fst _ _ _
  · intro hmem
    exact if_pos hmem

theorem paperStake_answersNewest : paperStake.AnswersNewest := fun _ _ fromMs limit =>
  ⟨paperStake.turned_eq_newest fromMs limit _, fun _ => rfl⟩

end HistoryRing

/-- Each kind of ring keeps the newest sample of each of the newest stamps, and each query
answers with the newest entries that it asks for. -/
theorem historyRings_keepNewest (sdk : Sdk) (persist : Option StateStore) :
    ((HistoryRing.oracleMarks sdk).KeepsNewest ∧ (HistoryRing.oracleMarks sdk).AnswersNewest) ∧
      (HistoryRing.paperOi.KeepsNewest ∧ HistoryRing.paperOi.AnswersNewest) ∧
      ((HistoryRing.paperHouse persist).KeepsNewest ∧
        (HistoryRing.paperHouse persist).AnswersNewest) ∧
      HistoryRing.paperStake.KeepsNewest ∧ HistoryRing.paperStake.AnswersNewest :=
  ⟨⟨keepsNewest_of_pushed (HistoryRing.oracleMarks_pushed sdk),
      HistoryRing.oracleMarks_answersNewest sdk⟩,
    ⟨keepsNewest_of_pushed HistoryRing.paperOi_pushed, HistoryRing.paperOi_answersNewest⟩,
    ⟨keepsNewest_of_pushed (HistoryRing.paperHouse_pushed persist),
      HistoryRing.paperHouse_answersNewest persist⟩,
    keepsNewest_of_pushed HistoryRing.paperStake_pushed, HistoryRing.paperStake_answersNewest⟩

end ClobIndexer
