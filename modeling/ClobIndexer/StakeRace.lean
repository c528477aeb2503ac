import ClobIndexer.HexSdk
import ClobIndexer.Paper
import ClobIndexer.Lib.Runs
/-!
# Flushes of the stake samples

A block marks markets while its events are applied, and flushes them at its end.  A request
for the samples of a market marks it and flushes as well, at any time.  A flush copies the
marks, clears them in a second step, and then samples what it has copied.  The flush of a
request does not publish, so a mark that the flush of the block does not copy reaches no
subscriber.
-/

namespace ClobIndexer

open Lib

/-! ## A flush step by step -/

inductive StakeSample where
  | token (token : Option (List UInt8))
  | supply (totalPaperSupply : UInt64)
  | tick (tick : PaperStakeTick)
  | recorded (tick : PaperStakeTick)

/-- How far a flush is.  A sample is kept with the time at which it was begun. -/
inductive StakeFlush where
  | copy
  | clear (markets : List String)
  | stamp (markets : List String)
  | next (tsMs : UInt64) (markets : List String)
  | sample (tsMs : UInt64) (markets : List String) (market : String) (since : Nat)
      (stage : StakeSample)

/-- What the flushes share: the paper market, and a time that every step advances.  Beside
them stand the ticks recorded and the messages sent, with the time their sample was begun. -/
structure StakeWorld where
  paper : Paper := {}
  time : Nat := 0
  recorded : List (Nat × String × PaperStakeTick) := []
  sent : List (Nat × PaperWsMessage) := []

section

variable (sdk : Sdk)

/-- One step of `flush_paper_stake_history`, with what the clock and the node say then. -/
def StakeFlush.step (publish : Bool) (now : UInt64) (chain : PaperChain) (w : StakeWorld) :
    StakeFlush → StakeWorld × Option StakeFlush
  | .copy =>
      if w.paper.stakeDirty.keys = [] then (w, none)
      else (w, some (.clear w.paper.stakeDirty.keys))
  | .clear markets => ({ w with paper := { w.paper with stakeDirty := ∅ } }, some (.stamp markets))
  | .stamp markets => (w, some (.next now markets))
  | .next _ [] => (w, none)
  | .next tsMs (market :: markets) =>
      match sdk.parseTokenContract market with
      | none => (w, some (.next tsMs markets))
      | some paperMarket =>
          let token := (chain.getPaperMarket paperMarket).getD none
          (w, some (.sample tsMs markets market w.time (.token token)))
  | .sample tsMs markets market since (.token token) =>
      let total :=
        match token with
        | some token => (chain.getTokenInfo token).getD 0
        | none => 0
      (w, some (.sample tsMs markets market since (.supply total)))
  | .sample tsMs markets market since (.supply total) =>
      let reward := (w.paper.totalStakerRewards.lookup (addrKey market)).getD 0
      (w, some (.sample tsMs markets market since (.tick ⟨tsMs, reward, total, reward⟩)))
  | .sample tsMs markets market since (.tick tick) =>
      ({ w with
        paper := w.paper.recordPaperStakeTick market tick
        recorded := w.recorded ++ [(since, market, tick)] },
        some (.sample tsMs markets market since (.recorded tick)))
  | .sample tsMs markets market since (.recorded tick) =>
      (if publish then { w with sent := w.sent ++ [(since, .stake market tick)] } else w,
        some (.next tsMs markets))

abbrev StakeMark := Nat × String

/-- A tick sampled after the mark is recorded, and its message is sent. -/
def StakeWorld.Reported (w : StakeWorld) (mark : StakeMark) : Prop :=
  ∃ since tick, mark.1 < since ∧ (since, mark.2, tick) ∈ w.recorded ∧
    (since, .stake mark.2 tick) ∈ w.sent

/-! ## The block and the requests -/

/-- The block that is applied; it has no flush while its events are handled. -/
structure StakeBlock where
  publish : Bool
  flush : Option StakeFlush := none

/-- The block, the marks it has set if it publishes, and the requests in progress. -/
structure StakeRace extends StakeWorld where
  block : Option StakeBlock := none
  marks : List StakeMark := []
  requests : List StakeFlush := []

/-- A step of the block or of a request, of which there may be any number.  A request whose
client is gone is dropped. -/
inductive StakeAction where
  | beginBlock (publish : Bool)
  | feesPushed (market : String) (stakerFee swept : UInt64)
  | mark (market : String)
  | beginFlush
  | advanceBlock (now : UInt64) (chain : PaperChain)
  | request (market : String)
  | advance (i : Nat) (now : UInt64) (chain : PaperChain)
  | drop (i : Nat)

namespace StakeRace

def markBlock (publish : Bool) (market : String) (r : StakeRace) : StakeRace :=
  { r with
    paper := r.paper.markPaperStakeDirty market
    marks := if publish ∧ addrKey market ≠ "" then r.marks ++ [(r.time, addrKey market)]
      else r.marks }

def act (r : StakeRace) : StakeAction → StakeRace
  | .beginBlock publish =>
      match r.block with
      | none => { r with block := some ⟨publish, none⟩, marks := [] }
      | some _ => r
  | .feesPushed market stakerFee swept =>
      match r.block with
      | some ⟨_, none⟩ =>
          { r with paper := r.paper.applyPaperFeesPushedRewards market stakerFee swept }
      | _ => r
  | .mark market =>
      match r.block with
      | some ⟨publish, none⟩ => r.markBlock publish market
      | _ => r
  | .beginFlush =>
      match r.block with
      | some ⟨publish, none⟩ => { r with block := some ⟨publish, some .copy⟩ }
      | _ => r
  | .advanceBlock now chain =>
      match r.block with
      | some ⟨publish, some flush⟩ =>
          let next := flush.step sdk publish now chain r.toStakeWorld
          { r with
            toStakeWorld := next.1
            block := next.2.map fun flush => ⟨publish, some flush⟩ }
      | _ => r
  | .request market =>
      let market := Text.trim market
      if market ≠ "" ∧ (sdk.parseTokenContract market).isSome then
        { r with
          paper := r.paper.markPaperStakeDirty market
          requests := r.requests ++ [.copy] }
      else r
  | .advance i now chain =>
      match r.requests[i]? with
      | none => r
      | some flush =>
          let next := flush.step sdk false now chain r.toStakeWorld
          { r with
            toStakeWorld := next.1
            requests :=
              match next.2 with
              | some flush => r.requests.set i flush
              | none => r.requests.eraseIdx i }
  | .drop i => { r with requests := r.requests.eraseIdx i }

def tick (r : StakeRace) : StakeRace := { r with time := r.time + 1 }

def step (r : StakeRace) (a : StakeAction) : StakeRace := (r.act sdk a).tick

/-- Once the flush of the block has ended, every mark of the block is reported.  No other
flush publishes, so a mark that is not reported then never is. -/
def NoneLost (r : StakeRace) : Prop := r.block = none → ∀ mark ∈ r.marks, r.Reported mark

/-- Where the flush of the block copies the marks, it finds those of the block, each a
contract. -/
def FindsMarks (r : StakeRace) : StakeAction → Prop
  | .advanceBlock _ _ =>
      ∀ publish, r.block = some ⟨publish, some .copy⟩ → ∀ mark ∈ r.marks,
        mark.2 ∈ r.paper.stakeDirty ∧ (sdk.parseTokenContract mark.2).isSome
  | _ => True

end StakeRace

/-! ## What a flush keeps -/

def StakeWorld.SentRecorded (w : StakeWorld) : Prop :=
  ∀ e ∈ w.sent, e.1 < w.time ∧
    ∀ market tick, e.2 = .stake market tick → (e.1, market, tick) ∈ w.recorded

theorem StakeWorld.reported_iff {w : StakeWorld} (h : w.SentRecorded) (mark : StakeMark) :
    w.Reported mark ↔ ∃ since tick, mark.1 < since ∧ (since, .stake mark.2 tick) ∈ w.sent := by
  constructor
  · rintro ⟨since, tick, hsince, -, hsent⟩
    exact ⟨since, tick, hsince, hsent⟩
  · rintro ⟨since, tick, hsince, hsent⟩
    exact ⟨since, tick, hsince, (h _ hsent).2 mark.2 tick rfl, hsent⟩

namespace StakeFlush

def WellTimed (time : Nat) (recorded : List (Nat × String × PaperStakeTick)) : StakeFlush → Prop
  | .sample _ _ market since stage =>
      since < time ∧ ∀ tick, stage = .recorded tick → (since, market, tick) ∈ recorded
  | _ => True

/-- The flush is past copying and still has the mark to sample, or samples it. -/
def Holds (mark : StakeMark) : StakeFlush → Prop
  | .copy => False
  | .clear markets => mark.2 ∈ markets ∧ (sdk.parseTokenContract mark.2).isSome
  | .stamp markets => mark.2 ∈ markets ∧ (sdk.parseTokenContract mark.2).isSome
  | .next _ markets => mark.2 ∈ markets ∧ (sdk.parseTokenContract mark.2).isSome
  | .sample _ markets market since _ =>
      mark.2 ∈ markets ∧ (sdk.parseTokenContract mark.2).isSome ∨
        mark.2 = market ∧ mark.1 < since

variable {sdk}

theorem step_cases (sdk : Sdk) (publish : Bool) (now : UInt64) (chain : PaperChain)
    (w : StakeWorld) (flush : StakeFlush) :
    (∃ tsMs markets market since tick,
      flush = .sample tsMs markets market since (.tick tick)) ∨
    (∃ tsMs markets market since tick,
      flush = .sample tsMs markets market since (.recorded tick)) ∨
    ((flush.step sdk publish now chain w).1.sent = w.sent ∧
      (flush.step sdk publish now chain w).1.recorded = w.recorded ∧
      (flush.step sdk publish now chain w).1.time = w.time ∧
      ∀ flush' ∈ (flush.step sdk publish now chain w).2, flush' ≠ .copy ∧
        (flush.WellTimed w.time w.recorded → flush'.WellTimed (w.time + 1) w.recorded)) := by
  cases flush with
  | copy =>
      refine Or.inr (Or.inr ?_)
      simp only [step]
      split_ifs <;> simp [WellTimed]
  | clear markets => exact Or.inr (Or.inr (by simp [step, WellTimed]))
  | stamp markets => exact Or.inr (Or.inr (by simp [step, WellTimed]))
  | next tsMs markets =>
      refine Or.inr (Or.inr ?_)
      cases markets with
      | nil => simp [step]
      | cons market markets =>
          unfold step
          dsimp only
          cases sdk.parseTokenContract market <;> simp [WellTimed]
  | sample tsMs markets market since stage =>
      cases stage with
      | tick tick => exact Or.inl ⟨tsMs, markets, market, since, tick, rfl⟩
      | recorded tick => exact Or.inr (Or.inl ⟨tsMs, markets, market, since, tick, rfl⟩)
      | token token =>
          refine Or.inr (Or.inr ?_)
          simp [step, WellTimed]
          omega
      | supply total =>
          refine Or.inr (Or.inr ?_)
          simp [step, WellTimed]
          omega

variable {publish : Bool} {now : UInt64} {chain : PaperChain} {w : StakeWorld}
  {flush flush' : StakeFlush}

theorem time_step : (flush.step sdk publish now chain w).1.time = w.time := by
  rcases step_cases sdk publish now chain w flush with
    ⟨_, _, _, _, _, rfl⟩ | ⟨_, _, _, _, _, rfl⟩ | ⟨-, -, htime, -⟩
  · rfl
  · unfold step
    dsimp only
    split_ifs <;> rfl
  · exact htime

theorem recorded_subset : w.recorded ⊆ (flush.step sdk publish now chain w).1.recorded := by
  rcases step_cases sdk publish now chain w flush with
    ⟨_, _, _, _, _, rfl⟩ | ⟨_, _, _, _, _, rfl⟩ | ⟨-, hrecorded, -, -⟩
  · exact List.subset_append_left _ _
  · unfold step
    dsimp only
    split_ifs <;> exact fun _ h => h
  · rw [hrecorded]
    exact fun _ h => h

theorem sent_quiet : (flush.step sdk false now chain w).1.sent = w.sent := by
  rcases step_cases sdk false now chain w flush with
    ⟨_, _, _, _, _, rfl⟩ | ⟨_, _, _, _, _, rfl⟩ | ⟨hsent, -, -, -⟩
  · rfl
  · rfl
  · exact hsent

theorem sentRecorded_step (hflush : flush.WellTimed w.time w.recorded) (h : w.SentRecorded) :
    StakeWorld.SentRecorded { (flush.step sdk publish now chain w).1 with time := w.time + 1 } := by
  have hkept : ∀ e ∈ w.sent, e.1 < w.time + 1 ∧ ∀ market tick, e.2 = .stake market tick →
      (e.1, market, tick) ∈ (flush.step sdk publish now chain w).1.recorded := by
    intro e he
    obtain ⟨htime, hrecorded⟩ := h e he
    exact ⟨Nat.lt_succ_of_lt htime, fun market tick htick =>
      recorded_subset (hrecorded market tick htick)⟩
  rcases step_cases sdk publish now chain w flush with
    ⟨_, _, _, _, _, rfl⟩ | ⟨tsMs, markets, market, since, tick, rfl⟩ | ⟨hsent, -, -, -⟩
  · exact hkept
  · cases publish with
    | false => exact hkept
    | true =>
        intro e he
        rcases List.mem_append.mp he with hold | hnew
        · exact hkept e hold
        · rw [List.mem_singleton] at hnew
          subst hnew
          refine ⟨Nat.lt_succ_of_lt hflush.1, ?_⟩
          intro market' tick' hmessage
          cases hmessage
          exact hflush.2 tick rfl
  · intro e he
    exact hkept e (hsent ▸ he)

theorem wellTimed_step (h : flush.WellTimed w.time w.recorded)
    (hnext : flush' ∈ (flush.step sdk publish now chain w).2) :
    flush'.WellTimed (w.time + 1) (flush.step sdk publish now chain w).1.recorded ∧
      flush' ≠ .copy := by
  rcases step_cases sdk publish now chain w flush with
    ⟨_, _, _, _, _, rfl⟩ | ⟨_, _, _, _, _, rfl⟩ | ⟨-, hrecorded, -, hall⟩
  · cases hnext
    refine ⟨⟨Nat.lt_succ_of_lt h.1, ?_⟩, nofun⟩
    intro tick htick
    cases htick
    exact List.mem_append_right _ (List.mem_singleton.mpr rfl)
  · cases hnext
    exact ⟨trivial, nofun⟩
  · rw [hrecorded]
    exact ⟨(hall flush' hnext).2 h, (hall flush' hnext).1⟩

theorem WellTimed.mono {time : Nat} {recorded recorded' : List (Nat × String × PaperStakeTick)}
    (h : flush.WellTimed time recorded) (hsubset : recorded ⊆ recorded') :
    flush.WellTimed (time + 1) recorded' := by
  cases flush with
  | sample tsMs markets market since stage =>
      exact ⟨Nat.lt_succ_of_lt h.1, fun tick htick => hsubset (h.2 tick htick)⟩
  | _ => trivial

/-- A flush past copying neither loses a mark it has nor takes up another. -/
theorem holds_step_iff (hcopy : flush ≠ .copy) {mark : StakeMark} (hmark : mark.1 < w.time) :
    (∃ since tick, mark.1 < since ∧ (since, .stake mark.2 tick) ∈ w.sent) ∨ flush.Holds sdk mark ↔
      (∃ since tick, mark.1 < since ∧
        (since, .stake mark.2 tick) ∈ (flush.step sdk true now chain w).1.sent) ∨
      ∃ flush' ∈ (flush.step sdk true now chain w).2, flush'.Holds sdk mark := by
  cases flush with
  | copy => exact absurd rfl hcopy
  | clear markets => simp [step, Holds]
  | stamp markets => simp [step, Holds]
  | next tsMs markets =>
      cases markets with
      | nil => simp [step, Holds]
      | cons market markets =>
          unfold step
          dsimp only
          cases hparse : sdk.parseTokenContract market with
          | none =>
              have hne : (sdk.parseTokenContract mark.2).isSome → mark.2 ≠ market := by
                rintro hsome rfl
                rw [hparse] at hsome
                nomatch hsome
              simp [Holds]
              grind
          | some paperMarket =>
              have hsome : mark.2 = market → (sdk.parseTokenContract mark.2).isSome := by
                rintro rfl
                rw [hparse]
                rfl
              simp [Holds]
              grind
  | sample tsMs markets market since stage =>
      cases stage with
      | token token => simp [step, Holds]
      | supply total => simp [step, Holds]
      | tick tick => simp [step, Holds]
      | recorded tick =>
          simp only [step, Holds, if_true, List.mem_append, List.mem_singleton, Prod.mk.injEq,
            PaperWsMessage.stake.injEq, Option.mem_def, Option.some.injEq, exists_eq_left']
          constructor
          · rintro (⟨since', tick', hsince, hsent⟩ | hrest | ⟨hmarket, hsince⟩)
            · exact Or.inl ⟨since', tick', hsince, Or.inl hsent⟩
            · exact Or.inr hrest
            · exact Or.inl ⟨since, tick, hsince, Or.inr ⟨rfl, hmarket, rfl⟩⟩
          · rintro (⟨since', tick', hsince, hsent | ⟨rfl, hmarket, -⟩⟩ | hrest)
            · exact Or.inl ⟨since', tick', hsince, hsent⟩
            · exact Or.inr (Or.inr ⟨hmarket, hsince⟩)
            · exact Or.inr (Or.inl hrest)

end StakeFlush

/-! ## What the block and the requests keep -/

namespace StakeRace

/-- Messages and marks are as old as they tell, a block that does not publish has no marks,
and until the block copies the marks every message is older than they are. -/
structure Consistent (r : StakeRace) : Prop where
  sent : r.SentRecorded
  marks : ∀ mark ∈ r.marks, mark.1 < r.time
  published : ∀ flush, r.block = some ⟨false, flush⟩ → r.marks = []
  flush : ∀ publish flush, r.block = some ⟨publish, some flush⟩ →
    flush.WellTimed r.time r.recorded
  unsent : ∀ publish flush, r.block = some ⟨publish, flush⟩ → flush = none ∨ flush = some .copy →
    ∀ mark ∈ r.marks, ∀ e ∈ r.sent, e.1 ≤ mark.1

/-- Past copying, every mark of the block is reported or will be. -/
def OnTrack (sdk : Sdk) (r : StakeRace) : Prop :=
  match r.block with
  | none => ∀ mark ∈ r.marks, r.Reported mark
  | some ⟨_, none⟩ => True
  | some ⟨_, some .copy⟩ => True
  | some ⟨_, some flush⟩ => ∀ mark ∈ r.marks, r.Reported mark ∨ flush.Holds sdk mark

structure Beside (r r' : StakeRace) : Prop where
  sent : r'.sent = r.sent
  recorded : r.recorded ⊆ r'.recorded
  marks : r'.marks = r.marks
  block : r'.block = r.block
  time : r'.time = r.time + 1

variable {sdk : Sdk} {r r' : StakeRace}

theorem Beside.refl (r : StakeRace) : r.Beside r.tick :=
  ⟨rfl, fun _ h => h, rfl, rfl, rfl⟩

theorem Beside.paper (r : StakeRace) (paper : Paper) (requests : List StakeFlush) :
    r.Beside { r with paper := paper, requests := requests }.tick :=
  ⟨rfl, fun _ h => h, rfl, rfl, rfl⟩

theorem Beside.consistent (h : r.Beside r') (hr : r.Consistent) : r'.Consistent := by
  refine ⟨?_, ?_, ?_, ?_, ?_⟩
  · intro e he
    rw [h.sent] at he
    obtain ⟨htime, hrecorded⟩ := hr.sent e he
    rw [h.time]
    exact ⟨Nat.lt_succ_of_lt htime, fun market tick htick => h.recorded (hrecorded market tick htick)⟩
  · intro mark hmark
    rw [h.marks] at hmark
    rw [h.time]
    exact Nat.lt_succ_of_lt (hr.marks mark hmark)
  · intro flush hblock
    rw [h.block] at hblock
    rw [h.marks]
    exact hr.published flush hblock
  · intro publish flush hblock
    rw [h.block] at hblock
    rw [h.time]
    exact (hr.flush publish flush hblock).mono h.recorded
  · intro publish flush hblock hflush
    rw [h.block] at hblock
    rw [h.marks, h.sent]
    exact hr.unsent publish flush hblock hflush

theorem Beside.reported_iff (h : r.Beside r') (hr : r.Consistent) (mark : StakeMark) :
    r'.Reported mark ↔ r.Reported mark := by
  rw [StakeWorld.reported_iff (h.consistent hr).sent, StakeWorld.reported_iff hr.sent, h.sent]

theorem Beside.onTrack_iff (h : r.Beside r') (hr : r.Consistent) :
    r'.OnTrack sdk ↔ r.OnTrack sdk := by
  unfold OnTrack
  simp only [h.block, h.marks, h.reported_iff hr]

theorem beside_or_block (sdk : Sdk) (r : StakeRace) (a : StakeAction) :
    (r.Beside (r.step sdk a) ∧ r.FindsMarks sdk a) ∨
    (∃ publish, a = .beginBlock publish ∧ r.block = none) ∨
    (∃ publish market, a = .mark market ∧ r.block = some ⟨publish, none⟩) ∨
    (∃ publish, a = .beginFlush ∧ r.block = some ⟨publish, none⟩) ∨
    ∃ now chain publish flush,
      a = .advanceBlock now chain ∧ r.block = some ⟨publish, some flush⟩ := by
  cases a with
  | beginBlock publish =>
      cases hblock : r.block with
      | none => exact Or.inr (Or.inl ⟨publish, rfl, rfl⟩)
      | some b =>
          refine Or.inl ⟨?_, trivial⟩
          simpa [step, act, hblock] using Beside.refl r
  | feesPushed market stakerFee swept =>
      refine Or.inl ⟨?_, trivial⟩
      unfold step act
      dsimp only
      split
      · exact Beside.paper r _ _
      · exact Beside.refl r
  | mark market =>
      rcases hblock : r.block with _ | ⟨publish, _ | flush⟩
      · refine Or.inl ⟨?_, trivial⟩
        simpa [step, act, hblock] using Beside.refl r
      · exact Or.inr (Or.inr (Or.inl ⟨publish, market, rfl, rfl⟩))
      · refine Or.inl ⟨?_, trivial⟩
        simpa [step, act, hblock] using Beside.refl r
  | beginFlush =>
      rcases hblock : r.block with _ | ⟨publish, _ | flush⟩
      · refine Or.inl ⟨?_, trivial⟩
        simpa [step, act, hblock] using Beside.refl r
      · exact Or.inr (Or.inr (Or.inr (Or.inl ⟨publish, rfl, rfl⟩)))
      · refine Or.inl ⟨?_, trivial⟩
        simpa [step, act, hblock] using Beside.refl r
  | advanceBlock now chain =>
      rcases hblock : r.block with _ | ⟨publish, _ | flush⟩
      · refine Or.inl ⟨?_, ?_⟩
        · simpa [step, act, hblock] using Beside.refl r
        · simp [FindsMarks, hblock]
      · refine Or.inl ⟨?_, ?_⟩
        · simpa [step, act, hblock] using Beside.refl r
        · simp [FindsMarks, hblock]
      · exact Or.inr (Or.inr (Or.inr (Or.inr ⟨now, chain, publish, flush, rfl, rfl⟩)))
  | request market =>
      refine Or.inl ⟨?_, trivial⟩
      unfold step act
      dsimp only
      split_ifs
      · exact Beside.paper r _ _
      · exact Beside.refl r
  | advance i now chain =>
      refine Or.inl ⟨?_, trivial⟩
      unfold step act
      dsimp only
      cases r.requests[i]? with
      | none => exact Beside.refl r
      | some flush =>
          exact ⟨StakeFlush.sent_quiet, StakeFlush.recorded_subset, rfl, rfl,
            congrArg Nat.succ StakeFlush.time_step⟩
  | drop i => exact Or.inl ⟨⟨rfl, fun _ h => h, rfl, rfl, rfl⟩, trivial⟩

theorem step_advanceBlock {publish : Bool} {flush : StakeFlush}
    (hblock : r.block = some ⟨publish, some flush⟩) (now : UInt64) (chain : PaperChain) :
    r.step sdk (.advanceBlock now chain) =
      { r with
        toStakeWorld :=
          { (flush.step sdk publish now chain r.toStakeWorld).1 with time := r.time + 1 }
        block := (flush.step sdk publish now chain r.toStakeWorld).2.map
          fun flush => ⟨publish, some flush⟩ } := by
  simp only [step, act, hblock, tick, StakeFlush.time_step]

@[simp] theorem block_markBlock (publish : Bool) (market : String) (r : StakeRace) :
    (r.markBlock publish market).block = r.block := by
  simp only [markBlock]

@[simp] theorem sent_markBlock (publish : Bool) (market : String) (r : StakeRace) :
    (r.markBlock publish market).sent = r.sent := by
  simp only [markBlock]

@[simp] theorem recorded_markBlock (publish : Bool) (market : String) (r : StakeRace) :
    (r.markBlock publish market).recorded = r.recorded := by
  simp only [markBlock]

@[simp] theorem time_markBlock (publish : Bool) (market : String) (r : StakeRace) :
    (r.markBlock publish market).time = r.time := by
  simp only [markBlock]

theorem beside_markBlock_quiet (market : String) (r : StakeRace) :
    r.Beside (r.markBlock false market).tick := by
  refine ⟨?_, ?_, ?_, ?_, ?_⟩ <;> simp [tick, markBlock]

theorem mem_marks_markBlock {publish : Bool} {market : String} {mark : StakeMark}
    (h : mark ∈ (r.markBlock publish market).marks) :
    mark ∈ r.marks ∨ mark = (r.time, addrKey market) := by
  unfold markBlock at h
  dsimp only at h
  split_ifs at h
  · simpa using h
  · exact Or.inl h

theorem Consistent.markBlock (hr : r.Consistent) {publish : Bool}
    (hblock : r.block = some ⟨publish, none⟩) (market : String) :
    (r.markBlock publish market).tick.Consistent := by
  cases publish with
  | false => exact (beside_markBlock_quiet market r).consistent hr
  | true =>
      have hnext := (Beside.refl r).consistent hr
      refine ⟨?_, ?_, ?_, ?_, ?_⟩
      · intro e he
        simp only [tick, sent_markBlock, time_markBlock, recorded_markBlock] at he ⊢
        exact hnext.sent e he
      · intro mark hmark
        simp only [tick, time_markBlock] at hmark ⊢
        rcases mem_marks_markBlock hmark with hold | hnew
        · exact hnext.marks mark hold
        · rw [hnew]
          exact Nat.lt_succ_self r.time
      · intro flush hflush
        simp only [tick, block_markBlock, hblock] at hflush
        nomatch hflush
      · intro publish flush hflush
        simp only [tick, block_markBlock, hblock] at hflush
        nomatch hflush
      · intro publish flush hflush hcopy mark hmark e he
        simp only [tick, sent_markBlock] at hmark he
        rcases mem_marks_markBlock hmark with hold | hnew
        · exact hr.unsent true none hblock (Or.inl rfl) mark hold e he
        · rw [hnew]
          exact (hr.sent e he).1.le

theorem consistent_step (hr : r.Consistent) (a : StakeAction) : (r.step sdk a).Consistent := by
  rcases beside_or_block sdk r a with
    ⟨hbeside, -⟩ | ⟨publish, rfl, hblock⟩ | ⟨publish, market, rfl, hblock⟩ |
      ⟨publish, rfl, hblock⟩ | ⟨now, chain, publish, flush, rfl, hblock⟩
  · exact hbeside.consistent hr
  · have hsent := ((Beside.refl r).consistent hr).sent
    simp only [step, act, hblock]
    exact ⟨hsent, nofun, fun _ _ => rfl, nofun, fun _ _ _ _ => nofun⟩
  · simp only [step, act, hblock]
    exact hr.markBlock hblock market
  · have hnext := (Beside.refl r).consistent hr
    simp only [step, act, hblock]
    refine ⟨hnext.sent, hnext.marks, ?_, ?_, ?_⟩
    · intro flush hflush
      cases hflush
      exact hr.published none hblock
    · intro publish' flush hflush
      cases hflush
      trivial
    · intro publish' flush hflush hcopy
      cases hflush
      exact hr.unsent publish none hblock (Or.inl rfl)
  · have hflush := hr.flush publish flush hblock
    rw [step_advanceBlock hblock]
    refine ⟨StakeFlush.sentRecorded_step hflush hr.sent, ?_, ?_, ?_, ?_⟩
    · intro mark hmark
      exact Nat.lt_succ_of_lt (hr.marks mark hmark)
    · intro flush' hafter
      obtain ⟨_, -, heq⟩ := Option.map_eq_some_iff.mp hafter
      cases heq
      exact hr.published _ hblock
    · intro publish' flush' hafter
      obtain ⟨next, hnext, heq⟩ := Option.map_eq_some_iff.mp hafter
      cases heq
      exact (StakeFlush.wellTimed_step hflush hnext).1
    · intro publish' flush' hafter hcopy
      obtain ⟨next, hnext, heq⟩ := Option.map_eq_some_iff.mp hafter
      cases heq
      have hne := (StakeFlush.wellTimed_step hflush hnext).2
      rcases hcopy with hnone | hcopy
      · nomatch hnone
      · exact absurd (Option.some.inj hcopy) hne

/-! ## Marks that are lost -/

theorem onTrack_of_past {publish : Bool} {flush : StakeFlush} (hcopy : flush ≠ .copy)
    (hblock : r.block = some ⟨publish, some flush⟩) :
    r.OnTrack sdk ↔ ∀ mark ∈ r.marks, r.Reported mark ∨ flush.Holds sdk mark := by
  unfold OnTrack
  rw [hblock]
  cases flush with
  | copy => exact absurd rfl hcopy
  | _ => rfl

/-- Once the flush of the block is past copying, being on track is that each mark is reported
or still held. -/
theorem onTrack_iff_of_next {next : Option StakeFlush} {publish : Bool}
    (hblock : r.block = next.map fun flush => ⟨publish, some flush⟩)
    (hcopy : ∀ flush ∈ next, flush ≠ .copy) :
    r.OnTrack sdk ↔
      ∀ mark ∈ r.marks, r.Reported mark ∨ ∃ flush ∈ next, flush.Holds sdk mark := by
  cases next with
  | none =>
      unfold OnTrack
      rw [hblock]
      simp
  | some flush =>
      rw [onTrack_of_past (hcopy flush rfl) hblock]
      simp

theorem onTrack_advance_iff (hr : r.Consistent) {publish : Bool} {flush : StakeFlush}
    (hblock : r.block = some ⟨publish, some flush⟩) (hcopy : flush ≠ .copy) (now : UInt64)
    (chain : PaperChain) :
    (r.step sdk (.advanceBlock now chain)).OnTrack sdk ↔ r.OnTrack sdk := by
  have hflush := hr.flush publish flush hblock
  have hnext := @onTrack_iff_of_next sdk _ _ publish
    (congrArg StakeRace.block (@step_advanceBlock sdk r publish _ hblock now chain))
    (fun flush' hnext => (StakeFlush.wellTimed_step hflush hnext).2)
  have hsent := (@consistent_step sdk r hr (.advanceBlock now chain)).sent
  rw [hnext, onTrack_of_past hcopy hblock]
  rw [step_advanceBlock hblock] at hsent ⊢
  cases publish with
  | false =>
      dsimp only
      rw [hr.published _ hblock]
      exact iff_of_true nofun nofun
  | true =>
      refine forall₂_congr fun mark hmark => ?_
      rw [StakeWorld.reported_iff hsent, StakeWorld.reported_iff hr.sent]
      exact (StakeFlush.holds_step_iff hcopy (hr.marks mark hmark)).symm

theorem onTrack_copy_iff (hr : r.Consistent) {publish : Bool}
    (hblock : r.block = some ⟨publish, some .copy⟩) (now : UInt64) (chain : PaperChain) :
    (r.step sdk (.advanceBlock now chain)).OnTrack sdk ↔
      ∀ mark ∈ r.marks, mark.2 ∈ r.paper.stakeDirty ∧
        (sdk.parseTokenContract mark.2).isSome := by
  have hunsent : ∀ mark ∈ r.marks, ¬r.Reported mark := by
    rintro mark hmark ⟨since, tick, hsince, -, hsent⟩
    have hle := hr.unsent publish _ hblock (Or.inr rfl) mark hmark _ hsent
    omega
  have hnext := @onTrack_iff_of_next sdk _ _ publish
    (congrArg StakeRace.block (@step_advanceBlock sdk r publish _ hblock now chain))
    (fun flush' hnext => (StakeFlush.wellTimed_step (hr.flush publish _ hblock) hnext).2)
  rw [hnext, step_advanceBlock hblock]
  refine forall₂_congr fun mark hmark => ?_
  simp only [StakeFlush.step]
  by_cases hkeys : r.paper.stakeDirty.keys = []
  · have hclean : mark.2 ∉ r.paper.stakeDirty := by
      rw [AList.mem_keys, hkeys]
      exact List.not_mem_nil
    rw [if_pos hkeys]
    simp only [hclean, false_and, iff_false, not_or]
    exact ⟨hunsent mark hmark, by simp⟩
  · rw [if_neg hkeys]
    constructor
    · rintro (hreported | ⟨flush, hflush, hholds⟩)
      · exact absurd hreported (hunsent mark hmark)
      · cases hflush
        exact hholds
    · intro hfound
      exact Or.inr ⟨_, rfl, hfound⟩

theorem onTrack_step_iff (r : StakeRace) (a : StakeAction) (hr : r.Consistent)
    (htrack : r.OnTrack sdk) : (r.step sdk a).OnTrack sdk ↔ r.FindsMarks sdk a := by
  rcases beside_or_block sdk r a with
    ⟨hbeside, hfinds⟩ | ⟨publish, rfl, hblock⟩ | ⟨publish, market, rfl, hblock⟩ |
      ⟨publish, rfl, hblock⟩ | ⟨now, chain, publish, flush, rfl, hblock⟩
  · exact iff_of_true ((hbeside.onTrack_iff hr).mpr htrack) hfinds
  · refine iff_of_true ?_ trivial
    simp [step, act, hblock, tick, OnTrack]
  · refine iff_of_true ?_ trivial
    simp [step, act, hblock, tick, OnTrack]
  · refine iff_of_true ?_ trivial
    simp [step, act, hblock, tick, OnTrack]
  · by_cases hcopy : flush = .copy
    · subst hcopy
      rw [onTrack_copy_iff hr hblock]
      unfold FindsMarks
      constructor
      · intro hfound _ _
        exact hfound
      · intro hfound
        exact hfound publish hblock
    · rw [onTrack_advance_iff hr hblock hcopy]
      refine iff_of_true htrack ?_
      intro publish' hblock'
      rw [hblock] at hblock'
      cases hblock'
      exact absurd rfl hcopy

/-- A mark that is lost stays so until the flush of the block has ended. -/
theorem lost_step (hr : r.Consistent) (hlost : ¬r.OnTrack sdk) (hblock : r.block ≠ none)
    (a : StakeAction) : ¬(r.step sdk a).OnTrack sdk := by
  rcases beside_or_block sdk r a with
    ⟨hbeside, -⟩ | ⟨publish, rfl, hnone⟩ | ⟨publish, market, rfl, hnone⟩ |
      ⟨publish, rfl, hnone⟩ | ⟨now, chain, publish, flush, rfl, hsome⟩
  · rwa [hbeside.onTrack_iff hr]
  · exact absurd hnone hblock
  · exact absurd (by simp [OnTrack, hnone]) hlost
  · exact absurd (by simp [OnTrack, hnone]) hlost
  · by_cases hcopy : flush = .copy
    · subst hcopy
      exact absurd (by simp [OnTrack, hsome]) hlost
    · rwa [onTrack_advance_iff hr hsome hcopy]

theorem noneLost_of_onTrack (h : r.OnTrack sdk) : r.NoneLost := by
  intro hblock
  unfold OnTrack at h
  rw [hblock] at h
  exact h

theorem lost_of_ends {actions : List StakeAction} (hr : r.Consistent) (hlost : ¬r.OnTrack sdk)
    (hends : (actions.foldl (step sdk) r).block = none) :
    ¬Throughout (step sdk) NoneLost actions r := by
  induction actions generalizing r with
  | nil =>
      intro h
      apply hlost
      unfold OnTrack
      rw [show r.block = none from hends]
      exact h hends
  | cons a actions ih =>
      intro h
      by_cases hblock : r.block = none
      · apply hlost
        unfold OnTrack
        rw [hblock]
        exact h.1 hblock
      · exact ih (consistent_step hr a) (lost_step hr hlost hblock a) hends h.2

theorem onTrack_of_noneLost {actions : List StakeAction} (hr : r.Consistent)
    (hends : (actions.foldl (step sdk) r).block = none)
    (h : Throughout (step sdk) NoneLost actions r) :
    Throughout (step sdk) (OnTrack sdk) actions r := by
  induction actions generalizing r with
  | nil =>
      by_contra hlost
      exact lost_of_ends hr hlost hends h
  | cons a actions ih =>
      refine ⟨?_, ih (consistent_step hr a) hends h.2⟩
      by_contra hlost
      exact lost_of_ends hr hlost hends h

/-- In every interleaving of blocks and requests, no mark of a block is lost if the flush of
each block finds its marks; and where the run ends between two blocks, only then. -/
theorem noneLost_iff_of_ends (sdk : Sdk) (paper : Paper) (actions : List StakeAction) :
    let start : StakeRace := { paper := paper }
    (Along (step sdk) (FindsMarks sdk) actions start →
      Throughout (step sdk) NoneLost actions start) ∧
    ((actions.foldl (step sdk) start).block = none →
      (Throughout (step sdk) NoneLost actions start ↔
        Along (step sdk) (FindsMarks sdk) actions start)) := by
  intro start
  have hstart : start.Consistent := ⟨nofun, nofun, nofun, nofun, nofun⟩
  have hkeeps : ∀ (r : StakeRace) (a : StakeAction), True → r.Consistent →
      (r.step sdk a).Consistent := fun r a _ hr => consistent_step hr a
  have hstep : ∀ (r : StakeRace) (a : StakeAction), True → r.Consistent → r.OnTrack sdk →
      ((r.step sdk a).OnTrack sdk ↔ r.FindsMarks sdk a) :=
    fun r a _ hr htrack => onTrack_step_iff r a hr htrack
  have hiff : Throughout (step sdk) (OnTrack sdk) actions start ↔
      Along (step sdk) (FindsMarks sdk) actions start :=
    throughout_iff_along hkeeps hstep (fun _ _ => trivial) hstart nofun
  have hnone : Along (step sdk) (FindsMarks sdk) actions start →
      Throughout (step sdk) NoneLost actions start :=
    fun halong => (hiff.mpr halong).mono fun _ htrack => noneLost_of_onTrack htrack
  refine ⟨hnone, ?_⟩
  intro hends
  constructor
  · intro h
    exact hiff.mp (onTrack_of_noneLost hstart hends h)
  · exact hnone

/-! ## A flush alone -/

def aloneFor (env : PaperEnv) (chain : PaperChain) (steps : Nat) (r : StakeRace) : StakeRace :=
  (List.replicate steps (.advanceBlock env.stampMs chain)).foldl (step env.sdk) r

def flushed (r : StakeRace) : Paper × List PaperWsMessage := (r.paper, r.sent.map Prod.snd)

theorem aloneFor_add (env : PaperEnv) (chain : PaperChain) (m n : Nat) (r : StakeRace) :
    r.aloneFor env chain (m + n) = (r.aloneFor env chain m).aloneFor env chain n := by
  unfold aloneFor
  rw [List.replicate_add, List.foldl_append]

theorem aloneFor_skip {env : PaperEnv} {publish : Bool} {tsMs : UInt64} {market : String}
    {markets : List String} (hblock : r.block = some ⟨publish, some (.next tsMs (market :: markets))⟩)
    (chain : PaperChain) (hparse : env.sdk.parseTokenContract market = none) :
    (r.aloneFor env chain 1).block = some ⟨publish, some (.next tsMs markets)⟩ ∧
      (r.aloneFor env chain 1).flushed = r.flushed := by
  simp [aloneFor, List.replicate_succ, step, act, tick, flushed, hblock, StakeFlush.step, hparse]

theorem aloneFor_sample {env : PaperEnv} {publish : Bool} {market : String}
    {markets : List String}
    (hblock : r.block = some ⟨publish, some (.next env.stampMs (market :: markets))⟩)
    (chain : PaperChain) {paperMarket : List UInt8}
    (hparse : env.sdk.parseTokenContract market = some paperMarket) :
    let reward := (r.paper.totalStakerRewards.lookup (addrKey market)).getD 0
    let tick : PaperStakeTick := ⟨env.stampMs, reward, Paper.paperSupply chain paperMarket, reward⟩
    (r.aloneFor env chain 5).block = some ⟨publish, some (.next env.stampMs markets)⟩ ∧
      (r.aloneFor env chain 5).flushed =
        (r.paper.recordPaperStakeTick market tick,
          if publish then r.flushed.2 ++ [.stake market tick] else r.flushed.2) := by
  intro reward tick
  have hsupply : Paper.paperSupply chain paperMarket =
      match (chain.getPaperMarket paperMarket).getD none with
      | some token => (chain.getTokenInfo token).getD 0
      | none => 0 := rfl
  cases hanswer : (chain.getPaperMarket paperMarket).getD none <;> cases publish <;>
    simp [aloneFor, List.replicate_succ, step, act, StakeRace.tick, flushed, hblock,
      StakeFlush.step, hparse, hsupply, hanswer, reward, tick]

/-- Alone, the flush of the block does what `flush_paper_stake_history` does. -/
theorem alone_flushes {publish : Bool} (env : PaperEnv) (chain : PaperChain)
    (hblock : r.block = some ⟨publish, some .copy⟩) :
    ∃ steps, (r.aloneFor env chain steps).block = none ∧
      (r.aloneFor env chain steps).flushed =
        Paper.flushPaperStakeHistory env chain publish r.flushed := by
  let f (s : Paper × List PaperWsMessage) (market : String) : Paper × List PaperWsMessage :=
    match env.sdk.parseTokenContract market with
    | none => s
    | some paperMarket =>
        let reward := (s.1.totalStakerRewards.lookup (addrKey market)).getD 0
        let tick : PaperStakeTick :=
          ⟨env.stampMs, reward, Paper.paperSupply chain paperMarket, reward⟩
        let p := s.1.recordPaperStakeTick market tick
        if publish then (p, s.2 ++ [.stake market tick]) else (p, s.2)
  have hnext : ∀ (markets : List String) (r : StakeRace),
      r.block = some ⟨publish, some (.next env.stampMs markets)⟩ →
      ∃ steps, (r.aloneFor env chain steps).block = none ∧
        (r.aloneFor env chain steps).flushed = markets.foldl f r.flushed := by
    intro markets
    induction markets with
    | nil =>
        intro r hblock
        refine ⟨1, ?_⟩
        simp [aloneFor, List.replicate_succ, step, act, tick, flushed, hblock, StakeFlush.step]
    | cons market markets ih =>
        intro r hblock
        cases hparse : env.sdk.parseTokenContract market with
        | none =>
            obtain ⟨hafter, hflushed⟩ := aloneFor_skip hblock chain hparse
            obtain ⟨steps, hend, hrest⟩ := ih _ hafter
            refine ⟨1 + steps, ?_⟩
            rw [aloneFor_add, hrest, hflushed, List.foldl_cons]
            exact ⟨hend, by simp only [f, hparse]⟩
        | some paperMarket =>
            obtain ⟨hafter, hflushed⟩ := aloneFor_sample hblock chain hparse
            obtain ⟨steps, hend, hrest⟩ := ih _ hafter
            refine ⟨5 + steps, ?_⟩
            rw [aloneFor_add, hrest, hflushed, List.foldl_cons]
            refine ⟨hend, ?_⟩
            cases publish <;> simp only [f, hparse] <;> rfl
  have hcopied : ∃ steps, (r.aloneFor env chain steps).block = none ∧
      (r.aloneFor env chain steps).flushed =
        r.paper.stakeDirty.keys.foldl f ({ r.paper with stakeDirty := ∅ }, r.flushed.2) := by
    by_cases hkeys : r.paper.stakeDirty.keys = []
    · have hclean : r.paper.stakeDirty = ∅ := AList.ext (List.map_eq_nil_iff.mp hkeys)
      refine ⟨1, ?_⟩
      rw [hkeys, List.foldl_nil, ← hclean]
      simp [aloneFor, List.replicate_succ, step, act, tick, flushed, hblock, StakeFlush.step, hkeys]
    · have hstamped : (r.aloneFor env chain 3).block =
          some ⟨publish, some (.next env.stampMs r.paper.stakeDirty.keys)⟩ ∧
          (r.aloneFor env chain 3).flushed = ({ r.paper with stakeDirty := ∅ }, r.flushed.2) := by
        simp [aloneFor, List.replicate_succ, step, act, tick, flushed, hblock, StakeFlush.step,
          hkeys]
      obtain ⟨steps, hend, hrest⟩ := hnext _ _ hstamped.1
      refine ⟨3 + steps, ?_⟩
      rw [aloneFor_add, hrest, hstamped.2]
      exact ⟨hend, rfl⟩
  exact hcopied

end StakeRace

end

namespace Sample

def quietNode : PaperChain := ⟨fun _ => none, fun _ => none⟩

/-- A request takes the mark of the block before the flush of the block copies it. -/
def takenMark : List StakeAction :=
  [.beginBlock true, .mark market, .request market, .advance 0 7 quietNode,
    .advance 0 7 quietNode, .beginFlush, .advanceBlock 7 quietNode] ++
    List.replicate 7 (.advance 0 7 quietNode)

/-- The request ends with a tick recorded, and nothing is sent. -/
theorem takenMark_not_sent :
    ¬Throughout (StakeRace.step sdk) StakeRace.NoneLost takenMark {} ∧
      (takenMark.foldl (StakeRace.step sdk) {}).recorded.length = 1 ∧
      (takenMark.foldl (StakeRace.step sdk) {}).requests.length = 0 := by
  refine ⟨?_, by decide +kernel, by decide +kernel⟩
  intro h
  obtain ⟨since, tick, -, -, hsent⟩ := h.finish (by decide +kernel) (1, market) (by decide +kernel)
  have hnone : (takenMark.foldl (StakeRace.step sdk) {}).sent = [] := by decide +kernel
  rw [hnone] at hsent
  nomatch hsent

end Sample

end ClobIndexer
