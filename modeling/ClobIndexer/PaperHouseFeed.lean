import ClobIndexer.HistoryRings
import ClobIndexer.Indexer.QuietMode
import ClobIndexer.PaperHouseMarks
import ClobIndexer.StakeRevenue
/-!
# The feed of the paper houses

The flush at the end of a block samples the marked houses and, unless the block is quiet, sends
them.  What an event changes is marked, so after every block the newest sample of a house shows
it as it is, and a client that has read a house once and gets every message of it sees the house
as it is, as long as the blocks publish.
-/

namespace ClobIndexer

open Lib

structure PaperHouseWsMessage where
  market : String
  tsMs : UInt64
  house : PaperHouseView
  queue : PaperHouseQueue

/-- What a client reads from the message; the market is shown as it was asked for. -/
def PaperHouseWsMessage.shown (msg : PaperHouseWsMessage) : PaperHouseView × PaperHouseQueue :=
  ({ msg.house with market := addrKey msg.market }, msg.queue)

def PaperHouseWsMessage.recorded (msg : PaperHouseWsMessage) : PaperWsMessage :=
  .house msg.market msg.tsMs msg.house

namespace Paper

/-- `paper_house_ws`, what a client is sent first. -/
def paperHouseWs (env : PaperEnv) (market : String) (p : Paper) : Option PaperHouseWsMessage :=
  let market := Text.trim market
  if market = "" then none
  else some ⟨market, env.stampMs, p.paperHouseView market, p.paperHouseQueue market⟩

def flushedHouses (env : PaperEnv) (publish : Bool) (p : Paper) : List PaperHouseWsMessage :=
  if publish then
    p.houseDirty.keys.map fun market =>
      ⟨market, env.stampMs, p.paperHouseView market, p.paperHouseQueue market⟩
  else []

def newestSample (market : String) (p : Paper) : Option PaperHouseTick :=
  ((p.houseHistory.lookup (addrKey market)).getD []).getLast?

variable (env : PaperEnv) {p q r : Paper} {market : String}

/-! ## The flush -/

def sampled (history : Dict String (List PaperHouseTick)) (rows : List PaperHouseHistoryRow)
    (p : Paper) : Paper :=
  { p with houseDirty := ∅, houseHistory := history, houseRows := rows }

theorem paperHouseView_sampled (history : Dict String (List PaperHouseTick))
    (rows : List PaperHouseHistoryRow) (market : String) (p : Paper) :
    (p.sampled history rows).paperHouseView market = p.paperHouseView market := by
  refine paperHouseView_congr rfl rfl rfl ?_ fun row _ => rfl
  apply exposures_congr <;> rfl

theorem houseShown_sampled (history : Dict String (List PaperHouseTick))
    (rows : List PaperHouseHistoryRow) (market : String) (p : Paper) :
    (p.sampled history rows).houseShown market = p.houseShown market := by
  refine houseShown_congr rfl rfl rfl rfl ?_ fun row _ => rfl
  apply exposures_congr <;> rfl

theorem newestSample_push {key : String} (hkey : addrKey key = key) (hne : key ≠ "")
    (tsMs : UInt64) (view : PaperHouseView) (q : Paper) (market : String) :
    (q.pushPaperHouseHistory key tsMs view).newestSample market =
      if addrKey market = key then some (HistoryRing.houseTick tsMs view)
      else q.newestSample market := by
  unfold newestSample
  rw [HistoryRing.houseHistory_pushPaperHouseHistory, hkey, if_neg hne, Dict.lookup_insert_ite]
  split_ifs
  · rw [Option.getD_some]
    exact Ring.getLast?_push (by decide) _ _
  · rfl

theorem pushPaperHouseHistory_sampled {key : String} (hne : addrKey key ≠ "") (tsMs : UInt64)
    (view : PaperHouseView) (history : Dict String (List PaperHouseTick))
    (rows : List PaperHouseHistoryRow) (p : Paper) :
    ∃ history' rows', (p.sampled history rows).pushPaperHouseHistory key tsMs view =
      p.sampled history' rows' := by
  unfold pushPaperHouseHistory
  dsimp only
  rw [if_neg hne]
  exact ⟨_, _, rfl⟩

theorem flush_foldl (publish : Bool) (tsMs : UInt64) {keys : List String}
    (hkeys : ∀ key ∈ keys, addrKey key = key ∧ key ≠ "") (p : Paper)
    (history : Dict String (List PaperHouseTick)) (rows : List PaperHouseHistoryRow)
    (feed : List PaperWsMessage) :
    ∃ history' rows',
      keys.foldl
          (fun s market =>
            let view := s.1.paperHouseView market
            let p := s.1.pushPaperHouseHistory market tsMs view
            if publish then (p, s.2 ++ [PaperWsMessage.house market tsMs view]) else (p, s.2))
          (p.sampled history rows, feed) =
        (p.sampled history' rows',
          feed ++ if publish then keys.map fun key => .house key tsMs (p.paperHouseView key)
            else []) ∧
      ∀ market, (p.sampled history' rows').newestSample market =
        if addrKey market ∈ keys then
          some (HistoryRing.houseTick tsMs (p.houseShown market).1)
        else (p.sampled history rows).newestSample market := by
  induction keys generalizing history rows feed with
  | nil =>
      refine ⟨history, rows, ?_, fun market => ?_⟩
      · cases publish <;> simp
      · rw [if_neg List.not_mem_nil]
  | cons key keys ih =>
      obtain ⟨hkey, hne⟩ := hkeys key List.mem_cons_self
      have hpush := newestSample_push hkey hne tsMs (p.paperHouseView key) (p.sampled history rows)
      obtain ⟨history₁, rows₁, heq⟩ := pushPaperHouseHistory_sampled (p := p) (hkey.symm ▸ hne) tsMs
        (p.paperHouseView key) history rows
      rw [heq] at hpush
      have hrest := fun feed => ih (fun key' h => hkeys key' (List.mem_cons_of_mem key h)) history₁
        rows₁ feed
      rw [List.foldl_cons]
      dsimp only
      rw [paperHouseView_sampled, heq]
      obtain ⟨history', rows', hfold, hsample⟩ := hrest
        (if publish then feed ++ [.house key tsMs (p.paperHouseView key)] else feed)
      refine ⟨history', rows', ?_, fun market => ?_⟩
      · cases publish
        · exact hfold
        · refine hfold.trans ?_
          simp
      · rw [hsample, hpush]
        by_cases hmem : addrKey market ∈ keys
        · rw [if_pos hmem, if_pos (List.mem_cons_of_mem key hmem)]
        · rw [if_neg hmem]
          by_cases hhead : addrKey market = key
          · rw [if_pos hhead, if_pos (List.mem_cons.mpr (Or.inl hhead))]
            unfold houseShown
            rw [hhead]
          · rw [if_neg hhead, if_neg fun h => (List.mem_cons.mp h).elim hhead hmem]

/-- A flush from one state to the other: every marked house is sampled as it is shown, and none
is marked any more. -/
structure Flushed (tsMs : UInt64) (p q : Paper) : Prop where
  keyed : q.Keyed
  clean : q.houseDirty = ∅
  shown : ∀ market, q.houseShown market = p.houseShown market
  sample : ∀ market, addrKey market ∈ p.houseDirty →
    q.newestSample market = some (HistoryRing.houseTick tsMs (p.houseShown market).1)
  unmarked : ∀ market, addrKey market ∉ p.houseDirty → q.newestSample market = p.newestSample market

theorem flushPaperHouseWs_eq (publish : Bool) (hp : p.Keyed) (feed : List PaperWsMessage) :
    Flushed env.stampMs p (flushPaperHouseWs env publish (p, feed)).1 ∧
      (flushPaperHouseWs env publish (p, feed)).2 =
        feed ++ (p.flushedHouses env publish).map PaperHouseWsMessage.recorded := by
  have hkeys : ∀ key ∈ p.houseDirty.keys, addrKey key = key ∧ key ≠ "" :=
    fun key hkey => hp.dirty key (AList.mem_keys.mp hkey)
  obtain ⟨history, rows, hfold, hsample⟩ :=
    flush_foldl publish env.stampMs hkeys p p.houseHistory p.houseRows feed
  have heq : flushPaperHouseWs env publish (p, feed) = (p.sampled history rows,
      feed ++ if publish then p.houseDirty.keys.map fun key =>
        .house key env.stampMs (p.paperHouseView key) else []) := hfold
  rw [heq]
  constructor
  · refine ⟨⟨hp.rows, hp.claims, fun m hm => absurd hm (AList.notMem_empty m)⟩, rfl,
      fun market => houseShown_sampled history rows market p, ?_, ?_⟩
    · intro market hmarked
      exact (hsample market).trans (if_pos (AList.mem_keys.mpr hmarked))
    · intro market hunmarked
      exact (hsample market).trans (if_neg fun hmem => hunmarked (AList.mem_keys.mp hmem))
  · unfold flushedHouses
    cases publish
    · rfl
    · rw [if_pos rfl, if_pos rfl, List.map_map]
      rfl

theorem SameHouses.flushed (h : SameHouses q r) {tsMs : UInt64} (hflushed : Flushed tsMs p q) :
    Flushed tsMs p r := by
  have hsample : ∀ market, r.newestSample market = q.newestSample market := by
    intro market
    unfold newestSample
    rw [h.houseHistory]
  refine ⟨h.keyed hflushed.keyed, h.dirty.trans hflushed.clean, fun market => ?_, ?_, ?_⟩
  · exact (houseShown_congr (by rw [h.house]) (by rw [h.volume]) (by rw [h.positionsOpen])
      (by rw [h.queueOpen]) (exposures_congr h.instruments h.oi _)
      fun row _ => userPnl_congr h.instruments h.oracleMarks row).trans (hflushed.shown market)
  · exact fun market hmarked => (hsample market).trans (hflushed.sample market hmarked)
  · exact fun market hunmarked => (hsample market).trans (hflushed.unmarked market hunmarked)

theorem flushPaperStakeHistory_feed (chain : PaperChain) (publish : Bool)
    (s : Paper × List PaperWsMessage) :
    flushPaperStakeHistory env chain publish s =
      (({ s.1 with stakeDirty := ∅ } : Paper).recordSamples (s.1.stakeSamples env chain),
        s.2 ++ if publish then (s.1.stakeSamples env chain).map fun x => .stake x.1 x.2 else []) :=
  foldl_stakeSamples env s.1 chain publish s.1.stakeDirty.keys { s.1 with stakeDirty := ∅ } s.2 rfl

theorem sameHouses_recordSamples (samples : List (String × PaperStakeTick)) (p : Paper) :
    SameHouses p (({ p with stakeDirty := ∅ } : Paper).recordSamples samples) := by
  have hsamples : ∀ q : Paper, SameHouses p q → SameHouses p (q.recordSamples samples) := by
    unfold recordSamples
    induction samples with
    | nil => exact fun q hq => hq
    | cons s samples ih =>
        intro q hq
        exact ih _ ⟨hq.1, hq.2, hq.3, hq.4, hq.5, hq.6, hq.7, hq.8, hq.9⟩
  exact hsamples _ ⟨rfl, rfl, rfl, rfl, rfl, rfl, rfl, rfl, rfl⟩

end Paper

/-! ## Blocks -/

structure FeedBlock where
  env : Env
  paperChain : PaperChain
  opts : ProcessOpts
  prepared : PreparedBlock

namespace World

def run (w : World) (b : FeedBlock) : World :=
  w.processPreparedBlock b.env b.paperChain b.opts b.prepared

def beforeFlush (b : FeedBlock) (w : World) : World :=
  (w.applySerial b.env b.opts b.prepared).applyMarkets b.env b.opts b.prepared

def houseMessages (b : FeedBlock) (w : World) : List PaperHouseWsMessage :=
  let before := w.beforeFlush b
  before.paper.flushedHouses (before.paperEnv b.env b.prepared.blockNum) b.opts.publishWs

/-- Instruments are registered in the block while nothing of them is open, or as they were. -/
def KeepsInstruments (w : World) (b : FeedBlock) : Prop :=
  Along (applyGlobalEvent b.env b.prepared.blockNum)
    (fun w e => ∀ s, e = .secondary s → s.KeepsInstruments b.env.sdk w.paper)
    b.prepared.block.globalEvents { w with ctx := w.ctx.beginBlock b.prepared.block }

variable {w : World} {b : FeedBlock}

theorem moves_applyGlobals (lawful : LawfulSdk b.env.sdk) (hp : w.paper.Keyed)
    (hkeeps : w.KeepsInstruments b) :
    Paper.Moves w.paper (w.applyGlobals b.env b.prepared).paper := by
  unfold applyGlobals
  unfold KeepsInstruments at hkeeps
  have hmoves : ∀ (es : List GlobalEvent) (v : World), v.paper.Keyed →
      Along (applyGlobalEvent b.env b.prepared.blockNum)
        (fun w e => ∀ s, e = .secondary s → s.KeepsInstruments b.env.sdk w.paper) es v →
      Paper.Moves v.paper (es.foldl (applyGlobalEvent b.env b.prepared.blockNum) v).paper := by
    intro es
    induction es with
    | nil => exact fun v hv _ => ⟨Dirty.Marks.refl _, hv, rfl⟩
    | cons e es ih =>
        intro v hv halong
        have hstep : Paper.Moves v.paper
            (v.applyGlobalEvent b.env b.prepared.blockNum e).paper := by
          cases e with
          | secondary s => exact Paper.moves_applySecondaryEvent lawful hv (halong.1 s rfl)
          | _ => exact ⟨Dirty.Marks.refl _, hv, rfl⟩
        exact hstep.trans (ih _ hstep.keyed halong.2)
  exact hmoves _ { w with ctx := w.ctx.beginBlock b.prepared.block } hp hkeeps

theorem flushed_run (hp : (w.beforeFlush b).paper.Keyed) :
    Paper.Flushed ((w.beforeFlush b).paperEnv b.env b.prepared.blockNum).stampMs
        (w.beforeFlush b).paper (w.run b).paper ∧
      ∃ ticks : List (String × PaperStakeTick), (w.run b).paperFeed = (w.beforeFlush b).paperFeed ++
        (w.houseMessages b).map PaperHouseWsMessage.recorded ++
        ticks.map fun s => .stake s.1 s.2 := by
  unfold houseMessages run processPreparedBlock
  generalize hbefore : w.beforeFlush b = before at hp
  unfold beforeFlush at hbefore
  rw [hbefore]
  unfold endBlock
  dsimp only
  generalize before.paperEnv b.env b.prepared.blockNum = env
  obtain ⟨hflushed, hfeed⟩ := Paper.flushPaperHouseWs_eq env b.opts.publishWs hp before.paperFeed
  generalize Paper.flushPaperHouseWs env b.opts.publishWs (before.paper, before.paperFeed) = s
    at hflushed hfeed ⊢
  rw [Paper.flushPaperStakeHistory_feed]
  refine ⟨(Paper.sameHouses_recordSamples _ _).flushed hflushed, ?_⟩
  dsimp only
  rw [hfeed]
  cases b.opts.publishWs
  · exact ⟨[], rfl⟩
  · exact ⟨_, rfl⟩

/-- A block marks the houses that it changes, and flushes them. -/
theorem moves_flushed_run (lawful : LawfulSdk b.env.sdk) (hp : w.paper.Keyed)
    (hkeeps : w.KeepsInstruments b) :
    Paper.Moves w.paper (w.beforeFlush b).paper ∧
      Paper.Flushed ((w.beforeFlush b).paperEnv b.env b.prepared.blockNum).stampMs
        (w.beforeFlush b).paper (w.run b).paper := by
  have hmoves : Paper.Moves w.paper (w.beforeFlush b).paper := by
    unfold beforeFlush
    rw [paper_applyMarkets]
    exact moves_applyGlobals lawful hp hkeeps
  exact ⟨hmoves, (flushed_run hmoves.keyed).1⟩

end World

/-! ## Samples -/

/-- The newest sample of a house shows it, and a house without one is empty. -/
structure Paper.SamplesShow (market : String) (p : Paper) : Prop where
  newest : ∀ tick, p.newestSample market = some tick →
    tick = HistoryRing.houseTick tick.tsMs (p.houseShown market).1
  empty : p.newestSample market = none → p.houseShown market = Paper.houseShown market {}

structure World.HousesCurrent (w : World) : Prop where
  keyed : w.paper.Keyed
  clean : w.paper.houseDirty = ∅
  samples : ∀ market, addrKey market ≠ "" → w.paper.SamplesShow market

theorem World.housesCurrent_start {w : World} (h : w.paper = {}) : w.HousesCurrent := by
  constructor
  · rw [h]
    refine ⟨?_, ?_, ?_⟩
    · intro key v hv
      cases hv
    · intro key v hv
      cases hv
    · exact fun m hm => absurd hm (AList.notMem_empty m)
  · rw [h]
  · intro market _
    rw [h]
    refine ⟨?_, fun _ => rfl⟩
    intro tick htick
    cases htick

/-- A block keeps the samples up to date, whether it publishes or not. -/
theorem World.housesCurrent_run {w : World} {b : FeedBlock} (h : w.HousesCurrent)
    (lawful : LawfulSdk b.env.sdk) (hkeeps : w.KeepsInstruments b) : (w.run b).HousesCurrent := by
  obtain ⟨hmoves, hflushed⟩ := moves_flushed_run lawful h.keyed hkeeps
  refine ⟨hflushed.keyed, hflushed.clean, fun market hmarket => ?_⟩
  have hshown := hflushed.shown market
  by_cases hmarked : addrKey market ∈ (w.beforeFlush b).paper.houseDirty
  · have hsample := hflushed.sample market hmarked
    constructor
    · intro tick htick
      rw [hsample] at htick
      cases htick
      rw [hshown]
      rfl
    · intro hnone
      rw [hsample] at hnone
      cases hnone
  · have hsame : (w.beforeFlush b).paper.houseShown market = w.paper.houseShown market := by
      rcases hmoves.marks.changed market with (hempty | hdirty) | heq
      · exact absurd hempty hmarket
      · exact absurd hdirty hmarked
      · exact heq
    have hsample : (w.run b).paper.newestSample market = w.paper.newestSample market := by
      rw [hflushed.unmarked market hmarked]
      unfold Paper.newestSample
      rw [hmoves.houseHistory]
    have hold := h.samples market hmarket
    constructor
    · rw [hsample, hshown, hsame]
      exact hold.newest
    · rw [hsample, hshown, hsame]
      exact hold.empty

theorem World.housesCurrent_foldl {w : World} (h : w.HousesCurrent) {blocks : List FeedBlock}
    (lawful : ∀ b ∈ blocks, LawfulSdk b.env.sdk)
    (hkeeps : Along World.run World.KeepsInstruments blocks w) :
    (blocks.foldl World.run w).HousesCurrent := by
  induction blocks generalizing w with
  | nil => exact h
  | cons b blocks ih =>
      have hstep := housesCurrent_run h (lawful b List.mem_cons_self) hkeeps.1
      exact ih hstep (fun b' h' => lawful b' (List.mem_cons_of_mem b h')) hkeeps.2

/-! ## Clients -/

structure HouseFeed where
  world : World
  seen : PaperHouseView × PaperHouseQueue

def received (market : String) (seen : PaperHouseView × PaperHouseQueue)
    (messages : List PaperHouseWsMessage) : PaperHouseView × PaperHouseQueue :=
  messages.foldl (fun seen msg => if msg.market = addrKey market then msg.shown else seen) seen

def HouseFeed.step (market : String) (f : HouseFeed) (b : FeedBlock) : HouseFeed where
  world := f.world.run b
  seen := received market f.seen (f.world.houseMessages b)

/-- A message tells what the house shows, however its market is written. -/
theorem shown_message {market market' : String} (tsMs : UInt64) (p : Paper)
    (h : addrKey market' = addrKey market) :
    PaperHouseWsMessage.shown ⟨market', tsMs, p.paperHouseView market', p.paperHouseQueue market'⟩ =
      p.houseShown market := by
  unfold PaperHouseWsMessage.shown Paper.houseShown
  apply Prod.ext
  · unfold Paper.paperHouseView
    dsimp only
    rw [h, addrKey_addrKey]
  · unfold Paper.paperHouseQueue Paper.paperQueueClaimsForMarket
    dsimp only
    rw [h]

theorem shown_paperHouseWs {env : PaperEnv} {market text : String} {p : Paper}
    {msg : PaperHouseWsMessage} (h : p.paperHouseWs env text = some msg)
    (htext : addrKey text = addrKey market) : msg.shown = p.houseShown market := by
  unfold Paper.paperHouseWs at h
  dsimp only at h
  split_ifs at h
  cases h
  refine shown_message _ p (Eq.trans ?_ htext)
  unfold addrKey
  rw [Text.trim_trim]

theorem addrKey_ne_of_paperHouseWs {env : PaperEnv} {market : String} {p : Paper}
    {msg : PaperHouseWsMessage} (h : p.paperHouseWs env market = some msg) :
    addrKey market ≠ "" := by
  unfold Paper.paperHouseWs at h
  dsimp only at h
  split_ifs at h with hempty
  unfold addrKey Text.toAsciiLowercase
  intro hkey
  apply hempty
  apply String.toList_injective
  have hlist := congrArg String.toList hkey
  simpa using hlist

theorem received_flushedHouses (env : PaperEnv) {p : Paper} (hp : p.Keyed) (market : String)
    (seen : PaperHouseView × PaperHouseQueue) :
    received market seen (p.flushedHouses env true) =
      if addrKey market ∈ p.houseDirty.keys then p.houseShown market else seen := by
  have hkeys : ∀ key ∈ p.houseDirty.keys, addrKey key = key :=
    fun key hkey => (hp.dirty key (AList.mem_keys.mp hkey)).1
  unfold received Paper.flushedHouses
  rw [if_pos rfl]
  generalize p.houseDirty.keys = keys at hkeys
  induction keys generalizing seen with
  | nil => rfl
  | cons key keys ih =>
      have hkey := hkeys key List.mem_cons_self
      have hrest := fun seen => ih seen fun key' h => hkeys key' (List.mem_cons_of_mem key h)
      rw [List.map_cons, List.foldl_cons, hrest]
      by_cases hhead : key = addrKey market
      · have hshown := shown_message env.stampMs p (hkey.trans hhead)
        rw [if_pos hhead, hshown, ite_self, if_pos (hhead ▸ List.mem_cons_self)]
      · rw [if_neg hhead]
        by_cases hmem : addrKey market ∈ keys
        · rw [if_pos hmem, if_pos (List.mem_cons_of_mem key hmem)]
        · rw [if_neg hmem, if_neg]
          intro h
          rcases List.mem_cons.mp h with heq | htail
          · exact hhead heq.symm
          · exact hmem htail

/-- The client has been sent what the house shows, unless it is marked. -/
def HouseFeed.Current (market : String) (f : HouseFeed) : Prop :=
  f.world.paper.Keyed ∧
    Dirty.Fresh (fun _ : Unit => Paper.houseShown market) (fun _ => Paper.houseMarked market)
      (fun _ => f.seen) f.world.paper

theorem houseFeed_step {market : String} {f : HouseFeed} {b : FeedBlock} (h : f.Current market)
    (lawful : LawfulSdk b.env.sdk) (hkeeps : f.world.KeepsInstruments b)
    (hpublish : b.opts.publishWs = true) : (f.step market b).Current market := by
  obtain ⟨hmoves, hflushed⟩ := World.moves_flushed_run lawful h.1 hkeeps
  have hseen := received_flushedHouses ((f.world.beforeFlush b).paperEnv b.env b.prepared.blockNum)
    hmoves.keyed market f.seen
  rw [← hpublish] at hseen
  refine ⟨hflushed.keyed, (h.2.steps (hmoves.marks.restrict fun _ => market)).flush
    (fun _ => hflushed.shown market) ?_ ?_⟩
  · rintro _ (hempty | hdirty)
    · exact Or.inl (Or.inl hempty)
    · exact Or.inr (hseen.trans (if_pos (AList.mem_keys.mpr hdirty)))
  · intro _ hunmarked
    exact hseen.trans (if_neg fun hmem => hunmarked (Or.inr (AList.mem_keys.mp hmem)))

theorem houseFeed_run {market : String} {f : HouseFeed} (h : f.Current market)
    {live : List FeedBlock} (lawful : ∀ b ∈ live, LawfulSdk b.env.sdk)
    (hkeeps : Along World.run World.KeepsInstruments live f.world)
    (hlive : ∀ b ∈ live, b.opts.publishWs = true) :
    (live.foldl (HouseFeed.step market) f).Current market ∧
      (live.foldl (HouseFeed.step market) f).world = live.foldl World.run f.world := by
  induction live generalizing f with
  | nil => exact ⟨h, rfl⟩
  | cons b live ih =>
      have hstep := houseFeed_step h (lawful b List.mem_cons_self) hkeeps.1
        (hlive b List.mem_cons_self)
      exact ih hstep (fun b' h' => lawful b' (List.mem_cons_of_mem b h')) hkeeps.2
        fun b' h' => hlive b' (List.mem_cons_of_mem b h')

/-- From a fresh start, after any blocks that register instruments while nothing of them is open:
the newest sample of every house shows it, and where the later blocks publish, a client that has
read the house before them and got the messages since has last been sent what it shows. -/
theorem houseFeed_current (w : World) (hstart : w.paper = {}) (blocks live : List FeedBlock)
    (lawful : ∀ b ∈ blocks ++ live, LawfulSdk b.env.sdk)
    (hblocks : Along World.run World.KeepsInstruments blocks w)
    (hlive : Along World.run World.KeepsInstruments live (blocks.foldl World.run w))
    (hpublish : ∀ b ∈ live, b.opts.publishWs = true) (env : PaperEnv) (market : String)
    (msg : PaperHouseWsMessage)
    (hread : (blocks.foldl World.run w).paper.paperHouseWs env market = some msg) :
    (live.foldl World.run (blocks.foldl World.run w)).paper.SamplesShow market ∧
      (live.foldl (HouseFeed.step market) ⟨blocks.foldl World.run w, msg.shown⟩).seen =
        (live.foldl World.run (blocks.foldl World.run w)).paper.houseShown market := by
  have hlawful : ∀ b ∈ blocks, LawfulSdk b.env.sdk :=
    fun b hb => lawful b (List.mem_append.mpr (Or.inl hb))
  have hlawful' : ∀ b ∈ live, LawfulSdk b.env.sdk :=
    fun b hb => lawful b (List.mem_append.mpr (Or.inr hb))
  have hmarket : addrKey market ≠ "" := addrKey_ne_of_paperHouseWs hread
  have hbefore := World.housesCurrent_foldl (World.housesCurrent_start hstart) hlawful hblocks
  have hafter := World.housesCurrent_foldl hbefore hlawful' hlive
  refine ⟨hafter.samples market hmarket, ?_⟩
  have hshown := shown_paperHouseWs hread rfl
  have hcurrent : HouseFeed.Current market ⟨blocks.foldl World.run w, msg.shown⟩ :=
    ⟨hbefore.keyed, fun _ => Or.inr hshown⟩
  obtain ⟨⟨hkeyed, hfresh⟩, hworld⟩ := houseFeed_run hcurrent hlawful' hlive hpublish
  rw [hworld] at hfresh
  rcases hfresh () with (hempty | hdirty) | hseen
  · exact absurd hempty hmarket
  · rw [hafter.clean] at hdirty
    exact absurd hdirty (AList.notMem_empty _)
  · exact hseen

namespace Sample

def queueBlock : FeedBlock where
  env := setting
  paperChain := ⟨fun _ => none, fun _ => none⟩
  opts := {}
  prepared := ⟨1, "", 1, ⟨1, "", 0, [⟨true, account,
    [⟨.global (.secondary (.paperQueued paperMarket 1 account 5 {})), none⟩]⟩]⟩, ∅, []⟩

theorem keepsInstruments_queueBlock (w : World) : w.KeepsInstruments queueBlock := by
  refine ⟨?_, trivial⟩
  rintro s hs
  cases hs
  trivial

def houseStart : World := { ctx := { store := {} } }

theorem houseFeed_queueBlock :
    ∃ msg, houseStart.paper.paperHouseWs paperEnv paperMarket = some msg ∧
      ([queueBlock].foldl World.run houseStart).paper.SamplesShow paperMarket ∧
      ([queueBlock].foldl (HouseFeed.step paperMarket) ⟨houseStart, msg.shown⟩).seen =
        ([queueBlock].foldl World.run houseStart).paper.houseShown paperMarket := by
  have hne : Text.trim paperMarket ≠ "" := by decide +kernel
  obtain ⟨msg, hread⟩ : ∃ msg, houseStart.paper.paperHouseWs paperEnv paperMarket = some msg := by
    unfold Paper.paperHouseWs
    dsimp only
    rw [if_neg hne]
    exact ⟨_, rfl⟩
  refine ⟨msg, hread, houseFeed_current houseStart rfl [] [queueBlock] ?_ trivial
    ⟨keepsInstruments_queueBlock _, trivial⟩ ?_ paperEnv paperMarket msg hread⟩
  · intro b hb
    cases List.mem_singleton.mp hb
    exact lawful
  · intro b hb
    cases List.mem_singleton.mp hb
    rfl

end Sample

end ClobIndexer
