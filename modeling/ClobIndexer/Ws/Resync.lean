import ClobIndexer.Lib.Runs
import ClobIndexer.Ws.Subscribe
/-!
# Resyncs

The task of `subscribe_orderbook` on a channel that retains so many messages only.  A
receiver that has fallen behind is told so once, and goes on at the oldest message that is
retained; the task then sends a snapshot of the live book.  What the receiver goes on with
was sent before the snapshot was taken, so the first delta after the snapshot is not newer.
-/

namespace ClobIndexer

open Lib

def broadcastCapacity : Nat := 4096

/-- The books, the deltas that are made and not sent yet, all messages of the market's
channel, and the task: the number of the next message for its receiver, whether the receiver
has told of a lag, and what the task has passed on. -/
structure OrderbookTask where
  tx : BookTx
  inFlight : List OrderBookDelta := []
  sent : List OrderBookDelta := []
  cursor : Option Nat := none
  lagged : Bool := false
  passedOn : List WsMessage := []

/-- A book operation, a send in the order in which the deltas were made, the opening of the
receiver, and the two things that the task does. -/
inductive OrderbookTaskStep where
  | update (op : BookOp)
  | publish
  | subscribe
  | recv
  | resync

namespace OrderbookTask

variable (sdk : Sdk) (spotMarket : String) (depth : Nat)

def oldest (s : OrderbookTask) : Nat := s.sent.length - broadcastCapacity

def update (op : BookOp) (s : OrderbookTask) : OrderbookTask :=
  { s with
    tx := (op.apply sdk s.tx).1
    inFlight := s.inFlight ++ (op.published sdk s.tx).toList.filter
      (fun delta => delta.spotMarket = normalizeSpotMarketKey sdk spotMarket) }

def publish (s : OrderbookTask) : OrderbookTask :=
  match s.inFlight with
  | [] => s
  | delta :: inFlight => { s with inFlight := inFlight, sent := s.sent ++ [delta] }

def subscribe (s : OrderbookTask) : OrderbookTask :=
  match s.cursor with
  | none => { s with cursor := some s.sent.length }
  | some _ => s

/-- The delta that the receiver has next, unless it has fallen behind. -/
def next (s : OrderbookTask) : Option OrderBookDelta :=
  s.cursor.bind fun cursor =>
    if s.lagged ∨ cursor < s.oldest then none else s.sent[cursor]?

/-- `rx.recv()`, with what the task does on a delta. -/
def recv (s : OrderbookTask) : OrderbookTask :=
  match s.cursor with
  | none => s
  | some cursor =>
      match s.next with
      | some delta =>
          { s with cursor := some (cursor + 1), passedOn := s.passedOn ++ [.delta delta] }
      | none =>
          if s.lagged = false ∧ cursor < s.oldest then
            { s with cursor := some s.oldest, lagged := true }
          else s

/-- The snapshot after a lag; none where the market has no shard. -/
def resync (s : OrderbookTask) : OrderbookTask :=
  if s.lagged then
    let key := normalizeSpotMarketKey sdk spotMarket
    { s with
      lagged := false
      passedOn := s.passedOn ++
        ((s.tx.books.wsSnapshot sdk key depth).map WsMessage.snapshot).toList }
  else s

def step (s : OrderbookTask) : OrderbookTaskStep → OrderbookTask
  | .update op => s.update sdk spotMarket op
  | .publish => s.publish
  | .subscribe => s.subscribe
  | .recv => s.recv
  | .resync => s.resync sdk spotMarket depth

/-- The deltas between a snapshot and the next one are newer than the snapshot, and each is
newer than the one before. -/
def Resynchronizes (s : OrderbookTask) : Prop :=
  ∀ (before : List WsMessage) (snapshot : OrderBookSnapshot) (deltas : List OrderBookDelta)
    (after : List WsMessage),
    s.passedOn = before ++ (.snapshot snapshot :: deltas.map .delta) ++ after →
      (∀ delta ∈ deltas, snapshot.sequence < delta.sequence) ∧
        deltas.Pairwise fun a b => a.sequence < b.sequence

def NeverResynced (s : OrderbookTask) : Prop := ∀ snapshot, .snapshot snapshot ∉ s.passedOn

/-- A receiver that has a delta has never been resynchronized. -/
def TakesBeforeResync (s : OrderbookTask) : OrderbookTaskStep → Prop
  | .recv => s.next.isSome → s.NeverResynced
  | _ => True

/-! ## What a step keeps -/

def book (s : OrderbookTask) : SpotBook :=
  s.tx.books.shard (normalizeSpotMarketKey sdk spotMarket)

/-- No delta is ahead of the book, the receiver is not ahead of the channel, and what it goes
on with after a lag is there. -/
structure Behind (s : OrderbookTask) : Prop where
  deltas : ∀ delta ∈ s.sent ++ s.inFlight,
    delta.sequence.toNat ≤ (s.book sdk spotMarket).sequence.toNat
  cursor : ∀ cursor, s.cursor = some cursor → cursor ≤ s.sent.length
  lagged : s.lagged = true → ∃ cursor, s.cursor = some cursor ∧ cursor < s.sent.length
  shard : s.sent ++ s.inFlight ≠ [] → normalizeSpotMarketKey sdk spotMarket ∈ s.tx.books.shards

/-- After a snapshot comes nothing yet, and what the receiver has next is not newer. -/
def Stale (s : OrderbookTask) : Prop :=
  s.NeverResynced ∨ ∃ before snapshot, s.passedOn = before ++ [.snapshot snapshot] ∧
    (s.lagged = false → ∃ cursor delta, s.cursor = some cursor ∧ s.sent[cursor]? = some delta ∧
      delta.sequence ≤ snapshot.sequence)

structure Sound (s : OrderbookTask) : Prop where
  resynchronizes : s.Resynchronizes
  behind : s.Behind sdk spotMarket
  stale : s.Stale

variable {sdk spotMarket depth} {s : OrderbookTask}

/-- A delta of the market is not ahead of the book it was made from, and the market has a
shard then. -/
theorem published_behind (op : BookOp) (t : BookTx) {delta : OrderBookDelta}
    (h : delta ∈ (op.published sdk t).toList.filter
      (fun delta => delta.spotMarket = normalizeSpotMarketKey sdk spotMarket)) :
    delta.sequence.toNat ≤
        ((op.apply sdk t).1.books.shard (normalizeSpotMarketKey sdk spotMarket)).sequence.toNat ∧
      normalizeSpotMarketKey sdk spotMarket ∈ (op.apply sdk t).1.books.shards := by
  rw [List.mem_filter, Option.mem_toList, decide_eq_true_eq] at h
  have hsome : (op.apply sdk t).2.map (·.1) = some delta := by
    rw [BookOp.published] at h
    split_ifs at h
    · exact h.1
    · cases h.1
  have hmove := bookMove_apply sdk (normalizeSpotMarketKey sdk spotMarket) t op op.prices_true
  refine ⟨(Subscription.bookMove_behind hmove).2 delta hsome h.2, ?_⟩
  by_contra hmissing
  have hempty : (op.apply sdk t).1.books.shard (normalizeSpotMarketKey sdk spotMarket) = {} := by
    unfold Books.shard
    rw [AList.lookup_eq_none.mpr hmissing]
    rfl
  cases hmove with
  | same hlevels hsequence hdelta => exact hdelta delta hsome h.2
  | reload hfits hsequence hdelta =>
      rw [hsome] at hdelta
      cases hdelta
  | level side price size d hprice hlevels hsequence hdelta htells =>
      -- a book without a shard has counted nothing
      rw [hempty] at hsequence
      have hcount := congrArg UInt64.toNat hsequence
      rw [Word.toNat_satAdd] at hcount
      have hzero : ({} : SpotBook).sequence.toNat = 0 := rfl
      have hone : (1 : UInt64).toNat = 1 := rfl
      unfold Word.u64Max at hcount
      omega

theorem behind_update (h : s.Behind sdk spotMarket) (op : BookOp) :
    (s.update sdk spotMarket op).Behind sdk spotMarket := by
  have hmove := Subscription.bookMove_behind
    (bookMove_apply sdk (normalizeSpotMarketKey sdk spotMarket) s.tx op op.prices_true)
  refine ⟨?_, h.cursor, h.lagged, ?_⟩
  · intro delta hdelta
    simp only [update, ← List.append_assoc] at hdelta
    rcases List.mem_append.mp hdelta with hold | hnew
    · exact (h.deltas delta hold).trans hmove.1
    · exact (published_behind op s.tx hnew).1
  · intro hsome
    by_cases hold : s.sent ++ s.inFlight = []
    · obtain ⟨delta, hnew⟩ := List.exists_mem_of_ne_nil _ hsome
      simp only [update, ← List.append_assoc, hold, List.nil_append] at hnew
      exact (published_behind op s.tx hnew).2
    · exact Subscription.mem_shards_apply op (h.shard hold)

theorem behind_publish (h : s.Behind sdk spotMarket) : s.publish.Behind sdk spotMarket := by
  unfold publish
  cases hinFlight : s.inFlight with
  | nil => exact h
  | cons delta inFlight =>
      have hsame : s.sent ++ [delta] ++ inFlight = s.sent ++ s.inFlight := by
        rw [hinFlight]
        simp
      refine ⟨?_, ?_, ?_, ?_⟩
      · rw [hsame]
        exact h.deltas
      · intro cursor hcursor
        have hle := h.cursor cursor hcursor
        rw [List.length_append]
        omega
      · intro hlagged
        obtain ⟨cursor, hcursor, hlt⟩ := h.lagged hlagged
        refine ⟨cursor, hcursor, ?_⟩
        rw [List.length_append]
        omega
      · rw [hsame]
        exact h.shard

theorem stale_publish (h : s.Stale) : s.publish.Stale := by
  unfold publish
  cases s.inFlight with
  | nil => exact h
  | cons delta inFlight =>
      rcases h with hnever | ⟨before, snapshot, hpassed, hnext⟩
      · exact Or.inl hnever
      · refine Or.inr ⟨before, snapshot, hpassed, ?_⟩
        intro hlagged
        obtain ⟨cursor, other, hcursor, hget, hle⟩ := hnext hlagged
        refine ⟨cursor, other, hcursor, ?_, hle⟩
        obtain ⟨hlt, -⟩ := List.getElem?_eq_some_iff.mp hget
        rw [List.getElem?_append_left hlt]
        exact hget

/-! ## What is passed on -/

theorem resynchronizes_of_never (h : s.NeverResynced) : s.Resynchronizes := by
  intro before snapshot deltas after heq
  refine absurd ?_ (h snapshot)
  rw [heq]
  simp

theorem resynchronizes_snapshot {s' : OrderbookTask} {snapshot : OrderBookSnapshot}
    (h : s.Resynchronizes) (hpassed : s'.passedOn = s.passedOn ++ [.snapshot snapshot]) :
    s'.Resynchronizes := by
  intro before snapshot' deltas after heq
  rw [hpassed] at heq
  rcases List.eq_nil_or_concat after with rfl | ⟨after, message, rfl⟩
  · -- the last message is the snapshot, so no delta stands behind it
    rcases List.eq_nil_or_concat deltas with rfl | ⟨deltas, delta, rfl⟩
    · exact ⟨nofun, List.Pairwise.nil⟩
    · have hends : s.passedOn ++ [.snapshot snapshot] =
          (before ++ .snapshot snapshot' :: deltas.map .delta) ++ [.delta delta] := by
        simpa using heq
      nomatch (List.append_inj' hends rfl).2
  · have hinit := congrArg List.dropLast heq
    rw [List.dropLast_concat, List.concat_eq_append, ← List.append_assoc,
      List.dropLast_concat] at hinit
    exact h before snapshot' deltas after hinit

theorem not_resynchronizes {s' : OrderbookTask} {before : List WsMessage}
    {snapshot : OrderBookSnapshot} {delta : OrderBookDelta}
    (hpassed : s.passedOn = before ++ [.snapshot snapshot])
    (hnext : s'.passedOn = s.passedOn ++ [.delta delta])
    (hle : delta.sequence ≤ snapshot.sequence) : ¬s'.Resynchronizes := by
  intro h
  have hnewer := (h before snapshot [delta] [] (by rw [hnext, hpassed]; simp)).1 delta
    List.mem_cons_self
  rw [UInt64.lt_iff_toNat_lt] at hnewer
  rw [UInt64.le_iff_toNat_le] at hle
  omega

/-! ## Steps -/

theorem recv_of_next {delta : OrderBookDelta} (h : s.next = some delta) :
    ∃ cursor, s.cursor = some cursor ∧ s.lagged = false ∧ s.sent[cursor]? = some delta ∧
      s.recv = { s with cursor := some (cursor + 1), passedOn := s.passedOn ++ [.delta delta] } := by
  obtain ⟨cursor, hcursor, hnext⟩ := Option.bind_eq_some_iff.mp h
  split_ifs at hnext with hbehind
  rw [not_or, Bool.not_eq_true] at hbehind
  refine ⟨cursor, hcursor, hbehind.1, hnext, ?_⟩
  simp only [recv, hcursor, h]

theorem recv_of_none (h : s.next = none) :
    s.recv = s ∨ ∃ cursor, s.cursor = some cursor ∧ s.lagged = false ∧ cursor < s.oldest ∧
      s.recv = { s with cursor := some s.oldest, lagged := true } := by
  unfold recv
  cases hcursor : s.cursor with
  | none => exact Or.inl rfl
  | some cursor =>
      simp only [h]
      split_ifs with hlag
      · exact Or.inr ⟨cursor, rfl, hlag.1, hlag.2, rfl⟩
      · exact Or.inl rfl

theorem sound_of_lag (h : s.Sound sdk spotMarket) {cursor : Nat} (hlag : cursor < s.oldest) :
    ({ s with cursor := some s.oldest, lagged := true } : OrderbookTask).Sound sdk spotMarket := by
  have hthere : s.oldest < s.sent.length := by
    unfold oldest broadcastCapacity at *
    omega
  refine ⟨h.resynchronizes, ⟨h.behind.deltas, ?_, ?_, h.behind.shard⟩, ?_⟩
  · intro cursor hcursor
    rw [← Option.some.inj hcursor]
    exact hthere.le
  · intro _
    exact ⟨s.oldest, rfl, hthere⟩
  · rcases h.stale with hnever | ⟨before, snapshot, hpassed, -⟩
    · exact Or.inl hnever
    · exact Or.inr ⟨before, snapshot, hpassed, nofun⟩

/-- The receiver takes a delta: before any resync nothing changes; after one the task is not
resynchronized. -/
theorem resynchronizes_recv_iff (h : s.Sound sdk spotMarket) {delta : OrderBookDelta}
    (hnext : s.next = some delta) : s.recv.Resynchronizes ↔ s.NeverResynced := by
  obtain ⟨cursor, hcursor, hlagged, hget, hrecv⟩ := recv_of_next hnext
  constructor
  · intro hafter
    rcases h.stale with hnever | ⟨before, snapshot, hpassed, hold⟩
    · exact hnever
    · obtain ⟨cursor', delta', hcursor', hget', hle⟩ := hold hlagged
      rw [hcursor] at hcursor'
      cases hcursor'
      rw [hget] at hget'
      cases hget'
      refine absurd hafter (not_resynchronizes hpassed ?_ hle)
      rw [hrecv]
  · intro hnever
    apply resynchronizes_of_never
    intro snapshot hmem
    rw [hrecv] at hmem
    rcases List.mem_append.mp hmem with hold | hnew
    · exact hnever snapshot hold
    · rw [List.mem_singleton] at hnew
      nomatch hnew

/-- A resync passes a snapshot on that no delta sent so far is ahead of. -/
theorem resync_of_lagged (hsdk : LawfulSdk sdk) (h : s.Behind sdk spotMarket)
    (hlagged : s.lagged = true) (depth : Nat) :
    ∃ snapshot : OrderBookSnapshot, snapshot.sequence = (s.book sdk spotMarket).sequence ∧
      s.resync sdk spotMarket depth =
        { s with lagged := false, passedOn := s.passedOn ++ [.snapshot snapshot] } := by
  obtain ⟨cursor, -, hlt⟩ := h.lagged hlagged
  have hsome : s.sent ++ s.inFlight ≠ [] := by
    intro hnil
    rw [List.append_eq_nil_iff] at hnil
    rw [hnil.1] at hlt
    exact absurd hlt (Nat.not_lt_zero _)
  obtain ⟨book, hbook⟩ := Dict.mem_iff_lookup.mp (h.shard hsome)
  refine ⟨Books.bookToWsSnapshot (normalizeSpotMarketKey sdk spotMarket) book depth, ?_, ?_⟩
  · unfold OrderbookTask.book Books.shard
    rw [hbook]
    rfl
  · unfold resync Books.wsSnapshot
    dsimp only
    rw [if_pos hlagged, normalize_normalize hsdk, hbook]
    rfl

theorem sound_resync (hsdk : LawfulSdk sdk) (h : s.Sound sdk spotMarket) :
    (s.resync sdk spotMarket depth).Sound sdk spotMarket := by
  by_cases hlagged : s.lagged = true
  · obtain ⟨cursor, hcursor, hlt⟩ := h.behind.lagged hlagged
    obtain ⟨snapshot, hsequence, hresync⟩ := resync_of_lagged hsdk h.behind hlagged depth
    rw [hresync]
    refine ⟨resynchronizes_snapshot h.resynchronizes rfl, ⟨h.behind.deltas, h.behind.cursor, nofun,
      h.behind.shard⟩, Or.inr ⟨s.passedOn, snapshot, rfl, ?_⟩⟩
    intro _
    refine ⟨cursor, s.sent[cursor], hcursor, List.getElem?_eq_getElem hlt, ?_⟩
    rw [hsequence, UInt64.le_iff_toNat_le]
    exact h.behind.deltas _ (List.mem_append_left _ (List.getElem_mem hlt))
  · unfold resync
    rw [if_neg hlagged]
    exact h

theorem sound_subscribe (h : s.Sound sdk spotMarket) : s.subscribe.Sound sdk spotMarket := by
  unfold subscribe
  cases hcursor : s.cursor with
  | some cursor => exact h
  | none =>
      refine ⟨h.resynchronizes, ⟨h.behind.deltas, ?_, ?_, h.behind.shard⟩, ?_⟩
      · intro cursor heq
        rw [← Option.some.inj heq]
      · intro hlagged
        obtain ⟨cursor, hsome, -⟩ := h.behind.lagged hlagged
        rw [hcursor] at hsome
        nomatch hsome
      · rcases h.stale with hnever | ⟨before, snapshot, hpassed, hold⟩
        · exact Or.inl hnever
        · refine Or.inr ⟨before, snapshot, hpassed, ?_⟩
          intro hlagged
          obtain ⟨cursor, _, hsome, -⟩ := hold hlagged
          rw [hcursor] at hsome
          nomatch hsome

theorem resynchronizes_step_iff (hsdk : LawfulSdk sdk) (s : OrderbookTask)
    (next : OrderbookTaskStep) (h : s.Sound sdk spotMarket) :
    (s.step sdk spotMarket depth next).Resynchronizes ↔ s.TakesBeforeResync next := by
  cases next with
  | update op => exact iff_of_true h.resynchronizes trivial
  | publish =>
      refine iff_of_true ?_ trivial
      unfold step publish
      dsimp only
      cases s.inFlight <;> exact h.resynchronizes
  | subscribe => exact iff_of_true (sound_subscribe h).resynchronizes trivial
  | resync => exact iff_of_true (sound_resync hsdk h).resynchronizes trivial
  | recv =>
      unfold step TakesBeforeResync
      dsimp only
      cases hnext : s.next with
      | some delta =>
          rw [resynchronizes_recv_iff h hnext]
          simp
      | none =>
          refine iff_of_true ?_ (by simp)
          rcases recv_of_none hnext with hsame | ⟨cursor, -, -, -, hlag⟩
          · rw [hsame]
            exact h.resynchronizes
          · rw [hlag]
            exact h.resynchronizes

theorem sound_step (hsdk : LawfulSdk sdk) (s : OrderbookTask) (next : OrderbookTaskStep)
    (h : s.Sound sdk spotMarket)
    (hafter : (s.step sdk spotMarket depth next).Resynchronizes) :
    (s.step sdk spotMarket depth next).Sound sdk spotMarket := by
  cases next with
  | update op => exact ⟨hafter, behind_update h.behind op, h.stale⟩
  | publish => exact ⟨hafter, behind_publish h.behind, stale_publish h.stale⟩
  | subscribe => exact sound_subscribe h
  | resync => exact sound_resync hsdk h
  | recv =>
      unfold step at hafter ⊢
      dsimp only at hafter ⊢
      cases hnext : s.next with
      | none =>
          rcases recv_of_none hnext with hsame | ⟨cursor, -, -, hlt, hlag⟩
          · rw [hsame]
            exact h
          · rw [hlag]
            exact sound_of_lag h hlt
      | some delta =>
          have hnever := (resynchronizes_recv_iff h hnext).mp hafter
          obtain ⟨cursor, hcursor, hlagged, hget, hrecv⟩ := recv_of_next hnext
          obtain ⟨hlt, -⟩ := List.getElem?_eq_some_iff.mp hget
          rw [hrecv] at hafter ⊢
          refine ⟨hafter, ⟨h.behind.deltas, ?_, ?_, h.behind.shard⟩, Or.inl ?_⟩
          · intro cursor' heq
            rw [← Option.some.inj heq]
            exact hlt
          · intro heq
            rw [hlagged] at heq
            nomatch heq
          · intro snapshot hmem
            rcases List.mem_append.mp hmem with hold | hnew
            · exact hnever snapshot hold
            · rw [List.mem_singleton] at hnew
              nomatch hnew

/-- In every run, with senders that keep to the order of the sequences, a task resynchronizes
exactly if its receiver takes no delta any more once it has been sent a snapshot. -/
theorem resynchronizes_throughout_iff (hsdk : LawfulSdk sdk) (spotMarket : String) (depth : Nat)
    (tx : BookTx) (steps : List OrderbookTaskStep) :
    Throughout (step sdk spotMarket depth) Resynchronizes steps { tx := tx } ↔
      Along (step sdk spotMarket depth) TakesBeforeResync steps { tx := tx } := by
  have hstart : Sound sdk spotMarket { tx := tx } :=
    ⟨resynchronizes_of_never nofun, ⟨nofun, nofun, nofun, fun h => absurd rfl h⟩, Or.inl nofun⟩
  exact throughout_iff_along_of_strong (fun _ h => h.resynchronizes)
    (resynchronizes_step_iff hsdk) (sound_step hsdk) hstart

theorem sound_foldl (hsdk : LawfulSdk sdk) {steps : List OrderbookTaskStep}
    (hsteps : ∀ next ∈ steps, next ≠ .recv) (h : s.Sound sdk spotMarket) :
    (steps.foldl (step sdk spotMarket depth) s).Sound sdk spotMarket := by
  induction steps generalizing s with
  | nil => exact h
  | cons next steps ih =>
      apply ih fun other hother => hsteps other (List.mem_cons_of_mem _ hother)
      apply sound_step hsdk s next h
      rw [resynchronizes_step_iff hsdk s next h]
      cases next with
      | recv => exact absurd rfl (hsteps .recv List.mem_cons_self)
      | _ => trivial

theorem neverResynced_step {next : OrderbookTaskStep} (hnext : next ≠ .resync)
    (h : s.NeverResynced) : (s.step sdk spotMarket depth next).NeverResynced := by
  cases next with
  | update op => exact h
  | publish =>
      unfold step publish
      dsimp only
      cases s.inFlight <;> exact h
  | subscribe =>
      unfold step subscribe
      dsimp only
      cases s.cursor <;> exact h
  | resync => exact absurd rfl hnext
  | recv =>
      unfold step
      dsimp only
      cases hdelta : s.next with
      | none =>
          rcases recv_of_none hdelta with hsame | ⟨cursor, -, -, -, hlag⟩
          · rw [hsame]
            exact h
          · rw [hlag]
            exact h
      | some delta =>
          obtain ⟨cursor, -, -, -, hrecv⟩ := recv_of_next hdelta
          rw [hrecv]
          intro snapshot hmem
          rcases List.mem_append.mp hmem with hold | hnew
          · exact h snapshot hold
          · nomatch List.mem_singleton.mp hnew

theorem along_of_neverResynced {steps : List OrderbookTaskStep}
    (hsteps : ∀ next ∈ steps, next ≠ .resync) (h : s.NeverResynced) :
    Along (step sdk spotMarket depth) TakesBeforeResync (steps ++ [.resync]) s := by
  induction steps generalizing s with
  | nil => exact ⟨trivial, trivial⟩
  | cons next steps ih =>
      refine ⟨?_, ih (fun other hother => hsteps other (List.mem_cons_of_mem _ hother))
        (neverResynced_step (hsteps next List.mem_cons_self) h)⟩
      cases next with
      | recv => exact fun _ => h
      | _ => trivial

theorem recv_of_behind {cursor : Nat} (hcursor : s.cursor = some cursor)
    (hlagged : s.lagged = false) (hlt : cursor < s.oldest) :
    s.recv = { s with cursor := some s.oldest, lagged := true } := by
  have hnext : s.next = none := by
    unfold next
    rw [hcursor, Option.bind_some, if_pos (Or.inr hlt)]
  simp only [recv, hcursor, hnext, hlagged, hlt, and_self, if_true]

theorem snapshot_after_lag (hsdk : LawfulSdk sdk) (h : s.Sound sdk spotMarket) {cursor : Nat}
    (hcursor : s.cursor = some cursor) (hlagged : s.lagged = false) (hlt : cursor < s.oldest)
    (depth : Nat) : ∃ snapshot,
      (s.recv.resync sdk spotMarket depth).passedOn = s.passedOn ++ [.snapshot snapshot] := by
  have hlag := sound_of_lag h hlt
  obtain ⟨snapshot, -, hresync⟩ := resync_of_lagged hsdk hlag.behind rfl depth
  rw [recv_of_behind hcursor hlagged hlt]
  exact ⟨snapshot, congrArg passedOn hresync⟩

/-- A receiver that has fallen behind goes on, right after the resync, with a delta that is
not newer than the snapshot. -/
theorem stale_after_resync (hsdk : LawfulSdk sdk) (h : s.Sound sdk spotMarket) {cursor : Nat}
    (hcursor : s.cursor = some cursor) (hlagged : s.lagged = false) (hlt : cursor < s.oldest)
    (depth : Nat) : ¬((s.recv.resync sdk spotMarket depth).recv).Resynchronizes := by
  have hrecv := recv_of_behind hcursor hlagged hlt
  have hlag := sound_of_lag h hlt
  obtain ⟨snapshot, -, hresync⟩ := resync_of_lagged hsdk hlag.behind rfl depth
  have hsound := @sound_resync sdk spotMarket depth _ hsdk hlag
  rw [hrecv]
  rw [hresync] at hsound ⊢
  have hthere : s.oldest < s.sent.length := by
    unfold oldest broadcastCapacity at *
    omega
  have hnext : ({ s with
      cursor := some s.oldest
      lagged := false
      passedOn := s.passedOn ++ [.snapshot snapshot] } : OrderbookTask).next =
        some s.sent[s.oldest] := by
    unfold next
    rw [Option.bind_some, if_neg]
    · exact List.getElem?_eq_getElem hthere
    · rintro (hfalse | hbehind)
      · nomatch hfalse
      · exact absurd hbehind (Nat.lt_irrefl _)
  rw [resynchronizes_recv_iff hsound hnext]
  intro hnever
  exact hnever snapshot (List.mem_append_right _ List.mem_cons_self)

end OrderbookTask

namespace Sample

/-- So many orders come while the task waits for its turn. -/
def fallenBehind (orders : Nat) : List OrderbookTaskStep :=
  .subscribe :: (List.replicate orders [.update Subscription.Sample.order, .publish]).flatten

theorem published_order (tx : BookTx) :
    ∃ delta, (Subscription.Sample.order.published sdk tx).toList.filter
      (fun delta => delta.spotMarket = normalizeSpotMarketKey sdk market) = [delta] := by
  let delta := (tx.changeLevel sdk market .buy 4500 1500000 true 1 none).2
  refine ⟨delta, ?_⟩
  have hpublished : Subscription.Sample.order.published sdk tx = some delta := rfl
  have hmarket : delta.spotMarket = normalizeSpotMarketKey sdk market := rfl
  rw [hpublished, Option.toList_some, List.filter_cons, if_pos (decide_eq_true hmarket)]
  rfl

theorem foldl_orders (n : Nat) (tx : BookTx) (sent : List OrderBookDelta) :
    ∃ tx' sent', ((List.replicate n [.update Subscription.Sample.order, .publish]).flatten).foldl
        (OrderbookTask.step sdk market 20) { tx := tx, sent := sent, cursor := some 0 } =
      { tx := tx', sent := sent', cursor := some 0 } ∧ sent'.length = sent.length + n := by
  induction n generalizing tx sent with
  | zero => exact ⟨tx, sent, rfl, rfl⟩
  | succ n ih =>
      obtain ⟨delta, hdelta⟩ := published_order tx
      obtain ⟨tx', sent', hfold, hlength⟩ :=
        ih (Subscription.Sample.order.apply sdk tx).1 (sent ++ [delta])
      refine ⟨tx', sent', ?_, ?_⟩
      · rw [List.replicate_succ, List.flatten_cons, List.foldl_append, ← hfold]
        congr 1
        simp only [List.foldl_cons, List.foldl_nil, OrderbookTask.step, OrderbookTask.update,
          OrderbookTask.publish, hdelta, List.nil_append]
      · rw [hlength, List.length_append, List.length_singleton]
        omega

theorem foldl_catchUp (s : OrderbookTask) :
    [.recv, .resync, .recv].foldl (OrderbookTask.step sdk market 20) s =
      (s.recv.resync sdk market 20).recv := rfl

theorem state_of_fallenBehind {orders : Nat} (horders : broadcastCapacity < orders) :
    ∃ tx sent, (fallenBehind orders).foldl (OrderbookTask.step sdk market 20) { tx := noBooks } =
        { tx := tx, sent := sent, cursor := some 0 } ∧
      ({ tx := tx, sent := sent, cursor := some 0 } : OrderbookTask).Sound sdk market ∧
      0 < ({ tx := tx, sent := sent, cursor := some 0 } : OrderbookTask).oldest := by
  have hsound : ((fallenBehind orders).foldl (OrderbookTask.step sdk market 20)
      { tx := noBooks }).Sound sdk market := by
    apply OrderbookTask.sound_foldl lawful
    · intro next hnext hrecv
      subst hrecv
      simp [fallenBehind] at hnext
    · exact ⟨OrderbookTask.resynchronizes_of_never nofun,
        ⟨nofun, nofun, nofun, fun h => absurd rfl h⟩, Or.inl nofun⟩
  obtain ⟨tx, sent, hfold, hlength⟩ := foldl_orders orders noBooks []
  have hstate : (fallenBehind orders).foldl (OrderbookTask.step sdk market 20) { tx := noBooks } =
      { tx := tx, sent := sent, cursor := some 0 } := by
    rw [← hfold]
    simp only [fallenBehind, List.foldl_cons, OrderbookTask.step, OrderbookTask.subscribe,
      List.length_nil]
  rw [hstate] at hsound
  refine ⟨tx, sent, hstate, hsound, ?_⟩
  unfold OrderbookTask.oldest
  dsimp only
  rw [List.length_nil] at hlength
  omega

/-- With more orders than the channel retains, the delta after the resync is stale. -/
theorem stale_of_fallenBehind {orders : Nat} (horders : broadcastCapacity < orders) :
    ¬Throughout (OrderbookTask.step sdk market 20) OrderbookTask.Resynchronizes
      (fallenBehind orders ++ [.recv, .resync, .recv]) { tx := noBooks } := by
  intro h
  have hend := h.finish
  obtain ⟨tx, sent, hstate, hsound, hbehind⟩ := state_of_fallenBehind horders
  rw [List.foldl_append, hstate, foldl_catchUp] at hend
  exact OrderbookTask.stale_after_resync lawful hsound rfl rfl hbehind 20 hend

/-- One order more than the channel retains. -/
theorem fallenBehind_not_resynchronized :
    ¬Throughout (OrderbookTask.step sdk market 20) OrderbookTask.Resynchronizes
      (fallenBehind 4097 ++ [.recv, .resync, .recv]) { tx := noBooks } := by
  have horders : broadcastCapacity < 4097 := by decide
  exact stale_of_fallenBehind horders

def lagged (orders : Nat) : List OrderbookTaskStep :=
  fallenBehind orders ++ [.recv]

theorem ne_resync_of_lagged {orders : Nat} {next : OrderbookTaskStep}
    (hnext : next ∈ lagged orders) : next ≠ .resync := by
  rintro rfl
  simp [lagged, fallenBehind] at hnext

theorem snapshot_of_lagged {orders : Nat} (horders : broadcastCapacity < orders) :
    ∃ snapshot, (((lagged orders).foldl (OrderbookTask.step sdk market 20)
      { tx := noBooks }).resync sdk market 20).passedOn = [.snapshot snapshot] := by
  obtain ⟨tx, sent, hstate, hsound, hbehind⟩ := state_of_fallenBehind horders
  have hrecv : (lagged orders).foldl (OrderbookTask.step sdk market 20) { tx := noBooks } =
      ({ tx := tx, sent := sent, cursor := some 0 } : OrderbookTask).recv := by
    rw [← hstate]
    exact List.foldl_append
  rw [hrecv]
  exact OrderbookTask.snapshot_after_lag lawful hsound rfl rfl hbehind 20

/-- Up to the snapshot of its resync the same task resynchronizes. -/
theorem fallenBehind_resynchronizes :
    Throughout (OrderbookTask.step sdk market 20) OrderbookTask.Resynchronizes
        (lagged 4097 ++ [.resync]) { tx := noBooks } ∧
      ∃ snapshot, (((lagged 4097).foldl (OrderbookTask.step sdk market 20)
        { tx := noBooks }).resync sdk market 20).passedOn = [.snapshot snapshot] := by
  have horders : broadcastCapacity < 4097 := by decide
  constructor
  · exact (OrderbookTask.resynchronizes_throughout_iff lawful market 20 noBooks _).mpr
      (OrderbookTask.along_of_neverResynced (fun _ => ne_resync_of_lagged) nofun)
  · exact snapshot_of_lagged horders

end Sample

end ClobIndexer
