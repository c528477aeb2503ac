import ClobIndexer.Indexer.BookLog
/-!
# Subscribing to a book

`handle_subscribe` of `src/ws/process/orderbook.rs` and the task that
`subscribe_orderbook` of `src/ws/process/session.rs` starts, among the book
operations of the indexer.  An operation makes its delta under the book's lock
and sends it after that, so sends come in any order.  The handler takes its
snapshot, writes it to the socket, and opens the receiver only then: what is
sent to the channel before that does not reach the client.
-/

namespace ClobIndexer

open Lib

def Books.wsSnapshot (sdk : Sdk) (b : Books) (spotMarket : String) (depth : Nat) :
    Option OrderBookSnapshot :=
  let key := normalizeSpotMarketKey sdk spotMarket
  (b.shards.lookup key).map fun book => Books.bookToWsSnapshot key book depth

inductive WsMessage where
  | error
  | snapshot (snapshot : OrderBookSnapshot)
  | delta (delta : OrderBookDelta)
deriving DecidableEq

/-- Where the handler is; the receiver is there from `listening` on. -/
inductive SubscribePhase where
  | rehydrating
  | hydrated
  | sending (snapshot : Option OrderBookSnapshot)
  | sent (snapshot : Option OrderBookSnapshot)
  | listening (snapshot : Option OrderBookSnapshot) (queue : List OrderBookDelta)
  | failed
deriving DecidableEq

structure Subscription where
  tx : BookTx
  inFlight : List OrderBookDelta := []
  published : List OrderBookDelta := []
  client : List WsMessage := []
  phase : SubscribePhase := .rehydrating

inductive SubscribeStep where
  | update (op : BookOp)
  | publish (i : Nat)
  | rehydrate (answer : Option (GetOrderBook × Option UInt64))
  | takeSnapshot
  | sendSnapshot
  | openReceiver
  | forward

namespace Subscription

variable (sdk : Sdk) (spotMarket : String) (depth : Nat)

def update (op : BookOp) (s : Subscription) : Subscription :=
  { s with
    tx := (op.apply sdk s.tx).1
    inFlight := s.inFlight ++ (op.published sdk s.tx).toList.filter
      (fun delta => delta.spotMarket = normalizeSpotMarketKey sdk spotMarket) }

/-- `publish_delta`: an open receiver gets the delta, a later one does not. -/
def publish (i : Nat) (s : Subscription) : Subscription :=
  match s.inFlight[i]? with
  | none => s
  | some delta =>
      { s with
        inFlight := s.inFlight.eraseIdx i
        published := s.published ++ [delta]
        phase :=
          match s.phase with
          | .listening snapshot queue => .listening snapshot (queue ++ [delta])
          | phase => phase }

/-- `rehydrate_spot_from_chain`, with what the node answers. -/
def rehydrate (answer : Option (GetOrderBook × Option UInt64)) (s : Subscription) : Subscription :=
  match s.phase, answer with
  | .rehydrating, some (chainBook, lastTradePrice) =>
      { s with
        tx := s.tx.hydrateFromChain sdk spotMarket chainBook lastTradePrice
        phase := .hydrated }
  | .rehydrating, none => { s with client := s.client ++ [.error], phase := .failed }
  | _, _ => s

def takeSnapshot (s : Subscription) : Subscription :=
  match s.phase with
  | .hydrated => { s with phase := .sending (s.tx.books.wsSnapshot sdk spotMarket depth) }
  | _ => s

def sendSnapshot (s : Subscription) : Subscription :=
  match s.phase with
  | .sending snapshot =>
      { s with
        client := s.client ++ (snapshot.map WsMessage.snapshot).toList
        phase := .sent snapshot }
  | _ => s

def openReceiver (s : Subscription) : Subscription :=
  match s.phase with
  | .sent snapshot => { s with phase := .listening snapshot [] }
  | _ => s

def forward (s : Subscription) : Subscription :=
  match s.phase with
  | .listening snapshot (delta :: queue) =>
      { s with client := s.client ++ [.delta delta], phase := .listening snapshot queue }
  | _ => s

def step (s : Subscription) : SubscribeStep → Subscription
  | .update op => s.update sdk spotMarket op
  | .publish i => s.publish i
  | .rehydrate answer => s.rehydrate sdk spotMarket answer
  | .takeSnapshot => s.takeSnapshot sdk spotMarket depth
  | .sendSnapshot => s.sendSnapshot
  | .openReceiver => s.openReceiver
  | .forward => s.forward

def run (steps : List SubscribeStep) (s : Subscription) : Subscription :=
  steps.foldl (step sdk spotMarket depth) s

def newer (snapshot : OrderBookSnapshot) (deltas : List OrderBookDelta) : List OrderBookDelta :=
  deltas.filter fun delta => snapshot.sequence < delta.sequence

/-- What a step sends to the channel, newer than the snapshot taken, while the
receiver is not there yet. -/
def sentUnheard (s : Subscription) : SubscribeStep → List OrderBookDelta
  | .publish i =>
      match s.phase with
      | .sending (some snapshot) => newer snapshot s.inFlight[i]?.toList
      | .sent (some snapshot) => newer snapshot s.inFlight[i]?.toList
      | _ => []
  | _ => []

def unheardAlong : Subscription → List SubscribeStep → List OrderBookDelta
  | _, [] => []
  | s, next :: steps =>
      s.sentUnheard next ++ unheardAlong (s.step sdk spotMarket depth next) steps

/-- The client got the snapshot, and after it (or gets next, from the receiver) the
published deltas that are newer, in the order in which they were published. -/
def HearsAll (s : Subscription) : Prop :=
  ∃ snapshot queue deltas, s.phase = .listening (some snapshot) queue ∧
    s.client ++ queue.map .delta = .snapshot snapshot :: deltas.map .delta ∧
    newer snapshot deltas = newer snapshot s.published

/-! ## Invariant -/

/-- What the client has of the published deltas, `unheard` having passed it by. -/
def Accounts (unheard : List OrderBookDelta) (s : Subscription) : Prop :=
  match s.phase with
  | .rehydrating => unheard = [] ∧ s.client = []
  | .hydrated => unheard = [] ∧ s.client = [] ∧
      normalizeSpotMarketKey sdk spotMarket ∈ s.tx.books.shards
  | .sending snapshot => ∃ snap, snapshot = some snap ∧ s.client = [] ∧
      newer snap s.published = unheard
  | .sent snapshot => ∃ snap, snapshot = some snap ∧ s.client = [.snapshot snap] ∧
      newer snap s.published = unheard
  | .listening snapshot queue => ∃ snap deltas, snapshot = some snap ∧
      s.client = .snapshot snap :: deltas.map .delta ∧
      newer snap s.published = unheard ++ newer snap (deltas ++ queue)
  | .failed => True

structure Inv (unheard : List OrderBookDelta) (s : Subscription) : Prop where
  behind : ∀ delta ∈ s.inFlight ++ s.published, delta.sequence.toNat ≤
    (s.tx.books.shard (normalizeSpotMarketKey sdk spotMarket)).sequence.toNat
  accounts : s.Accounts sdk spotMarket unheard

variable {sdk spotMarket depth} {s : Subscription} {unheard : List OrderBookDelta}

theorem newer_append (snap : OrderBookSnapshot) (a b : List OrderBookDelta) :
    newer snap (a ++ b) = newer snap a ++ newer snap b := List.filter_append ..

theorem le_satAdd_one (a : UInt64) : a.toNat ≤ (Word.satAdd a 1).toNat := by
  rw [Word.toNat_satAdd]
  have hle := Word.toNat_le a
  omega

/-- A book operation does not turn the sequence back, and its delta is not ahead of it. -/
theorem bookMove_behind {fits : UInt64 → Prop} {key : String} {book book' : SpotBook}
    {delta : Option OrderBookDelta} (h : BookMove fits key book book' delta) :
    book.sequence.toNat ≤ book'.sequence.toNat ∧
      ∀ d, delta = some d → d.spotMarket = key → d.sequence.toNat ≤ book'.sequence.toNat := by
  cases h with
  | same hlevels hsequence hdelta =>
      rw [hsequence]
      exact ⟨le_refl _, fun d hd hkey => absurd hkey (hdelta d hd)⟩
  | level side price size d hprice hlevels hsequence hdelta htells =>
      refine ⟨hsequence ▸ le_satAdd_one _, ?_⟩
      intro e he _
      rw [hdelta] at he
      cases he
      rw [htells.sequence]
  | reload hfits hsequence hdelta =>
      refine ⟨hsequence ▸ le_satAdd_one _, ?_⟩
      intro e he
      rw [hdelta] at he
      cases he

theorem mem_shards_changeLevel {key : String} {t : BookTx} (h : key ∈ t.books.shards)
    (side : OrderSide) (priceRaw amountRaw blockNum : UInt64) (isAdd : Bool)
    (lastTradePrice : Option UInt64) :
    key ∈ (t.changeLevel sdk spotMarket side priceRaw amountRaw isAdd blockNum
      lastTradePrice).1.books.shards := by
  simp only [BookTx.changeLevel, Books.setShard, AList.mem_insert]
  exact .inr h

theorem mem_shards_apply {key : String} {t : BookTx} (op : BookOp) (h : key ∈ t.books.shards) :
    key ∈ (op.apply sdk t).1.books.shards := by
  cases op with
  | created spotMarket side priceRaw amountRaw blockNum publishWs =>
      simp only [BookOp.apply, BookTx.applyCreated]
      split_ifs
      · exact h
      · exact mem_shards_changeLevel h side priceRaw amountRaw blockNum true none
  | cancelled spotMarket side priceRaw amountRaw blockNum publishWs =>
      simp only [BookOp.apply, BookTx.applyCancelled]
      split_ifs
      · exact h
      · exact mem_shards_changeLevel h side priceRaw amountRaw blockNum false none
  | updated spotMarket side priceRaw oldAmountRaw newAmountRaw newRemainingRaw blockNum publishWs =>
      simp only [BookOp.apply, BookTx.applyUpdated]
      split_ifs
      · exact h
      · exact mem_shards_changeLevel h _ _ _ blockNum _ _
      · exact mem_shards_changeLevel h _ _ _ blockNum _ _
  | filled spotMarket side priceRaw fillAmountRaw blockNum lastTradePrice publishWs tradeTimeMs
      nowMs =>
      simp only [BookOp.apply, BookTx.applyFilled]
      split_ifs
      · exact h
      · simp only [BookTx.withQuote, Books.setShard, AList.mem_insert]
        exact .inr (mem_shards_changeLevel h ..)
      · simp only [BookTx.withQuote, Books.setShard, AList.mem_insert]
        exact .inr (mem_shards_changeLevel h ..)
  | hydrate spotMarket chainBook lastTradePrice =>
      simp only [BookOp.apply, BookTx.hydrateFromChain, Books.setShard, AList.mem_insert]
      exact .inr h

/-! ## One step -/

theorem inv_update (op : BookOp) (h : s.Inv sdk spotMarket unheard) :
    (s.update sdk spotMarket op).Inv sdk spotMarket unheard := by
  have hmove := bookMove_behind (bookMove_apply sdk (normalizeSpotMarketKey sdk spotMarket) s.tx op
    op.prices_true)
  refine ⟨?_, ?_⟩
  · intro delta hdelta
    simp only [update, List.mem_append, List.mem_filter, Option.mem_toList, decide_eq_true_eq]
      at hdelta ⊢
    rcases hdelta with (hdelta | ⟨hnew, hkey⟩) | hdelta
    · exact (h.behind delta (List.mem_append_left _ hdelta)).trans hmove.1
    · have hsome : (op.apply sdk s.tx).2.map (·.1) = some delta := by
        rw [BookOp.published] at hnew
        split_ifs at hnew
        exact hnew
      exact hmove.2 delta hsome hkey
    · exact (h.behind delta (List.mem_append_right _ hdelta)).trans hmove.1
  · have haccounts := h.accounts
    unfold Accounts update at *
    cases hphase : s.phase with
    | hydrated =>
        simp only [hphase] at haccounts ⊢
        exact ⟨haccounts.1, haccounts.2.1, mem_shards_apply op haccounts.2.2⟩
    | failed => trivial
    | _ =>
        simp only [hphase] at haccounts ⊢
        exact haccounts

/-- The delta that an operation sends is unheard, heard, or not newer than any snapshot
taken later. -/
theorem inv_publish (i : Nat) (h : s.Inv sdk spotMarket unheard) :
    (s.publish i).Inv sdk spotMarket (unheard ++ s.sentUnheard (.publish i)) := by
  rw [publish]
  cases hi : s.inFlight[i]? with
  | none =>
      have hnothing : s.sentUnheard (.publish i) = [] := by
        rw [sentUnheard]
        split <;> simp [hi, newer]
      rw [hnothing, List.append_nil]
      exact h
  | some delta =>
      have hmem : delta ∈ s.inFlight := List.mem_of_getElem? hi
      refine ⟨?_, ?_⟩
      · intro other hother
        simp only [List.mem_append, List.mem_singleton] at hother
        rcases hother with hother | hother | rfl
        · exact h.behind other (List.mem_append_left _ (List.mem_of_mem_eraseIdx hother))
        · exact h.behind other (List.mem_append_right _ hother)
        · exact h.behind other (List.mem_append_left _ hmem)
      · have haccounts := h.accounts
        unfold Accounts sentUnheard at *
        cases hphase : s.phase with
        | rehydrating => simpa [hphase] using haccounts
        | hydrated => simpa [hphase] using haccounts
        | failed => trivial
        | sending snapshot =>
            simp only [hphase] at haccounts ⊢
            obtain ⟨snap, rfl, hclient, hnewer⟩ := haccounts
            refine ⟨snap, rfl, hclient, ?_⟩
            rw [newer_append, hnewer, hi]
            rfl
        | sent snapshot =>
            simp only [hphase] at haccounts ⊢
            obtain ⟨snap, rfl, hclient, hnewer⟩ := haccounts
            refine ⟨snap, rfl, hclient, ?_⟩
            rw [newer_append, hnewer, hi]
            rfl
        | listening snapshot queue =>
            simp only [hphase] at haccounts ⊢
            obtain ⟨snap, deltas, rfl, hclient, hnewer⟩ := haccounts
            refine ⟨snap, deltas, rfl, hclient, ?_⟩
            rw [newer_append, hnewer, ← List.append_assoc deltas, newer_append snap (deltas ++ queue),
              List.append_nil, List.append_assoc]

theorem inv_rehydrate (answer : Option (GetOrderBook × Option UInt64))
    (h : s.Inv sdk spotMarket unheard) :
    (s.rehydrate sdk spotMarket answer).Inv sdk spotMarket unheard := by
  have haccounts := h.accounts
  unfold rehydrate
  split
  case h_3 => exact h
  case h_2 => exact ⟨h.behind, trivial⟩
  case h_1 chainBook lastTradePrice hphase =>
    have hmove := bookMove_behind (bookMove_apply sdk (normalizeSpotMarketKey sdk spotMarket) s.tx
      (.hydrate spotMarket chainBook lastTradePrice) (BookOp.prices_true _))
    refine ⟨fun delta hdelta => (h.behind delta hdelta).trans hmove.1, ?_⟩
    simp only [Accounts, hphase] at haccounts ⊢
    refine ⟨haccounts.1, haccounts.2, ?_⟩
    simp [BookTx.hydrateFromChain, Books.setShard]

theorem inv_takeSnapshot (h : s.Inv sdk spotMarket unheard) :
    (s.takeSnapshot sdk spotMarket depth).Inv sdk spotMarket unheard := by
  have haccounts := h.accounts
  rw [takeSnapshot]
  split
  case h_2 => exact h
  case h_1 hphase =>
    refine ⟨h.behind, ?_⟩
    simp only [Accounts, hphase] at haccounts ⊢
    obtain ⟨hunheard, hclient, hshard⟩ := haccounts
    obtain ⟨book, hbook⟩ := Dict.mem_iff_lookup.mp hshard
    refine ⟨Books.bookToWsSnapshot (normalizeSpotMarketKey sdk spotMarket) book depth, ?_, hclient,
      ?_⟩
    · rw [Books.wsSnapshot, hbook]
      rfl
    · -- nothing published so far is ahead of the book
      rw [hunheard, newer, List.filter_eq_nil_iff]
      intro delta hdelta
      have hbehind := h.behind delta (List.mem_append_right _ hdelta)
      rw [Books.shard, hbook] at hbehind
      simpa [Books.bookToWsSnapshot, UInt64.le_iff_toNat_le] using hbehind

theorem inv_sendSnapshot (h : s.Inv sdk spotMarket unheard) :
    s.sendSnapshot.Inv sdk spotMarket unheard := by
  have haccounts := h.accounts
  rw [sendSnapshot]
  split
  case h_2 => exact h
  case h_1 hphase =>
    refine ⟨h.behind, ?_⟩
    simp only [Accounts, hphase] at haccounts ⊢
    obtain ⟨snap, rfl, hclient, hnewer⟩ := haccounts
    exact ⟨snap, rfl, by rw [hclient]; rfl, hnewer⟩

theorem inv_openReceiver (h : s.Inv sdk spotMarket unheard) :
    s.openReceiver.Inv sdk spotMarket unheard := by
  have haccounts := h.accounts
  rw [openReceiver]
  split
  case h_2 => exact h
  case h_1 hphase =>
    refine ⟨h.behind, ?_⟩
    simp only [Accounts, hphase] at haccounts ⊢
    obtain ⟨snap, rfl, hclient, hnewer⟩ := haccounts
    exact ⟨snap, [], rfl, hclient, by simpa [newer] using hnewer⟩

theorem inv_forward (h : s.Inv sdk spotMarket unheard) : s.forward.Inv sdk spotMarket unheard := by
  have haccounts := h.accounts
  rw [forward]
  split
  case h_2 => exact h
  case h_1 snapshot delta queue hphase =>
    refine ⟨h.behind, ?_⟩
    simp only [Accounts, hphase] at haccounts ⊢
    obtain ⟨snap, deltas, rfl, hclient, hnewer⟩ := haccounts
    refine ⟨snap, deltas ++ [delta], rfl, by rw [hclient]; simp, ?_⟩
    rw [hnewer, List.append_assoc]
    rfl

theorem inv_step (next : SubscribeStep) (h : s.Inv sdk spotMarket unheard) :
    (s.step sdk spotMarket depth next).Inv sdk spotMarket (unheard ++ s.sentUnheard next) := by
  cases next with
  | publish i => exact inv_publish i h
  | update op => simpa [sentUnheard, step] using inv_update op h
  | rehydrate answer => simpa [sentUnheard, step] using inv_rehydrate answer h
  | takeSnapshot => simpa [sentUnheard, step] using inv_takeSnapshot h
  | sendSnapshot => simpa [sentUnheard, step] using inv_sendSnapshot h
  | openReceiver => simpa [sentUnheard, step] using inv_openReceiver h
  | forward => simpa [sentUnheard, step] using inv_forward h

theorem inv_run (steps : List SubscribeStep) (h : s.Inv sdk spotMarket unheard) :
    (s.run sdk spotMarket depth steps).Inv sdk spotMarket
      (unheard ++ s.unheardAlong sdk spotMarket depth steps) := by
  induction steps generalizing s unheard with
  | nil => simpa [unheardAlong, run] using h
  | cons next steps ih =>
      have hstep : (s.step sdk spotMarket depth next).Inv sdk spotMarket _ := inv_step next h
      have hrest := ih hstep
      rw [List.append_assoc] at hrest
      exact hrest

/-- A client that listens has heard of all that was published after its snapshot
exactly when nothing newer was sent between the snapshot and the opening of the
receiver. -/
theorem hearsAll_iff (t : BookTx) (steps : List SubscribeStep)
    (hlisten : ∃ snapshot queue,
      (run sdk spotMarket depth steps { tx := t }).phase = .listening snapshot queue) :
    (run sdk spotMarket depth steps { tx := t }).HearsAll ↔
      unheardAlong sdk spotMarket depth { tx := t } steps = [] := by
  have hstart : Inv sdk spotMarket [] { tx := t } := ⟨by simp, rfl, rfl⟩
  have hinv : (run sdk spotMarket depth steps { tx := t }).Inv sdk spotMarket _ :=
    inv_run steps hstart
  have haccounts := hinv.accounts
  clear hinv
  generalize run sdk spotMarket depth steps { tx := t } = s at *
  obtain ⟨snapshot, queue, hphase⟩ := hlisten
  simp only [Accounts, hphase, List.nil_append] at haccounts
  obtain ⟨snap, deltas, rfl, hclient, hnewer⟩ := haccounts
  constructor
  · rintro ⟨snap', queue', deltas', hphase', hclient', hnewer'⟩
    rw [hphase] at hphase'
    cases hphase'
    -- the deltas that the client has are determined by its messages
    have hdeltas : deltas' = deltas ++ queue := by
      rw [hclient, List.cons_append, ← List.map_append] at hclient'
      have hinj : Function.Injective WsMessage.delta := fun a b hab => by cases hab; rfl
      exact (List.map_injective_iff.mpr hinj (List.cons_injective hclient')).symm
    rw [hdeltas, hnewer] at hnewer'
    exact List.self_eq_append_left.mp hnewer'
  · intro hnone
    refine ⟨snap, queue, deltas ++ queue, hphase, by rw [hclient]; simp, ?_⟩
    rw [hnewer, hnone, List.nil_append]

namespace Sample

open ClobIndexer.Sample

def order : BookOp := .created market .buy 4500 1500000 1 true

def orderAfter : List SubscribeStep :=
  [.rehydrate (some (⟨[], []⟩, none)), .takeSnapshot, .sendSnapshot, .openReceiver,
    .update order, .publish 0, .forward]

def orderBetween : List SubscribeStep :=
  [.rehydrate (some (⟨[], []⟩, none)), .takeSnapshot, .update order, .publish 0, .sendSnapshot,
    .openReceiver]

theorem hearsAll_orderAfter :
    unheardAlong ClobIndexer.Sample.sdk market 20 { tx := noBooks } orderAfter = [] ∧
      (run ClobIndexer.Sample.sdk market 20 orderAfter { tx := noBooks }).HearsAll :=
  ⟨by decide +kernel, (hearsAll_iff noBooks orderAfter ⟨_, _, rfl⟩).mpr (by decide +kernel)⟩

/-- The client never hears of the order that came between. -/
theorem orderBetween_unheard :
    ¬∀ steps : List SubscribeStep,
      (∃ snapshot queue, (run ClobIndexer.Sample.sdk market 20 steps { tx := noBooks }).phase =
        .listening snapshot queue) →
      (run ClobIndexer.Sample.sdk market 20 steps { tx := noBooks }).HearsAll := by
  intro h
  obtain ⟨snapshot, queue, deltas, hphase, hclient, hnewer⟩ := h orderBetween ⟨_, _, rfl⟩
  have hstart : (run ClobIndexer.Sample.sdk market 20 orderBetween { tx := noBooks }).phase =
      .listening (some ⟨market, 1, [], [], none⟩) [] := by decide +kernel
  rw [hstart] at hphase
  cases hphase
  have hlength : (run ClobIndexer.Sample.sdk market 20 orderBetween
      { tx := noBooks }).client.length = 1 := by decide +kernel
  have hdeltas : deltas = [] := by
    have hcount := congrArg List.length hclient
    simp only [List.length_append, hlength, List.length_map, List.length_cons,
      List.length_nil] at hcount
    exact List.length_eq_zero_iff.mp (by omega)
  have hmissed : newer ⟨market, 1, [], [], none⟩
      (run ClobIndexer.Sample.sdk market 20 orderBetween { tx := noBooks }).published ≠ [] := by
    decide +kernel
  rw [hdeltas] at hnewer
  exact hmissed hnewer.symm

end Sample

end Subscription

end ClobIndexer
