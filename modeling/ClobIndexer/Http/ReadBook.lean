import ClobIndexer.Indexer.BookRows
import ClobIndexer.Ws.Subscribe
/-!
# Reads of a book

`GET /spot/:m/book` and the subscription to a book first load the book from the node, whatever
is in memory, and at no more than twenty levels a side.  Where the book in memory is the whole
book of the node, a read leaves it as it is exactly if the load fails or no side has more
levels than the load asked for.
-/

namespace ClobIndexer

open Lib

structure BookSnapshot where
  sequence : UInt64
  bids : List BookLevelDelta
  asks : List BookLevelDelta
  lastTradePrice : Option String
deriving DecidableEq

namespace Books

def bookToResponse (book : SpotBook) (depth : Nat) : BookSnapshot where
  sequence := book.sequence
  bids := responseSide (fun a b => b ≤ a) depth book.bids
  asks := responseSide (fun a b => a ≤ b) depth book.asks
  lastTradePrice := book.lastTradePrice.map formatPricePieces

def snapshot (sdk : Sdk) (b : Books) (spotMarket : String) (depth : Nat) : Option BookSnapshot :=
  (b.shards.lookup (normalizeSpotMarketKey sdk spotMarket)).map fun book =>
    bookToResponse book depth

end Books

/-- The depth that a load asks for: clamped to twenty, and then raised to it. -/
def hydrationDepth (depth : Nat) : Nat := max (max 1 (min depth defaultBookDepth)) defaultBookDepth

@[simp] theorem hydrationDepth_eq (depth : Nat) : hydrationDepth depth = defaultBookDepth := by
  unfold hydrationDepth defaultBookDepth
  omega

section

variable (env : Env)

namespace Ctx

def rehydrateSpotFromChain (spotMarket : String) (depth : Nat) (c : Ctx) : Ctx × Bool :=
  match env.sdk.parseTokenContract spotMarket with
  | none => (c, false)
  | some contract =>
      let depth := hydrationDepth depth
      let (answer, calls) := getBookWithDepthFallback env.chain contract depth depth c.calls
      match answer with
      | none => ({ c with calls }, false)
      | some chainBook =>
          match c.store.lastTradePrice.lookup (normalizeSpotMarketKey env.sdk spotMarket) with
          | some price => (({ c with calls }).installBook env spotMarket chainBook (some price), true)
          | none =>
              match env.chain.getMarketInfo calls contract with
              | none => ({ c with calls := calls + 1 }, false)
              | some lastPrice =>
                  (({ c with calls := calls + 1 }).installBook env spotMarket chainBook lastPrice,
                    true)

/-- The depth of a request: ten if it has none, at least one and at most twenty. -/
def requestDepth (depth : Option Nat) : Nat := max 1 (min (depth.getD 10) defaultBookDepth)

/-- `get_book`; a load that fails is logged. -/
def getBook (spotMarket : String) (depth : Option Nat) (c : Ctx) : Ctx × Option BookSnapshot :=
  let depth := requestDepth depth
  let (c, _) := c.rehydrateSpotFromChain env spotMarket depth
  (c, c.store.books.snapshot env.sdk spotMarket depth)

/-- `handle_subscribe`, up to the opening of the receiver; `none` is an error message. -/
def subscribeBook (spotMarket : String) (depth : Option Nat) (c : Ctx) :
    Ctx × Option (Option OrderBookSnapshot) :=
  let depth := requestDepth depth
  let (c, hydrated) := c.rehydrateSpotFromChain env spotMarket depth
  if hydrated then (c, some (c.store.books.wsSnapshot env.sdk spotMarket depth)) else (c, none)

end Ctx

inductive BookRead where
  | getBook (spotMarket : String) (depth : Option Nat)
  | subscribe (spotMarket : String) (depth : Option Nat)

namespace BookRead

def spotMarket : BookRead → String
  | getBook spotMarket _ => spotMarket
  | subscribe spotMarket _ => spotMarket

def run (c : Ctx) : BookRead → Ctx
  | getBook spotMarket depth => (c.getBook env spotMarket depth).1
  | subscribe spotMarket depth => (c.subscribeBook env spotMarket depth).1

end BookRead

def SpotBook.bestLevels (book : SpotBook) : OrderSide → List (UInt64 × UInt64)
  | .buy => Books.sortedLevels (fun a b => b ≤ a) book.bids
  | .sell => Books.sortedLevels (fun a b => a ≤ b) book.asks

/-- Whenever the node answers for a contract, it gives the best levels of the book, so many as
asked for. -/
def ChainClient.ServesBest (chain : ChainClient) (contract : List UInt8) (book : SpotBook) : Prop :=
  ∀ call depth answer, chain.getBook call contract depth = some answer → ∀ side,
    (answer.levels side).map (fun level => (level.price, level.totalQuantity)) =
      (book.bestLevels side).take depth

/-- The node answers the request for a book at the depth, after it has failed at all greater
ones that are tried. -/
def ChainClient.AnswersAt (chain : ChainClient) (contract : List UInt8) (call depth : Nat) : Prop :=
  depth = 20 ∧ (chain.getBook call contract 20).isSome ∨
    depth = 10 ∧ chain.getBook call contract 20 = none ∧
      (chain.getBook (call + 1) contract 10).isSome

def Ctx.LoadsAt (spotMarket : String) (c : Ctx) (depth : Nat) : Prop :=
  ∃ contract, env.sdk.parseTokenContract spotMarket = some contract ∧
    env.chain.AnswersAt contract c.calls depth ∧
    ((c.store.lastTradePrice.lookup (normalizeSpotMarketKey env.sdk spotMarket)).isSome ∨
      (env.chain.getMarketInfo (if depth = 20 then c.calls + 1 else c.calls + 2) contract).isSome)

def SpotBook.FitsInto (book : SpotBook) (depth : Nat) : Prop :=
  ∀ side, (book.levels side).entries.length ≤ depth ∧
    ∀ price size, (book.levels side).lookup price = some size → size ≠ 0

variable {env}

/-! ## What a load leaves of the levels -/

theorem loaded_eq_insertAll (chainLevels : List ChainLevel) (acc : Dict UInt64 UInt64) :
    BookTx.loaded chainLevels acc =
      Dict.insertAll ((chainLevels.filter fun level => level.totalQuantity ≠ 0).map
        fun level => ⟨level.price, level.totalQuantity⟩) acc := by
  unfold BookTx.loaded Dict.insertAll
  induction chainLevels generalizing acc with
  | nil => rfl
  | cons level rest ih =>
      rw [List.foldl_cons, ih]
      by_cases h0 : level.totalQuantity = 0
      · rw [List.filter_cons_of_neg (by simpa using h0), if_pos h0]
      · rw [List.filter_cons_of_pos (by simpa using h0), if_neg h0]
        rfl

theorem lookup_loaded_iff {chainLevels : List ChainLevel}
    (hnodup : (chainLevels.map ChainLevel.price).Nodup) (price size : UInt64) :
    (BookTx.loaded chainLevels ∅).lookup price = some size ↔
      (price, size) ∈ chainLevels.map (fun level => (level.price, level.totalQuantity)) ∧
        size ≠ 0 := by
  let rows : List (Sigma fun _ : UInt64 => UInt64) :=
    (chainLevels.filter fun level => level.totalQuantity ≠ 0).map
      fun level => ⟨level.price, level.totalQuantity⟩
  have hkeys : rows.NodupKeys := by
    unfold List.NodupKeys List.keys
    rw [List.map_map]
    exact (List.filter_sublist.map _).nodup hnodup
  have hentry := List.mem_dlookup_iff (a := price) (b := size) hkeys
  rw [Option.mem_def] at hentry
  rw [loaded_eq_insertAll, Dict.lookup_insertAll hkeys, AList.lookup_empty, Option.or_none, hentry,
    List.mem_map, List.mem_map]
  constructor
  · rintro ⟨level, hlevel, heq⟩
    cases heq
    obtain ⟨hmem, hsize⟩ := List.mem_filter.mp hlevel
    exact ⟨⟨level, hmem, rfl⟩, of_decide_eq_true hsize⟩
  · rintro ⟨⟨level, hmem, heq⟩, hsize⟩
    cases heq
    exact ⟨level, List.mem_filter.mpr ⟨hmem, decide_eq_true hsize⟩, rfl⟩

/-- A side that is loaded from its own best levels is as before exactly if it fits into the
depth. -/
theorem loaded_best_iff {chainLevels : List ChainLevel} {before : UInt64 → UInt64 → Bool}
    {levels : Dict UInt64 UInt64} {depth : Nat}
    (hbest : chainLevels.map (fun level => (level.price, level.totalQuantity)) =
      (Books.sortedLevels before levels).take depth) :
    (∀ price, (BookTx.loaded chainLevels ∅).lookup price = levels.lookup price) ↔
      levels.entries.length ≤ depth ∧
        ∀ price size, levels.lookup price = some size → size ≠ 0 := by
  have hnodup := Books.nodup_sortedLevels before levels
  have hprices : (chainLevels.map ChainLevel.price).Nodup := by
    have hmap : chainLevels.map ChainLevel.price =
        ((Books.sortedLevels before levels).take depth).map Prod.fst := by
      rw [← hbest, List.map_map]
      rfl
    rw [hmap]
    exact ((List.take_sublist depth _).map _).nodup hnodup
  have hloaded := lookup_loaded_iff hprices
  rw [hbest] at hloaded
  constructor
  · intro hsame
    have hsizes : ∀ price size, levels.lookup price = some size →
        (price, size) ∈ (Books.sortedLevels before levels).take depth ∧ size ≠ 0 := by
      intro price size hsize
      rw [← hsame price] at hsize
      exact (hloaded price size).mp hsize
    refine ⟨?_, fun price size hsize => (hsizes price size hsize).2⟩
    -- every level of the book stands among the best ones
    have hsubset : Books.sortedLevels before levels ⊆ (Books.sortedLevels before levels).take depth := by
      rintro ⟨price, size⟩ hmem
      exact (hsizes price size (Books.mem_sortedLevels.mp hmem)).1
    have hlength := (List.subperm_of_subset (List.Nodup.of_map _ hnodup) hsubset).length_le
    rw [List.length_take, Books.length_sortedLevels] at hlength
    omega
  · rintro ⟨hlength, hsizes⟩ price
    rw [← Books.length_sortedLevels before levels] at hlength
    rw [List.take_of_length_le hlength] at hloaded
    apply Option.ext
    intro size
    rw [hloaded price size, Books.mem_sortedLevels]
    constructor
    · intro h
      exact h.1
    · intro h
      exact ⟨h, hsizes price size h⟩

/-! ## When a load succeeds -/

theorem getBookWithDepthFallback_default (chain : ChainClient) (contract : List UInt8) (calls : Nat) :
    getBookWithDepthFallback chain contract defaultBookDepth defaultBookDepth calls =
      match chain.getBook calls contract 20 with
      | some book => (some book, calls + 1)
      | none => (chain.getBook (calls + 1) contract 10, calls + 2) := by
  unfold defaultBookDepth getBookWithDepthFallback
  cases chain.getBook calls contract 20 with
  | some book => rfl
  | none =>
      have hhalf : max (20 / 2) 10 = 10 := rfl
      dsimp only
      rw [if_pos (by decide), hhalf]
      unfold getBookWithDepthFallback
      cases chain.getBook (calls + 1) contract 10 <;> rfl

theorem ChainClient.AnswersAt.unique {chain : ChainClient} {contract : List UInt8} {call depth depth' : Nat}
    (h : chain.AnswersAt contract call depth) (h' : chain.AnswersAt contract call depth') :
    depth = depth' := by
  rcases h with ⟨rfl, hfull⟩ | ⟨rfl, hfull, -⟩ <;> rcases h' with ⟨rfl, hfull'⟩ | ⟨rfl, hfull', -⟩
  · rfl
  · rw [hfull'] at hfull
    nomatch hfull
  · rw [hfull] at hfull'
    nomatch hfull'
  · rfl

theorem ChainClient.fallback_or_answers (chain : ChainClient) (contract : List UInt8) (calls : Nat) :
    ((∀ depth, ¬chain.AnswersAt contract calls depth) ∧
      getBookWithDepthFallback chain contract defaultBookDepth defaultBookDepth calls =
        (none, calls + 2)) ∨
    ∃ depth call chainBook, chain.AnswersAt contract calls depth ∧
      chain.getBook call contract depth = some chainBook ∧
      getBookWithDepthFallback chain contract defaultBookDepth defaultBookDepth calls =
        (some chainBook, if depth = 20 then calls + 1 else calls + 2) := by
  rw [getBookWithDepthFallback_default]
  cases hfull : chain.getBook calls contract 20 with
  | some chainBook =>
      exact Or.inr ⟨20, calls, chainBook, Or.inl ⟨rfl, by rw [hfull]; rfl⟩, hfull, rfl⟩
  | none =>
      cases hhalf : chain.getBook (calls + 1) contract 10 with
      | some chainBook =>
          exact Or.inr ⟨10, calls + 1, chainBook, Or.inr ⟨rfl, hfull, by rw [hhalf]; rfl⟩, hhalf, rfl⟩
      | none =>
          refine Or.inl ⟨?_, rfl⟩
          rintro depth (⟨rfl, hanswer⟩ | ⟨rfl, -, hanswer⟩)
          · rw [hfull] at hanswer
            nomatch hanswer
          · rw [hhalf] at hanswer
            nomatch hanswer

namespace Ctx

variable {c : Ctx} {spotMarket : String}

theorem LoadsAt.unique {depth depth' : Nat} (h : c.LoadsAt env spotMarket depth)
    (h' : c.LoadsAt env spotMarket depth') : depth = depth' := by
  obtain ⟨contract, hparse, hanswers, -⟩ := h
  obtain ⟨contract', hparse', hanswers', -⟩ := h'
  rw [hparse] at hparse'
  cases hparse'
  exact hanswers.unique hanswers'

/-- A load fails and changes no book, or installs an answer of the depth it has got. -/
theorem hydrate_or_loads (env : Env) (spotMarket : String) (c : Ctx) :
    ((c.hydrateSpotFromChain env spotMarket).store = c.store ∧
      ∀ depth, ¬c.LoadsAt env spotMarket depth) ∨
    ∃ depth contract call calls chainBook lastPrice, c.LoadsAt env spotMarket depth ∧
      env.sdk.parseTokenContract spotMarket = some contract ∧
      env.chain.getBook call contract depth = some chainBook ∧
      c.hydrateSpotFromChain env spotMarket =
        ({ c with calls }).installBook env spotMarket chainBook lastPrice := by
  unfold hydrateSpotFromChain
  cases hparse : env.sdk.parseTokenContract spotMarket with
  | none =>
      refine Or.inl ⟨rfl, ?_⟩
      rintro depth ⟨contract, hcontract, -⟩
      rw [hparse] at hcontract
      nomatch hcontract
  | some contract =>
      have hloads : ∀ depth, c.LoadsAt env spotMarket depth ↔
          env.chain.AnswersAt contract c.calls depth ∧
            ((c.store.lastTradePrice.lookup (normalizeSpotMarketKey env.sdk spotMarket)).isSome ∨
              (env.chain.getMarketInfo (if depth = 20 then c.calls + 1 else c.calls + 2)
                contract).isSome) := by
        intro depth
        unfold LoadsAt
        rw [hparse]
        simp
      dsimp only
      rcases env.chain.fallback_or_answers contract c.calls with
        ⟨hfails, hnone⟩ | ⟨depth, call, chainBook, hanswers, hget, hsome⟩
      · rw [hnone]
        refine Or.inl ⟨rfl, ?_⟩
        intro depth hloadsAt
        exact hfails depth ((hloads depth).mp hloadsAt).1
      · rw [hsome]
        dsimp only
        cases hknown : c.store.lastTradePrice.lookup (normalizeSpotMarketKey env.sdk spotMarket) with
        | some price =>
            refine Or.inr ⟨depth, contract, call, _, chainBook, some price, ?_, rfl, hget, rfl⟩
            exact (hloads depth).mpr ⟨hanswers, Or.inl (by rw [hknown]; rfl)⟩
        | none =>
            cases hinfo : env.chain.getMarketInfo (if depth = 20 then c.calls + 1 else c.calls + 2)
                contract with
            | none =>
                refine Or.inl ⟨rfl, ?_⟩
                intro depth' hloadsAt
                obtain ⟨hanswers', hprice⟩ := (hloads depth').mp hloadsAt
                cases hanswers.unique hanswers'
                rw [hknown, hinfo] at hprice
                rcases hprice with hfalse | hfalse <;> nomatch hfalse
            | some lastPrice =>
                refine Or.inr ⟨depth, contract, call, _, chainBook, lastPrice, ?_, rfl, hget, rfl⟩
                exact (hloads depth).mpr ⟨hanswers, Or.inr (by rw [hinfo]; rfl)⟩

theorem rehydrateSpotFromChain_fst (env : Env) (spotMarket : String) (depth : Nat) (c : Ctx) :
    (c.rehydrateSpotFromChain env spotMarket depth).1 = c.hydrateSpotFromChain env spotMarket := by
  unfold rehydrateSpotFromChain hydrateSpotFromChain
  cases env.sdk.parseTokenContract spotMarket with
  | none => rfl
  | some contract =>
      dsimp only
      rw [hydrationDepth_eq]
      generalize getBookWithDepthFallback env.chain contract defaultBookDepth defaultBookDepth
        c.calls = fallback
      obtain ⟨answer, calls⟩ := fallback
      cases answer with
      | none => rfl
      | some chainBook =>
          dsimp only
          cases c.store.lastTradePrice.lookup (normalizeSpotMarketKey env.sdk spotMarket) with
          | some price => rfl
          | none =>
              dsimp only
              cases env.chain.getMarketInfo calls contract <;> rfl

end Ctx

namespace BookRead

/-- Every read, whatever its depth, loads the book from the node. -/
theorem run_eq (env : Env) (read : BookRead) (c : Ctx) :
    read.run env c = c.hydrateSpotFromChain env read.spotMarket := by
  cases read with
  | getBook spotMarket depth => exact Ctx.rehydrateSpotFromChain_fst env spotMarket _ c
  | subscribe spotMarket depth =>
      have hfst := Ctx.rehydrateSpotFromChain_fst env spotMarket (Ctx.requestDepth depth) c
      unfold run Ctx.subscribeBook
      dsimp only
      split_ifs <;> exact hfst

/-- Where the book in memory is the whole book of the node, a read leaves its levels as they
are exactly if the load fails or the book fits into the depth that the node answers at. -/
theorem levels_unchanged_iff (env : Env) (read : BookRead) (c : Ctx)
    (hnode : ∀ contract, env.sdk.parseTokenContract read.spotMarket = some contract →
      env.chain.ServesBest contract
        (c.store.books.shard (normalizeSpotMarketKey env.sdk read.spotMarket))) :
    let key := normalizeSpotMarketKey env.sdk read.spotMarket
    (∀ side price, (((read.run env c).store.books.shard key).levels side).lookup price =
      ((c.store.books.shard key).levels side).lookup price) ↔
      ∀ depth, c.LoadsAt env read.spotMarket depth → (c.store.books.shard key).FitsInto depth := by
  intro key
  rw [run_eq]
  rcases Ctx.hydrate_or_loads env read.spotMarket c with
    ⟨hstore, hfails⟩ | ⟨depth, contract, call, calls, chainBook, lastPrice, hloads, hparse, hget, heq⟩
  · rw [hstore]
    exact iff_of_true (fun _ _ => rfl) fun depth hloads => absurd hloads (hfails depth)
  · have hbest := hnode contract hparse call depth chainBook hget
    have hlevels : ∀ side, (((c.hydrateSpotFromChain env read.spotMarket).store.books.shard
        key).levels side) = BookTx.loaded (chainBook.levels side) ∅ := by
      intro side
      rw [heq]
      obtain ⟨-, hbids, hasks⟩ := BookTx.shard_hydrateFromChain env.sdk read.spotMarket
        ⟨c.store.books, c.ws.bookLevels, c.ws.bookMeta⟩ chainBook lastPrice
      cases side with
      | buy => exact hbids
      | sell => exact hasks
    have hside : ∀ side, (∀ price,
        (((c.hydrateSpotFromChain env read.spotMarket).store.books.shard key).levels side).lookup
          price = ((c.store.books.shard key).levels side).lookup price) ↔
        ((c.store.books.shard key).levels side).entries.length ≤ depth ∧
          ∀ price size, ((c.store.books.shard key).levels side).lookup price = some size →
            size ≠ 0 := by
      intro side
      rw [hlevels side]
      cases side with
      | buy =>
          have hbids : chainBook.bestBids.map (fun level => (level.price, level.totalQuantity)) =
              (Books.sortedLevels (fun a b => b ≤ a) (c.store.books.shard key).bids).take depth :=
            hbest .buy
          exact loaded_best_iff hbids
      | sell =>
          have hasks : chainBook.bestAsks.map (fun level => (level.price, level.totalQuantity)) =
              (Books.sortedLevels (fun a b => a ≤ b) (c.store.books.shard key).asks).take depth :=
            hbest .sell
          exact loaded_best_iff hasks
    constructor
    · intro hsame depth' hloads'
      cases hloads.unique hloads'
      intro side
      exact (hside side).mp (hsame side)
    · intro hfits side
      exact (hside side).mpr (hfits depth hloads side)

end BookRead

end

namespace Sample

def bidsBook (bids : Nat) : SpotBook where
  bids := Dict.insertAll ((List.range bids).map fun i => ⟨UInt64.ofNat (i + 1), 7⟩) ∅
  chainHydrated := true

def bookNode (book : SpotBook) : ChainClient where
  getBook _ _ depth :=
    let best (side : OrderSide) : List ChainLevel :=
      ((book.bestLevels side).take depth).map fun level => ⟨level.1, level.2⟩
    some ⟨best .buy, best .sell⟩
  getMarketInfo _ _ := some none

theorem servesBest_bookNode (book : SpotBook) (contract : List UInt8) :
    (bookNode book).ServesBest contract book := by
  intro call depth answer hanswer side
  cases hanswer
  cases side <;> simp [GetOrderBook.levels, Function.comp_def]

def bookEnv (book : SpotBook) : Env := ⟨sdk, bookNode book, 0⟩

def bookCtx (book : SpotBook) : Ctx :=
  { store := { books := ({} : Books).setShard market book } }

/-- The lowest of twenty-one bids is gone after a read. -/
theorem lowestBid_dropped :
    (∀ contract, (bookNode (bidsBook 21)).ServesBest contract (bidsBook 21)) ∧
    ((bookCtx (bidsBook 21)).store.books.shard market).bids.lookup 1 = some 7 ∧
      ((BookRead.run (bookEnv (bidsBook 21)) (bookCtx (bidsBook 21))
        (.getBook market (some 5))).store.books.shard market).bids.lookup 1 = none :=
  ⟨servesBest_bookNode _, by decide +kernel, by decide +kernel⟩

/-- A read leaves a book of two bids as it is. -/
theorem twoBids_unchanged :
    let c := bookCtx (bidsBook 2)
    let key := normalizeSpotMarketKey sdk market
    ∀ side price, (((BookRead.run (bookEnv (bidsBook 2)) c
      (.subscribe market none)).store.books.shard key).levels side).lookup price =
        ((c.store.books.shard key).levels side).lookup price := by
  intro c key
  have hbook : c.store.books.shard key = bidsBook 2 := by
    unfold key
    rw [normalize_market]
    exact (Books.shard_setShard {} market market _).trans (if_pos rfl)
  refine (BookRead.levels_unchanged_iff (bookEnv (bidsBook 2)) (.subscribe market none) c ?_).mpr ?_
  · intro contract _
    change ChainClient.ServesBest _ _ (c.store.books.shard key)
    rw [hbook]
    exact servesBest_bookNode _ _
  · intro depth hloads
    change (c.store.books.shard key).FitsInto depth
    rw [hbook]
    have hdepth : 10 ≤ depth := by
      obtain ⟨contract, -, ⟨rfl, -⟩ | ⟨rfl, -⟩, -⟩ := hloads <;> decide
    have hbids : (bidsBook 2).bids.entries = [⟨2, 7⟩, ⟨1, 7⟩] := by decide +kernel
    intro side
    cases side with
    | buy =>
        refine ⟨?_, ?_⟩
        · change (bidsBook 2).bids.entries.length ≤ depth
          rw [hbids]
          exact le_trans (by decide) hdepth
        · intro price size hsize
          have hmem := Dict.mem_entries_iff.mpr hsize
          change _ ∈ (bidsBook 2).bids.entries at hmem
          rw [hbids] at hmem
          simp only [List.mem_cons, Sigma.mk.injEq, List.not_mem_nil, or_false] at hmem
          rcases hmem with ⟨-, hseven⟩ | ⟨-, hseven⟩ <;>
            · rw [eq_of_heq hseven]
              decide
    | sell => exact ⟨Nat.zero_le _, nofun⟩

end Sample

end ClobIndexer
