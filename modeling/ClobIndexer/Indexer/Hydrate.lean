import ClobIndexer.Indexer.State
/-!
# Loading books from the node

`src/book_hydrate.rs`.  Errors are logged by every caller, so a failed load
leaves the context as it is but for the number of calls made.
-/

namespace ClobIndexer

open Lib

def defaultBookDepth : Nat := 20

/-- `get_book_with_depth_fallback`: halve the depth down to ten while the node
fails.  The depth is also a bound on the number of attempts. -/
def getBookWithDepthFallback (chain : ChainClient) (contract : List UInt8) :
    Nat → Nat → Nat → Option GetOrderBook × Nat
  | 0, _, calls => (none, calls)
  | attempts + 1, attemptDepth, calls =>
      match chain.getBook calls contract attemptDepth with
      | some book => (some book, calls + 1)
      | none =>
          if 10 < attemptDepth then
            getBookWithDepthFallback chain contract attempts (max (attemptDepth / 2) 10)
              (calls + 1)
          else (none, calls + 1)

variable (env : Env)

namespace Ctx

def installBook (spotMarket : String) (chainBook : GetOrderBook)
    (lastTradePrice : Option UInt64) (c : Ctx) : Ctx :=
  c.onBooks false fun t => (t.hydrateFromChain env.sdk spotMarket chainBook lastTradePrice, none)

def hydrateSpotFromChain (spotMarket : String) (c : Ctx) : Ctx :=
  match env.sdk.parseTokenContract spotMarket with
  | none => c
  | some contract =>
      let (answer, calls) :=
        getBookWithDepthFallback env.chain contract defaultBookDepth defaultBookDepth c.calls
      match answer with
      | none => { c with calls }
      | some chainBook =>
          match c.store.lastTradePrice.lookup (normalizeSpotMarketKey env.sdk spotMarket) with
          | some price => ({ c with calls }).installBook env spotMarket chainBook (some price)
          | none =>
              match env.chain.getMarketInfo calls contract with
              | none => { c with calls := calls + 1 }
              | some lastPrice =>
                  ({ c with calls := calls + 1 }).installBook env spotMarket chainBook lastPrice

def ensureChainHydrated (spotMarket : String) (c : Ctx) : Ctx :=
  if c.store.books.isChainHydrated env.sdk spotMarket then c
  else c.hydrateSpotFromChain env spotMarket

def hydrateAllSpotMarkets (c : Ctx) : Ctx :=
  c.store.registry.listSpotMarkets.foldl (fun c spot => c.hydrateSpotFromChain env spot) c

def hydrateMarketSpots (yesSpotMarket noSpotMarket : String) (c : Ctx) : Ctx :=
  (c.hydrateSpotFromChain env yesSpotMarket).hydrateSpotFromChain env noSpotMarket

/-- A load either fails, or installs some book. -/
theorem hydrateSpotFromChain_cases (spotMarket : String) (c : Ctx) :
    (∃ calls, c.hydrateSpotFromChain env spotMarket = { c with calls }) ∨
      ∃ calls chainBook lastPrice, c.hydrateSpotFromChain env spotMarket =
        ({ c with calls }).installBook env spotMarket chainBook lastPrice := by
  unfold hydrateSpotFromChain
  cases env.sdk.parseTokenContract spotMarket with
  | none => exact Or.inl ⟨c.calls, rfl⟩
  | some contract =>
      dsimp only
      generalize getBookWithDepthFallback env.chain contract defaultBookDepth defaultBookDepth
        c.calls = answer
      obtain ⟨answer, calls⟩ := answer
      cases answer with
      | none => exact Or.inl ⟨calls, rfl⟩
      | some chainBook =>
          dsimp only
          cases c.store.lastTradePrice.lookup (normalizeSpotMarketKey env.sdk spotMarket) with
          | some price => exact Or.inr ⟨calls, chainBook, some price, rfl⟩
          | none =>
              dsimp only
              cases env.chain.getMarketInfo calls contract with
              | none => exact Or.inl ⟨calls + 1, rfl⟩
              | some lastPrice => exact Or.inr ⟨calls + 1, chainBook, lastPrice, rfl⟩

/-! ## A node that does not change its answers -/

end Ctx

/-- The node answers alike whenever it is asked. -/
structure ChainClient.Steady (chain : ChainClient) : Prop where
  getBook : ∀ n n' contract depth, chain.getBook n contract depth = chain.getBook n' contract depth
  getMarketInfo : ∀ n n' contract, chain.getMarketInfo n contract = chain.getMarketInfo n' contract

theorem getBookWithDepthFallback_steady {chain : ChainClient} (steady : chain.Steady)
    (contract : List UInt8) (attempts attemptDepth calls calls' : Nat) :
    (getBookWithDepthFallback chain contract attempts attemptDepth calls).1 =
      (getBookWithDepthFallback chain contract attempts attemptDepth calls').1 := by
  induction attempts generalizing attemptDepth calls calls' with
  | zero => rfl
  | succ attempts ih =>
      unfold getBookWithDepthFallback
      rw [steady.getBook calls calls']
      cases chain.getBook calls' contract attemptDepth with
      | some book => rfl
      | none =>
          dsimp only
          split_ifs
          · exact ih _ _ _
          · rfl

namespace Env

def chainBook (spotMarket : String) : Option GetOrderBook := do
  let contract ← env.sdk.parseTokenContract spotMarket
  (getBookWithDepthFallback env.chain contract defaultBookDepth defaultBookDepth 0).1

/-- The last price of a market: the one known, or the node's. -/
def chainPrice (spotMarket : String) (known : Option UInt64) : Option (Option UInt64) :=
  match known with
  | some price => some (some price)
  | none => do
      let contract ← env.sdk.parseTokenContract spotMarket
      env.chain.getMarketInfo 0 contract

def chainView (spotMarket : String) (known : Option UInt64) :
    Option (GetOrderBook × Option UInt64) := do
  let book ← env.chainBook spotMarket
  let price ← env.chainPrice spotMarket known
  return (book, price)

end Env

namespace Ctx

variable {env} in
/-- A load from a steady node depends on the known price alone. -/
theorem hydrateSpotFromChain_steady (steady : env.chain.Steady) (spotMarket : String) (c : Ctx) :
    ∃ calls, c.hydrateSpotFromChain env spotMarket =
      match env.chainView spotMarket
        (c.store.lastTradePrice.lookup (normalizeSpotMarketKey env.sdk spotMarket)) with
      | none => { c with calls }
      | some (chainBook, price) => ({ c with calls }).installBook env spotMarket chainBook price := by
  unfold hydrateSpotFromChain Env.chainView Env.chainBook Env.chainPrice
  cases env.sdk.parseTokenContract spotMarket with
  | none => exact ⟨c.calls, rfl⟩
  | some contract =>
      have hbook := getBookWithDepthFallback_steady steady contract defaultBookDepth
        defaultBookDepth 0 c.calls
      simp only [Option.bind_eq_bind, Option.bind_some, hbook]
      generalize getBookWithDepthFallback env.chain contract defaultBookDepth defaultBookDepth
        c.calls = answer
      obtain ⟨answer, calls⟩ := answer
      cases answer with
      | none => exact ⟨calls, rfl⟩
      | some chainBook =>
          dsimp only
          cases c.store.lastTradePrice.lookup (normalizeSpotMarketKey env.sdk spotMarket) with
          | some price => exact ⟨calls, rfl⟩
          | none =>
              dsimp only [Option.bind_some]
              rw [steady.getMarketInfo 0 calls]
              cases env.chain.getMarketInfo calls contract with
              | none => exact ⟨calls + 1, rfl⟩
              | some lastPrice => exact ⟨calls + 1, rfl⟩

/-- Two contexts that differ at most in the books, their pending rows, the book
channel and the number of node calls. -/
structure BooksOnly (c c' : Ctx) : Prop where
  registry : c'.store.registry = c.store.registry
  orders : c'.store.orders = c.store.orders
  vaults : c'.store.vaults = c.store.vaults
  lastTradePrice : c'.store.lastTradePrice = c.store.lastTradePrice
  tsMs : c'.store.tsMs = c.store.tsMs
  ws : { c'.ws with bookLevels := c.ws.bookLevels, bookMeta := c.ws.bookMeta } = c.ws
  history : c'.history = c.history
  hub : c'.hub = c.hub

theorem booksOnly_hydrateSpotFromChain (c : Ctx) (spotMarket : String) :
    BooksOnly c (c.hydrateSpotFromChain env spotMarket) := by
  rcases hydrateSpotFromChain_cases env spotMarket c with
    ⟨calls, heq⟩ | ⟨calls, chainBook, lastPrice, heq⟩
  · rw [heq]
    exact ⟨rfl, rfl, rfl, rfl, rfl, rfl, rfl, rfl⟩
  · rw [heq]
    exact ⟨rfl, rfl, rfl, rfl, rfl, rfl, rfl, rfl⟩

theorem booksOnly_ensureChainHydrated (c : Ctx) (spotMarket : String) :
    BooksOnly c (c.ensureChainHydrated env spotMarket) := by
  unfold ensureChainHydrated
  split_ifs
  · exact ⟨rfl, rfl, rfl, rfl, rfl, rfl, rfl, rfl⟩
  · exact booksOnly_hydrateSpotFromChain env c spotMarket

end Ctx

end ClobIndexer
