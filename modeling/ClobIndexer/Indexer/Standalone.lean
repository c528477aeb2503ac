import ClobIndexer.HexSdk
import ClobIndexer.Indexer.Coherence
/-!
# Standalone markets

A market task registers its market when an order comes for an address that nothing is
bound to.  In a coherent registry no name leads to such an address, so the market is
registered under the address itself, and what that adds is told by the address alone:
a binding, a name, and a market unless there is one under its id.  What was there before
is left as it is, so a task that registers its own market changes nothing that the task
of another market looks up.
-/

namespace ClobIndexer

open Lib

variable (sdk : Sdk)

def MarketKey (m : String) : Prop :=
  ∃ contract : List UInt8, contract.length = sdk.contractAddressLength ∧
    sdk.contractToString contract = m

/-- Printed contract addresses hold no colon and are told apart without regard to case. -/
structure PrintsApart : Prop where
  plain : ∀ m, MarketKey sdk m → ':' ∉ m.toList
  caseless : ∀ m m', MarketKey sdk m → MarketKey sdk m' →
    Text.toAsciiUppercase m = Text.toAsciiUppercase m' → m = m'

variable {sdk} {m : String}

theorem printsApart_hexSdk (vaultAccount : String → String) (uuidV5 : String → Uuid) :
    PrintsApart (hexSdk vaultAccount uuidV5) := by
  have hlower : ∀ m, MarketKey (hexSdk vaultAccount uuidV5) m →
      Text.toAsciiLowercase (Text.toAsciiUppercase m) = m := by
    rintro m ⟨contract, -, rfl⟩
    have hchars : (printAddress contract).toList.map (Char.toLower ∘ Char.toUpper) =
        (printAddress contract).toList :=
      (List.map_congr_left fun c hc => (printAddress_chars contract c hc).2).trans (List.map_id _)
    change Text.toAsciiLowercase (Text.toAsciiUppercase (printAddress contract)) =
      printAddress contract
    unfold Text.toAsciiLowercase Text.toAsciiUppercase
    rw [String.toList_ofList, List.map_map, hchars, String.ofList_toList]
  constructor
  · rintro m ⟨contract, -, rfl⟩ hcolon
    exact (printAddress_chars contract ':' hcolon).1 rfl
  · intro m m' hm hm' heq
    rw [← hlower m hm, ← hlower m' hm', heq]

theorem MarketKey.normal (lawful : LawfulSdk sdk) (hm : MarketKey sdk m) :
    normalizeSpotMarketKey sdk m = m := by
  obtain ⟨contract, hlength, rfl⟩ := hm
  exact normalize_print lawful hlength

theorem MarketKey.trimmed (lawful : LawfulSdk sdk) (hm : MarketKey sdk m) : Text.trim m = m := by
  obtain ⟨contract, -, rfl⟩ := hm
  exact lawful.trim_print contract

namespace Registry

variable {r a b start : Registry}

/-- A market address is found, or its market is registered under the address. -/
theorem ensureStandaloneSpotMarket_cases (lawful : LawfulSdk sdk)
    (hnormal : normalizeSpotMarketKey sdk m = m)
    (hnamed : ∀ name spot, r.spotByName.lookup name = some spot → spot ∈ r.spotToMarket) :
    (∃ ref, r.spotToMarket.lookup m = some ref ∧
        r.ensureStandaloneSpotMarket sdk m = (r, (ref.marketId, ref.outcome))) ∨
      r.spotToMarket.lookup m = none ∧
        r.ensureStandaloneSpotMarket sdk m =
          (if m = "" then r else r.withShell sdk m m "", (marketUuid sdk m, "spot")) := by
  unfold ensureStandaloneSpotMarket lookupSpotMarket
  dsimp only
  rw [hnormal, hnormal]
  cases hlookup : r.spotToMarket.lookup m with
  | some ref => exact .inl ⟨ref, rfl, rfl⟩
  | none =>
      right
      refine ⟨rfl, ?_⟩
      dsimp only [Option.map_none]
      rw [standaloneName_of_unbound hnamed hlookup]
      by_cases hempty : m = ""
      · have hnone : r.registerNamedSpotMarket sdk m m "" = r := by
          unfold registerNamedSpotMarket
          rw [hnormal]
          exact if_pos (.inr hempty)
        rw [hnone, if_pos hempty, hlookup]
        rfl
      · have hshell := @registerNamedSpotMarket_of_unbound sdk r lawful m
        rw [hnormal] at hshell
        rw [hshell hempty hlookup, if_neg hempty, lookup_spotToMarket_withShell, hlookup]
        simp

/-! ## What others see of it -/

structure AgreeOn (S : Set String) (I : Set Uuid) (N : Set String) (a b : Registry) : Prop where
  slugs : a.slugToMarket = b.slugToMarket
  spots : ∀ spot ∈ S, a.spotToMarket.lookup spot = b.spotToMarket.lookup spot
  markets : ∀ id ∈ I, a.markets.lookup id = b.markets.lookup id
  names : ∀ name ∈ N, a.spotByName.lookup name = b.spotByName.lookup name

namespace AgreeOn

variable {S : Set String} {I : Set Uuid} {N : Set String}

theorem refl (S : Set String) (I : Set Uuid) (N : Set String) (r : Registry) : AgreeOn S I N r r :=
  ⟨rfl, fun _ _ => rfl, fun _ _ => rfl, fun _ _ => rfl⟩

theorem trans {c : Registry} (h : AgreeOn S I N a b) (h' : AgreeOn S I N b c) :
    AgreeOn S I N a c where
  slugs := h.slugs.trans h'.slugs
  spots := fun spot hspot => (h.spots spot hspot).trans (h'.spots spot hspot)
  markets := fun id hid => (h.markets id hid).trans (h'.markets id hid)
  names := fun name hname => (h.names name hname).trans (h'.names name hname)

theorem symm (h : AgreeOn S I N a b) : AgreeOn S I N b a where
  slugs := h.slugs.symm
  spots := fun spot hspot => (h.spots spot hspot).symm
  markets := fun id hid => (h.markets id hid).symm
  names := fun name hname => (h.names name hname).symm

variable (sdk) in
theorem withShell (h : AgreeOn S I N a b) (name m deployer : String) :
    AgreeOn S I N (a.withShell sdk name m deployer) (b.withShell sdk name m deployer) where
  slugs := h.slugs
  spots := by
    intro spot hspot
    rw [lookup_spotToMarket_withShell, lookup_spotToMarket_withShell, h.spots spot hspot]
  markets := by
    intro id hid
    rw [lookup_markets_withShell, lookup_markets_withShell, h.markets id hid]
  names := by
    intro name' hname
    change AList.lookup name' (a.spotByName.insert _ m) = AList.lookup name' (b.spotByName.insert _ m)
    rw [Dict.lookup_insert_ite, Dict.lookup_insert_ite, h.names name' hname]

end AgreeOn

theorem frame_withShell {S : Set String} {I : Set Uuid} {N : Set String} {name deployer : String}
    (hspot : m ∉ S) (hid : marketUuid sdk m ∈ I → marketUuid sdk m ∈ r.markets)
    (hname : Text.toAsciiUppercase (Text.trim name) ∉ N) :
    (r.withShell sdk name m deployer).AgreeOn S I N r where
  slugs := rfl
  spots := by
    intro spot hmem
    have hne : spot ≠ m := fun heq => hspot (heq ▸ hmem)
    rw [lookup_spotToMarket_withShell, if_neg hne, Option.or_none]
  markets := by
    intro id hmem
    rw [lookup_markets_withShell]
    split_ifs with heq
    · subst heq
      obtain ⟨market, hmarket⟩ := Dict.mem_iff_lookup.mp (hid hmem)
      rw [hmarket, Option.some_or]
    · exact Option.or_none
  names := by
    intro name' hmem
    have hne : name' ≠ Text.toAsciiUppercase (Text.trim name) := fun heq => hname (heq ▸ hmem)
    change AList.lookup name' (r.spotByName.insert _ m) = _
    rw [Dict.lookup_insert_ite, if_neg hne]

/-! ## What a block's tasks make of it -/

variable (sdk) in
/-- A registry that has got nothing but spot markets at their own addresses. -/
structure GrownFrom (start r : Registry) : Prop where
  kept : ∀ id ∈ start.markets, r.markets.lookup id = start.markets.lookup id
  bound : ∀ spot ref, r.spotToMarket.lookup spot = some ref →
    start.spotToMarket.lookup spot = some ref ∨ ref.marketId = marketUuid sdk spot
  named : ∀ name spot, r.spotByName.lookup name = some spot → spot ∈ r.spotToMarket

theorem Coherent.grownFrom {names : Set String} (h : Coherent sdk names r) :
    GrownFrom sdk r r where
  kept := fun _ _ => rfl
  bound := fun _ _ hlookup => .inl hlookup
  named := h.named

theorem GrownFrom.withShell (h : GrownFrom sdk start r) (name m deployer : String) :
    GrownFrom sdk start (r.withShell sdk name m deployer) where
  kept := by
    intro id hid
    obtain ⟨market, hmarket⟩ := Dict.mem_iff_lookup.mp hid
    rw [lookup_markets_withShell, h.kept id hid, hmarket, Option.some_or]
  bound := by
    intro spot ref hlookup
    rw [lookup_spotToMarket_withShell, Option.or_eq_some_iff] at hlookup
    rcases hlookup with hold | ⟨-, hnew⟩
    · exact h.bound spot ref hold
    · split_ifs at hnew with hspot
      cases hnew
      exact .inr (congrArg (marketUuid sdk) hspot.symm)
  named := by
    intro name' spot hlookup
    change AList.lookup name' (r.spotByName.insert _ m) = some spot at hlookup
    rw [Dict.lookup_insert_ite] at hlookup
    rw [mem_spotToMarket_withShell]
    split_ifs at hlookup
    · cases hlookup
      exact .inr rfl
    · exact .inl (h.named name' spot hlookup)

end Registry

end ClobIndexer
