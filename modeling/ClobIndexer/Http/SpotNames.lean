import ClobIndexer.Http.MarkCancelled
import ClobIndexer.Indexer.Standalone
import ClobIndexer.Lib.Runs
/-!
# Markets by name

`resolve_spot_for_name` of `src/http/routes/markets.rs`.  The names of spot markets are kept
in memory alone, so a request for one that is not there asks the node for one market after
the other and registers every name that it meets.  Requests run side by side, with each
other and with the events that are indexed, and each registers into the same names.
-/

namespace ClobIndexer

open Lib

/-- `name.trim().to_ascii_uppercase()`, the key of a name. -/
def nameKey (name : String) : String := Text.toAsciiUppercase (Text.trim name)

def spelledAsAddress (name : String) : Bool :=
  (Text.stripPrefix "0x" (Text.trim name)).isSome ||
    (Text.stripPrefix "0X" (Text.trim name)).isSome

/-- How many markets of the node a request asks for. -/
def spotScanLimit : Nat := 64

variable (sdk : Sdk)

def Registry.resolveSpotMarketKey (idOrName : String) (r : Registry) : Option String :=
  let key := Text.trim idOrName
  if key = "" then none
  else if spelledAsAddress idOrName then some (normalizeSpotMarketKey sdk key)
  else r.spotByName.lookup (Text.toAsciiUppercase key)

/-! ## Requests -/

/-- How far a request is; the loop stands before the market of an index. -/
inductive LookupPhase where
  | scanning (index : Nat)
  | answered (answer : Except AppError String)
deriving DecidableEq

structure SpotRequest where
  name : String
  phase : LookupPhase
deriving DecidableEq

def spotNotFound (name : String) : AppError :=
  .notFound ("spot market '" ++ name ++ "' not found; create the market then retry")

structure SpotLookups where
  ctx : Ctx
  requests : Dict Nat SpotRequest := ∅

def firstPhase (name : String) (r : Registry) : LookupPhase :=
  match r.resolveSpotMarketKey sdk name with
  | some spot => .answered (.ok spot)
  | none =>
      if nameKey name = "" then .answered (.error (.badRequest "name is required"))
      else .scanning 1

section Rounds

-- `market_contract` of the SDK, printed, and the names of the node's `get_market_info`
variable (marketContract : Nat → Option String) (node : String → Option String)

def scanRound (name : String) (index : Nat) (r : Registry) : Registry × LookupPhase :=
  match marketContract index with
  | none => (r, .answered (.error (spotNotFound name)))
  | some contract =>
      match node contract with
      | none => (r, .answered (.error (spotNotFound name)))
      | some marketName =>
          let spotKey := normalizeSpotMarketKey sdk contract
          let r := r.registerNamedSpotMarket sdk marketName spotKey ""
          if Text.toAsciiUppercase marketName = nameKey name then (r, .answered (.ok spotKey))
          else if index < spotScanLimit then (r, .scanning (index + 1))
          else (r, .answered (.error (spotNotFound name)))

end Rounds

/-- An event is indexed, a request comes in, or the loop of one takes a round; what the node
answers may differ from round to round. -/
inductive SpotLookupStep where
  | event (e : ChainEvent)
  | ask (id : Nat) (name : String)
  | scan (id : Nat) (node : String → Option String)

namespace SpotLookups

variable (env : Env) (marketContract : Nat → Option String)

def ask (id : Nat) (name : String) (s : SpotLookups) : SpotLookups :=
  if id ∈ s.requests then s
  else
    { s with requests :=
        s.requests.insert id ⟨name, firstPhase env.sdk name s.ctx.store.registry⟩ }

def scan (id : Nat) (node : String → Option String) (s : SpotLookups) : SpotLookups :=
  match s.requests.lookup id with
  | some ⟨name, .scanning index⟩ =>
      let (r, phase) :=
        scanRound env.sdk marketContract node name index s.ctx.store.registry
      ⟨s.ctx.setRegistry r, s.requests.insert id ⟨name, phase⟩⟩
  | _ => s

def step (s : SpotLookups) : SpotLookupStep → SpotLookups
  | .event e => { s with ctx := e.apply env s.ctx }
  | .ask id name => s.ask env id name
  | .scan id node => s.scan env marketContract id node

end SpotLookups

/-! ## The names of a registry -/

namespace Registry

variable {sdk} {told : Set (String × String)} {addresses : Set String} {r : Registry}

variable (sdk told addresses) in
/-- The address was told for the name, or is registered under itself. -/
def Names (key spot : String) : Prop :=
  (∃ p ∈ told, nameKey p.1 = key ∧ normalizeSpotMarketKey sdk p.2 = spot) ∨
    (spot ∈ addresses ∧ nameKey spot = key)

variable (sdk told addresses) in
/-- Names lead to addresses that have them, and that are bound to a market. -/
structure WellNamed (r : Registry) : Prop where
  named : ∀ key spot, r.spotByName.lookup key = some spot → spot ∈ r.spotToMarket
  names : ∀ key spot, r.spotByName.lookup key = some spot → Names sdk told addresses key spot

def KeepsNames (r r' : Registry) : Prop := ∀ key, key ∈ r.spotByName → key ∈ r'.spotByName

theorem KeepsNames.refl (r : Registry) : r.KeepsNames r := fun _ h => h

theorem spotByName_registerNamedSpotMarket (name spotMarket deployer : String) (r : Registry) :
    (r.registerNamedSpotMarket sdk name spotMarket deployer).spotByName =
      if nameKey name = "" ∨ normalizeSpotMarketKey sdk spotMarket = "" then r.spotByName
      else r.spotByName.insert (nameKey name) (normalizeSpotMarketKey sdk spotMarket) := by
  unfold registerNamedSpotMarket nameKey
  dsimp only
  split_ifs <;> rfl

theorem mem_spotToMarket_registerNamedSpotMarket {name spotMarket deployer spot : String}
    (h : spot ∈ r.spotToMarket ∨
      nameKey name ≠ "" ∧ spot ≠ "" ∧ spot = normalizeSpotMarketKey sdk spotMarket) :
    spot ∈ (r.registerNamedSpotMarket sdk name spotMarket deployer).spotToMarket := by
  rcases registerNamedSpotMarket_cases sdk name spotMarket deployer r with
    ⟨hempty, heq⟩ | ⟨hbound, heq⟩ | ⟨-, -, heq⟩
  · rw [heq]
    rcases h with h | ⟨hname, hspot, rfl⟩
    · exact h
    · exact absurd hempty (not_or.mpr ⟨hname, hspot⟩)
  · rw [heq]
    rcases h with h | ⟨-, -, rfl⟩
    · exact h
    · exact hbound
  · rw [heq, mem_spotToMarket_withShell]
    rcases h with h | ⟨-, -, h⟩
    · exact .inl h
    · exact .inr h

theorem WellNamed.registerNamedSpotMarket (h : r.WellNamed sdk told addresses)
    (name spotMarket deployer : String)
    (hnames : Names sdk told addresses (nameKey name) (normalizeSpotMarketKey sdk spotMarket)) :
    (r.registerNamedSpotMarket sdk name spotMarket deployer).WellNamed sdk told addresses := by
  constructor
  · intro key spot hspot
    rw [spotByName_registerNamedSpotMarket] at hspot
    apply mem_spotToMarket_registerNamedSpotMarket
    split_ifs at hspot with hempty
    · exact .inl (h.named key spot hspot)
    · rw [Dict.lookup_insert_ite] at hspot
      split_ifs at hspot with hkey
      · cases hspot
        rw [not_or] at hempty
        exact .inr ⟨hempty.1, hempty.2, rfl⟩
      · exact .inl (h.named key spot hspot)
  · intro key spot hspot
    rw [spotByName_registerNamedSpotMarket] at hspot
    split_ifs at hspot
    · exact h.names key spot hspot
    · rw [Dict.lookup_insert_ite] at hspot
      split_ifs at hspot with hkey
      · cases hspot
        rw [hkey]
        exact hnames
      · exact h.names key spot hspot

theorem keepsNames_registerNamedSpotMarket (name spotMarket deployer : String) (r : Registry) :
    r.KeepsNames (r.registerNamedSpotMarket sdk name spotMarket deployer) := by
  intro key hkey
  rw [spotByName_registerNamedSpotMarket]
  split_ifs
  · exact hkey
  · exact (AList.mem_insert _).mpr (.inr hkey)

/-- An order event registers an unknown address under itself. -/
theorem WellNamed.resolveSpotMarket (lawful : LawfulSdk sdk) (h : r.WellNamed sdk told addresses)
    {spotMarket : String} (hspot : normalizeSpotMarketKey sdk spotMarket ∈ addresses) :
    (r.resolveSpotMarket sdk spotMarket).1.WellNamed sdk told addresses := by
  unfold Registry.resolveSpotMarket
  cases hmapped : r.lookupSpotMarket sdk spotMarket with
  | some mapped => exact h
  | none =>
      have hunbound : r.spotToMarket.lookup (normalizeSpotMarketKey sdk spotMarket) = none := by
        unfold lookupSpotMarket at hmapped
        rwa [Option.map_eq_none_iff] at hmapped
      have hagain : r.lookupSpotMarket sdk (normalizeSpotMarketKey sdk spotMarket) = none := by
        unfold lookupSpotMarket
        rw [normalize_normalize lawful, hunbound]
        rfl
      unfold ensureStandaloneSpotMarket
      dsimp only
      rw [hagain, standaloneName_of_unbound h.named hunbound]
      have hnames : Names sdk told addresses (nameKey (normalizeSpotMarketKey sdk spotMarket))
          (normalizeSpotMarketKey sdk (normalizeSpotMarketKey sdk spotMarket)) := by
        rw [normalize_normalize lawful]
        exact .inr ⟨hspot, rfl⟩
      dsimp only
      exact h.registerNamedSpotMarket (normalizeSpotMarketKey sdk spotMarket)
        (normalizeSpotMarketKey sdk spotMarket) "" hnames

theorem keepsNames_resolveSpotMarket (spotMarket : String) (r : Registry) :
    r.KeepsNames (r.resolveSpotMarket sdk spotMarket).1 := by
  rcases resolveSpotMarket_cases sdk spotMarket r with heq | ⟨name, heq⟩
  · rw [heq]
    exact KeepsNames.refl r
  · rw [heq]
    exact keepsNames_registerNamedSpotMarket _ _ _ r

end Registry

/-! ## Keys -/

theorem nameKey_of_toAsciiUppercase {marketName name : String}
    (h : Text.toAsciiUppercase marketName = nameKey name) : nameKey marketName = nameKey name := by
  calc
    nameKey marketName = Text.trim (Text.toAsciiUppercase marketName) :=
      (Text.trim_toAsciiUppercase marketName).symm
    _ = Text.trim (Text.toAsciiUppercase (Text.trim name)) := by rw [h]; rfl
    _ = Text.toAsciiUppercase (Text.trim (Text.trim name)) := Text.trim_toAsciiUppercase _
    _ = nameKey name := by rw [Text.trim_trim]; rfl

theorem nameKey_eq_empty {name : String} : nameKey name = "" ↔ Text.trim name = "" :=
  Text.toAsciiUppercase_eq_empty

theorem spelledAsAddress_iff {name : String} :
    spelledAsAddress name = true ↔ ['0', 'X'] <+: (nameKey name).toList := by
  have hzero : ∀ c : Char, c.toUpper = '0' ↔ c = '0' := by
    intro c
    rw [← Char.toNat_inj, ← Char.toNat_inj, Text.toNat_toUpper]
    have hchar : '0'.toNat = 48 := rfl
    rw [hchar]
    split_ifs <;> omega
  have hx : ∀ c : Char, c.toUpper = 'X' ↔ c = 'x' ∨ c = 'X' := by
    intro c
    rw [← Char.toNat_inj, ← Char.toNat_inj, ← Char.toNat_inj, Text.toNat_toUpper]
    have hlower : 'x'.toNat = 120 := rfl
    have hupper : 'X'.toNat = 88 := rfl
    rw [hlower, hupper]
    split_ifs <;> omega
  unfold spelledAsAddress nameKey Text.toAsciiUppercase
  rw [Bool.or_eq_true, Text.isSome_stripPrefix, Text.isSome_stripPrefix]
  simp only [String.toList_ofList]
  change ['0', 'x'] <+: _ ∨ ['0', 'X'] <+: _ ↔ _
  cases (Text.trim name).toList with
  | nil => simp
  | cons a rest =>
      cases rest with
      | nil => simp
      | cons b rest =>
          simp only [List.map_cons, List.cons_prefix_cons, List.nil_prefix, and_true]
          rw [eq_comm (a := '0') (b := a.toUpper), hzero, eq_comm (a := 'X') (b := b.toUpper), hx,
            ← and_or_left, eq_comm (a := '0'), eq_comm (a := 'x'), eq_comm (a := 'X')]

theorem spelledAsAddress_congr {name name' : String} (h : nameKey name = nameKey name') :
    spelledAsAddress name = spelledAsAddress name' := by
  rw [Bool.eq_iff_iff, spelledAsAddress_iff, spelledAsAddress_iff, h]

def ByName (name : String) : Prop := Text.trim name ≠ "" ∧ spelledAsAddress name = false

theorem ByName.congr {name name' : String} (hname : ByName name)
    (h : nameKey name' = nameKey name) : ByName name' := by
  refine ⟨?_, (spelledAsAddress_congr h).trans hname.2⟩
  intro hempty
  rw [← nameKey_eq_empty, h, nameKey_eq_empty] at hempty
  exact hname.1 hempty

/-! ## What the index does to the names -/

section Events

variable {env : Env} {told : Set (String × String)} {addresses : Set String}

theorem Registry.WellNamed.congr {sdk : Sdk} {r r' : Registry} (h : r.WellNamed sdk told addresses)
    (hnames : r'.spotByName = r.spotByName)
    (hbound : ∀ spot, spot ∈ r.spotToMarket → spot ∈ r'.spotToMarket) :
    r'.WellNamed sdk told addresses := by
  constructor
  · intro key spot hspot
    rw [hnames] at hspot
    exact hbound spot (h.named key spot hspot)
  · intro key spot hspot
    rw [hnames] at hspot
    exact h.names key spot hspot

/-- An event keeps the names, and adds what it tells. -/
theorem Ctx.wellNamed_apply (lawful : LawfulSdk env.sdk) {c : Ctx}
    (h : c.store.registry.WellNamed env.sdk told addresses) {e : ChainEvent}
    (hspots : e.spots env.sdk ⊆ addresses)
    (htold : ∀ created, e = .global (.marketCreated created) →
      (created.name, created.marketAddress) ∈ told) :
    (e.apply env c).store.registry.WellNamed env.sdk told addresses ∧
      c.store.registry.KeepsNames (e.apply env c).store.registry := by
  have hmove := c.registryMove_apply env e
  generalize (e.apply env c).store.registry = r at hmove ⊢
  cases hmove with
  | stays => exact ⟨h, Registry.KeepsNames.refl _⟩
  | resolves opts blockNum spotMarket e =>
      exact ⟨h.resolveSpotMarket lawful (hspots rfl), Registry.keepsNames_resolveSpotMarket _ _⟩
  | registers created =>
      refine ⟨h.registerNamedSpotMarket _ _ _ (.inl ?_),
        Registry.keepsNames_registerNamedSpotMarket _ _ _ _⟩
      exact ⟨_, htold created rfl, rfl, rfl⟩
  | upserts created =>
      obtain ⟨e', -, -, -, hclaims⟩ := c.claims_upsertMarket env created
      refine ⟨h.congr hclaims.spotByName fun spot hspot => ?_, fun key hkey => ?_⟩
      · rw [← AList.lookup_isSome, hclaims.bindings]
        split_ifs
        · rfl
        · rfl
        · exact AList.lookup_isSome.mpr hspot
      · rw [hclaims.spotByName]
        exact hkey
  | settles marketAddress => exact ⟨h.congr rfl fun _ hspot => hspot, fun _ hkey => hkey⟩

end Events

/-! ## What a request knows -/

section Requests

variable {sdk : Sdk} (told : Set (String × String)) (addresses failed : Set String)
  (marketContract : Nat → Option String)

def Passed (name : String) (index : Nat) : Prop :=
  ∀ j, 1 ≤ j → j < index → ∃ contract marketName, marketContract j = some contract ∧
    (marketName, contract) ∈ told ∧ Text.toAsciiUppercase marketName ≠ nameKey name

variable (sdk) in
/-- The answer of a request is right: an address that was asked for by itself, or that was told
for the name, which then stays registered, be it for another address; and otherwise an error
that says that the name is missing, or that the markets up to some index have other names,
which is the last one or one that the node did not tell. -/
structure SpotRequest.Fits (r : Registry) (q : SpotRequest) : Prop where
  scanning : ∀ index, q.phase = .scanning index → 1 ≤ index ∧ index ≤ spotScanLimit ∧
    ByName q.name ∧ Passed told marketContract q.name index
  found : ∀ spot, q.phase = .answered (.ok spot) →
    spelledAsAddress q.name = true ∧ spot = normalizeSpotMarketKey sdk (Text.trim q.name) ∨
      ByName q.name ∧ Registry.Names sdk told addresses (nameKey q.name) spot ∧
        nameKey q.name ∈ r.spotByName
  refused : ∀ error, q.phase = .answered (.error error) →
    Text.trim q.name = "" ∧ error = .badRequest "name is required" ∨
      ByName q.name ∧ error = spotNotFound q.name ∧
        ∃ index ≤ spotScanLimit + 1, Passed told marketContract q.name index ∧
          (index = spotScanLimit + 1 ∨
            ∀ contract, marketContract index = some contract → contract ∈ failed)

variable {told addresses failed marketContract} {r r' : Registry} {q : SpotRequest}

theorem Passed.succ {name : String} {index : Nat} (h : Passed told marketContract name index)
    {contract marketName : String} (hcontract : marketContract index = some contract)
    (htold : (marketName, contract) ∈ told)
    (hother : Text.toAsciiUppercase marketName ≠ nameKey name) :
    Passed told marketContract name (index + 1) := by
  intro j hone hj
  rcases Nat.lt_succ_iff_lt_or_eq.mp hj with hlt | rfl
  · exact h j hone hlt
  · exact ⟨contract, marketName, hcontract, htold, hother⟩

theorem SpotRequest.Fits.mono (h : q.Fits sdk told addresses failed marketContract r)
    (hkeeps : r.KeepsNames r') : q.Fits sdk told addresses failed marketContract r' where
  scanning := h.scanning
  found := by
    intro spot hspot
    rcases h.found spot hspot with haddress | ⟨hname, hnames, hkey⟩
    · exact .inl haddress
    · exact .inr ⟨hname, hnames, hkeeps _ hkey⟩
  refused := h.refused

theorem fits_scanning {name : String} {index : Nat} (hone : 1 ≤ index)
    (hlimit : index ≤ spotScanLimit) (hname : ByName name)
    (hpassed : Passed told marketContract name index) :
    SpotRequest.Fits sdk told addresses failed marketContract r ⟨name, .scanning index⟩ where
  scanning := by
    intro next hnext
    cases hnext
    exact ⟨hone, hlimit, hname, hpassed⟩
  found := by
    intro spot hspot
    cases hspot
  refused := by
    intro error herror
    cases herror

theorem fits_found {name spot : String}
    (h : spelledAsAddress name = true ∧ spot = normalizeSpotMarketKey sdk (Text.trim name) ∨
      ByName name ∧ Registry.Names sdk told addresses (nameKey name) spot ∧
        nameKey name ∈ r.spotByName) :
    SpotRequest.Fits sdk told addresses failed marketContract r ⟨name, .answered (.ok spot)⟩ where
  scanning := by
    intro index hindex
    cases hindex
  found := by
    intro other hother
    cases hother
    exact h
  refused := by
    intro error herror
    cases herror

theorem fits_refused {name : String} {error : AppError}
    (h : Text.trim name = "" ∧ error = .badRequest "name is required" ∨
      ByName name ∧ error = spotNotFound name ∧
        ∃ index ≤ spotScanLimit + 1, Passed told marketContract name index ∧
          (index = spotScanLimit + 1 ∨
            ∀ contract, marketContract index = some contract → contract ∈ failed)) :
    SpotRequest.Fits sdk told addresses failed marketContract r
      ⟨name, .answered (.error error)⟩ where
  scanning := by
    intro index hindex
    cases hindex
  found := by
    intro spot hspot
    cases hspot
  refused := by
    intro other hother
    cases hother
    exact h

variable (sdk) in
theorem firstPhase_of_mem {name : String} (hname : ByName name)
    (hkey : nameKey name ∈ r.spotByName) :
    ∃ spot, r.spotByName.lookup (nameKey name) = some spot ∧
      firstPhase sdk name r = .answered (.ok spot) := by
  obtain ⟨spot, hspot⟩ := Dict.mem_iff_lookup.mp hkey
  refine ⟨spot, hspot, ?_⟩
  have hresolved : r.resolveSpotMarketKey sdk name = some spot := by
    unfold Registry.resolveSpotMarketKey
    dsimp only
    rw [if_neg hname.1, hname.2, if_neg Bool.false_ne_true]
    exact hspot
  unfold firstPhase
  rw [hresolved]

theorem fits_firstPhase (h : r.WellNamed sdk told addresses) (name : String) :
    SpotRequest.Fits sdk told addresses failed marketContract r ⟨name, firstPhase sdk name r⟩ := by
  by_cases hempty : Text.trim name = ""
  · have hphase : firstPhase sdk name r = .answered (.error (.badRequest "name is required")) := by
      unfold firstPhase Registry.resolveSpotMarketKey
      dsimp only
      rw [if_pos hempty]
      exact if_pos (nameKey_eq_empty.mpr hempty)
    rw [hphase]
    exact fits_refused (.inl ⟨hempty, rfl⟩)
  · by_cases haddress : spelledAsAddress name = true
    · have hphase : firstPhase sdk name r =
          .answered (.ok (normalizeSpotMarketKey sdk (Text.trim name))) := by
        unfold firstPhase Registry.resolveSpotMarketKey
        dsimp only
        rw [if_neg hempty, if_pos haddress]
      rw [hphase]
      exact fits_found (.inl ⟨haddress, rfl⟩)
    · have hname : ByName name := ⟨hempty, eq_false_of_ne_true haddress⟩
      by_cases hkey : nameKey name ∈ r.spotByName
      · obtain ⟨spot, hspot, hphase⟩ := firstPhase_of_mem sdk hname hkey
        rw [hphase]
        exact fits_found (.inr ⟨hname, h.names _ _ hspot, hkey⟩)
      · have hnone : r.spotByName.lookup (Text.toAsciiUppercase (Text.trim name)) = none :=
          AList.lookup_eq_none.mpr hkey
        have hphase : firstPhase sdk name r = .scanning 1 := by
          unfold firstPhase Registry.resolveSpotMarketKey
          dsimp only
          rw [if_neg hempty, if_neg haddress, hnone]
          exact if_neg (nameKey_eq_empty.not.mpr hempty)
        rw [hphase]
        exact fits_scanning (le_refl 1) (by decide) hname fun j hone hj => by omega

/-- What a round of the loop leaves, and what the request knows after it. -/
theorem fits_scanRound (lawful : LawfulSdk sdk) (h : r.WellNamed sdk told addresses)
    (hcontracts : ∀ index contract, marketContract index = some contract →
      normalizeSpotMarketKey sdk contract ≠ "")
    {node : String → Option String}
    (htold : ∀ contract marketName, node contract = some marketName →
      (marketName, contract) ∈ told)
    (hfailed : ∀ contract, node contract = none → contract ∈ failed) {name : String} {index : Nat}
    (hfits : SpotRequest.Fits sdk told addresses failed marketContract r ⟨name, .scanning index⟩) :
    let round := scanRound sdk marketContract node name index r
    round.1.WellNamed sdk told addresses ∧ r.KeepsNames round.1 ∧
      SpotRequest.Fits sdk told addresses failed marketContract round.1 ⟨name, round.2⟩ := by
  obtain ⟨hone, hlimit, hname, hpassed⟩ := hfits.scanning index rfl
  intro round
  dsimp only [round]
  unfold scanRound
  -- nothing is told for the index, so the loop ends
  have hends : (∀ contract, marketContract index = some contract → contract ∈ failed) →
      SpotRequest.Fits sdk told addresses failed marketContract r
        ⟨name, .answered (.error (spotNotFound name))⟩ := by
    intro huntold
    exact fits_refused (.inr ⟨hname, rfl, index, by omega, hpassed, .inr huntold⟩)
  cases hcontract : marketContract index with
  | none =>
      refine ⟨h, Registry.KeepsNames.refl r, hends fun contract hsome => ?_⟩
      rw [hcontract] at hsome
      cases hsome
  | some contract =>
      dsimp only
      cases hnode : node contract with
      | none =>
          refine ⟨h, Registry.KeepsNames.refl r, hends fun other hsome => ?_⟩
          rw [hcontract] at hsome
          cases hsome
          exact hfailed contract hnode
      | some marketName =>
          dsimp only
          have hpair := htold contract marketName hnode
          have hnormal := normalize_normalize lawful contract
          have hnames : Registry.Names sdk told addresses (nameKey marketName)
              (normalizeSpotMarketKey sdk (normalizeSpotMarketKey sdk contract)) := by
            rw [hnormal]
            exact .inl ⟨(marketName, contract), hpair, rfl, rfl⟩
          have hnamed := h.registerNamedSpotMarket marketName
            (normalizeSpotMarketKey sdk contract) "" hnames
          have hkeeps : r.KeepsNames (r.registerNamedSpotMarket sdk marketName
              (normalizeSpotMarketKey sdk contract) "") :=
            Registry.keepsNames_registerNamedSpotMarket _ _ _ r
          split_ifs with hsame hmore <;> dsimp only
          · have hkey := nameKey_of_toAsciiUppercase hsame
            refine ⟨hnamed, hkeeps, fits_found (.inr ⟨hname, .inl ?_, ?_⟩)⟩
            · exact ⟨(marketName, contract), hpair, hkey, rfl⟩
            · rw [Registry.spotByName_registerNamedSpotMarket, hkey, hnormal, if_neg]
              · exact (AList.mem_insert _).mpr (.inl rfl)
              · rw [not_or]
                exact ⟨nameKey_eq_empty.not.mpr hname.1, hcontracts index contract hcontract⟩
          · have hnext := hpassed.succ hcontract hpair hsame
            exact ⟨hnamed, hkeeps, fits_scanning (by omega) (by omega) hname hnext⟩
          · have hnext := hpassed.succ hcontract hpair hsame
            refine ⟨hnamed, hkeeps, fits_refused (.inr ⟨hname, rfl, index + 1, ?_, hnext, .inl ?_⟩)⟩
            · omega
            · omega

end Requests

/-! ## Steps -/

namespace SpotLookupStep

def scans (id : Nat) : SpotLookupStep → Bool
  | scan id' _ => id' = id
  | event _ => false
  | ask _ _ => false

/-- Names that the steps tell, with the contracts that have them: by an event that creates a
market, or by the node. -/
def toldIn (steps : List SpotLookupStep) : Set (String × String) :=
  {p | (∃ created, event (.global (.marketCreated created)) ∈ steps ∧
      p = (created.name, created.marketAddress)) ∨
    ∃ id node, scan id node ∈ steps ∧ node p.2 = some p.1}

def addressesIn (sdk : Sdk) (steps : List SpotLookupStep) : Set String :=
  {spot | ∃ e, event e ∈ steps ∧ spot ∈ e.spots sdk}

def failedIn (steps : List SpotLookupStep) : Set String :=
  {contract | ∃ id node, scan id node ∈ steps ∧ node contract = none}

end SpotLookupStep

def LookupPhase.roundsLeft : LookupPhase → Nat
  | .scanning index => spotScanLimit + 1 - index
  | .answered _ => 0

namespace SpotLookups

variable {env : Env} {marketContract : Nat → Option String} {s : SpotLookups} {id : Nat}

theorem scan_of_scanning {name : String} {index : Nat}
    (h : s.requests.lookup id = some ⟨name, .scanning index⟩) (node : String → Option String) :
    let round := scanRound env.sdk marketContract node name index s.ctx.store.registry
    s.scan env marketContract id node =
      ⟨s.ctx.setRegistry round.1, s.requests.insert id ⟨name, round.2⟩⟩ := by
  unfold scan
  rw [h]

theorem scan_of_not_scanning
    (h : ∀ name index, s.requests.lookup id ≠ some ⟨name, .scanning index⟩)
    (node : String → Option String) : s.scan env marketContract id node = s := by
  unfold scan
  split
  · next name index hscanning => exact absurd hscanning (h name index)
  · rfl

variable (env marketContract) in
structure Sound (told : Set (String × String)) (addresses failed : Set String)
    (s : SpotLookups) : Prop where
  wellNamed : s.ctx.store.registry.WellNamed env.sdk told addresses
  fits : ∀ id q, s.requests.lookup id = some q →
    q.Fits env.sdk told addresses failed marketContract s.ctx.store.registry

variable {told : Set (String × String)} {addresses failed : Set String}

theorem Sound.setRequest (h : s.Sound env marketContract told addresses failed) {c : Ctx}
    (hnamed : c.store.registry.WellNamed env.sdk told addresses)
    (hkeeps : s.ctx.store.registry.KeepsNames c.store.registry) {q : SpotRequest}
    (hq : q.Fits env.sdk told addresses failed marketContract c.store.registry) (id : Nat) :
    Sound env marketContract told addresses failed ⟨c, s.requests.insert id q⟩ := by
  refine ⟨hnamed, fun id' q' hq' => ?_⟩
  rw [Dict.lookup_insert_ite] at hq'
  split_ifs at hq'
  · cases hq'
    exact hq
  · exact (h.fits id' q' hq').mono hkeeps

theorem sound_step (lawful : LawfulSdk env.sdk)
    (hcontracts : ∀ index contract, marketContract index = some contract →
      normalizeSpotMarketKey env.sdk contract ≠ "")
    (h : s.Sound env marketContract told addresses failed) {step : SpotLookupStep}
    (hcreated : ∀ created, step = .event (.global (.marketCreated created)) →
      (created.name, created.marketAddress) ∈ told)
    (hspots : ∀ e, step = .event e → e.spots env.sdk ⊆ addresses)
    (htold : ∀ id node, step = .scan id node → ∀ contract marketName,
      node contract = some marketName → (marketName, contract) ∈ told)
    (hfailed : ∀ id node, step = .scan id node → ∀ contract,
      node contract = none → contract ∈ failed) :
    (s.step env marketContract step).Sound env marketContract told addresses failed := by
  cases step with
  | event e =>
      obtain ⟨hnamed, hkeeps⟩ := Ctx.wellNamed_apply lawful h.wellNamed (hspots e rfl)
        fun created heq => hcreated created (congrArg SpotLookupStep.event heq)
      exact ⟨hnamed, fun id q hq => (h.fits id q hq).mono hkeeps⟩
  | ask id name =>
      change (s.ask env id name).Sound env marketContract told addresses failed
      unfold ask
      split_ifs
      · exact h
      · exact h.setRequest h.wellNamed (Registry.KeepsNames.refl _)
          (fits_firstPhase h.wellNamed name) id
  | scan id node =>
      change (s.scan env marketContract id node).Sound env marketContract told addresses failed
      by_cases hscanning : ∃ name index, s.requests.lookup id = some ⟨name, .scanning index⟩
      · obtain ⟨name, index, hrequest⟩ := hscanning
        obtain ⟨hnamed, hkeeps, hfits⟩ := fits_scanRound lawful h.wellNamed hcontracts
          (htold id node rfl) (hfailed id node rfl) (h.fits id _ hrequest)
        rw [scan_of_scanning hrequest]
        exact h.setRequest hnamed hkeeps hfits id
      · rw [scan_of_not_scanning fun name index hsome => hscanning ⟨name, index, hsome⟩]
        exact h

theorem sound_run (lawful : LawfulSdk env.sdk)
    (hcontracts : ∀ index contract, marketContract index = some contract →
      normalizeSpotMarketKey env.sdk contract ≠ "")
    {c : Ctx} (hfresh : c.store.registry.spotByName = ∅) (steps : List SpotLookupStep) :
    Sound env marketContract (SpotLookupStep.toldIn steps)
      (SpotLookupStep.addressesIn env.sdk steps) (SpotLookupStep.failedIn steps)
      (steps.foldl (step env marketContract) ⟨c, ∅⟩) := by
  have hstart : Sound env marketContract (SpotLookupStep.toldIn steps)
      (SpotLookupStep.addressesIn env.sdk steps) (SpotLookupStep.failedIn steps) ⟨c, ∅⟩ := by
    refine ⟨⟨fun key spot hspot => ?_, fun key spot hspot => ?_⟩, fun id q hq => nomatch hq⟩
    · rw [hfresh] at hspot
      cases hspot
    · rw [hfresh] at hspot
      cases hspot
  refine (throughout_of_keeps ?_ (fun e (he : e ∈ steps) => he) hstart).finish
  intro s step hstep h
  refine sound_step lawful hcontracts h ?_ ?_ ?_ ?_
  · rintro created rfl
    exact .inl ⟨created, hstep, rfl⟩
  · rintro e rfl spot hspot
    exact ⟨e, hstep, hspot⟩
  · rintro id node rfl contract marketName hnode
    exact .inr ⟨id, node, hstep, hnode⟩
  · rintro id node rfl contract hnode
    exact ⟨id, node, hstep, hnode⟩

/-! ## Progress -/

theorem roundsLeft_scanRound (sdk : Sdk) (node : String → Option String) (name : String)
    (index : Nat) (r : Registry) :
    (scanRound sdk marketContract node name index r).2.roundsLeft ≤
      (LookupPhase.scanning index).roundsLeft - 1 := by
  unfold scanRound
  cases marketContract index with
  | none => exact Nat.zero_le _
  | some contract =>
      dsimp only
      cases node contract with
      | none => exact Nat.zero_le _
      | some marketName =>
          dsimp only
          split_ifs
          · exact Nat.zero_le _
          · simp only [LookupPhase.roundsLeft]
            omega
          · exact Nat.zero_le _

variable (env marketContract) in
/-- A request stays, an answer stays, and each round of its loop is one less. -/
theorem request_step (e : SpotLookupStep) {q : SpotRequest}
    (h : s.requests.lookup id = some q) :
    ∃ q', (s.step env marketContract e).requests.lookup id = some q' ∧ q'.name = q.name ∧
      q'.phase.roundsLeft ≤ q.phase.roundsLeft - if e.scans id then 1 else 0 := by
  cases e with
  | event e => exact ⟨q, h, rfl, le_refl _⟩
  | ask id' name =>
      refine ⟨q, ?_, rfl, le_refl _⟩
      change (s.ask env id' name).requests.lookup id = some q
      unfold ask
      split_ifs with hmem
      · exact h
      · have hne : id ≠ id' := by
          rintro rfl
          exact hmem (Dict.mem_iff_lookup.mpr ⟨q, h⟩)
        dsimp only
        rw [Dict.lookup_insert_ite, if_neg hne]
        exact h
  | scan id' node =>
      change ∃ q', (s.scan env marketContract id' node).requests.lookup id = some q' ∧ _ ∧ _
      by_cases hscanning : ∃ name index, s.requests.lookup id' = some ⟨name, .scanning index⟩
      · obtain ⟨name, index, hrequest⟩ := hscanning
        rw [scan_of_scanning hrequest]
        dsimp only
        rw [Dict.lookup_insert_ite]
        by_cases hid : id = id'
        · subst hid
          rw [hrequest] at h
          cases h
          rw [if_pos rfl]
          refine ⟨_, rfl, rfl, ?_⟩
          rw [SpotLookupStep.scans, decide_eq_true rfl, if_pos rfl]
          exact roundsLeft_scanRound env.sdk node name index _
        · rw [if_neg hid]
          refine ⟨q, h, rfl, ?_⟩
          rw [SpotLookupStep.scans, decide_eq_false (Ne.symm hid), if_neg Bool.false_ne_true]
          exact le_refl _
      · rw [scan_of_not_scanning fun name index hsome => hscanning ⟨name, index, hsome⟩]
        refine ⟨q, h, rfl, ?_⟩
        have hdone : q.phase.roundsLeft = 0 ∨ SpotLookupStep.scans id (.scan id' node) = false := by
          by_cases hid : id' = id
          · subst hid
            obtain ⟨name, phase⟩ := q
            cases phase with
            | scanning index => exact absurd ⟨name, index, h⟩ hscanning
            | answered answer => exact .inl rfl
          · exact .inr (decide_eq_false hid)
        rcases hdone with hdone | hother
        · omega
        · rw [hother, if_neg Bool.false_ne_true]
          exact le_refl _

variable (env marketContract) in
theorem request_run (steps : List SpotLookupStep) {q : SpotRequest}
    (h : s.requests.lookup id = some q) :
    ∃ q', (steps.foldl (step env marketContract) s).requests.lookup id = some q' ∧
      q'.name = q.name ∧
        q'.phase.roundsLeft ≤ q.phase.roundsLeft - steps.countP (SpotLookupStep.scans id) := by
  induction steps generalizing s q with
  | nil => exact ⟨q, h, rfl, le_refl _⟩
  | cons e steps ih =>
      obtain ⟨q', hq', hname, hleft⟩ := request_step env marketContract e h
      obtain ⟨q'', hq'', hname', hleft'⟩ := ih hq'
      refine ⟨q'', hq'', hname'.trans hname, ?_⟩
      rw [List.countP_cons]
      split_ifs at hleft ⊢ <;> omega

end SpotLookups

/-! ## Runs -/

section Runs

variable {env : Env} {marketContract : Nat → Option String} (lawful : LawfulSdk env.sdk)
  (hcontracts : ∀ index contract, marketContract index = some contract →
    normalizeSpotMarketKey env.sdk contract ≠ "")

include lawful hcontracts

/-- However events, requests and rounds of their loops are interleaved, a request that is
answered is answered right, and sixty-four rounds answer it. -/
theorem spotLookups_of_run (c : Ctx) (hfresh : c.store.registry.spotByName = ∅)
    (steps : List SpotLookupStep) :
    let s := steps.foldl (SpotLookups.step env marketContract) ⟨c, ∅⟩
    ∀ id q, s.requests.lookup id = some q →
      q.Fits env.sdk (SpotLookupStep.toldIn steps) (SpotLookupStep.addressesIn env.sdk steps)
          (SpotLookupStep.failedIn steps) marketContract s.ctx.store.registry ∧
        ∀ later : List SpotLookupStep,
          spotScanLimit ≤ later.countP (SpotLookupStep.scans id) → ∃ answer,
            (later.foldl (SpotLookups.step env marketContract) s).requests.lookup id =
              some ⟨q.name, .answered answer⟩ := by
  intro s id q hq
  have hfits := (SpotLookups.sound_run lawful hcontracts hfresh steps).fits id q hq
  refine ⟨hfits, fun later hcount => ?_⟩
  obtain ⟨⟨name, phase⟩, hq', hname, hleft⟩ :=
    SpotLookups.request_run env marketContract later hq
  cases hname
  have hstart : q.phase.roundsLeft ≤ spotScanLimit := by
    cases hphase : q.phase with
    | scanning index =>
        have hone := (hfits.scanning index hphase).1
        simp only [LookupPhase.roundsLeft]
        omega
    | answered answer => exact Nat.zero_le _
  cases phase with
  | answered answer => exact ⟨answer, hq'⟩
  | scanning index =>
      -- a request that still waits has a round left
      exfalso
      have hlater := (SpotLookups.sound_run lawful hcontracts hfresh (steps ++ later)).fits id
        ⟨q.name, .scanning index⟩ (by rw [List.foldl_append]; exact hq')
      have hlimit := (hlater.scanning index rfl).2.1
      simp only [LookupPhase.roundsLeft] at hleft hstart
      omega

/-- A name that was once found is found at once from then on; and where no two of the names
that are told are one for different markets, at the same address. -/
theorem foundAgain_of_run (c : Ctx) (hfresh : c.store.registry.spotByName = ∅)
    (steps : List SpotLookupStep) :
    let s := steps.foldl (SpotLookups.step env marketContract) ⟨c, ∅⟩
    ∀ id q spot, s.requests.lookup id = some q → q.phase = .answered (.ok spot) → ByName q.name →
      ∀ name other, nameKey name = nameKey q.name → other ∉ s.requests →
        ∃ spot', (s.ask env other name).requests.lookup other =
            some ⟨name, .answered (.ok spot')⟩ ∧
          ((∀ p ∈ SpotLookupStep.toldIn steps, ∀ p' ∈ SpotLookupStep.toldIn steps,
              nameKey p.1 = nameKey p'.1 →
                normalizeSpotMarketKey env.sdk p.2 = normalizeSpotMarketKey env.sdk p'.2) →
            (∀ address ∈ SpotLookupStep.addressesIn env.sdk steps,
              spelledAsAddress address = true) →
            spot' = spot) := by
  intro s id q spot hq hphase hname name other hkeys hfree
  have hsound := SpotLookups.sound_run lawful hcontracts hfresh steps
  rcases (hsound.fits id q hq).found spot hphase with ⟨haddress, -⟩ | ⟨-, hnames, hkey⟩
  · rw [hname.2] at haddress
    cases haddress
  rw [← hkeys] at hkey hnames
  obtain ⟨spot', hlookup, hfirst⟩ := firstPhase_of_mem env.sdk (hname.congr hkeys) hkey
  refine ⟨spot', ?_, fun hapart hprinted => ?_⟩
  · unfold SpotLookups.ask
    rw [if_neg hfree, hfirst]
    exact AList.lookup_insert _
  · -- an address that is registered under itself is not asked for by a name
    have htold : ∀ spot, Registry.Names env.sdk (SpotLookupStep.toldIn steps)
        (SpotLookupStep.addressesIn env.sdk steps) (nameKey name) spot →
        ∃ p ∈ SpotLookupStep.toldIn steps, nameKey p.1 = nameKey name ∧
          normalizeSpotMarketKey env.sdk p.2 = spot := by
      rintro spot (htold | ⟨haddress, hself⟩)
      · exact htold
      · have hspelled := (spelledAsAddress_congr hself).symm.trans (hprinted spot haddress)
        rw [(hname.congr hkeys).2] at hspelled
        cases hspelled
    obtain ⟨p, hp, hpKey, rfl⟩ := htold spot hnames
    obtain ⟨p', hp', hpKey', rfl⟩ := htold spot' (hsound.wellNamed.names _ _ hlookup)
    exact hapart p' hp' p hp (hpKey'.trans hpKey.symm)

end Runs

namespace Sample

def spotContract (index : Nat) : Option String :=
  if index = 1 then some market else if index = 2 then some otherMarket else none

def spotNode (contract : String) : Option String :=
  if contract = market then some "BTC" else if contract = otherMarket then some "Sol" else none

def solSteps : List SpotLookupStep := [.ask 0 " sol", .scan 0 spotNode, .scan 0 spotNode]

def solLookups : SpotLookups :=
  solSteps.foldl (SpotLookups.step setting spotContract) ⟨{ store := {} }, ∅⟩

theorem solLookups_request :
    solLookups.requests.lookup 0 = some ⟨" sol", .answered (.ok otherMarket)⟩ := by
  decide +kernel

theorem spotContract_normal (index : Nat) (contract : String)
    (h : spotContract index = some contract) :
    normalizeSpotMarketKey setting.sdk contract ≠ "" := by
  unfold spotContract at h
  split_ifs at h
  · cases h
    rw [show normalizeSpotMarketKey setting.sdk market = market from normalize_market]
    decide
  · cases h
    rw [show normalizeSpotMarketKey setting.sdk otherMarket = otherMarket from
      normalize_otherMarket]
    decide

theorem spotLookups_sol :
    solLookups.requests.lookup 0 = some ⟨" sol", .answered (.ok otherMarket)⟩ ∧
      SpotRequest.Fits setting.sdk (SpotLookupStep.toldIn solSteps)
        (SpotLookupStep.addressesIn setting.sdk solSteps) (SpotLookupStep.failedIn solSteps)
        spotContract solLookups.ctx.store.registry ⟨" sol", .answered (.ok otherMarket)⟩ := by
  have hrun := spotLookups_of_run lawful spotContract_normal { store := {} } rfl solSteps 0 _
    solLookups_request
  exact ⟨solLookups_request, hrun.1⟩

/-- Asked for again, in any case, the market is there at once. -/
theorem foundAgain_sol :
    (solLookups.ask setting 1 "SOL").requests.lookup 1 =
      some ⟨"SOL", .answered (.ok otherMarket)⟩ := by
  obtain ⟨spot', hasked, hsame⟩ := foundAgain_of_run lawful spotContract_normal { store := {} }
    rfl solSteps 0 _ otherMarket solLookups_request rfl ⟨by decide +kernel, by decide +kernel⟩
    "SOL" 1 (by decide +kernel) (by decide +kernel)
  have htold : ∀ p ∈ SpotLookupStep.toldIn solSteps,
      p = ("BTC", market) ∨ p = ("Sol", otherMarket) := by
    rintro ⟨name, contract⟩ (⟨created, hmem, -⟩ | ⟨id, node, hmem, hnode⟩)
    · simp [solSteps] at hmem
    · have heq : node = spotNode := by
        simp only [solSteps, List.mem_cons, SpotLookupStep.scan.injEq, reduceCtorEq,
          List.not_mem_nil, or_false, false_or] at hmem
        rcases hmem with h | h
        · exact h.2
        · exact h.2
      subst heq
      unfold spotNode at hnode
      dsimp only at hnode
      split_ifs at hnode with hfirst hsecond
      · cases hnode
        exact .inl (by rw [hfirst])
      · cases hnode
        exact .inr (by rw [hsecond])
  have hapart : nameKey "BTC" ≠ nameKey "Sol" := by decide +kernel
  refine hasked.trans ?_
  rw [hsame]
  · intro p hp p' hp' hkeys
    rcases htold p hp with rfl | rfl
    · rcases htold p' hp' with rfl | rfl
      · rfl
      · exact absurd hkeys hapart
    · rcases htold p' hp' with rfl | rfl
      · exact absurd hkeys.symm hapart
      · rfl
  · rintro address ⟨e, hmem, -⟩
    simp [solSteps] at hmem

end Sample

end ClobIndexer
