import ClobIndexer.Lib.Dict
/-!
# Records of the index

The domain types of `src/domain` and the rows of the index-state tables.
Prices and amounts are raw `u64` words; human-readable amounts and statuses are
the strings the source stores.
-/

namespace ClobIndexer

structure Uuid where
  bytes : List UInt8
  size_eq : bytes.length = 16
deriving DecidableEq

namespace Uuid

def nil : Uuid := ⟨List.replicate 16 0, rfl⟩

def hexDigit (n : Nat) : Char := if n < 10 then Char.ofNat (48 + n) else Char.ofNat (87 + n)

def hexByte (b : UInt8) : List Char := [hexDigit (b.toNat / 16), hexDigit (b.toNat % 16)]

def hexDigits (bytes : List UInt8) : List Char := bytes.flatMap hexByte

/-- The hyphenated lower-case form that `Uuid::to_string` prints. -/
def toString (u : Uuid) : String :=
  let h := hexDigits u.bytes
  String.ofList (h.take 8 ++ '-' :: ((h.drop 8).take 4 ++ '-' :: ((h.drop 12).take 4 ++
    '-' :: ((h.drop 16).take 4 ++ '-' :: h.drop 20))))

private theorem hexDigit_injective : ∀ m n : Fin 16, hexDigit m = hexDigit n → m = n := by
  decide

private theorem hexDigit_ne_hyphen : ∀ n : Fin 16, hexDigit n ≠ '-' := by decide

theorem nibbles (b : UInt8) : b.toNat / 16 < 16 ∧ b.toNat % 16 < 16 := by
  have h := b.toNat_lt
  omega

private theorem hexByte_injective {a b : UInt8} (h : hexByte a = hexByte b) : a = b := by
  have ha := nibbles a
  have hb := nibbles b
  simp only [hexByte, List.cons.injEq, and_true] at h
  have hhigh := hexDigit_injective ⟨_, ha.1⟩ ⟨_, hb.1⟩ h.1
  have hlow := hexDigit_injective ⟨_, ha.2⟩ ⟨_, hb.2⟩ h.2
  rw [Fin.mk.injEq] at hhigh hlow
  apply UInt8.toNat_inj.mp
  omega

private theorem hexDigits_injective {a b : List UInt8} (h : hexDigits a = hexDigits b) :
    a = b := by
  induction a generalizing b with
  | nil =>
      cases b with
      | nil => rfl
      | cons y b => simp [hexDigits, hexByte] at h
  | cons x a ih =>
      cases b with
      | nil => simp [hexDigits, hexByte] at h
      | cons y b =>
          simp only [hexDigits, List.flatMap_cons] at h
          obtain ⟨hhead, htail⟩ := List.append_inj h rfl
          rw [hexByte_injective hhead, ih htail]

private theorem hexDigits_noHyphen (bytes : List UInt8) :
    ∀ c ∈ hexDigits bytes, (c != '-') = true := by
  intro c hc
  obtain ⟨b, _, hb⟩ := List.mem_flatMap.mp hc
  have hn := nibbles b
  simp only [hexByte, List.mem_cons, List.not_mem_nil, or_false] at hb
  rw [bne_iff_ne]
  rcases hb with rfl | rfl
  · exact hexDigit_ne_hyphen ⟨_, hn.1⟩
  · exact hexDigit_ne_hyphen ⟨_, hn.2⟩

theorem filter_toString (u : Uuid) :
    u.toString.toList.filter (· != '-') = hexDigits u.bytes := by
  have hh : (hexDigits u.bytes).filter (· != '-') = hexDigits u.bytes :=
    List.filter_eq_self.mpr (hexDigits_noHyphen u.bytes)
  have hskip : ∀ l : List Char, ('-' :: l).filter (· != '-') = l.filter (· != '-') :=
    fun l => rfl
  unfold toString
  generalize hexDigits u.bytes = h at hh ⊢
  simp only [String.toList_ofList, List.filter_append, hskip]
  simp only [← List.filter_append]
  calc
    _ = h.filter (· != '-') := by
      congr 1
      have h12 : h.drop 12 = (h.drop 8).drop 4 := by rw [List.drop_drop]
      have h16 : h.drop 16 = (h.drop 12).drop 4 := by rw [List.drop_drop]
      have h20 : h.drop 20 = (h.drop 16).drop 4 := by rw [List.drop_drop]
      rw [h20, List.take_append_drop, h16, List.take_append_drop, h12,
        List.take_append_drop, List.take_append_drop]
    _ = h := hh

theorem toString_injective : Function.Injective toString := by
  intro u v h
  have hdigits : hexDigits u.bytes = hexDigits v.bytes := by
    rw [← filter_toString u, ← filter_toString v, h]
  cases u
  cases v
  cases hexDigits_injective hdigits
  rfl

end Uuid

/-! ## Orders -/

structure Order where
  id : Uuid
  marketId : Uuid
  marketSlug : String
  question : String
  outcome : String
  side : String
  price : String
  size : String
  status : String
  cloid : Option String
deriving DecidableEq

structure StoredOrder where
  order : Order
  userAddress : String
  chainOrderId : String
  spotMarket : String
  filledRaw : UInt64
  sizeRaw : UInt64
deriving DecidableEq

structure PersistOrderRow where
  order : Order
  userAddress : String
  chainOrderId : String
  spotMarket : String
  sizeRaw : UInt64
  filledRaw : UInt64
  statusTsMs : UInt64
deriving DecidableEq

structure OrderRow where
  id : String
  userAddress : String
  chainOrderId : String
  spotMarket : String
  sizeRaw : Int64
  filledRaw : Int64
  status : String
  order : Order
deriving DecidableEq

/-! ## Markets -/

inductive MarketCategory where
  | spot
  | event
  | perp
deriving DecidableEq

structure SpotMarket where
  id : Uuid
  name : String
  iconUrl : Option String
  marketAddress : String
  state : String
  deployer : String
  baseToken : String
  quoteToken : String
deriving DecidableEq

structure EventMarket where
  id : Uuid
  slug : String
  question : String
  iconUrl : Option String
  marketAddress : String
  collateralToken : String
  yesToken : String
  noToken : String
  yesSpotMarket : String
  noSpotMarket : String
  state : String
  resolutionDeadline : UInt64
  deployer : String
deriving DecidableEq

structure PerpMarket where
  id : Uuid
  name : String
  iconUrl : Option String
  marketAddress : String
  state : String
  deployer : String
  underlying : String
deriving DecidableEq

inductive Market where
  | spot (m : SpotMarket)
  | event (m : EventMarket)
  | perp (m : PerpMarket)
deriving DecidableEq

namespace Market

def category : Market → MarketCategory
  | spot _ => .spot
  | event _ => .event
  | perp _ => .perp

def id : Market → Uuid
  | spot m => m.id
  | event m => m.id
  | perp m => m.id

/-- Spot or perp market name; empty for an event. -/
def name : Market → String
  | spot m => m.name
  | event _ => ""
  | perp m => m.name

/-- Event slug; empty for spot and perp. -/
def slug : Market → String
  | event m => m.slug
  | _ => ""

def label : Market → String
  | spot m => m.name
  | event m => m.question
  | perp m => m.name

def iconUrl : Market → Option String
  | spot m => m.iconUrl
  | event m => m.iconUrl
  | perp m => m.iconUrl

def marketAddress : Market → String
  | spot m => m.marketAddress
  | event m => m.marketAddress
  | perp m => m.marketAddress

def yesSpotMarket : Market → String
  | spot m => m.marketAddress
  | event m => m.yesSpotMarket
  | perp m => m.marketAddress

def noSpotMarket : Market → String
  | spot m => m.marketAddress
  | event m => m.noSpotMarket
  | perp m => m.marketAddress

def setState (state : String) : Market → Market
  | spot m => spot { m with state }
  | event m => event { m with state }
  | perp m => perp { m with state }

@[simp] theorem id_setState (state : String) (m : Market) : (m.setState state).id = m.id := by
  cases m <;> rfl

end Market

/-! ## Vaults and books -/

structure VaultAsset where
  market : String
  amount : String
  lastPrice : Option String
  quoteValue : Option String
deriving DecidableEq

structure Vault where
  id : Uuid
  name : String
  vaultAddress : String
  vaultAccount : String
  manager : String
  quoteToken : String
  shareToken : String
  equity : String
  userDeposit : String
  portfolio : List VaultAsset
  allowDeposit : Bool
  isClosed : Bool
deriving DecidableEq

structure BookMetaRow where
  sequence : Int64
  lastTradePrice : Option Int64
deriving DecidableEq

end ClobIndexer
