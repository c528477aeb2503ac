import ClobIndexer.Indexer.State
/-!
# Hexadecimal addresses

A concrete SDK whose contract and account addresses are twenty bytes, printed as
`0x` and forty lower-case digits and read back in either case.  It is lawful for
any choice of account and UUID derivation, so statements about lawful SDKs are
about something.  `Sample` completes it to an environment with a few addresses and
the name-based UUIDs of the names that occur with them.
-/

namespace ClobIndexer

open Lib

def addressLength : Nat := 20

def hexValue (c : Char) : Option Nat :=
  let n := c.toNat
  if 48 ≤ n ∧ n ≤ 57 then some (n - 48)
  else if 97 ≤ n ∧ n ≤ 102 then some (n - 87)
  else if 65 ≤ n ∧ n ≤ 70 then some (n - 55)
  else none

def parseHexBytes : List Char → Option (List UInt8)
  | [] => some []
  | [_] => none
  | a :: b :: rest =>
      match hexValue a, hexValue b, parseHexBytes rest with
      | some high, some low, some bytes => some (UInt8.ofNat (16 * high + low) :: bytes)
      | _, _, _ => none

def parseAddress (s : String) : Option (List UInt8) :=
  match s.toList with
  | '0' :: 'x' :: digits =>
      if digits.length = 2 * addressLength then parseHexBytes digits else none
  | _ => none

def printAddress (bytes : List UInt8) : String :=
  String.ofList ('0' :: 'x' :: Uuid.hexDigits bytes)

def hexSdk (vaultAccount : String → String) (uuidV5 : String → Uuid) : Sdk where
  contractAddressLength := addressLength
  parseTokenContract := parseAddress
  addressFromStr := parseAddress
  contractToString := printAddress
  vaultAccount := vaultAccount
  uuidV5 := uuidV5

private theorem hexValue_hexDigit : ∀ n : Fin 16, hexValue (Uuid.hexDigit n) = some n.val := by
  decide

private theorem hexDigit_notWhitespace :
    ∀ n : Fin 16, Text.isWhitespace (Uuid.hexDigit n) = false := by
  decide

private theorem hexDigits_cons (b : UInt8) (bytes : List UInt8) :
    Uuid.hexDigits (b :: bytes) =
      Uuid.hexDigit (b.toNat / 16) :: Uuid.hexDigit (b.toNat % 16) :: Uuid.hexDigits bytes := rfl

theorem parseHexBytes_hexDigits (bytes : List UInt8) :
    parseHexBytes (Uuid.hexDigits bytes) = some bytes := by
  induction bytes with
  | nil => rfl
  | cons b bytes ih =>
      have hn := Uuid.nibbles b
      have hhigh := hexValue_hexDigit ⟨_, hn.1⟩
      have hlow := hexValue_hexDigit ⟨_, hn.2⟩
      have hbyte : 16 * (b.toNat / 16) + b.toNat % 16 = b.toNat := by omega
      dsimp only at hhigh hlow
      rw [hexDigits_cons]
      simp only [parseHexBytes, hhigh, hlow, ih, hbyte, UInt8.ofNat_toNat]

private theorem length_hexDigits (bytes : List UInt8) :
    (Uuid.hexDigits bytes).length = 2 * bytes.length := by
  induction bytes with
  | nil => rfl
  | cons b bytes ih =>
      rw [hexDigits_cons, List.length_cons, List.length_cons, List.length_cons, ih]
      omega

private theorem length_parseHexBytes : ∀ (digits : List Char) (bytes : List UInt8),
    parseHexBytes digits = some bytes → digits.length = 2 * bytes.length
  | [], bytes, h => by
      cases h
      rfl
  | [_], bytes, h => by simp [parseHexBytes] at h
  | a :: b :: rest, bytes, h => by
      rw [parseHexBytes] at h
      split at h
      · rename_i high low tail _ _ htail
        cases h
        have hrest := length_parseHexBytes rest tail htail
        simp only [List.length_cons]
        omega
      · cases h

private theorem hexDigits_notWhitespace (bytes : List UInt8) :
    ∀ c ∈ Uuid.hexDigits bytes, Text.isWhitespace c = false := by
  induction bytes with
  | nil =>
      intro c hc
      cases hc
  | cons b bytes ih =>
      have hn := Uuid.nibbles b
      intro c hc
      rw [hexDigits_cons, List.mem_cons, List.mem_cons] at hc
      rcases hc with rfl | rfl | hc
      · exact hexDigit_notWhitespace ⟨_, hn.1⟩
      · exact hexDigit_notWhitespace ⟨_, hn.2⟩
      · exact ih c hc

theorem printAddress_chars (bytes : List UInt8) :
    ∀ c ∈ (printAddress bytes).toList, c ≠ ':' ∧ c.toUpper.toLower = c := by
  have hdigit : ∀ n : Fin 16, Uuid.hexDigit n ≠ ':' ∧
      (Uuid.hexDigit n).toUpper.toLower = Uuid.hexDigit n := by decide
  have hdigits : ∀ c ∈ Uuid.hexDigits bytes, c ≠ ':' ∧ c.toUpper.toLower = c := by
    induction bytes with
    | nil =>
        intro c hc
        cases hc
    | cons b bytes ih =>
        have hn := Uuid.nibbles b
        intro c hc
        rw [hexDigits_cons, List.mem_cons, List.mem_cons] at hc
        rcases hc with rfl | rfl | hc
        · exact hdigit ⟨_, hn.1⟩
        · exact hdigit ⟨_, hn.2⟩
        · exact ih c hc
  intro c hc
  unfold printAddress at hc
  rw [String.toList_ofList, List.mem_cons, List.mem_cons] at hc
  rcases hc with rfl | rfl | hc
  · decide
  · decide
  · exact hdigits c hc

theorem lawful_hexSdk (vaultAccount : String → String) (uuidV5 : String → Uuid) :
    LawfulSdk (hexSdk vaultAccount uuidV5) := by
  have hlength : ∀ s bytes, parseAddress s = some bytes → bytes.length = addressLength := by
    intro s bytes h
    unfold parseAddress at h
    split at h
    · split_ifs at h with hlen
      have hbytes := length_parseHexBytes _ _ h
      omega
    · cases h
  refine ⟨hlength, ?_, ?_, ?_⟩
  · intro s bytes h
    exact (hlength s bytes h).ge
  · intro bytes hbytes
    change parseAddress (printAddress bytes) = some bytes
    have hlen : (Uuid.hexDigits bytes).length = 2 * addressLength := by
      rw [length_hexDigits, hbytes]
      rfl
    unfold parseAddress printAddress
    rw [String.toList_ofList]
    exact (if_pos hlen).trans (parseHexBytes_hexDigits bytes)
  · intro bytes
    apply Text.trim_ofList
    intro c hc
    rw [List.mem_cons, List.mem_cons] at hc
    rcases hc with rfl | rfl | hc
    · rfl
    · rfl
    · exact hexDigits_notWhitespace bytes c hc

namespace Sample

def market : String := "0x00000000000000000000000000000000000000a1"

def otherMarket : String := "0x00000000000000000000000000000000000000a2"

def eventContract : String := "0x00000000000000000000000000000000000000e1"

def vault : String := "0x00000000000000000000000000000000000000b1"

def otherContract : String := "0x00000000000000000000000000000000000000e2"

def laterContract : String := "0x00000000000000000000000000000000000000e3"

def otherVault : String := "0x00000000000000000000000000000000000000b2"

def laterVault : String := "0x00000000000000000000000000000000000000b0"

def account : String := "0x00000000000000000000000000000000000000c1"

/-- The version 5 UUIDs of the sample names in the OID namespace. -/
def uuidV5 (name : String) : Uuid :=
  if name = market then
    ⟨[147, 95, 76, 166, 227, 74, 89, 26, 156, 32, 80, 110, 101, 195, 22, 10], rfl⟩
  else if name = otherMarket then
    ⟨[125, 170, 106, 16, 146, 106, 92, 87, 129, 192, 230, 158, 113, 17, 9, 148], rfl⟩
  else if name = eventContract then
    ⟨[246, 22, 165, 245, 180, 141, 82, 125, 188, 222, 216, 48, 149, 164, 129, 123], rfl⟩
  else if name = "vault:" ++ vault then
    ⟨[209, 101, 222, 202, 12, 132, 91, 193, 181, 81, 230, 136, 9, 34, 120, 242], rfl⟩
  else if name = market ++ ":1" then
    ⟨[188, 208, 49, 146, 119, 143, 81, 146, 162, 21, 105, 228, 251, 251, 16, 201], rfl⟩
  else if name = market ++ ":2" then
    ⟨[136, 43, 179, 102, 38, 14, 88, 5, 188, 222, 76, 130, 224, 202, 21, 180], rfl⟩
  else if name = market ++ ":3" then
    ⟨[183, 179, 73, 171, 102, 67, 91, 3, 186, 11, 196, 44, 169, 98, 135, 145], rfl⟩
  else if name = otherContract then
    ⟨[68, 75, 100, 53, 202, 111, 93, 180, 129, 26, 221, 39, 31, 63, 194, 236], rfl⟩
  else if name = laterContract then
    ⟨[210, 175, 162, 200, 224, 152, 94, 62, 165, 38, 82, 159, 141, 34, 7, 17], rfl⟩
  else if name = "vault:" ++ otherVault then
    ⟨[49, 34, 16, 184, 64, 31, 86, 10, 147, 227, 199, 171, 58, 21, 11, 90], rfl⟩
  else if name = "vault:" ++ laterVault then
    ⟨[208, 228, 23, 2, 214, 206, 90, 92, 152, 71, 19, 28, 164, 139, 80, 49], rfl⟩
  else Uuid.nil

def sdk : Sdk := hexSdk (fun _ => account) uuidV5

def chain : ChainClient := ⟨fun _ _ _ => some ⟨[], []⟩, fun _ _ => some none⟩

def setting : Env := ⟨sdk, chain, 0⟩

theorem lawful : LawfulSdk setting.sdk := lawful_hexSdk _ _

theorem normalize_market : normalizeSpotMarketKey sdk market = market := by decide +kernel

theorem normalize_otherMarket : normalizeSpotMarketKey sdk otherMarket = otherMarket := by
  decide +kernel

end Sample

end ClobIndexer
