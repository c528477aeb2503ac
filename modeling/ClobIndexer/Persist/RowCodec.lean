import ClobIndexer.Domain
import ClobIndexer.Lib.Bcs
/-!
# Encoded rows of orders and markets

The values of the `orders` and `markets` tables are written with BCS through the
`serde` attributes of `src/domain`.  A field with `skip_serializing_if` puts no
bytes when it is skipped, yet its place is read; an enum with an internal tag is
written as a record, yet read by what is found.
-/

namespace ClobIndexer

open Lib

def uuidCodec : Codec Uuid where
  encode u := Codec.bytes.encode u.bytes
  decode input := do
    let (content, rest) ← Codec.bytes.decode input
    if h : content.length = 16 then some (⟨content, h⟩, rest) else none
  decode_encode := by
    intro u encoded rest h
    rw [Codec.bytes.decode_encode _ _ rest h]
    exact dif_pos u.size_eq

/-- `skip_serializing_if = "Option::is_none"`. -/
def skipNone {α : Type} (c : Codec α) : Option α → Option Bytes
  | none => some []
  | some a => c.option.encode (some a)

/-! ## Orders -/

def orderFields : Codec (Uuid × Uuid × String × String × String × String × String × String ×
    String) :=
  uuidCodec.pair (uuidCodec.pair (Codec.string.pair (Codec.string.pair (Codec.string.pair
    (Codec.string.pair (Codec.string.pair (Codec.string.pair Codec.string)))))))

def encodeOrder (o : Order) : Option Bytes := do
  let fields ← orderFields.encode
    (o.id, o.marketId, o.marketSlug, o.question, o.outcome, o.side, o.price, o.size, o.status)
  let cloid ← skipNone Codec.string o.cloid
  return fields ++ cloid

def decodeOrder (input : Bytes) : Option (Order × Bytes) := do
  let ((id, marketId, marketSlug, question, outcome, side, price, size, status), rest) ←
    orderFields.decode input
  let (cloid, rest) ← Codec.string.option.decode rest
  return (⟨id, marketId, marketSlug, question, outcome, side, price, size, status, cloid⟩, rest)

def rowFields : Codec (String × String × String × String × Int64 × Int64 × String) :=
  Codec.string.pair (Codec.string.pair (Codec.string.pair (Codec.string.pair (Codec.int64.pair
    (Codec.int64.pair Codec.string)))))

def encodeOrderRow (row : OrderRow) : Option Bytes := do
  let fields ← rowFields.encode
    (row.id, row.userAddress, row.chainOrderId, row.spotMarket, row.sizeRaw, row.filledRaw,
      row.status)
  let order ← encodeOrder row.order
  return fields ++ order

def readOrderRow (input : Bytes) : Option (OrderRow × Bytes) := do
  let ((id, userAddress, chainOrderId, spotMarket, sizeRaw, filledRaw, status), rest) ←
    rowFields.decode input
  let (order, rest) ← decodeOrder rest
  return (⟨id, userAddress, chainOrderId, spotMarket, sizeRaw, filledRaw, status, order⟩, rest)

def decodeOrderRow : Bytes → Option OrderRow := Bcs.fromBytes readOrderRow

/-- An order without `cloid` ends where the tag of `cloid` is read. -/
theorem decodeOrder_encodeOrder {o : Order} {bytes : Bytes} (h : encodeOrder o = some bytes) :
    decodeOrder bytes = if o.cloid.isSome then some (o, []) else none := by
  unfold encodeOrder at h
  simp only [Option.bind_eq_bind, Option.bind_eq_some_iff, Option.pure_def, Option.some.injEq] at h
  obtain ⟨fields, hfields, cloid, hcloid, rfl⟩ := h
  unfold decodeOrder
  rw [orderFields.decode_encode _ _ cloid hfields]
  dsimp only [Option.bind_eq_bind, Option.bind_some]
  cases hc : o.cloid with
  | none =>
      rw [hc] at hcloid
      cases hcloid
      rfl
  | some text =>
      rw [hc] at hcloid
      have hdecode := Codec.string.option.decode_encode (some text) cloid [] hcloid
      rw [List.append_nil] at hdecode
      have hsome : o.cloid.isSome = true := by
        rw [hc]
        rfl
      rw [hdecode, ← hc, if_pos hsome]
      rfl

/-- A stored row decodes to itself when its order has a `cloid`, and not at all
otherwise. -/
theorem decodeOrderRow_encodeOrderRow {row : OrderRow} {bytes : Bytes}
    (h : encodeOrderRow row = some bytes) :
    decodeOrderRow bytes = if row.order.cloid.isSome then some row else none := by
  unfold encodeOrderRow at h
  simp only [Option.bind_eq_bind, Option.bind_eq_some_iff, Option.pure_def, Option.some.injEq] at h
  obtain ⟨fields, hfields, order, horder, rfl⟩ := h
  unfold decodeOrderRow Bcs.fromBytes readOrderRow
  rw [rowFields.decode_encode _ _ order hfields]
  dsimp only [Option.bind_eq_bind, Option.bind_some]
  rw [decodeOrder_encodeOrder horder]
  split_ifs <;> rfl

/-! ## Markets -/

def encodeMarket : Market → Option Bytes
  | .spot m => Bcs.concat
      [Codec.string.encode "spot", uuidCodec.encode m.id, Codec.string.encode m.name,
        skipNone Codec.string m.iconUrl, Codec.string.encode m.marketAddress,
        Codec.string.encode m.state, Codec.string.encode m.deployer,
        Codec.string.encode m.baseToken, Codec.string.encode m.quoteToken]
  | .event m => Bcs.concat
      [Codec.string.encode "event", uuidCodec.encode m.id, Codec.string.encode m.slug,
        Codec.string.encode m.question, skipNone Codec.string m.iconUrl,
        Codec.string.encode m.marketAddress, Codec.string.encode m.collateralToken,
        Codec.string.encode m.yesToken, Codec.string.encode m.noToken,
        Codec.string.encode m.yesSpotMarket, Codec.string.encode m.noSpotMarket,
        Codec.string.encode m.state, Codec.uint64.encode m.resolutionDeadline,
        Codec.string.encode m.deployer]
  | .perp m => Bcs.concat
      [Codec.string.encode "perp", uuidCodec.encode m.id, Codec.string.encode m.name,
        skipNone Codec.string m.iconUrl, Codec.string.encode m.marketAddress,
        Codec.string.encode m.state, Codec.string.encode m.deployer,
        Codec.string.encode m.underlying]

/-- An internal tag is looked for in whatever the input describes. -/
def decodeMarket : Bytes → Option Market := Bcs.fromBytes Bcs.deserializeAny

end ClobIndexer
