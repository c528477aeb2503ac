import ClobIndexer.PaperEvents
import ClobIndexer.Sdk
/-!
# Chain events and blocks

The payloads the SDK emits, after `bincode` decoding.  The action name of a
transaction event selects the payload type; an event that is no call, carries no
bytes, has another action name or does not decode is `ignored`.  Addresses and
order ids are the strings their `to_string` prints, a block digest is its hex
form.
-/

namespace ClobIndexer

inductive OrderSide where
  | buy
  | sell
deriving DecidableEq

namespace OrderSide

def str : OrderSide → String
  | buy => "buy"
  | sell => "sell"

theorem str_injective : Function.Injective str := by
  intro a b h
  cases a <;> cases b <;> simp_all [str]

end OrderSide

inductive OrderEventType where
  | limit (price : UInt64)
  | market
  | trigger (limitPrice : UInt64)
deriving DecidableEq

structure OrderCreatedEvent where
  orderId : String
  side : OrderSide
  amount : UInt64
  creator : String
  market : String
  orderType : OrderEventType
  cloid : Option String
deriving DecidableEq

structure OrderCancelledEvent where
  orderId : String
  side : OrderSide
  price : UInt64
  cancelledAmount : UInt64
deriving DecidableEq

structure OrderUpdatedEvent where
  orderId : String
  side : OrderSide
  price : UInt64
  oldAmount : UInt64
  newAmount : UInt64
  remainingAmount : UInt64
deriving DecidableEq

structure OrderFilledEvent where
  orderId : String
  market : String
  side : OrderSide
  price : UInt64
  fillAmount : UInt64
  remainingAmount : UInt64
  isFullyFilled : Bool
  cloid : Option String
deriving DecidableEq

structure MarketOrderExecutedEvent where
  orderId : String
  side : OrderSide
  amount : UInt64
  filledAmount : UInt64
  avgFilledPrice : Option UInt64
  creator : String
deriving DecidableEq

inductive MarketOrderEvent where
  | created (e : OrderCreatedEvent)
  | cancelled (e : OrderCancelledEvent)
  | updated (e : OrderUpdatedEvent)
  | filled (e : OrderFilledEvent) (txSender : String)
  | executed (e : MarketOrderExecutedEvent)
deriving DecidableEq

def MarketOrderEvent.chainOrderId : MarketOrderEvent → String
  | .created e => e.orderId
  | .cancelled e => e.orderId
  | .updated e => e.orderId
  | .filled e _ => e.orderId
  | .executed e => e.orderId

inductive UnmappedOrderEvent where
  | cancelled (chainOrderId : String)
  | updated (chainOrderId : String)
deriving DecidableEq

structure MarketCreatedEvent where
  marketAddress : String
  name : String
  creator : String
deriving DecidableEq

structure EventContractCreatedEvent where
  marketAddress : String
  question : String
  collateralToken : String
  yesToken : String
  noToken : String
  yesSpotMarket : String
  noSpotMarket : String
  state : String
  resolutionDeadline : UInt64
  creator : String
deriving DecidableEq

structure VaultCreatedEvent where
  vault : String
  name : String
  manager : String
  quoteToken : String
  shareToken : String
deriving DecidableEq

/-- Events handled serially before the per-market work.  The `secondary` ones feed
state that no index-state table holds. -/
inductive GlobalEvent where
  | eventContractCreated (e : EventContractCreatedEvent)
  | eventContractResolved (marketAddress : String)
  | vaultCreated (e : VaultCreatedEvent)
  | vaultDeposited (vault : String) (equity : UInt64)
  | vaultWithdrawn (vault : String) (equity : UInt64)
  | vaultManagerUpdated (vault newManager : String)
  | vaultDepositPermissionUpdated (vault : String) (allowDeposit : Bool)
  | vaultClosed (vault : String)
  | marketCreated (e : MarketCreatedEvent)
  | secondary (e : SecondaryEvent)
deriving DecidableEq

inductive OrderEvent where
  | created (e : OrderCreatedEvent)
  | cancelled (e : OrderCancelledEvent)
  | updated (e : OrderUpdatedEvent)
  | filled (e : OrderFilledEvent)
  | executed (e : MarketOrderExecutedEvent)
deriving DecidableEq

inductive EventPayload where
  | order (e : OrderEvent)
  | global (e : GlobalEvent)
  | ignored
deriving DecidableEq

structure TransactionEvent where
  payload : EventPayload
  contract : Option String
deriving DecidableEq

structure TransactionResult where
  success : Bool
  sender : String
  events : List TransactionEvent
deriving DecidableEq

structure ReceiptBlock where
  blockNum : UInt64
  digest : String
  timestamp : UInt64
  transactionOutputs : List TransactionResult
deriving DecidableEq

namespace ReceiptBlock

def okEvents (b : ReceiptBlock) : List (String × TransactionEvent) :=
  (b.transactionOutputs.filter (·.success)).flatMap fun tx =>
    tx.events.map fun e => (tx.sender, e)

/-- The non-order events that the serial stage applies, in order. -/
def globalEvents (b : ReceiptBlock) : List GlobalEvent :=
  b.okEvents.filterMap fun e =>
    match e.2.payload with
    | .global g => some g
    | _ => none

end ReceiptBlock

structure PreparedBlock where
  blockNum : UInt64
  blockDigest : String
  txCount : Nat
  block : ReceiptBlock
  markets : Lib.Dict String (List MarketOrderEvent)
  unmapped : List UnmappedOrderEvent
deriving DecidableEq

end ClobIndexer
