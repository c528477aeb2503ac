import ClobIndexer.Lib.Dict
/-!
# Oracle and paper events

The payloads of the events that feed the oracle marks and the paper market, after
decoding, with the fields that the indexer reads.  Addresses are the strings that
their `to_string` prints.
-/

namespace ClobIndexer

structure PaperHouseAfter where
  freeCash : UInt64 := 0
  sideBucket : UInt64 := 0
  trackedLp : Int := 0
  tailHwm : UInt64 := 0
  totalQueued : UInt64 := 0
  queueHead : UInt64 := 0
  queueTail : UInt64 := 0
  stakerFeeAcc : UInt64 := 0
  devFeeAcc : UInt64 := 0
  buybackCash : UInt64 := 0
deriving DecidableEq

structure OracleCommittedEvent where
  round : UInt64
  oraclePrice : UInt64
  markPrice : UInt64
deriving DecidableEq

structure PaperOpenedEvent where
  market : String
  position : UInt64
  owner : String
  instrument : UInt32
  isLong : Bool
  margin : UInt64
  notional : UInt64
  entryPrice : UInt64
  bustPrice : UInt64
  fundedFromQueued : Bool
  house : PaperHouseAfter
deriving DecidableEq

structure PaperClosedEvent where
  market : String
  position : UInt64
  owner : String
  exitPrice : UInt64
  fee : UInt64
  payout : UInt64
  queued : UInt64
  minted : UInt64
  pnl : Int64
  house : PaperHouseAfter
deriving DecidableEq

structure PaperLiquidatedEvent where
  market : String
  position : UInt64
  owner : String
  liquidator : String
  exitPrice : UInt64
  margin : UInt64
  minted : UInt64
  house : PaperHouseAfter
deriving DecidableEq

inductive SecondaryEvent where
  /-- with the contract that the event carries -/
  | oracleCommitted (contract : Option String) (e : OracleCommittedEvent)
  | paperInstrumentAdded (market : String) (instrument : UInt32) (name priceMarket : String)
  | paperOpened (e : PaperOpenedEvent)
  | paperClosed (e : PaperClosedEvent)
  | paperLiquidated (e : PaperLiquidatedEvent)
  | paperQueued (market : String) (index : UInt64) (user : String) (amount : UInt64)
      (house : PaperHouseAfter)
  | paperHarvested (market : String) (index : UInt64) (house : PaperHouseAfter)
  | paperFeesPushed (market : String) (stakerFee sweptStakers : UInt64) (house : PaperHouseAfter)
  | paperClaimed (market user : String) (reward : UInt64)
  | paperStaked (market user : String) (amount : UInt64)
  | paperUnstaked (market user : String) (amount : UInt64)
deriving DecidableEq

end ClobIndexer
