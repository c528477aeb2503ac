import ClobIndexer.Lib.Dict
import ClobIndexer.Lib.TableWrites
import ClobIndexer.Domain
import ClobIndexer.Events
import ClobIndexer.Indexer.Books
import ClobIndexer.Indexer.Orders
import ClobIndexer.Indexer.Registry
import ClobIndexer.Indexer.Vaults
import ClobIndexer.Indexer.Hydrate
import ClobIndexer.Indexer.Export
import ClobIndexer.Indexer.Processor
import ClobIndexer.Indexer.Sync
import ClobIndexer.Indexer.BlockWrites
import ClobIndexer.Indexer.MarketWrites
import ClobIndexer.HexSdk
import ClobIndexer.Indexer.Completeness
import ClobIndexer.Indexer.Announce
import ClobIndexer.Indexer.VaultFills
import ClobIndexer.Indexer.BookTotals
import ClobIndexer.Indexer.OpenOrders
import ClobIndexer.Indexer.BookAggregate
import ClobIndexer.Indexer.LevelMoves
import ClobIndexer.Indexer.OrderAgreement
import ClobIndexer.Indexer.StepSim
import ClobIndexer.Http.IndexFromEvent
import ClobIndexer.Indexer.RowsWritten
import ClobIndexer.Indexer.Recovery
import ClobIndexer.Indexer.PeerCatchup
import ClobIndexer.Lib.Bcs
import ClobIndexer.Lib.SortedStore
import ClobIndexer.Persist.RowCodec
import ClobIndexer.Persist.IndexStateStore
import ClobIndexer.Indexer.PeerHead
import ClobIndexer.SubmitWait
import ClobIndexer.Indexer.BookLog
import ClobIndexer.Ws.Subscribe
import ClobIndexer.Indexer.OrderIndexes
import ClobIndexer.Http.MarkCancelled
import ClobIndexer.Indexer.Routing
import ClobIndexer.Indexer.Workers
import ClobIndexer.Indexer.BookRows
import ClobIndexer.Indexer.Drift
import ClobIndexer.Indexer.LazyHydration
import ClobIndexer.Bars
import ClobIndexer.Lib.Interleave
import ClobIndexer.Lib.Ring
import ClobIndexer.Paper
import ClobIndexer.Indexer.BookShard
import ClobIndexer.Indexer.World
import ClobIndexer.Indexer.QuietMode
import ClobIndexer.Indexer.Tasks
import ClobIndexer.Indexer.Footprint
import ClobIndexer.Indexer.Standalone
import ClobIndexer.Indexer.OrderMarkets
import ClobIndexer.Indexer.RegistryConsistency
import ClobIndexer.BucketStart
import ClobIndexer.Lib.Buckets
import ClobIndexer.Candles
import ClobIndexer.PaperLedger
import ClobIndexer.PaperHistory
import ClobIndexer.Persist.IndexLane
import ClobIndexer.Indexer.CheckpointOnce
import ClobIndexer.Persist.BlocksLane
import ClobIndexer.Indexer.CatchupFailure
import ClobIndexer.Indexer.Import
import ClobIndexer.Indexer.ImportMarkets
import ClobIndexer.Indexer.Restore
import ClobIndexer.Indexer.RestoreRuns
import ClobIndexer.Indexer.TradeTape
import ClobIndexer.Persist.WriteSetCalls
import ClobIndexer.CandleRace
import ClobIndexer.Lib.SeriesTable
import ClobIndexer.Persist.StateStore
import ClobIndexer.Persist.HistoryLane
import ClobIndexer.Persist.OrderHistory
import ClobIndexer.Persist.Pending
import ClobIndexer.StakeRace
import ClobIndexer.Ws.OneSubscription
import ClobIndexer.Http.ReadBook
import ClobIndexer.Ws.Resync
import ClobIndexer.Indexer.Containment
import ClobIndexer.Indexer.Independence
import ClobIndexer.PaperStakeView
import ClobIndexer.Lib.Paging
import ClobIndexer.Peer.Download
import ClobIndexer.Persist.BarHistory
import ClobIndexer.PaperPages
import ClobIndexer.Indexer.Partition
import ClobIndexer.HouseQueries
import ClobIndexer.StakeRevenue
import ClobIndexer.Indexer.EventSlugs
import ClobIndexer.SlugForm
import ClobIndexer.AmountFormats
import ClobIndexer.HistoryRings
import ClobIndexer.Indexer.ChainOrderLookup
import ClobIndexer.VaultEnrich
import ClobIndexer.SubmitTasks
import ClobIndexer.Lib.Tickets
import ClobIndexer.Indexer.BookInvariants
import ClobIndexer.Lib.Dirty
import ClobIndexer.PaperQueue
import ClobIndexer.PaperHouseMarks
import ClobIndexer.PaperHouseFeed
import ClobIndexer.Lib.Broadcast
import ClobIndexer.Ws.Requests
import ClobIndexer.Ws.Feeds
import ClobIndexer.Ws.Delivery
import ClobIndexer.PaperLifecycle
import ClobIndexer.PaperUserState
import ClobIndexer.PaperUserFeed
import ClobIndexer.Http.OrderQueries
import ClobIndexer.Lib.Sessions
import ClobIndexer.MempoolSender
import ClobIndexer.Lib.Readings
import ClobIndexer.PaperTotals
import ClobIndexer.Indexer.Quotes
import ClobIndexer.Http.SpotNames
import ClobIndexer.Lib.Listings
import ClobIndexer.Http.PageParams
import ClobIndexer.Http.VaultPages
import ClobIndexer.Http.MarketPages
