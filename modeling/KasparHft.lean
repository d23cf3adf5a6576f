import KasparHft.Machine
import KasparHft.AssocMap
import KasparHft.MarketSide
import KasparHft.FillSlate
import KasparHft.FillSlateConservation
import KasparHft.Position
import KasparHft.PositionFifo
import KasparHft.PositionPnl
import KasparHft.Som
import KasparHft.SomSteps
import KasparHft.SomOrderIds
import KasparHft.SomLifecycle
import KasparHft.SomPositions
import KasparHft.SomPositionLimit
import KasparHft.MessageProcessor
import KasparHft.FeedSequencing
import KasparHft.MarketData
import KasparHft.TachBook
import KasparHft.TachBookLevels
import KasparHft.TachBookSums
import KasparHft.TachBookUncross
import KasparHft.Ladder
import KasparHft.OrderBook
import KasparHft.OrderBookCalls
import KasparHft.OrderBookBest
import KasparHft.OrderBookHandler
import KasparHft.OrderBookSteps
import KasparHft.RecoveryProcessor
import KasparHft.RecoveryRuns
import KasparHft.Registry
import KasparHft.OrderBookMap
import KasparHft.OrderBookSweep
import KasparHft.OrderBookThrough
import KasparHft.OrderBookPath
import KasparHft.OrderBookGate
import KasparHft.OrderBookDelay
import KasparHft.FeedBacklog
import KasparHft.FeedHandler
import KasparHft.TradeRouting
import KasparHft.TachBookPublish
import KasparHft.TachBookBounds
import KasparHft.TachBookRecovery
import KasparHft.QCoord
import KasparHft.QCoordAccounts
import KasparHft.QCoordLevels
import KasparHft.Light22
import KasparHft.Light22Acts
import KasparHft.Light22Slot
import KasparHft.Light22Overfill
import KasparHft.Outbox
import KasparHft.OrderBookNotes
import KasparHft.OrderBookLedger
import KasparHft.OrderBookClears
import KasparHft.OrderBookSettled
import KasparHft.ILink
import KasparHft.ILinkGaps
import KasparHft.ILinkFills
import KasparHft.ILinkRequests
import KasparHft.ILinkSessions
import KasparHft.TokenQueue
import KasparHft.Coordinator
import KasparHft.CoordinatorGrants
import KasparHft.CoordinatedGroup
import KasparHft.GroupManager
import KasparHft.GroupManagerPermissions
import KasparHft.GroupManagerShutdown
import KasparHft.LittleEndian
import KasparHft.ByteReader
import KasparHft.Messages
import KasparHft.MessagesRoundTrip
import KasparHft.Layout
import KasparHft.L3Records
import KasparHft.L3Recording
import KasparHft.MachineFamily
import KasparHft.FillSlateAhead
import KasparHft.TachBookSlate
import KasparHft.Bfa
import KasparHft.Replay
import KasparHft.ReplayAgrees
import KasparHft.FillSlateDecision
import KasparHft.FillSlateIndex
import KasparHft.FillSlateOwnRecord
import KasparHft.FillSlateCounts
import KasparHft.FillSlateRules
import KasparHft.FillSlateAggressor
import KasparHft.OrderBookSlate
import KasparHft.OrderQRuns
import KasparHft.OrderQFill
import KasparHft.OrderBookPrompt
import KasparHft.OrderBookReached
import KasparHft.OrderBookChange
import KasparHft.TachBookBest
import KasparHft.TachBookOffLadder
import KasparHft.TachBookChange
import KasparHft.TachBookCrossed
import KasparHft.LockFreeMPSC
import KasparHft.ShardedBQueue
import KasparHft.PointWeights
import KasparHft.PacketWalk
import KasparHft.PcapReader
import KasparHft.SlippageProbeInventory
import KasparHft.BQueue
import KasparHft.MemoryPoolPlaces
import KasparHft.RegistryActor
import KasparHft.PositionSwap
import KasparHft.StableMerge
import KasparHft.MergeBins
import KasparHft.Gregorian
import KasparHft.Time
import KasparHft.TimeEpoch
import KasparHft.Timer
import KasparHft.TimerApart
import KasparHft.TimerAlarms
import KasparHft.MsgDecoder
import KasparHft.DecodedOrders
import KasparHft.WriteBehind
import KasparHft.LatencyProbe
import KasparHft.LatencyBins
import KasparHft.LatencySamples
import KasparHft.PriceTime
import KasparHft.MatchingBook
import KasparHft.MatchingEngine
import KasparHft.MatchingEngineLinks
import KasparHft.MatchingEngineCalls
import KasparHft.MatchingReports
import KasparHft.MatchingEngineRuns
import KasparHft.LockFreeMPSCWakeup
import KasparHft.PcapFileManagerRuns
import KasparHft.Obcmp
import KasparHft.ActorProgress
