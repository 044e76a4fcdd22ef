import Ndfex.Containers.OrderedMap
import Ndfex.Containers.ThreadedList
import Ndfex.Containers.Fifo
import Ndfex.Transition.Run
import Ndfex.Transition.Logged
import Ndfex.Protocol.MarketData
import Ndfex.Protocol.OrderEntry
import Ndfex.MatchingEngine.OrderLadder
import Ndfex.MatchingEngine.PriorityBook
import Ndfex.MatchingEngine.LadderRepresentation
import Ndfex.MatchingEngine.LadderMoves
import Ndfex.MatchingEngine.LadderResting
import Ndfex.MatchingEngine.LadderMatching
import Ndfex.MatchingEngine.LadderRefinement
import Ndfex.MatchingEngine.BookInvariants
import Ndfex.MatchingEngine.BookAccounts
import Ndfex.MatchingEngine.BookEvents
import Ndfex.MatchingEngine.LadderRuns
import Ndfex.MatchingEngine.FailingOrders
import Ndfex.MatchingEngine.Broker
import Ndfex.MatchingEngine.BrokerEffects
import Ndfex.MatchingEngine.BrokerRuns
import Ndfex.MatchingEngine.FillAttribution
import Ndfex.MatchingEngine.Clearing
import Ndfex.Bots.OrderBook
import Ndfex.Bots.FeedReplica
import Ndfex.OrderEntry.ClientHandler
import Ndfex.OrderEntry.HandlerEffects
import Ndfex.Exchange.System
import Ndfex.Exchange.Agreement
import Ndfex.Exchange.Ownership
import Ndfex.Exchange.LimitPrices
import Ndfex.Containers.KeyIndex
import Ndfex.OrderEntry.Requests
import Ndfex.Exchange.Authority
import Ndfex.Exchange.Disconnects
import Ndfex.Exchange.Connections
import Ndfex.MatchingEngine.Answers
import Ndfex.Exchange.Rejects
import Ndfex.Containers.TaggedQueue
import Ndfex.Exchange.Sequences
import Ndfex.MatchingEngine.Acknowledgements
import Ndfex.Exchange.Acknowledgements
import Ndfex.Exchange.Interference
import Ndfex.Exchange.Threads
import Ndfex.Containers.KeyedList
import Ndfex.MarketData.Shown
import Ndfex.MarketData.SnapshotWriter
import Ndfex.Bots.LevelTotals
import Ndfex.Bots.LiveClient
import Ndfex.Bots.BestPrices
import Ndfex.Bots.PartialBook
import Ndfex.Bots.BookCalls
import Ndfex.Numeric.Binary64
import Ndfex.Bots.WeightedMid
import Ndfex.Containers.OrderedSet
import Ndfex.Bots.StackManager
import Ndfex.Numeric.Multiples
import Ndfex.Bots.MarketMaker
import Ndfex.Bots.Recovery
import Ndfex.Viewer.PcapPrinter
import Ndfex.Viewer.CaptureRuns
import Ndfex.MarketData.LateJoin
import Ndfex.MarketData.ExactRecovery
import Ndfex.MarketData.Tracking
import Ndfex.MarketData.Coverage
import Ndfex.MarketData.WriterIndex
import Ndfex.Containers.Greedy
import Ndfex.MatchingEngine.PriceTime
import Ndfex.MatchingEngine.FillHistory
import Ndfex.Wire.Packed
import Ndfex.Protocol.MdWire
import Ndfex.MatchingEngine.WirePublisher
import Ndfex.MarketData.SnapshotClient
import Ndfex.MarketData.SnapshotWire
import Ndfex.Bots.RoundReading
import Ndfex.Bots.WireRecovery
import Ndfex.MatchingEngine.EngineFeed
import Ndfex.EtfService.MDClient
import Ndfex.Bots.WireClient
import Ndfex.MarketData.WireJoin
import Ndfex.EtfService.Quotes
import Ndfex.Containers.NestedMap
import Ndfex.MatchingEngine.WireClearing
import Ndfex.WebData.ClearingClient
import Ndfex.EtfService.ClearingClient
import Ndfex.EtfService.PositionLedger
import Ndfex.OrderEntry.StreamParser
import Ndfex.OrderEntry.Framing
import Ndfex.Containers.SlidingWindow
import Ndfex.OrderEntry.Throttle
import Ndfex.OrderEntry.SendLoop
import Ndfex.OrderEntry.EpollServer
import Ndfex.Bots.SequenceTracking
import Ndfex.WebData.SequenceGaps
import Ndfex.Wire.FrameLoop
import Ndfex.Bots.DatagramLoops
import Ndfex.MatchingEngine.ReportedFills
import Ndfex.MatchingEngine.OrderTerms
import Ndfex.Protocol.OeResponseWire
import Ndfex.Wire.Reassembly
import Ndfex.Bots.OEClient
import Ndfex.Exchange.Accounts
import Ndfex.Exchange.ClientSession
import Ndfex.Trading.System
import Ndfex.Trading.Orders
import Ndfex.Trading.Positions
import Ndfex.Trading.Login
import Ndfex.Bots.ResponseLoop
import Ndfex.Trading.Wire
import Ndfex.Trading.WireRefinement
import Ndfex.Trading.Settling
import Ndfex.Bots.OrderIds
import Ndfex.Bots.Takers
import Ndfex.Bots.Runner
import Ndfex.Trading.Desk
import Ndfex.MarketData.TopOfBook
import Ndfex.MarketData.Rejoin
import Ndfex.WebData.Dashboard
