import EpicsToKafka.Transition
import EpicsToKafka.Threads
import EpicsToKafka.CompareExchange
import EpicsToKafka.StopRequests
import EpicsToKafka.Stream
import EpicsToKafka.FillQueue
import EpicsToKafka.FailedEnqueues
import EpicsToKafka.RoundRobin
import EpicsToKafka.ConversionSystem
import EpicsToKafka.ConversionMoves
import EpicsToKafka.ConversionControl
import EpicsToKafka.ConversionLifetimes
import EpicsToKafka.ConversionTransit
import EpicsToKafka.Dispatch
import EpicsToKafka.ConversionPackets
import EpicsToKafka.ConversionCursor
import EpicsToKafka.ConversionWaits
import EpicsToKafka.ConversionChannels
import EpicsToKafka.Producer
import EpicsToKafka.ProducerOwnership
import EpicsToKafka.ProducerAccounting
import EpicsToKafka.MonitorLifecycle
import EpicsToKafka.Alarms
import EpicsToKafka.AlarmNames
import EpicsToKafka.PVData
import EpicsToKafka.SchemaConverters
import EpicsToKafka.LittleEndian
import EpicsToKafka.FlatBuffers
import EpicsToKafka.F142Values
import EpicsToKafka.UpdateCache
import EpicsToKafka.MalformedUpdates
import EpicsToKafka.Timestamps
import EpicsToKafka.SignedArithmetic
import EpicsToKafka.TdcTimestamps
import EpicsToKafka.Backtracking
import EpicsToKafka.GreedyMatching
import EpicsToKafka.Uri
import EpicsToKafka.UriGrammar
import EpicsToKafka.UriRoundTrip
import EpicsToKafka.UriErrors
import EpicsToKafka.UriPadding
import EpicsToKafka.BrokerList
import EpicsToKafka.ConfigParser
import EpicsToKafka.Forwarder
import EpicsToKafka.TopicDestinations
import EpicsToKafka.Traversal
import EpicsToKafka.StreamExtraction
import EpicsToKafka.KafkaOptions
import EpicsToKafka.AddMapping
import EpicsToKafka.ConverterNames
import EpicsToKafka.CommandPayload
import EpicsToKafka.TopicSubscription
import EpicsToKafka.StartUp
import EpicsToKafka.ConverterSharing
import EpicsToKafka.GivenNames
import EpicsToKafka.Distinct
import EpicsToKafka.FanOut
import EpicsToKafka.TimerCallbacks
import EpicsToKafka.ConversionDeadlocks
import EpicsToKafka.ConversionShutdown
import EpicsToKafka.IoContext
import EpicsToKafka.Timer
import EpicsToKafka.StatusReports
import EpicsToKafka.Publication
import EpicsToKafka.Backlog
import EpicsToKafka.ClientFactory
import EpicsToKafka.MonitorEvents
import EpicsToKafka.Pipeline
import EpicsToKafka.MainLoop
import EpicsToKafka.MainStages
import EpicsToKafka.ChannelCommands
