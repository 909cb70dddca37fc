import PahoMqtt.Lib.Runs
import PahoMqtt.Lib.ExactMap
import PahoMqtt.Lib.Readers
import PahoMqtt.Lib.Chains
import PahoMqtt.Lib.Rings
import PahoMqtt.Lib.OrderedInsert
import PahoMqtt.Lib.NumberedQueue
import PahoMqtt.Lib.Lanes
import PahoMqtt.Lib.CyclicSearch
import PahoMqtt.Lib.Buffers
import PahoMqtt.Lib.SendWindow
import PahoMqtt.Lib.Cursors
import PahoMqtt.Lib.Framing
import PahoMqtt.Lib.GatherWrites
import PahoMqtt.Lib.BigEndian
import PahoMqtt.Lib.FrameFormat
import PahoMqtt.Lib.CStrings
import PahoMqtt.Lib.Redelivery
import PahoMqtt.Lib.Handover
import PahoMqtt.Lib.Tickets
import PahoMqtt.Lib.VarInts
import PahoMqtt.Lib.Base64Text
import PahoMqtt.Lib.Sha1
import PahoMqtt.Lib.PercentEncoding
import PahoMqtt.Lib.Directories
import PahoMqtt.Lib.TreePlaces
import PahoMqtt.Lib.RedBlack
import PahoMqtt.Lib.RedBlackAdding
import PahoMqtt.Lib.RedBlackRemoving
import PahoMqtt.Bytes
import PahoMqtt.Utf8Validation
import PahoMqtt.Base64
import PahoMqtt.Base64RoundTrip
import PahoMqtt.Sha1
import PahoMqtt.Sha1Digest
import PahoMqtt.VariableByteIntegers
import PahoMqtt.Properties
import PahoMqtt.PropertyLengths
import PahoMqtt.PropertyRoundTrip
import PahoMqtt.PropertySections
import PahoMqtt.SectionReading
import PahoMqtt.SectionEnds
import PahoMqtt.Packets
import PahoMqtt.PublishParsing
import PahoMqtt.AckParsing
import PahoMqtt.PersistenceKeys
import PahoMqtt.Net
import PahoMqtt.Persistence
import PahoMqtt.PacketOut
import PahoMqtt.PacketBuilders
import PahoMqtt.Messages
import PahoMqtt.ProtocolClient
import PahoMqtt.ClientSteps
import PahoMqtt.Inbound
import PahoMqtt.InboundExactlyOnce
import PahoMqtt.PubrelAnswers
import PahoMqtt.Outbound
import PahoMqtt.OutboundQoS2
import PahoMqtt.InflightMirror
import PahoMqtt.PacketIn
import PahoMqtt.WriteAhead
import PahoMqtt.AsyncCommands
import PahoMqtt.CommandSurvival
import PahoMqtt.CommandStartup
import PahoMqtt.MessageQueue
import PahoMqtt.QueuePersistence
import PahoMqtt.MessageArrived
import PahoMqtt.TopicLengths
import PahoMqtt.SequenceNumbers
import PahoMqtt.Unpersisting
import PahoMqtt.CommandReload
import PahoMqtt.LinkedList
import PahoMqtt.ListOperations
import PahoMqtt.ListRuns
import PahoMqtt.RestoredOrder
import PahoMqtt.CommandQueue
import PahoMqtt.CommandOrder
import PahoMqtt.BufferedMessages
import PahoMqtt.SendThreads
import PahoMqtt.RequestIds
import PahoMqtt.MessageIds
import PahoMqtt.FlowControl
import PahoMqtt.Completions
import PahoMqtt.ReceiveMaximum
import PahoMqtt.ResendOrder
import PahoMqtt.CompletionReports
import PahoMqtt.TokenQueries
import PahoMqtt.ConnectCycle
import PahoMqtt.EveryServer
import PahoMqtt.SocketBuffer
import PahoMqtt.PacketReading
import PahoMqtt.PacketTable
import PahoMqtt.QueuedBytes
import PahoMqtt.Reassembly
import PahoMqtt.PublishRoundTrip
import PahoMqtt.LengthCodecs
import PahoMqtt.PacketBodies
import PahoMqtt.RestoredPackets
import PahoMqtt.SubscribeMany
import PahoMqtt.SocketStreams
import PahoMqtt.PartialWrites
import PahoMqtt.WebSocketFrames
import PahoMqtt.WebSocketReceive
import PahoMqtt.FrameParsing
import PahoMqtt.FrameRoundTrip
import PahoMqtt.WebSocketInput
import PahoMqtt.WebSocketStream
import PahoMqtt.Retransmission
import PahoMqtt.WebSocketUpgrade
import PahoMqtt.Socks5Proxy
import PahoMqtt.Socks5Queue
import PahoMqtt.Socks5Memory
import PahoMqtt.Socks5Safety
import PahoMqtt.Socks5ReplyLoop
import PahoMqtt.Socks5Handshake
import PahoMqtt.ServerURIs
import PahoMqtt.AddressSplitting
import PahoMqtt.ProxyCredentials
import PahoMqtt.Socks5Request
import PahoMqtt.Socks5Credentials
import PahoMqtt.FilePersistence
import PahoMqtt.KeyedStore
import PahoMqtt.Tree
import PahoMqtt.TreeShapes
import PahoMqtt.TreeBalance
import PahoMqtt.TreeSearch
import PahoMqtt.TreeAdding
import PahoMqtt.TreeMap
import PahoMqtt.TreeRemoval
import PahoMqtt.TreeRuns
import PahoMqtt.TreeColors
import PahoMqtt.HeapTracking
import PahoMqtt.HeapRuns
import PahoMqtt.Keepalive
import PahoMqtt.SyncClient
import PahoMqtt.SyncPublish
import PahoMqtt.SocketSelect
import PahoMqtt.ReadySockets
import PahoMqtt.Reconnecting
import PahoMqtt.KeepsTrying
import PahoMqtt.SyncReceiving
import PahoMqtt.HandingOver
import PahoMqtt.SyncSessions
import PahoMqtt.SyncExactlyOnce
import PahoMqtt.SyncRestarts
import PahoMqtt.PublicationMemory
import PahoMqtt.PublicationLedger
