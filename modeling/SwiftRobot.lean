import SwiftRobot.Support.ByteWords
import SwiftRobot.Support.Reading
import SwiftRobot.Support.Copying
import SwiftRobot.Support.OrderedMap
import SwiftRobot.Support.Runs
import SwiftRobot.Support.ListReplica
import SwiftRobot.Support.CallLog
import SwiftRobot.Messages
import SwiftRobot.ArrayCodecs
import SwiftRobot.SocketClient
import SwiftRobot.FramingRoundTrip
import SwiftRobot.PacketHeaders
import SwiftRobot.Plist
import SwiftRobot.Connection
import SwiftRobot.USBHub
import SwiftRobot.HubRouting
import SwiftRobot.ClientDispatcher
import SwiftRobot.DispatchQueue
import SwiftRobot.SwiftRobotClient
import SwiftRobot.Support.ExclusiveTokens
import SwiftRobot.LocalDelivery
import SwiftRobot.SerialDelivery
import SwiftRobot.SemaphoreLeak
import SwiftRobot.ChannelIsolation
import SwiftRobot.ReadBounds
import SwiftRobot.Outgoing
import SwiftRobot.PeerLink
import SwiftRobot.PeerEnd
import SwiftRobot.SubscriptionAgreement
import SwiftRobot.ByteLink
import SwiftRobot.RemoteDispatch
import SwiftRobot.Publishing
import SwiftRobot.DispatchThreads
import SwiftRobot.ExactlyOnce
import SwiftRobot.DeadlineOrder
import SwiftRobot.WakeUps
import SwiftRobot.DispatcherRuns
import SwiftRobot.ClientRegistry
import SwiftRobot.KeepAliveCycle
import SwiftRobot.KeepAliveDrops
import SwiftRobot.KeepAliveDetects
import SwiftRobot.KeepAliveQueue
import SwiftRobot.HubEvents
import SwiftRobot.ConnectionMoves
import SwiftRobot.StatusUpdates
import SwiftRobot.ConcurrentSenders
import SwiftRobot.BringUp
import SwiftRobot.ConnectionThreads
import SwiftRobot.ConnectionCalls
import SwiftRobot.TunnelGate
import SwiftRobot.Support.Handles
import SwiftRobot.Descriptors
import SwiftRobot.ShortFrames
import SwiftRobot.ReceiveLoop
import SwiftRobot.ReceiveEnds
import SwiftRobot.MessageCodecs
import SwiftRobot.ConnectHeaders
import SwiftRobot.ConnectAdvertises
import SwiftRobot.StatusReports
import SwiftRobot.UsbmuxMessages
import SwiftRobot.ConnectionRuns
import SwiftRobot.WriteFailures
import SwiftRobot.FrameTags
import SwiftRobot.Support.ObjectLayout
import SwiftRobot.StructuredCodecs
import SwiftRobot.BodyReassembly
import SwiftRobot.Support.KeyedRuns
import SwiftRobot.ClientStreams
import SwiftRobot.Support.MessageNet
import SwiftRobot.PacketExchange
import SwiftRobot.Support.BoundedRecursion
import SwiftRobot.Support.Segments
import SwiftRobot.PlistValues
import SwiftRobot.BinaryPlist
import SwiftRobot.BinaryPlistDepth
import SwiftRobot.BinaryPlistObjects
import SwiftRobot.BinaryPlistRoundTrip
import SwiftRobot.BinaryPlistTables
import SwiftRobot.BinaryPlistAccepted
import SwiftRobot.Base64
import SwiftRobot.Support.Loops
import SwiftRobot.XmlNodes
import SwiftRobot.XmlParser
import SwiftRobot.XmlRoundTrip
import SwiftRobot.XmlPlist
import SwiftRobot.XmlPlistRoundTrip
import SwiftRobot.PlistPlatform
import SwiftRobot.PlistBlocks
import SwiftRobot.UsbmuxRequests
