import ServerCore.Framework.Machine
import ServerCore.Framework.ConcurrentQueue
import ServerCore.Framework.Along
import ServerCore.Jobs.JobQueue
import ServerCore.Jobs.JobQueueInvariant
import ServerCore.Jobs.DrainJobs
import ServerCore.Jobs.ChatRoom
import ServerCore.Framework.PriorityQueue
import ServerCore.Framework.Fifo
import ServerCore.Framework.Framing
import ServerCore.Framework.Asserting
import ServerCore.Config.ServerConfig
import ServerCore.Config.LoadConfig
import ServerCore.Jobs.JobTimer
import ServerCore.Jobs.TimedJobs
import ServerCore.Jobs.NoNesting
import ServerCore.Jobs.TimerPlaces
import ServerCore.Jobs.ServerTime
import ServerCore.Jobs.TimerRecords
import ServerCore.Jobs.WorkerThreads
import ServerCore.Network.NetworkBuffer
import ServerCore.Network.PacketSession
import ServerCore.Network.RegisteredBufferPool
import ServerCore.Network.NetworkSession
import ServerCore.Network.SessionSystem
import ServerCore.Network.SessionSteps
import ServerCore.Network.SessionTokens
import ServerCore.Network.SessionInvariant
import ServerCore.Network.SliceOwnership
import ServerCore.Network.SendStream
import ServerCore.Network.RegionIsolation
import ServerCore.Network.Completions
import ServerCore.Network.SelfReference
import ServerCore.Network.SessionRegistry
import ServerCore.Network.OwnedBuffers
import ServerCore.Network.RejectedSend
import ServerCore.Network.RegisterSend
import ServerCore.Network.KickLimit
import ServerCore.Network.SendPath
import ServerCore.Network.EmptySend
import ServerCore.Network.Registries
import ServerCore.Packets.PacketManager
import ServerCore.Packets.PacketSteps
import ServerCore.Packets.ChunkOwnership
import ServerCore.Packets.PacketIsolation
import ServerCore.Network.SendBuilds
import ServerCore.Network.Listener
import ServerCore.Network.Reports
import ServerCore.Network.ListenerRefinement
import ServerCore.Network.MaxSessions
import ServerCore.Network.RegisterAccept
import ServerCore.Network.AcceptSlots
import ServerCore.Database.DBLoadBalancer
import ServerCore.Database.DBService
import ServerCore.Database.DBServiceInvariant
import ServerCore.Database.Launch
import ServerCore.Database.HandleData
import ServerCore.Database.PushResult
import ServerCore.Network.KeyDispatch
import ServerCore.Network.CompletionQueues
import ServerCore.Network.NotifyOnce
import ServerCore.Network.QueueSpread
import ServerCore.Network.ServiceStartup
import ServerCore.Network.DummyClient
import ServerCore.Network.BufferRegion
import ServerCore.Network.ByteFifo
import ServerCore.Network.PacketParser
import ServerCore.Network.ReceiveStream
import ServerCore.Network.HandlePacket
import ServerCore.Network.ReceiveRoom
import ServerCore.Network.Compaction
import ServerCore.Network.BufferPool
import ServerCore.Packets.PacketCalls
import ServerCore.Packets.NullPacket
import ServerCore.Packets.PoisonedThread
import ServerCore.Pools.ObjectPool
import ServerCore.Pools.ObjectPlaces
import ServerCore.Pools.UsingCount
import ServerCore.Network.CustomBuffer
import ServerCore.Network.PoolDestructor
import ServerCore.Framework.Numerals
import ServerCore.Packets.WireFormat
import ServerCore.Packets.UnknownFields
import ServerCore.Packets.Messages
import ServerCore.Network.Delivery
import ServerCore.App.ClientPacketHandler
import ServerCore.Logging.LogManager
import ServerCore.Logging.LogLines
import ServerCore.Framework.Part
import ServerCore.App.GameDBHandler
import ServerCore.App.Responses
import ServerCore.Network.Admission
import ServerCore.App.ChatRooms
import ServerCore.App.RoomSteps
import ServerCore.App.RoomMembers
import ServerCore.App.RoomPresence
import ServerCore.App.RoomsFollow
import ServerCore.Jobs.TimerDelivery
import ServerCore.Database.DrainRequests
import ServerCore.Database.Reconnects
