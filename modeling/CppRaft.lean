import CppRaft.Machine.Effect
import CppRaft.Machine.Trace
import CppRaft.Machine.Network
import CppRaft.Core.Message
import CppRaft.Core.Logger
import CppRaft.Server.State
import CppRaft.Server.Handlers
import CppRaft.Server.Run
import CppRaft.Server.Broadcast
import CppRaft.Server.Applied
import CppRaft.Server.AppendEntries
import CppRaft.Server.AppendResponse
import CppRaft.Server.Inversion
import CppRaft.Server.TermOrder
import CppRaft.Server.Application
import CppRaft.Server.Commitment
import CppRaft.Server.LogMessages
import CppRaft.Server.AppendOnly
import CppRaft.Server.Replication
import CppRaft.Server.Voting
import CppRaft.Server.Ballot
import CppRaft.Server.Election
import CppRaft.Server.Quorum
import CppRaft.Server.WireTerms
import CppRaft.Server.Leadership
import CppRaft.Server.Timer
import CppRaft.Server.Tally
import CppRaft.Cluster.Basic
import CppRaft.Cluster.Election
import CppRaft.Cluster.StateMachine
import CppRaft.Cluster.Provenance
import CppRaft.Server.Bookkeeping
import CppRaft.Server.Loops
import CppRaft.Server.AppendReply
import CppRaft.Server.UpToDate
import CppRaft.Server.ThrownResponse
import CppRaft.Store.Linked
import CppRaft.Store.OrderedMap
import CppRaft.Store.Queue
import CppRaft.Store.Chained
import CppRaft.Nodes.Table
import CppRaft.Common.ListSpecial
import CppRaft.Common.ListFamily
import CppRaft.Common.FifoFast
import CppRaft.Common.HashTbl
import CppRaft.Common.HashStacks
import CppRaft.Common.Containers
import CppRaft.Common.Moves
import CppRaft.Nodes.Refinement
import CppRaft.Nodes.Members
import CppRaft.Machine.Bytes
import CppRaft.Machine.Session
import CppRaft.Tcp.Wire
import CppRaft.Tcp.Endian
import CppRaft.Machine.Text
import CppRaft.Tcp.Address
import CppRaft.Tcp.Seeds
import CppRaft.Machine.Dialogue
import CppRaft.Common.SocketTcp
import CppRaft.Tcp.Sockets
import CppRaft.Machine.Ownership
import CppRaft.Tcp.Descriptors
import CppRaft.Common.ServerTcp
import CppRaft.Tcp.Receive
import CppRaft.Tcp.EntryCount
import CppRaft.Tcp.Frames
import CppRaft.Tcp.Readiness
import CppRaft.Tcp.Detector
import CppRaft.Tcp.Select
import CppRaft.Tcp.Membership
import CppRaft.Tcp.SendMutex
import CppRaft.Tcp.Join
import CppRaft.Tcp.Client
import CppRaft.Tcp.Attempt
import CppRaft.Tcp.FailedJoin
import CppRaft.Tcp.Server
import CppRaft.Tcp.Startup
import CppRaft.Tcp.Pointers
import CppRaft.Tcp.Layers
import CppRaft.Tcp.Takeover
import CppRaft.Tcp.JoinRace
import CppRaft.Machine.Feed
import CppRaft.Tcp.Replicas
import CppRaft.Machine.Threads
import CppRaft.Tcp.SharedMutex
import CppRaft.Tcp.Worker
import CppRaft.Tcp.JobQueue
import CppRaft.Tcp.WorkerPool
import CppRaft.Tcp.LockCount
import CppRaft.Tcp.NodeUse
import CppRaft.Tcp.Removal
