import ChatOnC.Common.System
import ChatOnC.Common.Termination
import ChatOnC.Common.Loop
import ChatOnC.Common.Fifo
import ChatOnC.Common.LinkedList
import ChatOnC.Common.Monitor
import ChatOnC.Common.CriticalSection
import ChatOnC.Common.Room
import ChatOnC.Common.Subsequence
import ChatOnC.Common.SwapRemove
import ChatOnC.Common.CString
import ChatOnC.Common.Stream
import ChatOnC.Common.Lines
import ChatOnC.Common.Chunks
import ChatOnC.Common.Datagram
import ChatOnC.Common.UnreliableDatagram
import ChatOnC.Common.PartialWrite
import ChatOnC.Common.OnesComplement
import ChatOnC.Common.TrialDivision
import ChatOnC.TaskQueue.Model
import ChatOnC.TaskQueue.Refinement
import ChatOnC.TaskQueue.Delete
import ChatOnC.TaskQueue.Threads
import ChatOnC.TaskQueue.WakeUp
import ChatOnC.TaskQueue.Workload
import ChatOnC.TaskQueue.Shared
import ChatOnC.ActiveObject.Model
import ChatOnC.ActiveObject.Steps
import ChatOnC.ActiveObject.Delivery
import ChatOnC.ActiveObject.Shutdown
import ChatOnC.ActiveObject.Create
import ChatOnC.ActiveObject.Progress
import ChatOnC.ActiveObject.Nodes
import ChatOnC.ActiveObject.NodeRefinement
import ChatOnC.ActiveObject.Cleanup
import ChatOnC.Pipeline.Model
import ChatOnC.Pipeline.Values
import ChatOnC.Pipeline.Primality
import ChatOnC.Pipeline.Output
import ChatOnC.Pipeline.Nodes
import ChatOnC.Handshake.Model
import ChatOnC.Handshake.Agreement
import ChatOnC.Handshake.Segmentation
import ChatOnC.Handshake.Progress
import ChatOnC.Handshake.Session
import ChatOnC.ReactServer.Model
import ChatOnC.ReactServer.Steps
import ChatOnC.ReactServer.PollSet
import ChatOnC.ReactServer.Freshness
import ChatOnC.ReactServer.Dispatch
import ChatOnC.ReactServer.Lifecycle
import ChatOnC.ReactServer.Broadcast
import ChatOnC.ReactServer.Removal
import ChatOnC.ReactServer.Relay
import ChatOnC.ReactServer.Isolation
import ChatOnC.ReactServer.Registration
import ChatOnC.ReactServer.Service
import ChatOnC.ReactServer.ChatRoom
import ChatOnC.ReactServer.Leak
import ChatOnC.ReactServer.Main
import ChatOnC.Checksum.Model
import ChatOnC.Checksum.Words
import ChatOnC.Checksum.Internet
import ChatOnC.Checksum.Agreement
import ChatOnC.Checksum.Verify
import ChatOnC.Chat.Model
import ChatOnC.Chat.Arrival
import ChatOnC.Chat.Chunking
import ChatOnC.Chat.Session
import ChatOnC.Chat.Ending
import ChatOnC.FileTransfer.Model
import ChatOnC.FileTransfer.Udp
import ChatOnC.FileTransfer.UdpReceivers
import ChatOnC.FileTransfer.UnixDgram
import ChatOnC.FileTransfer.Pipe
import ChatOnC.FileTransfer.StreamClients
import ChatOnC.FileTransfer.StreamServers
import ChatOnC.FileTransfer.CopyLoops
import ChatOnC.FileTransfer.StreamSessions
import ChatOnC.FileTransfer.Counters
import ChatOnC.FileTransfer.UdpLoss
import ChatOnC.FileTransfer.Tool
import ChatOnC.PerformanceTest.Model
import ChatOnC.PerformanceTest.WriteLoops
import ChatOnC.PerformanceTest.Framing
import ChatOnC.PerformanceTest.CommandLine
import ChatOnC.PerformanceTest.Crossing
import ChatOnC.PartB.DigestLoop
import ChatOnC.MutexExample.Model
import ChatOnC.MutexExample.Jobs
import ChatOnC.MutexExample.Invariant
import ChatOnC.MutexExample.Ending
