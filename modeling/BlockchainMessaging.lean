import BlockchainMessaging.Lib.UnorderedMap
import BlockchainMessaging.Lib.Transition
import BlockchainMessaging.Lib.RedisList
import BlockchainMessaging.Lib.TextCodec
import BlockchainMessaging.Lib.FirstOccurrence
import BlockchainMessaging.Lib.Tokens
import BlockchainMessaging.Lib.Transform
import BlockchainMessaging.Itf
import BlockchainMessaging.Buffer
import BlockchainMessaging.RedisDB
import BlockchainMessaging.Archive
import BlockchainMessaging.ConsensusStorage
import BlockchainMessaging.StorageSpec
import BlockchainMessaging.Touched
import BlockchainMessaging.Ballot
import BlockchainMessaging.SlotHandler
import BlockchainMessaging.NodeSpec
import BlockchainMessaging.HandlerSpec
import BlockchainMessaging.Chain
import BlockchainMessaging.Network
import BlockchainMessaging.Plain
import BlockchainMessaging.SingleNode
import BlockchainMessaging.WakeUp
import BlockchainMessaging.Tick
import BlockchainMessaging.Updates
import BlockchainMessaging.Ledger
import BlockchainMessaging.Inspection
import BlockchainMessaging.Voting
import BlockchainMessaging.Agreement
import BlockchainMessaging.Failures
import BlockchainMessaging.Election
import BlockchainMessaging.Settled
import BlockchainMessaging.Gathered
import BlockchainMessaging.Flags
import BlockchainMessaging.Progress
import BlockchainMessaging.BufferRuns
import BlockchainMessaging.VoteTable
import BlockchainMessaging.Merging
import BlockchainMessaging.Frame
import BlockchainMessaging.Arrivals
import BlockchainMessaging.Lock
import BlockchainMessaging.Process
import BlockchainMessaging.Participants
import BlockchainMessaging.Release
import BlockchainMessaging.Publication
import BlockchainMessaging.BufferQueue
import BlockchainMessaging.Serializer
import BlockchainMessaging.ClientFraming
import BlockchainMessaging.Framing
import BlockchainMessaging.Listener
import BlockchainMessaging.Timer
import BlockchainMessaging.Activation
import BlockchainMessaging.TimerWheel
import BlockchainMessaging.VectorSerializer
import BlockchainMessaging.ChainTail
import BlockchainMessaging.Registration
import BlockchainMessaging.Lib.Simulation
import BlockchainMessaging.SameSlot
import BlockchainMessaging.Alike
import BlockchainMessaging.Cluster
import BlockchainMessaging.Projection
import BlockchainMessaging.Outcome
import BlockchainMessaging.Replication
import BlockchainMessaging.Delivery
import BlockchainMessaging.ClusterProgress
import BlockchainMessaging.Lib.Regroup
import BlockchainMessaging.Service
import BlockchainMessaging.Conservation
import BlockchainMessaging.Provenance
import BlockchainMessaging.Lib.Potential
import BlockchainMessaging.Termination
import BlockchainMessaging.Wire
import BlockchainMessaging.Console
import BlockchainMessaging.Lib.Broker
import BlockchainMessaging.Messaging
import BlockchainMessaging.Traffic
import BlockchainMessaging.Conversation
import BlockchainMessaging.EndToEnd
import BlockchainMessaging.Lib.Abreast
import BlockchainMessaging.SameOrder
import BlockchainMessaging.Reading
import BlockchainMessaging.ClusterTermination
