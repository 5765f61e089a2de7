import MiniDynamo.Storage.Codec
import MiniDynamo.Storage.Corruption
import MiniDynamo.Storage.Index
import MiniDynamo.Storage.Bitcask
import MiniDynamo.Storage.Store
import MiniDynamo.Storage.Log
import MiniDynamo.Storage.Invariant
import MiniDynamo.Storage.Compaction
import MiniDynamo.Storage.Refinement
import MiniDynamo.Storage.Recovery
import MiniDynamo.Storage.Readers
import MiniDynamo.Storage.Counters
import MiniDynamo.Storage.Writer
import MiniDynamo.Storage.Faults
import MiniDynamo.Ring.HashRing
import MiniDynamo.Ring.Canonical
import MiniDynamo.Ring.Placement
import MiniDynamo.Ring.TokenRanges
import MiniDynamo.Ring.Successors
import MiniDynamo.Gossip.Membership
import MiniDynamo.Gossip.Detector
import MiniDynamo.Gossip.Agreement
import MiniDynamo.Gossip.Merge
import MiniDynamo.Gossip.Protocol
import MiniDynamo.Gossip.Suspicion
import MiniDynamo.Gossip.Isolation
import MiniDynamo.Replication.Replica
import MiniDynamo.Replication.Query
import MiniDynamo.Replication.Coordinator
import MiniDynamo.Replication.Quorum
import MiniDynamo.Replication.Deletes
import MiniDynamo.Replication.Handoff
import MiniDynamo.Replication.HandoffQueues
import MiniDynamo.Replication.Winner
import MiniDynamo.Replication.QuorumManager
import MiniDynamo.Versioning.VectorClock
import MiniDynamo.Versioning.Resolver
import MiniDynamo.Cmd.Seeds
import MiniDynamo.Cmd.Config
import MiniDynamo.Api.Server
