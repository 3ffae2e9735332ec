import TransferQueue.Library.UnorderedMap
import TransferQueue.Library.Machine
import TransferQueue.Library.Ledger
import TransferQueue.Library.DoForEach
import TransferQueue.Library.Sharded
import TransferQueue.Trajectory
import TransferQueue.Environment
import TransferQueue.DedupFilter
import TransferQueue.DiskStorage
import TransferQueue.BufferShard
import TransferQueue.ReadScan
import TransferQueue.Buffer
import TransferQueue.ShardSteps
import TransferQueue.Residence
import TransferQueue.Refinement
import TransferQueue.ReadOutcome
import TransferQueue.ReadRefinement
import TransferQueue.ShardRuns
import TransferQueue.Conservation
import TransferQueue.Acknowledgement
import TransferQueue.SpillTransparency
import TransferQueue.Statistics
import TransferQueue.Readiness
import TransferQueue.FaultyRuns
import TransferQueue.FullGroups
import TransferQueue.BufferManager
import TransferQueue.ManagerOps
import TransferQueue.ReadLosses
import TransferQueue.Subscription
import TransferQueue.BlockingReads
import TransferQueue.Gluing
import TransferQueue.Sharding
import TransferQueue.ShardedDedup
import TransferQueue.ConfigUpdates
import TransferQueue.ReadFailure
import TransferQueue.Interleaving
import TransferQueue.Protocol
import TransferQueue.ProtocolSteps
import TransferQueue.ProtocolSimulation
import TransferQueue.Effects
import TransferQueue.Ownership
import TransferQueue.SpillCommit
import TransferQueue.ReadCommit
import TransferQueue.Deletion
import TransferQueue.Delivery
import TransferQueue.OverlappingReads
import TransferQueue.DiskBooks
import TransferQueue.DiskAccounting
import TransferQueue.Library.Recency
import TransferQueue.Library.MapAlike
import TransferQueue.DedupWindow
import TransferQueue.Alike
import TransferQueue.AlikeRuns
import TransferQueue.FreshStart
import TransferQueue.Retries
import TransferQueue.BatchOrder
import TransferQueue.SpillTarget
import TransferQueue.BatchWaiting
import TransferQueue.WriteFailure
import TransferQueue.GroupTimeouts
import TransferQueue.Library.Bytes
import TransferQueue.Library.FileSystem
import TransferQueue.Protobuf
import TransferQueue.RpcSerializer
import TransferQueue.SpillFile
import TransferQueue.SpillRoundTrip
import TransferQueue.StorageCalls
import TransferQueue.StorageMap
import TransferQueue.Paging
import TransferQueue.RewardMean
import TransferQueue.ClientSubscription
import TransferQueue.Library.Progress
import TransferQueue.ShardCalls
import TransferQueue.CoreRuns
import TransferQueue.Server
import TransferQueue.ServerCalls
import TransferQueue.ServerAccounts
import TransferQueue.ServerReads
import TransferQueue.ServerWrites
import TransferQueue.ServerProgress
import TransferQueue.Completion
import TransferQueue.ServerSequential
import TransferQueue.Restart
import TransferQueue.SoundGroups
import TransferQueue.ServerGroups
import TransferQueue.Handlers
import TransferQueue.HandlerRuns
import TransferQueue.HandlerAccounts
import TransferQueue.HandlerAnswers
