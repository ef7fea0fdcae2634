import VllmPs.Lib.HashChain
import VllmPs.Lib.Transition
import VllmPs.Lib.RefPool
import VllmPs.Lib.Table
import VllmPs.Request.Basic
import VllmPs.Request.ExtraKeys
import VllmPs.Request.BlockHasher
import VllmPs.Request.Session
import VllmPs.KV.BlockPool
import VllmPs.KV.PoolInvariants
import VllmPs.KV.SingleType
import VllmPs.KV.Manager
import VllmPs.KV.CacheHits
import VllmPs.KV.SparseCaching
import VllmPs.KV.Config
import VllmPs.KV.Ledger
import VllmPs.KV.GroupSteps
import VllmPs.KV.Managers
import VllmPs.KV.RefCounts
import VllmPs.KV.Index
import VllmPs.PowerSMC.Manager
import VllmPs.PowerSMC.Replicas
import VllmPs.PowerSMC.Lineages
import VllmPs.PowerSMC.Resampling
import VllmPs.Sched.Stop
import VllmPs.Sched.State
import VllmPs.Sched.Outputs
import VllmPs.Sched.Reasoning
import VllmPs.Sched.ReasoningRuns
import VllmPs.FrontEnd.Text
import VllmPs.FrontEnd.Parent
import VllmPs.FrontEnd.Processor
import VllmPs.FrontEnd.Invariants
import VllmPs.FrontEnd.AsyncLLM
import VllmPs.FrontEnd.FanOut
import VllmPs.FrontEnd.Selection
import VllmPs.FrontEnd.Tracking
import VllmPs.FrontEnd.TrackedRuns
import VllmPs.PowerSMC.Operations
import VllmPs.PowerSMC.Trajectories
import VllmPs.FrontEnd.StopStrings
import VllmPs.FrontEnd.Streaming
import VllmPs.FrontEnd.ReasoningStream
import VllmPs.Encoder.Cache
import VllmPs.Encoder.Coverage
import VllmPs.Encoder.Batches
import VllmPs.Lib.OrderedDict
import VllmPs.Lib.LruCache
import VllmPs.MultiModal.ProcessorCache
import VllmPs.MultiModal.ShmObjectStorage
import VllmPs.MultiModal.ShmReclaim
import VllmPs.Distributed.MessageQueue
import VllmPs.Distributed.InOrderDelivery
import VllmPs.Offload.Policy
import VllmPs.Offload.CpuManager
import VllmPs.Offload.Tiering
import VllmPs.Offload.TieringLedger
import VllmPs.Offload.TieringRuns
import VllmPs.Offload.CpuRuns
import VllmPs.Offload.Connector
import VllmPs.Offload.ConnectorRuns
import VllmPs.Offload.ConnectorJobs
import VllmPs.Offload.ConnectorBook
import VllmPs.Offload.TransferKinds
import VllmPs.Offload.ConnectorReset
import VllmPs.Lib.Buffer
import VllmPs.Lib.Matching
import VllmPs.Lib.Stripes
import VllmPs.Worker.InputBatch
import VllmPs.Worker.BatchIndex
import VllmPs.Worker.RowLaws
import VllmPs.Worker.RowContents
import VllmPs.Worker.TokenRestrictions
import VllmPs.Worker.SlotMapping
import VllmPs.Worker.SpecDecode
import VllmPs.Lib.Utf8
import VllmPs.Rust.DecodeStream
import VllmPs.Verl.LossAggregation
import VllmPs.Verl.Advantages
import VllmPs.Verl.AutoPadding
import VllmPs.Verl.LoadBalancer
import VllmPs.Verl.PartialRollout
import VllmPs.Verl.SeqlenBalancing
import VllmPs.KV.Provenance
import VllmPs.Worker.GreedySpeculation
import VllmPs.Verl.DynamicBatch
