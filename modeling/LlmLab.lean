import LlmLab.Lib.OrdMap
import LlmLab.Lib.ExceptLogic
import LlmLab.Lib.Twin
import LlmLab.Lib.Lists
import LlmLab.Lib.Machine
import LlmLab.Lib.HashChain
import LlmLab.Lib.Encoding
import LlmLab.Lib.SingleServer
import LlmLab.Lib.ServerRuns
import LlmLab.Lib.Signed
import LlmLab.Lib.Lanes
import LlmLab.Lib.Avx2
import LlmLab.Serving.CheckedMath
import LlmLab.Serving.Request
import LlmLab.Serving.Scheduler.Fcfs
import LlmLab.Serving.Scheduler.FcfsSteps
import LlmLab.Serving.Scheduler.FcfsRuns
import LlmLab.Serving.Backend
import LlmLab.Serving.Costs
import LlmLab.Serving.Simulation.Engine
import LlmLab.Serving.Simulation.Agenda
import LlmLab.Serving.Simulation.Jobs
import LlmLab.Serving.Simulation.Tracked
import LlmLab.Serving.Simulation.Steps
import LlmLab.Serving.Simulation.Admission
import LlmLab.Serving.Simulation.Turns
import LlmLab.Serving.Simulation.Calls
import LlmLab.Serving.Simulation.Consistency
import LlmLab.Serving.Simulation.Log
import LlmLab.Serving.Simulation.Order
import LlmLab.Serving.Simulation.Clock
import LlmLab.Serving.KVCache.Types
import LlmLab.Serving.KVCache.Validate
import LlmLab.Serving.KVCache.Operations
import LlmLab.Serving.KVCache.Valid
import LlmLab.Serving.KVCache.Chains
import LlmLab.Serving.KVCache.ValidateExact
import LlmLab.Serving.KVCache.BlockSteps
import LlmLab.Serving.KVCache.IndexSteps
import LlmLab.Serving.KVCache.Eviction
import LlmLab.Serving.KVCache.Allocation
import LlmLab.Serving.KVCache.Entries
import LlmLab.Serving.KVCache.AllocateSpec
import LlmLab.Serving.KVCache.Lookup
import LlmLab.Serving.KVCache.PromptOps
import LlmLab.Serving.KVCache.Publication
import LlmLab.Serving.KVCache.Decode
import LlmLab.Serving.KVCache.Release
import LlmLab.Serving.KVCache.Effects
import LlmLab.Serving.KVCache.Runs
import LlmLab.Serving.KVCache.WordOperations
import LlmLab.Serving.KVCache.Isolation
import LlmLab.Serving.KVCache.Accounting
import LlmLab.Serving.KVCache.Passes
import LlmLab.Serving.KVCache.History
import LlmLab.Serving.KVCache.Reuse
import LlmLab.Serving.KVCache.ShadowModel
import LlmLab.Serving.KVCache.ShadowCache
import LlmLab.Serving.KVCache.Refinement
import LlmLab.Serving.KVCache.Client
import LlmLab.Serving.KVCache.Disabled
import LlmLab.Serving.KVCache.Recency
import LlmLab.Serving.KVCache.Failures
import LlmLab.Serving.KVCache.ProtectedBlocks
import LlmLab.Serving.KVCache.ReleaseOrder
import LlmLab.Serving.KVCache.KeyHash
import LlmLab.Lib.Journal
import LlmLab.Lib.Sweep
import LlmLab.Lib.Decimal
import LlmLab.Lib.Padded
import LlmLab.Lib.Lines
import LlmLab.Benchmarks.LlamaBench.Plan
import LlmLab.Benchmarks.LlamaBench.Run
import LlmLab.Benchmarks.LlamaBench.Durable
import LlmLab.Benchmarks.ServingCommon.Text
import LlmLab.Benchmarks.ServingCommon.Json
import LlmLab.Benchmarks.ServingCommon.Workload
import LlmLab.Benchmarks.ServingCommon.Jsonl
import LlmLab.Benchmarks.ServingRunner.Transport
import LlmLab.Benchmarks.ServingRunner.Lossless
import LlmLab.Benchmarks.ServingCommon.NativeRecords
import LlmLab.Benchmarks.ServingCommon.QueueDepth
import LlmLab.Benchmarks.ServingCommon.Generator
import LlmLab.Benchmarks.ServingCommon.Generated
import LlmLab.Benchmarks.ServingCommon.Manifest
import LlmLab.Serving.ContinuousBatching.Plan
import LlmLab.Serving.ContinuousBatching.Engine
import LlmLab.Serving.ContinuousBatching.WordEngine
import LlmLab.Serving.ContinuousBatching.Lifecycle
import LlmLab.Serving.ContinuousBatching.Planner
import LlmLab.Serving.ContinuousBatching.Trail
import LlmLab.Serving.ContinuousBatching.Roles
import LlmLab.Serving.ContinuousBatching.Building
import LlmLab.Serving.ContinuousBatching.Updates
import LlmLab.Serving.ContinuousBatching.Iteration
import LlmLab.Serving.ContinuousBatching.Commit
import LlmLab.Serving.ContinuousBatching.Calls
import LlmLab.Serving.ContinuousBatching.Safety
import LlmLab.Serving.ContinuousBatching.WordRuns
import LlmLab.Serving.ContinuousBatching.Agreement
import LlmLab.Serving.ContinuousBatching.Stall
import LlmLab.Serving.ContinuousBatching.Residency
import LlmLab.Serving.ContinuousBatching.Termination
import LlmLab.Serving.ContinuousBatching.Timeline
import LlmLab.Serving.KVCache.Meters
import LlmLab.Serving.KVCache.Inert
import LlmLab.Serving.KVCache.Bookkeeping
import LlmLab.Serving.KVCache.WordExactness
import LlmLab.Serving.KVCache.Persistence
import LlmLab.Serving.KVCache.Dominance
import LlmLab.Serving.ContinuousBatching.Conservation
import LlmLab.Serving.ContinuousBatching.Survival
import LlmLab.Serving.ContinuousBatching.Neutrality
import LlmLab.Serving.ContinuousBatching.Foresight
import LlmLab.Serving.ContinuousBatching.OneSlot
import LlmLab.Serving.ContinuousBatching.OneSlotRuns
import LlmLab.Serving.ContinuousBatching.RunReport
import LlmLab.Serving.ContinuousBatching.RunEnd
import LlmLab.Serving.Makespan
import LlmLab.Kernels.Q8Rn2Scale
import LlmLab.Kernels.Q6Q8
import LlmLab.Benchmarks.ServingRunner.Writer
import LlmLab.Benchmarks.ServingRunner.Output
import LlmLab.Benchmarks.ServingCommon.Checks
import LlmLab.Benchmarks.ServingRunner.Fields
import LlmLab.Benchmarks.ServingRunner.RequestRecords
import LlmLab.Benchmarks.ServingRunner.Delivery
import LlmLab.Benchmarks.ServingRunner.FcfsRun
import LlmLab.Benchmarks.ServingRunner.FcfsSummary
import LlmLab.Benchmarks.ServingRunner.FcfsStream
import LlmLab.Benchmarks.ServingRunner.ContinuousWriter
import LlmLab.Benchmarks.ServingRunner.IterationRecords
import LlmLab.Benchmarks.ServingRunner.ContinuousRun
import LlmLab.Benchmarks.ServingRunner.ContinuousTotals
import LlmLab.Benchmarks.ServingRunner.ContinuousSummary
import LlmLab.Benchmarks.ServingRunner.ContinuousIterations
import LlmLab.Benchmarks.ServingRunner.NativeRun
