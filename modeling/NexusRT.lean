import NexusRT.Firmware.BootEvents
import NexusRT.Firmware.CudaMemory
import NexusRT.Firmware.Degradation
import NexusRT.Firmware.DeviceDescription
import NexusRT.Firmware.DmaTransfers
import NexusRT.Firmware.FaultPoller
import NexusRT.Firmware.FaultSlots
import NexusRT.Firmware.GdsPaths
import NexusRT.Firmware.HandleWinner
import NexusRT.Firmware.HbmPool
import NexusRT.Firmware.IlcRaces
import NexusRT.Firmware.MetalMemory
import NexusRT.Firmware.ModuleLoading
import NexusRT.Firmware.ResolveTimes
import NexusRT.Firmware.SideTable
import NexusRT.Firmware.Storage
import NexusRT.Firmware.StreamPriorities
import NexusRT.Firmware.Teardown
import NexusRT.Firmware.TensorMaps
import NexusRT.Firmware.TmaEngine
import NexusRT.Firmware.TmaOwnership
import NexusRT.Library.Ledger
import NexusRT.Library.Outcomes
import NexusRT.Library.Tiling
import NexusRT.Library.Utf8
import NexusRT.Memory.Accounting
import NexusRT.Memory.Coverage
import NexusRT.Memory.Eviction
import NexusRT.Memory.FetchCounts
import NexusRT.Memory.FreeFailures
import NexusRT.Memory.GdsRouter
import NexusRT.Memory.IlcTags
import NexusRT.Memory.PageLoops
import NexusRT.Memory.Pins
import NexusRT.Memory.Prefetch
import NexusRT.Memory.Races
import NexusRT.Memory.Ranges
import NexusRT.Memory.ReadMostly
import NexusRT.Pipeline.Infer
import NexusRT.Pipeline.Kernels
import NexusRT.Pipeline.Metrics
import NexusRT.Pipeline.Preprocess
import NexusRT.Pipeline.Rebuild
import NexusRT.Pipeline.Topology
import NexusRT.PlatformDispatch
import NexusRT.Python.BackendMemory
import NexusRT.Python.ContextScope
import NexusRT.Python.CudaMemory
import NexusRT.Python.DeviceInfo
import NexusRT.Python.Lifecycle
import NexusRT.Python.Memory
import NexusRT.Python.Platform
import NexusRT.Python.Scheduler
import NexusRT.Python.TokenOpt
import NexusRT.Python.UnifiedMemory
import NexusRT.Runtime.Interleavings
import NexusRT.Scheduler.Barrier
import NexusRT.Scheduler.Footprints
import NexusRT.Scheduler.LaunchLog
import NexusRT.Scheduler.Races
import NexusRT.Scheduler.StreamOwnership
import NexusRT.Scheduler.SubmitTask
import NexusRT.Scheduler.Verdicts
import NexusRT.TokenOpt.Budgets
import NexusRT.TokenOpt.KvCounter
import NexusRT.TokenOpt.KvLocking
import NexusRT.TokenOpt.KvPaging
import NexusRT.TokenOpt.Prefetcher
