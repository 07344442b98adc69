import TensorTorrent.Executor.Channel
import TensorTorrent.Executor.WaitEvents
import TensorTorrent.Executor.SpillBudget
import TensorTorrent.Runtime.RunGate
import TensorTorrent.Runtime.PinnedCache
import TensorTorrent.Runtime.BufferPool
import TensorTorrent.Runtime.SlotSafety
import TensorTorrent.Runtime.Forwards
import TensorTorrent.Runtime.ViewAliases
import TensorTorrent.Runtime.PinSafety
import TensorTorrent.Runtime.Reprovisioning
import TensorTorrent.Runtime.CapacityLedger
import TensorTorrent.Runtime.Generations
import TensorTorrent.Runtime.Cancellation
import TensorTorrent.Runtime.RegionPool
import TensorTorrent.Schedule.Hoist
import TensorTorrent.Schedule.SpillSafety
import TensorTorrent.Simulator.MemoryOverTime
import TensorTorrent.Simulator.Timeline
import TensorTorrent.Memory.Accounting
import TensorTorrent.Memory.Leases
import TensorTorrent.Planner.Capacity
import TensorTorrent.Planner.Determinism
import TensorTorrent.Planner.Finalists
import TensorTorrent.Planner.Names
import TensorTorrent.Serve.ModelManager
import TensorTorrent.Serve.Requests
import TensorTorrent.Serve.LatencyHistogram
import TensorTorrent.Compile.PeakActivation
import TensorTorrent.Compile.Persistent
import TensorTorrent.Storage.Publication
import TensorTorrent.Storage.Integrity
import TensorTorrent.Storage.SpillRoot
import TensorTorrent.Ir.ScheduleJson
