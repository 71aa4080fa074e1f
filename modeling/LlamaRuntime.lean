import LlamaRuntime.Inference.CrashContainment
import LlamaRuntime.Inference.BatchIsolation
import LlamaRuntime.Inference.EventProtocol
import LlamaRuntime.Agent.Lifecycles
import LlamaRuntime.Agent.AppendAtomicity
import LlamaRuntime.Agent.Recovery
import LlamaRuntime.Agent.TurnRefinement
import LlamaRuntime.Native.BatchCells
import LlamaRuntime.Native.KvCells
import LlamaRuntime.Native.SessionGenerations
import LlamaRuntime.Native.PrefillBatches
import LlamaRuntime.Native.PrefillIsolation
import LlamaRuntime.Native.SessionCommits
import LlamaRuntime.Inference.AdmissionLedger
import LlamaRuntime.Native.SequenceLedger
import LlamaRuntime.Worker.EventBuffer
import LlamaRuntime.Worker.FrameLanguage
import LlamaRuntime.Worker.FrameProtocol
import LlamaRuntime.Worker.OutputContract
import LlamaRuntime.Worker.RequestRegistry
import LlamaRuntime.Worker.StreamText
import LlamaRuntime.Concurrency.Extension
import LlamaRuntime.Inference.CacheFailures
import LlamaRuntime.Inference.CacheLeases
import LlamaRuntime.Inference.EmergencyService
import LlamaRuntime.Worker.Dispatcher
import LlamaRuntime.Worker.DispatcherQueue
import LlamaRuntime.Worker.DispatcherShutdown
import LlamaRuntime.Inference.BackendLeases
import LlamaRuntime.Python.FileTree
import LlamaRuntime.Worker.ArtifactCleanup
import LlamaRuntime.Worker.AttemptSettlement
import LlamaRuntime.Inference.FairSelection
import LlamaRuntime.Inference.BatchBudgets
import LlamaRuntime.Inference.DecodeBursts
import LlamaRuntime.Native.ReasoningPhases
import LlamaRuntime.Native.Utf8Splits
import LlamaRuntime.Agent.SecretRedaction
import LlamaRuntime.Worker.Preflight
import LlamaRuntime.Worker.StrictDocuments
import LlamaRuntime.Native.PendingCancels
import LlamaRuntime.Worker.TelemetryLedger
import LlamaRuntime.Native.CacheAccounting
import LlamaRuntime.Native.RunnableTurns
import LlamaRuntime.Worker.RegistryPruning
import LlamaRuntime.Worker.TransitionAtomicity
import LlamaRuntime.Inference.InstanceCustody
import LlamaRuntime.Managed.Completions
import LlamaRuntime.Worker.FrameEvents
import LlamaRuntime.Inference.KeepaliveSweeps
import LlamaRuntime.Inference.CacheDigests
import LlamaRuntime.Agent.FrozenArguments
import LlamaRuntime.Adapters.HandleTables
import LlamaRuntime.Inference.SimulatorRuns
import LlamaRuntime.Python.Utf8Texts
import LlamaRuntime.Native.ModelWorker
import LlamaRuntime.Native.WorkerFrames
import LlamaRuntime.Native.StreamedJob
