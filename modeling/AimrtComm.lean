import AimrtComm.Lib.Assoc
import AimrtComm.Yaml.Basic
import AimrtComm.Cfg.MergeMap
import AimrtComm.Cfg.Equiv.MergeMap
import AimrtComm.Cfg.PatchMode
import AimrtComm.Cfg.PatchList
import AimrtComm.Cfg.PatchAimRT
import AimrtComm.Cfg.Equiv.MergeTree
import AimrtComm.Cfg.ModuleConfig
import AimrtComm.Cfg.Equiv.ModuleConfig
import AimrtComm.Lib.KeyedList
import AimrtComm.Lib.FoldExcept
import AimrtComm.Lib.KeyedEdits
import AimrtComm.Lib.KeyedFold
import AimrtComm.Cfg.MergeList
import AimrtComm.Cfg.Equiv.MergeList
import AimrtComm.Cfg.PatchTable
import AimrtComm.Cfg.Equiv.PatchMode
import AimrtComm.Cfg.Equiv.PatchList
import AimrtComm.Cfg.Equiv.PatchMissing
import AimrtComm.Cfg.Equiv.PatchEffect
import AimrtComm.Cfg.Equiv.PatchBackend
import AimrtComm.Cfg.Equiv.OptionList
import AimrtComm.Cfg.AimRTConfig
import AimrtComm.Cfg.Defaults
import AimrtComm.Cfg.InjectDefault
import AimrtComm.Lib.Extend
import AimrtComm.Cfg.Equiv.DefaultKeys
import AimrtComm.Cfg.Equiv.InjectSteps
import AimrtComm.Cfg.Equiv.InjectKeys
import AimrtComm.Lib.Covers
import AimrtComm.Cfg.Equiv.InjectRefs
import AimrtComm.Lib.Keeps
import AimrtComm.Cfg.Deployment
import AimrtComm.Cfg.Equiv.InjectFrame
import AimrtComm.Lib.MultiMap
import AimrtComm.Cfg.ModuleResources
import AimrtComm.Cfg.Equiv.ModuleResources
import AimrtComm.Lib.Transition
import AimrtComm.Lib.Chain
import AimrtComm.Sync.FairLock
import AimrtComm.Sync.Mutex
import AimrtComm.Sync.Equiv.MutexRel
import AimrtComm.Sync.Equiv.Mutex
import AimrtComm.Sync.ConditionVariable
import AimrtComm.Sync.Equiv.ConditionVariable
import AimrtComm.Sync.Barrier
import AimrtComm.Sync.Equiv.Barrier
import AimrtComm.Sync.AtomData
import AimrtComm.Sync.Equiv.AtomData
import AimrtComm.Core.Coroutine
import AimrtComm.Core.Equiv.Coroutine
import AimrtComm.Sync.Any
import AimrtComm.Sync.Equiv.Any
import AimrtComm.Ctx.Loop
import AimrtComm.Ctx.Equiv.Loop
import AimrtComm.Lib.FileTree
import AimrtComm.RecordPlayback.Record
import AimrtComm.RecordPlayback.Equiv.Record
import AimrtComm.Lib.Bytes
import AimrtComm.Database.Wrap
import AimrtComm.Database.Security
import AimrtComm.Database.Equiv.Wrap
import AimrtComm.Database.Equiv.Security
import AimrtComm.Database.Values
import AimrtComm.Lib.Columns
import AimrtComm.Database.Equiv.Values
import AimrtComm.Common.TopicHzCalculator
import AimrtComm.Lib.SlidingWindow
import AimrtComm.Common.Equiv.TopicHzCalculator
import AimrtComm.Lib.Blocks
import AimrtComm.Utils.Uuid
import AimrtComm.Utils.Equiv.Uuid
import AimrtComm.Lib.Regex
import AimrtComm.Minidump.MinidumpManager
import AimrtComm.Minidump.Equiv.DumpName
import AimrtComm.Minidump.Equiv.Pattern
import AimrtComm.Minidump.Equiv.Rotation
import AimrtComm.Minidump.Processes
import AimrtComm.Minidump.Equiv.NoRotation
import AimrtComm.RecordPlayback.Setting
import AimrtComm.RecordPlayback.Equiv.Setting
import AimrtComm.RecordPlayback.Switch
import AimrtComm.RecordPlayback.Equiv.Switch
import AimrtComm.Lib.FirstLast
import AimrtComm.Setting.ConfigManager
import AimrtComm.Setting.Equiv.ConfigManager
import AimrtComm.Cfg.Reflect
import AimrtComm.Cfg.Equiv.Reflect
import AimrtComm.Database.Equiv.Noise
import AimrtComm.Core.Synchronized
import AimrtComm.Core.Equiv.Synchronized
import AimrtComm.Common.Statistics
import AimrtComm.Common.Equiv.Statistics
import AimrtComm.Lib.Owners
import AimrtComm.Core.Context
import AimrtComm.Core.Equiv.Context
import AimrtComm.Setting.Equiv.Files
import AimrtComm.Cfg.Equiv.MergeTag
import AimrtComm.Lib.RepeatedEdits
import AimrtComm.Cfg.Equiv.PatchTwice
import AimrtComm.Cfg.Equiv.TagGrammar
import AimrtComm.Lib.Idempotent
import AimrtComm.Cfg.MergeAimRT
import AimrtComm.Cfg.Equiv.MergeAimRT
import AimrtComm.Cfg.Equiv.MergeOverlay
import AimrtComm.Cfg.DumpFile
import AimrtComm.Cfg.Equiv.DumpFile
import AimrtComm.Lib.NamedFiles
import AimrtComm.Program.AppMode
import AimrtComm.Program.Equiv.AppMode
import AimrtComm.RecordPlayback.Equiv.Metadata
import AimrtComm.RecordPlayback.MainLoop
import AimrtComm.RecordPlayback.ParseCmd
import AimrtComm.RecordPlayback.Equiv.MainLoop
import AimrtComm.RecordPlayback.Equiv.ParseCmd
import AimrtComm.Lib.FormattedInput
import AimrtComm.Monitor.SelfResourceInfo
import AimrtComm.Monitor.Equiv.SelfResourceInfo
import AimrtComm.Lib.BinaryHeap
import AimrtComm.Executor.Worker
import AimrtComm.Executor.Equiv.Worker
import AimrtComm.Executor.TimeWheel
import AimrtComm.Executor.Equiv.TimeWheel
import AimrtComm.Executor.Equiv.Schedule
import AimrtComm.Sync.Equiv.MutexProgress
import AimrtComm.Sync.PlainLock
import AimrtComm.Sync.SpinMutex
import AimrtComm.Sync.Equiv.SpinMutex
import AimrtComm.Sync.Condition
import AimrtComm.Sync.Equiv.Condition
import AimrtComm.Monitor.Equiv.Registry
import AimrtComm.Monitor.Equiv.Heartbeat
