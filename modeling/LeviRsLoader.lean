import LeviRsLoader.Lib.Runs
import LeviRsLoader.Lib.Interleave
import LeviRsLoader.Lib.Nesting
import LeviRsLoader.Lib.Dispatch
import LeviRsLoader.Lib.Tables
import LeviRsLoader.Lib.Search
import LeviRsLoader.Lib.WinPath
import LeviRsLoader.Lib.Utf8
import LeviRsLoader.Lib.Decimal
import LeviRsLoader.RustMod
import LeviRsLoader.ChunkKeys
import LeviRsLoader.KvDb
import LeviRsLoader.Bus
import LeviRsLoader.BusDispatch
import LeviRsLoader.Commands
import LeviRsLoader.CommandRuns
import LeviRsLoader.PacketHooks
import LeviRsLoader.HookEvents
import LeviRsLoader.Scheduler
import LeviRsLoader.Services
import LeviRsLoader.FormRuns
import LeviRsLoader.Money
import LeviRsLoader.Events
import LeviRsLoader.Loader
import LeviRsLoader.Registrations
import LeviRsLoader.Load
import LeviRsLoader.SnapshotDispatch
import LeviRsLoader.Lane
import LeviRsLoader.LaneProtocol
import LeviRsLoader.LaneAccount
import LeviRsLoader.Lifecycle
import LeviRsLoader.Unload
import LeviRsLoader.LaneCalls
import LeviRsLoader.LaneTables
import LeviRsLoader.CallProtection
import LeviRsLoader.DimensionLedger
import LeviRsLoader.DimensionIds
import LeviRsLoader.PlotLayout
import LeviRsLoader.PlotGenerator
import LeviRsLoader.PlotConfine
import LeviRsLoader.SchedulerRuns
import LeviRsLoader.Lib.Leb128
import LeviRsLoader.PacketHeader
import LeviRsLoader.PacketDispatch
import LeviRsLoader.Lib.Merge
import LeviRsLoader.Lib.Infix
import LeviRsLoader.EventWriteBack
import LeviRsLoader.Nbt.Value
import LeviRsLoader.Nbt.Parser
import LeviRsLoader.Nbt.Reading
import LeviRsLoader.Nbt.RoundTrip
import LeviRsLoader.Nbt.Literal
import LeviRsLoader.HookCancel
import LeviRsLoader.HookPayload
import LeviRsLoader.Handlers
import LeviRsLoader.HandlerRuns
import LeviRsLoader.DimensionFailure
import LeviRsLoader.Lib.Closure
import LeviRsLoader.Lib.Kahn
import LeviRsLoader.Dependents
import LeviRsLoader.ModControl
import LeviRsLoader.ModCascade
import LeviRsLoader.ModControlRuns
import LeviRsLoader.RustModManager
import LeviRsLoader.TickControl
import LeviRsLoader.CommandForms
import LeviRsLoader.FormReading
import LeviRsLoader.MoneyGuards
import LeviRsLoader.Lib.Packing
import LeviRsLoader.DimensionRules
import LeviRsLoader.HookPositions
import LeviRsLoader.Projectile
import LeviRsLoader.DecisionThrottle
import LeviRsLoader.PlotBuffer
import LeviRsLoader.PlotGroups
import LeviRsLoader.ServiceRuns
import LeviRsLoader.CommandArguments
import LeviRsLoader.Lib.Json
import LeviRsLoader.ServiceListing
import LeviRsLoader.EventIds
import LeviRsLoader.Fill
import LeviRsLoader.ChunksLoaded
import LeviRsLoader.PlotSeams
import LeviRsLoader.Pistons
import LeviRsLoader.TickAccounts
import LeviRsLoader.Nbt.Quoted
import LeviRsLoader.Nbt.Safety
import LeviRsLoader.Nbt.Written
import LeviRsLoader.Nbt.Grammar
import LeviRsLoader.Nbt.Integers
import LeviRsLoader.Lib.Rounding
import LeviRsLoader.Sliders
import LeviRsLoader.PlotNbt
import LeviRsLoader.NativeTexts
import LeviRsLoader.Profiler
import LeviRsLoader.Lib.Spans
import LeviRsLoader.ProfilerNesting
import LeviRsLoader.PlotEntities
import LeviRsLoader.RuleHooks
import LeviRsLoader.DimensionBoots
import LeviRsLoader.DimensionListing
import LeviRsLoader.DimensionNames
import LeviRsLoader.ModSlots
import LeviRsLoader.ModSlotRuns
import LeviRsLoader.RegionScan
import LeviRsLoader.StructureListing
import LeviRsLoader.BiomeFill
import LeviRsLoader.GameModes
import LeviRsLoader.NativeDimensions
import LeviRsLoader.Sidebar
import LeviRsLoader.CommandEvents
import LeviRsLoader.Lib.Fnv
import LeviRsLoader.LaneFingerprints
import LeviRsLoader.LaneListing
