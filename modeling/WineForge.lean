import WineForge.WfuSync.MutexHistory
import WineForge.WfuSync.EventSignal
import WineForge.WfuSync.WaitAllAtomic
import WineForge.WfuSync.TryWaitAll
import WineForge.FileLocks.UnixMirror
import WineForge.NamedPipes.Delivery
import WineForge.ThreadInput.State
import WineForge.SrwLocks.Handoff
import WineForge.CriticalSections.OneOwner
import WineForge.AddressWaits.Delivery
import WineForge.InprocSync.Cache
import WineForge.KeyedEvents.Blocking
import WineForge.Locale.Resync
import WineForge.Memory.ReservedAreas
import WineForge.Memory.AreaMap
import WineForge.ThreadpoolIo.IoCompletions
import WineForge.Locale.Upcase
import WineForge.Locale.ComposeString
import WineForge.Locale.IdnSafety
import WineForge.WfuSync.Timeouts
import WineForge.WfuSync.SemaphoreCounts
import WineForge.WfuSync.RefCounts
import WineForge.WfuSync.SignalIndex
import WineForge.WfuSync.AbandonMutexes
import WineForge.WfuSync.PulseEvent
import WineForge.DirectoryChanges.Reports
import WineForge.TimerQueues.Shutdown
import WineForge.ThreadpoolTimers.Windows
import WineForge.Paths.CollapsedPath
import WineForge.Views.FreeMemory
import WineForge.Regions.Queries
import WineForge.Regions.Mirroring
import WineForge.Regions.DpiScaling
import WineForge.Security.AccessDecision
import WineForge.Security.DescriptorBounds
import WineForge.Bitmaps.RunSeries
import WineForge.Registry.SortedMaps
import WineForge.Handles.Duplicates
import WineForge.Timeouts.Runs
import WineForge.KeyTree.Runs
import WineForge.Ptids.Runs
import WineForge.Mappings.CommittedRanges
import WineForge.Mappings.AddressRuns
import WineForge.Bitmaps.FindBits
import WineForge.Barriers.Rounds
import WineForge.Patches.Thunks
import WineForge.Resources.Exclusion
import WineForge.VersionResource.Bounds
import WineForge.NamedPipes.Transceive
import WineForge.ThreadInput.Hotkeys
import WineForge.Atoms.Properties
import WineForge.ThreadInput.Timers
import WineForge.Launcher.Arguments
import WineForge.Views.RangeSize
import WineForge.UserHandles.Owners
import WineForge.Windows.PaintCounts
import WineForge.Windows.VisibleRegion
