import Taskman.Metering.Ledger
import Taskman.Core.AppHistory
import Taskman.Core.AppHistory.Credit
import Taskman.Core.AppHistory.Merge
import Taskman.LTS.Machine
import Taskman.Core.AppHistory.Load
import Taskman.Core.StartupImpact
import Taskman.Core.Engine
import Taskman.Core.Engine.Park
import Taskman.Platform.Broker.Telemetry
import Taskman.LTS.Handles
import Taskman.Platform.Hotkey.Hook
import Taskman.Platform.Hotkey.Chain
import Taskman.Platform.Hotkey.Pairing
import Taskman.LTS.Program
import Taskman.Platform.Broker.Dispatch
import Taskman.Numeric.F32
import Taskman.Core.Ini
import Taskman.Binary.Bytes
import Taskman.Core.Engine.Sampling
import Taskman.Metering.Total
import Taskman.Platform.Etw
import Taskman.Platform.Etw.Disk
import Taskman.Platform.CpuLoad
import Taskman.Platform.Etw.Modules
import Taskman.Platform.Etw.Profile
import Taskman.Binary.Checked
import Taskman.Installer.Payload
import Taskman.Numeric.Ranges
import Taskman.Installer.Payload.Reader
import Taskman.Installer.Payload.RoundTrip
import Taskman.Binary.Codec
import Taskman.Installer.Payload.Extract
import Taskman.Core.Settings
import Taskman.Core.Settings.Loaded
import Taskman.Core.Settings.Preferences
import Taskman.Core.Settings.Reread
import Taskman.Core.Settings.Stable
import Taskman.Binary.Reader
import Taskman.Platform.Broker.Frame
import Taskman.Platform.Broker.Response
import Taskman.Core.AppHistory.Writer
import Taskman.Core.Settings.Writer
import Taskman.LTS.Fair
import Taskman.Platform.Broker.Accept
import Taskman.Platform.Broker.Actions
import Taskman.Core.Classify
import Taskman.Core.GroupLoad
import Taskman.App.Processes.Rows
import Taskman.Collections.Worklist
import Taskman.Collections.Multimap
import Taskman.App.Processes.Grouping
import Taskman.App.Processes.Blocks
import Taskman.Collections.Forest
import Taskman.App.Processes.Tree
import Taskman.App.Processes.Families
import Taskman.App.Processes.Order
import Taskman.App.Processes.Selection
import Taskman.App.Processes.Expansion
import Taskman.Platform.Sampler.Disk
import Taskman.Platform.Sampler.Carry
import Taskman.Platform.Sampler.Network
import Taskman.Platform.Sampler.Pseudo
import Taskman.Platform.CpuLoad.Accountant
import Taskman.Platform.Sampler.Rows
import Taskman.Platform.Gpu.Adapters
import Taskman.Platform.Gpu.Processes
import Taskman.Platform.Gpu.Within
import Taskman.Collections.Breadth
import Taskman.Platform.ProcessOps.Tree
import Taskman.Collections.Collapse
import Taskman.Platform.ProcessOps.Kill
import Taskman.App.Details.Columns
import Taskman.App.Details.Rows
import Taskman.Collections.StandIns
import Taskman.App.Details.Tree
import Taskman.App.Details.Kept
import Taskman.App.Details.Order
import Taskman.App.Details.Collapse
import Taskman.App.Details.State
import Taskman.Platform.Instance.Handshake
import Taskman.Platform.Relaunch
import Taskman.Collections.FoldMap
import Taskman.Platform.Startup.Registry
import Taskman.Platform.Startup.Item
import Taskman.Platform.Startup.Windows
import Taskman.Platform.Startup.Agreement
import Taskman.Platform.TaskmgrReplacement
import Taskman.Platform.Startup.DesktopFile
import Taskman.Platform.Startup.Autostart
import Taskman.Platform.Startup.AutostartToggle
import Taskman.App.Rules.Apply
import Taskman.App.Rules.Once
import Taskman.App.Services
import Taskman.App.Startup
import Taskman.App.Tray
import Taskman.Core.Logging
import Taskman.Platform.Etw.Sessions
import Taskman.Platform.PerfCounters
import Taskman.Platform.Etw.Hosted
import Taskman.App.IconCache
import Taskman.Installer.Uninstall
import Taskman.Geometry.Polygon
import Taskman.Egui.Target
import Taskman.Egui.Raster
import Taskman.Egui.Raster.Loops
import Taskman.Egui.Raster.Coverage
import Taskman.Egui.Raster.Watertight
import Taskman.Egui.Span
import Taskman.Egui.Span.Blend
import Taskman.Egui.Span.Regions
import Taskman.Egui.Span.Agreement
import Taskman.Platform.PerfCounters.Freshness
import Taskman.Core.Format
import Taskman.Core.AppHistory.Totals
import Taskman.Core.Settings.Rules
import Taskman.Binary.Within
import Taskman.Platform.CpuLoad.Table
import Taskman.Platform.CpuLoad.Chain
import Taskman.Platform.CpuLoad.Cores
import Taskman.Collections.Tally
import Taskman.Platform.Etw.ModuleSamples
import Taskman.App.Processes.Windows
import Taskman.Platform.Broker.ThreadMerge
import Taskman.Collections.Summary
import Taskman.App.Processes.Groups
import Taskman.App.Selection
import Taskman.Core.GroupLoad.Aggregate
import Taskman.LTS.Since
import Taskman.Platform.Sampler.NotResponding
import Taskman.Platform.Sampler.WindowsOwned
import Taskman.Platform.Startup.DesktopEdit
import Taskman.Platform.CpuInfo
import Taskman.Binary.Parts
import Taskman.Platform.ProcessThreads
import Taskman.Platform.MemoryInfo.Records
import Taskman.Platform.MemoryInfo.Modules
import Taskman.App.ScrollAnchor
import Taskman.App.Details.Found
import Taskman.App.Threads.Idle
import Taskman.App.Modules
import Taskman.App.Processes.Partition
import Taskman.App.AppHistory
import Taskman.App.Modules.Unload
import Taskman.App.Threads.History
import Taskman.Numeric.Ladder
import Taskman.Core.RateScale
import Taskman.App.Performance.History
import Taskman.App.Performance.Readout
import Taskman.Collections.Fill
import Taskman.Core.I18n
import Taskman.Egui.Blit
import Taskman.Egui.Blit.Inside
import Taskman.Platform.PerfCounters.Instance
