import LibCollector.Misc.Run
import LibCollector.Misc.OrdMap
import LibCollector.Misc.Text
import LibCollector.Misc.Repeats
import LibCollector.Layer.Frames
import LibCollector.Ferret.ParseStat
import LibCollector.Ferret.Collector
import LibCollector.Ferret.Calls
import LibCollector.Ferret.Lifecycle
import LibCollector.Ferret.Status
import LibCollector.Ferret.Threads
import LibCollector.Ferret.Exit
import LibCollector.Ferret.Reader
import LibCollector.Ferret.Trace
import LibCollector.Ferret.ReadTrace
import LibCollector.Ferret.KernelData
import LibCollector.Ferret.RoundTrip
import LibCollector.Interface.Value
import LibCollector.Interface.Collector
import LibCollector.Interface.Sysfs
import LibCollector.Interface.Collection
import LibCollector.Interface.History
import LibCollector.Interface.Initialize
import LibCollector.Interface.Walk
import LibCollector.Interface.Recording
import LibCollector.Interface.RunIndependence
import LibCollector.Interface.Alignment
import LibCollector.Interface.Threading
import LibCollector.Interface.Registry
import LibCollector.Interface.Writers
import LibCollector.Misc.Grow
import LibCollector.Perf.EventContext
import LibCollector.Perf.ScopeCounts
import LibCollector.Perf.Collector
import LibCollector.Perf.Scopes
import LibCollector.Misc.Overlay
import LibCollector.Perf.Aggregate
import LibCollector.Perf.Postprocess
import LibCollector.Perf.ThreadRun
import LibCollector.Perf.Runs
import LibCollector.Misc.Codec
import LibCollector.Misc.Leb128
import LibCollector.Misc.Ring
import LibCollector.Streamline.Buffer
import LibCollector.Streamline.Annotate
import LibCollector.Streamline.Wire
import LibCollector.Streamline.Reserve
import LibCollector.Streamline.Sender
import LibCollector.Ferret.Python
import LibCollector.Ferret.PythonTrace
import LibCollector.Ferret.Accounts
import LibCollector.Ferret.Histories
import LibCollector.Ferret.Agreement
import LibCollector.Ferret.Conservation
import LibCollector.Collectors.ProcfsStat
import LibCollector.Ferret.ScanBounds
import LibCollector.Collectors.StatParsers
import LibCollector.Collectors.CpuFreq
import LibCollector.Collectors.OwnCycles
import LibCollector.Interface.CsvRange
import LibCollector.Interface.Resampling
import LibCollector.Interface.Summaries
import LibCollector.Streamline.GatorSend
import LibCollector.Layer.Handles
import LibCollector.Ferret.MainThread
import LibCollector.Ferret.OutputDir
import LibCollector.Ferret.PythonTable
import LibCollector.Misc.Json
import LibCollector.Perf.Events
import LibCollector.Perf.Groups
import LibCollector.Power.Config
import LibCollector.Power.Receive
import LibCollector.Ferret.Discovery
import LibCollector.Collectors.CpuFreqAverages
import LibCollector.Ferret.Descriptors
import LibCollector.Power.Frames
import LibCollector.Collectors.CpuFreqFiles
import LibCollector.Collectors.CpuTemp
import LibCollector.Collectors.CpuTempLines
import LibCollector.Collectors.CpuTimeTotals
import LibCollector.Collectors.Keyword
import LibCollector.Layer.ResultFile
import LibCollector.Mali.Counters
import LibCollector.Misc.Chain
import LibCollector.Streamline.Flush
import LibCollector.Streamline.Sweep
import LibCollector.Ferret.Convert
import LibCollector.Ferret.Monitor
import LibCollector.Streamline.Definitions
import LibCollector.Mali.Sampling
import LibCollector.Power.Connection
import LibCollector.Power.Conversation
import LibCollector.Streamline.FlushProgress
import LibCollector.Interface.StopAgain
import LibCollector.Layer.FrameCalls
import LibCollector.Layer.Recording
import LibCollector.Layer.Survival
