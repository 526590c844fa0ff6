import CanSniffer.Library.Binary64
import CanSniffer.Library.WhileLoop
import CanSniffer.Library.Newest
import CanSniffer.Library.Deque
import CanSniffer.Library.Trace
import CanSniffer.Library.RingSlots
import CanSniffer.Library.WindowMatch
import CanSniffer.Library.OneToOne
import CanSniffer.Library.SlidingWindow
import CanSniffer.Library.WrapCounter
import CanSniffer.Library.ByteRegion
import CanSniffer.Library.PyText
import CanSniffer.Library.GatedBuffer
import CanSniffer.Library.ForLoop
import CanSniffer.Library.Exchange
import CanSniffer.Library.XmlTags
import CanSniffer.Library.XmlReader
import CanSniffer.Library.PyJson
import CanSniffer.Library.PyDict
import CanSniffer.Models
import CanSniffer.Firmware
import CanSniffer.PruShm
import CanSniffer.RingHistory
import CanSniffer.DrainProgress
import CanSniffer.RingOverrun
import CanSniffer.Recalibration
import CanSniffer.RingProtocol
import CanSniffer.Correlator
import CanSniffer.CorrelatorRuns
import CanSniffer.FrameConservation
import CanSniffer.MatchSoundness
import CanSniffer.Confluence
import CanSniffer.CorrelationReference
import CanSniffer.MatcherOptimality
import CanSniffer.DiagLogger
import CanSniffer.FlushFailure
import CanSniffer.ConcurrentFlush
import CanSniffer.SequentialFlush
import CanSniffer.PartialFrameDetector
import CanSniffer.IngestLoop
import CanSniffer.AbortAgreement
import CanSniffer.Pipeline
import CanSniffer.SofAttribution
import CanSniffer.IepTime
import CanSniffer.SofCapture
import CanSniffer.SofPolls
import CanSniffer.ShmLayout
import CanSniffer.AlertManager
import CanSniffer.AlertRateLimit
import CanSniffer.TriggerCapture
import CanSniffer.CaptureRuns
import CanSniffer.CaptureCollection
import CanSniffer.CaptureContiguity
import CanSniffer.TriggerStates
import CanSniffer.TriggerStamp
import CanSniffer.LatencyPairs
import CanSniffer.LatencyMonitor
import CanSniffer.LatencySamples
import CanSniffer.LatencyFrames
import CanSniffer.LatencyExchange
import CanSniffer.LatencySoundness
import CanSniffer.StaleRequests
import CanSniffer.PairIndependence
import CanSniffer.SequenceExport
import CanSniffer.SequenceAgreement
import CanSniffer.SequenceSvg
import CanSniffer.LabelMarkup
import CanSniffer.PairUpdates
import CanSniffer.IngestSafety
import CanSniffer.FrameStore
import CanSniffer.DashboardPage
import CanSniffer.Reconnect
import CanSniffer.ErrorTrigger
import CanSniffer.SignalQualityMonitor
import CanSniffer.ErrorDecoder
import CanSniffer.BehavioralMonitor
import CanSniffer.MonitorRuns
import CanSniffer.MonitorSafety
import CanSniffer.Babbling
import CanSniffer.DiagnosticsAggregator
import CanSniffer.AggregatorRuns
import CanSniffer.ErrorRate
import CanSniffer.AlertVisibility
import CanSniffer.AlertClearing
import CanSniffer.TimingStats
import CanSniffer.IdentityMixing
import CanSniffer.ResetStats
import CanSniffer.BusLoadMonitor
import CanSniffer.BusLoadRuns
import CanSniffer.BusLoadSilence
import CanSniffer.Graphs
import CanSniffer.GraphRuns
import CanSniffer.GraphAxis
import CanSniffer.SignalClassification
import CanSniffer.DbcConformance
import CanSniffer.ErrorClasses
import CanSniffer.Library.PyStruct
import CanSniffer.SocketCanReader
import CanSniffer.FrameParsing
import CanSniffer.BatchReads
import CanSniffer.Library.Statistics
import CanSniffer.IntervalStatistics
import CanSniffer.PlotTimes
import CanSniffer.HeatmapColumns
import CanSniffer.Annotations
import CanSniffer.FaultInjector
import CanSniffer.FaultCommands
import CanSniffer.FaultCounter
import CanSniffer.BusRelease
import CanSniffer.StaleFlush
import CanSniffer.Captures
import CanSniffer.Server
import CanSniffer.ServerRuns
import CanSniffer.ServerLoop
import CanSniffer.ServerDiagnostics
import CanSniffer.CaptureRows
import CanSniffer.Retention
import CanSniffer.StoredFrames
import CanSniffer.Polling
import CanSniffer.PageView
import CanSniffer.LivePage
import CanSniffer.Library.CircularArray
import CanSniffer.FrameTable
import CanSniffer.Library.SmallestKeys
import CanSniffer.HeatmapIds
import CanSniffer.Library.Binning
import CanSniffer.Histogram
import CanSniffer.Library.Trimmed
import CanSniffer.Dashboard
import CanSniffer.CaptureDiagram
import CanSniffer.Library.Painting
import CanSniffer.Library.PixelAxis
import CanSniffer.HeatmapPainting
import CanSniffer.Sniffer
import CanSniffer.RaisedAlerts
import CanSniffer.Silence
