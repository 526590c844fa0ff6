import CanSniffer.Retention
import CanSniffer.ServerLoop

namespace CanSniffer.Server

open Library Library.PyJson LatencyPairs Models CorrelatorRuns DiagLogger

end CanSniffer.Server
