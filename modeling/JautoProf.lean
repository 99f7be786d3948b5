import JautoProf.ClientReads
import JautoProf.DeployedCalls
import JautoProf.HashTabMap
import JautoProf.InstrumentIds
import JautoProf.Interleavings
import JautoProf.ProfilerRegistry
import JautoProf.PackedRequests
import JautoProf.StaleReads
import JautoProf.VarBinds
import JautoProf.UserIf
import JautoProf.ClientResponses
import JautoProf.EventLoop
import JautoProf.EvQueue
import JautoProf.FailedRequests
import JautoProf.Deinstrumented
import JautoProf.Suspensions
import JautoProf.ClassFile
import JautoProf.Transformed
import JautoProf.MethodInstrumenting
import JautoProf.CallCounts
import JautoProf.ProbeNames
import JautoProf.AcceptedClasses
import JautoProf.DeferredAttempts
import JautoProf.CallTotals
import JautoProf.Collector
import JautoProf.PauseCalls
import JautoProf.HashTabLoad
import JautoProf.SendRequest
import JautoProf.Resends
import JautoProf.ListedStrings
import JautoProf.LoadedClasses
import JautoProf.StatSummary
import JautoProf.ProfEnv
import JautoProf.TimeUtil
import JautoProf.JniProfiler
import JautoProf.Log
import JautoProf.ShutdownEnds
import JautoProf.CarriedOut
import JautoProf.SummaryAccounts
import JautoProf.ConnectionsApart
import JautoProf.JniSession
