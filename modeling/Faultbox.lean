import Faultbox.AlwaysWindow
import Faultbox.ExpectationReuse
import Faultbox.FanOutSize
import Faultbox.StaticCount
import Faultbox.PlanTotals
import Faultbox.Suite
import Faultbox.PathFilters
import Faultbox.ZeroTraffic
import Faultbox.FaultWindows
import Faultbox.FaultScenarios
import Faultbox.SeccompFilter
import Faultbox.Causality
import Faultbox.AwaitEvent
import Faultbox.EventQueries
import Faultbox.PacketScope
import Faultbox.FaultOrder
import Faultbox.CallCausality
import Faultbox.FaultMatrix
import Faultbox.AddrRewrites
import Faultbox.ExploreHold
import Faultbox.StdoutObserve
import Faultbox.Permutations
import Faultbox.NatsRelay
import Faultbox.AmqpRelay
import Faultbox.PostgresRelay
import Faultbox.RedisRelay
import Faultbox.TcpRelay
import Faultbox.GrpcRelay
import Faultbox.OpenApiRoutes
import Faultbox.SqlMatch
import Faultbox.ProxyMatching
import Faultbox.GoSlice
import Faultbox.HoldQueue
import Faultbox.ReleaseOrder
import Faultbox.HoldWait
import Faultbox.VirtualTime
import Faultbox.LaunchFilter
import Faultbox.RuleText
import Faultbox.DepthFirst
import Faultbox.DirectCauses
import Faultbox.Shaper
import Faultbox.GatewayAddrs
import Faultbox.PacketTriggers
import Faultbox.Blanks
import Faultbox.SqlLayout
import Faultbox.SqlLiterals
import Faultbox.SqlGlobs
import Faultbox.InternetChecksum
import Faultbox.Corruption
import Faultbox.KafkaFrames
import Faultbox.TailSource
import Faultbox.Vacuity
import Faultbox.FaultHits
import Faultbox.TraceNoise
import Faultbox.WatchScopes
import Faultbox.KafkaRelay
import Faultbox.ConnOwner
import Faultbox.KafkaWait
import Faultbox.ShiViz
import Faultbox.RouteGlobs
import Faultbox.SchemaSynthesis
import Faultbox.CassandraRelay
import Faultbox.ClientHeaders
import Faultbox.MongoParsing
import Faultbox.MemcachedRelay
import Faultbox.MysqlHandshake
import Faultbox.OperationTable
import Faultbox.StartOrder
import Faultbox.ComposeImport
import Faultbox.ComposeSpec
import Faultbox.FaultSpecs
import Faultbox.CanonicalNames
import Faultbox.FlowIdentity
import Faultbox.Verdicts
