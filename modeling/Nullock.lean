import Nullock.ScopeCompile
import Nullock.OutboundScope
import Nullock.WsInjection
import Nullock.WsVisibility
import Nullock.ChunkedCuts
import Nullock.InterceptShutdown
import Nullock.H2TerminatorRuns
import Nullock.H2ClientResponses
import Nullock.H2Translation
import Nullock.H2Bridge
import Nullock.CookieJarProbes
import Nullock.HarRedaction
import Nullock.WorkspaceSync
import Nullock.OastPolling
import Nullock.TransactionRows
import Nullock.ExtensionHandlers
import Nullock.ControlRuns
import Nullock.IntruderReload
import Nullock.EngagementRuns
import Nullock.RowIds
import Nullock.CookiePaths
import Nullock.CookieLifetimes
import Nullock.CookieInjection
import Nullock.BlocklistRuns
import Nullock.RobotsScan
import Nullock.RedirectOrigins
import Nullock.GeneratorProducts
import Nullock.IntruderEnumeration
import Nullock.InterceptEndings
import Nullock.EditorCodec
import Nullock.RuleGlobs
import Nullock.NucleiKeys
import Nullock.CurlExport
import Nullock.DnsQueries
import Nullock.MarketplaceVersions
import Nullock.CatalogFiles
import Nullock.CveRanges
import Nullock.CspIntersection
import Nullock.CompareExact
import Nullock.Placeholders
import Nullock.XmlReport
import Nullock.TruncatedVersions
import Nullock.IpLiterals
import Nullock.SequencerPacing
import Nullock.CounterDetection
import Nullock.Crawling
import Nullock.AltServices
import Nullock.RepeaterSaving
import Nullock.TemplateEngine
import Nullock.TemplateRequests
import Nullock.MultipartBodies
import Nullock.NotFoundPages
import Nullock.Authorities
import Nullock.H2Events
import Nullock.CertificateOids
import Nullock.BodyRules
import Nullock.SecretContexts
import Nullock.ParamMining
import Nullock.DnsSink
