import RavBot.Gateway.CommandQueue.Serialization
import RavBot.Gateway.CommandQueue.IndexMap
import RavBot.Gateway.CommandQueue.Responses
import RavBot.Gateway.CommandQueue.Configure
import RavBot.Gateway.Roles
import RavBot.Gateway.Health
import RavBot.Gateway.ActiveRequests
import RavBot.Core.ToolPairing.Revalidation
import RavBot.Core.TurnMessages
import RavBot.Core.TurnEvents
import RavBot.Core.StreamAgreement
import RavBot.Core.CurrentQuestion
import RavBot.Core.VectorSync
import RavBot.Session.ConcurrentSaves
import RavBot.Gateway.AgentRequests
import RavBot.Channels.SessionResolver
import RavBot.Security.ApprovalRuns
import RavBot.Core.HNSWFiles
import RavBot.Plugins.ManifestAgreement
import RavBot.Plugins.PluginRegistry
import RavBot.Core.SubagentChildren
import RavBot.Gateway.DevicePairing
import RavBot.Channels.LaneShutdown
import RavBot.Channels.Deduplication
import RavBot.Tools.NestedPermissions
import RavBot.Tools.FileTools
import RavBot.Providers.Alternation
import RavBot.Providers.EventStreams
import RavBot.Providers.Completions
import RavBot.Core.EmbeddingCache
import RavBot.Tools.Registrations
import RavBot.Plugins.SidecarCalls
import RavBot.Plugins.SidecarLifecycle
import RavBot.Gateway.CommandQueue.Interrupts
import RavBot.Gateway.CommandQueue.Tracking
import RavBot.Security.Allowlist
import RavBot.Security.PathConfinement
import RavBot.Core.Truncation
import RavBot.Gateway.GatewayClient
import RavBot.Providers.ProbeSpacing
import RavBot.Core.OverflowRecovery
import RavBot.Core.TurnBounds
import RavBot.Security.RateQueries
import RavBot.Tools.ChainAccount
import RavBot.Tools.TemplatePass
import RavBot.Core.ToolPairing.Delivery
import RavBot.Security.Unwrapping
import RavBot.Plugins.HookAgreement
import RavBot.Core.FailoverRetry
import RavBot.Gateway.SessionsList
import RavBot.Session.MaintenanceLimits
import RavBot.Channels.TelegramChunks
import RavBot.Security.TrustModel
import RavBot.Security.AuditLog
import RavBot.Session.DiskLimit
import RavBot.Core.MemoryImport
import RavBot.Gateway.OutputSanitizer
import RavBot.Gateway.EmbeddingsEncoding
import RavBot.Security.FoldNormalForm
import RavBot.Core.HybridSearch
import RavBot.Tools.WebFetch
import RavBot.Gateway.CronUpdate
import RavBot.Gateway.SessionsCompact
import RavBot.Core.ConfigValidated
import RavBot.Core.ConfigEdits
import RavBot.Gateway.CommandQueue.Progress
import RavBot.Gateway.RouteManager
