import Llmctl.RpmSound
import Llmctl.PoolSound
import Llmctl.QuotaSound
import Llmctl.Store.SessionSound
import Llmctl.Store.LocksSound
import Llmctl.TrafficSound
import Llmctl.Traffic.ScopesSound
import Llmctl.Worker.Admission
import Llmctl.Worker.PlanSound
import Llmctl.Worker.RunnerSound
import Llmctl.Worker.SupervisorSound
import Llmctl.Worker.SwapSound
import Llmctl.Cli.ConfigSound
import Llmctl.Net.IpAddr
import Llmctl.Server.BreakerSound
import Llmctl.Server.DrainSound
import Llmctl.Server.PermitSound
import Llmctl.Server.UsageSound
import Llmctl.Server.GateSound
import Llmctl.Server.AdmissionSound
import Llmctl.Server.StreamSound
import Llmctl.Server.AdminSound
import Llmctl.Server.DispatchSound
import Llmctl.Server.NativeSound
import Llmctl.Server.ThrottleSound
import Llmctl.Server.SourceSound
import Llmctl.Server.RecordsSound
import Llmctl.Server.AttributionSound
import Llmctl.Reporting.Summary
import Llmctl.Reporting.KeyUsage
import Llmctl.Reporting.EnvelopeSound
import Llmctl.Native.PromptSound
import Llmctl.Native.DecoderSound
import Llmctl.Native.DeltaSound
import Llmctl.Native.SchedulerSound
import Llmctl.Client.StreamSound
import Llmctl.Policy.LogSound
import Llmctl.Policy.AppendSound
import Llmctl.Cli.KeysSound
import Llmctl.Server.RedactionSound
import Llmctl.Native.LedgerSound
import Llmctl.RoutingSound
import Llmctl.Server.FallbackSound
import Llmctl.Native.GgufSound
import Llmctl.Cli.ReadinessSound
import Llmctl.Model.Footprint
import Llmctl.Model.InstallSound
import Llmctl.Fs.Changes
import Llmctl.Model.DownloadSound
import Llmctl.Traffic.BreakersSound
import Llmctl.Server.PruneSound
import Llmctl.Observability.Sse
import Llmctl.Observability.SseSound
import Llmctl.Server.Sse
import Llmctl.Server.SseSound
import Llmctl.Text.LineEnds
import Llmctl.Observability.LineEndsSound
import Llmctl.Fs.Runs
import Llmctl.Reporting.Envelope
import Llmctl.Observability.Events
import Llmctl.Observability.RedactionSound
import Llmctl.Fs.Copies
import Llmctl.Model.CopySound
import Llmctl.Model.Loader
import Llmctl.Model.LoaderSound
import Llmctl.Model.Links
import Llmctl.Model.Cached
import Llmctl.Model.CacheSound
import Llmctl.Reporting.SummarySound
import Llmctl.Server.Proxies
import Llmctl.Server.ProxiesSound
import Llmctl.Server.WeightsSound
import Llmctl.Worker.PortsSound
import Llmctl.Rag
import Llmctl.RagSound
import Llmctl.Store.Instants
import Llmctl.Store.Times
import Llmctl.Store.TimesSound
import Llmctl.Related
import Llmctl.Reporting.Export
import Llmctl.Reporting.ExportSound
import Llmctl.Store.Connection
import Llmctl.Store.ConnectionSound
import Llmctl.Net.Guards
import Llmctl.Net.GuardsSound
import Llmctl.Native.Checked
import Llmctl.Native.LoadingSound
import Llmctl.Native.ForwardSound
import Llmctl.Reporting.Columnar
import Llmctl.Reporting.ColumnarSound
import Llmctl.Reporting.Months
import Llmctl.Reporting.MonthsSound
import Llmctl.SortedMap
import Llmctl.Worker.PlanDiff
import Llmctl.Worker.PlanDiffSound
import Llmctl.Native.Visibility
import Llmctl.Native.VisibilitySound
import Llmctl.Text.Strings
import Llmctl.Server.OutboundSound
import Llmctl.Model.DigestSound
import Llmctl.Text.Veiled
import Llmctl.Async.Until
import Llmctl.Server.VeiledSound
import Llmctl.Traffic.BalanceSound
import Llmctl.Server.Limits
import Llmctl.Server.HandoverSound
import Llmctl.Server.CapacitySound
import Llmctl.Server.ShutdownSound
import Llmctl.Store.Database
import Llmctl.Store.EventLog
import Llmctl.Store.DatabaseSound
import Llmctl.Store.RetentionSound
import Llmctl.Store.Migrate
import Llmctl.Store.MigrateSound
import Llmctl.Server.Security
import Llmctl.Server.SecuritySound
import Llmctl.Text.Pretty
import Llmctl.Text.Codec
import Llmctl.Model.Profiles
import Llmctl.Model.ProfilesSound
import Llmctl.Server.ContractSound
