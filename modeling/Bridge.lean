import Bridge.Distributed.Stranding
import Bridge.Breaker.Probes
import Bridge.Cache.Refinement
import Bridge.Cache.TagIndex
import Bridge.Cache.TaskCache
import Bridge.Plugins.Interleaved
import Bridge.UseCases.Overlap
import Bridge.Plugins.Protocol
import Bridge.Plugins.Registry
import Bridge.Distributed.KeyText
import Bridge.Contexts.Search
import Bridge.Breaker.Sequential
import Bridge.Retry.Schedule
import Bridge.UseCases.CreateTask
import Bridge.Web.MetricsRoute
import Bridge.Web.HistoryExport
import Bridge.Web.ConfigRoute
import Bridge.Web.EnvUpdate
import Bridge.Compression.Acceptance
import Bridge.Contexts.Decompression
import Bridge.Adapters.OpenAI
import Bridge.UseCases.Outcome
import Bridge.UseCases.CompareResults
import Bridge.Results.Confidence
import Bridge.Results.Combination
import Bridge.Results.Consensus
import Bridge.Domain.TemplateValidation
import Bridge.Domain.Rendering
import Bridge.Compression.EmbeddingCache
import Bridge.Cache.Expiry
import Bridge.Domain.RoutingSafety
import Bridge.UseCases.Iterations
import Bridge.Learning.Figures
import Bridge.Learning.Suggestion
import Bridge.Learning.Insights
import Bridge.WebSocket.ResponseTimes
import Bridge.Learning.Backups
import Bridge.Learning.CsvExport
import Bridge.Distributed.Rebalance
import Bridge.Plugins.Validator
import Bridge.Orchestration.Validation
import Bridge.Orchestration.Consensus
import Bridge.Contexts.Similarity
import Bridge.Repositories.Results
import Bridge.Compression.Extractive
import Bridge.Plugins.Exposure
import Bridge.Plugins.TaskTemplates
