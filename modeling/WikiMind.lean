import WikiMind.Accounts.Deletion
import WikiMind.Billing.ActivePlan
import WikiMind.Billing.Expiry
import WikiMind.Compile.Prompt
import WikiMind.Compile.Provenance
import WikiMind.Concepts.Pages
import WikiMind.Ingest.Concurrent
import WikiMind.Jobs.Sweep
import WikiMind.Lint.Enforcer
import WikiMind.Llm.PlanRouting
import WikiMind.Qa.Isolation
import WikiMind.Qa.Turns
import WikiMind.Quota.QueryQuota
import WikiMind.Quota.Storage
import WikiMind.Search.Facets
import WikiMind.Search.Index
import WikiMind.Wiki.Edits
import WikiMind.Wiki.Paths
import WikiMind.Wiki.Taxonomy
import WikiMind.Lint.PairCache
import WikiMind.Lint.Lifecycle
import WikiMind.Lint.AutoRecompile
import WikiMind.Lint.Triggers
import WikiMind.Mcp.SingleUse
import WikiMind.Mcp.Verifiers
import WikiMind.Export.SafeHtml
import WikiMind.Export.Lossless
import WikiMind.Export.Nesting
import WikiMind.Export.LinkSchemes
import WikiMind.Storage.KeptFiles
import WikiMind.Base.Transaction
import WikiMind.Qa.Requests
import WikiMind.Qa.Atomicity
import WikiMind.Llm.Costs
import WikiMind.Jobs.OrphanPages
import WikiMind.Ingest.DeleteSource
import WikiMind.Ingest.Chunks
import WikiMind.Ingest.Documents
import WikiMind.Ingest.Spans
import WikiMind.Ingest.Captures
import WikiMind.Ingest.CaptureLifecycle
import WikiMind.Base.LocalTime
import WikiMind.Ingest.BrowserHistory
import WikiMind.Llm.Restarts
import WikiMind.Llm.ConnectionTests
import WikiMind.Compile.Schemas
import WikiMind.Base.Frame
import WikiMind.Lint.LegacyResolution
import WikiMind.Llm.Fallback
import WikiMind.Llm.OwnKeys
import WikiMind.Llm.Completions
import WikiMind.Llm.Streams
import WikiMind.Llm.BudgetCheck
import WikiMind.Llm.BudgetReached
import WikiMind.Llm.BudgetOnce
import WikiMind.Compile.Guidance
import WikiMind.Compile.Discussion
import WikiMind.Base.FirstByKey
import WikiMind.Compile.Resolver
import WikiMind.Compile.RelationTypes
import WikiMind.Compile.GuidanceTags
import WikiMind.Qa.PriorTurns
import WikiMind.Compile.ResolvedBacklinks
import WikiMind.Wiki.Wikilinks
import WikiMind.Storage.ArticleFiles
import WikiMind.Compile.Claims
import WikiMind.Wiki.ConceptSlugs
import WikiMind.Llm.Responses
import WikiMind.Lint.Answers
import WikiMind.Lint.Dismissals
import WikiMind.Lint.Groups
import WikiMind.Lint.Fingerprints
import WikiMind.Compile.Responses
import WikiMind.Concepts.Isolation
import WikiMind.Qa.AutoFiling
import WikiMind.Ingest.SpanImages
import WikiMind.Ingest.SpanRanges
import WikiMind.Qa.StreamedAnswers
import WikiMind.Qa.Headings
import WikiMind.Ingest.PageDescriptions
import WikiMind.Search.ArticleChunks
import WikiMind.Llm.RawControls
import WikiMind.Mcp.Redirects
import WikiMind.Accounts.MagicLink
import WikiMind.Search.SavedSearches
import WikiMind.Compile.TitleKeys
import WikiMind.Lint.Progress
import WikiMind.Storage.JsonRepair
import WikiMind.Ingest.RssFeeds
import WikiMind.Jobs.Broadcasts
import WikiMind.Wiki.Synthesis
import WikiMind.Ingest.Adapters
import WikiMind.Wiki.ShareLinks
import WikiMind.Accounts.OAuthState
import WikiMind.Accounts.Identities
import WikiMind.Billing.Deliveries
import WikiMind.Wiki.PublicPage
import WikiMind.Lint.StaleSpans
import WikiMind.Wiki.Suggestions
import WikiMind.Lint.Orphans
