import OpenMasu.KeyedSort
import OpenMasu.InsertionMap
import OpenMasu.PartialList
import OpenMasu.Canonical
import OpenMasu.Instant
import OpenMasu.Contract
import OpenMasu.EvaluatorInput
import OpenMasu.CandidateOrder
import OpenMasu.Decision
import OpenMasu.IngestionOutput
import OpenMasu.InputChecks
import OpenMasu.Attribution
import OpenMasu.FraudRules
import OpenMasu.FraudStage
import OpenMasu.MetricRuns
import OpenMasu.Reconciliation
import OpenMasu.Evaluate
import OpenMasu.DecisionFacts
import OpenMasu.LogicalIdempotency
import OpenMasu.ScopeRestriction
import OpenMasu.TenantIsolation
import OpenMasu.SdkWorker
import OpenMasu.ConsentWithdrawal
import OpenMasu.DeepLinkGuard
import OpenMasu.CandidateIndex
import OpenMasu.WatermarkStability
import OpenMasu.ReorderInvariance
import OpenMasu.ImportRetry
import OpenMasu.FraudExclusion
import OpenMasu.SignedEvidence
import OpenMasu.PrivacyAtomicity
import OpenMasu.PrivacyReapply
import OpenMasu.PrivacyErasure
import OpenMasu.PrivacyMetrics
import OpenMasu.MetricChain
import OpenMasu.InstallationDeletion
import OpenMasu.SdkRequestAuth
import OpenMasu.RuleBundles
import OpenMasu.SourceDayWorker
import OpenMasu.SourceDayIdempotence
import OpenMasu.DerivedRows
import OpenMasu.AttributionChains
import OpenMasu.QuarantineLifecycle
import OpenMasu.AttributionWindow
import OpenMasu.CohortAdditivity
import OpenMasu.AndroidInstall
import OpenMasu.ClickIngestibility
import OpenMasu.InstallIngestibility
import OpenMasu.ReferrerRoundTrip
import OpenMasu.AndroidInstalls
import OpenMasu.CostImport
import OpenMasu.CsvRoundTrip
import OpenMasu.DerivedIdentifiers
import OpenMasu.EvidenceLifecycle
import OpenMasu.ReferrerBudget
import OpenMasu.JsonPaths
import OpenMasu.MappingRules
import OpenMasu.JsHeap
import OpenMasu.MappingHeap
import OpenMasu.MappingTraces
import OpenMasu.RowIndependence
import OpenMasu.CreditMeter
import OpenMasu.HalfEvenRounding
import OpenMasu.KeysetPaging
import OpenMasu.MaxRevenue
import OpenMasu.PayloadStore
import OpenMasu.RateLimit
import OpenMasu.ReconciliationOrder
import OpenMasu.ReportPaging
import OpenMasu.SdkArguments
import OpenMasu.SignatureCoverage
import OpenMasu.AcquisitionIndependence
import OpenMasu.Traces
import OpenMasu.PathPatterns
import OpenMasu.ApiRoutes
import OpenMasu.AdminAuth
import OpenMasu.AdminKeys
import OpenMasu.AdminAccess
import OpenMasu.Migrations
import OpenMasu.InstallationFacts
import OpenMasu.DerivedInstalls
import OpenMasu.FraudDeadlines
import OpenMasu.BundleCalls
