import Cuac.Admission.Fairness
import Cuac.Cache.Sharing
import Cuac.Cache.StaleBarrier
import Cuac.Lib.Escape
import Cuac.Lib.Fields
import Cuac.Connector.Value
import Cuac.Lib.Calendar
import Cuac.Lib.Overflow
import Cuac.Lib.Utf8
import Cuac.Lib.Json
import Cuac.Connector.Timestamptz
import Cuac.Connector.TimestamptzParser
import Cuac.Connector.TimestamptzSpelling
import Cuac.Connector.Catalog
import Cuac.Query.ScanRequest
import Cuac.Semantics.PlannedOperation
import Cuac.Semantics.InputResolution
import Cuac.Semantics.PredicateClassifier
import Cuac.Lib.Kleene
import Cuac.Predicate.Soundness
import Cuac.Connector.Declaration
import Cuac.Lib.Champion
import Cuac.Semantics.OperationSelection
import Cuac.Semantics.SelectionLaws
import Cuac.Lib.Shedding
import Cuac.Cache.Residency
import Cuac.Runtime.ScanResourceAccounting
import Cuac.Runtime.ResourceLedger
import Cuac.Lib.Lexing
import Cuac.Runtime.ChunkDecoder
import Cuac.Runtime.ChunkFraming
import Cuac.Lib.Keyed
import Cuac.Runtime.RateLimitCoordinator
import Cuac.Runtime.RateLimitProtocol
import Cuac.Lib.Throwing
import Cuac.Runtime.HttpRetryController
import Cuac.Runtime.RateLimitGuidance
import Cuac.Runtime.HttpDates
import Cuac.Runtime.HttpDateForms
import Cuac.Runtime.GuidanceParsing
import Cuac.Runtime.RetryDiscipline
import Cuac.Runtime.LinkPagination
import Cuac.Runtime.PageRequests
import Cuac.Runtime.PageSequence
import Cuac.Runtime.UriAcceptance
import Cuac.Runtime.LinkRendering
import Cuac.Runtime.PaginatedScan
import Cuac.Runtime.PageDelivery
import Cuac.Lib.Permits
import Cuac.Runtime.GraphqlPaginatedScan
import Cuac.Runtime.CursorDelivery
import Cuac.Runtime.CursorPagination
import Cuac.Semantics.RestOperationPlanner
import Cuac.Semantics.ConditionalInputs
import Cuac.Runtime.RequestValidation
import Cuac.Runtime.RestMaterialization
import Cuac.Runtime.TimestamptzCodec
import Cuac.Runtime.RequestAgreement
import Cuac.Credential.Codec
import Cuac.Lib.Wire
import Cuac.Credential.Storage
import Cuac.Credential.CrashConsistency
import Cuac.Runtime.JsonReaders
import Cuac.Runtime.JsonStrings
import Cuac.Runtime.JsonValidation
import Cuac.Runtime.GraphqlBodyAgreement
import Cuac.Runtime.GraphqlRequestBody
import Cuac.Connector.FailsafeYaml
import Cuac.Connector.YamlAcceptance
import Cuac.Connector.YamlFlow
import Cuac.Connector.YamlRoundTrip
import Cuac.Connector.YamlComments
import Cuac.Connector.YamlColons
import Cuac.Connector.YamlDeletion
import Cuac.Connector.ContentDigest
import Cuac.Connector.PackageDigest
import Cuac.Semantics.CredentialPolicy
import Cuac.Credential.Iterators
import Cuac.Credential.Provider
import Cuac.Credential.RecordContents
import Cuac.Credential.CacheIsolation
import Cuac.Lib.Sorted
import Cuac.Runtime.GenerationRegistry
import Cuac.Runtime.Authenticators
import Cuac.Runtime.CredentialAttachment
import Cuac.Runtime.AuthorityAdmission
import Cuac.Runtime.GenerationPublication
import Cuac.Query.FilterTranslation
import Cuac.Query.FilterMeaning
import Cuac.Runtime.RetryDelay
import Cuac.Runtime.DnsHost
import Cuac.Lib.Comparison
import Cuac.Connector.PackageDiagnostics
import Cuac.Lib.Utf8Table
import Cuac.Runtime.Utf8Validators
import Cuac.Connector.Extractors
import Cuac.Runtime.ResiliencePolicies
import Cuac.Runtime.ResilienceAdmission
import Cuac.Connector.PackageSource
import Cuac.Connector.PackageCustody
import Cuac.Connector.PackageCompilation
