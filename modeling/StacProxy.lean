import StacProxy.JsonValue
import StacProxy.Rfc3339
import StacProxy.KeepFirst
import StacProxy.StableOrder
import StacProxy.OrderedPaging
import StacProxy.Base64Url
import StacProxy.StacItem
import StacProxy.SearchRequest
import StacProxy.FederatedCursor
import StacProxy.CursorWire
import StacProxy.ItemMerge
import StacProxy.PageMerge
import StacProxy.PaginatedSearch
import StacProxy.MergeSurvival
import StacProxy.SearchSession
import StacProxy.CursorGrowth
import StacProxy.RecordedSession
import StacProxy.CursorSize
import StacProxy.RetryBudget
import StacProxy.StreamSession
import StacProxy.OffsetStreams
import StacProxy.StreamPaging
import StacProxy.SortOrder
import StacProxy.Interleaving
import StacProxy.CollectionRouting
import StacProxy.FanOut
import StacProxy.SearchPaths
import StacProxy.PageAdapter
import StacProxy.OriginClient
import StacProxy.FollowUpBody
import StacProxy.Cql2Eval
import StacProxy.Geofence
import StacProxy.PolicyFilter
import StacProxy.AuthzMiddleware
import StacProxy.SearchEnforcement
import StacProxy.SingleRecord
import StacProxy.OutboundRequest
import StacProxy.ContentCoding
import StacProxy.CollectionScope
import StacProxy.PolicyTightening
import StacProxy.PercentCoding
import StacProxy.RequestPath
import StacProxy.Authentication
import StacProxy.ResponseCache
import StacProxy.CacheKeys
import StacProxy.OutboundCredentials
import StacProxy.DotSegments
import StacProxy.OriginContainment
import StacProxy.CursorAcceptance
import StacProxy.Transcript
import StacProxy.RateLimit
import StacProxy.CircuitBreaker
import StacProxy.ApiKeyRegistry
import StacProxy.JwksClient
import StacProxy.JwksInterference
import StacProxy.QueryHash
import StacProxy.OriginExhaustion
import StacProxy.CursorPayload
import StacProxy.CursorAuthenticity
import StacProxy.BackNavigation
import StacProxy.PageCache
import StacProxy.PageCacheHistory
import StacProxy.Utf8Text
import StacProxy.SearchQuery
import StacProxy.CursorLink
import StacProxy.RouterHistory
import StacProxy.NameAdaptation
import StacProxy.SearchMerge
import StacProxy.CollectionMerge
import StacProxy.OriginPriority
import StacProxy.SearchNarrowing
import StacProxy.ThreeValued
import StacProxy.Cql2Soundness
import StacProxy.SignedUrl
import StacProxy.CopyPreference
import StacProxy.OriginAvailability
import StacProxy.LinkRewriting
import StacProxy.Utf8Characters
import StacProxy.JsonText
import StacProxy.JsonRoundTrip
import StacProxy.ResponseRewriting
import StacProxy.TimestampOrder
import StacProxy.InstantOrder
import StacProxy.FailedFetch
import StacProxy.AdapterLock
import StacProxy.CaptureFailure
import StacProxy.BucketExpiry
import StacProxy.JsonPath
import StacProxy.RewriteFrame
import StacProxy.FloatText
import StacProxy.TextComparison
import StacProxy.UnconstrainedDecision
import StacProxy.HopByHop
import StacProxy.LinkGrammar
import StacProxy.LinkParts
import StacProxy.LinkReading
import StacProxy.LinkMisreadings
import StacProxy.Chronicle
import StacProxy.JwksFreshness
import StacProxy.JwksThrottle
import StacProxy.SingleFlight
import StacProxy.OAuth2Token
import StacProxy.OAuth2Soundness
import StacProxy.OAuth2Refresh
import StacProxy.RsaExponent
import StacProxy.SortParameter
import StacProxy.OpenPeriod
import StacProxy.EnvExpansion
import StacProxy.BoundedCapture
import StacProxy.LogThrottle
import StacProxy.LossyStore
import StacProxy.CacheStores
import StacProxy.CachedResponses
import StacProxy.Pipeline
import StacProxy.AssetRelay
import StacProxy.OriginTransport
import StacProxy.CapabilityGate
