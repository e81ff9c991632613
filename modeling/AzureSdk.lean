import AzureSdk.Lib.Outcome
import AzureSdk.Lib.LittleEndian
import AzureSdk.Lib.SortedMap
import AzureSdk.Lib.Base64
import AzureSdk.Lib.Padding
import AzureSdk.Lib.BigEndian
import AzureSdk.Lib.IntervalCover
import AzureSdk.Lib.LexOrder
import AzureSdk.Lib.Binary64
import AzureSdk.Cosmos.BinaryJson.Value
import AzureSdk.Cosmos.BinaryJson.Markers
import AzureSdk.Cosmos.BinaryJson.Reader
import AzureSdk.Cosmos.BinaryJson.Writer
import AzureSdk.Cosmos.BinaryJson.RoundTrip
import AzureSdk.Cosmos.BinaryJson.CompressedStrings
import AzureSdk.Cosmos.BinaryJson.Serializer
import AzureSdk.Cosmos.BinaryJson.SerializerParity
import AzureSdk.Cosmos.BinaryJson.NativeScalar
import AzureSdk.Cosmos.Models.EffectivePartitionKey
import AzureSdk.Cosmos.Models.EffectivePartitionKeySuccessor
import AzureSdk.Cosmos.Models.EffectivePartitionKeyCompute
import AzureSdk.Cosmos.Dataflow.Planner
import AzureSdk.Cosmos.Dataflow.OrderByNumber
import AzureSdk.Cosmos.Dataflow.OrderBy
import AzureSdk.Lib.BinarySearch
import AzureSdk.Lib.IntervalChain
import AzureSdk.Cosmos.Cache.ContainerRoutingMap
import AzureSdk.Cosmos.Cache.RoutingMapLookup
import AzureSdk.Core.Retry
import AzureSdk.Lib.EState
import AzureSdk.Core.BearerToken
import AzureSdk.KeyVault.Authorizer
import AzureSdk.Cosmos.Pipeline.PatchEval
import AzureSdk.Cosmos.Models.SessionToken
import AzureSdk.Lib.FoldPerm
import AzureSdk.Cosmos.Models.SessionTokenMerge
import AzureSdk.Lib.Text
import AzureSdk.Cosmos.Models.SessionTokenText
import AzureSdk.Cosmos.Models.SessionTokenCompound
import AzureSdk.Cosmos.Cache.AsyncCache
import AzureSdk.Core.Pager
import AzureSdk.Core.PagerChain
import AzureSdk.Core.PagerItems
import AzureSdk.EventHubs.LoadBalancer
import AzureSdk.Identity.TokenCache
import AzureSdk.Messaging.TokenRefresh
import AzureSdk.EventHubs.Authorizer
import AzureSdk.ServiceBus.Authorizer
import AzureSdk.Storage.TransferScheduler
import AzureSdk.Cosmos.Models.RequestCharge
import AzureSdk.Cosmos.Diagnostics.Compaction
import AzureSdk.Cosmos.Diagnostics.Context
import AzureSdk.Cosmos.Dataflow.SkipTake
import AzureSdk.Cosmos.Routing.CircuitBreaker
import AzureSdk.Cosmos.Query.Like
import AzureSdk.Lib.Except
import AzureSdk.Cosmos.Query.Syntax
import AzureSdk.Cosmos.Query.Value
import AzureSdk.Cosmos.Query.Eval
import AzureSdk.Cosmos.Query.PartitionKeyFilter
import AzureSdk.Cosmos.Emulator.DocumentKey
import AzureSdk.Cosmos.Query.PlanSoundness
import AzureSdk.Cosmos.Emulator.QueryRanges
import AzureSdk.Lib.KeysetPaging
import AzureSdk.Cosmos.Emulator.DocumentFeed
