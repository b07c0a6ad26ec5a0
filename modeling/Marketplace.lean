import Marketplace.Concurrent.RelyGuarantee
import Marketplace.ReadCommitted.RowOperations
import Marketplace.ReadCommitted.Rules
import Marketplace.ReadCommitted.Statements
import Marketplace.Json.RoundTrip
import Marketplace.OrderPlacedEvent
import Marketplace.Authorization
import Marketplace.Broker
import Marketplace.OrderPlacedConsumer
import Marketplace.DeadLetters
import Marketplace.Checkout
import Marketplace.CheckoutRefusals
import Marketplace.CheckoutTransaction
import Marketplace.OrderLedger
import Marketplace.DeliveryLedger
import Marketplace.MessageLedger
import Marketplace.CheckoutFaults
import Marketplace.OutboxQueue
import Marketplace.OutboxRelay
import Marketplace.PriceLedger
import Marketplace.RelayLedger
import Marketplace.Topology
import Marketplace.RestartedStream
import Marketplace.RetriedIncrements
import Marketplace.StockLedger
import Marketplace.WorkerPool
import Marketplace.TokenRuns
import Marketplace.TokenReplay
import Marketplace.Redis.Keys
import Marketplace.RateLimit
import Marketplace.RetryAfter
import Marketplace.OrderReplay
import Marketplace.OrderStream
import Marketplace.EventConnections
import Marketplace.EventPipeline
import Marketplace.PlacementLocks
import Marketplace.ServiceLocks
import Marketplace.PasswordHashes
import Marketplace.Files.Multipart
import Marketplace.CacheFaults
import Marketplace.SingleFlight
import Marketplace.ProductCache
import Marketplace.SkewedClocks
import Marketplace.StatusStream
import Marketplace.Files.UploadStates
import Marketplace.Files.FinalCommits
import Marketplace.Confidentiality
import Marketplace.Denylist
import Marketplace.PublishAttempts
import Marketplace.OrderReadBack
import Marketplace.InactiveProducts
import Marketplace.TokenDeadlocks
import Marketplace.SessionRenewal
import Marketplace.Cdn.CoherentCache
import Marketplace.Cdn.ObjectUrls
import Marketplace.ProductsApi
import Marketplace.RevenueReport
import Marketplace.StreamText
import Marketplace.Serializability
