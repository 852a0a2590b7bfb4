import AigisZero.Fleet.RegistryInvariant
import AigisZero.Fleet.Service
import AigisZero.Fleet.Enrollment
import AigisZero.Fleet.Health
import AigisZero.Agent.Scheduler
import AigisZero.Agent.Seeding
import AigisZero.Agent.Isolation
import AigisZero.Agent.Recovery
import AigisZero.Agent.Shutdown
import AigisZero.Agent.OsqueryResponse
import AigisZero.Stream.Deadlock
import AigisZero.Stream.Served
import AigisZero.Router.Worker
import AigisZero.Router.Classifiers
import AigisZero.RuleEngine.Coverage
import AigisZero.RuleEngine.Sink
import AigisZero.RuleEngine.Commit
import AigisZero.RuleEngine.Shutdown
import AigisZero.RuleEngine.Reload
import AigisZero.RuleEngine.Progress
import AigisZero.Backend.Order
import AigisZero.Backend.LiveEvent
import AigisZero.Backend.LogFields
import AigisZero.Backend.AlertFeed
import AigisZero.Backend.Shutdown
import AigisZero.Backend.Containment
import AigisZero.Backend.Dispatch
import AigisZero.Backend.LiveFeed
import AigisZero.Rejection
import AigisZero.EndToEnd
import AigisZero.Router.Counters
import AigisZero.Frontend.SingleFlight
import AigisZero.Frontend.Invalidation
import AigisZero.Frontend.LiveScreen
import AigisZero.Frontend.LiveSockets
import AigisZero.Backend.Subscriptions
import AigisZero.Backend.Pagination
import AigisZero.Agent.Unisolation
import AigisZero.Agent.Attempts
import AigisZero.RuleEngine.ScanCoverage
import AigisZero.Agent.Endpoint
import AigisZero.Agent.SaveConfig
import AigisZero.Agent.Diff
import AigisZero.Backend.Triage
import AigisZero.Backend.Walks
import AigisZero.Agent.OsqueryRequest
import AigisZero.Stream.Order
import AigisZero.Router.Order
import AigisZero.RuleEngine.Provenance
import AigisZero.History
import AigisZero.Reconstruction
import AigisZero.Detection
import AigisZero.Agent.Identity
