import EventFlow.Library.Transition
import EventFlow.Library.History
import EventFlow.Library.Reach
import EventFlow.Library.Table
import EventFlow.Library.EdgeGraph
import EventFlow.Library.Kahn
import EventFlow.Library.DepthFirst
import EventFlow.Library.BinaryFloat
import EventFlow.Library.Selection
import EventFlow.Library.PendingList
import EventFlow.Library.SlidingWindow
import EventFlow.Library.Numerals
import EventFlow.Library.NameRepair
import EventFlow.Library.Backtracking
import EventFlow.Library.Feed
import EventFlow.Library.DagEval
import EventFlow.Library.TaskTimes
import EventFlow.Json
import EventFlow.PyStr
import EventFlow.Uuid
import EventFlow.Schema
import EventFlow.DagValidator
import EventFlow.Models
import EventFlow.StateTransition
import EventFlow.Runtime
import EventFlow.RuntimeSpec
import EventFlow.Engine
import EventFlow.System
import EventFlow.Effect
import EventFlow.SystemSpec
import EventFlow.Invariant
import EventFlow.Safety
import EventFlow.Terminal
import EventFlow.NodeLife
import EventFlow.Attempts
import EventFlow.Delivery
import EventFlow.ReadCommitted
import EventFlow.Granularity
import EventFlow.EventOrder
import EventFlow.Fate
import EventFlow.Confluence
import EventFlow.Liveness
import EventFlow.Journal
import EventFlow.Replay
import EventFlow.Chronology
import EventFlow.Ledger
import EventFlow.Accounting
import EventFlow.Invocations
import EventFlow.DeadLetters
import EventFlow.Executors
import EventFlow.Branches
import EventFlow.ManualRetries
import EventFlow.Protobuf
import EventFlow.Contracts
import EventFlow.Clients
import EventFlow.Transports
import EventFlow.Failures
import EventFlow.Auth
import EventFlow.RefreshTokens
import EventFlow.Sessions
import EventFlow.AccessTokens
import EventFlow.WebClient
import EventFlow.WebSockets
import EventFlow.LiveUpdates
import EventFlow.EventAttempts
import EventFlow.LivePage
import EventFlow.Definitions
import EventFlow.Tables
import EventFlow.TablesSpec
import EventFlow.Versions
import EventFlow.Tenants
import EventFlow.Editor
import EventFlow.CycleGuard
import EventFlow.EditorRoundTrip
import EventFlow.EditorRuns
import EventFlow.Downstream
import EventFlow.Semantics
import EventFlow.ProcessJob
import EventFlow.Commands
import EventFlow.Recovery
import EventFlow.NodeFields
import EventFlow.FallbackLimiter
import EventFlow.RateLimit
import EventFlow.RateLimitRuns
import EventFlow.VersionNumbers
import EventFlow.WorkflowDeletion
import EventFlow.Metrics
import EventFlow.WorkerRegistration
import EventFlow.WorkerLife
import EventFlow.QueueDepth
import EventFlow.JobPayload
import EventFlow.EditorIds
import EventFlow.Conditions
import EventFlow.JsonText
import EventFlow.ConditionGrammar
import EventFlow.Addressing
import EventFlow.OutboundRequests
import EventFlow.TableParts
import EventFlow.Storage
import EventFlow.Consumers
import EventFlow.Deployment
