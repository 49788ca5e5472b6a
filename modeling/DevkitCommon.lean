import DevkitCommon.Delayx.Lease
import DevkitCommon.Delayx.Rollback
import DevkitCommon.Delayx.Outcome
import DevkitCommon.Authx.Session
import DevkitCommon.Authx.Commands
import DevkitCommon.Authx.Rotation
import DevkitCommon.Authx.Records
import DevkitCommon.Authx.Lifetime
import DevkitCommon.Authx.Revocation
import DevkitCommon.Authx.Password
import DevkitCommon.Kafkax.Consumer
import DevkitCommon.Kafkax.Delivery
import DevkitCommon.Redisx.Exclusion
import DevkitCommon.Idx.Generator
import DevkitCommon.Idx.Unique
import DevkitCommon.Kitexx.Execution
import DevkitCommon.Kitexx.Resent
import DevkitCommon.Kitexx.Release
import DevkitCommon.Kitexx.Key
import DevkitCommon.Kitexx.Result
import DevkitCommon.Kitexx.RoundTrip
import DevkitCommon.Kitexx.Replay
import DevkitCommon.Authx.Retry
import DevkitCommon.Authx.Acceptance
import DevkitCommon.Authx.Logout
import DevkitCommon.Authx.Single
import DevkitCommon.Redisx.Honest
import DevkitCommon.Webhookx.Callback
import DevkitCommon.Webhookx.Acknowledged
import DevkitCommon.Kafkax.Outbox
import DevkitCommon.Kafkax.Relay
import DevkitCommon.Kafkax.Rounds
import DevkitCommon.Kafkax.Bookkeeping
import DevkitCommon.Kafkax.Order
import DevkitCommon.Kafkax.DeadLetter
import DevkitCommon.Kafkax.Position
import DevkitCommon.Kafkax.Settled
import DevkitCommon.Kitexx.Authorization
import DevkitCommon.Hertzx.Document
import DevkitCommon.Hertzx.Enforcement
import DevkitCommon.Lib.IP
import DevkitCommon.Kitexx.Edges
import DevkitCommon.Hertzx.ClientIP
import DevkitCommon.Hertzx.Edge
import DevkitCommon.Lib.JSON
import DevkitCommon.Lib.Query
import DevkitCommon.Hertzx.Redact
import DevkitCommon.Hertzx.Redaction
import DevkitCommon.Apidoc.Required
import DevkitCommon.Apidoc.Unfold
import DevkitCommon.Apidoc.Marks
import DevkitCommon.Apidoc.Kept
import DevkitCommon.Apidoc.Annotations
import DevkitCommon.Apidoc.Annotated
import DevkitCommon.Lib.MD5
import DevkitCommon.Nacosx.Config
import DevkitCommon.Nacosx.Steps
import DevkitCommon.Nacosx.LockOrder
import DevkitCommon.Nacosx.LastGood
import DevkitCommon.Nacosx.Followers
import DevkitCommon.Devroute.Balancer
import DevkitCommon.Devroute.Freshness
import DevkitCommon.Devroute.Isolation
import DevkitCommon.Kitexx.IdlDeps
import DevkitCommon.Kitexx.Lockout
import DevkitCommon.Jobx.Execute
import DevkitCommon.Jobx.Lock
import DevkitCommon.Lib.Words
import DevkitCommon.Migrate.Types
import DevkitCommon.Migrate.Plan
import DevkitCommon.Migrate.Refusal
import DevkitCommon.Httpx.Guard
import DevkitCommon.Httpx.Recovery
import DevkitCommon.Lib.Rounding
import DevkitCommon.Moneyx.Decimal
import DevkitCommon.Moneyx.Money
import DevkitCommon.Moneyx.Shares
import DevkitCommon.Moneyx.Split
import DevkitCommon.Moneyx.Allocate
import DevkitCommon.Moneyx.Representation
import DevkitCommon.Idx.Sequence
import DevkitCommon.Migrate.Columns
import DevkitCommon.Migrate.Values
import DevkitCommon.Migrate.Narrows
import DevkitCommon.Lib.Spacing
import DevkitCommon.Migrate.Converges
import DevkitCommon.Redisx.Cache
import DevkitCommon.Redisx.Flights
import DevkitCommon.Redisx.Freshness
import DevkitCommon.Hertzx.Permissions
import DevkitCommon.Kitexx.Callers
import DevkitCommon.Kitexx.ClientCalls
import DevkitCommon.Kitexx.IdlOrder
import DevkitCommon.Lib.Float64
import DevkitCommon.Webhookx.EventID
import DevkitCommon.Lib.Encodings
import DevkitCommon.Lib.Replacer
import DevkitCommon.Lib.SHA256
import DevkitCommon.Webhookx.Signature
import DevkitCommon.Kafkax.Parking
import DevkitCommon.Hertzx.RateLimit
import DevkitCommon.Hertzx.RateBound
import DevkitCommon.Kitexx.Limits
import DevkitCommon.Hertzx.AuditSink
import DevkitCommon.Kitexx.Validate
import DevkitCommon.Zlog.Fields
import DevkitCommon.Zlog.Sampling
import DevkitCommon.Lib.Objects
import DevkitCommon.S3x.Client
import DevkitCommon.Nacosx.Naming
import DevkitCommon.Apidoc.Envelope
import DevkitCommon.Starrocksx.Prepare
import DevkitCommon.Apidoc.Expressions
import DevkitCommon.Apidoc.ZeroPasses
import DevkitCommon.Apidoc.Passes
import DevkitCommon.Lib.Holes
import DevkitCommon.Nacosx.Secrets
import DevkitCommon.Nacosx.Hidden
import DevkitCommon.Nacosx.Unseen
import DevkitCommon.Apidoc.Directory
import DevkitCommon.Apidoc.Joined
import DevkitCommon.Apidoc.Prefixed
import DevkitCommon.Apidoc.Placed
import DevkitCommon.Apidoc.Merged
import DevkitCommon.Config.File
import DevkitCommon.Config.Substitution
import DevkitCommon.Httpx.Secrets
import DevkitCommon.Kafkax.StartOutbox
import DevkitCommon.Httpx.InFlight
import DevkitCommon.Httpx.Calls
import DevkitCommon.Lib.UTF8
import DevkitCommon.Httpx.Signing
import DevkitCommon.Kitexx.Identity
import DevkitCommon.Hertzx.Login
import DevkitCommon.Kitexx.Answered
import DevkitCommon.Kitexx.Retries
import DevkitCommon.Kitexx.Rotation
import DevkitCommon.Nacosx.Watch
import DevkitCommon.Nacosx.Outage
import DevkitCommon.Hertzx.Shutdown
import DevkitCommon.Httpx.PrivateHosts
import DevkitCommon.Kitexx.Rollouts
import DevkitCommon.Verifyx.Run
import DevkitCommon.Kafkax.Events
