import Nivara.Basic
import Nivara.Transactions.Run
import Nivara.Transactions.Table
import Nivara.Transactions.Program
import Nivara.Transactions.RelyGuarantee
import Nivara.Auth.RefreshToken
import Nivara.Auth.LedgerOutline
import Nivara.Auth.FamilyChain
import Nivara.Auth.FamilyEviction
import Nivara.Auth.Invitation
import Nivara.Auth.InvitationBooks
import Nivara.Auth.OneDoor
import Nivara.Auth.OneLink
import Nivara.Widget.WidgetSessionService
import Nivara.Widget.SessionBooks
import Nivara.Widget.OneContact
import Nivara.Idempotency.Slot
import Nivara.Idempotency.Store
import Nivara.Idempotency.ClaimExclusion
import Nivara.Idempotency.Interceptor
import Nivara.Idempotency.SettleOwnership
import Nivara.Idempotency.AtMostOnce
import Nivara.Idempotency.Scope
import Nivara.Idempotency.Replays
import Nivara.Scheduler.Backoff
import Nivara.Scheduler.JobQueue
import Nivara.Scheduler.Lifecycle
import Nivara.Scheduler.Custody
import Nivara.Scheduler.Terminal
import Nivara.Scheduler.Exhaustion
import Nivara.Scheduler.Exclusivity
import Nivara.Scheduler.Drainer
import Nivara.Scheduler.LeaseExclusion
import Nivara.Scheduler.Errands
import Nivara.Tickets.StateMachine
import Nivara.Slack.SlackClient
import Nivara.Slack.Delivery
import Nivara.Slack.AtMostOncePosting
import Nivara.Slack.Agreement
import Nivara.Slack.GivingUp
import Nivara.Tickets.PauseClock
import Nivara.Transactions.Script
import Nivara.Transactions.Outline
import Nivara.Tickets.Desk
import Nivara.Transactions.View
import Nivara.Tickets.Effects
import Nivara.Tickets.Register
import Nivara.Tickets.Activity
import Nivara.Tickets.AuditTrail
import Nivara.Tickets.Conversation
import Nivara.Tickets.Locks
import Nivara.Tickets.PauseRaces
import Nivara.Transactions.Triples
import Nivara.Slack.Ingestion
import Nivara.Slack.ParsesBack
import Nivara.Tickets.Services
import Nivara.Tickets.Replies
import Nivara.Tickets.ReplyRaces
import Nivara.Tickets.ReopenOnly
import Nivara.Tickets.OneLive
import Nivara.Tickets.Serial
import Nivara.Tickets.Redispatch
import Nivara.Tickets.Landing
import Nivara.Slack.Senders
import Nivara.Slack.Inbound
import Nivara.Slack.InboundQueue
import Nivara.Sla.BreachSweep
import Nivara.Sla.FireOnce
import Nivara.Sla.DwellSweep
import Nivara.Sla.Chronicle
import Nivara.Sla.EstateSweep
import Nivara.Sla.ExactlyDue
import Nivara.Sla.OnRecord
import Nivara.Slack.NoEcho
import Nivara.Collections.OrderedMap
import Nivara.Collections.Grouping
import Nivara.Collections.Paging
import Nivara.Text.Units
import Nivara.Text.Calendar
import Nivara.Text.Number
import Nivara.Text.Numeral
import Nivara.Text.Rounding
import Nivara.Text.Glob
import Nivara.Text.Json
import Nivara.Text.Bytes
import Nivara.Text.Objects
import Nivara.Realtime.EventLog
import Nivara.Realtime.Numbering
import Nivara.Realtime.Restarts
import Nivara.Realtime.Gateway
import Nivara.Realtime.Confidentiality
import Nivara.Realtime.CanonicalNames
import Nivara.Realtime.SubscribeBoundary
import Nivara.Realtime.Snapshots
import Nivara.Sla.DwellSilence
import Nivara.Sla.LastEdit
import Nivara.Analytics.Report
import Nivara.Analytics.AddsUp
import Nivara.Analytics.ResolutionTime
import Nivara.Pagination.Cursor
import Nivara.Pagination.Keyset
import Nivara.Pagination.Traversal
import Nivara.Pagination.BadCursor
import Nivara.Authz.ServiceScopes
import Nivara.ServiceTokens.ServiceTokenFormat
import Nivara.ServiceTokens.ServiceTokenService
import Nivara.ServiceTokens.WorthItsRow
import Nivara.Idempotency.Fingerprint
import Nivara.Scheduler.Ticker
import Nivara.Scheduler.OneClock
import Nivara.Limiter.FixedWindow
import Nivara.Limiter.RateLimitService
import Nivara.Limiter.ClientIp
import Nivara.Cache.CacheKeys
import Nivara.Cache.CacheService
import Nivara.Cache.Isolation
import Nivara.Transactions.Lockstep
import Nivara.Transactions.Owners
import Nivara.Tickets.Confinement
import Nivara.Tickets.SameSight
import Nivara.Tickets.Requests
import Nivara.Tickets.NonInterference
import Nivara.Tickets.OutOfReach
import Nivara.Gate.Credentials
import Nivara.Gate.Guards
import Nivara.Gate.Admission
import Nivara.Pagination.Following
import Nivara.Tickets.PageWalks
import Nivara.Limiter.Floodgate
import Nivara.Integrations.SlackFront
import Nivara.Scheduler.Overtaking
import Nivara.Scheduler.Pulse
import Nivara.Scheduler.FalseAlarm
import Nivara.Scheduler.Silence
