import Ioka.Booking.Conservation
import Ioka.Booking.Keys
import Ioka.Booking.Finality
import Ioka.Booking.Idempotency
import Ioka.Booking.Race
import Ioka.Booking.RowLocks
import Ioka.Booking.Retry
import Ioka.Search.Absorbing
import Ioka.Platform.Store
import Ioka.Platform.Service
import Ioka.Search.Steps
import Ioka.Platform.Reachable
import Ioka.Search.CachedAnswers
import Ioka.Search.Dispatch
import Ioka.Search.Redelivery
import Ioka.Relational.Changelog
import Ioka.Audit.Rows
import Ioka.Booking.Audit
import Ioka.Platform.StatusAudit
import Ioka.Platform.ProviderAudit
import Ioka.Platform.Reads
import Ioka.Platform.Isolation
import Ioka.Provider.Mock
import Ioka.Search.Interference
import Ioka.Booking.CreateKeys
import Ioka.Booking.Confluence
import Ioka.Transition.Unwinding
import Ioka.Booking.IssueKeys
import Ioka.Platform.Currency
import Ioka.Platform.Compensation
import Ioka.Security.Password
import Ioka.Security.Token
import Ioka.Domain.Validation
import Ioka.Transition.Delivery
import Ioka.Search.Message
import Ioka.Search.Worker
import Ioka.Provider.Issue
import Ioka.Booking.Airline
import Ioka.Booking.Escrow
import Ioka.Platform.Holds
import Ioka.Platform.Answers
import Ioka.Platform.Startup
import Ioka.Platform.Prices
import Ioka.Platform.Sessions
import Ioka.Platform.Polls
import Ioka.Platform.Journey
import Ioka.Platform.References
import Ioka.Platform.Tickets
import Ioka.Search.Reuse
import Ioka.Search.Wired
import Ioka.Platform.Api
