import Wagering.Accounting.Books
import Wagering.Accounting.Change
import Wagering.Accounting.Record
import Wagering.Application.ConsumeWagerMessage
import Wagering.Application.CreateWallet
import Wagering.Application.Events
import Wagering.Application.PayloadHash
import Wagering.Application.ReconcileWallet
import Wagering.Application.ResolvePendingReference
import Wagering.Application.SubmitWager
import Wagering.Application.Units
import Wagering.Correctness.Applying
import Wagering.Correctness.Canonical
import Wagering.Correctness.Concluding
import Wagering.Correctness.Consuming
import Wagering.Correctness.Creating
import Wagering.Correctness.Deciding
import Wagering.Correctness.Hashing
import Wagering.Correctness.History
import Wagering.Correctness.Judging
import Wagering.Correctness.Observing
import Wagering.Correctness.Opening
import Wagering.Correctness.Ordering
import Wagering.Correctness.Outcomes
import Wagering.Correctness.Paging
import Wagering.Correctness.Parsing
import Wagering.Correctness.Reserving
import Wagering.Correctness.Resolving
import Wagering.Correctness.Retrying
import Wagering.Correctness.Reversing
import Wagering.Correctness.Rules
import Wagering.Correctness.Service
import Wagering.Correctness.Sighting
import Wagering.Correctness.Submitting
import Wagering.Correctness.Testifying
import Wagering.Correctness.Timekeeping
import Wagering.Correctness.Timing
import Wagering.Correctness.Verdicts
import Wagering.Correctness.Witnessing
import Wagering.Domain.Errors
import Wagering.Domain.ExactMoney
import Wagering.Domain.Money
import Wagering.Domain.Objects
import Wagering.Domain.WagerTransaction
import Wagering.Domain.Wallet
import Wagering.Guarantees.Amounts
import Wagering.Guarantees.Announcements
import Wagering.Guarantees.Audits
import Wagering.Guarantees.Balances
import Wagering.Guarantees.Classification
import Wagering.Guarantees.CommitOrder
import Wagering.Guarantees.Deadlocks
import Wagering.Guarantees.Deliveries
import Wagering.Guarantees.Failures
import Wagering.Guarantees.Groups
import Wagering.Guarantees.Hashes
import Wagering.Guarantees.Identifiers
import Wagering.Guarantees.Identities
import Wagering.Guarantees.Independence
import Wagering.Guarantees.Judgements
import Wagering.Guarantees.LateJudgements
import Wagering.Guarantees.LateOrder
import Wagering.Guarantees.Lifecycle
import Wagering.Guarantees.Listing
import Wagering.Guarantees.Messages
import Wagering.Guarantees.Movements
import Wagering.Guarantees.Openings
import Wagering.Guarantees.Outbox
import Wagering.Guarantees.Pagination
import Wagering.Guarantees.Promise
import Wagering.Guarantees.Reads
import Wagering.Guarantees.Receipts
import Wagering.Guarantees.Reconciliation
import Wagering.Guarantees.Replays
import Wagering.Guarantees.Responses
import Wagering.Guarantees.ResultBalances
import Wagering.Guarantees.Reversals
import Wagering.Guarantees.Schema
import Wagering.Guarantees.Storage
import Wagering.Guarantees.Transitions
import Wagering.Guarantees.WalletOrder
import Wagering.Infrastructure.Adapters
import Wagering.Interface.Crew
import Wagering.Interface.Envelope
import Wagering.Interface.Http
import Wagering.Interface.LedgerQuery
import Wagering.Interface.Request
import Wagering.Interface.Validation
import Wagering.Interface.Worker
import Wagering.Isolation.Calls
import Wagering.Isolation.Checked
import Wagering.Isolation.Discipline
import Wagering.Isolation.Effect
import Wagering.Isolation.LockOrder
import Wagering.Lib.Base64
import Wagering.Lib.Bitwise
import Wagering.Lib.Calendar
import Wagering.Lib.Chain
import Wagering.Lib.Decimal
import Wagering.Lib.Interleave
import Wagering.Lib.Keyed
import Wagering.Lib.Keyset
import Wagering.Lib.Method
import Wagering.Lib.Moments
import Wagering.Lib.Numeral
import Wagering.Lib.Program
import Wagering.Lib.Pursuit
import Wagering.Lib.Rely
import Wagering.Lib.Retries
import Wagering.Lib.Separated
import Wagering.Lib.Serving
import Wagering.Lib.Sha256
import Wagering.Lib.Testimony
import Wagering.Lib.Trace
import Wagering.Lib.Typestate
import Wagering.Persistence.Database
import Wagering.Persistence.Ledger
import Wagering.Persistence.OutboxClaim
import Wagering.Persistence.PostgresErrors
import Wagering.Persistence.Repositories
import Wagering.Persistence.Rows
import Wagering.Persistence.Schema
import Wagering.Persistence.Statements
import Wagering.Persistence.Valid
import Wagering.Publishing.Invariant
import Wagering.Publishing.Machine
import Wagering.Publishing.Service
import Wagering.Text
import Wagering.Utf8
