import Meter.Core
import Meter.Lib.Table
import Meter.Lib.Json
import Meter.Lib.Transaction
import Meter.Lib.Pact
import Meter.Lib.Race
import Meter.Lib.Rollup
import Meter.Lib.Bands
import Meter.Lib.Matching
import Meter.Lib.Nearest
import Meter.Lib.Separator
import Meter.Lib.Trace
import Meter.Lib.Simulation
import Meter.Lib.Layers
import Meter.Ledger.Model
import Meter.Ledger.Memory
import Meter.Ledger.Action
import Meter.Ledger.Remainder
import Meter.Ledger.Step
import Meter.Ledger.Run
import Meter.Ledger.Totality
import Meter.Ledger.Allowed
import Meter.Ledger.Heartbeat
import Meter.Ledger.Books
import Meter.Ledger.Holds
import Meter.Ledger.Replay
import Meter.Ledger.Overdraft
import Meter.Ledger.Reversal
import Meter.Ledger.VoidRun
import Meter.Ledger.Payers
import Meter.Ledger.Charges
import Meter.Ledger.Spend
import Meter.Ledger.Leases
import Meter.Ledger.VoidKeys
import Meter.Ledger.KeyKinds
import Meter.Postgres.Database
import Meter.Postgres.Ops
import Meter.Postgres.Commit
import Meter.Postgres.Frame
import Meter.Postgres.Programs
import Meter.Postgres.Voiding
import Meter.Postgres.Safety
import Meter.Postgres.Balance
import Meter.Postgres.Deadlock
import Meter.Postgres.Refunds
import Meter.Postgres.Overdraft
import Meter.Postgres.RunVoid
import Meter.Postgres.Report
import Meter.Postgres.Serial
import Meter.Postgres.Rounding
import Meter.Postgres.Mirror
import Meter.Postgres.Agreement
import Meter.Postgres.VoidAgreement
import Meter.Postgres.Refinement
import Meter.Postgres.Statements
import Meter.Events.Store
import Meter.Events.Versions
import Meter.Clickhouse.Store
import Meter.Clickhouse.Rollups
import Meter.Clickhouse.Interleaving
import Meter.Clickhouse.Oracle
import Meter.Clickhouse.Reconcile
import Meter.Clickhouse.Repair
import Meter.Clickhouse.Audit
import Meter.Pricing.Price
import Meter.Pricing.Tiers
import Meter.Pricing.Card
import Meter.Pricing.Rounding
import Meter.Pricing.Monotone
import Meter.Pricing.Simulate
import Meter.Pricing.Catalog
import Meter.Sdk.GovernedRun
import Meter.ControlPlane.Alerts
import Meter.ControlPlane.Escalation
import Meter.ControlPlane.Schema
import Meter.ControlPlane.Repositories
import Meter.ControlPlane.Routes
import Meter.ControlPlane.Tenancy
import Meter.ControlPlane.Confinement
import Meter.Lib.Discipline
import Meter.Lib.Csv
import Meter.Api.Usage
import Meter.Api.Cards
import Meter.Api.Priced
import Meter.Api.Reprice
import Meter.Enforcement.Service
import Meter.Api.Keys
import Meter.Api.EventKeys
import Meter.Api.Requests
import Meter.Api.Agreement
import Meter.Api.Attribution
import Meter.Api.VoidRace
import Meter.Api.MeterRace
import Meter.Api.AmendRace
import Meter.Api.Retry
import Meter.Api.Idempotence
import Meter.Api.Provenance
import Meter.ControlPlane.Interference
import Meter.ControlPlane.Deliveries
import Meter.ControlPlane.Histories
import Meter.ControlPlane.Keys
import Meter.Api.Budgets
import Meter.Api.CardStore
import Meter.Api.Simulate
import Meter.Api.Layers
import Meter.Dashboard.AuditExport
import Meter.ControlPlane.Evaluation
