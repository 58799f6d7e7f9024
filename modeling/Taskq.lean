import Taskq.Claiming.Calls
import Taskq.Claiming.Gates
import Taskq.Claiming.Lineup
import Taskq.Claiming.Replays
import Taskq.Claiming.Room
import Taskq.Claiming.Served
import Taskq.Claiming.Sessions
import Taskq.Claiming.Takes
import Taskq.Claiming.Total
import Taskq.Continuations.Graph
import Taskq.Continuations.Policy
import Taskq.Continuations.Registry
import Taskq.Contract.Acceptance
import Taskq.Contract.Aging
import Taskq.Contract.Batches
import Taskq.Contract.Breakers
import Taskq.Contract.BulkSpecs
import Taskq.Contract.Cancellation
import Taskq.Contract.ClaimedJobs
import Taskq.Contract.Coalescing
import Taskq.Contract.Continuations
import Taskq.Contract.Convergence
import Taskq.Contract.Counters
import Taskq.Contract.CronLanguages
import Taskq.Contract.Definitions
import Taskq.Contract.Dependencies
import Taskq.Contract.DryKeys
import Taskq.Contract.Effects
import Taskq.Contract.Evaluation
import Taskq.Contract.FatalReports
import Taskq.Contract.Fencing
import Taskq.Contract.Firings
import Taskq.Contract.HandlerOutputs
import Taskq.Contract.Handling
import Taskq.Contract.Heartbeats
import Taskq.Contract.Hints
import Taskq.Contract.IdleNotices
import Taskq.Contract.Keys
import Taskq.Contract.Lifecycles
import Taskq.Contract.Listings
import Taskq.Contract.Metering
import Taskq.Contract.Migrations
import Taskq.Contract.NextInstants
import Taskq.Contract.Occurrences
import Taskq.Contract.Overlaps
import Taskq.Contract.Overloads
import Taskq.Contract.Overshoot
import Taskq.Contract.Ownership
import Taskq.Contract.Policies
import Taskq.Contract.Ramps
import Taskq.Contract.Rates
import Taskq.Contract.Redrives
import Taskq.Contract.Rejections
import Taskq.Contract.Repetitions
import Taskq.Contract.Replay
import Taskq.Contract.Reservations
import Taskq.Contract.Retention
import Taskq.Contract.Retirement
import Taskq.Contract.SingleSettlement
import Taskq.Contract.Slots
import Taskq.Contract.TimeZones
import Taskq.Contract.TimesToLive
import Taskq.Contract.Truncation
import Taskq.Contract.Verdicts
import Taskq.Contract.Wakeups
import Taskq.Contract.WorkflowListings
import Taskq.Contract.WorkflowStatus
import Taskq.Http.Hub
import Taskq.Invariants.Admitted
import Taskq.Invariants.Aging
import Taskq.Invariants.Begun
import Taskq.Invariants.Breakers
import Taskq.Invariants.Budget
import Taskq.Invariants.Chains
import Taskq.Invariants.Children
import Taskq.Invariants.Counters
import Taskq.Invariants.Cursors
import Taskq.Invariants.Dependencies
import Taskq.Invariants.Endings
import Taskq.Invariants.Flows
import Taskq.Invariants.Footprints
import Taskq.Invariants.History
import Taskq.Invariants.Identifiers
import Taskq.Invariants.Keys
import Taskq.Invariants.Ledger
import Taskq.Invariants.Memberships
import Taskq.Invariants.Outcomes
import Taskq.Invariants.Owners
import Taskq.Invariants.Places
import Taskq.Invariants.Profiles
import Taskq.Invariants.ReachableTexts
import Taskq.Invariants.Receipts
import Taskq.Invariants.Running
import Taskq.Invariants.Sound
import Taskq.Invariants.Stamps
import Taskq.Invariants.Steps
import Taskq.Invariants.StoredTexts
import Taskq.Invariants.Texts
import Taskq.Invariants.Timetable
import Taskq.Library.Bisection
import Taskq.Library.CircuitBreaker
import Taskq.Library.Greedy
import Taskq.Library.Inserts
import Taskq.Library.Keyset
import Taskq.Library.Labelled
import Taskq.Library.Postconditions
import Taskq.Library.Register
import Taskq.Library.Script
import Taskq.Library.Search
import Taskq.Library.Table
import Taskq.Library.TokenBucket
import Taskq.Library.Transaction
import Taskq.Library.WallClock
import Taskq.Library.Window
import Taskq.Library.Worklist
import Taskq.Lifecycle.AdmissionPaths
import Taskq.Lifecycle.Bookings
import Taskq.Lifecycle.BulkPaths
import Taskq.Lifecycle.Calendar
import Taskq.Lifecycle.ClaimPaths
import Taskq.Lifecycle.Commands
import Taskq.Lifecycle.CompletionPaths
import Taskq.Lifecycle.ConfigPaths
import Taskq.Lifecycle.Documents
import Taskq.Lifecycle.FirePaths
import Taskq.Lifecycle.HousekeepingPaths
import Taskq.Lifecycle.Life
import Taskq.Lifecycle.MaintenancePaths
import Taskq.Lifecycle.OperatorPaths
import Taskq.Lifecycle.Prefixes
import Taskq.Lifecycle.QueuePaths
import Taskq.Lifecycle.Redrives
import Taskq.Lifecycle.Rows
import Taskq.Lifecycle.SchedulePaths
import Taskq.Lifecycle.ScriptPaths
import Taskq.Lifecycle.SettlePaths
import Taskq.Lifecycle.Statements
import Taskq.Lifecycle.Targets
import Taskq.Lifecycle.Transition
import Taskq.Lifecycle.Vouching
import Taskq.Lifecycle.WorkflowPaths
import Taskq.Lifecycle.Writes
import Taskq.Migrations.Runner
import Taskq.Model.Admission
import Taskq.Model.BulkAdmission
import Taskq.Model.Claim
import Taskq.Model.Config
import Taskq.Model.Continuation
import Taskq.Model.Database
import Taskq.Model.Dependents
import Taskq.Model.Effects
import Taskq.Model.Evaluator
import Taskq.Model.Fire
import Taskq.Model.Housekeeping
import Taskq.Model.JobStore
import Taskq.Model.Jsonb
import Taskq.Model.Listing
import Taskq.Model.Maintenance
import Taskq.Model.Operator
import Taskq.Model.Reservation
import Taskq.Model.Schedule
import Taskq.Model.Schema
import Taskq.Model.Scripts
import Taskq.Model.Settle
import Taskq.Model.System
import Taskq.Model.Values
import Taskq.Model.Workflow
import Taskq.Scheduler.Engine
import Taskq.Worker.Heartbeat
import Taskq.Worker.JobTask
import Taskq.Worker.Orderly
import Taskq.Worker.Outputs
import Taskq.Worker.Reports
import Taskq.Worker.Runs
import Taskq.Worker.Service
import Taskq.Worker.Settlement
import Taskq.Worker.Supervision
import Taskq.Worker.Supervisor
import Taskq.Worker.Turns
import Taskq.Worker.Values
