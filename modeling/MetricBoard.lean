import MetricBoard.Connection.FileDatabase
import MetricBoard.Main
import MetricBoard.Proofs.Expression.Faithful
import MetricBoard.Proofs.Expression.Idempotence
import MetricBoard.Proofs.Concurrency.Semaphore
import MetricBoard.Proofs.Router.Moves
import MetricBoard.Proofs.Router.Locks
import MetricBoard.Proofs.Router.Progress
import MetricBoard.Proofs.Refresh.Metric
import MetricBoard.Proofs.Refresh.Run
import MetricBoard.Proofs.Expression.Leaves
import MetricBoard.Proofs.Expression.Chains
import MetricBoard.Proofs.Expression.Vocabulary
import MetricBoard.Proofs.Expression.ServerReading
import MetricBoard.Proofs.Refresh.Outcomes
import MetricBoard.Proofs.Refresh.Invariant
import MetricBoard.Proofs.Refresh.Completion
import MetricBoard.Proofs.Refresh.Isolation
import MetricBoard.Proofs.Router.Ledger
import MetricBoard.Proofs.Router.Sharing
import MetricBoard.Proofs.Router.Execution
import MetricBoard.Proofs.Router.Phases
import MetricBoard.Proofs.Store.Atomicity
import MetricBoard.Proofs.Store.Listing
import MetricBoard.Proofs.Store.Consistency
import MetricBoard.Proofs.Refresh.Paths
import MetricBoard.Proofs.Refresh.Records
import MetricBoard.Proofs.Refresh.Admission
import MetricBoard.Proofs.Refresh.Service
import MetricBoard.Proofs.Refresh.Cancellation
import MetricBoard.Proofs.Refresh.Scheduling
import MetricBoard.Proofs.Refresh.Triggers
import MetricBoard.Proofs.Refresh.History
import MetricBoard.Proofs.Refresh.Limits
import MetricBoard.Proofs.Refresh.FiniteValues
import MetricBoard.Proofs.Json.ReadBack
import MetricBoard.Proofs.Number.Shortest
import MetricBoard.Proofs.Number.Rounding
import MetricBoard.Proofs.Json.Numbers
import MetricBoard.Proofs.Json.Range
import MetricBoard.Proofs.Moment.Lenient
import MetricBoard.Proofs.Metric.RoundTrip
import MetricBoard.Proofs.Store.Readability
import MetricBoard.Proofs.Refresh.Catalogs
import MetricBoard.Proofs.Connection.ConnectionString
import MetricBoard.Proofs.Connection.ExactNumbers
import MetricBoard.Proofs.Store.TimeOrder
import MetricBoard.Proofs.Refresh.WholeBatch
import MetricBoard.Proofs.Connection.Scalar
import MetricBoard.Proofs.Expression.Canonical
import MetricBoard.Proofs.Expression.Termination
