import DataHarbour.JobService.LateCallbacks
import DataHarbour.JobService.ConcurrentRetries
import DataHarbour.Metadata.SharedFields
import DataHarbour.Metadata.UpdateTable
import DataHarbour.Metadata.Persistence
import DataHarbour.Orchestrator.Cancellation
import DataHarbour.System.Submissions
import DataHarbour.System.DeadLetters
import DataHarbour.System.Lifecycle
import DataHarbour.JobService.MetricsAgreement
import DataHarbour.JobService.Timestamps
import DataHarbour.Orchestrator.Crashes
import DataHarbour.System.MaxRetries
import DataHarbour.Orchestrator.SparkSubmit
import DataHarbour.System.CallbackRaces
import DataHarbour.Orchestrator.Replicas
import DataHarbour.Orchestrator.LoneReplica
import DataHarbour.Orchestrator.TickFailures
import DataHarbour.Orchestrator.ReplicaSafety
import DataHarbour.Metadata.Operations
import DataHarbour.Metadata.Gauges
import DataHarbour.Metadata.GlueMirror
import DataHarbour.Metadata.Locations
import DataHarbour.Metadata.ConcurrentUpdates
import DataHarbour.Metadata.DistinctNames
import DataHarbour.Lineage.Ingest
import DataHarbour.Lineage.RunStates
import DataHarbour.Lineage.Datasets
import DataHarbour.Lineage.Reingestion
import DataHarbour.Lineage.Convergence
import DataHarbour.Orchestrator.ClockSkew
import DataHarbour.Orchestrator.Lease
import DataHarbour.System.ScheduleUpdates
import DataHarbour.Metadata.History
import DataHarbour.Lineage.DatasetUrls
import DataHarbour.Lineage.Graph
import DataHarbour.Lineage.RunFold
import DataHarbour.Lineage.ConcurrentIngests
import DataHarbour.LogService.Streaming
import DataHarbour.LogService.QueryScope
import DataHarbour.Metadata.Frames
import DataHarbour.Metadata.GlueNames
import DataHarbour.Metadata.Renames
import DataHarbour.Orchestrator.MalformedEvents
import DataHarbour.Orchestrator.StopTasks
import DataHarbour.JobService.ListJobs
import DataHarbour.Orchestrator.Starvation
import DataHarbour.System.Triggers
import DataHarbour.System.Entrypoint
import DataHarbour.Metadata.Reads
import DataHarbour.Lineage.Queries
import DataHarbour.System.SwitchedOff
import DataHarbour.Db.Migrations
import DataHarbour.Metadata.HistoryLog
import DataHarbour.System.Provenance
import DataHarbour.System.Access
import DataHarbour.System.Api
import DataHarbour.System.JobLogs
