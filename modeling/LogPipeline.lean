import LogPipeline.Cluster.Runs
import LogPipeline.Cluster.Jobs
import LogPipeline.Cluster.Faults
import LogPipeline.Cluster.AckSafety
import LogPipeline.Cluster.Conservation
import LogPipeline.Cluster.Attempts
import LogPipeline.Cluster.Requeue
import LogPipeline.Ingestion.Metrics
import LogPipeline.Cluster.Shutdown
import LogPipeline.Registry.ControlPlane
import LogPipeline.Registry.Takeover
import LogPipeline.Queue.Names
import LogPipeline.Conc.Typestate
import LogPipeline.Cluster.Control
import LogPipeline.Cluster.Permits
import LogPipeline.Cluster.ReclaimLock
import LogPipeline.Cluster.Routing
import LogPipeline.Cluster.Trimming
import LogPipeline.Cluster.Retention
import LogPipeline.Cluster.Retry
import LogPipeline.Cluster.Reclaim
import LogPipeline.Cluster.Handling
import LogPipeline.Cluster.Batch
import LogPipeline.Ingestion.Timing
import LogPipeline.Conc.Errgroup
import LogPipeline.Conc.Fair
import LogPipeline.Worker.Start
import LogPipeline.Health.Aggregator
import LogPipeline.Cluster.RequeueOnce
import LogPipeline.Cluster.LostChecks
import LogPipeline.Cluster.Dedup
import LogPipeline.Conc.Launch
import LogPipeline.Cluster.Content
import LogPipeline.Registry.Workers
import LogPipeline.Conc.Journal
import LogPipeline.Conc.Front
import LogPipeline.Ingestion.Gateway
import LogPipeline.Ingestion.Course
import LogPipeline.Ingestion.Admission
import LogPipeline.Ingestion.Publication
import LogPipeline.Redis.Lease
import LogPipeline.Cluster.Lease
import LogPipeline.Cluster.Polling
import LogPipeline.Registry.Reconcile
