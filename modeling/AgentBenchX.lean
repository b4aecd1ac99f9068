import AgentBenchX.Lib.Table
import AgentBenchX.Lib.Transition
import AgentBenchX.Schemas
import AgentBenchX.Models
import AgentBenchX.Storage
import AgentBenchX.Lib.Except
import AgentBenchX.Services
import AgentBenchX.ControlPlane
import AgentBenchX.JobLifecycle
import AgentBenchX.Attempts
import AgentBenchX.Fencing
import AgentBenchX.Evidence
import AgentBenchX.Acceptance
import AgentBenchX.ForeignJobs
import AgentBenchX.Lib.Locking
import AgentBenchX.Transactions
import AgentBenchX.LeaseKeeper
import AgentBenchX.Lease
import AgentBenchX.Lib.Tar
import AgentBenchX.Plain
import AgentBenchX.ResultSchema
import AgentBenchX.Timeouts
import AgentBenchX.FailClosed
import AgentBenchX.LockOrder
import AgentBenchX.Uploads
import AgentBenchX.Sync
import AgentBenchX.Credentials
import AgentBenchX.Commits
import AgentBenchX.SyncHistory
import AgentBenchX.StoringPhase
import AgentBenchX.UrlGrammar
import AgentBenchX.Inputs
import AgentBenchX.Preparation
import AgentBenchX.Handover
import AgentBenchX.Recovery
import AgentBenchX.History
import AgentBenchX.Availability
import AgentBenchX.Verdicts
import AgentBenchX.Captured
import AgentBenchX.Extraction
import AgentBenchX.Doctype
import AgentBenchX.Isolation
import AgentBenchX.Mirrors
import AgentBenchX.FirstSync
import AgentBenchX.Library
import AgentBenchX.LiveLease
import AgentBenchX.Keys
import AgentBenchX.KeeperThreads
import AgentBenchX.HealthyLease
import AgentBenchX.IdleSchedule
import AgentBenchX.Dashboard
import AgentBenchX.PatchLines
import AgentBenchX.Delivery
import AgentBenchX.LostLease
import AgentBenchX.Undisturbed
import AgentBenchX.Serial
import AgentBenchX.Lib.WriteOnce
import AgentBenchX.ObjectStorage
import AgentBenchX.LocalStorage
import AgentBenchX.Lib.Script
import AgentBenchX.DockerProtocol
import AgentBenchX.Harness
import AgentBenchX.Timeline
import AgentBenchX.Dispatch
import AgentBenchX.Progress
