import AgentBenchX.Lib.Table
import AgentBenchX.Schemas

/-!
# Durable control-plane records

The rows of the database, with the constraints the schema declares on
them: primary keys (carried by `Table`), `UNIQUE(submission_id,
attempt)` on jobs, `UNIQUE(job_id)` on evaluations, and the foreign keys
of the rows the worker protocol inserts.

Identifiers are the UUID strings of the source; only their equality and
their order are ever used, so they are natural numbers here. Times are
rational seconds.
-/

namespace AgentBenchX

abbrev Uid := ℕ

abbrev Time := ℚ

/-- A lease token. `secrets.token_urlsafe` yields URL-safe text, which is
ASCII; `compare_digest` depends on that. -/
structure Token where
  text : String
  ascii : text.toList.all (fun c => decide (c.toNat < 128)) = true
deriving DecidableEq

/-! ## Enumerations -/

inductive JobStatus where
  | queued | claimed | running | completed | failed | timeout
deriving DecidableEq, Repr

namespace JobStatus

/-- `status in {"CLAIMED", "RUNNING"}`: a worker is executing the job. -/
def IsActive (s : JobStatus) : Prop := s = .claimed ∨ s = .running

/-- `status in {"COMPLETED", "FAILED", "TIMEOUT"}`. -/
def IsTerminal (s : JobStatus) : Prop := s = .completed ∨ s = .failed ∨ s = .timeout

instance (s : JobStatus) : Decidable s.IsActive := by unfold IsActive; infer_instance

instance (s : JobStatus) : Decidable s.IsTerminal := by unfold IsTerminal; infer_instance

theorem IsActive.not_terminal {s : JobStatus} (h : s.IsActive) : ¬s.IsTerminal := by
  rcases h with rfl | rfl <;> simp [IsTerminal]

theorem IsActive.ne_queued {s : JobStatus} (h : s.IsActive) : s ≠ .queued := by
  rcases h with rfl | rfl <;> simp

theorem IsTerminal.ne_queued {s : JobStatus} (h : s.IsTerminal) : s ≠ .queued := by
  rcases h with rfl | rfl | rfl <;> simp

/-- A job is waiting, executing or finished. -/
theorem cases_on_phase (s : JobStatus) : s = .queued ∨ s.IsActive ∨ s.IsTerminal := by
  cases s <;> simp [IsActive, IsTerminal]

end JobStatus

/-- The job status a reported result becomes. -/
def ResultStatus.toJobStatus : ResultStatus → JobStatus
  | .completed => .completed
  | .failed => .failed
  | .timeout => .timeout

theorem ResultStatus.toJobStatus_isTerminal (s : ResultStatus) : s.toJobStatus.IsTerminal := by
  cases s <;> simp [toJobStatus, JobStatus.IsTerminal]

inductive WorkerStatus where
  | online | busy | draining | error | offline
deriving DecidableEq, Repr

/-- The statuses a worker may report about itself. -/
inductive ReportedStatus where
  | online | draining | error | offline
deriving DecidableEq, Repr

def ReportedStatus.toWorkerStatus : ReportedStatus → WorkerStatus
  | .online => .online
  | .draining => .draining
  | .error => .error
  | .offline => .offline

inductive VersionStatus where
  | ready | other (name : String)
deriving DecidableEq, Repr

/-! ## Rows -/

structure AgentVersion where
  id : Uid
  agentId : Uid
  filename : String
  sha256 : String
  size : ℕ
  version : ℕ
deriving DecidableEq

structure ProblemVersion where
  id : Uid
  problemId : Uid
  repositoryUrl : String
  branch : String
  commitSha : String
  problemPath : String
  testCommand : List String
  timeoutSeconds : ℤ
  status : VersionStatus := .ready
deriving DecidableEq

structure Submission where
  id : Uid
  agentVersionId : Uid
  problemVersionId : Uid
deriving DecidableEq

structure Worker where
  id : Uid
  name : String
  hostname : String
  platform : String
  version : String
  capabilities : List String
  status : WorkerStatus := .online
  lastHeartbeat : Time
  tokenHash : String
deriving DecidableEq

structure RunnerJob where
  id : Uid
  submissionId : Uid
  workerId : Option Uid := none
  status : JobStatus := .queued
  attempt : ℕ := 1
  queuedAt : Time
  startedAt : Option Time := none
  finishedAt : Option Time := none
  heartbeatAt : Option Time := none
  leaseExpiresAt : Option Time := none
  lastEvent : Option JobEvent := none
  leaseToken : Option Token := none
  errorMessage : Option String := none
deriving DecidableEq

/-- The metrics JSON of an evaluation: what the worker reported, and the
figures `CostCalculator` derives from it. -/
structure EvaluationMetrics where
  reported : Metrics
  totalTokens : Option ℤ
  totalCost : Option PyFloat
  totalTests : ℕ
  testsPassed : ℕ
  testsFailed : ℕ
  testsSkipped : ℕ
  score : ℚ
  execution : Option ExecutionEvidence
deriving DecidableEq

/-- `evaluations/<evaluation id>/<problem id>`. -/
structure ArtifactPath where
  evaluationId : Uid
  problemId : Uid
deriving DecidableEq

structure Evaluation where
  id : Uid
  jobId : Uid
  submissionId : Uid
  workerId : Uid
  status : ResultStatus
  failureType : Option FailureType
  metrics : EvaluationMetrics
  artifactPath : ArtifactPath
deriving DecidableEq

structure TestResult where
  evaluationId : Uid
  test : TestInput
deriving DecidableEq

/-- Logical object keys: `agents/<agent id>/<version id>/agent.py` and the
files below an artifact path. -/
inductive StorageKey where
  | agentFile (agentId versionId : Uid)
  | artifact (path : ArtifactPath) (name : String)
deriving DecidableEq

structure EvaluationLog where
  evaluationId : Uid
  kind : String
  storagePath : StorageKey
deriving DecidableEq

structure Patch where
  evaluationId : Uid
  storagePath : StorageKey
  sha256 : String
deriving DecidableEq

structure Score where
  evaluationId : Uid
  value : ℚ
deriving DecidableEq

instance : Keyed Uid AgentVersion := ⟨AgentVersion.id⟩
instance : Keyed Uid ProblemVersion := ⟨ProblemVersion.id⟩
instance : Keyed Uid Submission := ⟨Submission.id⟩
instance : Keyed Uid Worker := ⟨Worker.id⟩
instance : Keyed Uid RunnerJob := ⟨RunnerJob.id⟩
instance : Keyed Uid Evaluation := ⟨Evaluation.id⟩

@[simp] theorem key_submission (s : Submission) : Keyed.key s = s.id := rfl
@[simp] theorem key_worker (w : Worker) : Keyed.key w = w.id := rfl
@[simp] theorem key_runnerJob (j : RunnerJob) : Keyed.key j = j.id := rfl
@[simp] theorem key_evaluation (e : Evaluation) : Keyed.key e = e.id := rfl
@[simp] theorem key_agentVersion (v : AgentVersion) : Keyed.key v = v.id := rfl
@[simp] theorem key_problemVersion (v : ProblemVersion) : Keyed.key v = v.id := rfl

/-! ## The database -/

structure Database where
  agentVersions : Table AgentVersion
  problemVersions : Table ProblemVersion
  submissions : Table Submission
  workers : Table Worker
  jobs : Table RunnerJob
  evaluations : Table Evaluation
  testResults : List TestResult
  logs : List EvaluationLog
  patches : List Patch
  scores : List Score
deriving DecidableEq

namespace Database

/-- A database before the first registration and submission; agent and
problem versions may be there already. -/
def Fresh (db : Database) : Prop :=
  db.submissions = Table.empty ∧ db.workers = Table.empty ∧ db.jobs = Table.empty
    ∧ db.evaluations = Table.empty ∧ db.testResults = [] ∧ db.logs = []
    ∧ db.patches = [] ∧ db.scores = []

instance (db : Database) : Decidable db.Fresh := by unfold Fresh; infer_instance

/-- Insert a submission; `none` is an integrity error. -/
def insertSubmission (db : Database) (s : Submission) : Option Database :=
  if (db.agentVersions.get? s.agentVersionId).isSome
      ∧ (db.problemVersions.get? s.problemVersionId).isSome then
    (db.submissions.insert? s).map fun t => { db with submissions := t }
  else none

/-- Some job already carries this submission and attempt. -/
def AttemptTaken (db : Database) (submissionId : Uid) (attempt : ℕ) : Prop :=
  ∃ j ∈ db.jobs.rows, j.submissionId = submissionId ∧ j.attempt = attempt

instance (db : Database) (s : Uid) (n : ℕ) : Decidable (db.AttemptTaken s n) := by
  unfold AttemptTaken; infer_instance

/-- Insert a job under `UNIQUE(submission_id, attempt)` and its foreign
key; `none` is an integrity error. -/
def insertJob (db : Database) (j : RunnerJob) : Option Database :=
  if db.AttemptTaken j.submissionId j.attempt then none
  else if (db.submissions.get? j.submissionId).isNone then none
  else (db.jobs.insert? j).map fun t => { db with jobs := t }

/-- Insert an evaluation under `UNIQUE(job_id)`; `none` is an integrity
error. The rows its foreign keys name are locked by the caller. -/
def insertEvaluation (db : Database) (e : Evaluation) : Option Database :=
  if ∃ e' ∈ db.evaluations.rows, e'.jobId = e.jobId then none
  else (db.evaluations.insert? e).map fun t => { db with evaluations := t }

/-! ### What a successful insertion says -/

theorem insertSubmission_eq {db db' : Database} {s : Submission}
    (h : db.insertSubmission s = some db') :
    ∃ t, db.submissions.insert? s = some t ∧ db' = { db with submissions := t } := by
  unfold insertSubmission at h
  split at h
  · obtain ⟨t, ht, rfl⟩ := Option.map_eq_some_iff.mp h
    exact ⟨t, ht, rfl⟩
  · cases h

theorem insertJob_eq {db db' : Database} {j : RunnerJob} (h : db.insertJob j = some db') :
    ¬db.AttemptTaken j.submissionId j.attempt
      ∧ (∃ s ∈ db.submissions, s.id = j.submissionId)
      ∧ ∃ t, db.jobs.insert? j = some t ∧ db' = { db with jobs := t } := by
  unfold insertJob at h
  split at h
  · cases h
  · rename_i hfree
    split at h
    · cases h
    · rename_i hsub
      obtain ⟨t, ht, rfl⟩ := Option.map_eq_some_iff.mp h
      obtain ⟨s, hs⟩ := Option.ne_none_iff_exists'.mp (by simpa using hsub)
      exact ⟨hfree, ⟨s, Table.mem_of_get? hs, Table.key_of_get? hs⟩, t, ht, rfl⟩

/-- When an insertion meets no constraint. -/
theorem insertJob_isSome {db : Database} {j : RunnerJob}
    (hfree : ¬db.AttemptTaken j.submissionId j.attempt)
    (hsub : ∃ s ∈ db.submissions, s.id = j.submissionId) (hnew : ∀ x ∈ db.jobs, x.id ≠ j.id) :
    ∃ db', db.insertJob j = some db' := by
  obtain ⟨s, hs, hsj⟩ := hsub
  have hget : db.submissions.get? j.submissionId = some s := Table.get?_eq_some.mpr ⟨hs, hsj⟩
  obtain ⟨t, ht⟩ := Table.insert?_isSome (t := db.jobs) (r := j) hnew
  unfold insertJob
  rw [if_neg hfree, if_neg (by simp [hget]), ht]
  exact ⟨_, rfl⟩

theorem insertEvaluation_eq {db db' : Database} {e : Evaluation}
    (h : db.insertEvaluation e = some db') :
    (∀ e' ∈ db.evaluations, e'.jobId ≠ e.jobId)
      ∧ ∃ t, db.evaluations.insert? e = some t ∧ db' = { db with evaluations := t } := by
  unfold insertEvaluation at h
  split at h
  · cases h
  · rename_i hfree
    obtain ⟨t, ht, rfl⟩ := Option.map_eq_some_iff.mp h
    exact ⟨fun e' he' heq => hfree ⟨e', he', heq⟩, t, ht, rfl⟩

theorem insertEvaluation_isSome {db : Database} {e : Evaluation}
    (hfree : ∀ e' ∈ db.evaluations, e'.jobId ≠ e.jobId)
    (hnew : ∀ e' ∈ db.evaluations, e'.id ≠ e.id) : ∃ db', db.insertEvaluation e = some db' := by
  obtain ⟨t, ht⟩ := Table.insert?_isSome (t := db.evaluations) (r := e) hnew
  unfold insertEvaluation
  rw [if_neg (fun ⟨e', he', heq⟩ => hfree e' he' heq), ht]
  exact ⟨_, rfl⟩

/-! ### Queries -/

/-- `select(Evaluation).where(Evaluation.job_id == job_id)`. -/
def evaluationOf (db : Database) (jobId : Uid) : Option Evaluation :=
  db.evaluations.rows.find? fun e => decide (e.jobId = jobId)

theorem evaluationOf_eq_none {db : Database} {jobId : Uid} :
    db.evaluationOf jobId = none ↔ ∀ e ∈ db.evaluations, e.jobId ≠ jobId := by
  simp [evaluationOf, List.find?_eq_none, Table.mem_def]

theorem mem_of_evaluationOf {db : Database} {jobId : Uid} {e : Evaluation}
    (h : db.evaluationOf jobId = some e) : e ∈ db.evaluations ∧ e.jobId = jobId :=
  ⟨List.mem_of_find?_eq_some h, by simpa using List.find?_some h⟩

/-- The id of an active job of the worker, if it has one. -/
def activeJob (db : Database) (workerId : Uid) : Option Uid :=
  (db.jobs.rows.find? fun j => decide (j.workerId = some workerId ∧ j.status.IsActive)).map
    RunnerJob.id

theorem activeJob_eq_none {db : Database} {workerId : Uid} :
    db.activeJob workerId = none
      ↔ ∀ j ∈ db.jobs, j.workerId = some workerId → ¬j.status.IsActive := by
  simp [activeJob, List.find?_eq_none, Table.mem_def]

end Database

end AgentBenchX
