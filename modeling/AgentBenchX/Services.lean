import Mathlib.Data.List.MinMax
import Mathlib.Data.Prod.Lex
import AgentBenchX.Lib.Except
import AgentBenchX.Storage

/-!
# The evaluation manager

`EvaluationManager` and the worker authentication in front of it, as
functions from the database a request finds to its answer and the
database it commits. An error answer means the transaction is rolled
back, so no database comes with it; only the object storage, which is
not transactional, is threaded through errors as well.

What a request takes from its surroundings is collected in `Env`: the
successive readings of `now()`, the identifiers `uid()` hands out, the
secret of a new lease or worker, the rows other transactions hold locked
(`SKIP LOCKED` passes over them), what happens to each storage write and
whether the final commit succeeds. The calls to the Redis queue are left
out: they are notifications, and every error in them is swallowed.
-/

namespace AgentBenchX

/-- `Settings`, with the bounds its validation enforces. -/
structure Settings where
  leaseSeconds : ℕ := 120
  workerOfflineSeconds : ℕ := 120
  maxAttempts : ℤ := 3
  leaseSeconds_ge : 30 ≤ leaseSeconds := by decide
  workerOfflineSeconds_ge : 120 ≤ workerOfflineSeconds := by decide

/-- The settings of a deployment, with the hash it stores secrets under. -/
structure Config extends Settings where
  sha256 : String → String

/-- What one request takes from its surroundings. -/
structure Env where
  tick : ℕ → Time
  fresh : ℕ → Uid
  secret : Token
  skipped : List Uid
  put : ℕ → PutOutcome
  commit : Bool

/-! ## Errors -/

def internalError : HttpError := ⟨500, "Internal Server Error"⟩

def integrityError : HttpError := ⟨409, "Record conflicts with existing data"⟩

/-- `require(db, model, identifier)`. -/
def require {α : Type} [Keyed Uid α] (model : String) (t : Table α) (id : Uid) :
    Except HttpError α :=
  match t.get? id with
  | some r => .ok r
  | none => .error ⟨404, model ++ " not found"⟩

/-- An insertion the database may refuse. -/
def inserted (db? : Option Database) : Except HttpError Database :=
  match db? with
  | some db => .ok db
  | none => .error integrityError

/-- `db.commit()`. -/
def Env.committed {α : Type} (env : Env) (a : α) : Except HttpError α :=
  if env.commit then .ok a else .error internalError

/-- `secrets.compare_digest` on strings: a `TypeError` unless both are
ASCII. -/
def compareDigest (a b : String) : Except HttpError Bool :=
  if a.toList.all (fun c => decide (c.toNat < 128)) ∧ b.toList.all (fun c => decide (c.toNat < 128))
  then .ok (decide (a = b))
  else .error internalError

/-! ## Worker authentication -/

/-- The credential of an `Authorization: Bearer` header. -/
def bearer : Option String → Except HttpError String
  | none => .error ⟨401, "Bearer authentication required"⟩
  | some header =>
      if header.toList.take 7 = "Bearer ".toList then .ok (String.ofList (header.toList.drop 7))
      else .error ⟨401, "Bearer authentication required"⟩

/-- `worker_auth`: the row of the authenticated worker, locked for the
rest of the request. -/
def workerAuth (cfg : Config) (db : Database) (id : Uid) (authorization : Option String) :
    Except HttpError Worker :=
  match db.workers.get? id with
  | none => .error ⟨404, "Worker not found"⟩
  | some worker => do
      let token ← bearer authorization
      if cfg.sha256 token = worker.tokenHash then .ok worker
      else .error ⟨403, "Invalid worker credentials"⟩

/-! ## Submission and registration -/

/-- Insert the submission and the first job for one problem version. -/
def enqueueProblem (env : Env) (agentVersionId : Uid) (db : Database) :
    ProblemVersion × ℕ → Except HttpError Database
  | (problem, i) => do
      let submission : Submission := ⟨env.fresh (2 * i), agentVersionId, problem.id⟩
      let db ← inserted (db.insertSubmission submission)
      inserted (db.insertJob
        { id := env.fresh (2 * i + 1), submissionId := submission.id, queuedAt := env.tick i })

def submit (env : Env) (db : Database) (data : SubmissionCreate) :
    Except HttpError Database := do
  let _ ← require "AgentVersion" db.agentVersions data.agentVersionId
  let problems ← data.problemVersionIds.eraseDups.mapM
    (require "ProblemVersion" db.problemVersions)
  if problems.any fun p => decide (p.status ≠ .ready) then
    .error ⟨409, "Problem version is not ready"⟩
  else
    let db ← problems.zipIdx.foldlM (enqueueProblem env data.agentVersionId) db
    env.committed db

structure WorkerRegister where
  name : String
  hostname : String
  platform : String
  version : String
  capabilities : List String
deriving DecidableEq

def register (cfg : Config) (env : Env) (db : Database) (data : WorkerRegister) :
    Except HttpError (Database × Worker) := do
  let worker : Worker :=
    { id := env.fresh 0, name := data.name, hostname := data.hostname,
      platform := data.platform, version := data.version,
      capabilities := data.capabilities, lastHeartbeat := env.tick 0,
      tokenHash := cfg.sha256 env.secret.text }
  match db.workers.insert? worker with
  | none => .error integrityError
  | some workers => env.committed ({ db with workers }, worker)

/-! ## Worker heartbeat -/

/-- The worker row a heartbeat writes; `active` is the id of an active job
of the worker, if the query found one. -/
def workerHeartbeatRow (env : Env) (active : Option Uid) (worker : Worker)
    (status : ReportedStatus) : Worker :=
  { worker with
    status := if active.isSome ∧ status = .online then .busy else status.toWorkerStatus
    lastHeartbeat := env.tick 0 }

def workerHeartbeat (env : Env) (db : Database) (worker : Worker) (status : ReportedStatus) :
    Except HttpError (Database × Worker) :=
  let worker' := workerHeartbeatRow env (db.activeJob worker.id) worker status
  env.committed ({ db with workers := db.workers.update worker' }, worker')

/-! ## The reaper -/

/-- The active jobs whose lease expired before `reading` and whose rows no
other transaction holds. A null expiry compares as unknown and selects
nothing. -/
def expiredJobs (db : Database) (skipped : List Uid) (reading : Time) : List RunnerJob :=
  db.jobs.rows.filter fun j =>
    decide (j.status.IsActive ∧ j.id ∉ skipped)
      && match j.leaseExpiresAt with
         | some e => decide (e < reading)
         | none => false

def leaseExpiredMessage : String := "Worker lease expired; execution outcome unknown"

/-- The row of a job the reaper expires. -/
def expiredRow (cfg : Config) (reading : Time) (job : RunnerJob) : RunnerJob :=
  { job with
    status := if (job.attempt : ℤ) ≥ cfg.maxAttempts then .failed else .timeout
    finishedAt := some reading
    errorMessage := some leaseExpiredMessage }

/-- The job of the next attempt, as both the reaper and `result` create it. -/
def retryOf (id : Uid) (queuedAt : Time) (job : RunnerJob) : RunnerJob :=
  { id, submissionId := job.submissionId, attempt := job.attempt + 1, queuedAt }

/-- Insert the next attempt when the condition for it holds. -/
def retryIf (condition : Prop) [Decidable condition] (db : Database) (retry : RunnerJob) :
    Except HttpError Database :=
  if condition then inserted (db.insertJob retry) else .ok db

/-- Expire one job of the batch and queue its next attempt. `n` is the size
of the batch: the rows of the retries are stamped when they are flushed,
after all jobs of the batch. -/
def expireJob (cfg : Config) (env : Env) (n : ℕ) (db : Database) :
    RunnerJob × ℕ → Except HttpError Database
  | (job, i) =>
      retryIf ((job.attempt : ℤ) < cfg.maxAttempts)
        { db with jobs := db.jobs.update (expiredRow cfg (env.tick (1 + i)) job) }
        (retryOf (env.fresh i) (env.tick (1 + n + i)) job)

/-- The first transaction of `reap`: expire jobs. -/
def reapJobs (cfg : Config) (env : Env) (db : Database) : Except HttpError Database := do
  let expired := expiredJobs db env.skipped (env.tick 0)
  let db ← expired.zipIdx.foldlM (expireJob cfg env expired.length) db
  env.committed db

/-- The workers whose last heartbeat is too old. -/
def offlineWorkers (cfg : Config) (db : Database) (skipped : List Uid) (reading : Time) :
    List Worker :=
  db.workers.rows.filter fun w =>
    decide (w.lastHeartbeat < reading - cfg.workerOfflineSeconds ∧ w.id ∉ skipped
      ∧ (w.status = .online ∨ w.status = .busy))

def markOffline (db : Database) (worker : Worker) : Database :=
  { db with workers := db.workers.update { worker with status := .offline } }

/-- The second transaction of `reap`: mark workers offline. -/
def reapWorkers (cfg : Config) (env : Env) (db : Database) : Except HttpError Database :=
  env.committed ((offlineWorkers cfg db env.skipped (env.tick 0)).foldl markOffline db)

/-! ## Claim -/

/-- The first queued job in the order `queued_at, id` whose row is free. -/
def nextQueued (db : Database) (skipped : List Uid) : Option RunnerJob :=
  (db.jobs.rows.filter fun j => decide (j.status = .queued ∧ j.id ∉ skipped)).argmin
    fun j => toLex (j.queuedAt, j.id)

/-- The rows a claim writes. -/
def claimRows (cfg : Config) (env : Env) (job : RunnerJob) (worker : Worker) :
    RunnerJob × Worker :=
  ({ job with
      workerId := some worker.id
      status := .claimed
      leaseToken := some env.secret
      heartbeatAt := some (env.tick 0)
      leaseExpiresAt := some (env.tick 1 + cfg.leaseSeconds) },
   { worker with status := .busy, lastHeartbeat := env.tick 2 })

/-- What a successful claim answers. -/
structure JobClaim where
  job : RunnerJob
  leaseToken : Token
  leaseSeconds : ℕ
  problemVersion : ProblemVersion
  agentVersion : AgentVersion
deriving DecidableEq

/-- The status check at the head of `claim`. -/
def claimable (worker : Worker) : Except HttpError Unit :=
  if worker.status = .draining ∨ worker.status = .error ∨ worker.status = .offline then
    .error ⟨409, "Worker must be online to claim"⟩
  else .ok ()

def claim (cfg : Config) (env : Env) (db : Database) (worker : Worker) :
    Except HttpError (Database × Option JobClaim) := do
  claimable worker
  if (db.activeJob worker.id).isSome then .error ⟨409, "Worker already has an active job"⟩
  else
    match nextQueued db env.skipped with
    | none => env.committed (db, none)
    | some job =>
        let (job', worker') := claimRows cfg env job worker
        let submission ← require "Submission" db.submissions job.submissionId
        let problem ← require "ProblemVersion" db.problemVersions submission.problemVersionId
        let agent ← require "AgentVersion" db.agentVersions submission.agentVersionId
        env.committed
          ({ db with jobs := db.jobs.update job', workers := db.workers.update worker' },
           some ⟨job', env.secret, cfg.leaseSeconds, problem, agent⟩)

/-! ## Ownership -/

/-- `job.lease_expires_at <= now()`; comparing a null expiry raises. -/
def leaseUnexpired (job : RunnerJob) (reading : Time) (detail : String) :
    Except HttpError Unit :=
  match job.leaseExpiresAt with
  | none => .error internalError
  | some e => if e ≤ reading then .error ⟨409, detail⟩ else .ok ()

/-- The job is active and its lease has not expired at `reading`. -/
def leaseValid (job : RunnerJob) (reading : Time) (detail : String) :
    Except HttpError Unit :=
  if job.status.IsActive then leaseUnexpired job reading detail else .error ⟨409, detail⟩

/-- `owned_job` on the row the locking select returned. -/
def ownedJob (job? : Option RunnerJob) (worker : Worker) (token : String)
    (allowTerminal : Bool) (reading : Time) : Except HttpError RunnerJob :=
  match job? with
  | none => .error ⟨403, "Invalid job lease"⟩
  | some job =>
      if job.workerId ≠ some worker.id then .error ⟨403, "Invalid job lease"⟩
      else do
        let same ← compareDigest ((job.leaseToken.map Token.text).getD "") token
        if !same then .error ⟨403, "Invalid job lease"⟩
        else if allowTerminal ∧ job.status.IsTerminal then .ok job
        else do
          leaseValid job reading "Job lease expired or job is terminal"
          .ok job

/-! ## Job heartbeat -/

/-- The rows a job heartbeat writes. -/
def heartbeatRows (cfg : Config) (env : Env) (job : RunnerJob) (worker : Worker)
    (event : JobEvent) : RunnerJob × Worker :=
  ({ job with
      lastEvent := some event
      status := .running
      heartbeatAt := some (env.tick 1)
      startedAt := some (job.startedAt.getD (env.tick 2))
      leaseExpiresAt := some (env.tick 3 + cfg.leaseSeconds) },
   { worker with lastHeartbeat := env.tick 4 })

def heartbeat (cfg : Config) (env : Env) (db : Database) (worker : Worker) (jobId : Uid)
    (data : JobHeartbeat) : Except HttpError (Database × RunnerJob) := do
  let job ← ownedJob (db.jobs.get? jobId) worker data.leaseToken false (env.tick 0)
  let (job', worker') := heartbeatRows cfg env job worker data.event
  env.committed
    ({ db with jobs := db.jobs.update job', workers := db.workers.update worker' }, job')

/-- The agent download route: the version whose file is streamed. -/
def download (env : Env) (db : Database) (worker : Worker) (jobId : Uid) (token : String) :
    Except HttpError AgentVersion := do
  let job ← ownedJob (db.jobs.get? jobId) worker token false (env.tick 0)
  let submission ← require "Submission" db.submissions job.submissionId
  require "AgentVersion" db.agentVersions submission.agentVersionId

/-! ## Result -/

/-- The number of reported tests with this status. -/
def countTests (status : TestStatus) (tests : List TestInput) : ℕ :=
  tests.countP fun t => decide (t.status = status)

/-- `CostCalculator.calculate`. -/
def calculate (result : ResultInput) : EvaluationMetrics :=
  let m := result.metrics
  let passed := countTests .passed result.tests
  let failed := countTests .failed result.tests
  { reported := m
    totalTokens := do return (← m.inputTokens) + (← m.outputTokens)
    totalCost := do return ((← m.llmCost).add (← m.computeCost)).round 8
    totalTests := result.tests.length
    testsPassed := passed
    testsFailed := failed
    testsSkipped := countTests .skipped result.tests
    score := if passed + failed ≠ 0 then passed / (passed + failed) else 0
    execution := result.execution }

/-- `generate_basic_report`. -/
def generateBasicReport (result : ResultInput) (context : List (String × ReportValue)) :
    Report where
  values :=
    [("Status", .status result.status)] ++ context ++
    [("Runtime", .number result.metrics.runtimeSeconds),
     ("Failure Type", .text ((result.failureType.map FailureType.text).getD "None")),
     ("Passed Tests", .count (countTests .passed result.tests)),
     ("Failed Tests", .count (countTests .failed result.tests)),
     ("Skipped Tests", .count (countTests .skipped result.tests))]
  execution := result.execution

/-- The context `result` hands to the report. -/
def reportContext (worker : Worker) (problem : ProblemVersion) (job : RunnerJob) :
    List (String × ReportValue) :=
  [("Worker", .text worker.name), ("Worker ID", .ref worker.id),
   ("Problem", .text problem.problemPath), ("Problem ID", .ref problem.problemId),
   ("Problem Version", .ref problem.id), ("Commit SHA", .text problem.commitSha),
   ("Attempt", .count job.attempt)]

/-- The artifacts `collect_artifacts` writes, in its order. -/
def artifacts (result : ResultInput) (context : List (String × ReportValue)) :
    List (String × Artifact) :=
  [("stdout.log", .text result.stdout), ("stderr.log", .text result.stderr),
   ("agent_output.log", .text result.agentOutput), ("patch.diff", .text result.patch),
   ("test_result.json", .testResults result.tests),
   ("analysis.md", .report (generateBasicReport result context))]

/-- The evaluation row of an accepted result. -/
def evaluationRow (env : Env) (worker : Worker) (job : RunnerJob) (problem : ProblemVersion)
    (data : ResultInput) : Evaluation :=
  { id := env.fresh 0, jobId := job.id, submissionId := job.submissionId,
    workerId := worker.id, status := data.status, failureType := data.failureType,
    metrics := calculate data, artifactPath := ⟨env.fresh 0, problem.problemId⟩ }

/-- The rows that refer to the evaluation. -/
def addEvidence (cfg : Config) (db : Database) (evaluation : Evaluation)
    (data : ResultInput) : Database :=
  { db with
    testResults := db.testResults ++ data.tests.map fun t => ⟨evaluation.id, t⟩
    logs := db.logs ++ ["stdout", "stderr", "agent_output"].map fun kind =>
      ⟨evaluation.id, kind, .artifact evaluation.artifactPath (kind ++ ".log")⟩
    patches := db.patches ++
      [⟨evaluation.id, .artifact evaluation.artifactPath "patch.diff", cfg.sha256 data.patch⟩]
    scores := db.scores ++ [⟨evaluation.id, evaluation.metrics.score⟩] }

/-- The job row an accepted result leaves. -/
def finishedRow (env : Env) (job : RunnerJob) (data : ResultInput) : RunnerJob :=
  { job with
    status := data.status.toJobStatus
    finishedAt := some (env.tick 3)
    errorMessage := data.failureType.map FailureType.text }

/-- The worker row an accepted result leaves. -/
def releasedRow (env : Env) (worker : Worker) : Worker :=
  { worker with
    status := if worker.status = .draining then .draining else .online
    lastHeartbeat := env.tick 4 }

/-- The database part of accepting a result, after the artifacts are stored. -/
def recordResult (cfg : Config) (env : Env) (db : Database) (worker : Worker)
    (job : RunnerJob) (problem : ProblemVersion) (data : ResultInput) :
    Except HttpError (Database × Evaluation) := do
  let evaluation := evaluationRow env worker job problem data
  let db ← inserted (db.insertEvaluation evaluation)
  let db := addEvidence cfg db evaluation data
  let db := { db with
    jobs := db.jobs.update (finishedRow env job data)
    workers := db.workers.update (releasedRow env worker) }
  let db ← retryIf
    (data.failureType = some .infrastructureFailure ∧ (job.attempt : ℤ) < cfg.maxAttempts)
    db (retryOf (env.fresh 1) (env.tick 5) job)
  env.committed (db, evaluation)

/-- The part of `result` before the artifacts are written: the earlier
evaluation of a repeated report, or the job to record it for. -/
def resultTarget (env : Env) (db : Database) (worker : Worker) (jobId : Uid)
    (data : ResultInput) : Except HttpError (Evaluation ⊕ RunnerJob × ProblemVersion) := do
  let job ← ownedJob (db.jobs.get? jobId) worker data.leaseToken true (env.tick 0)
  match db.evaluationOf job.id with
  | some previous => .ok (.inl previous)
  | none => do
      leaseValid job (env.tick 1) "Stale result; lease no longer valid"
      let submission ← require "Submission" db.submissions job.submissionId
      let problem ← require "ProblemVersion" db.problemVersions submission.problemVersionId
      .ok (.inr (job, problem))

/-- `result`: the storage it leaves, and its answer with the database it
commits. -/
def result (cfg : Config) (env : Env) (db : Database) (st : Storage) (worker : Worker)
    (jobId : Uid) (data : ResultInput) :
    Storage × Except HttpError (Database × Evaluation) :=
  match resultTarget env db worker jobId data with
  | .error e => (st, .error e)
  | .ok (.inl previous) => (st, .ok (db, previous))
  | .ok (.inr (job, problem)) =>
      match st.putAll ⟨env.fresh 0, problem.problemId⟩ env.put 0
          (artifacts data (reportContext worker problem job)) with
      | (st', .error e) => (st', .error e)
      | (st', .ok ()) =>
          -- Remote storage can stall while this transaction fences the job.
          (st', do
            leaseUnexpired job (env.tick 2) "Result storage exceeded job lease"
            recordResult cfg env db worker job problem data)

/-! ## What a successful answer says -/

theorem ok_of_inserted {db? : Option Database} {db : Database}
    (h : inserted db? = .ok db) : db? = some db := by
  cases db? with
  | none => cases h
  | some d => rw [Except.ok.inj h]

theorem Env.ok_of_committed {α : Type} {env : Env} {a b : α}
    (h : env.committed a = .ok b) : a = b := by
  unfold Env.committed at h
  split at h
  · exact Except.ok.inj h
  · cases h

theorem mem_of_workerAuth {cfg : Config} {db : Database} {id : Uid} {auth : Option String}
    {w : Worker} (h : workerAuth cfg db id auth = .ok w) : w ∈ db.workers ∧ w.id = id := by
  unfold workerAuth at h
  split at h
  · cases h
  · rename_i w' hw'
    obtain ⟨token, -, h⟩ := ok_of_bind h
    split at h
    · obtain rfl := Except.ok.inj h
      exact Table.get?_eq_some.mp hw'
    · cases h

/-- What `owned_job` has checked when it returns a job. -/
theorem ownedJob_ok {job? : Option RunnerJob} {w : Worker} {token : String}
    {allowTerminal : Bool} {reading : Time} {j : RunnerJob}
    (h : ownedJob job? w token allowTerminal reading = .ok j) :
    job? = some j ∧ j.workerId = some w.id
      ∧ compareDigest ((j.leaseToken.map Token.text).getD "") token = .ok true
      ∧ ((allowTerminal = true ∧ j.status.IsTerminal)
        ∨ leaseValid j reading "Job lease expired or job is terminal" = .ok ()) := by
  unfold ownedJob at h
  split at h
  · cases h
  · rename_i job
    split at h
    · cases h
    · rename_i hown
      obtain ⟨same, hsame, h⟩ := ok_of_bind h
      cases same with
      | false => cases h
      | true =>
          simp only [Bool.not_true, Bool.false_eq_true, if_false] at h
          split at h
          · rename_i hterm
            obtain rfl := Except.ok.inj h
            exact ⟨rfl, not_not.mp hown, hsame, Or.inl hterm⟩
          · obtain ⟨⟨⟩, hvalid, h⟩ := ok_of_bind h
            obtain rfl := Except.ok.inj h
            exact ⟨rfl, not_not.mp hown, hsame, Or.inr hvalid⟩

theorem leaseUnexpired_ok {j : RunnerJob} {reading : Time} {detail : String}
    (h : leaseUnexpired j reading detail = .ok ()) :
    ∃ e, j.leaseExpiresAt = some e ∧ reading < e := by
  unfold leaseUnexpired at h
  split at h
  · cases h
  · rename_i e he
    split at h
    · cases h
    · exact ⟨e, he, not_le.mp ‹_›⟩

theorem leaseValid_ok {j : RunnerJob} {reading : Time} {detail : String}
    (h : leaseValid j reading detail = .ok ()) :
    j.status.IsActive ∧ ∃ e, j.leaseExpiresAt = some e ∧ reading < e := by
  unfold leaseValid at h
  split at h
  · exact ⟨‹_›, leaseUnexpired_ok h⟩
  · cases h

end AgentBenchX
