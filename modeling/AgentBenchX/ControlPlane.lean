import AgentBenchX.Lib.Transition
import AgentBenchX.Services

/-!
# The control plane as a transition system

A request is handled by one transaction: `handle` authenticates the
worker, runs the manager method and yields the database it commits, the
storage it leaves and the answer. `controlPlane` runs requests in any
order, with any surroundings, under a clock that never goes back; the
two transactions of the reaper are two requests.

The second half says once what a request can do to the database.
`Change` lists the row changes of the source with the facts checked
before each of them, and `handle_change` shows that every request is a
sequence of such changes (empty for a rejected or read-only request).
Every invariant of the database is proved over `Change`.
-/

namespace AgentBenchX

/-! ## Requests -/

inductive Request where
  | submit (data : SubmissionCreate)
  | register (data : WorkerRegister)
  | workerHeartbeat (id : Uid) (authorization : Option String) (status : ReportedStatus)
  | claim (id : Uid) (authorization : Option String)
  | heartbeat (id : Uid) (authorization : Option String) (jobId : Uid) (data : JobHeartbeat)
  | download (id : Uid) (authorization : Option String) (jobId : Uid) (token : String)
  | result (id : Uid) (authorization : Option String) (jobId : Uid) (data : ResultInput)
  | reapJobs
  | reapWorkers
deriving DecidableEq

inductive Response where
  | error (e : HttpError)
  | invalid (errors : List FieldError)
  | done
  | credentials (worker : Worker) (token : Token)
  | worker (w : Worker)
  | claimed (claim : Option JobClaim)
  | job (j : RunnerJob)
  | agentFile (v : AgentVersion)
  | evaluation (e : Evaluation)
deriving DecidableEq

/-- What a claim that got a job is answered. -/
def Response.claim? : Response → Option JobClaim
  | .claimed claim => claim
  | _ => none

/-- Commit the database of a successful answer; keep the old one otherwise. -/
def respond {α : Type} (db : Database) (answer : α → Response) :
    Except HttpError (Database × α) → Database × Response
  | .ok (db', a) => (db', answer a)
  | .error e => (db, .error e)

/-- The same for a method that answers nothing but its success. -/
def respondDone (db : Database) : Except HttpError Database → Database × Response
  | .ok db' => (db', .done)
  | .error e => (db, .error e)

/-- The result route: the body is validated once the worker is authenticated. -/
def handleResult (cfg : Config) (env : Env) (db : Database) (st : Storage) (id : Uid)
    (auth : Option String) (jobId : Uid) (body : ResultInput) :
    (Database × Response) × Storage :=
  match workerAuth cfg db id auth with
  | .error e => ((db, .error e), st)
  | .ok worker =>
      match body.validate with
      | .error errors => ((db, .invalid errors), st)
      | .ok data =>
          let (st', answer) := result cfg env db st worker jobId data
          (respond db .evaluation answer, st')

/-- A request, from the database and storage it finds to those it leaves
and its answer. -/
def handle (cfg : Config) (env : Env) (db : Database) (st : Storage) :
    Request → (Database × Response) × Storage
  | .submit data => (respondDone db (submit env db data), st)
  | .register data =>
      (respond db (fun w => .credentials w env.secret) (register cfg env db data), st)
  | .workerHeartbeat id auth status =>
      (respond db .worker (do
        let worker ← workerAuth cfg db id auth
        workerHeartbeat env db worker status), st)
  | .claim id auth =>
      (respond db .claimed (do
        let worker ← workerAuth cfg db id auth
        claim cfg env db worker), st)
  | .heartbeat id auth jobId data =>
      (respond db .job (do
        let worker ← workerAuth cfg db id auth
        heartbeat cfg env db worker jobId data), st)
  | .download id auth jobId token =>
      (respond db .agentFile (do
        let worker ← workerAuth cfg db id auth
        let version ← download env db worker jobId token
        .ok (db, version)), st)
  | .result id auth jobId data => handleResult cfg env db st id auth jobId data
  | .reapJobs => (respondDone db (reapJobs cfg env db), st)
  | .reapWorkers => (respondDone db (reapWorkers cfg env db), st)

/-! ## The system -/

structure State where
  db : Database
  storage : Storage
  clock : Time

/-- The readings of one request: in order, from its start on, all taken by
the time it ends. -/
structure Timed (env : Env) (start stop : Time) : Prop where
  mono : Monotone env.tick
  ge : start ≤ env.tick 0
  le : ∀ i, env.tick i ≤ stop

theorem Timed.start_le {env : Env} {c c' : Time} (h : Timed env c c') (i : ℕ) :
    c ≤ env.tick i :=
  h.ge.trans (h.mono (Nat.zero_le i))

theorem Timed.start_le_stop {env : Env} {c c' : Time} (h : Timed env c c') : c ≤ c' :=
  h.ge.trans (h.le 0)

/-- One handled request: what was asked, in which surroundings, and what was
answered. -/
structure Call where
  request : Request
  env : Env
  response : Response

/-- The worker and the answer of a claim that got a job. -/
def Call.assignment (call : Call) : Option (Uid × JobClaim) :=
  match call.request, call.response with
  | .claim id _, .claimed (some claim) => some (id, claim)
  | _, _ => none

/-- Requests handled one after the other, in any order, with a clock that
never goes back. -/
def controlPlane (cfg : Config) : Transition State Call where
  init s := s.db.Fresh
  step s call t :=
    Timed call.env s.clock t.clock
      ∧ handle cfg call.env s.db s.storage call.request = ((t.db, call.response), t.storage)

/-! ## What a request can change -/

/-- A retry is inserted when the condition holds; otherwise nothing more
happens. -/
def Retried (db db' : Database) (condition : Prop) (retry : RunnerJob) : Prop :=
  (condition ∧ db.insertJob retry = some db') ∨ (¬condition ∧ db' = db)

/-- The kinds of change, one for each kind of request that makes any. -/
inductive ChangeKind where
  | enqueue | register | report | claim | renew | finish | expire | offline
deriving DecidableEq

/-- One change of the database, made between the clock times `c` and `c'`,
with what the source has checked before making it. -/
inductive Change (cfg : Config) (c c' : Time) : ChangeKind → Database → Database → Prop
  | enqueue {db db₁ db' : Database} {submission : Submission} {id : Uid} {t : Time} :
      db.insertSubmission submission = some db₁ →
      db₁.insertJob { id, submissionId := submission.id, queuedAt := t } = some db' →
      Change cfg c c' .enqueue db db'
  | register {db : Database} {w : Worker} {workers : Table Worker} :
      db.workers.insert? w = some workers →
      Change cfg c c' .register db { db with workers }
  | report {db : Database} {env : Env} {w : Worker} {active : Option Uid}
      {status : ReportedStatus} :
      Timed env c c' → w ∈ db.workers →
      Change cfg c c' .report db
        { db with workers := db.workers.update (workerHeartbeatRow env active w status) }
  | claim {db : Database} {env : Env} {w : Worker} {j : RunnerJob} :
      Timed env c c' → w ∈ db.workers → claimable w = .ok () → db.activeJob w.id = none →
      j ∈ db.jobs → j.status = .queued →
      Change cfg c c' .claim db
        { db with
          jobs := db.jobs.update (claimRows cfg env j w).1
          workers := db.workers.update (claimRows cfg env j w).2 }
  | renew {db : Database} {env : Env} {w : Worker} {j : RunnerJob} {event : JobEvent}
      {e : Time} :
      Timed env c c' → w ∈ db.workers → j ∈ db.jobs → j.workerId = some w.id →
      j.status.IsActive → j.leaseExpiresAt = some e → env.tick 0 < e →
      Change cfg c c' .renew db
        { db with
          jobs := db.jobs.update (heartbeatRows cfg env j w event).1
          workers := db.workers.update (heartbeatRows cfg env j w event).2 }
  | finish {db db' : Database} {env : Env} {w : Worker} {j : RunnerJob}
      {problem : ProblemVersion} {data : ResultInput} {e : Time}
      {evaluations : Table Evaluation} :
      Timed env c c' → w ∈ db.workers → j ∈ db.jobs → j.workerId = some w.id →
      j.status.IsActive → j.leaseExpiresAt = some e → env.tick 2 < e → data.Valid →
      (∀ ev ∈ db.evaluations, ev.jobId ≠ j.id) →
      db.evaluations.insert? (evaluationRow env w j problem data) = some evaluations →
      Retried
        { addEvidence cfg { db with evaluations } (evaluationRow env w j problem data) data with
          jobs := db.jobs.update (finishedRow env j data)
          workers := db.workers.update (releasedRow env w) }
        db'
        (data.failureType = some .infrastructureFailure ∧ (j.attempt : ℤ) < cfg.maxAttempts)
        (retryOf (env.fresh 1) (env.tick 5) j) →
      Change cfg c c' .finish db db'
  | expire {db db' : Database} {j : RunnerJob} {e t₀ t₁ t₂ : Time} {id : Uid} :
      c ≤ t₀ → t₀ ≤ t₁ → t₁ ≤ t₂ → t₂ ≤ c' →
      j ∈ db.jobs → j.status.IsActive → j.leaseExpiresAt = some e → e < t₀ →
      Retried { db with jobs := db.jobs.update (expiredRow cfg t₁ j) } db'
        ((j.attempt : ℤ) < cfg.maxAttempts) (retryOf id t₂ j) →
      Change cfg c c' .expire db db'
  | offline {db : Database} {w : Worker} {t : Time} :
      c ≤ t → t ≤ c' → w ∈ db.workers → (w.status = .online ∨ w.status = .busy) →
      w.lastHeartbeat < t - cfg.workerOfflineSeconds →
      Change cfg c c' .offline db (markOffline db w)

/-- Any number of changes within one request. -/
abbrev Changes (cfg : Config) (c c' : Time) (kind : ChangeKind) :
    Database → Database → Prop :=
  Relation.ReflTransGen (Change cfg c c' kind)

/-- One change or none. -/
def AtMostOne (cfg : Config) (c c' : Time) (kind : ChangeKind) (db db' : Database) : Prop :=
  db' = db ∨ Change cfg c c' kind db db'

theorem AtMostOne.changes {cfg : Config} {c c' : Time} {kind : ChangeKind} {db db' : Database}
    (h : AtMostOne cfg c c' kind db db') : Changes cfg c c' kind db db' := by
  rcases h with rfl | h
  · exact .refl
  · exact .single h

/-- The kind of change a request makes, if it changes anything. -/
def Request.kind : Request → ChangeKind
  | .submit _ => .enqueue
  | .register _ => .register
  | .workerHeartbeat .. => .report
  | .claim .. => .claim
  | .heartbeat .. => .renew
  | .download .. => .renew
  | .result .. => .finish
  | .reapJobs => .expire
  | .reapWorkers => .offline

/-! ## What a retried database holds -/

theorem retryIf_ok {condition : Prop} [Decidable condition] {db db' : Database}
    {retry : RunnerJob} (h : retryIf condition db retry = .ok db') :
    Retried db db' condition retry := by
  unfold retryIf at h
  split at h
  · exact Or.inl ⟨‹_›, ok_of_inserted h⟩
  · exact Or.inr ⟨‹_›, (Except.ok.inj h).symm⟩

theorem Retried.mem_jobs {db db' : Database} {condition : Prop} {retry : RunnerJob}
    (h : Retried db db' condition retry) {x : RunnerJob} :
    x ∈ db'.jobs ↔ x ∈ db.jobs ∨ (condition ∧ x = retry) := by
  rcases h with ⟨hc, hins⟩ | ⟨hc, rfl⟩
  · obtain ⟨-, -, t, ht, rfl⟩ := Database.insertJob_eq hins
    rw [Table.mem_insert? ht]
    simp [hc]
  · simp [hc]

/-- A retry touches no table but the jobs. -/
theorem Retried.frame {db db' : Database} {condition : Prop} {retry : RunnerJob}
    (h : Retried db db' condition retry) : db' = { db with jobs := db'.jobs } := by
  rcases h with ⟨-, hins⟩ | ⟨-, rfl⟩
  · obtain ⟨-, -, t, -, rfl⟩ := Database.insertJob_eq hins
    rfl
  · rfl

/-! ## Every request is a sequence of changes -/

variable {cfg : Config} {env : Env} {c c' : Time} {kind : ChangeKind} {db db' : Database}
  {w : Worker}

theorem enqueueProblem_change {agentVersionId : Uid} {p : ProblemVersion × ℕ}
    (h : enqueueProblem env agentVersionId db p = .ok db') : Change cfg c c' .enqueue db db' := by
  obtain ⟨problem, i⟩ := p
  obtain ⟨db₁, h₁, h⟩ := ok_of_bind h
  exact Change.enqueue (ok_of_inserted h₁) (ok_of_inserted h)

theorem submit_changes {data : SubmissionCreate} (h : submit env db data = .ok db') :
    Changes cfg c c' .enqueue db db' := by
  unfold submit at h
  obtain ⟨-, -, h⟩ := ok_of_bind h
  obtain ⟨problems, -, h⟩ := ok_of_bind h
  split at h
  · cases h
  · obtain ⟨db₁, hfold, h⟩ := ok_of_bind h
    obtain rfl := Env.ok_of_committed h
    refine foldlM_ok (P := fun _ d => Changes cfg c c' .enqueue db d) ?_ hfold .refl
    intro p rest d d' hd hp
    exact hd.tail (enqueueProblem_change hp)

theorem register_change {data : WorkerRegister}
    (h : register cfg env db data = .ok (db', w)) : Change cfg c c' .register db db' := by
  unfold register at h
  dsimp only at h
  split at h
  · cases h
  · rename_i workers hins
    have heq := Env.ok_of_committed h
    obtain ⟨rfl, rfl⟩ := Prod.mk.injEq .. |>.mp heq
    exact Change.register hins

theorem workerHeartbeat_change {w' : Worker} {status : ReportedStatus}
    (ht : Timed env c c') (hw : w ∈ db.workers)
    (h : workerHeartbeat env db w status = .ok (db', w')) : Change cfg c c' .report db db' := by
  have heq := Env.ok_of_committed h
  obtain ⟨rfl, rfl⟩ := Prod.mk.injEq .. |>.mp heq
  exact Change.report ht hw

/-- `claim` hands out nothing, or it assigns a queued job. -/
theorem claim_ok {claim? : Option JobClaim} (h : claim cfg env db w = .ok (db', claim?)) :
    (claim? = none ∧ db' = db)
      ∨ ∃ j problem agent, claimable w = .ok () ∧ db.activeJob w.id = none
        ∧ j ∈ db.jobs ∧ j.status = .queued
        ∧ claim? = some ⟨(claimRows cfg env j w).1, env.secret, cfg.leaseSeconds, problem, agent⟩
        ∧ db' = { db with
            jobs := db.jobs.update (claimRows cfg env j w).1
            workers := db.workers.update (claimRows cfg env j w).2 } := by
  unfold claim at h
  obtain ⟨⟨⟩, hclaimable, h⟩ := ok_of_bind h
  split at h
  · cases h
  · rename_i hactive
    have hnone : db.activeJob w.id = none := by simpa using hactive
    split at h
    · obtain ⟨rfl, rfl⟩ := Prod.mk.injEq .. |>.mp (Env.ok_of_committed h)
      exact Or.inl ⟨rfl, rfl⟩
    · rename_i j hj
      obtain ⟨submission, -, h⟩ := ok_of_bind h
      obtain ⟨problem, -, h⟩ := ok_of_bind h
      obtain ⟨agent, -, h⟩ := ok_of_bind h
      obtain ⟨rfl, rfl⟩ := Prod.mk.injEq .. |>.mp (Env.ok_of_committed h)
      have hmem := List.argmin_mem hj
      simp only [List.mem_filter, decide_eq_true_eq] at hmem
      exact Or.inr ⟨j, problem, agent, hclaimable, hnone, hmem.1, hmem.2.1, rfl, rfl⟩

theorem claim_once {claim? : Option JobClaim} (ht : Timed env c c') (hw : w ∈ db.workers)
    (h : claim cfg env db w = .ok (db', claim?)) : AtMostOne cfg c c' .claim db db' := by
  rcases claim_ok h with ⟨-, rfl⟩ | ⟨j, problem, agent, hclaimable, hfree, hj, hq, -, rfl⟩
  · exact Or.inl rfl
  · exact Or.inr (Change.claim ht hw hclaimable hfree hj hq)

/-- A heartbeat is accepted for an active job under an unexpired lease. -/
theorem heartbeat_ok {jobId : Uid} {data : JobHeartbeat} {j' : RunnerJob}
    (h : heartbeat cfg env db w jobId data = .ok (db', j')) :
    ∃ j e, j ∈ db.jobs ∧ j.id = jobId ∧ j.workerId = some w.id
      ∧ compareDigest ((j.leaseToken.map Token.text).getD "") data.leaseToken = .ok true
      ∧ j.status.IsActive ∧ j.leaseExpiresAt = some e ∧ env.tick 0 < e
      ∧ j' = (heartbeatRows cfg env j w data.event).1
      ∧ db' = { db with
          jobs := db.jobs.update (heartbeatRows cfg env j w data.event).1
          workers := db.workers.update (heartbeatRows cfg env j w data.event).2 } := by
  unfold heartbeat at h
  obtain ⟨j, hown, h⟩ := ok_of_bind h
  obtain ⟨rfl, rfl⟩ := Prod.mk.injEq .. |>.mp (Env.ok_of_committed h)
  obtain ⟨hj, hworker, htoken, hvalid⟩ := ownedJob_ok hown
  obtain ⟨hactive, e, he, hlt⟩ := leaseValid_ok (hvalid.resolve_left (by simp))
  obtain ⟨hmem, hid⟩ := Table.get?_eq_some.mp hj
  exact ⟨j, e, hmem, hid, hworker, htoken, hactive, he, hlt, rfl, rfl⟩

theorem heartbeat_change {jobId : Uid} {data : JobHeartbeat} {j' : RunnerJob}
    (ht : Timed env c c') (hw : w ∈ db.workers)
    (h : heartbeat cfg env db w jobId data = .ok (db', j')) : Change cfg c c' .renew db db' := by
  obtain ⟨j, e, hj, -, hworker, -, hactive, he, hlt, -, rfl⟩ := heartbeat_ok h
  exact Change.renew ht hw hj hworker hactive he hlt

theorem resultTarget_ok {jobId : Uid} {data : ResultInput} {j : RunnerJob}
    {problem : ProblemVersion}
    (h : resultTarget env db w jobId data = .ok (.inr (j, problem))) :
    j ∈ db.jobs ∧ j.id = jobId ∧ j.workerId = some w.id
      ∧ compareDigest ((j.leaseToken.map Token.text).getD "") data.leaseToken = .ok true
      ∧ (∀ ev ∈ db.evaluations, ev.jobId ≠ j.id)
      ∧ j.status.IsActive ∧ ∃ e, j.leaseExpiresAt = some e ∧ env.tick 1 < e := by
  unfold resultTarget at h
  obtain ⟨job, hown, h⟩ := ok_of_bind h
  split at h
  · cases h
  · rename_i hnone
    obtain ⟨⟨⟩, hvalid, h⟩ := ok_of_bind h
    obtain ⟨submission, -, h⟩ := ok_of_bind h
    obtain ⟨problem', -, h⟩ := ok_of_bind h
    obtain ⟨rfl, rfl⟩ := Prod.mk.injEq .. |>.mp (Sum.inr.inj (Except.ok.inj h))
    obtain ⟨hj, hworker, htoken, -⟩ := ownedJob_ok hown
    obtain ⟨hmem, hid⟩ := Table.get?_eq_some.mp hj
    obtain ⟨hactive, hexp⟩ := leaseValid_ok hvalid
    exact ⟨hmem, hid, hworker, htoken, Database.evaluationOf_eq_none.mp hnone, hactive, hexp⟩

/-- The earlier evaluation a repeated report is answered with. -/
theorem resultTarget_previous {jobId : Uid} {data : ResultInput} {ev : Evaluation}
    (h : resultTarget env db w jobId data = .ok (.inl ev)) :
    ev ∈ db.evaluations ∧ ev.jobId = jobId := by
  unfold resultTarget at h
  obtain ⟨job, hown, h⟩ := ok_of_bind h
  obtain ⟨hj, -⟩ := ownedJob_ok hown
  split at h
  · rename_i previous hprev
    obtain rfl := Sum.inl.inj (Except.ok.inj h)
    obtain ⟨hmem, hid⟩ := Database.mem_of_evaluationOf hprev
    exact ⟨hmem, hid.trans (Table.key_of_get? hj)⟩
  · obtain ⟨⟨⟩, -, h⟩ := ok_of_bind h
    obtain ⟨submission, -, h⟩ := ok_of_bind h
    obtain ⟨problem, -, h⟩ := ok_of_bind h
    cases h

/-- What recording a result writes. -/
theorem recordResult_ok {j : RunnerJob} {problem : ProblemVersion} {data : ResultInput}
    {ev : Evaluation} (h : recordResult cfg env db w j problem data = .ok (db', ev)) :
    ev = evaluationRow env w j problem data ∧ (∀ ev' ∈ db.evaluations, ev'.jobId ≠ j.id)
      ∧ ∃ evaluations, db.evaluations.insert? ev = some evaluations
        ∧ Retried
          { addEvidence cfg { db with evaluations } ev data with
            jobs := db.jobs.update (finishedRow env j data)
            workers := db.workers.update (releasedRow env w) }
          db'
          (data.failureType = some .infrastructureFailure ∧ (j.attempt : ℤ) < cfg.maxAttempts)
          (retryOf (env.fresh 1) (env.tick 5) j) := by
  unfold recordResult at h
  dsimp only at h
  obtain ⟨db₁, hins, h⟩ := ok_of_bind h
  obtain ⟨hfree, evaluations, hev, rfl⟩ := Database.insertEvaluation_eq (ok_of_inserted hins)
  obtain ⟨db₂, hretry, h⟩ := ok_of_bind h
  obtain ⟨rfl, rfl⟩ := Prod.mk.injEq .. |>.mp (Env.ok_of_committed h)
  exact ⟨rfl, hfree, evaluations, hev, retryIf_ok hretry⟩

theorem recordResult_change {j : RunnerJob} {problem : ProblemVersion} {data : ResultInput}
    {ev : Evaluation} {e : Time} (ht : Timed env c c') (hw : w ∈ db.workers)
    (hj : j ∈ db.jobs) (hworker : j.workerId = some w.id) (hactive : j.status.IsActive)
    (he : j.leaseExpiresAt = some e) (hlt : env.tick 2 < e) (hvalid : data.Valid)
    (h : recordResult cfg env db w j problem data = .ok (db', ev)) :
    Change cfg c c' .finish db db' ∧ ev = evaluationRow env w j problem data
      ∧ ∀ x, x ∈ db'.evaluations ↔ x ∈ db.evaluations ∨ x = ev := by
  obtain ⟨rfl, hfree, evaluations, hev, hret⟩ := recordResult_ok h
  refine ⟨Change.finish ht hw hj hworker hactive he hlt hvalid hfree hev hret, rfl, fun x => ?_⟩
  rw [hret.frame]
  exact Table.mem_insert? hev

/-- `result` answers with an earlier evaluation and changes nothing, or it
records a new one. -/
theorem result_ok {st st' : Storage} {jobId : Uid} {data : ResultInput} {ev : Evaluation}
    (h : result cfg env db st w jobId data = (st', .ok (db', ev))) :
    (resultTarget env db w jobId data = .ok (.inl ev) ∧ db' = db ∧ st' = st)
      ∨ ∃ j problem e, resultTarget env db w jobId data = .ok (.inr (j, problem))
        ∧ j.leaseExpiresAt = some e ∧ env.tick 2 < e
        ∧ recordResult cfg env db w j problem data = .ok (db', ev) := by
  unfold result at h
  split at h
  · cases (Prod.mk.injEq .. |>.mp h).2
  · rename_i previous htarget
    obtain ⟨rfl, hok⟩ := Prod.mk.injEq .. |>.mp h
    obtain ⟨rfl, rfl⟩ := Prod.mk.injEq .. |>.mp (Except.ok.inj hok)
    exact Or.inl ⟨htarget, rfl, rfl⟩
  · rename_i j problem htarget
    split at h
    · cases (Prod.mk.injEq .. |>.mp h).2
    · obtain ⟨-, hok⟩ := Prod.mk.injEq .. |>.mp h
      obtain ⟨⟨⟩, hlease, hok⟩ := ok_of_bind hok
      obtain ⟨e, he, hlt⟩ := leaseUnexpired_ok hlease
      exact Or.inr ⟨j, problem, e, htarget, he, hlt, hok⟩

theorem result_once {st st' : Storage} {jobId : Uid} {data : ResultInput} {ev : Evaluation}
    (ht : Timed env c c') (hw : w ∈ db.workers) (hvalid : data.Valid)
    (h : result cfg env db st w jobId data = (st', .ok (db', ev))) :
    AtMostOne cfg c c' .finish db db' := by
  rcases result_ok h with ⟨-, rfl, -⟩ | ⟨j, problem, e, htarget, he, hlt, hrec⟩
  · exact Or.inl rfl
  · obtain ⟨hj, -, hworker, -, -, hactive, -⟩ := resultTarget_ok htarget
    exact Or.inr (recordResult_change ht hw hj hworker hactive he hlt hvalid hrec).1

/-! ### The reaper -/

theorem expireJob_ok {n i : ℕ} {j : RunnerJob}
    (h : expireJob cfg env n db (j, i) = .ok db') :
    Retried { db with jobs := db.jobs.update (expiredRow cfg (env.tick (1 + i)) j) } db'
      ((j.attempt : ℤ) < cfg.maxAttempts) (retryOf (env.fresh i) (env.tick (1 + n + i)) j) :=
  retryIf_ok h

theorem mem_expiredJobs {skipped : List Uid} {reading : Time} {j : RunnerJob} :
    j ∈ expiredJobs db skipped reading ↔
      j ∈ db.jobs ∧ j.status.IsActive ∧ j.id ∉ skipped
        ∧ ∃ e, j.leaseExpiresAt = some e ∧ e < reading := by
  unfold expiredJobs
  rw [List.mem_filter, Table.mem_def]
  cases j.leaseExpiresAt <;> simp [and_assoc]

/-- The jobs of the batch still to expire are as the query found them. -/
structure Batch (env : Env) (rest : List (RunnerJob × ℕ)) (db : Database) : Prop where
  nodup : (rest.map (·.1.id)).Nodup
  jobs : ∀ p ∈ rest, p.1 ∈ db.jobs ∧ p.1.status.IsActive
    ∧ ∃ e, p.1.leaseExpiresAt = some e ∧ e < env.tick 0

theorem Batch.of_jobs {jobs : List RunnerJob} (hnodup : (jobs.map RunnerJob.id).Nodup)
    (hjobs : ∀ j ∈ jobs, j ∈ db.jobs ∧ j.status.IsActive
      ∧ ∃ e, j.leaseExpiresAt = some e ∧ e < env.tick 0) : Batch env jobs.zipIdx db := by
  refine ⟨?_, fun p hp => hjobs p.1 (List.fst_mem_of_mem_zipIdx hp)⟩
  have hfst : jobs.zipIdx.map (·.1.id) = jobs.map RunnerJob.id := by
    rw [← List.zipIdx_map_fst 0 jobs, List.map_map]
    simp
  rwa [hfst]

theorem expiredJobs_nodup (skipped : List Uid) (reading : Time) :
    ((expiredJobs db skipped reading).map RunnerJob.id).Nodup :=
  db.jobs.nodup.sublist (List.filter_sublist.map _)

theorem Batch.init : Batch env (expiredJobs db env.skipped (env.tick 0)).zipIdx db := by
  refine .of_jobs (expiredJobs_nodup _ _) fun j hj => ?_
  obtain ⟨hmem, hactive, -, hexp⟩ := mem_expiredJobs.mp hj
  exact ⟨hmem, hactive, hexp⟩

/-- Expiring a job rewrites only its own row, so the rest of the batch is
still as it was. -/
theorem Batch.step {n i : ℕ} {j : RunnerJob} {rest : List (RunnerJob × ℕ)}
    (h : Batch env ((j, i) :: rest) db) (hstep : expireJob cfg env n db (j, i) = .ok db') :
    Batch env rest db' := by
  obtain ⟨hfresh, hnodup⟩ := List.nodup_cons.mp h.nodup
  refine ⟨hnodup, ?_⟩
  rintro ⟨k, i'⟩ hk
  obtain ⟨hkmem, hkrest⟩ := h.jobs (k, i') (List.mem_cons_of_mem _ hk)
  have hne : k.id ≠ j.id := fun heq => hfresh (List.mem_map.mpr ⟨(k, i'), hk, heq⟩)
  exact ⟨(expireJob_ok hstep).mem_jobs.mpr (Or.inl (Table.mem_update_of_ne hkmem hne)), hkrest⟩

theorem expireJob_change {n i : ℕ} {j : RunnerJob} {rest : List (RunnerJob × ℕ)}
    (ht : Timed env c c') (h : Batch env ((j, i) :: rest) db)
    (hstep : expireJob cfg env n db (j, i) = .ok db') : Change cfg c c' .expire db db' := by
  obtain ⟨hj, hactive, e, he, hlt⟩ := h.jobs (j, i) (List.mem_cons_self ..)
  exact Change.expire (ht.start_le 0) (ht.mono (by omega)) (ht.mono (by omega)) (ht.le _) hj
    hactive he hlt (expireJob_ok hstep)

/-- Expiring a batch job by job. -/
theorem expireJobs_changes {n : ℕ} {batch : List (RunnerJob × ℕ)} (ht : Timed env c c')
    (hbatch : Batch env batch db) (h : batch.foldlM (expireJob cfg env n) db = .ok db') :
    Changes cfg c c' .expire db db' := by
  refine (foldlM_ok (P := fun rest d => Changes cfg c c' .expire db d ∧ Batch env rest d) ?_ h
    ⟨.refl, hbatch⟩).1
  rintro ⟨j, i⟩ rest d d' ⟨hd, hbatch⟩ hp
  exact ⟨hd.tail (expireJob_change ht hbatch hp), hbatch.step hp⟩

theorem reapJobs_changes (ht : Timed env c c') (h : reapJobs cfg env db = .ok db') :
    Changes cfg c c' .expire db db' := by
  unfold reapJobs at h
  obtain ⟨db₁, hfold, h⟩ := ok_of_bind h
  obtain rfl := Env.ok_of_committed h
  exact expireJobs_changes ht .init hfold

theorem offlineWorkers_nodup (skipped : List Uid) (reading : Time) :
    ((offlineWorkers cfg db skipped reading).map Worker.id).Nodup :=
  db.workers.nodup.sublist (List.filter_sublist.map _)

theorem mem_offlineWorkers {skipped : List Uid} {reading : Time} :
    w ∈ offlineWorkers cfg db skipped reading ↔
      w ∈ db.workers ∧ w.lastHeartbeat < reading - cfg.workerOfflineSeconds ∧ w.id ∉ skipped
        ∧ (w.status = .online ∨ w.status = .busy) := by
  simp only [offlineWorkers, List.mem_filter, decide_eq_true_eq, Table.mem_def]

/-- Marking workers offline one after the other: each step rewrites only its
own row. -/
theorem markOffline_changes {workers : List Worker} (ht : Timed env c c')
    (hnodup : (workers.map Worker.id).Nodup)
    (hworkers : ∀ w ∈ workers, w ∈ db.workers ∧ (w.status = .online ∨ w.status = .busy)
      ∧ w.lastHeartbeat < env.tick 0 - cfg.workerOfflineSeconds) :
    Changes cfg c c' .offline db (workers.foldl markOffline db) := by
  refine (foldl_rec (P := fun rest d => Changes cfg c c' .offline db d
      ∧ (rest.map Worker.id).Nodup
      ∧ ∀ w ∈ rest, w ∈ d.workers ∧ (w.status = .online ∨ w.status = .busy)
        ∧ w.lastHeartbeat < env.tick 0 - cfg.workerOfflineSeconds) ?_
    ⟨.refl, hnodup, hworkers⟩).1
  rintro w rest d ⟨hd, hnodup, hall⟩
  obtain ⟨hw, hstatus, hlate⟩ := hall w (List.mem_cons_self ..)
  obtain ⟨hfresh, hnodup'⟩ := List.nodup_cons.mp hnodup
  refine ⟨hd.tail (Change.offline (ht.start_le 0) (ht.le 0) hw hstatus hlate), hnodup', ?_⟩
  intro v hv
  obtain ⟨hvmem, hvrest⟩ := hall v (List.mem_cons_of_mem _ hv)
  have hne : v.id ≠ w.id := fun heq => hfresh (heq ▸ List.mem_map_of_mem hv)
  exact ⟨Table.mem_update_of_ne hvmem hne, hvrest⟩

theorem reapWorkers_changes (ht : Timed env c c') (h : reapWorkers cfg env db = .ok db') :
    Changes cfg c c' .offline db db' := by
  obtain rfl := Env.ok_of_committed h
  refine markOffline_changes ht (offlineWorkers_nodup _ _) fun w hw => ?_
  obtain ⟨hmem, hlate, -, hstatus⟩ := mem_offlineWorkers.mp hw
  exact ⟨hmem, hstatus, hlate⟩

/-! ### The request -/

/-- An answered method either succeeded or left everything as it was. -/
theorem respond_eq {α : Type} {answer : α → Response} {r : Except HttpError (Database × α)}
    {response : Response} (h : respond db answer r = (db', response)) :
    (∃ a, r = .ok (db', a) ∧ response = answer a)
      ∨ (∃ e, r = .error e ∧ db' = db ∧ response = .error e) := by
  cases r with
  | error e =>
      obtain ⟨rfl, rfl⟩ := Prod.mk.injEq .. |>.mp h
      exact Or.inr ⟨e, rfl, rfl, rfl⟩
  | ok p =>
      obtain ⟨d, a⟩ := p
      obtain ⟨rfl, rfl⟩ := Prod.mk.injEq .. |>.mp h
      exact Or.inl ⟨a, rfl, rfl⟩

/-- What holds before a method and after its success holds after its answer. -/
theorem respond_holds {α : Type} {answer : α → Response} {r : Except HttpError (Database × α)}
    {P : Database → Prop} (hdb : P db) (h : ∀ d a, r = .ok (d, a) → P d) :
    P (respond db answer r).1 := by
  cases r with
  | error e => exact hdb
  | ok p => exact h p.1 p.2 rfl

theorem respondDone_changes {r : Except HttpError Database}
    (h : ∀ d, r = .ok d → Changes cfg c c' kind db d) :
    Changes cfg c c' kind db (respondDone db r).1 := by
  cases r with
  | error e => exact .refl
  | ok d => exact h d rfl

/-- A request of a worker changes the database as its method does, once the
worker is authenticated. -/
theorem authenticated_once {α : Type} {answer : α → Response} {id : Uid}
    {auth : Option String} {method : Worker → Except HttpError (Database × α)}
    (h : ∀ w d a, w ∈ db.workers → method w = .ok (d, a) → AtMostOne cfg c c' kind db d) :
    AtMostOne cfg c c' kind db (respond db answer (workerAuth cfg db id auth >>= method)).1 := by
  refine respond_holds (Or.inl rfl) fun d a hok => ?_
  obtain ⟨w, hw, hmethod⟩ := ok_of_bind hok
  exact h w d a (mem_of_workerAuth hw).1 hmethod

theorem validate_ok {data data' : ResultInput} (h : data.validate = .ok data') :
    data' = data ∧ data.Valid := by
  unfold ResultInput.validate at h
  split at h
  · split at h
    · obtain rfl := Except.ok.inj h
      exact ⟨rfl, by simp [ResultInput.Valid, ResultInput.validate, *]⟩
    · cases h
  · cases h

/-- The requests that may change several rows of one table in turn. -/
def Request.IsBatch (request : Request) : Prop :=
  (∃ data, request = .submit data) ∨ request = .reapJobs ∨ request = .reapWorkers

/-- A request that is no batch makes one change at most. -/
theorem handle_once (db : Database) (st : Storage) (ht : Timed env c c') (request : Request) :
    request.IsBatch ∨ AtMostOne cfg c c' request.kind db (handle cfg env db st request).1.1 := by
  cases request with
  | submit data => exact Or.inl (Or.inl ⟨data, rfl⟩)
  | reapJobs => exact Or.inl (Or.inr (Or.inl rfl))
  | reapWorkers => exact Or.inl (Or.inr (Or.inr rfl))
  | register data =>
      exact Or.inr (respond_holds (Or.inl rfl) fun d a h => Or.inr (register_change h))
  | workerHeartbeat id auth status =>
      exact Or.inr (authenticated_once fun w d a hw h => Or.inr (workerHeartbeat_change ht hw h))
  | claim id auth => exact Or.inr (authenticated_once fun w d a hw h => claim_once ht hw h)
  | heartbeat id auth jobId data =>
      exact Or.inr (authenticated_once fun w d a hw h => Or.inr (heartbeat_change ht hw h))
  | download id auth jobId token =>
      refine Or.inr (authenticated_once fun w d a hw h => ?_)
      obtain ⟨v, -, h⟩ := ok_of_bind h
      obtain ⟨rfl, rfl⟩ := Prod.mk.injEq .. |>.mp (Except.ok.inj h)
      exact Or.inl rfl
  | result id auth jobId data =>
      refine Or.inr ?_
      simp only [handle]
      unfold handleResult
      split
      · exact Or.inl rfl
      · rename_i w hw
        obtain ⟨hw, -⟩ := mem_of_workerAuth hw
        split
        · exact Or.inl rfl
        · rename_i data' hvalid
          obtain ⟨rfl, hvalid⟩ := validate_ok hvalid
          refine respond_holds (Or.inl rfl) fun d a hok => ?_
          have hres : result cfg env db st w jobId data'
              = ((result cfg env db st w jobId data').1, .ok (d, a)) := Prod.ext rfl hok
          exact result_once ht hw hvalid hres

/-- **What a request can do.** Whatever is asked, in whatever surroundings,
the database goes through a sequence of the changes above. -/
theorem handle_changes {st : Storage} (ht : Timed env c c') (request : Request) :
    Changes cfg c c' request.kind db (handle cfg env db st request).1.1 := by
  rcases handle_once db st ht request with (⟨data, rfl⟩ | rfl | rfl) | honce
  · exact respondDone_changes fun d h => submit_changes h
  · exact respondDone_changes fun d h => reapJobs_changes ht h
  · exact respondDone_changes fun d h => reapWorkers_changes ht h
  · exact honce.changes

theorem step_changes {s t : State} {call : Call} (h : (controlPlane cfg).step s call t) :
    Changes cfg s.clock t.clock call.request.kind s.db t.db := by
  obtain ⟨ht, hhandle⟩ := h
  have hdb : (handle cfg call.env s.db s.storage call.request).1.1 = t.db := by rw [hhandle]
  exact hdb ▸ handle_changes ht call.request

theorem step_once {s t : State} {call : Call} (h : (controlPlane cfg).step s call t) :
    call.request.IsBatch ∨ AtMostOne cfg s.clock t.clock call.request.kind s.db t.db := by
  obtain ⟨ht, hhandle⟩ := h
  have hdb : (handle cfg call.env s.db s.storage call.request).1.1 = t.db := by rw [hhandle]
  exact hdb ▸ handle_once s.db s.storage ht call.request

theorem step_clock {s t : State} {call : Call} (h : (controlPlane cfg).step s call t) :
    s.clock ≤ t.clock :=
  h.1.start_le_stop

/-- A property every change preserves is preserved by every step. -/
theorem step_preserves {P : Database → Prop}
    (hP : ∀ {c c' kind d d'}, Change cfg c c' kind d d' → P d → P d')
    {s t : State} {call : Call} (h : (controlPlane cfg).step s call t) (hs : P s.db) :
    P t.db := by
  have hch := step_changes h
  generalize t.db = d at hch
  induction hch with
  | refl => exact hs
  | tail _ hlast ih => exact hP hlast ih

/-! ## Replaying requests -/

/-- Undisturbed surroundings at one instant: nothing fails, nothing is
locked, identifiers count up from `base`. -/
def Env.quiet (t : Time) (base : Uid) (secret : Token) : Env where
  tick _ := t
  fresh i := base + i
  secret := secret
  skipped := []
  put _ := .succeeds
  commit := true

theorem Timed.quiet {t c : Time} {base : Uid} {secret : Token} (h : c ≤ t) :
    Timed (Env.quiet t base secret) c t :=
  ⟨fun _ _ _ => le_rfl, h, fun _ => le_rfl⟩

/-- A request with its instant and the first identifier it may draw. -/
structure Timely where
  request : Request
  time : Time
  base : Uid
  secret : Token

/-- The state and answer of one request handled without disturbance. -/
def State.after (cfg : Config) (s : State) (r : Timely) : State × Response :=
  let answer := handle cfg (Env.quiet r.time r.base r.secret) s.db s.storage r.request
  (⟨answer.1.1, answer.2, r.time⟩, answer.1.2)

/-- Handle requests one after the other without disturbance. -/
def replay (cfg : Config) : State → List Timely → State × List Call
  | s, [] => (s, [])
  | s, r :: rest =>
      let (t, response) := s.after cfg r
      let (u, calls) := replay cfg t rest
      (u, ⟨r.request, Env.quiet r.time r.base r.secret, response⟩ :: calls)

theorem after_step {s : State} {r : Timely} (h : s.clock ≤ r.time) :
    (controlPlane cfg).step s ⟨r.request, Env.quiet r.time r.base r.secret, (s.after cfg r).2⟩
      (s.after cfg r).1 :=
  ⟨.quiet h, rfl⟩

/-- A replay whose instants never go back is a run. -/
theorem replay_run :
    ∀ {s : State} {script : List Timely},
      (s.clock :: script.map Timely.time).Pairwise (· ≤ ·) →
      (controlPlane cfg).Run s (replay cfg s script).2 (replay cfg s script).1
  | s, [], _ => .nil
  | s, r :: rest, h => by
      obtain ⟨hle, h⟩ := List.pairwise_cons.mp h
      have hstep : (controlPlane cfg).step s _ (s.after cfg r).1 :=
        after_step (hle r.time (List.mem_cons_self ..))
      exact (Transition.Run.single hstep).append (replay_run h)

theorem replay_reachable {s : State} {script : List Timely} (hs : s.db.Fresh)
    (h : (s.clock :: script.map Timely.time).Pairwise (· ≤ ·)) :
    (controlPlane cfg).Reachable (replay cfg s script).1 :=
  ⟨s, _, hs, replay_run h⟩

/-! ### A small deployment -/

namespace Sample

def config : Config := { sha256 := id }

def problem : ProblemVersion :=
  { id := 2, problemId := 3, repositoryUrl := "repo.git", branch := "main",
    commitSha := "0123", problemPath := "p", testCommand := ["pytest"], timeoutSeconds := 60 }

def agent : AgentVersion := ⟨1, 4, "agent.py", "abcd", 10, 1⟩

/-- One agent and one problem, and nothing submitted yet. -/
def start : State where
  db :=
    { agentVersions := ⟨[agent], by decide⟩, problemVersions := ⟨[problem], by decide⟩,
      submissions := .empty, workers := .empty, jobs := .empty, evaluations := .empty,
      testResults := [], logs := [], patches := [], scores := [] }
  storage := .empty
  clock := 0

def token : Token := ⟨"t", by decide⟩

def credential : Option String := some "Bearer t"

/-- One worker registers and claims the only job. -/
def claimed : List Timely :=
  [⟨.register ⟨"w", "h", "linux", "1", []⟩, 1, 10, token⟩,
   ⟨.submit ⟨1, [2]⟩, 2, 20, token⟩,
   ⟨.claim 10 credential, 3, 30, token⟩]

/-- A failed test, reported under the token of the claim. -/
def result : ResultInput :=
  { leaseToken := "t", status := .failed, failureType := some .testFailure,
    metrics := { runtimeSeconds := .finite 7 },
    tests := [{ name := "test_a", status := .failed }] }

/-- The same run with the result of the job recorded. -/
def finished : List Timely := claimed ++ [⟨.result 10 credential 21 result, 50, 50, token⟩]

/-- The state with the claimed job. -/
def reporting : State := (replay config start claimed).1

/-- The state the recorded result leaves. -/
def final : State := (replay config start finished).1

theorem init : (controlPlane config).init start := by
  show start.db.Fresh
  decide

end Sample

end AgentBenchX
