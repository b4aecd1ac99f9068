import AgentBenchX.Lib.Locking
import AgentBenchX.JobLifecycle

/-!
# Interleaved transactions

`ControlPlane` handles one request after the other. Here requests overlap:
each is a transaction whose statements run one at a time between those of
the others, on the rows committed so far. `worker_auth` and `owned_job`
wait for their row, the claim query and the reaper pass over the rows
others hold (`SKIP LOCKED`), all locks are kept to the end, and writes
become visible at the commit.

`Transaction.discipline` states what an open transaction holds and what
it has learnt, as an instance of `Locking`. Since nothing it has learnt
can be invalidated by the others, every commit is a sequence of the
changes of `ControlPlane` on the database it finds (`executes_changes`),
and the invariants proved over `Change` hold of every interleaving.

The readings of a transaction are those of its `Env`; nothing here
depends on how they relate to the readings of another one.
-/

namespace AgentBenchX

/-! ## Open transactions -/

/-- A row that can be locked. -/
inductive Row where
  | worker (id : Uid)
  | job (id : Uid)
deriving DecidableEq

/-- What an authenticated worker asks for. -/
inductive Body where
  | workerHeartbeat (status : ReportedStatus)
  | claim
  | heartbeat (jobId : Uid) (data : JobHeartbeat)
  | result (jobId : Uid) (data : ResultInput)

/-- The request of the worker. -/
def Body.request (id : Uid) (auth : Option String) : Body → Request
  | .workerHeartbeat status => .workerHeartbeat id auth status
  | .claim => .claim id auth
  | .heartbeat jobId data => .heartbeat id auth jobId data
  | .result jobId data => .result id auth jobId data

/-- How far a transaction has come, with the rows it has read and locked. -/
inductive Stage where
  /-- `worker_auth` has locked the worker. -/
  | authenticated (worker : Worker) (body : Body)
  /-- A worker heartbeat has looked for an active job. -/
  | counted (worker : Worker) (active : Option Uid) (status : ReportedStatus)
  /-- A claim has found no active job. -/
  | searched (worker : Worker)
  /-- A claim has locked a queued job. -/
  | picked (worker : Worker) (job : RunnerJob)
  /-- A job heartbeat has locked its job and checked the lease. -/
  | owned (worker : Worker) (job : RunnerJob) (event : JobEvent)
  /-- A result has locked its job and is writing its artifacts. -/
  | targeted (worker : Worker) (job : RunnerJob) (problem : ProblemVersion) (data : ResultInput)
  /-- The reaper has locked expired jobs. -/
  | expiring (jobs : List RunnerJob)
  /-- The reaper has locked silent workers. -/
  | offlining (workers : List Worker)

structure Transaction where
  env : Env
  stage : Stage
  request : Request

/-- The rows a transaction has locked. -/
def Stage.Holds : Stage → Row → Prop
  | .authenticated w _, r => r = .worker w.id
  | .counted w _ _, r => r = .worker w.id
  | .searched w, r => r = .worker w.id
  | .picked w j, r => r = .worker w.id ∨ r = .job j.id
  | .owned w j _, r => r = .worker w.id ∨ r = .job j.id
  | .targeted w j _ _, r => r = .worker w.id ∨ r = .job j.id
  | .expiring jobs, r => ∃ j ∈ jobs, r = .job j.id
  | .offlining workers, r => ∃ w ∈ workers, r = .worker w.id

/-- What a transaction has read and relies on. -/
def Stage.Learnt (cfg : Config) (env : Env) : Stage → Database → Prop
  | .authenticated w _, db => w ∈ db.workers
  | .counted w _ _, db => w ∈ db.workers
  | .searched w, db => w ∈ db.workers ∧ claimable w = .ok () ∧ db.activeJob w.id = none
  | .picked w j, db =>
      (w ∈ db.workers ∧ claimable w = .ok () ∧ db.activeJob w.id = none)
        ∧ j ∈ db.jobs ∧ j.status = .queued
  | .owned w j _, db =>
      w ∈ db.workers ∧ j ∈ db.jobs ∧ j.workerId = some w.id ∧ j.status.IsActive
        ∧ ∃ e, j.leaseExpiresAt = some e ∧ env.tick 0 < e
  | .targeted w j _ data, db =>
      w ∈ db.workers ∧ j ∈ db.jobs ∧ (∀ ev ∈ db.evaluations, ev.jobId ≠ j.id)
        ∧ j.workerId = some w.id ∧ j.status.IsActive ∧ data.Valid
  | .expiring jobs, db =>
      (jobs.map RunnerJob.id).Nodup ∧ ∀ j ∈ jobs, j ∈ db.jobs ∧ j.status.IsActive
        ∧ ∃ e, j.leaseExpiresAt = some e ∧ e < env.tick 0
  | .offlining workers, db =>
      (workers.map Worker.id).Nodup ∧ ∀ w ∈ workers, w ∈ db.workers
        ∧ (w.status = .online ∨ w.status = .busy)
        ∧ w.lastHeartbeat < env.tick 0 - cfg.workerOfflineSeconds

/-- A change of the database that a lock on the row would not notice. -/
def Row.Keeps (db db' : Database) : Row → Prop
  | .worker id =>
      (∀ w ∈ db.workers, w.id = id → w ∈ db'.workers)
        ∧ (db.activeJob id = none → db'.activeJob id = none)
  | .job id =>
      (∀ j ∈ db.jobs, j.id = id → j ∈ db'.jobs)
        ∧ ((∀ ev ∈ db.evaluations, ev.jobId ≠ id) → ∀ ev ∈ db'.evaluations, ev.jobId ≠ id)

/-- What a transaction relies on rests on the rows it holds. -/
theorem Stage.learnt_stable {cfg : Config} {env : Env} {stage : Stage} {db db' : Database}
    (h : stage.Learnt cfg env db) (hkeeps : ∀ r, stage.Holds r → r.Keeps db db') :
    stage.Learnt cfg env db' := by
  cases stage with
  | authenticated w body => exact (hkeeps (.worker w.id) rfl).1 w h rfl
  | counted w active status => exact (hkeeps (.worker w.id) rfl).1 w h rfl
  | searched w =>
      obtain ⟨hw, hclaimable, hfree⟩ := h
      obtain ⟨hrow, hidle⟩ := hkeeps (.worker w.id) rfl
      exact ⟨hrow w hw rfl, hclaimable, hidle hfree⟩
  | picked w j =>
      obtain ⟨⟨hw, hclaimable, hfree⟩, hj, hq⟩ := h
      obtain ⟨hrow, hidle⟩ := hkeeps (.worker w.id) (Or.inl rfl)
      exact ⟨⟨hrow w hw rfl, hclaimable, hidle hfree⟩,
        (hkeeps (.job j.id) (Or.inr rfl)).1 j hj rfl, hq⟩
  | owned w j event =>
      obtain ⟨hw, hj, hrest⟩ := h
      exact ⟨(hkeeps (.worker w.id) (Or.inl rfl)).1 w hw rfl,
        (hkeeps (.job j.id) (Or.inr rfl)).1 j hj rfl, hrest⟩
  | targeted w j problem data =>
      obtain ⟨hw, hj, hev, hrest⟩ := h
      obtain ⟨hrow, hevs⟩ := hkeeps (.job j.id) (Or.inr rfl)
      exact ⟨(hkeeps (.worker w.id) (Or.inl rfl)).1 w hw rfl, hrow j hj rfl, hevs hev, hrest⟩
  | expiring jobs =>
      refine ⟨h.1, fun j hj => ?_⟩
      obtain ⟨hmem, hrest⟩ := h.2 j hj
      exact ⟨(hkeeps (.job j.id) ⟨j, hj, rfl⟩).1 j hmem rfl, hrest⟩
  | offlining workers =>
      refine ⟨h.1, fun w hw => ?_⟩
      obtain ⟨hmem, hrest⟩ := h.2 w hw
      exact ⟨(hkeeps (.worker w.id) ⟨w, hw, rfl⟩).1 w hmem rfl, hrest⟩

/-- Row locks as a locking discipline. -/
def Transaction.discipline (cfg : Config) : Locking Database Transaction Row where
  holds t := t.stage.Holds
  learnt t db := (∃ c c', Timed t.env c c') ∧ t.stage.Learnt cfg t.env db
  keeps r db db' := r.Keeps db db'
  stable h hkeeps := ⟨h.1, Stage.learnt_stable h.2 hkeeps⟩

/-! ## Statements -/

/-- The database and the open transactions. -/
abbrev Server := World Database ℕ Transaction

/-- No other transaction has the row locked. -/
abbrev Server.Free (cfg : Config) (s : Server) (i : ℕ) (r : Row) : Prop :=
  (Transaction.discipline cfg).Free s i r

/-- `skipped` lists the jobs, or workers, other transactions have locked. -/
def Server.Skips (cfg : Config) (s : Server) (i : ℕ) (row : Uid → Row) (skipped : List Uid) :
    Prop :=
  ∀ id, id ∈ skipped ↔ ¬s.Free cfg i (row id)

/-- One statement of one transaction. A statement that commits is labelled
with the request, its surroundings and the answer. -/
inductive Executes (cfg : Config) (s : Server) : Option Call → Server → Prop
  | submit {env : Env} {data : SubmissionCreate} {db : Database} :
      submit env s.store data = .ok db →
      Executes cfg s (some ⟨.submit data, env, .done⟩) { s with store := db }
  | register {env : Env} {data : WorkerRegister} {db : Database} {w : Worker} :
      register cfg env s.store data = .ok (db, w) →
      Executes cfg s (some ⟨.register data, env, .credentials w env.secret⟩) { s with store := db }
  | authenticate {i : ℕ} {env : Env} {id : Uid} {auth : Option String} {body : Body}
      {w : Worker} :
      s.sessions i = none → (∃ c c', Timed env c c') → s.Free cfg i (.worker id) →
      workerAuth cfg s.store id auth = .ok w →
      Executes cfg s none (s.put i ⟨env, .authenticated w body, body.request id auth⟩)
  | count {i : ℕ} {env : Env} {w : Worker} {status : ReportedStatus} {request : Request} :
      s.sessions i = some ⟨env, .authenticated w (.workerHeartbeat status), request⟩ →
      Executes cfg s none (s.put i ⟨env, .counted w (s.store.activeJob w.id) status, request⟩)
  | report {i : ℕ} {env : Env} {w : Worker} {active : Option Uid} {status : ReportedStatus}
      {request : Request} :
      s.sessions i = some ⟨env, .counted w active status, request⟩ →
      Executes cfg s (some ⟨request, env, .worker (workerHeartbeatRow env active w status)⟩)
        (s.close i { s.store with
          workers := s.store.workers.update (workerHeartbeatRow env active w status) })
  | search {i : ℕ} {env : Env} {w : Worker} {request : Request} :
      s.sessions i = some ⟨env, .authenticated w .claim, request⟩ → claimable w = .ok () →
      s.store.activeJob w.id = none → Executes cfg s none (s.put i ⟨env, .searched w, request⟩)
  | pick {i : ℕ} {env : Env} {w : Worker} {skipped : List Uid} {j : RunnerJob}
      {request : Request} :
      s.sessions i = some ⟨env, .searched w, request⟩ → s.Skips cfg i .job skipped →
      nextQueued s.store skipped = some j →
      Executes cfg s none (s.put i ⟨env, .picked w j, request⟩)
  | assign {i : ℕ} {env : Env} {w : Worker} {j : RunnerJob} {submission : Submission}
      {problem : ProblemVersion} {agent : AgentVersion} {request : Request} :
      s.sessions i = some ⟨env, .picked w j, request⟩ →
      require "Submission" s.store.submissions j.submissionId = .ok submission →
      require "ProblemVersion" s.store.problemVersions submission.problemVersionId
        = .ok problem →
      require "AgentVersion" s.store.agentVersions submission.agentVersionId = .ok agent →
      Executes cfg s
        (some ⟨request, env, .claimed
          (some ⟨(claimRows cfg env j w).1, env.secret, cfg.leaseSeconds, problem, agent⟩)⟩)
        (s.close i { s.store with
          jobs := s.store.jobs.update (claimRows cfg env j w).1
          workers := s.store.workers.update (claimRows cfg env j w).2 })
  | own {i : ℕ} {env : Env} {w : Worker} {jobId : Uid} {data : JobHeartbeat} {j : RunnerJob}
      {request : Request} :
      s.sessions i = some ⟨env, .authenticated w (.heartbeat jobId data), request⟩ →
      s.Free cfg i (.job jobId) →
      ownedJob (s.store.jobs.get? jobId) w data.leaseToken false (env.tick 0) = .ok j →
      Executes cfg s none (s.put i ⟨env, .owned w j data.event, request⟩)
  | renew {i : ℕ} {env : Env} {w : Worker} {j : RunnerJob} {event : JobEvent}
      {request : Request} :
      s.sessions i = some ⟨env, .owned w j event, request⟩ →
      Executes cfg s (some ⟨request, env, .job (heartbeatRows cfg env j w event).1⟩)
        (s.close i { s.store with
          jobs := s.store.jobs.update (heartbeatRows cfg env j w event).1
          workers := s.store.workers.update (heartbeatRows cfg env j w event).2 })
  | target {i : ℕ} {env : Env} {w : Worker} {jobId : Uid} {data : ResultInput} {j : RunnerJob}
      {problem : ProblemVersion} {request : Request} :
      s.sessions i = some ⟨env, .authenticated w (.result jobId data), request⟩ → data.Valid →
      s.Free cfg i (.job jobId) →
      resultTarget env s.store w jobId data = .ok (.inr (j, problem)) →
      Executes cfg s none (s.put i ⟨env, .targeted w j problem data, request⟩)
  | record {i : ℕ} {env : Env} {w : Worker} {j : RunnerJob} {problem : ProblemVersion}
      {data : ResultInput} {db : Database} {ev : Evaluation} {request : Request} :
      s.sessions i = some ⟨env, .targeted w j problem data, request⟩ →
      leaseUnexpired j (env.tick 2) "Result storage exceeded job lease" = .ok () →
      recordResult cfg env s.store w j problem data = .ok (db, ev) →
      Executes cfg s (some ⟨request, env, .evaluation ev⟩) (s.close i db)
  | select {i : ℕ} {env : Env} {skipped : List Uid} :
      s.sessions i = none → (∃ c c', Timed env c c') → s.Skips cfg i .job skipped →
      Executes cfg s none
        (s.put i ⟨env, .expiring (expiredJobs s.store skipped (env.tick 0)), .reapJobs⟩)
  | expire {i : ℕ} {env : Env} {jobs : List RunnerJob} {db : Database} {request : Request} :
      s.sessions i = some ⟨env, .expiring jobs, request⟩ →
      jobs.zipIdx.foldlM (expireJob cfg env jobs.length) s.store = .ok db →
      Executes cfg s (some ⟨request, env, .done⟩) (s.close i db)
  | selectWorkers {i : ℕ} {env : Env} {skipped : List Uid} :
      s.sessions i = none → (∃ c c', Timed env c c') → s.Skips cfg i .worker skipped →
      Executes cfg s none
        (s.put i ⟨env, .offlining (offlineWorkers cfg s.store skipped (env.tick 0)),
          .reapWorkers⟩)
  | offline {i : ℕ} {env : Env} {workers : List Worker} {request : Request} :
      s.sessions i = some ⟨env, .offlining workers, request⟩ →
      Executes cfg s (some ⟨request, env, .done⟩)
        (s.close i (workers.foldl markOffline s.store))
  /-- An error, a crash, or the end of a transaction that has nothing to
  write. -/
  | rollback {i : ℕ} : Executes cfg s none (s.close i s.store)

/-- Transactions interleaved statement by statement, from an empty database. -/
def transactions (cfg : Config) : Transition Server (Option Call) where
  init s := s.store.Fresh ∧ ∀ i, s.sessions i = none
  step s l t := Executes cfg s l t

/-! ## What a commit leaves alone -/

section Keeps

variable {cfg : Config} {env : Env} {r : Row} {db db' : Database}

theorem Row.Keeps.refl (r : Row) (db : Database) : r.Keeps db db := by
  cases r with
  | worker id => exact ⟨fun _ hw _ => hw, fun h => h⟩
  | job id => exact ⟨fun _ hj _ => hj, fun h => h⟩

theorem Row.Keeps.trans {db'' : Database} (h : r.Keeps db db') (h' : r.Keeps db' db'') :
    r.Keeps db db'' := by
  cases r with
  | worker id => exact ⟨fun w hw hid => h'.1 w (h.1 w hw hid) hid, fun hfree => h'.2 (h.2 hfree)⟩
  | job id => exact ⟨fun j hj hid => h'.1 j (h.1 j hj hid) hid, fun hev => h'.2 (h.2 hev)⟩

theorem keeps_updateWorker {w : Worker} (w' : Worker) (hid : w'.id = w.id)
    (hr : r ≠ .worker w.id) : r.Keeps db { db with workers := db.workers.update w' } := by
  cases r with
  | worker id =>
      refine ⟨fun x hx hxid => Table.mem_update_of_ne hx fun heq => hr ?_, fun h => h⟩
      have hxw : x.id = w.id := heq.trans hid
      rw [← hxid, hxw]
  | job id => exact ⟨fun _ hj _ => hj, fun h => h⟩

/-- A commit of a worker's transaction for one of its jobs keeps every other
worker and every other job. -/
theorem keeps_commit {w : Worker} {j : RunnerJob} (w' : Worker) (j' : RunnerJob) (hj : j ∈ db.jobs)
    (hwid : w'.id = w.id) (hjid : j'.id = j.id) (hworkers : db'.workers = db.workers.update w')
    (hjobs : db'.jobs = db.jobs.update j')
    (hevs : ∀ ev ∈ db'.evaluations, ev ∈ db.evaluations ∨ ev.jobId = j.id)
    (hown : j'.status.IsActive → j'.workerId = some w.id)
    (hr : ¬(r = .worker w.id ∨ r = .job j.id)) : r.Keeps db db' := by
  cases r with
  | worker id =>
      have hne : id ≠ w.id := fun heq => hr (Or.inl (heq ▸ rfl))
      refine ⟨fun x hx hxid => ?_, fun hfree => ?_⟩
      · rw [hworkers]
        exact Table.mem_update_of_ne hx fun heq => hne (hxid ▸ heq.trans hwid)
      · rw [Database.activeJob_eq_none] at hfree ⊢
        intro x hx hxid ha
        rcases (Table.mem_update j' hj hjid).mp (hjobs ▸ hx) with rfl | ⟨hx, -⟩
        · exact hne (Option.some.inj (hxid.symm.trans (hown ha)))
        · exact hfree x hx hxid ha
  | job id =>
      have hne : id ≠ j.id := fun heq => hr (Or.inr (heq ▸ rfl))
      refine ⟨fun x hx hxid => ?_, fun hfree ev hev heq => ?_⟩
      · rw [hjobs]
        exact Table.mem_update_of_ne hx fun heq => hne (hxid ▸ heq.trans hjid)
      · rcases hevs ev hev with hev | hid
        · exact hfree ev hev heq
        · exact hne (heq.symm.trans hid)

/-- Expiring a job keeps every worker and every other job. -/
theorem keeps_expire {j : RunnerJob} (j' : RunnerJob) (hj : j ∈ db.jobs) (hid : j'.id = j.id)
    (hterm : j'.status.IsTerminal) (hr : r ≠ .job j.id) :
    r.Keeps db { db with jobs := db.jobs.update j' } := by
  cases r with
  | worker id =>
      refine ⟨fun _ hw _ => hw, fun hfree => ?_⟩
      rw [Database.activeJob_eq_none] at hfree ⊢
      intro x hx hxid ha
      rcases (Table.mem_update j' hj hid).mp hx with rfl | ⟨hx, -⟩
      · exact ha.not_terminal hterm
      · exact hfree x hx hxid ha
  | job id =>
      refine ⟨fun x hx hxid => Table.mem_update_of_ne hx fun heq => hr ?_, fun h => h⟩
      have hxj : x.id = j.id := heq.trans hid
      rw [← hxid, hxj]

/-- Queueing a job keeps every row. -/
theorem keeps_insertJob {j : RunnerJob} (h : db.insertJob j = some db') (hq : j.workerId = none) :
    r.Keeps db db' := by
  obtain ⟨-, -, t, ht, rfl⟩ := Database.insertJob_eq h
  cases r with
  | worker id =>
      refine ⟨fun _ hw _ => hw, fun hfree => ?_⟩
      rw [Database.activeJob_eq_none] at hfree ⊢
      intro x hx hxid
      rcases (Table.mem_insert? ht).mp hx with hx | rfl
      · exact hfree x hx hxid
      · rw [hq] at hxid
        cases hxid
  | job id => exact ⟨fun x hx _ => (Table.mem_insert? ht).mpr (Or.inl hx), fun h => h⟩

theorem keeps_retried {condition : Prop} {id : Uid} {t : Time} {j : RunnerJob}
    (h : Retried db db' condition (retryOf id t j)) : r.Keeps db db' := by
  rcases h with ⟨-, hins⟩ | ⟨-, rfl⟩
  · exact keeps_insertJob hins rfl
  · exact .refl r _

theorem keeps_expireJobs {n : ℕ} {jobs : List RunnerJob} (hbatch : Batch env jobs.zipIdx db)
    (h : jobs.zipIdx.foldlM (expireJob cfg env n) db = .ok db')
    (hr : ¬∃ j ∈ jobs, r = .job j.id) : r.Keeps db db' := by
  refine (foldlM_ok (P := fun rest d => r.Keeps db d ∧ Batch env rest d
      ∧ ∀ p ∈ rest, r ≠ .job p.1.id) ?_ h ⟨.refl r db, hbatch, fun p hp heq => hr ?_⟩).1
  · rintro ⟨j, i⟩ rest d d' ⟨hd, hbatch, hne⟩ hstep
    obtain ⟨hj, -⟩ := hbatch.jobs (j, i) (List.mem_cons_self ..)
    have hrow := keeps_expire (expiredRow cfg (env.tick (1 + i)) j) hj rfl expiredRow_terminal
      (hne (j, i) (List.mem_cons_self ..))
    exact ⟨(hd.trans hrow).trans (keeps_retried (expireJob_ok hstep)), hbatch.step hstep,
      fun p hp => hne p (List.mem_cons_of_mem _ hp)⟩
  · exact ⟨p.1, List.fst_mem_of_mem_zipIdx hp, heq⟩

theorem keeps_markOffline {workers : List Worker} (hr : ¬∃ w ∈ workers, r = .worker w.id) :
    r.Keeps db (workers.foldl markOffline db) := by
  refine (foldl_rec (P := fun rest d => r.Keeps db d ∧ ∀ w ∈ rest, r ≠ .worker w.id) ?_
    ⟨.refl r db, fun w hw heq => hr ⟨w, hw, heq⟩⟩).1
  rintro w rest d ⟨hd, hne⟩
  exact ⟨hd.trans (keeps_updateWorker _ rfl (hne w (List.mem_cons_self ..))),
    fun v hv => hne v (List.mem_cons_of_mem _ hv)⟩

theorem keeps_submit {data : SubmissionCreate} (h : submit env db data = .ok db') :
    r.Keeps db db' := by
  unfold submit at h
  obtain ⟨-, -, h⟩ := ok_of_bind h
  obtain ⟨problems, -, h⟩ := ok_of_bind h
  split at h
  · cases h
  · obtain ⟨db₁, hfold, h⟩ := ok_of_bind h
    obtain rfl := Env.ok_of_committed h
    refine foldlM_ok (P := fun _ d => r.Keeps db d) ?_ hfold (.refl r db)
    rintro ⟨problem, i⟩ rest d d' hd hp
    obtain ⟨d₁, hsub, hjob⟩ := ok_of_bind hp
    obtain ⟨t, -, rfl⟩ := Database.insertSubmission_eq (ok_of_inserted hsub)
    have hkeep : r.Keeps d { d with submissions := t } := by
      cases r with
      | worker id => exact ⟨fun _ hw _ => hw, fun h => h⟩
      | job id => exact ⟨fun _ hj _ => hj, fun h => h⟩
    exact (hd.trans hkeep).trans (keeps_insertJob (ok_of_inserted hjob) rfl)

theorem keeps_register {data : WorkerRegister} {w : Worker}
    (h : register cfg env db data = .ok (db', w)) : r.Keeps db db' := by
  unfold register at h
  dsimp only at h
  split at h
  · cases h
  · rename_i workers hins
    obtain ⟨rfl, rfl⟩ := Prod.mk.injEq .. |>.mp (Env.ok_of_committed h)
    cases r with
    | worker id => exact ⟨fun _ hw _ => (Table.mem_insert? hins).mpr (Or.inl hw), fun h => h⟩
    | job id => exact ⟨fun _ hj _ => hj, fun h => h⟩

end Keeps

/-! ## Every statement follows the discipline -/

section Discipline

variable {cfg : Config} {s t : Server} {l : Option Call}

/-- A row the query did not pass over is free. -/
theorem Server.Skips.free {i : ℕ} {row : Uid → Row} {skipped : List Uid}
    (h : s.Skips cfg i row skipped) {id : Uid} (hid : id ∉ skipped) : s.Free cfg i (row id) :=
  not_not.mp (mt (h id).mpr hid)

theorem nextQueued_ok {db : Database} {skipped : List Uid} {j : RunnerJob}
    (h : nextQueued db skipped = some j) : j ∈ db.jobs ∧ j.status = .queued ∧ j.id ∉ skipped := by
  have hmem := List.argmin_mem h
  simpa only [List.mem_filter, decide_eq_true_eq, Table.mem_def] using hmem

theorem executes_step (h : (Transaction.discipline cfg).Sound s) (hex : Executes cfg s l t) :
    (Transaction.discipline cfg).Step s t := by
  cases hex with
  | submit hok => exact .outside fun r => keeps_submit hok
  | register hok => exact .outside fun r => keeps_register hok
  | @authenticate i env id auth body w _ ht hfree hauth =>
      obtain ⟨hw, rfl⟩ := mem_of_workerAuth hauth
      refine .learn ?_ ⟨ht, hw⟩
      rintro r rfl
      exact hfree
  | @count i env w status request hi =>
      obtain ⟨ht, hw⟩ := h.learnt i _ hi
      exact .learn (fun r hr => h.free hi hr) ⟨ht, hw⟩
  | @report i env w active status request hi =>
      exact .commit hi fun r hr => keeps_updateWorker _ rfl hr
  | @search i env w request hi hclaimable hnone =>
      obtain ⟨ht, hw⟩ := h.learnt i _ hi
      exact .learn (fun r hr => h.free hi hr) ⟨ht, hw, hclaimable, hnone⟩
  | @pick i env w skipped j request hi hskips hnext =>
      obtain ⟨ht, hw⟩ := h.learnt i _ hi
      obtain ⟨hj, hq, hskip⟩ := nextQueued_ok hnext
      refine .learn ?_ ⟨ht, hw, hj, hq⟩
      rintro r (rfl | rfl)
      · exact h.free hi rfl
      · exact hskips.free hskip
  | @assign i env w j submission problem agent request hi _ _ _ =>
      obtain ⟨-, -, hj, -⟩ := h.learnt i _ hi
      exact .commit hi fun r hr => keeps_commit (claimRows cfg env j w).2 (claimRows cfg env j w).1
        hj rfl rfl rfl rfl (fun ev hev => Or.inl hev) (fun _ => rfl) hr
  | @own i env w jobId data j request hi hfree hown =>
      obtain ⟨ht, hw⟩ := h.learnt i _ hi
      obtain ⟨hj, hworker, -, hvalid⟩ := ownedJob_ok hown
      obtain ⟨hactive, e, he, hlt⟩ := leaseValid_ok (hvalid.resolve_left (by simp))
      obtain ⟨hmem, rfl⟩ := Table.get?_eq_some.mp hj
      refine .learn ?_ ⟨ht, hw, hmem, hworker, hactive, e, he, hlt⟩
      rintro r (rfl | rfl)
      · exact h.free hi rfl
      · exact hfree
  | @renew i env w j event request hi =>
      obtain ⟨-, -, hj, hworker, -⟩ := h.learnt i _ hi
      exact .commit hi fun r hr => keeps_commit (heartbeatRows cfg env j w event).2
        (heartbeatRows cfg env j w event).1 hj rfl rfl rfl rfl (fun ev hev => Or.inl hev)
        (fun _ => hworker) hr
  | @target i env w jobId data j problem request hi hvalid hfree htarget =>
      obtain ⟨ht, hw⟩ := h.learnt i _ hi
      obtain ⟨hj, rfl, hworker, -, hevs, hactive, -⟩ := resultTarget_ok htarget
      refine .learn ?_ ⟨ht, hw, hj, hevs, hworker, hactive, hvalid⟩
      rintro r (rfl | rfl)
      · exact h.free hi rfl
      · exact hfree
  | @record i env w j problem data db ev request hi _ hrec =>
      obtain ⟨-, -, hj, -⟩ := h.learnt i _ hi
      obtain ⟨rfl, -, evs, hins, hret⟩ := recordResult_ok hrec
      refine .commit hi fun r hr => Row.Keeps.trans ?_ (keeps_retried hret)
      refine keeps_commit (releasedRow env w) (finishedRow env j data) hj rfl rfl rfl rfl
        (fun ev hev => ?_) (fun ha => absurd finishedRow_terminal ha.not_terminal) hr
      rcases (Table.mem_insert? hins).mp hev with hev | rfl
      · exact Or.inl hev
      · exact Or.inr rfl
  | @select i env skipped _ ht hskips =>
      refine .learn ?_ ⟨ht, expiredJobs_nodup _ _, fun j hj => ?_⟩
      · rintro r ⟨j, hj, rfl⟩
        exact hskips.free (mem_expiredJobs.mp hj).2.2.1
      · obtain ⟨hmem, hactive, -, hexp⟩ := mem_expiredJobs.mp hj
        exact ⟨hmem, hactive, hexp⟩
  | @expire i env jobs db request hi hfold =>
      obtain ⟨-, hnodup, hjobs⟩ := h.learnt i _ hi
      exact .commit hi fun r hr => keeps_expireJobs (.of_jobs hnodup hjobs) hfold hr
  | @selectWorkers i env skipped _ ht hskips =>
      refine .learn ?_ ⟨ht, offlineWorkers_nodup _ _, fun w hw => ?_⟩
      · rintro r ⟨w, hw, rfl⟩
        exact hskips.free (mem_offlineWorkers.mp hw).2.2.1
      · obtain ⟨hmem, hlate, -, hstatus⟩ := mem_offlineWorkers.mp hw
        exact ⟨hmem, hstatus, hlate⟩
  | offline hi => exact .commit hi fun r hr => keeps_markOffline hr
  | rollback => exact .abort

/-- **Interleavings refine the control plane.** Whatever the other
transactions do, a statement changes the database by a sequence of changes
of the control plane, each made under the conditions the source checks. -/
theorem executes_changes (h : (Transaction.discipline cfg).Sound s) (hex : Executes cfg s l t) :
    ∃ c c' kind, Changes cfg c c' kind s.store t.store := by
  cases hex with
  | submit hok => exact ⟨0, 0, _, submit_changes hok⟩
  | register hok => exact ⟨0, 0, _, .single (register_change hok)⟩
  | @report i env w active status request hi =>
      obtain ⟨⟨c, c', ht⟩, hw⟩ := h.learnt i _ hi
      exact ⟨c, c', _, .single (Change.report ht hw)⟩
  | @assign i env w j submission problem agent request hi _ _ _ =>
      obtain ⟨⟨c, c', ht⟩, ⟨hw, hclaimable, hnone⟩, hj, hq⟩ := h.learnt i _ hi
      exact ⟨c, c', _, .single (Change.claim ht hw hclaimable hnone hj hq)⟩
  | @renew i env w j event request hi =>
      obtain ⟨⟨c, c', ht⟩, hw, hj, hworker, hactive, e, he, hlt⟩ := h.learnt i _ hi
      exact ⟨c, c', _, .single (Change.renew ht hw hj hworker hactive he hlt)⟩
  | @record i env w j problem data db ev request hi hlease hrec =>
      obtain ⟨⟨c, c', ht⟩, hw, hj, -, hworker, hactive, hvalid⟩ := h.learnt i _ hi
      obtain ⟨e, he, hlt⟩ := leaseUnexpired_ok hlease
      exact ⟨c, c', _,
        .single (recordResult_change ht hw hj hworker hactive he hlt hvalid hrec).1⟩
  | @expire i env jobs db request hi hfold =>
      obtain ⟨⟨c, c', ht⟩, hnodup, hjobs⟩ := h.learnt i _ hi
      exact ⟨c, c', _, expireJobs_changes ht (.of_jobs hnodup hjobs) hfold⟩
  | @offline i env workers request hi =>
      obtain ⟨⟨c, c', ht⟩, hnodup, hworkers⟩ := h.learnt i _ hi
      exact ⟨c, c', _, markOffline_changes ht hnodup hworkers⟩
  | _ => exact ⟨0, 0, .enqueue, .refl⟩

end Discipline

/-! ## Invariants of every interleaving -/

section Runs

variable {cfg : Config} {s t : Server} {l : Option Call}
  {tr : List (Option Call)}

theorem reachable_sound (hs : (transactions cfg).Reachable s) :
    (Transaction.discipline cfg).Sound s ∧ Consistent s.store := by
  refine hs.rec_on (P := fun s => (Transaction.discipline cfg).Sound s ∧ Consistent s.store) ?_ ?_
  · rintro s ⟨hfresh, hidle⟩
    exact ⟨Locking.sound_of_idle hidle, .fresh hfresh⟩
  · rintro s l t - ⟨hsound, hcons⟩ hstep
    obtain ⟨c, c', kind, hch⟩ := executes_changes hsound hstep
    exact ⟨hsound.step (executes_step hsound hstep), hcons.changes hch⟩

/-- Rows move forward along every interleaving. -/
theorem transactions_evolve (hs : (transactions cfg).Reachable s)
    (hrun : (transactions cfg).Run s tr t) : s.store.Evolves t.store := by
  refine hrun.relates (R := fun s t => s.store.Evolves t.store) (fun _ => .refl _)
    (fun h h' => h.trans h') ?_ hs
  intro u l v hu hstep
  obtain ⟨hsound, hcons⟩ := reachable_sound hu
  obtain ⟨c, c', kind, hch⟩ := executes_changes hsound hstep
  exact (changes_evolves hch hcons.ownership).1

/-- A committed claim has taken a job from the queue. -/
theorem executes_claim (h : (Transaction.discipline cfg).Sound s) {call : Call} {claim : JobClaim}
    (hclaim : call.response.claim? = some claim) (hex : Executes cfg s (some call) t) :
    (∃ j ∈ s.store.jobs, j.id = claim.job.id ∧ j.status = .queued)
      ∧ claim.job ∈ t.store.jobs ∧ claim.job.status = .claimed := by
  cases hex with
  | @assign i env w j submission problem agent request hi _ _ _ =>
      obtain ⟨-, -, hj, hq⟩ := h.learnt i _ hi
      obtain rfl := Option.some.inj hclaim
      exact ⟨⟨j, hj, rfl, hq⟩, (Table.mem_update (claimRows cfg env j w).1 hj rfl).mpr (Or.inl rfl),
        rfl⟩
  | _ => nomatch hclaim

/-- The claim a statement has answered. -/
def claimOf (l : Option Call) : Option JobClaim :=
  l.bind fun call => call.response.claim?

/-- The jobs handed out by the claims of a trace. -/
def claimedJobs (tr : List (Option Call)) : List Uid :=
  tr.filterMap fun l => (claimOf l).map fun claim => claim.job.id

/-- Jobs handed out have left the queue, and none is handed out twice. -/
theorem claimedJobs_nodup (hs : (transactions cfg).Reachable s)
    (hrun : (transactions cfg).Run s tr t) :
    (claimedJobs tr).Nodup
      ∧ ∀ id ∈ claimedJobs tr, ∃ j ∈ t.store.jobs, j.id = id ∧ j.status ≠ .queued := by
  induction hrun with
  | nil => exact ⟨List.nodup_nil, fun id hid => (List.not_mem_nil hid).elim⟩
  | @snoc tr u v l hpre hstep ih =>
      obtain ⟨hnodup, hleft⟩ := ih
      have hu := hs.run hpre
      obtain ⟨hsound, -⟩ := reachable_sound hu
      have hleft' : ∀ id ∈ claimedJobs tr, ∃ j ∈ v.store.jobs, j.id = id ∧ j.status ≠ .queued := by
        intro id hid
        obtain ⟨j, hj, rfl, hq⟩ := hleft id hid
        obtain ⟨j', hj', hjj'⟩ := (transactions_evolve hu (.single hstep)).jobs j hj
        exact ⟨j', hj', hjj'.id, fun hq' => hq (hjj'.queued hq' ▸ hq')⟩
      cases hclaim : claimOf l with
      | none =>
          have hsame : claimedJobs (tr ++ [l]) = claimedJobs tr := by simp [claimedJobs, hclaim]
          rw [hsame]
          exact ⟨hnodup, hleft'⟩
      | some claim =>
          obtain ⟨call, rfl, hanswer⟩ := Option.bind_eq_some_iff.mp hclaim
          obtain ⟨⟨j, hj, hid, hq⟩, hmem, hstatus⟩ := executes_claim hsound hanswer hstep
          have hnew : claim.job.id ∉ claimedJobs tr := fun hold => by
            obtain ⟨k, hk, hkid, hkq⟩ := hleft _ hold
            obtain rfl := Table.eq_of_key_eq hj hk (hid.trans hkid.symm)
            exact hkq hq
          have happend : claimedJobs (tr ++ [some call])
              = claimedJobs tr ++ [claim.job.id] := by simp [claimedJobs, hclaim]
          rw [happend]
          refine ⟨hnodup.append (List.nodup_singleton _) (List.disjoint_singleton.mpr hnew),
            fun id hid => ?_⟩
          rcases List.mem_append.mp hid with hid | hid
          · exact hleft' id hid
          · rw [List.mem_singleton.mp hid]
            exact ⟨claim.job, hmem, rfl, by simp [hstatus]⟩

/-- **Single ownership.** In every state an interleaving of transactions can
reach, a worker owns at most one active job, a queued job has no owner,
token or expiry, and an active one has all three. From there on, owners and
tokens never change, no job returns to the queue, and no two claims hand
out the same job. -/
theorem single_ownership (hs : (transactions cfg).Reachable s) :
    (∀ j ∈ s.store.jobs, ∀ k ∈ s.store.jobs, j.status.IsActive → k.status.IsActive →
        j.workerId = k.workerId → j = k)
      ∧ (∀ j ∈ s.store.jobs, j.status = .queued →
          j.workerId = none ∧ j.leaseToken = none ∧ j.leaseExpiresAt = none)
      ∧ (∀ j ∈ s.store.jobs, j.status.IsActive →
          (∃ w, j.workerId = some w) ∧ (∃ tok, j.leaseToken = some tok)
            ∧ ∃ e, j.leaseExpiresAt = some e)
      ∧ ∀ tr t, (transactions cfg).Run s tr t →
          (∀ j ∈ s.store.jobs, ∃ j' ∈ t.store.jobs, j'.id = j.id
            ∧ (∀ w, j.workerId = some w → j'.workerId = some w)
            ∧ (∀ tok, j.leaseToken = some tok → j'.leaseToken = some tok)
            ∧ (j.status ≠ .queued → j'.status ≠ .queued))
          ∧ (claimedJobs tr).Nodup := by
  obtain ⟨-, hown, -⟩ := reachable_sound hs
  refine ⟨hown.single, fun j hj => (hown.rows j hj).queued,
    fun j hj ha => (hown.rows j hj).owned ha.ne_queued, fun tr t hrun => ⟨fun j hj => ?_, ?_⟩⟩
  · obtain ⟨j', hj', hjj'⟩ := (transactions_evolve hs hrun).jobs j hj
    exact ⟨j', hj', hjj'.id, hjj'.worker, hjj'.token, fun hq hq' => hq (hjj'.queued hq' ▸ hq')⟩
  · exact (claimedJobs_nodup hs hrun).1

end Runs

/-! ### A claim, statement by statement -/

/-- With one open transaction every row is free for it. -/
theorem free_of_alone {cfg : Config} {s : Server} {i : ℕ} {r : Row}
    (h : ∀ k, k ≠ i → s.sessions k = none) : s.Free cfg i r := by
  intro k l hk hl
  rw [h k hk] at hl
  cases hl

/-- The claim of a registered worker runs through, and its job has one
owner. -/
theorem single_ownership_claimed :
    ∃ t, (transactions Sample.config).Reachable t
      ∧ (t.store.jobs.rows.map fun j => (j.id, j.workerId, j.status)) = [(21, some 10, .claimed)]
      ∧ ∀ j ∈ t.store.jobs, j.status.IsActive →
          (∃ w, j.workerId = some w) ∧ (∃ tok, j.leaseToken = some tok)
            ∧ ∃ e, j.leaseExpiresAt = some e := by
  let env := Env.quiet 3 30 Sample.token
  let db₁ := (replay Sample.config Sample.start (Sample.claimed.take 1)).1.db
  let db₂ := (replay Sample.config Sample.start (Sample.claimed.take 2)).1.db
  let idle : Database → Server := fun db => ⟨db, fun _ => none⟩
  have hinit : (transactions Sample.config).init (idle Sample.start.db) :=
    ⟨Sample.init, fun _ => rfl⟩
  obtain ⟨w, -, hregister⟩ : ∃ w ∈ db₁.workers.rows, register Sample.config
      (Env.quiet 1 10 Sample.token) Sample.start.db ⟨"w", "h", "linux", "1", []⟩
        = .ok (db₁, w) := by decide +kernel
  have hsubmit : submit (Env.quiet 2 20 Sample.token) db₁ ⟨1, [2]⟩ = .ok db₂ := by
    decide +kernel
  obtain ⟨w, -, j, -, hauth, hclaimable, hfree, hnext, hrows⟩ :
      ∃ w ∈ db₂.workers.rows, ∃ j ∈ db₂.jobs.rows,
        workerAuth Sample.config db₂ 10 Sample.credential = .ok w ∧ claimable w = .ok ()
          ∧ db₂.activeJob w.id = none ∧ nextQueued db₂ [] = some j
          ∧ (((db₂.jobs.update (claimRows Sample.config env j w).1).rows.map fun j =>
              (j.id, j.workerId, j.status)) = [(21, some 10, .claimed)]
            ∧ require "Submission" db₂.submissions j.submissionId = .ok ⟨20, 1, 2⟩
            ∧ require "ProblemVersion" db₂.problemVersions 2 = .ok Sample.problem
            ∧ require "AgentVersion" db₂.agentVersions 1 = .ok Sample.agent) := by
    decide +kernel
  obtain ⟨hrows, hsub, hproblem, hagent⟩ := hrows
  have htime : ∃ c c', Timed env c c' := ⟨3, 3, .quiet le_rfl⟩
  let request : Request := .claim 10 Sample.credential
  let s : Server := ((idle db₂).put 0 ⟨env, .authenticated w .claim, request⟩).put 0
    ⟨env, .searched w, request⟩
  have halone : ∀ k, k ≠ 0 → s.sessions k = none := fun k hk => by
    simp [s, World.put, idle, hk]
  have hskips : s.Skips Sample.config 0 .job [] := fun id =>
    iff_of_false List.not_mem_nil (not_not.mpr (free_of_alone halone))
  have hreach := (Transition.Reachable.init hinit).step (.register hregister)
    |>.step (.submit hsubmit)
    |>.step (.authenticate rfl htime (free_of_alone fun _ _ => rfl) hauth)
    |>.step (.search (i := 0) (World.put_self ..) hclaimable hfree)
    |>.step (.pick (World.put_self ..) hskips hnext)
    |>.step (.assign (World.put_self ..) hsub hproblem hagent)
  exact ⟨_, hreach, hrows, (single_ownership hreach).2.2.1⟩

end AgentBenchX
