import AgentBenchX.Acceptance
import AgentBenchX.History
import AgentBenchX.Transactions

/-!
# Requests that nobody disturbs

`serial` handles one request after the other. Nothing a request does fails,
and nobody holds rows it needs; the queries of a claim and of the reaper may
pass over rows, as `SKIP LOCKED` lets them.

What the stages of a transaction have read and locked is enough for its
request to be handled so in one go, whatever the rows of the other workers
(`Database.withWorkers`).
-/

namespace AgentBenchX

/-! ## One request after the other -/

/-- The requests that only stamp rows with their readings. -/
def Request.Stamps : Request → Prop
  | .submit _ | .register _ => True
  | _ => False

/-- The requests whose queries pass over locked rows. -/
def Request.SkipsLocked : Request → Prop
  | .claim .. | .reapJobs | .reapWorkers => True
  | _ => False

/-- Nothing fails, and only `SKIP LOCKED` passes over rows. -/
structure Call.Undisturbed (call : Call) : Prop where
  put : ∀ i, call.env.put i = .succeeds
  commit : call.env.commit = true
  skipped : ¬call.request.SkipsLocked → call.env.skipped = []

/-- Requests handled one after the other, each undisturbed and with readings
of its own. -/
def serial (cfg : Config) : Transition (Database × Storage) Call where
  init s := s.1.Fresh ∧ s.2 = Table.empty
  step s call t :=
    call.Undisturbed ∧ (call.request.Stamps ∨ ∃ c c', Timed call.env c c')
      ∧ handle cfg call.env s.1 s.2 call.request = ((t.1, call.response), t.2)

/-- The surroundings of a request that nobody disturbs. -/
def Env.alone (env : Env) (skipped : List Uid) : Env :=
  { env with skipped, put := fun _ => .succeeds, commit := true }

@[simp] theorem Env.alone_tick (env : Env) (skipped : List Uid) :
    (env.alone skipped).tick = env.tick := rfl

@[simp] theorem Env.alone_fresh (env : Env) (skipped : List Uid) :
    (env.alone skipped).fresh = env.fresh := rfl

@[simp] theorem Env.alone_secret (env : Env) (skipped : List Uid) :
    (env.alone skipped).secret = env.secret := rfl

theorem Timed.alone {env : Env} {c c' : Time} (h : Timed env c c') (skipped : List Uid) :
    Timed (env.alone skipped) c c' :=
  ⟨h.mono, h.ge, h.le⟩

/-- The same request, readings and answer in such surroundings. -/
def Call.alone (call : Call) (skipped : List Uid) : Call :=
  { call with env := call.env.alone skipped }

theorem Call.undisturbed_alone {call : Call} {skipped : List Uid}
    (h : ¬call.request.SkipsLocked → skipped = []) : (call.alone skipped).Undisturbed :=
  ⟨fun _ => rfl, rfl, h⟩

/-- The same database with other worker rows. -/
def Database.withWorkers (db : Database) (workers : Table Worker) : Database :=
  { db with workers }

/-- Some token in the authorization is accepted for the worker. -/
def Worker.Accepts (cfg : Config) (w : Worker) (auth : Option String) : Prop :=
  ∃ token, bearer auth = .ok token ∧ cfg.sha256 token = w.tokenHash

/-- The token is the lease token of the job. -/
def RunnerJob.Carries (j : RunnerJob) (token : String) : Prop :=
  compareDigest ((j.leaseToken.map Token.text).getD "") token = .ok true

theorem accepts_of_workerAuth {cfg : Config} {db : Database} {id : Uid} {auth : Option String}
    {w : Worker} (h : workerAuth cfg db id auth = .ok w) : w.Accepts cfg auth := by
  unfold workerAuth at h
  split at h
  · cases h
  · obtain ⟨token, htoken, h⟩ := ok_of_bind h
    split at h
    · obtain rfl := Except.ok.inj h
      exact ⟨token, htoken, ‹_›⟩
    · cases h

/-- A credential stays good for as long as the row keeps its hash. -/
theorem Worker.Accepts.workerAuth {cfg : Config} {w : Worker} {auth : Option String}
    (h : w.Accepts cfg auth) (db : Database) (hw : w ∈ db.workers) :
    workerAuth cfg db w.id auth = .ok w := by
  obtain ⟨token, htoken, hhash⟩ := h
  unfold AgentBenchX.workerAuth
  rw [show db.workers.get? w.id = some w from Table.get?_eq_some.mpr ⟨hw, rfl⟩]
  simp only
  rw [bind_of_ok htoken]
  exact if_pos hhash

/-! ## Requests handled on their own -/

section Handled

variable {cfg : Config} {env : Env} {db db' : Database} {st : Storage} {w : Worker}
  {auth : Option String} {ws : Table Worker}

theorem committed_alone {α : Type} (a : α) (skipped : List Uid) :
    (env.alone skipped).committed a = .ok a := rfl

theorem insertSubmission_withWorkers (sub : Submission) :
    (db.withWorkers ws).insertSubmission sub
      = (db.insertSubmission sub).map (Database.withWorkers · ws) := by
  unfold Database.insertSubmission
  rw [apply_ite (Option.map _), Option.map_map, Option.map_none]
  rfl

theorem insertJob_withWorkers (j : RunnerJob) :
    (db.withWorkers ws).insertJob j = (db.insertJob j).map (Database.withWorkers · ws) := by
  unfold Database.insertJob
  rw [apply_ite (Option.map _), apply_ite (Option.map _), Option.map_map, Option.map_none]
  rfl

theorem inserted_map (db? : Option Database) :
    inserted (db?.map (Database.withWorkers · ws))
      = (inserted db?).map (Database.withWorkers · ws) := by
  cases db? <;> rfl

theorem enqueueProblem_withWorkers (agentVersionId : Uid) (p : ProblemVersion × ℕ) :
    enqueueProblem (env.alone []) agentVersionId (db.withWorkers ws) p
      = (enqueueProblem env agentVersionId db p).map (Database.withWorkers · ws) := by
  obtain ⟨problem, i⟩ := p
  unfold enqueueProblem
  simp only [Env.alone_fresh, Env.alone_tick, insertSubmission_withWorkers, inserted_map]
  cases inserted (db.insertSubmission ⟨env.fresh (2 * i), agentVersionId, problem.id⟩) with
  | error e => rfl
  | ok d =>
      show inserted ((d.withWorkers ws).insertJob _) = (inserted (d.insertJob _)).map _
      rw [insertJob_withWorkers, inserted_map]

/-- Submissions do not look at the workers. -/
theorem submit_withWorkers {data : SubmissionCreate} (h : submit env db data = .ok db') :
    submit (env.alone []) (db.withWorkers ws) data = .ok (db'.withWorkers ws) := by
  unfold submit at h ⊢
  obtain ⟨agent, hagent, h⟩ := ok_of_bind h
  obtain ⟨problems, hproblems, h⟩ := ok_of_bind h
  show (require "AgentVersion" db.agentVersions data.agentVersionId >>= _) = _
  rw [bind_of_ok hagent]
  show (List.mapM (require "ProblemVersion" db.problemVersions) _ >>= _) = _
  rw [bind_of_ok hproblems]
  split at h
  · cases h
  · rename_i hready
    obtain ⟨d, hfold, h⟩ := ok_of_bind h
    rw [if_neg hready, foldlM_map (g := (Database.withWorkers · ws))
      (fun b p => enqueueProblem_withWorkers data.agentVersionId p), hfold]
    obtain rfl := Env.ok_of_committed h
    rfl

theorem workers_of_enqueue {c c' : Time} (h : Changes cfg c c' .enqueue db db') :
    db'.workers = db.workers := by
  induction h with
  | refl => rfl
  | tail _ hlast ih =>
      cases hlast with
      | enqueue hsub hjob =>
          obtain ⟨ts, -, rfl⟩ := Database.insertSubmission_eq hsub
          obtain ⟨-, -, tj, -, rfl⟩ := Database.insertJob_eq hjob
          exact ih

theorem handle_submit {data : SubmissionCreate} (h : submit env db data = .ok db') :
    handle cfg (env.alone []) (db.withWorkers ws) st (.submit data)
      = ((db'.withWorkers ws, .done), st) := by
  simp only [handle, submit_withWorkers h]
  rfl

theorem workers_of_register {data : WorkerRegister} (h : register cfg env db data = .ok (db', w)) :
    ∃ workers, db.workers.insert? w = some workers ∧ db' = { db with workers } := by
  unfold register at h
  dsimp only at h
  split at h
  · cases h
  · rename_i workers hworkers
    obtain ⟨rfl, rfl⟩ := Prod.mk.injEq .. |>.mp (Env.ok_of_committed h)
    exact ⟨workers, hworkers, rfl⟩

theorem register_withWorkers {data : WorkerRegister} {ws₀ : Table Worker}
    (h : register cfg env db data = .ok (db', w)) (hins : ws₀.insert? w = some ws) :
    register cfg (env.alone []) (db.withWorkers ws₀) data = .ok (db'.withWorkers ws, w) := by
  unfold register at h ⊢
  dsimp only at h ⊢
  split at h
  · cases h
  · obtain ⟨rfl, rfl⟩ := Prod.mk.injEq .. |>.mp (Env.ok_of_committed h)
    simp only [Env.alone_fresh, Env.alone_tick, Env.alone_secret]
    rw [show (db.withWorkers ws₀).workers = ws₀ from rfl, hins]
    rfl

theorem handle_register {data : WorkerRegister} {ws₀ : Table Worker}
    (h : register cfg env db data = .ok (db', w)) (hins : ws₀.insert? w = some ws) :
    handle cfg (env.alone []) (db.withWorkers ws₀) st (.register data)
      = ((db'.withWorkers ws, .credentials w env.secret), st) := by
  simp only [handle, register_withWorkers h hins]
  rfl

theorem handle_workerHeartbeat (hauth : workerAuth cfg db w.id auth = .ok w)
    (status : ReportedStatus) :
    handle cfg (env.alone []) db st (.workerHeartbeat w.id auth status)
      = ((db.withWorkers (db.workers.update
          (workerHeartbeatRow env (db.activeJob w.id) w status)),
        .worker (workerHeartbeatRow env (db.activeJob w.id) w status)), st) := by
  simp only [handle]
  rw [bind_of_ok hauth]
  rfl

/-- The ids that are not in the list. -/
def but (ids all : List Uid) : List Uid := all.filter fun id => decide (id ∉ ids)

theorem mem_but {ids all : List Uid} {id : Uid} : id ∈ but ids all ↔ id ∈ all ∧ id ∉ ids := by
  simp [but]

/-- With all other jobs locked, the queued job is the next one. -/
theorem nextQueued_alone {j : RunnerJob} (hj : j ∈ db.jobs) (hq : j.status = .queued) :
    nextQueued db (but [j.id] (db.jobs.rows.map RunnerJob.id)) = some j := by
  cases hnext : nextQueued db (but [j.id] (db.jobs.rows.map RunnerJob.id)) with
  | none =>
      have hnone := List.argmin_eq_none.mp hnext
      have hmem : j ∈ db.jobs.rows.filter fun x => decide (x.status = .queued
          ∧ x.id ∉ but [j.id] (db.jobs.rows.map RunnerJob.id)) :=
        List.mem_filter.mpr ⟨hj, decide_eq_true ⟨hq, by simp [mem_but]⟩⟩
      rw [hnone] at hmem
      exact absurd hmem List.not_mem_nil
  | some x =>
      obtain ⟨hx, -, hskip⟩ := nextQueued_ok hnext
      by_cases hid : x.id = j.id
      · rw [Table.eq_of_key_eq hx hj hid]
      · exact absurd (mem_but.mpr ⟨List.mem_map.mpr ⟨x, hx, rfl⟩, by simpa using hid⟩) hskip

theorem handle_claim {j : RunnerJob} {submission : Submission} {problem : ProblemVersion}
    {agent : AgentVersion} (hauth : workerAuth cfg db w.id auth = .ok w)
    (hclaimable : claimable w = .ok ()) (hfree : db.activeJob w.id = none) (hj : j ∈ db.jobs)
    (hq : j.status = .queued)
    (hsub : require "Submission" db.submissions j.submissionId = .ok submission)
    (hproblem : require "ProblemVersion" db.problemVersions submission.problemVersionId
      = .ok problem)
    (hagent : require "AgentVersion" db.agentVersions submission.agentVersionId = .ok agent) :
    handle cfg (env.alone (but [j.id] (db.jobs.rows.map RunnerJob.id))) db st (.claim w.id auth)
      = (({ db with
          jobs := db.jobs.update (claimRows cfg env j w).1
          workers := db.workers.update (claimRows cfg env j w).2 },
        .claimed (some ⟨(claimRows cfg env j w).1, env.secret, cfg.leaseSeconds, problem, agent⟩)),
        st) := by
  simp only [handle]
  rw [bind_of_ok hauth]
  unfold claim
  rw [bind_of_ok hclaimable, hfree]
  simp only [Option.isSome_none, Bool.false_eq_true, if_false]
  rw [show nextQueued db (env.alone (but [j.id] (db.jobs.rows.map RunnerJob.id))).skipped = some j
    from nextQueued_alone hj hq]
  simp only
  rw [bind_of_ok hsub, bind_of_ok hproblem, bind_of_ok hagent]
  rfl

/-- `owned_job` on an active job under its token. -/
theorem ownedJob_of_active {j : RunnerJob} {token : String} {allowTerminal : Bool}
    {reading e : Time}
    (hj : j ∈ db.jobs) (hworker : j.workerId = some w.id) (htoken : j.Carries token)
    (ha : j.status.IsActive) (he : j.leaseExpiresAt = some e) (hlt : reading < e) :
    ownedJob (db.jobs.get? j.id) w token allowTerminal reading = .ok j := by
  unfold ownedJob
  rw [show db.jobs.get? j.id = some j from Table.get?_eq_some.mpr ⟨hj, rfl⟩]
  simp only
  rw [if_neg (not_not.mpr hworker), bind_of_ok htoken]
  simp only [Bool.not_true, Bool.false_eq_true, if_false, ha.not_terminal, and_false]
  exact bind_of_ok (leaseValid_of_lt ha he hlt)

theorem handle_heartbeat {j : RunnerJob} {token : String} {event : JobEvent} {e : Time}
    (hauth : workerAuth cfg db w.id auth = .ok w) (hj : j ∈ db.jobs)
    (hworker : j.workerId = some w.id) (htoken : j.Carries token) (ha : j.status.IsActive)
    (he : j.leaseExpiresAt = some e) (hlt : env.tick 0 < e) :
    handle cfg (env.alone []) db st (.heartbeat w.id auth j.id ⟨token, event⟩)
      = (({ db with
          jobs := db.jobs.update (heartbeatRows cfg env j w event).1
          workers := db.workers.update (heartbeatRows cfg env j w event).2 },
        .job (heartbeatRows cfg env j w event).1), st) := by
  simp only [handle]
  rw [bind_of_ok hauth]
  have hown : ownedJob (db.jobs.get? j.id) w (JobHeartbeat.mk token event).leaseToken false
      ((env.alone []).tick 0) = .ok j := ownedJob_of_active hj hworker htoken ha he hlt
  unfold heartbeat
  rw [bind_of_ok hown]
  rfl

theorem retryIf_withWorkers (condition : Prop) [Decidable condition] (retry : RunnerJob) :
    retryIf condition (db.withWorkers ws) retry
      = (retryIf condition db retry).map (Database.withWorkers · ws) := by
  unfold retryIf
  split
  · rw [insertJob_withWorkers, inserted_map]
  · rfl

theorem insertEvaluation_withWorkers (e : Evaluation) :
    (db.withWorkers ws).insertEvaluation e
      = (db.insertEvaluation e).map (Database.withWorkers · ws) := by
  unfold Database.insertEvaluation
  rw [apply_ite (Option.map _), Option.map_map, Option.map_none]
  rfl

/-- A result is recorded alike, whatever the other workers' rows. -/
theorem recordResult_withWorkers {j : RunnerJob} {problem : ProblemVersion} {data : ResultInput}
    {ev : Evaluation} (ws₀ : Table Worker)
    (h : recordResult cfg env db w j problem data = .ok (db', ev)) :
    recordResult cfg (env.alone []) (db.withWorkers ws₀) w j problem data
      = .ok (db'.withWorkers (ws₀.update (releasedRow env w)), ev) := by
  unfold recordResult at h ⊢
  dsimp only at h ⊢
  obtain ⟨db₁, hins, h⟩ := ok_of_bind h
  obtain ⟨db₂, hretry, h⟩ := ok_of_bind h
  obtain ⟨rfl, rfl⟩ := Prod.mk.injEq .. |>.mp (Env.ok_of_committed h)
  have hins' : inserted ((db.withWorkers ws₀).insertEvaluation
      (evaluationRow (env.alone []) w j problem data)) = .ok (db₁.withWorkers ws₀) := by
    rw [insertEvaluation_withWorkers, inserted_map]
    exact congrArg (Except.map _) hins
  rw [bind_of_ok hins']
  refine (bind_of_ok ?_).trans (committed_alone _ [])
  exact (retryIf_withWorkers _ _).trans (congrArg (Except.map _) hretry)

theorem expireJob_withWorkers {n : ℕ} (p : RunnerJob × ℕ) :
    expireJob cfg env n (db.withWorkers ws) p
      = (expireJob cfg env n db p).map (Database.withWorkers · ws) :=
  @retryIf_withWorkers { db with jobs := _ } ws _ _ _

theorem expireJobs_withWorkers {n : ℕ} {batch : List (RunnerJob × ℕ)}
    (h : batch.foldlM (expireJob cfg env n) db = .ok db') :
    batch.foldlM (expireJob cfg env n) (db.withWorkers ws) = .ok (db'.withWorkers ws) :=
  (foldlM_map (fun _ p => expireJob_withWorkers p) _ db).trans (congrArg (Except.map _) h)

theorem expireJobs_workers {n : ℕ} {batch : List (RunnerJob × ℕ)}
    (h : batch.foldlM (expireJob cfg env n) db = .ok db') : db'.workers = db.workers := by
  have hsame : batch.foldlM (expireJob cfg env n) (db.withWorkers db.workers)
      = .ok (db'.withWorkers db.workers) := expireJobs_withWorkers h
  have heq : db' = db'.withWorkers db.workers := Except.ok.inj (h.symm.trans hsame)
  exact (congrArg Database.workers heq :)

theorem reapJobs_of_expired {batch : List RunnerJob}
    (hquery : expiredJobs db env.skipped (env.tick 0) = batch) (hcommit : env.commit = true)
    (hfold : batch.zipIdx.foldlM (expireJob cfg env batch.length) db = .ok db') :
    reapJobs cfg env db = .ok db' := by
  subst hquery
  unfold reapJobs
  rw [bind_of_ok hfold]
  exact if_pos hcommit

/-- The reaper, with all jobs locked but those of the batch. -/
theorem handle_reapJobs {batch : List RunnerJob}
    (hbatch : ∀ j ∈ batch, j ∈ db.jobs ∧ j.status.IsActive
      ∧ ∃ e, j.leaseExpiresAt = some e ∧ e < env.tick 0)
    (horder : (batch.map RunnerJob.id).Sublist (db.jobs.rows.map RunnerJob.id))
    (hfold : batch.zipIdx.foldlM (expireJob cfg env batch.length) db = .ok db') :
    handle cfg (env.alone (but (batch.map RunnerJob.id) (db.jobs.rows.map RunnerJob.id)))
      (db.withWorkers ws) st .reapJobs = ((db'.withWorkers ws, .done), st) := by
  have hquery : expiredJobs (db.withWorkers ws)
      (but (batch.map RunnerJob.id) (db.jobs.rows.map RunnerJob.id)) (env.tick 0) = batch := by
    refine Table.filter_rows (t := db.jobs) (fun j hj => (hbatch j hj).1) horder fun r hr => ?_
    have hiff : r ∈ expiredJobs db
        (but (batch.map RunnerJob.id) (db.jobs.rows.map RunnerJob.id)) (env.tick 0) ↔ _ :=
      mem_expiredJobs
    rw [expiredJobs, List.mem_filter, ← Table.mem_def] at hiff
    refine ⟨fun hp => ?_, ?_⟩
    · obtain ⟨-, -, hskip, -⟩ := hiff.mp ⟨hr, hp⟩
      by_contra hnone
      refine hskip (mem_but.mpr ⟨List.mem_map.mpr ⟨r, hr, rfl⟩, fun hmem => hnone ?_⟩)
      obtain ⟨x, hx, hid⟩ := List.mem_map.mp hmem
      exact ⟨x, hx, hid⟩
    · rintro ⟨x, hx, hid⟩
      obtain ⟨hxmem, ha, hlate⟩ := hbatch x hx
      obtain rfl := Table.eq_of_key_eq hxmem hr hid
      exact (hiff.mpr ⟨hr, ha, fun h => (mem_but.mp h).2 (List.mem_map_of_mem hx), hlate⟩).2
  have hreap : reapJobs cfg (env.alone (but (batch.map RunnerJob.id)
      (db.jobs.rows.map RunnerJob.id))) (db.withWorkers ws) = .ok (db'.withWorkers ws) :=
    reapJobs_of_expired hquery rfl (expireJobs_withWorkers hfold)
  simp only [handle]
  rw [hreap]
  rfl

/-- The same for the workers. -/
theorem handle_reapWorkers {batch : List Worker}
    (hbatch : ∀ w ∈ batch, w ∈ db.workers ∧ (w.status = .online ∨ w.status = .busy)
      ∧ w.lastHeartbeat < env.tick 0 - cfg.workerOfflineSeconds)
    (horder : (batch.map Worker.id).Sublist (db.workers.rows.map Worker.id)) :
    handle cfg (env.alone (but (batch.map Worker.id) (db.workers.rows.map Worker.id))) db st
      .reapWorkers = ((batch.foldl markOffline db, .done), st) := by
  have hquery : offlineWorkers cfg db (but (batch.map Worker.id) (db.workers.rows.map Worker.id))
      (env.tick 0) = batch := by
    refine Table.filter_rows (fun w hw => (hbatch w hw).1) horder fun r hr => ?_
    rw [decide_eq_true_eq]
    refine ⟨fun ⟨_, hskip, _⟩ => ?_, ?_⟩
    · by_contra hnone
      refine hskip (mem_but.mpr ⟨List.mem_map.mpr ⟨r, hr, rfl⟩, fun hmem => hnone ?_⟩)
      obtain ⟨x, hx, hid⟩ := List.mem_map.mp hmem
      exact ⟨x, hx, hid⟩
    · rintro ⟨x, hx, hid⟩
      obtain ⟨hxmem, hstatus, hlate⟩ := hbatch x hx
      obtain rfl := Table.eq_of_key_eq hxmem hr hid
      exact ⟨hlate, fun h => (mem_but.mp h).2 (List.mem_map_of_mem hx), hstatus⟩
  simp only [handle, reapWorkers]
  rw [show offlineWorkers cfg db (env.alone (but (batch.map Worker.id)
    (db.workers.rows.map Worker.id))).skipped ((env.alone _).tick 0) = batch from hquery]
  rfl

theorem resultTarget_of_active {j : RunnerJob} {problem : ProblemVersion} {data : ResultInput}
    {e : Time} (hmono : Monotone env.tick) (hj : j ∈ db.jobs) (hworker : j.workerId = some w.id)
    (htoken : j.Carries data.leaseToken) {sub : Submission} (hsub : sub ∈ db.submissions)
    (hsid : sub.id = j.submissionId) (hproblem : problem ∈ db.problemVersions)
    (hpid : problem.id = sub.problemVersionId) (ha : j.status.IsActive)
    (hnew : ∀ ev ∈ db.evaluations, ev.jobId ≠ j.id) (he : j.leaseExpiresAt = some e)
    (hlt : env.tick 2 < e) :
    resultTarget env db w j.id data = .ok (.inr (j, problem)) := by
  have hown : ownedJob (db.jobs.get? j.id) w data.leaseToken true (env.tick 0) = .ok j :=
    ownedJob_of_active hj hworker htoken ha he ((hmono (Nat.zero_le 2)).trans_lt hlt)
  unfold resultTarget
  rw [bind_of_ok hown, Database.evaluationOf_eq_none.mpr hnew]
  simp only
  rw [bind_of_ok (leaseValid_of_lt ha he ((hmono (by omega : 1 ≤ 2)).trans_lt hlt)),
    bind_of_ok (a := sub) (hsid ▸ require_of_mem "Submission" hsub),
    bind_of_ok (a := problem) (hpid ▸ require_of_mem "ProblemVersion" hproblem)]

theorem handle_result {j : RunnerJob} {problem : ProblemVersion} {data : ResultInput}
    {ev : Evaluation} (hauth : workerAuth cfg db w.id auth = .ok w) (hvalid : data.Valid)
    (htarget : resultTarget (env.alone []) db w j.id data = .ok (.inr (j, problem)))
    (hlease : leaseUnexpired j (env.tick 2) "Result storage exceeded job lease" = .ok ())
    (hrecord : recordResult cfg (env.alone []) db w j problem data = .ok (db', ev))
    (hfree : ∀ o ∈ st, ∀ path name, o.key = .artifact path name →
      path.evaluationId ≠ env.fresh 0) :
    ∃ st', handle cfg (env.alone []) db st (.result w.id auth j.id data)
        = ((db', .evaluation ev), st')
      ∧ ∀ o ∈ st', o ∈ st ∨ ∃ name, o.key = .artifact ⟨env.fresh 0, problem.problemId⟩ name := by
  have hpath : ∀ o ∈ st, ∀ c ∈ artifacts data (reportContext w problem j),
      o.key ≠ .artifact ⟨(env.alone []).fresh 0, problem.problemId⟩ c.1 :=
    fun o ho c _ heq => hfree o ho _ _ heq rfl
  have hput : ∀ i, (env.alone []).put i = .succeeds := fun _ => rfl
  obtain ⟨st', hst'⟩ := Storage.putAll_succeeds hput
    (artifacts_nodup data (reportContext w problem j)) 0 hpath
  refine ⟨st', ?_, fun o ho => ?_⟩
  · have hresult : result cfg (env.alone []) db st w j.id data = (st', .ok (db', ev)) := by
      unfold result
      rw [htarget]
      simp only
      rw [hst']
      exact Prod.ext rfl ((bind_of_ok hlease).trans hrecord)
    simp only [handle, handleResult]
    rw [show data.validate = .ok data from hvalid, hauth]
    simp only
    rw [hresult]
    rfl
  · obtain ⟨⟨extra, hrows, hkeys⟩, -⟩ := Storage.putAll_rows ⟨env.fresh 0, problem.problemId⟩
      (env.alone []).put (artifacts data (reportContext w problem j)) 0 st
    have hst : st'.rows = st.rows ++ extra := by
      rw [← hrows]
      exact congrArg (fun r => r.1.rows) hst'.symm
    rw [Table.mem_def, hst] at ho
    exact (List.mem_append.mp ho).imp_right (hkeys o)

end Handled

end AgentBenchX
