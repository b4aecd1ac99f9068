import AgentBenchX.JobLifecycle

/-!
# Who is available

The stored status of a worker, over whole runs. Five operations write it,
each by a rule of its own; together they keep that the owner of an active
job is not `ONLINE` (`Engaged`), which `result` owes to the fact that a
worker has one active job at most. A worker that drains keeps draining and
is assigned nothing until it reports another status (`Drained`).

A worker heartbeat looks for an active job before it writes, so its rows
are taken from the method and not from `Change`.
-/

namespace AgentBenchX

variable {cfg : Config} {c c' : Time} {kind : ChangeKind} {db db' : Database}

/-! ## The owner of an active job -/

/-- Every active job has an owner, whose status is not `ONLINE`. -/
def Engaged (db : Database) : Prop :=
  ∀ j ∈ db.jobs, j.status.IsActive → ∃ w ∈ db.workers, j.workerId = some w.id ∧ w.status ≠ .online

namespace Engaged

theorem owner {j : RunnerJob} {w : Worker} (h : Engaged db) (hj : j ∈ db.jobs)
    (ha : j.status.IsActive) (hw : w ∈ db.workers) (hown : j.workerId = some w.id) :
    w.status ≠ .online := by
  obtain ⟨v, hv, hown', hstatus⟩ := h j hj ha
  have hid : v.id = w.id := Option.some.inj (hown'.symm.trans hown)
  exact Table.eq_of_key_eq hv hw hid ▸ hstatus

/-- Active jobs keep their owner, and no worker is rewritten. -/
theorem of_workers (h : Engaged db) (hworkers : ∀ w ∈ db.workers, w ∈ db'.workers)
    (hjobs : ∀ j' ∈ db'.jobs, j'.status.IsActive →
      ∃ j ∈ db.jobs, j.status.IsActive ∧ j'.workerId = j.workerId) : Engaged db' := by
  intro j' hj' ha'
  obtain ⟨j, hj, ha, hown⟩ := hjobs j' hj' ha'
  obtain ⟨w, hw, hw', hstatus⟩ := h j hj ha
  exact ⟨w, hworkers w hw, hown.trans hw', hstatus⟩

/-- One worker is rewritten; it may be `ONLINE` only without an active job. -/
theorem of_row {w : Worker} (row : Worker) (h : Engaged db) (hw : w ∈ db.workers)
    (hid : row.id = w.id) (hworkers : db'.workers = db.workers.update row)
    (hjobs : ∀ j' ∈ db'.jobs, j'.status.IsActive → j'.workerId = some w.id
      ∨ ∃ j ∈ db.jobs, j.status.IsActive ∧ j'.workerId = j.workerId)
    (hrow : ∀ j' ∈ db'.jobs, j'.status.IsActive → j'.workerId = some w.id →
      row.status ≠ .online) : Engaged db' := by
  intro j' hj' ha'
  have hmem := @Table.mem_update _ _ _ _ db.workers w row hw hid
  by_cases hown : j'.workerId = some w.id
  · exact ⟨row, hworkers ▸ hmem.mpr (Or.inl rfl), by rw [hown, hid], hrow j' hj' ha' hown⟩
  · obtain ⟨j, hj, ha, heq⟩ := (hjobs j' hj' ha').resolve_left hown
    obtain ⟨v, hv, hv', hstatus⟩ := h j hj ha
    have hne : v ≠ w := by
      rintro rfl
      exact hown (heq.trans hv')
    exact ⟨v, hworkers ▸ hmem.mpr (Or.inr ⟨hv, hne⟩), heq.trans hv', hstatus⟩

theorem fresh (h : db.Fresh) : Engaged db := by
  obtain ⟨-, -, hjobs, -⟩ := h
  exact fun j hj => by simp [hjobs] at hj

/-- A retired row is not active, and a retry is not. -/
theorem active_of_retire (j' : RunnerJob) {base : Database} {condition : Prop} {j : RunnerJob}
    {id : Uid} {t : Time} (hj : j ∈ db.jobs) (hid : j'.id = j.id) (hterm : j'.status.IsTerminal)
    (hjobs : base.jobs = db.jobs.update j') (hret : Retried base db' condition (retryOf id t j)) :
    ∀ x ∈ db'.jobs, x.status.IsActive → x ∈ db.jobs ∧ x ≠ j := by
  intro x hx hax
  rcases hret.mem_jobs.mp hx with hx | ⟨-, rfl⟩
  · rcases (Table.mem_update j' hj hid).mp (hjobs ▸ hx) with rfl | hx
    · exact absurd hterm hax.not_terminal
    · exact hx
  · simp [retryOf, JobStatus.IsActive] at hax

/-- Every change but a report keeps the owners of active jobs off line. -/
theorem change (hch : Change cfg c c' kind db db') (hkind : kind ≠ .report)
    (hown : Ownership db) (h : Engaged db) : Engaged db' := by
  cases hch with
  | enqueue hsub hjob =>
      obtain ⟨ts, -, rfl⟩ := Database.insertSubmission_eq hsub
      obtain ⟨-, -, t, ht, rfl⟩ := Database.insertJob_eq hjob
      refine h.of_workers (fun _ hw => hw) fun j' hj' ha' => ?_
      rcases (Table.mem_insert? ht).mp hj' with hj' | rfl
      · exact ⟨j', hj', ha', rfl⟩
      · simp [JobStatus.IsActive] at ha'
  | register hins =>
      exact h.of_workers (fun _ hw => (Table.mem_insert? hins).mpr (Or.inl hw))
        fun j' hj' ha' => ⟨j', hj', ha', rfl⟩
  | report => exact absurd rfl hkind
  | @claim _ env w j _ hw _ _ hj _ =>
      refine h.of_row (claimRows cfg env j w).2 hw rfl rfl (fun j' hj' ha' => ?_)
        fun _ _ _ _ => by simp [claimRows]
      rcases (Table.mem_update (claimRows cfg env j w).1 hj rfl).mp hj' with rfl | ⟨hj', -⟩
      · exact Or.inl rfl
      · exact Or.inr ⟨j', hj', ha', rfl⟩
  | @renew _ env w j event _ _ hw hj hworker ha _ _ =>
      refine h.of_row (heartbeatRows cfg env j w event).2 hw rfl rfl (fun j' hj' ha' => ?_)
        fun _ _ _ _ => show w.status ≠ .online from h.owner hj ha hw hworker
      rcases (Table.mem_update (heartbeatRows cfg env j w event).1 hj rfl).mp hj' with
        rfl | ⟨hj', -⟩
      · exact Or.inr ⟨j, hj, ha, rfl⟩
      · exact Or.inr ⟨j', hj', ha', rfl⟩
  | @finish _ _ env w j problem data e evs _ hw hj hworker ha _ _ _ _ _ hret =>
      have hactive := active_of_retire (finishedRow env j data) hj rfl finishedRow_terminal
        rfl hret
      refine h.of_row (releasedRow env w) hw rfl (by rw [hret.frame]) (fun j' hj' ha' =>
        Or.inr ⟨j', (hactive j' hj' ha').1, ha', rfl⟩) fun j' hj' ha' hown' => ?_
      -- The finished job was the only active one of its owner.
      obtain ⟨hmem, hne⟩ := hactive j' hj' ha'
      exact absurd (hown.single j' hmem j hj ha' ha (hown'.trans hworker.symm)) hne
  | @expire _ _ j e t₀ t₁ t₂ id _ _ _ _ hj ha _ _ hret =>
      have hactive := active_of_retire (expiredRow cfg t₁ j) hj rfl expiredRow_terminal
        rfl hret
      refine h.of_workers (fun w hw => by rw [hret.frame]; exact hw) fun j' hj' ha' =>
        ⟨j', (hactive j' hj' ha').1, ha', rfl⟩
  | @offline _ w t _ _ hw _ _ =>
      exact h.of_row { w with status := .offline } hw rfl rfl
        (fun j' hj' ha' => Or.inr ⟨j', hj', ha', rfl⟩) fun _ _ _ _ => by simp

/-- The status of a worker with an active job is never stored as `ONLINE`. -/
theorem report {env : Env} {w : Worker} {status : ReportedStatus} (h : Engaged db)
    (hw : w ∈ db.workers) : Engaged { db with
      workers := db.workers.update (workerHeartbeatRow env (db.activeJob w.id) w status) } := by
  refine h.of_row (workerHeartbeatRow env (db.activeJob w.id) w status) hw rfl rfl
    (fun j' hj' ha' => Or.inr ⟨j', hj', ha', rfl⟩) fun j' hj' ha' hown => ?_
  have hbusy : (db.activeJob w.id).isSome := by
    by_contra hnone
    have hnone : db.activeJob w.id = none := by simpa using hnone
    exact Database.activeJob_eq_none.mp hnone j' hj' hown ha'
  cases status <;> simp [workerHeartbeatRow, hbusy, ReportedStatus.toWorkerStatus]

end Engaged

/-! ## Draining -/

/-- The worker is `DRAINING`. -/
def Drains (db : Database) (id : Uid) : Prop := ∃ w ∈ db.workers, w.id = id ∧ w.status = .draining

/-- The worker goes on draining, and every job it owns was its own before. -/
structure Drained (id : Uid) (db db' : Database) : Prop where
  status : Drains db' id
  jobs : ∀ j' ∈ db'.jobs, j'.workerId = some id → ∃ j ∈ db.jobs, j.id = j'.id ∧ j.workerId = some id

namespace Drained

variable {id : Uid}

theorem refl (h : Drains db id) : Drained id db db :=
  ⟨h, fun j hj hown => ⟨j, hj, rfl, hown⟩⟩

theorem trans {a b d : Database} (h : Drained id a b) (h' : Drained id b d) : Drained id a d where
  status := h'.status
  jobs j' hj' hown := by
    obtain ⟨k, hk, hid, hown⟩ := h'.jobs j' hj' hown
    obtain ⟨j, hj, hid', hown⟩ := h.jobs k hk hown
    exact ⟨j, hj, hid'.trans hid, hown⟩

/-- One worker is rewritten, ours only if it keeps its status. -/
theorem of_row {w : Worker} (row : Worker) (h : Drains db id) (hw : w ∈ db.workers)
    (hid : row.id = w.id) (hrow : w.id = id → w.status = .draining → row.status = .draining)
    (hworkers : db'.workers = db.workers.update row)
    (hjobs : ∀ j' ∈ db'.jobs, j'.workerId = some id →
      ∃ j ∈ db.jobs, j.id = j'.id ∧ j.workerId = some id) : Drained id db db' := by
  refine ⟨?_, hjobs⟩
  obtain ⟨v, hv, hvid, hstatus⟩ := h
  have hmem := @Table.mem_update _ _ _ _ db.workers w row hw hid
  by_cases heq : v = w
  · subst heq
    exact ⟨row, hworkers ▸ hmem.mpr (Or.inl rfl), hid.trans hvid, hrow hvid hstatus⟩
  · exact ⟨v, hworkers ▸ hmem.mpr (Or.inr ⟨hv, heq⟩), hvid, hstatus⟩

/-- A job row that is rewritten under the same owner. -/
theorem jobs_of_update {j j' : RunnerJob} (hj : j ∈ db.jobs) (hid : j'.id = j.id)
    (hown : j'.workerId = j.workerId) : ∀ x ∈ db.jobs.update j', x.workerId = some id →
      ∃ y ∈ db.jobs, y.id = x.id ∧ y.workerId = some id := by
  intro x hx hx'
  rcases (Table.mem_update j' hj hid).mp hx with rfl | ⟨hx, -⟩
  · exact ⟨j, hj, hid.symm, hown ▸ hx'⟩
  · exact ⟨x, hx, rfl, hx'⟩

theorem jobs_of_retire (j' : RunnerJob) {base : Database} {condition : Prop} {j : RunnerJob}
    {rid : Uid} {t : Time} (hj : j ∈ db.jobs) (hid : j'.id = j.id) (hown : j'.workerId = j.workerId)
    (hjobs : base.jobs = db.jobs.update j') (hret : Retried base db' condition (retryOf rid t j)) :
    ∀ x ∈ db'.jobs, x.workerId = some id → ∃ y ∈ db.jobs, y.id = x.id ∧ y.workerId = some id := by
  intro x hx hx'
  rcases hret.mem_jobs.mp hx with hx | ⟨-, rfl⟩
  · exact jobs_of_update hj hid hown x (hjobs ▸ hx) hx'
  · cases hx'

theorem change (hch : Change cfg c c' kind db db') (hkind : kind ≠ .report) (h : Drains db id) :
    Drained id db db' := by
  cases hch with
  | enqueue hsub hjob =>
      obtain ⟨ts, -, rfl⟩ := Database.insertSubmission_eq hsub
      obtain ⟨-, -, t, ht, rfl⟩ := Database.insertJob_eq hjob
      refine ⟨h, fun j' hj' hown => ?_⟩
      rcases (Table.mem_insert? ht).mp hj' with hj' | rfl
      · exact ⟨j', hj', rfl, hown⟩
      · cases hown
  | register hins =>
      obtain ⟨w, hw, hid, hstatus⟩ := h
      exact ⟨⟨w, (Table.mem_insert? hins).mpr (Or.inl hw), hid, hstatus⟩,
        fun j hj hown => ⟨j, hj, rfl, hown⟩⟩
  | report => exact absurd rfl hkind
  | @claim _ env w j _ hw hclaimable _ hj _ =>
      -- Nobody claims while draining.
      have hstatus : w.status ≠ .draining := by
        rintro hdraining
        simp [claimable, hdraining] at hclaimable
      have hne : w.id ≠ id := by
        rintro rfl
        obtain ⟨v, hv, hvid, hv'⟩ := h
        exact hstatus (Table.eq_of_key_eq hv hw hvid ▸ hv')
      refine of_row (claimRows cfg env j w).2 h hw rfl (fun heq => absurd heq hne) rfl
        fun j' hj' hown => ?_
      rcases (Table.mem_update (claimRows cfg env j w).1 hj rfl).mp hj' with rfl | ⟨hj', -⟩
      · exact absurd (Option.some.inj hown) hne
      · exact ⟨j', hj', rfl, hown⟩
  | @renew _ env w j event _ _ hw hj _ _ _ _ =>
      exact of_row (heartbeatRows cfg env j w event).2 h hw rfl (fun _ hw => hw) rfl
        (jobs_of_update hj rfl rfl)
  | @finish _ _ env w j problem data e evs _ hw hj _ _ _ _ _ _ _ hret =>
      exact of_row (releasedRow env w) h hw rfl (fun _ hw => by simp [releasedRow, hw])
        (by rw [hret.frame]) (jobs_of_retire (finishedRow env j data) hj rfl rfl rfl hret)
  | @expire _ _ j e t₀ t₁ t₂ rid _ _ _ _ hj _ _ _ hret =>
      refine ⟨?_, jobs_of_retire (expiredRow cfg t₁ j) hj rfl rfl rfl hret⟩
      rw [hret.frame]
      exact h
  | @offline _ w t _ _ hw hstatus _ =>
      refine of_row { w with status := .offline } h hw rfl (fun _ hdraining => ?_) rfl
        fun j hj hown => ⟨j, hj, rfl, hown⟩
      rw [hdraining] at hstatus
      rcases hstatus with hstatus | hstatus <;> cases hstatus

theorem report {env : Env} {w : Worker} {active : Option Uid} {status : ReportedStatus}
    (h : Drains db id) (hw : w ∈ db.workers) (hstatus : w.id = id → status = .draining) :
    Drained id db { db with
      workers := db.workers.update (workerHeartbeatRow env active w status) } := by
  refine of_row (workerHeartbeatRow env active w status) h hw rfl (fun hid _ => ?_) rfl
    fun j hj hown => ⟨j, hj, rfl, hown⟩
  rw [hstatus hid]
  simp [workerHeartbeatRow, ReportedStatus.toWorkerStatus]

end Drained

/-! ## Steps and runs -/

section Runs

variable {s t : State} {call : Call}

/-- A status report is refused, or it rewrites the row of the worker that made it. -/
theorem step_report {id : Uid} {auth : Option String} {status : ReportedStatus}
    (h : (controlPlane cfg).step s call t)
    (hrequest : call.request = .workerHeartbeat id auth status) :
    t.db = s.db ∨ ∃ w ∈ s.db.workers, w.id = id
      ∧ (∃ w', call.response = .worker w')
      ∧ t.db = { s.db with
          workers := s.db.workers.update
            (workerHeartbeatRow call.env (s.db.activeJob w.id) w status) } := by
  obtain ⟨-, hhandle⟩ := h
  rw [hrequest] at hhandle
  have hrespond := congrArg Prod.fst hhandle
  rcases respond_eq hrespond with ⟨a, hok, hresponse⟩ | ⟨-, -, hdb, -⟩
  · obtain ⟨w, hauth, hok⟩ := ok_of_bind hok
    obtain ⟨hw, hid⟩ := mem_of_workerAuth hauth
    obtain ⟨hdb, -⟩ := Prod.mk.injEq .. |>.mp (Env.ok_of_committed hok)
    exact Or.inr ⟨w, hw, hid, ⟨a, hresponse⟩, hdb.symm⟩
  · exact Or.inl hdb

/-- The kinds of the other requests. -/
theorem Request.kind_ne {request : Request}
    (h : ∀ id auth status, request ≠ .workerHeartbeat id auth status) : request.kind ≠ .report := by
  cases request with
  | workerHeartbeat id auth status => exact absurd rfl (h id auth status)
  | _ => exact nofun

theorem Engaged.step (hs : (controlPlane cfg).Reachable s) (h : Engaged s.db)
    (hstep : (controlPlane cfg).step s call t) : Engaged t.db := by
  by_cases hreport : ∃ id auth status, call.request = .workerHeartbeat id auth status
  · obtain ⟨id, auth, status, hrequest⟩ := hreport
    rcases step_report hstep hrequest with hdb | ⟨w, hw, -, -, hdb⟩ <;> rw [hdb]
    · exact h
    · exact h.report hw
  · have hkind := Request.kind_ne fun id auth status heq => hreport ⟨id, auth, status, heq⟩
    have hchanges := step_changes hstep
    have hown := reachable_ownership hs
    generalize t.db = d at hchanges
    suffices Ownership d ∧ Engaged d from this.2
    induction hchanges with
    | refl => exact ⟨hown, h⟩
    | tail _ hlast ih => exact ⟨ih.1.change hlast, ih.2.change hlast hkind ih.1⟩

theorem reachable_engaged (hs : (controlPlane cfg).Reachable s) : Engaged s.db :=
  hs.rec_on (fun _ h => Engaged.fresh h) fun _ _ _ hreach h hstep => h.step hreach hstep

/-- The worker has reported a status other than `DRAINING`. -/
def Call.Resumes (id : Uid) (call : Call) : Prop :=
  ∃ auth status w, call.request = .workerHeartbeat id auth status ∧ status ≠ .draining
    ∧ call.response = .worker w

theorem Drained.step {id : Uid} (h : Drains s.db id) (hstep : (controlPlane cfg).step s call t)
    (hquiet : ¬call.Resumes id) : Drained id s.db t.db := by
  by_cases hreport : ∃ id auth status, call.request = .workerHeartbeat id auth status
  · obtain ⟨id', auth, status, hrequest⟩ := hreport
    rcases step_report hstep hrequest with hdb | ⟨w, hw, hid, ⟨w', hresponse⟩, hdb⟩ <;> rw [hdb]
    · exact .refl h
    · refine .report h hw fun heq => ?_
      by_contra hne
      exact hquiet ⟨auth, status, w', by rw [hrequest, ← hid, heq], hne, hresponse⟩
  · have hkind := Request.kind_ne fun id auth status heq => hreport ⟨id, auth, status, heq⟩
    have hchanges := step_changes hstep
    generalize t.db = d at hchanges
    induction hchanges with
    | refl => exact .refl h
    | tail _ hlast ih => exact ih.trans (.change hlast hkind ih.status)

theorem Drained.run {id : Uid} {tr : List Call} (h : Drains s.db id)
    (hrun : (controlPlane cfg).Run s tr t) (hquiet : ∀ call ∈ tr, ¬call.Resumes id) :
    Drained id s.db t.db := by
  induction hrun with
  | nil => exact .refl h
  | @snoc tr t u call _ hstep ih =>
      have hdrained := ih fun call hcall => hquiet call (List.mem_append_left _ hcall)
      exact hdrained.trans (.step hdrained.status hstep
        (hquiet call (List.mem_append_right _ (List.mem_singleton_self call))))

end Runs

/-- **Availability.** In every reachable state the owner of an active job has
a stored status other than `ONLINE`; and in every run from there a worker
that is `DRAINING` stays so and is assigned no further job, until it reports
another status. -/
theorem busy_not_available {s : State} (hs : (controlPlane cfg).Reachable s) :
    (∀ w ∈ s.db.workers, ∀ j ∈ s.db.jobs, j.workerId = some w.id → j.status.IsActive →
      w.status ≠ .online)
    ∧ ∀ w ∈ s.db.workers, w.status = .draining → ∀ tr t, (controlPlane cfg).Run s tr t →
      (∀ call ∈ tr, ¬call.Resumes w.id) →
      (∃ w' ∈ t.db.workers, w'.id = w.id ∧ w'.status = .draining)
      ∧ ∀ j' ∈ t.db.jobs, j'.workerId = some w.id →
        ∃ j ∈ s.db.jobs, j.id = j'.id ∧ j.workerId = some w.id := by
  refine ⟨fun w hw j hj hown ha => (reachable_engaged hs).owner hj ha hw hown, ?_⟩
  intro w hw hdraining tr t hrun hquiet
  have hdrained := Drained.run ⟨w, hw, rfl, hdraining⟩ hrun hquiet
  exact ⟨hdrained.status, hdrained.jobs⟩

namespace Sample

/-- The worker drains while it has a job. -/
def draining : State :=
  (replay config start (claimed ++ [⟨.workerHeartbeat 10 credential .draining, 4, 40, token⟩])).1

/-- The job's result has come in since. -/
def drained : State := (draining.after config ⟨.result 10 credential 21 result, 50, 50, token⟩).1

end Sample

/-- A worker that drains during a job is not on line, and drains after it. -/
theorem busy_not_available_draining :
    ∃ w ∈ Sample.draining.db.workers.rows, w.status = .draining
      ∧ (∃ j ∈ Sample.draining.db.jobs.rows, j.workerId = some w.id ∧ j.status.IsActive)
      ∧ (∀ j ∈ Sample.draining.db.jobs, j.workerId = some w.id → j.status.IsActive →
        w.status ≠ .online)
      ∧ (∀ j ∈ Sample.drained.db.jobs.rows, j.status.IsTerminal)
      ∧ ∃ w' ∈ Sample.drained.db.workers, w'.id = w.id ∧ w'.status = .draining := by
  have hreachable : (controlPlane Sample.config).Reachable Sample.draining :=
    replay_reachable Sample.init (by decide)
  obtain ⟨w, hw, hdraining, hactive, hended⟩ : ∃ w ∈ Sample.draining.db.workers.rows,
      w.status = .draining
        ∧ (∃ j ∈ Sample.draining.db.jobs.rows, j.workerId = some w.id ∧ j.status.IsActive)
        ∧ ∀ j ∈ Sample.drained.db.jobs.rows, j.status.IsTerminal := by decide +kernel
  obtain ⟨hbusy, hstays⟩ := busy_not_available hreachable
  have hstep : (controlPlane Sample.config).step Sample.draining _ Sample.drained :=
    after_step (by decide +kernel)
  refine ⟨w, hw, hdraining, hactive, hbusy w hw, hended,
    (hstays w hw hdraining _ _ (.single hstep) fun call hcall hresumes => ?_).1⟩
  obtain rfl := List.mem_singleton.mp hcall
  obtain ⟨auth, status, w', hrequest, -⟩ := hresumes
  cases hrequest

end AgentBenchX
