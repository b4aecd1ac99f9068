import AgentBenchX.Lease
import AgentBenchX.ResultSchema
import AgentBenchX.Timeouts

/-!
# Lost leases

What becomes of a job whose lease is cancelled while one of its containers
runs. The evaluation goes on to its end and leaves a result in the pending
file; the upload loop of `run_worker` looks at `cancel`, `replay_pending` does
not. The control plane judges a result by its own clock, on which the lease
lasts a quarter longer than on the worker's.

`Requeued` is what a lost lease should lead to. A cancelled phase is filed as a
timeout (`agent_cut`), and if that reaches the control plane within the quarter,
it is recorded (`lost_lease_judged`). Without such a delivery the job is
requeued along every run (`lost_lease_requeued`).
-/

namespace AgentBenchX

open DockerSandbox

/-! ## A cancelled phase -/

/-- Where everything outside of the containers works and the patch can be read, an agent
that was cancelled is reported as a timeout. -/
theorem agent_cut {w : Surroundings} {lib : Libraries} {settings : WorkerSettings}
    {claim : JobClaim} {folder : String} (hw : w.Works lib claim) {o : Outcome}
    (ho : w.phase (lib.idText claim.job.id) .agent = .ok o) (hcancelled : o.cancelled = true)
    (hpatch : ∃ patch, readPatch w (containerName (lib.idText claim.job.id) .agent) = .ok patch) :
    ∃ r u, Evaluator.evaluate w lib settings claim folder (Evaluator.start claim) = (.ok r, u)
      ∧ r.TimedOut := by
  obtain ⟨patch, hpatch⟩ := hpatch
  obtain ⟨imageId, t, -, -, -, hattempt⟩ := attempt_apply settings hw folder ho
  rw [hpatch] at hattempt
  dsimp only at hattempt
  rw [if_pos (Or.inr hcancelled), setResult_apply] at hattempt
  exact timedOut_of_ok hw ⟨rfl, rfl⟩ hattempt

/-! ## The evaluation under the keeper -/

/-- How far the evaluation of the job has come. -/
inductive JobStage where
  /-- None of its containers runs. -/
  | idle
  | running (mode : SandboxMode)
  /-- `result.pending.json` is written. -/
  | filed (result : ResultInput)

def JobStage.runs : JobStage → Bool
  | .running _ => true
  | _ => false

/-- The keeper and the control plane, and the evaluation of the job. -/
structure LostState where
  lease : LeaseState
  stage : JobStage := .idle
  /-- `cancel` was set while a container of the job ran. -/
  cut : Bool := false
  /-- The results that were sent for the job. They stay under way. -/
  sent : List ResultInput := []

/-- The keeper and the control plane go on to `t`. -/
def LostState.goOn (s : LostState) (t : LeaseState) : LostState :=
  { s with
    lease := t
    cut := s.cut || (s.stage.runs && !s.lease.keeper.cancel && t.keeper.cancel) }

/-- One step. The label is the result that the control plane processes. -/
inductive LostStep (cfg : Config) (h : Holding) (s : LostState) : Option Call → LostState → Prop
  /-- The keeper, the clocks, and all requests but results of the worker for the job. -/
  | keep {t : LeaseState} :
      LeaseStep cfg h s.lease t → t.posted = false → LostStep cfg h s none (s.goOn t)
  /-- The control plane processes a result that was sent, maybe again. -/
  | report {call : Call} {auth : Option String} {data : ResultInput} {server : State} :
      call.request = .result h.workerId auth h.jobId data → data ∈ s.sent →
      (controlPlane cfg).step s.lease.server call server →
      LostStep cfg h s (some call) { s with lease := { s.lease with server } }
  | run {mode : SandboxMode} :
      s.lease.keeper.phase = .entered → s.stage = .idle →
      LostStep cfg h s none { s with stage := .running mode }
  | stop {mode : SandboxMode} :
      s.stage = .running mode → LostStep cfg h s none { s with stage := .idle }
  /-- The evaluation ends, in whatever surroundings. -/
  | file {w : Surroundings} {lib : Libraries} {settings : WorkerSettings} {claim : JobClaim}
      {folder : String} {r : ResultInput} :
      s.stage = .idle → claim.job.id = h.jobId → claim.leaseToken = h.token →
      Leaves w lib settings claim folder r → LostStep cfg h s none { s with stage := .filed r }
  /-- The upload loop, which is skipped when the lease is lost. -/
  | upload {r : ResultInput} :
      s.stage = .filed r → s.lease.keeper.cancel = false →
      LostStep cfg h s none { s with sent := r :: s.sent }
  /-- `replay_pending`, after whatever has become of the lease. -/
  | replay {r : ResultInput} :
      s.stage = .filed r → LostStep cfg h s none { s with sent := r :: s.sent }

/-- The system from the moment `__init__` of the keeper has run for a job
nothing was reported for. -/
def lostLease (cfg : Config) (h : Holding) : Transition LostState (Option Call) where
  init s := (leaseSystem cfg h).init s.lease
    ∧ (∀ ev ∈ s.lease.server.db.evaluations, ev.jobId ≠ h.jobId)
    ∧ s.stage = .idle ∧ s.cut = false ∧ s.sent = []
  step s l t := LostStep cfg h s l t

/-- When a result of the job is checked against its lease, at `reading`, the
lease has run out. -/
def LeaseOver (h : Holding) (reading : Time) (db : Database) : Prop :=
  ∀ j ∈ db.jobs, j.id = h.jobId → j.status.IsActive →
    ∀ e, j.leaseExpiresAt = some e → e ≤ reading

/-- A result of a job that was cut reaches the control plane only when its lease
is over, unless it is an infrastructure failure. -/
def HeldBack (h : Holding) (s : LostState) (l : Option Call) : Prop :=
  s.cut = true → ∀ call auth data, l = some call →
    call.request = .result h.workerId auth h.jobId data →
    data.failureType = some .infrastructureFailure
      ∨ LeaseOver h (call.env.tick 2) s.lease.server.db

/-- The runs whose steps all hold such results back. -/
def heldBack (cfg : Config) (h : Holding) : Transition LostState (Option Call) where
  init := (lostLease cfg h).init
  step s l t := (lostLease cfg h).step s l t ∧ HeldBack h s l

/-- A failure that is a verdict on the agent. -/
def FailureType.IsVerdict (f : FailureType) : Prop :=
  f = .timeout ∨ f = .agentFailure ∨ f = .testFailure

/-- What a lost lease should lead to, below the limit of attempts. -/
structure Requeued (cfg : Config) (h : Holding) (s : State) : Prop where
  unjudged : ∀ ev ∈ s.db.evaluations, ev.jobId = h.jobId →
    ∀ f, ev.failureType = some f → ¬f.IsVerdict
  /-- Where the job has ended, it is for one of the two reasons, and the next
  attempt is queued. -/
  next : ∀ j ∈ s.db.jobs, j.id = h.jobId → j.status.IsTerminal →
    (LeaseExpired s.db.evaluations j ∨ InfrastructureFailed s.db.evaluations j)
      ∧ s.db.AttemptTaken j.submissionId (j.attempt + 1)
  /-- Where the reaper finds the lease expired, the job ends. -/
  ends : ∀ call t, (controlPlane cfg).step s call t → call.request = .reapJobs →
    call.response = .done →
    ∀ j ∈ expiredJobs s.db call.env.skipped (call.env.tick 0), j.id = h.jobId →
    ∃ k ∈ t.db.jobs, k.id = h.jobId ∧ LeaseExpired t.db.evaluations k
      ∧ t.db.AttemptTaken k.submissionId (k.attempt + 1)

/-! ## Requests of others -/

section Requests

variable {cfg : Config} {h : Holding}

theorem LeaseStep.not_posted {s t : LeaseState} (hstep : LeaseStep cfg h s t)
    (hposted : t.posted = false) : s.posted = false := by
  cases hstep with
  | post _ => cases hposted
  | _ => exact hposted

/-- Every step of the two parties is a request to the control plane, if only
one that fails, and not a result of the holder before it has sent one. -/
theorem LeaseStep.server {s t : LeaseState} (hstep : LeaseStep cfg h s t) :
    ∃ call, (controlPlane cfg).step s.server call t.server
      ∧ (call.Posts h → s.posted = true) := by
  have hpass : ∀ {c : Time}, s.server.clock ≤ c → ∃ call,
      (controlPlane cfg).step s.server call (s.elapse c).server
        ∧ (call.Posts h → s.posted = true) := by
    intro c hc
    obtain ⟨call, hreq, hcall⟩ := pass_step hc
    refine ⟨call, hcall, fun ⟨auth, data, hposts⟩ => ?_⟩
    rw [hreq] at hposts
    cases hposts
  cases hstep with
  | serve hcall hposts => exact ⟨_, hcall, hposts⟩
  | @deliver n call server _ hbeats hcall =>
      refine ⟨call, hcall, fun ⟨auth, data, hposts⟩ => ?_⟩
      obtain ⟨auth', event, hreq⟩ := hbeats
      rw [hreq] at hposts
      cases hposts
  | lock hc _ => exact hpass hc
  | renew hc _ => exact hpass hc
  | watch hc => exact hpass hc
  | cancel hc => exact hpass hc
  | post hc => exact hpass hc

/-- The job has been given to the holder. -/
def Holding.Assigned (h : Holding) (db : Database) : Prop :=
  ∃ j ∈ db.jobs, j.id = h.jobId ∧ j.workerId = some h.workerId

variable {s t : State} {call : Call}

/-- It is never given to anybody else. -/
theorem Holding.Assigned.step (hassigned : h.Assigned s.db)
    (hs : (controlPlane cfg).Reachable s) (hstep : (controlPlane cfg).step s call t) :
    h.Assigned t.db := by
  obtain ⟨j, hj, hid, hworker⟩ := hassigned
  obtain ⟨j', hj', hevolves⟩ := (run_evolves hs (Transition.Run.single hstep)).jobs j hj
  exact ⟨j', hj', hevolves.id.trans hid, hevolves.worker _ hworker⟩

/-- A new evaluation of the job was reported by the holder, before the lease
had run out. -/
theorem Holding.Assigned.accepted (hassigned : h.Assigned s.db)
    (hs : (controlPlane cfg).Reachable s) (hstep : (controlPlane cfg).step s call t)
    {ev : Evaluation} (hev : ev ∈ t.db.evaluations) (hid : ev.jobId = h.jobId)
    (hnew : ev ∉ s.db.evaluations) :
    ∃ auth data, call.request = .result h.workerId auth h.jobId data
      ∧ ev.failureType = data.failureType ∧ ¬LeaseOver h (call.env.tick 2) s.db := by
  obtain ⟨k, hk, hkid, hworker⟩ := hassigned
  obtain ⟨j, id, auth, jobId, data, hreq, haccepts, hfailure⟩ :=
    accepted_of_new (reachable_consistent hs).ownership hstep hev hnew
  obtain ⟨hj, hjid⟩ := haccepts.job
  obtain rfl := Table.eq_of_key_eq hk hj (hkid.trans (hid.symm.trans hjid.symm))
  obtain ⟨auth', data', -, hreq', -⟩ := haccepts.request
  obtain ⟨rfl, rfl, rfl, rfl⟩ := Request.result.inj (hreq.symm.trans hreq')
  have hsame : h.workerId = ev.workerId := Option.some.inj (hworker.symm.trans haccepts.worker)
  obtain ⟨e, he, hlt⟩ := haccepts.unexpired
  refine ⟨auth, data, by rw [hreq, hsame, hid], hfailure, fun hover => ?_⟩
  exact not_le.mpr hlt (hover k hk hkid haccepts.active e he)

/-! ## The reaper -/

theorem ok_of_respondDone {db db' : Database} {r : Except HttpError Database}
    (h : respondDone db r = (db', .done)) : r = .ok db' := by
  cases r with
  | error e => cases (Prod.mk.injEq .. |>.mp h).2
  | ok d => rw [← (Prod.mk.injEq .. |>.mp h).1]

/-- A reaper that succeeds ends every job it finds expired. -/
theorem reaped_of_expired (hs : (controlPlane cfg).Reachable s)
    (hstep : (controlPlane cfg).step s call t) (hreq : call.request = .reapJobs)
    (hdone : call.response = .done) {j : RunnerJob}
    (hj : j ∈ expiredJobs s.db call.env.skipped (call.env.tick 0)) :
    ∃ k ∈ t.db.jobs, k.id = j.id ∧ k.status.IsTerminal := by
  obtain ⟨ht, hhandle⟩ := hstep
  rw [hreq, hdone] at hhandle
  obtain ⟨hanswer, -⟩ := Prod.mk.injEq .. |>.mp hhandle
  obtain ⟨db, hfold, hcommit⟩ := ok_of_bind (ok_of_respondDone hanswer)
  obtain rfl := Env.ok_of_committed hcommit
  -- Along the batch, the job is still to expire or has ended.
  let P : List (RunnerJob × ℕ) → Database → Prop := fun rest d =>
    Ownership d ∧ Batch call.env rest d
      ∧ ((∃ k ∈ d.jobs, k.id = j.id ∧ k.status.IsTerminal) ∨ ∃ i, (j, i) ∈ rest)
  refine (foldlM_ok (P := P) ?_ hfold ⟨(reachable_consistent hs).ownership, .init,
    Or.inr ?_⟩).2.2.resolve_right fun ⟨_, hmem⟩ => List.not_mem_nil hmem
  · rintro ⟨j₀, i₀⟩ rest d d' ⟨hown, hbatch, hcase⟩ hexpire
    have hch := expireJob_change ht hbatch hexpire
    refine ⟨Ownership.change hch hown, hbatch.step hexpire, ?_⟩
    rcases hcase with ⟨k, hk, hid, hterm⟩ | ⟨i, hi⟩
    · obtain ⟨k', hk', hevolves⟩ := (hch.evolves hown).jobs k hk
      obtain rfl := hevolves.terminal hterm
      exact Or.inl ⟨k', hk', hid, hterm⟩
    · rcases List.mem_cons.mp hi with hhead | hi
      · obtain ⟨rfl, rfl⟩ := Prod.mk.injEq .. |>.mp hhead
        obtain ⟨hj₀, -⟩ := hbatch.jobs (j, i) (List.mem_cons_self ..)
        let row := expiredRow cfg (call.env.tick (1 + i)) j
        have hrow : row ∈ d.jobs.update row := (Table.mem_update row hj₀ rfl).mpr (Or.inl rfl)
        exact Or.inl ⟨row, (expireJob_ok hexpire).mem_jobs.mpr (Or.inl hrow), rfl,
          expiredRow_terminal⟩
      · exact Or.inr ⟨i, hi⟩
  · obtain ⟨n, hn, hget⟩ := List.getElem_of_mem hj
    exact ⟨n, List.mem_zipIdx_iff_getElem?.mpr (by simp [hget, hn])⟩

/-! ## Requeueing -/

/-- An attempt below the limit that has ended without a verdict has been
followed by the next one. -/
theorem superseded_of_terminal (hs : (controlPlane cfg).Reachable s) {j : RunnerJob}
    (hj : j ∈ s.db.jobs) (hlimit : (j.attempt : ℤ) < cfg.maxAttempts)
    (hunjudged : ∀ ev ∈ s.db.evaluations, ev.jobId = j.id →
      ev.failureType = some .infrastructureFailure) (hterm : j.status.IsTerminal) :
    (LeaseExpired s.db.evaluations j ∨ InfrastructureFailed s.db.evaluations j)
      ∧ s.db.AttemptTaken j.submissionId (j.attempt + 1) := by
  have hattempts := reachable_attempts hs
  have hnext : s.db.AttemptTaken j.submissionId (j.attempt + 1) := by
    by_contra hfree
    rcases hattempts.concluded j hj hterm hfree with ⟨ev, hev, hid, hfailure⟩ | hle
    · exact hfailure (hunjudged ev hev hid)
    · omega
  exact ⟨(hattempts.superseded j hj hnext).2, hnext⟩

/-- A job below the limit that the reaper finds expired is followed by the next
attempt. -/
theorem requeued_of_expired (hs : (controlPlane cfg).Reachable s)
    (hstep : (controlPlane cfg).step s call t) (hreq : call.request = .reapJobs)
    (hdone : call.response = .done) {j : RunnerJob} (hlimit : (j.attempt : ℤ) < cfg.maxAttempts)
    (hj : j ∈ expiredJobs s.db call.env.skipped (call.env.tick 0)) :
    ∃ k ∈ t.db.jobs, k.id = j.id ∧ LeaseExpired t.db.evaluations k
      ∧ t.db.AttemptTaken k.submissionId (k.attempt + 1) := by
  obtain ⟨hmem, hactive, -⟩ := mem_expiredJobs.mp hj
  have hcons := reachable_consistent hs
  have hch : Changes cfg s.clock t.clock .expire s.db t.db := by
    have hch := step_changes hstep
    rwa [hreq] at hch
  -- No result was recorded for it, and the reaper records none.
  have hnone : ∀ ev ∈ t.db.evaluations, ev.jobId ≠ j.id := fun ev hev =>
    hcons.recorded.not_evaluated hmem hactive ev (expire_evaluations hch ev hev)
  obtain ⟨k, hk, hid, hterm⟩ := reaped_of_expired hs hstep hreq hdone hj
  have hevolves : j.Evolves k := evolved_row (changes_evolves hch hcons.ownership).1 hmem hk hid
  obtain ⟨hreason, hnext⟩ := superseded_of_terminal (hs.step hstep) hk
    (by rwa [hevolves.attempt]) (fun ev hev heq => absurd (heq.trans hid) (hnone ev hev)) hterm
  refine ⟨k, hk, hid, hreason.resolve_right ?_, hnext⟩
  rintro ⟨ev, hev, heq, -⟩
  exact hnone ev hev (heq.trans hid)

theorem requeued_of_unjudged (hs : (controlPlane cfg).Reachable s)
    (hlimit : ∀ j ∈ s.db.jobs, j.id = h.jobId → (j.attempt : ℤ) < cfg.maxAttempts)
    (hunjudged : ∀ ev ∈ s.db.evaluations, ev.jobId = h.jobId →
      ev.failureType = some .infrastructureFailure) : Requeued cfg h s where
  unjudged ev hev hid f hf := by
    obtain rfl := Option.some.inj ((hunjudged ev hev hid).symm.trans hf)
    rintro (hf | hf | hf) <;> cases hf
  next j hj hid hterm := superseded_of_terminal hs hj (hlimit j hj hid)
    (fun ev hev heq => hunjudged ev hev (heq.trans hid)) hterm
  ends call t hstep hreq hdone j hj hid := by
    obtain ⟨k, hk, hkid, hrest⟩ := requeued_of_expired hs hstep hreq hdone
      (hlimit j (mem_expiredJobs.mp hj).1 hid) hj
    exact ⟨k, hk, hkid.trans hid, hrest⟩

end Requests

/-! ## The invariant -/

section Runs

variable {cfg : Config} {h : Holding} {s t : LostState}

/-- What holds along a run that holds the results of a cut job back. -/
structure Spared (cfg : Config) (h : Holding) (s : LostState) : Prop where
  server : (controlPlane cfg).Reachable s.lease.server
  posted : s.lease.posted = false
  assigned : h.Assigned s.lease.server.db
  /-- Before a result is filed there is none to send. -/
  silent : (∀ r, s.stage ≠ .filed r) →
    s.sent = [] ∧ ∀ ev ∈ s.lease.server.db.evaluations, ev.jobId ≠ h.jobId
  spared : s.cut = true → ∀ ev ∈ s.lease.server.db.evaluations, ev.jobId = h.jobId →
    ev.failureType = some .infrastructureFailure

theorem JobStage.not_filed_of_runs {stage : JobStage} (hruns : stage.runs = true)
    (r : ResultInput) : stage ≠ .filed r := by
  rintro rfl
  cases hruns

namespace Spared

theorem init (hinit : (heldBack cfg h).init s) : Spared cfg h s := by
  obtain ⟨⟨hserver, ⟨j, hj, hid, hworker, -⟩, -, -, hposted⟩, hnone, hstage, hcut, hsent⟩ :=
    hinit
  refine ⟨hserver, hposted, ⟨j, hj, hid, hworker⟩, fun _ => ⟨hsent, hnone⟩, fun h => ?_⟩
  rw [hcut] at h
  cases h

theorem keep (hspared : Spared cfg h s) {u : LeaseState} (hstep : LeaseStep cfg h s.lease u)
    (hposted : u.posted = false) : Spared cfg h (s.goOn u) := by
  obtain ⟨call, hcall, hposts⟩ := hstep.server
  -- No result of the worker is processed, so no evaluation of the job is new.
  have hold : ∀ ev ∈ u.server.db.evaluations, ev.jobId = h.jobId →
      ev ∈ s.lease.server.db.evaluations := by
    intro ev hev hid
    by_contra hnew
    obtain ⟨auth, data, hreq, -⟩ := hspared.assigned.accepted hspared.server hcall hev hid hnew
    have hsent := hposts ⟨auth, data, hreq⟩
    rw [hspared.posted] at hsent
    cases hsent
  refine ⟨hspared.server.step hcall, hposted, hspared.assigned.step hspared.server hcall,
    fun hstage => ?_, fun hcut ev hev hid => ?_⟩
  · obtain ⟨hsent, hnone⟩ := hspared.silent hstage
    exact ⟨hsent, fun ev hev hid => hnone ev (hold ev hev hid) hid⟩
  · rcases (Bool.or_eq_true ..).mp hcut with hcut | hcut
    · exact hspared.spared hcut ev (hold ev hev hid) hid
    · obtain ⟨hruns, -⟩ := (Bool.and_eq_true ..).mp ((Bool.and_eq_true ..).mp hcut).1
      obtain ⟨-, hnone⟩ := hspared.silent (JobStage.not_filed_of_runs hruns)
      exact absurd hid (hnone ev (hold ev hev hid))

theorem report (hspared : Spared cfg h s) {call : Call} {server : State}
    (hcall : (controlPlane cfg).step s.lease.server call server)
    (hheld : HeldBack h s (some call)) (hsent : s.sent ≠ []) :
    Spared cfg h { s with lease := { s.lease with server } } := by
  refine ⟨hspared.server.step hcall, hspared.posted,
    hspared.assigned.step hspared.server hcall,
    fun hstage => absurd (hspared.silent hstage).1 hsent, fun hcut ev hev hid => ?_⟩
  by_cases hnew : ev ∈ s.lease.server.db.evaluations
  · exact hspared.spared hcut ev hnew hid
  · obtain ⟨auth, data, hreq, hfailure, hlive⟩ :=
      hspared.assigned.accepted hspared.server hcall hev hid hnew
    rw [hfailure]
    exact (hheld hcut call auth data rfl hreq).resolve_right hlive

/-- A step of the evaluation concerns nobody else. -/
theorem work (hspared : Spared cfg h s) {stage : JobStage} {sent : List ResultInput}
    (hsilent : (∀ r, stage ≠ .filed r) → (∀ r, s.stage ≠ .filed r) ∧ sent = s.sent) :
    Spared cfg h { s with stage, sent } where
  server := hspared.server
  posted := hspared.posted
  assigned := hspared.assigned
  silent hstage := by
    obtain ⟨hold, hsent⟩ := hsilent hstage
    obtain ⟨hnil, hnone⟩ := hspared.silent hold
    exact ⟨hsent.trans hnil, hnone⟩
  spared := hspared.spared

theorem step (hspared : Spared cfg h s) {l : Option Call} (hstep : LostStep cfg h s l t)
    (hheld : HeldBack h s l) : Spared cfg h t := by
  cases hstep with
  | keep hlease hposted => exact hspared.keep hlease hposted
  | report hreq hdata hcall => exact hspared.report hcall hheld (List.ne_nil_of_mem hdata)
  | run _ hidle => exact hspared.work fun _ => ⟨fun _ hr => (nomatch hidle.symm.trans hr), rfl⟩
  | stop hrunning =>
      exact hspared.work fun _ => ⟨fun _ hr => (nomatch hrunning.symm.trans hr), rfl⟩
  | file _ _ _ _ => exact hspared.work fun hstage => absurd rfl (hstage _)
  | upload hfiled _ => exact hspared.work fun hstage => absurd hfiled (hstage _)
  | replay hfiled => exact hspared.work fun hstage => absurd hfiled (hstage _)

end Spared

theorem reachable_spared (hs : (heldBack cfg h).Reachable s) : Spared cfg h s :=
  hs.rec_on (fun _ hinit => .init hinit) fun _ _ _ _ hspared hstep => hspared.step hstep.1 hstep.2

/-- A run that holds results back is a run. -/
theorem reachable_of_heldBack (hs : (heldBack cfg h).Reachable s) :
    (lostLease cfg h).Reachable s :=
  hs.rec_on (M := heldBack cfg h) (P := (lostLease cfg h).Reachable) (fun _ hinit => .init hinit)
    fun _ _ _ _ hreach hstep => hreach.step hstep.1

/-- A step that processes no result holds all of them back. -/
theorem heldBack_step (hs : (heldBack cfg h).Reachable s) (hstep : LostStep cfg h s none t) :
    (heldBack cfg h).Reachable t :=
  hs.step (l := none) ⟨hstep, fun _ _ _ _ hl => nomatch hl⟩

/-- The keeper and the control plane go on before the evaluation begins. -/
theorem heldBack_run {u v : LeaseState} {tr : List Unit}
    (hu : (heldBack cfg h).Reachable { lease := u }) (hrun : (leaseSystem cfg h).Run u tr v)
    (hposted : v.posted = false) : (heldBack cfg h).Reachable { lease := v } := by
  induction hrun with
  | nil => exact hu
  | @snoc tr v v' l _ hstep ih =>
      exact heldBack_step (ih (LeaseStep.not_posted hstep hposted)) (LostStep.keep hstep hposted)

/-- **Requeueing.** Along every run that holds the results of a job that was cut
back until its lease is over, the job gets no verdict on the agent, and if it
ends, the next attempt is queued. -/
theorem lost_lease_requeued (hs : (heldBack cfg h).Reachable s) (hcut : s.cut = true)
    (hlimit : ∀ j ∈ s.lease.server.db.jobs, j.id = h.jobId →
      (j.attempt : ℤ) < cfg.maxAttempts) : Requeued cfg h s.lease.server := by
  have hspared := reachable_spared hs
  exact requeued_of_unjudged hspared.server hlimit (hspared.spared hcut)

end Runs

/-! ## A cancelled agent -/

namespace Sample

/-- An agent that is cancelled while it runs, and killed. -/
def killedAgent : EndedContainer := { cancelled := true, elapsed := 88 }

/-- The machine it runs on, with another download. -/
def killingMachine : Surroundings := .plain .built fun _ => killedAgent

def lostMachine : Surroundings :=
  { killingMachine with
    download := .ok (List.replicate 10 10)
    elapsed := 89 }

def lostLibraries : Libraries :=
  { Libraries.plain (.error (.raised .parseError "")) (.ok 0) with sha256 := fun _ => "abcd" }

def lostClaim : JobClaim :=
  ⟨{ id := 21, submissionId := 20, queuedAt := 2 }, token, 120, problem, agent⟩

/-- What the evaluation returns there. -/
def lostResult : ResultInput where
  leaseToken := "t"
  status := .timeout
  failureType := some .timeout
  metrics := { runtimeSeconds := .finite 89 }
  execution := some {
    agent := some ⟨137, "2026-01-01T00:00:00+00:00", "2026-01-01T00:00:00+00:00", .finite 88,
      false, true⟩
    imageId := some builtId }

theorem lostMachine_works : lostMachine.Works lostLibraries lostClaim :=
  have hplain : killingMachine.Works lostLibraries (.plain lostLibraries) :=
    Surroundings.plain_works (answering_succeeds builtId) _
  hplain.delivering rfl (by simp [Evaluator.verifyAgent, lostClaim, lostLibraries, agent]) 89

theorem lostResult_leaves :
    Leaves lostMachine lostLibraries {} lostClaim "workspace" lostResult := by
  let name := containerName (lostLibraries.idText lostClaim.job.id) .agent
  have hphase : killingMachine.phase (lostLibraries.idText lostClaim.job.id) .agent
      = .ok { Process.run 500000 killedAgent.started with exitCode := killedAgent.exitCode } :=
    Surroundings.plain_phase _ _
  have hmissing : copiedFile killingMachine name patchFile 2000000 = .ok [] :=
    Surroundings.plain_missing rfl
  have hpatch : readPatch lostMachine name = .ok "" := readPatch_of hmissing rfl
  obtain ⟨imageId, t, ⟨image, e, he, rfl⟩, -, ht, hattempt⟩ :=
    attempt_apply {} lostMachine_works "workspace" hphase
  obtain rfl : e = .built := (Except.ok.inj he).symm
  rw [hpatch] at hattempt
  dsimp only at hattempt
  have hcancelled : (Process.run 500000 killedAgent.started).cancelled = true := rfl
  rw [if_pos (Or.inr hcancelled)] at hattempt
  obtain ⟨u, hevaluate, -⟩ := evaluate_of_ok lostMachine_works hattempt
  have hid : strip (Process.run 500000 .built).stdout = builtId := by decide +kernel
  refine Or.inl ((congrArg Prod.fst hevaluate).trans (congrArg Except.ok ?_))
  rw [ht, hid]
  rfl

/-- The keeper at its deadline, without any further answer. -/
def expired : LeaseState :=
  { leased.elapse 93 with keeper := leased.keeper.watch (93 + leased.offset) }

/-- The result of the cancelled agent is replayed at time 93. -/
def lost : LostState where
  lease := expired
  stage := .filed lostResult
  cut := true
  sent := [lostResult]

theorem lost_reachable : (heldBack config holding).Reachable lost := by
  have hinit : (heldBack config holding).init { lease := keeping } :=
    ⟨keeping_init, by decide +kernel, rfl, rfl, rfl⟩
  have hleased := heldBack_run (.init hinit) leased_run rfl
  have hkeeper : leased.keeper.phase = .entered ∧ leased.keeper.cancel = false
      ∧ expired.keeper.cancel = true ∧ leased.server.clock ≤ 93 := by decide +kernel
  obtain ⟨hentered, hfresh, hcancel, hclock⟩ := hkeeper
  have hrunning := heldBack_step hleased (@LostStep.run _ _ _ .agent hentered rfl)
  have hcut := heldBack_step hrunning (.keep (t := expired) (.watch hclock) rfl)
  have hstopped := heldBack_step hcut (@LostStep.stop _ _ _ .agent rfl)
  have hfiled := heldBack_step hstopped (.file rfl rfl rfl lostResult_leaves)
  have hreplayed := heldBack_step hfiled (.replay rfl)
  have hlost : LostState.mk expired (.filed lostResult) (false || (true && !leased.keeper.cancel
      && expired.keeper.cancel)) [lostResult] = lost := by
    rw [hfresh, hcancel]
    rfl
  exact hlost ▸ hreplayed

/-- The replayed result arrives at time `c`. -/
def arriving (c : Time) : Timely := ⟨.result 10 credential 21 lostResult, c, 100, token⟩

/-- The control plane after it has arrived at time `c`. -/
def arrived (c : Time) : State := (lost.lease.server.after config (arriving c)).1

/-- Processing it is a step, which holds it back if the lease is over then. -/
theorem arrived_step {c : Time} (hc : lost.lease.server.clock ≤ c) :
    ∃ call, LostStep config holding lost (some call)
        { lost with lease := { expired with server := arrived c } }
      ∧ (LeaseOver holding c lost.lease.server.db → HeldBack holding lost (some call)) := by
  refine ⟨_, .report rfl (List.mem_singleton_self _) (after_step (r := arriving c) hc), ?_⟩
  intro hover _ call auth data hcall _
  obtain rfl := Option.some.inj hcall
  exact Or.inr hover

end Sample

/-- A result that arrives at time 100, between the keeper's deadline at 93 and
the expiry at 124, turns the lost lease into a verdict on the agent. -/
theorem lost_lease_judged :
    ¬∀ cfg h s, (lostLease cfg h).Reachable s → s.cut = true →
      (∀ j ∈ s.lease.server.db.jobs, j.id = h.jobId → (j.attempt : ℤ) < cfg.maxAttempts) →
      Requeued cfg h s.lease.server := by
  intro hclaim
  have hfacts : Sample.lost.lease.server.clock ≤ 100
      ∧ (∀ j ∈ (Sample.arrived 100).db.jobs.rows, j.id = 21 → (j.attempt : ℤ) < 3)
      ∧ ∃ ev ∈ (Sample.arrived 100).db.evaluations.rows, ev.jobId = 21
          ∧ ev.failureType = some .timeout := by decide +kernel
  obtain ⟨hclock, hlimit, ev, hev, hid, hfailure⟩ := hfacts
  obtain ⟨call, hstep, -⟩ := Sample.arrived_step hclock
  have hreach := (reachable_of_heldBack Sample.lost_reachable).step hstep
  exact (hclaim _ _ _ hreach rfl hlimit).unjudged ev hev hid _ hfailure (Or.inl rfl)

/-- At time 125 the same result is refused, and the reaper queues the second
attempt. -/
theorem lost_lease_requeued_late :
    ∃ s, (heldBack Sample.config Sample.holding).Reachable s ∧ s.cut = true ∧ s.sent ≠ []
      ∧ (s.lease.server.db.jobs.rows.map fun j => (j.attempt, j.status))
          = [(1, .timeout), (2, .queued)]
      ∧ Requeued Sample.config Sample.holding s.lease.server := by
  let reaping : Timely := ⟨.reapJobs, 126, 200, Sample.token⟩
  let reaped := ((Sample.arrived 125).after Sample.config reaping).1
  have hfacts : (Sample.lost.lease.server.clock ≤ 125
        ∧ ∀ j ∈ Sample.lost.lease.server.db.jobs.rows, ∀ e ∈ j.leaseExpiresAt, e ≤ 125)
      ∧ (Sample.arrived 125).clock ≤ 126
      ∧ (reaped.db.jobs.rows.map fun j => (j.attempt, j.status)) = [(1, .timeout), (2, .queued)]
      ∧ ∀ j ∈ reaped.db.jobs.rows, (j.attempt : ℤ) < 3 := by
    decide +kernel
  obtain ⟨⟨hclock, hover⟩, hlater, hjobs, hlimit⟩ := hfacts
  obtain ⟨call, hstep, hheld⟩ := Sample.arrived_step hclock
  have hreach := Sample.lost_reachable.step ⟨hstep, hheld fun j hj _ _ e he => hover j hj e he⟩
  have hreap := heldBack_step hreach (.keep (.serve (after_step (r := reaping) hlater) ?_) rfl)
  · exact ⟨_, hreap, rfl, List.cons_ne_nil _ _, hjobs,
      lost_lease_requeued hreap rfl fun j hj _ => hlimit j hj⟩
  · rintro ⟨auth, data, hreq⟩
    cases hreq

end AgentBenchX
