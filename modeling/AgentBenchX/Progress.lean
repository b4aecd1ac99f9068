import Mathlib.Algebra.Order.BigOperators.Group.List
import AgentBenchX.Dispatch
import AgentBenchX.LostLease

/-!
# The queue can always be worked off

Whatever workers have died and whatever leases they hold, no reachable state is
a dead end: once the leases have run out, the reaper and one new worker bring
every submission to its end. `RunnerJob.effort` counts what a job and its
retries can still cost, a claim and an expiry for each attempt. Every expired
lease and every claim lowers the sum.
-/

namespace AgentBenchX

variable {cfg : Config} {c c' : Time} {db db' : Database}

/-! ## What is left to do -/

/-- The claims and expiries a job and its retries can still take. -/
def RunnerJob.effort (cfg : Config) (j : RunnerJob) : ℕ :=
  if j.status.IsTerminal then 0
  else 2 * ((max 1 cfg.maxAttempts).toNat - j.attempt) + if j.status = .queued then 2 else 1

def Database.effort (cfg : Config) (db : Database) : ℕ :=
  (db.jobs.rows.map (RunnerJob.effort cfg)).sum

theorem effort_of_terminal {j : RunnerJob} (h : j.status.IsTerminal) : j.effort cfg = 0 := if_pos h

theorem effort_of_queued {j : RunnerJob} (h : j.status = .queued) :
    j.effort cfg = 2 * ((max 1 cfg.maxAttempts).toNat - j.attempt) + 2 := by
  simp [RunnerJob.effort, h, JobStatus.IsTerminal]

theorem effort_of_active {j : RunnerJob} (h : j.status.IsActive) :
    j.effort cfg = 2 * ((max 1 cfg.maxAttempts).toNat - j.attempt) + 1 := by
  rw [RunnerJob.effort, if_neg h.not_terminal, if_neg h.ne_queued]

theorem effort_update {j : RunnerJob} (j' : RunnerJob) (hj : j ∈ db.jobs) (hid : j'.id = j.id)
    (hjobs : db'.jobs = db.jobs.update j') :
    db'.effort cfg + j.effort cfg = db.effort cfg + j'.effort cfg := by
  rw [Database.effort, hjobs]
  exact Table.sum_update (RunnerJob.effort cfg) hj hid

/-- An expired lease is one thing less to do. -/
theorem effort_expire (hch : Change cfg c c' .expire db db') : db'.effort cfg < db.effort cfg := by
  cases hch with
  | @expire _ _ j e t₀ t₁ t₂ id _ _ _ _ hj ha _ _ hret =>
      let base : Database := { db with jobs := db.jobs.update (expiredRow cfg t₁ j) }
      have hbase : base.effort cfg + j.effort cfg = db.effort cfg + _ :=
        effort_update (expiredRow cfg t₁ j) hj rfl rfl
      rw [effort_of_terminal expiredRow_terminal, effort_of_active ha] at hbase
      rcases hret with ⟨hlt, hins⟩ | ⟨-, rfl⟩
      · obtain ⟨-, -, t, ht, rfl⟩ := Database.insertJob_eq hins
        have hsum : Database.effort cfg { base with jobs := t }
            = base.effort cfg + (retryOf id t₂ j).effort cfg := by
          rw [Database.effort, Table.rows_insert? ht, List.map_append, List.sum_append,
            List.map_singleton, List.sum_singleton]
          rfl
        rw [effort_of_queued (j := retryOf id t₂ j) rfl] at hsum
        have hattempt : (retryOf id t₂ j).attempt = j.attempt + 1 := rfl
        show Database.effort cfg { base with jobs := t } < _
        omega
      · show base.effort cfg < _
        omega

theorem effort_expires (hch : Changes cfg c c' .expire db db') :
    db' = db ∨ db'.effort cfg < db.effort cfg := by
  induction hch with
  | refl => exact Or.inl rfl
  | tail _ hlast ih =>
      have hlt := effort_expire hlast
      rcases ih with rfl | ih
      · exact Or.inr hlt
      · exact Or.inr (hlt.trans ih)

/-! ## The reaper after the last lease -/

/-- The identifiers in use. -/
def Database.ids (db : Database) : List Uid :=
  db.jobs.rows.map RunnerJob.id ++ db.workers.rows.map Worker.id
    ++ db.evaluations.rows.map Evaluation.id

/-- An identifier above all of them. -/
def Database.unused (db : Database) : Uid := db.ids.sum + 1

theorem lt_unused {id : Uid} (h : id ∈ db.ids) : id < db.unused :=
  Nat.lt_succ_of_le (List.le_sum_of_mem h)

theorem job_mem_ids {j : RunnerJob} (hj : j ∈ db.jobs) : j.id ∈ db.ids :=
  List.mem_append_left _ (List.mem_append_left _ (List.mem_map_of_mem hj))

theorem worker_mem_ids {w : Worker} (hw : w ∈ db.workers) : w.id ∈ db.ids :=
  List.mem_append_left _ (List.mem_append_right _ (List.mem_map_of_mem hw))

theorem evaluation_mem_ids {e : Evaluation} (he : e ∈ db.evaluations) : e.id ∈ db.ids :=
  List.mem_append_right _ (List.mem_map_of_mem he)

theorem draws_unused (db : Database) (t : Time) (secret : Token) :
    (Env.quiet t db.unused secret).Draws db where
  injective _ _ h := Nat.add_left_cancel h
  jobs _ hj i := ((lt_unused (job_mem_ids hj)).trans_le (Nat.le_add_right _ i)).ne
  evaluations _ he i := ((lt_unused (evaluation_mem_ids he)).trans_le (Nat.le_add_right _ i)).ne

theorem inserted_error {db? : Option Database} {e : HttpError} (h : inserted db? = .error e) :
    e = integrityError := by
  cases db? with
  | none => exact (Except.error.inj h).symm
  | some d => cases h

theorem retryIf_error {condition : Prop} [Decidable condition] {retry : RunnerJob} {e : HttpError}
    (h : retryIf condition db retry = .error e) : e = integrityError := by
  unfold retryIf at h
  split at h
  · exact inserted_error h
  · cases h

/-- Undisturbed, the reaper can only fail for a constraint. -/
theorem reapJobs_error {env : Env} {e : HttpError} (hcommit : env.commit = true)
    (h : reapJobs cfg env db = .error e) : e = integrityError := by
  unfold reapJobs at h
  rcases error_of_bind h with h | ⟨d, -, h⟩
  · by_contra hne
    refine foldlM_ne_error (P := fun _ _ => True) (fun _ _ _ _ _ _ => trivial) ?_ trivial h
    exact fun _ _ _ _ h => hne (retryIf_error h)
  · rw [Env.committed, if_pos hcommit] at h
    cases h

variable {s t : State}

/-- The reaper inserts and rewrites jobs only. -/
theorem expires_frame (hch : Changes cfg c c' .expire db db') :
    db'.workers = db.workers ∧ db'.submissions = db.submissions := by
  induction hch with
  | refl => exact ⟨rfl, rfl⟩
  | tail _ hlast ih =>
      cases hlast with
      | expire _ _ _ _ _ _ _ _ hret =>
          rw [hret.frame]
          exact ih

/-- A reaper when all leases have run out. -/
theorem reap_descends (hs : (controlPlane cfg).Reachable s) {j : RunnerJob} (hj : j ∈ s.db.jobs)
    (ha : j.status.IsActive) : ∃ call t, (controlPlane cfg).step s call t
      ∧ call.request = .reapJobs ∧ t.db.workers = s.db.workers
      ∧ t.db.submissions = s.db.submissions ∧ t.db.effort cfg < s.db.effort cfg := by
  let r : Timely := ⟨.reapJobs, s.clock + cfg.leaseSeconds + 1, s.db.unused, Sample.token⟩
  let env := Env.quiet r.time r.base r.secret
  have hlater : s.clock ≤ r.time := by
    show s.clock ≤ s.clock + cfg.leaseSeconds + 1
    have hnonneg : (0 : ℚ) ≤ cfg.leaseSeconds := Nat.cast_nonneg _
    linarith
  have hstep : (controlPlane cfg).step s ⟨r.request, env, (s.after cfg r).2⟩ (s.after cfg r).1 :=
    after_step hlater
  have hcons := reachable_consistent hs
  obtain ⟨d, hd⟩ : ∃ d, reapJobs cfg env s.db = .ok d := by
    cases hreap : reapJobs cfg env s.db with
    | ok d => exact ⟨d, rfl⟩
    | error e =>
        refine absurd hreap (reapJobs_error rfl hreap ▸ ?_)
        exact reapJobs_ne_integrityError (.quiet hlater) hcons (reachable_attempts hs)
          (draws_unused s.db _ _)
  have hanswer : (s.after cfg r).1.db = d ∧ (s.after cfg r).2 = .done := by
    have hrespond : handle cfg env s.db s.storage .reapJobs = ((d, .done), s.storage) := by
      simp only [handle]
      rw [hd]
      rfl
    exact ⟨congrArg (fun a => a.1.1) hrespond, congrArg (fun a => a.1.2) hrespond⟩
  have hch : Changes cfg s.clock r.time .expire s.db d := reapJobs_changes (.quiet hlater) hd
  obtain ⟨hworkers, hsubs⟩ := expires_frame hch
  refine ⟨_, _, hstep, rfl, hanswer.1 ▸ hworkers, hanswer.1 ▸ hsubs, ?_⟩
  rw [hanswer.1]
  refine (effort_expires hch).resolve_left fun hsame => ?_
  obtain ⟨-, -, e, he⟩ := (hcons.ownership.rows j hj).owned ha.ne_queued
  have hle := reachable_leased hs j hj e he
  have hexpired : j ∈ expiredJobs s.db env.skipped (env.tick 0) :=
    mem_expiredJobs.mpr ⟨hj, ha, List.not_mem_nil, e, he, by
      show e < s.clock + cfg.leaseSeconds + 1
      linarith⟩
  obtain ⟨k, hk, hid, hterm⟩ := reaped_of_expired hs hstep rfl hanswer.2 hexpired
  rw [hanswer.1, hsame] at hk
  exact ha.not_terminal (Table.eq_of_key_eq hk hj hid ▸ hterm)

/-! ## One more worker -/

theorem exists_next (hs : (controlPlane cfg).Reachable s) {j : RunnerJob} (hj : j ∈ s.db.jobs)
    (hq : j.status = .queued) : ∃ i submission problem agent, nextQueued s.db [] = some i
      ∧ require "Submission" s.db.submissions i.submissionId = .ok submission
      ∧ require "ProblemVersion" s.db.problemVersions submission.problemVersionId = .ok problem
      ∧ require "AgentVersion" s.db.agentVersions submission.agentVersionId = .ok agent := by
  have hsome : nextQueued s.db [] ≠ none := by
    intro hnone
    have hmem : j ∈ s.db.jobs.rows.filter fun j => decide (j.status = .queued ∧ j.id ∉ []) :=
      List.mem_filter.mpr ⟨hj, decide_eq_true ⟨hq, List.not_mem_nil⟩⟩
    rw [List.argmin_eq_none.mp hnone] at hmem
    exact List.not_mem_nil hmem
  obtain ⟨i, hi⟩ := Option.ne_none_iff_exists'.mp hsome
  obtain ⟨himem, -, -⟩ := nextQueued_ok hi
  obtain ⟨sub, hsub, hid⟩ := (reachable_attempts hs).submitted i himem
  obtain ⟨⟨agent, hagent, haid⟩, problem, hproblem, hpid⟩ := reachable_submitted hs sub hsub
  exact ⟨i, sub, problem, agent, hi, hid ▸ require_of_mem _ hsub, hpid ▸ require_of_mem _ hproblem,
    haid ▸ require_of_mem _ hagent⟩

theorem claim_of_next {env : Env} {w : Worker} {i : RunnerJob} {submission : Submission}
    {problem : ProblemVersion} {agent : AgentVersion} (hclaimable : claimable w = .ok ())
    (hfree : db.activeJob w.id = none) (hnext : nextQueued db env.skipped = some i)
    (hsub : require "Submission" db.submissions i.submissionId = .ok submission)
    (hproblem : require "ProblemVersion" db.problemVersions submission.problemVersionId
      = .ok problem)
    (hagent : require "AgentVersion" db.agentVersions submission.agentVersionId = .ok agent)
    (hcommit : env.commit = true) :
    ∃ claim?, claim cfg env db w = .ok ({ db with
      jobs := db.jobs.update (claimRows cfg env i w).1
      workers := db.workers.update (claimRows cfg env i w).2 }, claim?) := by
  unfold claim
  rw [bind_of_ok hclaimable, hfree]
  simp only [Option.isSome_none, Bool.false_eq_true, if_false, hnext]
  rw [bind_of_ok hsub, bind_of_ok hproblem, bind_of_ok hagent, Env.committed, if_pos hcommit]
  exact ⟨_, rfl⟩

/-- A worker with this credential may claim. -/
def Database.Ready (cfg : Config) (id : Uid) (auth : Option String) (db : Database) : Prop :=
  ∃ w ∈ db.workers, w.id = id ∧ w.Accepts cfg auth ∧ claimable w = .ok ()

/-- One more worker, with the credentials it is answered. -/
theorem register_ready (s : State) : ∃ call w token auth t, (controlPlane cfg).step s call t
    ∧ (∃ data, call.request = .register data) ∧ call.response = .credentials w token
    ∧ bearer auth = .ok token.text ∧ t.db.Ready cfg w.id auth
    ∧ t.db.submissions = s.db.submissions ∧ t.db.effort cfg = s.db.effort cfg := by
  let env := Env.quiet s.clock s.db.unused Sample.token
  let data : WorkerRegister := ⟨"w", "h", "darwin", "1", []⟩
  let w : Worker :=
    { id := env.fresh 0, name := data.name, hostname := data.hostname, platform := data.platform
      version := data.version, capabilities := data.capabilities, lastHeartbeat := env.tick 0
      tokenHash := cfg.sha256 env.secret.text }
  obtain ⟨workers, hworkers⟩ := Table.insert?_isSome (t := s.db.workers) (r := w)
    fun x hx => (lt_unused (worker_mem_ids hx)).ne
  let t : State := ⟨{ s.db with workers }, s.storage, s.clock⟩
  have hregister :
      (controlPlane cfg).step s ⟨.register data, env, .credentials w env.secret⟩ t := by
    refine ⟨.quiet le_rfl, ?_⟩
    have hok : register cfg env s.db data = .ok (t.db, w) := by
      unfold register
      dsimp only
      rw [hworkers]
      rfl
    simp only [handle, hok]
    rfl
  have hbearer : bearer Sample.credential = .ok Sample.token.text := rfl
  exact ⟨_, w, env.secret, Sample.credential, t, hregister, ⟨data, rfl⟩, rfl, hbearer,
    ⟨w, (Table.mem_insert? hworkers).mpr (Or.inr rfl), rfl, ⟨_, hbearer, rfl⟩, rfl⟩, rfl, rfl⟩

/-- A claim while no job is held. -/
theorem claim_descends {id : Uid} {auth : Option String} (hs : (controlPlane cfg).Reachable s)
    (hready : s.db.Ready cfg id auth) (hidle : ∀ j ∈ s.db.jobs, ¬j.status.IsActive)
    {j : RunnerJob} (hj : j ∈ s.db.jobs) (hq : j.status = .queued) :
    ∃ call t, (controlPlane cfg).step s call t ∧ call.request = .claim id auth
      ∧ t.db.Ready cfg id auth ∧ t.db.submissions = s.db.submissions
      ∧ t.db.effort cfg < s.db.effort cfg := by
  obtain ⟨w, hw, rfl, haccepts, hclaimable⟩ := hready
  let env := Env.quiet s.clock s.db.unused Sample.token
  obtain ⟨i, submission, problem, agent, hnext, hsub, hproblem, hagent⟩ := exists_next hs hj hq
  obtain ⟨himem, hiq, -⟩ := nextQueued_ok hnext
  let t : State := ⟨{ s.db with
    jobs := s.db.jobs.update (claimRows cfg env i w).1
    workers := s.db.workers.update (claimRows cfg env i w).2 }, s.storage, s.clock⟩
  obtain ⟨claim?, hclaim⟩ : ∃ claim?, claim cfg env s.db w = .ok (t.db, claim?) :=
    claim_of_next hclaimable (Database.activeJob_eq_none.mpr fun k hk _ => hidle k hk) hnext hsub
      hproblem hagent rfl
  have hclaimed : (controlPlane cfg).step s ⟨.claim w.id auth, env, .claimed claim?⟩ t := by
    refine ⟨.quiet le_rfl, ?_⟩
    simp only [handle]
    rw [bind_of_ok (haccepts.workerAuth _ hw), hclaim]
    rfl
  have hclaimer : (claimRows cfg env i w).2 ∈ t.db.workers :=
    (Table.mem_update (claimRows cfg env i w).2 hw rfl).mpr (Or.inl rfl)
  refine ⟨_, t, hclaimed, rfl, ⟨_, hclaimer, rfl, haccepts, rfl⟩, rfl, ?_⟩
  have heffort : t.db.effort cfg + i.effort cfg = s.db.effort cfg + _ :=
    effort_update (claimRows cfg env i w).1 himem rfl rfl
  rw [effort_of_queued hiq, effort_of_active (j := (claimRows cfg env i w).1) (Or.inl rfl)]
    at heffort
  have hattempt : (claimRows cfg env i w).1.attempt = i.attempt := rfl
  omega

/-- **No reachable state is a dead end.** From every reachable state, with all its leases and
workers as they are and nothing new submitted, a registration and then claims of the new worker
and passes of the reaper, no more than there is left to do, bring all jobs to an end. -/
theorem never_stuck (hs : (controlPlane cfg).Reachable s) :
    ∃ call w token auth tr t, (controlPlane cfg).Run s (call :: tr) t
      ∧ (∃ data, call.request = .register data) ∧ call.response = .credentials w token
      ∧ bearer auth = .ok token.text
      ∧ (∀ c ∈ tr, c.request = .claim w.id auth ∨ c.request = .reapJobs)
      ∧ (∀ j ∈ t.db.jobs, j.status.IsTerminal)
      ∧ t.db.submissions = s.db.submissions ∧ tr.length ≤ s.db.effort cfg := by
  obtain ⟨call, w, token, auth, s₁, hregister, hdata, hanswer, hbearer, hready, hsubs, heffort⟩ :=
    register_ready s
  have hdescend : ∀ u, (controlPlane cfg).Reachable u →
      u.db.Ready cfg w.id auth ∧ u.db.submissions = s.db.submissions →
      ¬(∀ j ∈ u.db.jobs, j.status.IsTerminal) →
      ∃ c t, (controlPlane cfg).step u c t
        ∧ (c.request = .claim w.id auth ∨ c.request = .reapJobs)
        ∧ (t.db.Ready cfg w.id auth ∧ t.db.submissions = s.db.submissions)
        ∧ t.db.effort cfg < u.db.effort cfg := by
    intro u hu ⟨hready, hsame⟩ hopen
    by_cases hactive : ∃ j ∈ u.db.jobs, j.status.IsActive
    · obtain ⟨j, hj, ha⟩ := hactive
      obtain ⟨c, t, hstep, hreq, hworkers, hsubs, hlt⟩ := reap_descends hu hj ha
      refine ⟨c, t, hstep, Or.inr hreq, ⟨?_, hsubs.trans hsame⟩, hlt⟩
      unfold Database.Ready
      rwa [hworkers]
    · have hidle : ∀ j ∈ u.db.jobs, ¬j.status.IsActive := fun j hj ha => hactive ⟨j, hj, ha⟩
      obtain ⟨j, hj⟩ := not_forall.mp hopen
      obtain ⟨hj, hlive⟩ := Classical.not_imp.mp hj
      have hq : j.status = .queued :=
        j.status.cases_on_phase.resolve_right (not_or.mpr ⟨hidle j hj, hlive⟩)
      obtain ⟨c, t, hstep, hreq, hready, hsubs, hlt⟩ := claim_descends hu hready hidle hj hq
      exact ⟨c, t, hstep, Or.inl hreq, ⟨hready, hsubs.trans hsame⟩, hlt⟩
  obtain ⟨tr, t, hrun, htr, ⟨-, hsame⟩, hdone, hlen⟩ :=
    (hs.step hregister).descends (m := fun u => u.db.effort cfg) hdescend ⟨hready, hsubs⟩
  exact ⟨call, w, token, auth, tr, t, (Transition.Run.single hregister).append hrun, hdata,
    hanswer, hbearer, htr, hdone, hsame, heffort ▸ hlen⟩

theorem never_stuck_reporting :
    ∃ call w token auth tr t, (controlPlane Sample.config).Run Sample.reporting (call :: tr) t
      ∧ (∃ data, call.request = .register data) ∧ call.response = .credentials w token
      ∧ bearer auth = .ok token.text
      ∧ (∀ c ∈ tr, c.request = .claim w.id auth ∨ c.request = .reapJobs)
      ∧ (∀ j ∈ t.db.jobs, j.status.IsTerminal)
      ∧ t.db.submissions = Sample.reporting.db.submissions
      ∧ tr.length ≤ Sample.reporting.db.effort Sample.config :=
  never_stuck (replay_reachable (by decide) (by decide))

end AgentBenchX
