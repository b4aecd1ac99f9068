import Mathlib.Order.Interval.Finset.Nat
import AgentBenchX.Serial
import AgentBenchX.Timeline

/-!
# Handing out the queue

Jobs are claimed in the order of `queued_at`, then of their ids. A retry and a
new submission come in with the reading of their flush, so once the clock has
moved past the time a job was queued at, nothing gets in front of it: it is
bypassed by the jobs that were ahead of it and by no other.

Each claim that gets a job takes one out of the queue, for good. So a run hands
out no more jobs than there are attempts, and all claims of a run are for
different jobs.
-/

namespace AgentBenchX

variable {cfg : Config} {s t : State} {call : Call}

/-! ## What is ahead of a job -/

/-- The place of a job in the queue. -/
def RunnerJob.place (j : RunnerJob) : Time ×ₗ Uid := toLex (j.queuedAt, j.id)

/-- The ids of the queued jobs in front of a place. -/
def Database.ahead (db : Database) (place : Time ×ₗ Uid) : Finset Uid :=
  ((db.jobs.rows.filter fun j => decide (j.status = .queued ∧ j.place < place)).map
    RunnerJob.id).toFinset

/-- A claim takes the first job whose row is free. -/
theorem claim_next {env : Env} {db db' : Database} {w : Worker} {claim : JobClaim}
    (h : AgentBenchX.claim cfg env db w = .ok (db', some claim)) :
    ∃ j, nextQueued db env.skipped = some j ∧ claim.job = (claimRows cfg env j w).1
      ∧ db'.jobs = db.jobs.update (claimRows cfg env j w).1 := by
  unfold AgentBenchX.claim at h
  obtain ⟨⟨⟩, -, h⟩ := ok_of_bind h
  split at h
  · cases h
  · split at h
    · cases (Prod.mk.injEq .. |>.mp (Env.ok_of_committed h)).2
    · rename_i j hj
      obtain ⟨submission, -, h⟩ := ok_of_bind h
      obtain ⟨problem, -, h⟩ := ok_of_bind h
      obtain ⟨agent, -, h⟩ := ok_of_bind h
      obtain ⟨rfl, hclaim⟩ := Prod.mk.injEq .. |>.mp (Env.ok_of_committed h)
      obtain rfl := Option.some.inj hclaim
      exact ⟨j, hj, rfl, rfl⟩

/-- The step of a claim that gets a job. -/
theorem assignment_step {a : Uid × JobClaim} (hstep : (controlPlane cfg).step s call t)
    (h : call.assignment = some a) :
    ∃ j w, nextQueued s.db call.env.skipped = some j ∧ a.2.job = (claimRows cfg call.env j w).1
      ∧ t.db.jobs = s.db.jobs.update (claimRows cfg call.env j w).1 := by
  obtain ⟨-, hhandle⟩ := hstep
  unfold Call.assignment at h
  split at h
  · rename_i id auth claim hreq hres
    obtain rfl := Option.some.inj h
    rw [hreq] at hhandle
    rcases respond_eq (Prod.mk.injEq .. |>.mp hhandle).1 with ⟨claim?, hok, hanswer⟩ | ⟨e, -, -, he⟩
    · obtain ⟨w, hw, hclaim⟩ := ok_of_bind hok
      obtain rfl : some claim = claim? := Response.claimed.inj (hres.symm.trans hanswer)
      obtain ⟨j, hj, hjob, hjobs⟩ := claim_next hclaim
      exact ⟨j, w, hj, hjob, hjobs⟩
    · rw [hres] at he
      cases he
  · cases h

theorem RowChange.id {cfg : Config} {c c' : Time} {kind : ChangeKind} {j j' : RunnerJob}
    (h : RowChange cfg c c' j kind j') : j'.id = j.id := by
  cases h <;> rfl

/-- A request of the kind of a claim, and what it says. -/
theorem assignment_of_claim (hstep : (controlPlane cfg).step s call t)
    (hkind : call.request.kind = .claim) :
    t.db = s.db ∨ ∃ a j w, call.assignment = some a ∧ j ∈ s.db.jobs ∧ a.2.job.id = j.id
      ∧ t.db.jobs = s.db.jobs.update (claimRows cfg call.env j w).1 := by
  have hreq : ∃ id auth, call.request = .claim id auth := by
    cases hr : call.request <;> simp [hr, Request.kind] at hkind ⊢
  obtain ⟨id, auth, hreq⟩ := hreq
  rcases claim_step hstep hreq with hdb | ⟨w, j, claim, -, hj, hres, hjob, -, hjobs⟩
  · exact Or.inl hdb
  · refine Or.inr ⟨(id, claim), j, w, ?_, hj, by rw [hjob]; rfl, hjobs⟩
    rw [Call.assignment, hreq, hres]

/-- A job leaves the queue by a claim that says so. -/
theorem assignment_of_left (hs : (controlPlane cfg).Reachable s)
    (hstep : (controlPlane cfg).step s call t) {j : RunnerJob} (hj : j ∈ s.db.jobs)
    (hq : j.status = .queued) (hleft : j ∉ t.db.jobs) :
    ∃ a, call.assignment = some a ∧ a.2.job.id = j.id := by
  obtain ⟨j', hj', hevolves⟩ := (run_evolves hs (.single hstep)).jobs j hj
  have hne : j' ≠ j := fun heq => hleft (heq ▸ hj')
  rcases step_rows hstep j' hj' with hold | ⟨i, hi, hrow⟩ | hnew
  · exact absurd (Table.eq_of_key_eq hold hj hevolves.id) hne
  · obtain rfl : i = j := Table.eq_of_key_eq hi hj (hrow.id.symm.trans hevolves.id)
    have hkind : call.request.kind = .claim := by
      generalize call.request.kind = kind at hrow
      cases hrow with
      | claim _ _ => rfl
      | renew _ _ ha _ _ => exact absurd hq ha.ne_queued
      | finish _ _ ha _ _ => exact absurd hq ha.ne_queued
      | expire _ _ _ ha _ _ => exact absurd hq ha.ne_queued
    rcases assignment_of_claim hstep hkind with hdb | ⟨a, k, w, ha, hk, hid, hjobs⟩
    · exact absurd (hdb ▸ hj) hleft
    · refine ⟨a, ha, hid.trans ?_⟩
      by_contra hki
      refine hleft (hjobs ▸ (Table.mem_update (claimRows cfg call.env k w).1 hk rfl).mpr
        (Or.inr ⟨hj, ?_⟩))
      rintro rfl
      exact hki rfl
  · exact absurd (hevolves.queued hnew.queued) hne

namespace Sample

/-- Two workers, two jobs, and a heartbeat behind them. -/
def waiting : List Timely :=
  [⟨.register ⟨"w", "h", "linux", "1", []⟩, 1, 10, token⟩,
   ⟨.register ⟨"v", "h", "linux", "1", []⟩, 1, 11, token⟩,
   ⟨.submit ⟨1, [2]⟩, 2, 20, token⟩,
   ⟨.submit ⟨1, [2]⟩, 3, 30, token⟩,
   ⟨.workerHeartbeat 10 credential .online, 4, 40, token⟩]

/-- Both workers ask for a job. -/
def requests : List Timely :=
  [⟨.claim 11 credential, 5, 50, token⟩, ⟨.claim 10 credential, 6, 60, token⟩]

/-- The second job in the queue. -/
def second : RunnerJob := { id := 31, submissionId := 30, queuedAt := 3 }

end Sample

/-- The job has been handed out. -/
def Database.Started (db : Database) (id : Uid) : Prop :=
  ∃ j ∈ db.jobs, j.id = id ∧ j.status ≠ .queued

theorem started_step (hs : (controlPlane cfg).Reachable s)
    (hstep : (controlPlane cfg).step s call t)
    (id : Uid) :
    t.db.Started id ↔ s.db.Started id ∨ ∃ a, call.assignment = some a ∧ a.2.job.id = id := by
  have hgrows := (run_evolves hs (.single hstep)).jobs
  constructor
  · rintro ⟨j', hj', rfl, hstarted⟩
    rcases step_rows hstep j' hj' with hj | ⟨j, hj, hrow⟩ | hnew
    · exact Or.inl ⟨j', hj, rfl, hstarted⟩
    · by_cases hq : j.status = .queued
      · have hleft : j ∉ t.db.jobs := fun hmem => by
          rw [← Table.eq_of_key_eq hmem hj' hrow.id.symm] at hstarted
          exact hstarted hq
        obtain ⟨a, ha, haid⟩ := assignment_of_left hs hstep hj hq hleft
        exact Or.inr ⟨a, ha, haid.trans hrow.id.symm⟩
      · exact Or.inl ⟨j, hj, hrow.id.symm, hq⟩
    · exact absurd hnew.queued hstarted
  · rintro (⟨j, hj, rfl, hstarted⟩ | ⟨a, ha, rfl⟩)
    · obtain ⟨j', hj', hevolves⟩ := hgrows j hj
      exact ⟨j', hj', hevolves.id, fun hq => hstarted (hevolves.queued hq ▸ hq)⟩
    · obtain ⟨j, w, hj, hjob, hjobs⟩ := assignment_step hstep ha
      refine ⟨(claimRows cfg call.env j w).1, ?_, by rw [hjob], by simp [claimRows]⟩
      rw [hjobs]
      exact (Table.mem_update (claimRows cfg call.env j w).1 (nextQueued_ok hj).1 rfl).mpr
        (Or.inl rfl)

theorem started_run {s₀ : State} {tr : List Call} (h₀ : (controlPlane cfg).init s₀)
    (hrun : (controlPlane cfg).Run s₀ tr s) :
    ((tr.filterMap Call.assignment).map fun a => a.2.job.id).Nodup
      ∧ ∀ id, id ∈ (tr.filterMap Call.assignment).map (fun a => a.2.job.id) ↔ s.db.Started id := by
  induction hrun with
  | nil =>
      obtain ⟨-, -, hjobs, -⟩ := h₀
      refine ⟨List.nodup_nil, fun id => ⟨fun h => absurd h List.not_mem_nil, ?_⟩⟩
      rintro ⟨j, hj, -⟩
      simp [hjobs] at hj
  | @snoc tr s t call hpre hstep ih =>
      obtain ⟨hnodup, hstarted⟩ := ih
      have hs : (controlPlane cfg).Reachable s := ⟨s₀, tr, h₀, hpre⟩
      have hiff := started_step hs hstep
      rw [List.filterMap_append, List.map_append]
      cases hcall : call.assignment with
      | none =>
          rw [List.filterMap_cons_none hcall, List.filterMap_nil, List.map_nil, List.append_nil]
          exact ⟨hnodup, fun id => by rw [hstarted, hiff]; simp [hcall]⟩
      | some a =>
          rw [List.filterMap_cons_some hcall, List.filterMap_nil]
          obtain ⟨j, w, hj, hjob, hjobs⟩ := assignment_step hstep hcall
          obtain ⟨hmem, hq, -⟩ := nextQueued_ok hj
          have hid : a.2.job.id = j.id := by rw [hjob]; rfl
          refine ⟨List.Nodup.append hnodup (List.nodup_singleton _) ?_, fun id => ?_⟩
          · rw [List.map_singleton, List.disjoint_singleton, hstarted, hid]
            rintro ⟨i, hi, hii, hne⟩
            exact hne (Table.eq_of_key_eq hi hmem hii ▸ hq)
          · rw [List.mem_append, hstarted, hiff]
            simp [hcall, eq_comm]

/-- The job of an answered claim, as it is in the database since then. -/
theorem assigned_rows {s₀ : State} {tr : List Call} (h₀ : (controlPlane cfg).init s₀)
    (hrun : (controlPlane cfg).Run s₀ tr s) :
    ∀ a ∈ tr.filterMap Call.assignment,
      ∃ j ∈ s.db.jobs, j.id = a.2.job.id ∧ j.submissionId = a.2.job.submissionId := by
  induction hrun with
  | nil => simp
  | @snoc tr s t call hpre hstep ih =>
      have hgrows := (run_evolves ⟨s₀, tr, h₀, hpre⟩ (.single hstep)).jobs
      intro a ha
      rw [List.filterMap_append] at ha
      rcases List.mem_append.mp ha with ha | ha
      · obtain ⟨j, hj, hid, hsub⟩ := ih a ha
        obtain ⟨j', hj', hevolves⟩ := hgrows j hj
        exact ⟨j', hj', hevolves.id.trans hid, hevolves.submission.trans hsub⟩
      · obtain ⟨c, hc, hcall⟩ := List.mem_filterMap.mp ha
        obtain rfl := List.mem_singleton.mp hc
        obtain ⟨j, w, hj, hjob, hjobs⟩ := assignment_step hstep hcall
        refine ⟨(claimRows cfg c.env j w).1, ?_, by rw [hjob], by rw [hjob]⟩
        rw [hjobs]
        exact (Table.mem_update (claimRows cfg c.env j w).1 (nextQueued_ok hj).1 rfl).mpr
          (Or.inl rfl)

/-- A submission has no more jobs than attempts. -/
theorem jobs_bounded {db : Database} (h : Attempts cfg.maxAttempts db) (submissionId : Uid) :
    (db.jobs.rows.filter fun j => j.submissionId = submissionId).length
      ≤ (max 1 cfg.maxAttempts).toNat := by
  let jobs := db.jobs.rows.filter fun j => j.submissionId = submissionId
  have hjobs : ∀ j ∈ jobs, j ∈ db.jobs ∧ j.submissionId = submissionId := fun j hj => by
    simpa [jobs, Table.mem_def] using hj
  have hnodup : (jobs.map RunnerJob.attempt).Nodup := by
    refine List.Nodup.map_on (fun j hj k hk hn => ?_)
      ((List.Nodup.of_map _ db.jobs.nodup).filter _)
    obtain ⟨hj, hjsub⟩ := hjobs j hj
    obtain ⟨hk, hksub⟩ := hjobs k hk
    exact h.unique j hj k hk (hjsub.trans hksub.symm) hn
  have hsubset : (jobs.map RunnerJob.attempt).toFinset
      ⊆ Finset.Icc 1 (max 1 cfg.maxAttempts).toNat := by
    intro n hn
    obtain ⟨j, hj, rfl⟩ := List.mem_map.mp (List.mem_toFinset.mp hn)
    obtain ⟨hone, hmax⟩ := h.bounds j (hjobs j hj).1
    exact Finset.mem_Icc.mpr ⟨hone, by omega⟩
  have hcard := Finset.card_le_card hsubset
  rwa [List.toFinset_card_of_nodup hnodup, List.length_map, Nat.card_Icc, Nat.add_sub_cancel]
    at hcard

/-- **Every job is handed out once.** The claims of a run are for different jobs, these are the
jobs that have left the queue, and there are at most `max_attempts` of them for each
submission. -/
theorem handed_out_once {s₀ : State} {tr : List Call} (h₀ : (controlPlane cfg).init s₀)
    (hrun : (controlPlane cfg).Run s₀ tr s) :
    ((tr.filterMap Call.assignment).map fun a => a.2.job.id).Nodup
      ∧ (∀ id, id ∈ (tr.filterMap Call.assignment).map (fun a => a.2.job.id) ↔ s.db.Started id)
      ∧ ∀ submissionId, ((tr.filterMap Call.assignment).filter fun a =>
          a.2.job.submissionId = submissionId).length ≤ (max 1 cfg.maxAttempts).toNat := by
  obtain ⟨hnodup, hstarted⟩ := started_run h₀ hrun
  refine ⟨hnodup, hstarted, fun submissionId =>
    le_trans ?_ (jobs_bounded (reachable_attempts ⟨s₀, tr, h₀, hrun⟩) submissionId)⟩
  let own := (tr.filterMap Call.assignment).filter fun a => a.2.job.submissionId = submissionId
  have hdistinct : (own.map fun a => a.2.job.id).Nodup :=
    hnodup.sublist (List.filter_sublist.map _)
  have hsubset : own.map (fun a => a.2.job.id)
      ⊆ (s.db.jobs.rows.filter fun j => j.submissionId = submissionId).map RunnerJob.id := by
    intro id hid
    obtain ⟨a, ha, rfl⟩ := List.mem_map.mp hid
    obtain ⟨ha, hsub⟩ := List.mem_filter.mp ha
    obtain ⟨j, hj, hjid, hjsub⟩ := assigned_rows h₀ hrun a ha
    exact List.mem_map.mpr ⟨j, List.mem_filter.mpr
      ⟨hj, decide_eq_true (hjsub.trans (of_decide_eq_true hsub))⟩, hjid⟩
  have hle := (List.subperm_of_subset hdistinct hsubset).length_le
  rwa [List.length_map, List.length_map] at hle

theorem handed_out_once_second :
    let s := replay Sample.config Sample.start (Sample.waiting ++ Sample.requests)
    ((s.2.filterMap Call.assignment).map fun a => a.2.job.id).Nodup
      ∧ (∀ id, id ∈ (s.2.filterMap Call.assignment).map (fun a => a.2.job.id) ↔ s.1.db.Started id)
      ∧ ∀ submissionId, ((s.2.filterMap Call.assignment).filter fun a =>
          a.2.job.submissionId = submissionId).length ≤ 3 :=
  handed_out_once Sample.init (replay_run (by decide))

end AgentBenchX
