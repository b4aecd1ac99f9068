import Mathlib.Algebra.BigOperators.Group.List.Lemmas
import AgentBenchX.Attempts
import AgentBenchX.Lib.Firsts

/-!
# The dashboard

The summary of `dashboard`, computed from all jobs, sorted by their attempt,
and all evaluations. The first job of each submission in that order is its last
attempt, so the counters say where the submissions stand, and a submission that
is counted as finished stays finished. The lists of workers, jobs and
evaluations next to the summary are left out.
-/

namespace AgentBenchX

namespace PyFloat

/-- `sum(values)`. -/
def sum (values : List PyFloat) : PyFloat := values.foldl add 0

/-- `x / n` for a positive integer. -/
def divNat : PyFloat → ℕ → PyFloat
  | .finite q, n => .finite (q / n)
  | x, _ => x

instance : RightCommutative add where
  right_comm x y z := by
    -- Two infinities add up to one of them or to NaN, whatever comes in between.
    cases x with
    | finite p =>
        cases y with
        | finite q =>
            cases z with
            | finite r => exact congrArg finite (add_right_comm p q r)
            | _ => rfl
        | inf b =>
            cases z with
            | inf c => cases b <;> cases c <;> rfl
            | _ => rfl
        | nan => cases z <;> rfl
    | inf a =>
        cases y with
        | finite q =>
            cases z with
            | inf c => cases a <;> cases c <;> rfl
            | _ => rfl
        | inf b =>
            cases z with
            | inf c => cases a <;> cases b <;> cases c <;> rfl
            | _ => cases a <;> cases b <;> rfl
        | nan =>
            cases z with
            | inf c => cases a <;> cases c <;> rfl
            | _ => rfl
    | nan => cases y <;> cases z <;> rfl

theorem sum_perm {l l' : List PyFloat} (h : l.Perm l') : sum l = sum l' := h.foldl_eq 0

end PyFloat

structure DashboardSummary where
  totalProblems : ℕ
  completed : ℕ
  running : ℕ
  queued : ℕ
  failed : ℕ
  successRate : ℚ
  totalRuntime : PyFloat
  averageRuntime : PyFloat
  totalCost : Option PyFloat
  averageCost : Option PyFloat
  totalTokens : Option ℤ
  score : ℚ
deriving DecidableEq

/-- `sum(values) if values and all(v is not None for v in values) else None`. -/
def sumIfAll {α : Type} (sum : List α → α) (values : List (Option α)) : Option α :=
  if values ≠ [] ∧ ∀ v ∈ values, v.isSome then some (sum values.reduceOption) else none

/-- `sum(values) / len(values) if values else 0`. -/
def mean (values : List ℚ) : ℚ := if values = [] then 0 else values.sum / values.length

/-- The summary of `dashboard`, from the answers to its two queries. -/
def dashboard (jobs : List RunnerJob) (evaluations : List Evaluation) : DashboardSummary :=
  let current := firsts RunnerJob.submissionId jobs
  let completed := current.countP fun j => decide (j.status = .completed)
  let failed := current.countP fun j => decide (j.status = .failed ∨ j.status = .timeout)
  let runtime := PyFloat.sum (evaluations.map fun e => e.metrics.reported.runtimeSeconds)
  let cost := sumIfAll PyFloat.sum (evaluations.map fun e => e.metrics.totalCost)
  let finals := evaluations.filter fun e => decide (e.jobId ∈ current.map RunnerJob.id)
  { totalProblems := current.length
    completed
    running := current.countP fun j => decide (j.status = .claimed ∨ j.status = .running)
    queued := current.countP fun j => decide (j.status = .queued)
    failed
    successRate := if completed + failed = 0 then 0 else (completed : ℚ) / (completed + failed : ℕ)
    totalRuntime := runtime
    averageRuntime := if evaluations = [] then 0 else runtime.divNat evaluations.length
    totalCost := cost
    averageCost := if evaluations = [] then none else cost.map fun c => c.divNat evaluations.length
    totalTokens := sumIfAll List.sum (evaluations.map fun e => e.metrics.totalTokens)
    score := mean (finals.map fun e => e.metrics.score) }

/-- What the queries of `dashboard` may return: the jobs with the later
attempts first, and the evaluations in any order. -/
structure Queried (db : Database) (jobs : List RunnerJob) (evaluations : List Evaluation) :
    Prop where
  sorted : jobs.Pairwise fun a b => b.attempt ≤ a.attempt
  jobs : jobs.Perm db.jobs.rows
  evaluations : evaluations.Perm db.evaluations.rows

/-! ## The last attempts -/

namespace Database

/-- The job is the highest attempt of its submission. -/
def IsLatest (db : Database) (j : RunnerJob) : Prop :=
  ∀ k ∈ db.jobs.rows, k.submissionId = j.submissionId → k.attempt ≤ j.attempt

instance (db : Database) (j : RunnerJob) : Decidable (db.IsLatest j) :=
  inferInstanceAs (Decidable (∀ k ∈ db.jobs.rows, _))

/-- The number of submissions whose highest attempt has a status with `p`. -/
def countLatest (db : Database) (p : JobStatus → Bool) : ℕ :=
  db.submissions.rows.countP fun s =>
    db.jobs.rows.any fun j => decide (j.submissionId = s.id) && decide (db.IsLatest j) && p j.status

/-- The evaluations of highest attempts. -/
def latestEvaluations (db : Database) : List Evaluation :=
  db.evaluations.rows.filter fun e =>
    db.jobs.rows.any fun j => decide (j.id = e.jobId) && decide (db.IsLatest j)

end Database

section

variable {maxAttempts : ℤ} {db : Database} {jobs : List RunnerJob} {evaluations : List Evaluation}
  {j : RunnerJob}

/-- The dictionary holds the highest attempts. -/
theorem Queried.latest (hq : Queried db jobs evaluations)
    (hj : j ∈ firsts RunnerJob.submissionId jobs) : j ∈ db.jobs ∧ db.IsLatest j := by
  refine ⟨hq.jobs.mem_iff.mp (mem_of_mem_firsts hj), fun k hk hsub => ?_⟩
  rcases firsts_first hq.sorted hj (hq.jobs.mem_iff.mpr hk) hsub with rfl | hle
  · exact le_rfl
  · exact hle

/-- A highest attempt is in the dictionary. -/
theorem Queried.mem_current (hq : Queried db jobs evaluations) (h : Attempts maxAttempts db)
    (hj : j ∈ db.jobs) (hlatest : db.IsLatest j) : j ∈ firsts RunnerJob.submissionId jobs := by
  obtain ⟨k, hk, hsub⟩ : ∃ k ∈ firsts RunnerJob.submissionId jobs,
      k.submissionId = j.submissionId :=
    exists_mem_firsts (hq.jobs.mem_iff.mpr hj)
  obtain ⟨hkj, hklatest⟩ := hq.latest hk
  obtain rfl := h.unique j hj k hkj hsub.symm
    (le_antisymm (hklatest j hj hsub.symm) (hlatest k hkj hsub))
  exact hk

/-- One entry for each submission. -/
theorem Queried.submissions (hq : Queried db jobs evaluations) (h : Attempts maxAttempts db) :
    ((firsts RunnerJob.submissionId jobs).map RunnerJob.submissionId).Perm
      (db.submissions.rows.map Submission.id) := by
  refine (List.perm_ext_iff_of_nodup nodup_firsts db.submissions.nodup).mpr fun id => ?_
  simp only [List.mem_map]
  constructor
  · rintro ⟨j, hj, rfl⟩
    exact h.submitted j (hq.latest hj).1
  · rintro ⟨s, hs, rfl⟩
    obtain ⟨j, hj, hsub, -⟩ := h.first s hs
    obtain ⟨k, hk, hkj⟩ : ∃ k ∈ firsts RunnerJob.submissionId jobs,
        k.submissionId = j.submissionId := exists_mem_firsts (hq.jobs.mem_iff.mpr hj)
    exact ⟨k, hk, hkj.trans hsub⟩

/-- The entries are counted by their submissions. -/
theorem Queried.countP (hq : Queried db jobs evaluations) (h : Attempts maxAttempts db)
    (p : JobStatus → Bool) :
    (firsts RunnerJob.submissionId jobs).countP (fun j => p j.status) = db.countLatest p := by
  let q : Uid → Bool := fun id =>
    db.jobs.rows.any fun j => decide (j.submissionId = id) && decide (db.IsLatest j) && p j.status
  have hentry : ∀ j ∈ firsts RunnerJob.submissionId jobs,
      p j.status = true ↔ (q ∘ RunnerJob.submissionId) j = true := by
    intro j hj
    obtain ⟨hmem, hlatest⟩ := hq.latest hj
    simp only [q, Function.comp_apply, List.any_eq_true, Bool.and_eq_true, decide_eq_true_eq]
    constructor
    · exact fun hp => ⟨j, hmem, ⟨rfl, hlatest⟩, hp⟩
    · rintro ⟨k, hk, ⟨hsub, hklatest⟩, hp⟩
      rwa [h.unique j hmem k hk hsub.symm
        (le_antisymm (hklatest j hmem hsub.symm) (hlatest k hk hsub))]
  calc (firsts RunnerJob.submissionId jobs).countP (fun j => p j.status)
      = (firsts RunnerJob.submissionId jobs).countP (q ∘ RunnerJob.submissionId) :=
        List.countP_congr hentry
    _ = ((firsts RunnerJob.submissionId jobs).map RunnerJob.submissionId).countP q :=
        (List.countP_map ..).symm
    _ = (db.submissions.rows.map Submission.id).countP q := (hq.submissions h).countP_eq q
    _ = db.countLatest p := List.countP_map ..

/-- A job has one of six statuses, which are counted in four places. -/
theorem length_eq_counts (l : List RunnerJob) :
    l.length = l.countP (fun j => decide (j.status = .completed))
      + l.countP (fun j => decide (j.status = .claimed ∨ j.status = .running))
      + l.countP (fun j => decide (j.status = .queued))
      + l.countP (fun j => decide (j.status = .failed ∨ j.status = .timeout)) := by
  induction l with
  | nil => rfl
  | cons j l ih =>
      have hone : (if decide (j.status = .completed) = true then 1 else 0)
          + (if decide (j.status = .claimed ∨ j.status = .running) = true then 1 else 0)
          + (if decide (j.status = .queued) = true then 1 else 0)
          + (if decide (j.status = .failed ∨ j.status = .timeout) = true then 1 else 0) = 1 := by
        cases j.status <;> rfl
      simp only [List.length_cons, List.countP_cons]
      omega

end

/-! ## Finished submissions -/

/-- A submission whose highest attempt is finished gets no other attempt: the
attempt is judged or the last one allowed, and stays so. -/
theorem latest_stays {cfg : Config} {s t : State} {tr : List Call} {j k : RunnerJob}
    (hs : (controlPlane cfg).Reachable s) (hrun : (controlPlane cfg).Run s tr t)
    (hj : j ∈ s.db.jobs) (hlatest : s.db.IsLatest j) (hterminal : j.status.IsTerminal)
    (hk : k ∈ t.db.jobs) (hsub : k.submissionId = j.submissionId) : k.attempt ≤ j.attempt := by
  have hbefore := reachable_attempts hs
  have hafter := reachable_attempts (hs.run hrun)
  have hevolves := run_evolves hs hrun
  obtain ⟨j', hj', hjj'⟩ := hevolves.jobs j hj
  obtain rfl := hjj'.terminal hterminal
  by_contra hlt
  have hlast : ¬s.db.AttemptTaken j'.submissionId (j'.attempt + 1) := by
    rintro ⟨x, hx, hxsub, hxattempt⟩
    have hle := hlatest x hx hxsub
    omega
  rcases hbefore.concluded j' hj hterminal hlast with ⟨e, he, hid, hverdict⟩ | hmax
  · obtain ⟨sub, hsubmission, hsubid⟩ := hafter.submitted j' hj'
    obtain ⟨n, hhistory⟩ := hafter.history hsubmission
    have hkn := ((hhistory.numbers k.attempt).mp ⟨k, hk, hsub.trans hsubid.symm, rfl⟩).2
    obtain ⟨-, hwhy⟩ := hhistory.superseded j' hj' hsubid.symm (by omega)
    have he' := hevolves.evaluations e he
    rcases hwhy with ⟨-, -, hnone⟩ | ⟨f, hf, hfid, hfailure⟩
    · exact hnone e he' hid
    · have hsingle := (reachable_consistent (hs.run hrun)).recorded.single
      obtain rfl := hsingle e he' f hf (hid.trans hfid.symm)
      exact hverdict hfailure
  · have hbound := (hafter.bounds k hk).2
    have hpos := (hafter.bounds j' hj').1
    omega

/-! ## Sums -/

section

variable {α : Type} {sum : List α → α} {values : List (Option α)}

theorem sumIfAll_eq_none : sumIfAll sum values = none ↔ values = [] ∨ none ∈ values := by
  rw [sumIfAll]
  split
  · rename_i hall
    refine ⟨nofun, ?_⟩
    rintro (hnil | hnone)
    · exact absurd hnil hall.1
    · exact absurd (hall.2 none hnone) (by simp)
  · rename_i hnot
    refine ⟨fun _ => ?_, fun _ => rfl⟩
    by_contra hno
    obtain ⟨hnil, hnone⟩ := not_or.mp hno
    refine hnot ⟨hnil, fun v hv => ?_⟩
    cases v with
    | none => exact absurd hv hnone
    | some x => rfl

theorem sumIfAll_eq_some {x : α} (h : sumIfAll sum values = some x) :
    x = sum values.reduceOption := by
  rw [sumIfAll] at h
  split at h
  · exact (Option.some.inj h).symm
  · nomatch h

/-- A sum over rows in any order. -/
theorem sumIfAll_map {β : Type} {f : β → Option α} {l rows : List β} (h : l.Perm rows)
    (hsum : ∀ {m m' : List α}, m.Perm m' → sum m = sum m') :
    (sumIfAll sum (l.map f) = none ↔ rows = [] ∨ ∃ e ∈ rows, f e = none)
      ∧ ∀ x, sumIfAll sum (l.map f) = some x → x = sum (rows.filterMap f) := by
  constructor
  · rw [sumIfAll_eq_none, List.map_eq_nil_iff, List.mem_map]
    refine or_congr ⟨fun hl => List.nil_perm.mp (hl ▸ h), fun hr => List.perm_nil.mp (hr ▸ h)⟩ ?_
    exact exists_congr fun e => and_congr_left fun _ => h.mem_iff
  · intro x hx
    have hreduce : (l.map f).reduceOption = l.filterMap f := List.filterMap_map
    rw [sumIfAll_eq_some hx, hreduce]
    exact hsum (h.filterMap f)

end

theorem mean_perm {l l' : List ℚ} (h : l.Perm l') : mean l = mean l' := by
  rw [mean, mean, h.sum_eq, h.length_eq]
  by_cases hl : l = []
  · subst hl
    rw [if_pos rfl, if_pos (List.nil_perm.mp h)]
  · refine (if_neg hl).trans (if_neg fun hl' => ?_).symm
    subst hl'
    exact hl (List.perm_nil.mp h)

/-- The evaluations the score is about. -/
theorem Queried.finals {maxAttempts : ℤ} {db : Database} {jobs : List RunnerJob}
    {evaluations : List Evaluation} (hq : Queried db jobs evaluations)
    (h : Attempts maxAttempts db) :
    (evaluations.filter fun e =>
        decide (e.jobId ∈ (firsts RunnerJob.submissionId jobs).map RunnerJob.id)).Perm
      db.latestEvaluations := by
  refine (hq.evaluations.filter _).trans (.of_eq (List.filter_congr fun e _ => ?_))
  rw [Bool.eq_iff_iff]
  simp only [decide_eq_true_eq, List.mem_map, List.any_eq_true, Bool.and_eq_true]
  constructor
  · rintro ⟨j, hj, hid⟩
    obtain ⟨hmem, hlatest⟩ := hq.latest hj
    exact ⟨j, hmem, hid, hlatest⟩
  · rintro ⟨j, hmem, hid, hlatest⟩
    exact ⟨j, hq.mem_current h hmem hlatest, hid⟩

/-- **The dashboard.** Whatever order its queries return rows in, the counters
of the summary say how many submissions stand where with their highest attempt;
a submission counted as finished gets no other attempt; the score is the mean
over the evaluations of the highest attempts; and runtime, tokens and cost are
the sums over all evaluations, the latter two only if all of them have a value. -/
theorem dashboard_summary {cfg : Config} {s : State} {jobs : List RunnerJob}
    {evaluations : List Evaluation} (hs : (controlPlane cfg).Reachable s)
    (hq : Queried s.db jobs evaluations) :
    let d := dashboard jobs evaluations
    (d.totalProblems = s.db.submissions.rows.length
      ∧ d.totalProblems = d.completed + d.running + d.queued + d.failed)
    ∧ (d.completed = s.db.countLatest (fun st => decide (st = .completed))
      ∧ d.running = s.db.countLatest (fun st => decide (st = .claimed ∨ st = .running))
      ∧ d.queued = s.db.countLatest (fun st => decide (st = .queued))
      ∧ d.failed = s.db.countLatest (fun st => decide (st = .failed ∨ st = .timeout)))
    ∧ (∀ j ∈ s.db.jobs, s.db.IsLatest j →
      j.status = .completed ∨ j.status = .failed ∨ j.status = .timeout →
      ∀ t tr, (controlPlane cfg).Run s tr t →
      ∀ k ∈ t.db.jobs, k.submissionId = j.submissionId → k.attempt ≤ j.attempt)
    ∧ d.score = mean (s.db.latestEvaluations.map fun e => e.metrics.score)
    ∧ d.totalRuntime
        = PyFloat.sum (s.db.evaluations.rows.map fun e => e.metrics.reported.runtimeSeconds)
    ∧ ((d.totalTokens = none ↔ s.db.evaluations.rows = []
          ∨ ∃ e ∈ s.db.evaluations, e.metrics.totalTokens = none)
      ∧ ∀ n, d.totalTokens = some n →
        n = (s.db.evaluations.rows.filterMap fun e => e.metrics.totalTokens).sum)
    ∧ ((d.totalCost = none ↔ s.db.evaluations.rows = []
          ∨ ∃ e ∈ s.db.evaluations, e.metrics.totalCost = none)
      ∧ ∀ c, d.totalCost = some c →
        c = PyFloat.sum (s.db.evaluations.rows.filterMap fun e => e.metrics.totalCost)) := by
  have h := reachable_attempts hs
  have hlength : (firsts RunnerJob.submissionId jobs).length = s.db.submissions.rows.length := by
    simpa using (hq.submissions h).length_eq
  have hcount := hq.countP h
  refine ⟨⟨hlength, length_eq_counts _⟩, ⟨hcount fun st => decide (st = .completed),
    hcount fun st => decide (st = .claimed ∨ st = .running),
    hcount fun st => decide (st = .queued),
    hcount fun st => decide (st = .failed ∨ st = .timeout)⟩,
    fun j hj hlatest hterminal t tr hrun k hk hsub =>
      latest_stays hs hrun hj hlatest hterminal hk hsub, ?_, ?_, ?_, ?_⟩
  · exact mean_perm ((hq.finals h).map _)
  · exact PyFloat.sum_perm (hq.evaluations.map _)
  · exact sumIfAll_map hq.evaluations fun hm => hm.sum_eq
  · exact sumIfAll_map hq.evaluations PyFloat.sum_perm

/-- The submission whose first attempt has lost its lease is queued. -/
theorem dashboard_summary_retried :
    let s := (replay Sample.config Sample.start
      (Sample.claimed ++ [⟨.reapJobs, 200, 40, Sample.token⟩])).1
    let d := dashboard s.db.jobs.rows.reverse s.db.evaluations.rows
    (d.queued, d.failed, d.totalTokens) = (1, 0, none)
      ∧ d.totalProblems = d.completed + d.running + d.queued + d.failed :=
  ⟨by decide +kernel,
    (dashboard_summary (replay_reachable (by decide) (by decide))
      ⟨by decide +kernel, List.reverse_perm _, .refl _⟩).1.2⟩

end AgentBenchX
