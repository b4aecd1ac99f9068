import Mathlib.Data.Nat.Find
import AgentBenchX.JobLifecycle

/-!
# The attempts of a submission

A submission is tried by a chain of jobs. `submit` creates attempt 1; the
reaper and `result` each create the next attempt when they conclude one
that may be repeated. `Attempts` is the invariant that ties the job rows,
the evaluations and the attempt numbers of all submissions together; it
is preserved by every change, and `reachable_history` reads off it what the
jobs of one submission look like: attempts `1..n`, every attempt before
the last superseded for a recorded reason, and a concluded last attempt
final.

Both places that create a retry rewrite an active row first.
`Attempts.retire` is the one lemma about them: an active attempt has no
successor, so the retry finds its number free.
-/

namespace AgentBenchX

/-! ## Why an attempt was concluded -/

/-- The lease of the job expired and nothing was recorded for it. -/
def LeaseExpired (evaluations : Table Evaluation) (j : RunnerJob) : Prop :=
  j.status = .timeout ∧ j.errorMessage = some leaseExpiredMessage
    ∧ ∀ e ∈ evaluations, e.jobId ≠ j.id

/-- The job was reported as an infrastructure failure. -/
def InfrastructureFailed (evaluations : Table Evaluation) (j : RunnerJob) : Prop :=
  ∃ e ∈ evaluations, e.jobId = j.id ∧ e.failureType = some .infrastructureFailure

/-- The job has an evaluation that is a verdict on the agent. -/
def Judged (evaluations : Table Evaluation) (j : RunnerJob) : Prop :=
  ∃ e ∈ evaluations, e.jobId = j.id ∧ e.failureType ≠ some .infrastructureFailure

/-- The attempt was followed by another one, and why. -/
def Superseded (evaluations : Table Evaluation) (j : RunnerJob) : Prop :=
  j.status.IsTerminal ∧ (LeaseExpired evaluations j ∨ InfrastructureFailed evaluations j)

section Evaluations

variable {evs evs' : Table Evaluation} {j : RunnerJob}

/-- An evaluation recorded for another job leaves the reason standing. -/
theorem Superseded.mono (h : Superseded evs j) (hkeep : ∀ e ∈ evs, e ∈ evs')
    (hnew : ∀ e ∈ evs', e ∈ evs ∨ e.jobId ≠ j.id) : Superseded evs' j := by
  refine ⟨h.1, ?_⟩
  rcases h.2 with ⟨hstatus, hmsg, hnone⟩ | ⟨e, he, hid, hfail⟩
  · exact Or.inl ⟨hstatus, hmsg, fun e he => (hnew e he).elim (hnone e) id⟩
  · exact Or.inr ⟨e, hkeep e he, hid, hfail⟩

theorem Judged.mono (h : Judged evs j) (hkeep : ∀ e ∈ evs, e ∈ evs') : Judged evs' j := by
  obtain ⟨e, he, hid, hfail⟩ := h
  exact ⟨e, hkeep e he, hid, hfail⟩

end Evaluations

/-! ## Attempt numbers in use -/

section Taken

variable {db db' : Database} {sub : Uid} {n : ℕ}

theorem attemptTaken_of_mem {j : RunnerJob} (hj : j ∈ db.jobs) :
    db.AttemptTaken j.submissionId j.attempt :=
  ⟨j, hj, rfl, rfl⟩

/-- Rewriting a row under its number uses no other number. -/
theorem attemptTaken_replace {j : RunnerJob} (j' : RunnerJob) (hj : j ∈ db.jobs)
    (hjobs : db'.jobs = db.jobs.update j') (hid : j'.id = j.id)
    (hsub : j'.submissionId = j.submissionId) (hatt : j'.attempt = j.attempt) :
    db'.AttemptTaken sub n ↔ db.AttemptTaken sub n := by
  have hmem := @Table.mem_update _ _ _ _ db.jobs j j' hj hid
  constructor
  · rintro ⟨x, hx, hxs, hxn⟩
    rw [← Table.mem_def, hjobs] at hx
    rcases hmem.mp hx with rfl | ⟨hx, -⟩
    · exact ⟨j, hj, hsub.symm.trans hxs, hatt.symm.trans hxn⟩
    · exact ⟨x, hx, hxs, hxn⟩
  · rintro ⟨x, hx, hxs, hxn⟩
    by_cases hxj : x = j
    · refine ⟨j', ?_, hsub.trans (hxj ▸ hxs), hatt.trans (hxj ▸ hxn)⟩
      rw [← Table.mem_def, hjobs]
      exact hmem.mpr (Or.inl rfl)
    · refine ⟨x, ?_, hxs, hxn⟩
      rw [← Table.mem_def, hjobs]
      exact hmem.mpr (Or.inr ⟨hx, hxj⟩)

theorem attemptTaken_insert {j : RunnerJob} (hmem : ∀ x, x ∈ db'.jobs ↔ x ∈ db.jobs ∨ x = j) :
    db'.AttemptTaken sub n
      ↔ db.AttemptTaken sub n ∨ (j.submissionId = sub ∧ j.attempt = n) := by
  constructor
  · rintro ⟨x, hx, hxs, hxn⟩
    rcases (hmem x).mp hx with hx | rfl
    · exact Or.inl ⟨x, hx, hxs, hxn⟩
    · exact Or.inr ⟨hxs, hxn⟩
  · rintro (⟨x, hx, hxs, hxn⟩ | ⟨hs, hn⟩)
    · exact ⟨x, (hmem x).mpr (Or.inl hx), hxs, hxn⟩
    · exact ⟨j, (hmem j).mpr (Or.inr rfl), hs, hn⟩

theorem attemptTaken_congr (h : db'.jobs = db.jobs) :
    db'.AttemptTaken sub n ↔ db.AttemptTaken sub n := by
  unfold Database.AttemptTaken
  rw [h]

end Taken

/-! ## Chains of attempts -/

/-- The attempt numbers of every submission are those of a chain: unique,
without gaps, and within the limit. -/
structure Chained (maxAttempts : ℤ) (db : Database) : Prop where
  submitted : ∀ j ∈ db.jobs, ∃ s ∈ db.submissions, s.id = j.submissionId
  unique : ∀ j ∈ db.jobs, ∀ k ∈ db.jobs, j.submissionId = k.submissionId →
    j.attempt = k.attempt → j = k
  first : ∀ s ∈ db.submissions, db.AttemptTaken s.id 1
  bounds : ∀ j ∈ db.jobs, 1 ≤ j.attempt ∧ (j.attempt : ℤ) ≤ max 1 maxAttempts
  previous : ∀ j ∈ db.jobs, 1 < j.attempt → db.AttemptTaken j.submissionId (j.attempt - 1)

namespace Chained

variable {maxAttempts : ℤ} {db db' : Database}

theorem replace {j : RunnerJob} (j' : RunnerJob) (h : Chained maxAttempts db) (hj : j ∈ db.jobs)
    (hjobs : db'.jobs = db.jobs.update j') (hid : j'.id = j.id)
    (hsub : j'.submissionId = j.submissionId) (hatt : j'.attempt = j.attempt)
    (hsubs : db'.submissions = db.submissions) : Chained maxAttempts db' := by
  have htaken : ∀ {sub n}, db'.AttemptTaken sub n ↔ db.AttemptTaken sub n :=
    attemptTaken_replace j' hj hjobs hid hsub hatt
  have hmem : ∀ {x}, x ∈ db'.jobs → x = j' ∨ (x ∈ db.jobs ∧ x ≠ j) := fun hx =>
    (Table.mem_update j' hj hid).mp (hjobs ▸ hx)
  constructor
  · intro x hx
    rw [hsubs]
    rcases hmem hx with rfl | ⟨hx, -⟩
    · exact hsub ▸ h.submitted j hj
    · exact h.submitted x hx
  · intro x hx y hy hxy hn
    rcases hmem hx with rfl | ⟨hx, hxj⟩ <;> rcases hmem hy with rfl | ⟨hy, hyj⟩
    · rfl
    · exact absurd (h.unique y hy j hj (hxy.symm.trans hsub) (hn.symm.trans hatt)) hyj
    · exact absurd (h.unique x hx j hj (hxy.trans hsub) (hn.trans hatt)) hxj
    · exact h.unique x hx y hy hxy hn
  · intro x hx
    exact htaken.mpr (h.first x (hsubs ▸ hx))
  · intro x hx
    rcases hmem hx with rfl | ⟨hx, -⟩
    · exact hatt ▸ h.bounds j hj
    · exact h.bounds x hx
  · intro x hx hlt
    refine htaken.mpr ?_
    rcases hmem hx with rfl | ⟨hx, -⟩
    · rw [hatt] at hlt
      exact hsub ▸ hatt ▸ h.previous j hj hlt
    · exact h.previous x hx hlt

/-- A row under a free number extends a chain, or starts the chain of a
submission that is new. -/
theorem insert {j : RunnerJob} (h : Chained maxAttempts db)
    (hjobs : ∀ x, x ∈ db'.jobs ↔ x ∈ db.jobs ∨ x = j)
    (hkeep : ∀ x ∈ db.submissions, x ∈ db'.submissions)
    (hnew : ∀ x ∈ db'.submissions, x ∈ db.submissions ∨ (x.id = j.submissionId ∧ j.attempt = 1))
    (hsub : ∃ s ∈ db'.submissions, s.id = j.submissionId)
    (hfree : ¬db.AttemptTaken j.submissionId j.attempt)
    (hbounds : 1 ≤ j.attempt ∧ (j.attempt : ℤ) ≤ max 1 maxAttempts)
    (hprev : 1 < j.attempt → db.AttemptTaken j.submissionId (j.attempt - 1)) :
    Chained maxAttempts db' := by
  have htaken : ∀ {sub n}, db'.AttemptTaken sub n
      ↔ db.AttemptTaken sub n ∨ (j.submissionId = sub ∧ j.attempt = n) :=
    attemptTaken_insert hjobs
  constructor
  · intro x hx
    rcases (hjobs x).mp hx with hx | rfl
    · obtain ⟨s, hs, hsx⟩ := h.submitted x hx
      exact ⟨s, hkeep s hs, hsx⟩
    · exact hsub
  · intro x hx y hy hxy hn
    rcases (hjobs x).mp hx with hx | rfl <;> rcases (hjobs y).mp hy with hy | rfl
    · exact h.unique x hx y hy hxy hn
    · exact absurd ⟨x, hx, hxy, hn⟩ hfree
    · exact absurd ⟨y, hy, hxy.symm, hn.symm⟩ hfree
    · rfl
  · intro x hx
    rcases hnew x hx with hx | ⟨hxs, hone⟩
    · exact htaken.mpr (Or.inl (h.first x hx))
    · exact htaken.mpr (Or.inr ⟨hxs.symm, hone⟩)
  · intro x hx
    rcases (hjobs x).mp hx with hx | rfl
    · exact h.bounds x hx
    · exact hbounds
  · intro x hx hlt
    rcases (hjobs x).mp hx with hx | rfl
    · exact htaken.mpr (Or.inl (h.previous x hx hlt))
    · exact htaken.mpr (Or.inl (hprev hlt))

end Chained

/-! ## The invariant -/

/-- The chains, and why they go on or end where they do. -/
structure Attempts (maxAttempts : ℤ) (db : Database) : Prop extends
    Chained maxAttempts db where
  superseded : ∀ j ∈ db.jobs, db.AttemptTaken j.submissionId (j.attempt + 1) →
    Superseded db.evaluations j
  concluded : ∀ j ∈ db.jobs, j.status.IsTerminal →
    ¬db.AttemptTaken j.submissionId (j.attempt + 1) →
    Judged db.evaluations j ∨ maxAttempts ≤ j.attempt

namespace Attempts

variable {maxAttempts : ℤ} {db db' base : Database}

theorem fresh (h : db.Fresh) : Attempts maxAttempts db := by
  obtain ⟨hsub, -, hjobs, -⟩ := h
  refine ⟨⟨?_, ?_, ?_, ?_, ?_⟩, ?_, ?_⟩ <;> simp [hjobs, hsub]

theorem of_eq (h : Attempts maxAttempts db) (hjobs : db'.jobs = db.jobs)
    (hsub : db'.submissions = db.submissions) (hev : db'.evaluations = db.evaluations) :
    Attempts maxAttempts db' := by
  have htaken := @attemptTaken_congr db db'
  refine ⟨⟨?_, ?_, ?_, ?_, ?_⟩, ?_, ?_⟩
  · simpa only [hjobs, hsub] using h.submitted
  · simpa only [hjobs] using h.unique
  · simpa only [hsub, htaken hjobs] using h.first
  · simpa only [hjobs] using h.bounds
  · simpa only [hjobs, htaken hjobs] using h.previous
  · simpa only [hjobs, hev, htaken hjobs] using h.superseded
  · simpa only [hjobs, hev, htaken hjobs] using h.concluded

/-- An attempt that is not concluded has no successor. -/
theorem no_successor (h : Attempts maxAttempts db) {j : RunnerJob} (hj : j ∈ db.jobs)
    (hlive : ¬j.status.IsTerminal) : ¬db.AttemptTaken j.submissionId (j.attempt + 1) :=
  fun htaken => hlive (h.superseded j hj htaken).1

/-- A new submission starts its chain with attempt 1. -/
theorem enqueue {s : Submission} {j : RunnerJob} (h : Attempts maxAttempts db)
    (hsubs : ∀ x, x ∈ db'.submissions ↔ x ∈ db.submissions ∨ x = s)
    (hjobs : ∀ x, x ∈ db'.jobs ↔ x ∈ db.jobs ∨ x = j)
    (hev : db'.evaluations = db.evaluations) (hsub : j.submissionId = s.id)
    (hatt : j.attempt = 1) (hfree : ¬db.AttemptTaken j.submissionId j.attempt)
    (hq : j.status = .queued) : Attempts maxAttempts db' := by
  have hchain : Chained maxAttempts db' := h.insert hjobs
    (fun x hx => (hsubs x).mpr (Or.inl hx))
    (fun x hx => ((hsubs x).mp hx).imp_right fun hxs => ⟨by rw [hxs, hsub], hatt⟩)
    ⟨s, (hsubs s).mpr (Or.inr rfl), hsub.symm⟩ hfree (by simp [hatt]) (by omega)
  -- No attempt gains a successor: the new one is a first attempt.
  have hnext : ∀ x ∈ db.jobs, db'.AttemptTaken x.submissionId (x.attempt + 1)
      ↔ db.AttemptTaken x.submissionId (x.attempt + 1) := fun x hx => by
    have hpos := (h.bounds x hx).1
    rw [attemptTaken_insert hjobs, or_iff_left]
    rintro ⟨-, hn⟩
    omega
  refine ⟨hchain, fun x hx htaken => ?_, fun x hx hterm htaken => ?_⟩
  · rcases (hjobs x).mp hx with hx | rfl
    · exact hev ▸ h.superseded x hx ((hnext x hx).mp htaken)
    · rcases (attemptTaken_insert hjobs).mp htaken with ⟨y, hy, hys, hyn⟩ | ⟨-, hn⟩
      · have hprev := h.previous y hy (by omega)
        rw [hys, hyn, Nat.add_sub_cancel] at hprev
        exact absurd hprev hfree
      · omega
  · rcases (hjobs x).mp hx with hx | rfl
    · exact hev ▸ h.concluded x hx hterm (mt (hnext x hx).mpr htaken)
    · exact absurd hq hterm.ne_queued

/-- An attempt that is claimed or renewed stays where it is in its chain. -/
theorem advance {j : RunnerJob} (j' : RunnerJob) (h : Attempts maxAttempts db) (hj : j ∈ db.jobs)
    (hlive : ¬j.status.IsTerminal) (hlive' : ¬j'.status.IsTerminal)
    (hjobs : db'.jobs = db.jobs.update j') (hid : j'.id = j.id)
    (hsub : j'.submissionId = j.submissionId) (hatt : j'.attempt = j.attempt)
    (hsubs : db'.submissions = db.submissions) (hev : db'.evaluations = db.evaluations) :
    Attempts maxAttempts db' := by
  have htaken : ∀ {sub n}, db'.AttemptTaken sub n ↔ db.AttemptTaken sub n :=
    attemptTaken_replace j' hj hjobs hid hsub hatt
  refine ⟨h.replace j' hj hjobs hid hsub hatt hsubs, fun x hx hnext => ?_,
    fun x hx hterm hnext => ?_⟩
  · rw [htaken] at hnext
    rcases (Table.mem_update j' hj hid).mp (hjobs ▸ hx) with rfl | ⟨hx, -⟩
    · rw [hsub, hatt] at hnext
      exact absurd hnext (h.no_successor hj hlive)
    · exact hev ▸ h.superseded x hx hnext
  · rw [htaken] at hnext
    rcases (Table.mem_update j' hj hid).mp (hjobs ▸ hx) with rfl | ⟨hx, -⟩
    · exact absurd hterm hlive'
    · exact hev ▸ h.concluded x hx hterm hnext

/-- What holds after an active row was retired, before anything is decided
about the next attempt: only the retired row may lack its successor. -/
theorem retired {j : RunnerJob} (j' : RunnerJob) (h : Attempts maxAttempts db) (hj : j ∈ db.jobs)
    (ha : j.status.IsActive) (hjobs : base.jobs = db.jobs.update j') (hid : j'.id = j.id)
    (hsub : j'.submissionId = j.submissionId) (hatt : j'.attempt = j.attempt)
    (hsubs : base.submissions = db.submissions)
    (hkeep : ∀ e ∈ db.evaluations, e ∈ base.evaluations)
    (hnew : ∀ e ∈ base.evaluations, e ∈ db.evaluations ∨ e.jobId = j.id) :
    Chained maxAttempts base
      ∧ j' ∈ base.jobs
      ∧ ¬base.AttemptTaken j'.submissionId (j'.attempt + 1)
      ∧ (∀ x ∈ base.jobs, base.AttemptTaken x.submissionId (x.attempt + 1) →
          Superseded base.evaluations x)
      ∧ ∀ x ∈ base.jobs, x ≠ j' → x.status.IsTerminal →
          ¬base.AttemptTaken x.submissionId (x.attempt + 1) →
          Judged base.evaluations x ∨ maxAttempts ≤ x.attempt := by
  have htaken : ∀ {sub n}, base.AttemptTaken sub n ↔ db.AttemptTaken sub n :=
    attemptTaken_replace j' hj hjobs hid hsub hatt
  have hmem : ∀ {x}, x ∈ base.jobs ↔ x = j' ∨ (x ∈ db.jobs ∧ x ≠ j) := by
    rw [hjobs]
    exact Table.mem_update j' hj hid
  have hfree : ¬base.AttemptTaken j'.submissionId (j'.attempt + 1) := by
    rw [hsub, hatt, htaken]
    exact h.no_successor hj ha.not_terminal
  refine ⟨h.replace j' hj hjobs hid hsub hatt hsubs, hmem.mpr (Or.inl rfl), hfree,
    fun x hx hnext => ?_, fun x hx hne hterm hnext => ?_⟩
  · rcases hmem.mp hx with rfl | ⟨hx, hxj⟩
    · exact absurd hnext hfree
    · refine (h.superseded x hx (htaken.mp hnext)).mono hkeep fun e he => ?_
      -- The new evaluation belongs to the retired job.
      exact (hnew e he).imp_right fun hej hex =>
        hxj (Table.eq_of_key_eq hx hj (hex.symm.trans hej))
  · obtain ⟨hx, -⟩ := (hmem.mp hx).resolve_left hne
    exact (h.concluded x hx hterm (mt htaken.mpr hnext)).imp_left fun hjudged =>
      hjudged.mono hkeep

/-- **Concluding an attempt.** An active attempt is retired; the next one is
queued under `condition`, in which case the retired one counts as
superseded, and otherwise it is final. -/
theorem retire {condition : Prop} {j : RunnerJob} {id : Uid} {t : Time} (j' : RunnerJob)
    (h : Attempts maxAttempts db) (hret : Retried base db' condition (retryOf id t j))
    (hj : j ∈ db.jobs) (ha : j.status.IsActive)
    (hjobs : base.jobs = db.jobs.update j') (hid : j'.id = j.id)
    (hsub : j'.submissionId = j.submissionId) (hatt : j'.attempt = j.attempt)
    (hsubs : base.submissions = db.submissions)
    (hkeep : ∀ e ∈ db.evaluations, e ∈ base.evaluations)
    (hnew : ∀ e ∈ base.evaluations, e ∈ db.evaluations ∨ e.jobId = j.id)
    (hrepeat : condition →
      Superseded base.evaluations j' ∧ (j.attempt : ℤ) < maxAttempts)
    (hfinal : ¬condition → Judged base.evaluations j' ∨ maxAttempts ≤ j.attempt) :
    Attempts maxAttempts db' := by
  obtain ⟨hchain, hj', hfree, hsup, hconc⟩ :=
    h.retired j' hj ha hjobs hid hsub hatt hsubs hkeep hnew
  by_cases hc : condition
  · have hmem : ∀ x, x ∈ db'.jobs ↔ x ∈ base.jobs ∨ x = retryOf id t j := fun x => by
      rw [hret.mem_jobs]
      simp [hc]
    have hev : db'.evaluations = base.evaluations := by rw [hret.frame]
    have hsubs' : db'.submissions = base.submissions := by rw [hret.frame]
    have htaken : ∀ {sub n}, db'.AttemptTaken sub n ↔ base.AttemptTaken sub n
        ∨ (j'.submissionId = sub ∧ j'.attempt + 1 = n) := by
      rw [hsub, hatt]
      exact attemptTaken_insert hmem
    have hchain' : Chained maxAttempts db' := by
      refine hchain.insert hmem (fun x hx => hsubs' ▸ hx) (fun x hx => Or.inl (hsubs' ▸ hx))
        ?_ ?_ ?_ fun _ => ?_
      · obtain ⟨s, hs, hsj⟩ := hchain.submitted j' hj'
        exact ⟨s, hsubs' ▸ hs, hsj.trans hsub⟩
      · rwa [hsub, hatt] at hfree
      · have hlt := (hrepeat hc).2
        simp only [retryOf]
        omega
      · simp only [retryOf, Nat.add_sub_cancel, ← hsub, ← hatt]
        exact attemptTaken_of_mem hj'
    refine ⟨hchain', fun x hx hnext => ?_, fun x hx hterm hnext => ?_⟩ <;> rw [hev]
    · rcases htaken.mp hnext with hnext | ⟨hs, hn⟩
      · rcases (hmem x).mp hx with hx | rfl
        · exact hsup x hx hnext
        · obtain ⟨y, hy, hys, hyn⟩ := hnext
          have hprev := hchain.previous y hy (by simp only [retryOf] at hyn; omega)
          rw [hys, hyn, Nat.add_sub_cancel] at hprev
          rw [hsub, hatt] at hfree
          exact absurd hprev hfree
      · obtain rfl := hchain'.unique x hx j' ((hmem j').mpr (Or.inl hj')) hs.symm (by omega)
        exact (hrepeat hc).1
    · rcases (hmem x).mp hx with hx | rfl
      · refine hconc x hx (fun hxj => hnext (htaken.mpr (Or.inr ⟨?_, ?_⟩))) hterm
          fun htk => hnext (htaken.mpr (Or.inl htk))
        · rw [hxj]
        · rw [hxj]
      · exact absurd rfl hterm.ne_queued
  · obtain rfl : db' = base := hret.elim (fun h => absurd h.1 hc) (·.2)
    refine ⟨hchain, hsup, fun x hx hterm hnext => ?_⟩
    by_cases hxj : x = j'
    · exact hxj ▸ hatt ▸ hfinal hc
    · exact hconc x hx hxj hterm hnext

theorem change {cfg : Config} {c c' : Time} {kind : ChangeKind}
    (hch : Change cfg c c' kind db db') (hcons : Consistent db) (h : Attempts cfg.maxAttempts db) :
    Attempts cfg.maxAttempts db' := by
  cases hch with
  | enqueue hsub hjob =>
      obtain ⟨ts, hts, rfl⟩ := Database.insertSubmission_eq hsub
      obtain ⟨hfree, -, t, ht, rfl⟩ := Database.insertJob_eq hjob
      exact h.enqueue (fun x => Table.mem_insert? hts) (fun x => Table.mem_insert? ht) rfl rfl rfl
        hfree rfl
  | register _ => exact h.of_eq rfl rfl rfl
  | report _ _ => exact h.of_eq rfl rfl rfl
  | @claim _ env w j _ _ _ _ hj hq =>
      refine h.advance (claimRows cfg env j w).1 hj ?_ ?_ rfl rfl rfl rfl rfl rfl
      · simp [hq, JobStatus.IsTerminal]
      · simp [claimRows, JobStatus.IsTerminal]
  | @renew _ env w j event e _ _ hj _ ha _ _ =>
      refine h.advance (heartbeatRows cfg env j w event).1 hj ha.not_terminal ?_ rfl rfl rfl rfl
        rfl rfl
      simp [heartbeatRows, JobStatus.IsTerminal]
  | @finish _ _ env w j problem data e evs _ _ hj _ ha _ _ _ _ hins hret =>
      have hmem : ∀ x, x ∈ evs ↔ x ∈ db.evaluations ∨ x = evaluationRow env w j problem data :=
        fun x => Table.mem_insert? hins
      have hrow : evaluationRow env w j problem data ∈ evs := (hmem _).mpr (Or.inr rfl)
      refine h.retire (finishedRow env j data) hret hj ha rfl rfl rfl rfl rfl
        (fun x hx => (hmem x).mpr (Or.inl hx))
        (fun x hx => ((hmem x).mp hx).imp_right fun hxe => by rw [hxe]; rfl) ?_ ?_
      · rintro ⟨hfail, hlt⟩
        exact ⟨⟨finishedRow_terminal, Or.inr ⟨_, hrow, rfl, hfail⟩⟩, hlt⟩
      · intro hc
        by_cases hfail : data.failureType = some .infrastructureFailure
        · exact Or.inr (not_lt.mp fun hlt => hc ⟨hfail, hlt⟩)
        · exact Or.inl ⟨_, hrow, rfl, hfail⟩
  | @expire _ _ j e t₀ t₁ t₂ id _ _ _ _ hj ha _ _ hret =>
      refine h.retire (expiredRow cfg t₁ j) hret hj ha rfl rfl rfl rfl rfl (fun _ hx => hx)
        (fun _ hx => Or.inl hx) ?_ ?_
      · intro hlt
        refine ⟨⟨expiredRow_terminal, Or.inl ⟨?_, rfl, ?_⟩⟩, hlt⟩
        · exact if_neg (not_le.mpr hlt)
        · exact hcons.recorded.not_evaluated (j := j) hj ha
      · exact fun hlt => Or.inr (not_lt.mp hlt)
  | offline _ _ _ _ _ => exact h.of_eq rfl rfl rfl

end Attempts

/-- **Attempts of every reachable database.** -/
theorem reachable_attempts {cfg : Config} {s : State} (hs : (controlPlane cfg).Reachable s) :
    Attempts cfg.maxAttempts s.db := by
  refine hs.rec_on (P := fun s => Attempts cfg.maxAttempts s.db) (fun _ h => Attempts.fresh h) ?_
  intro s call t hr h hstep
  have hboth := step_preserves (P := fun d => Consistent d ∧ Attempts cfg.maxAttempts d)
    (fun hch hd => ⟨Consistent.change hch hd.1, Attempts.change hch hd.1 hd.2⟩) hstep
    ⟨reachable_consistent hr, h⟩
  exact hboth.2

/-! ## Retries never collide -/

/-- The identifiers a request draws are new. -/
structure Env.Draws (env : Env) (db : Database) : Prop where
  injective : Function.Injective env.fresh
  jobs : ∀ j ∈ db.jobs, ∀ i, j.id ≠ env.fresh i
  evaluations : ∀ e ∈ db.evaluations, ∀ i, e.id ≠ env.fresh i

/-- The retry of a retired attempt can be inserted. -/
theorem retryIf_ne_integrityError {maxAttempts : ℤ} {db base : Database} {condition : Prop}
    [Decidable condition] {j : RunnerJob} {id : Uid} {t : Time} (j' : RunnerJob)
    (h : Attempts maxAttempts db) (hj : j ∈ db.jobs) (ha : j.status.IsActive)
    (hjobs : base.jobs = db.jobs.update j') (hid : j'.id = j.id)
    (hsub : j'.submissionId = j.submissionId) (hatt : j'.attempt = j.attempt)
    (hsubs : base.submissions = db.submissions) (hfresh : ∀ x ∈ db.jobs, x.id ≠ id) :
    retryIf condition base (retryOf id t j) ≠ .error integrityError := by
  have hfree : ¬base.AttemptTaken j.submissionId (j.attempt + 1) := by
    rw [attemptTaken_replace j' hj hjobs hid hsub hatt]
    exact h.no_successor hj ha.not_terminal
  have hnew : ∀ x ∈ base.jobs, x.id ≠ id := by
    intro x hx
    rcases (Table.mem_update j' hj hid).mp (hjobs ▸ hx) with rfl | ⟨hx, -⟩
    · exact hid ▸ hfresh j hj
    · exact hfresh x hx
  obtain ⟨db', hdb'⟩ := Database.insertJob_isSome (j := retryOf id t j) hfree
    (hsubs ▸ h.submitted j hj) hnew
  unfold retryIf
  rw [hdb']
  split <;> exact fun h => by cases h

theorem Env.committed_ne_integrityError {α : Type} {env : Env} {a : α} :
    env.committed a ≠ .error integrityError := by
  unfold Env.committed
  split
  · exact fun h => by cases h
  · simp [internalError, integrityError]

/-- The reaper never violates a constraint. -/
theorem reapJobs_ne_integrityError {cfg : Config} {env : Env} {c c' : Time} {db : Database}
    (ht : Timed env c c') (hcons : Consistent db) (h : Attempts cfg.maxAttempts db)
    (hdraws : env.Draws db) : reapJobs cfg env db ≠ .error integrityError := by
  -- Along the batch, the identifiers of the jobs still to expire stay unused.
  let P : List (RunnerJob × ℕ) → Database → Prop := fun rest d =>
    Batch env rest d ∧ Consistent d ∧ Attempts cfg.maxAttempts d
      ∧ (rest.map Prod.snd).Nodup ∧ ∀ x ∈ d.jobs, ∀ p ∈ rest, x.id ≠ env.fresh p.2
  have hfold : (expiredJobs db env.skipped (env.tick 0)).zipIdx.foldlM
      (expireJob cfg env (expiredJobs db env.skipped (env.tick 0)).length) db
        ≠ .error integrityError := by
    refine foldlM_ne_error (P := P) ?_ ?_ ⟨.init, hcons, h, ?_, ?_⟩
    · rintro ⟨j, i⟩ rest d d' ⟨hbatch, hcons, h, hnodup, hnew⟩ hstep
      have hch := expireJob_change ht hbatch hstep
      obtain ⟨hi, hnodup'⟩ := List.nodup_cons.mp hnodup
      refine ⟨hbatch.step hstep, hcons.change hch, h.change hch hcons, hnodup', ?_⟩
      intro x hx p hp
      have hold : ∀ y ∈ d.jobs, y.id ≠ env.fresh p.2 := fun y hy =>
        hnew y hy p (List.mem_cons_of_mem _ hp)
      rcases (expireJob_ok hstep).mem_jobs.mp hx with hx | ⟨-, rfl⟩
      · obtain ⟨hj, -⟩ := hbatch.jobs (j, i) (List.mem_cons_self ..)
        rcases (Table.mem_update (expiredRow cfg _ j) hj rfl).mp hx with rfl | ⟨hx, -⟩
        · exact hold j hj
        · exact hold x hx
      · exact fun heq => hi (List.mem_map.mpr ⟨p, hp, (hdraws.injective heq).symm⟩)
    · rintro ⟨j, i⟩ rest d ⟨hbatch, -, h, -, hnew⟩
      obtain ⟨hj, ha, -⟩ := hbatch.jobs (j, i) (List.mem_cons_self ..)
      exact retryIf_ne_integrityError (expiredRow cfg _ j) h hj ha rfl rfl rfl rfl rfl
        fun x hx => hnew x hx (j, i) (List.mem_cons_self ..)
    · rw [List.zipIdx_map_snd]
      exact List.nodup_range'
    · exact fun x hx p _ => hdraws.jobs x hx p.2
  intro herr
  rcases error_of_bind herr with herr | ⟨d, -, herr⟩
  · exact hfold herr
  · exact Env.committed_ne_integrityError herr

/-- Recording a result never violates a constraint. -/
theorem recordResult_ne_integrityError {cfg : Config} {env : Env} {db : Database} {w : Worker}
    {jobId : Uid} {data : ResultInput} {j : RunnerJob} {problem : ProblemVersion}
    (h : Attempts cfg.maxAttempts db) (hdraws : env.Draws db)
    (htarget : resultTarget env db w jobId data = .ok (.inr (j, problem))) :
    recordResult cfg env db w j problem data ≠ .error integrityError := by
  obtain ⟨hj, -, -, -, hfree, ha, -⟩ := resultTarget_ok htarget
  obtain ⟨db₁, hins⟩ := Database.insertEvaluation_isSome
    (e := evaluationRow env w j problem data) hfree fun e he => hdraws.evaluations e he 0
  obtain ⟨-, evs, -, rfl⟩ := Database.insertEvaluation_eq hins
  intro herr
  rcases error_of_bind herr with herr | ⟨db₁, hdb₁, herr⟩
  · rw [hins] at herr
    cases herr
  · obtain rfl := Option.some.inj (hins.symm.trans (ok_of_inserted hdb₁))
    rcases error_of_bind herr with herr | ⟨db₂, -, herr⟩
    · refine retryIf_ne_integrityError (finishedRow env j data) h hj ha ?_ rfl rfl rfl ?_
        (fun x hx => hdraws.jobs x hx 1) herr
      · rfl
      · rfl
    · exact Env.committed_ne_integrityError herr

/-! ## The history of a submission -/

/-- A downward closed set of positive numbers with an upper bound is an
initial segment. -/
theorem exists_initial_segment {A : ℕ → Prop} {b : ℕ} (hone : A 1) (hpos : ∀ k, A k → 1 ≤ k)
    (hbound : ∀ k, A k → k ≤ b) (hdown : ∀ k, 1 < k → A k → A (k - 1)) :
    ∃ n, 1 ≤ n ∧ n ≤ b ∧ ∀ k, A k ↔ 1 ≤ k ∧ k ≤ n := by
  classical
  have hgreatest : A (Nat.findGreatest A b) := Nat.findGreatest_spec (hbound 1 hone) hone
  have hbelow : ∀ d k, A k → d < k → A (k - d) := by
    intro d
    induction d with
    | zero => exact fun k hk _ => hk
    | succ d ih =>
        intro k hk hlt
        have hprev := hdown (k - d) (by omega) (ih k hk (by omega))
        rwa [Nat.sub_sub] at hprev
  refine ⟨Nat.findGreatest A b, hpos _ hgreatest, Nat.findGreatest_le b, fun k =>
    ⟨fun hk => ?_, ?_⟩⟩
  · exact ⟨hpos k hk, Nat.le_findGreatest (hbound k hk) hk⟩
  · rintro ⟨hk1, hkn⟩
    have h := hbelow (Nat.findGreatest A b - k) _ hgreatest (by omega)
    rwa [Nat.sub_sub_self hkn] at h

/-- The jobs of one submission after `n` attempts. -/
structure AttemptHistory (maxAttempts : ℤ) (db : Database) (sub : Uid) (n : ℕ) : Prop where
  /-- The attempts are exactly `1..n`. -/
  numbers : ∀ k, db.AttemptTaken sub k ↔ 1 ≤ k ∧ k ≤ n
  /-- Each of them is one job. -/
  unique : ∀ j ∈ db.jobs, ∀ k ∈ db.jobs, j.submissionId = sub → k.submissionId = sub →
    j.attempt = k.attempt → j = k
  nonempty : 1 ≤ n
  limit : (n : ℤ) ≤ max 1 maxAttempts
  /-- Every attempt before the last is terminal, for one of two reasons. -/
  superseded : ∀ j ∈ db.jobs, j.submissionId = sub → j.attempt < n →
    Superseded db.evaluations j
  /-- A terminal last attempt is a verdict, or the limit is reached. -/
  concluded : ∀ j ∈ db.jobs, j.submissionId = sub → j.attempt = n → j.status.IsTerminal →
    Judged db.evaluations j ∨ maxAttempts ≤ n
  /-- There are never two live attempts. -/
  live : ∀ j ∈ db.jobs, ∀ k ∈ db.jobs, j.submissionId = sub → k.submissionId = sub →
    ¬j.status.IsTerminal → ¬k.status.IsTerminal → j = k

theorem Attempts.history {maxAttempts : ℤ} {db : Database} (h : Attempts maxAttempts db)
    {s : Submission} (hs : s ∈ db.submissions) : ∃ n, AttemptHistory maxAttempts db s.id n := by
  obtain ⟨n, hn, hnb, hnumbers⟩ :=
    exists_initial_segment (A := db.AttemptTaken s.id) (b := (max 1 maxAttempts).toNat)
      (h.first s hs)
      (fun k ⟨j, hj, _, hk⟩ => hk ▸ (h.bounds j hj).1)
      (fun k ⟨j, hj, _, hk⟩ => by
        have hlimit := (h.bounds j hj).2
        omega)
      (fun k hk ⟨j, hj, hjs, hjk⟩ => hjs ▸ hjk ▸ h.previous j hj (hjk ▸ hk))
  have hbefore : ∀ j ∈ db.jobs, j.submissionId = s.id → j.attempt < n →
      Superseded db.evaluations j := fun j hj hjs hlt =>
    h.superseded j hj (hjs ▸ (hnumbers _).mpr ⟨by omega, hlt⟩)
  have hlast : ∀ j ∈ db.jobs, j.submissionId = s.id → j.attempt ≤ n := fun j hj hjs =>
    ((hnumbers _).mp ⟨j, hj, hjs, rfl⟩).2
  have hlive : ∀ j ∈ db.jobs, j.submissionId = s.id → ¬j.status.IsTerminal → j.attempt = n :=
    fun j hj hjs hterm => (hlast j hj hjs).eq_or_lt.resolve_right fun hlt =>
      hterm (hbefore j hj hjs hlt).1
  refine ⟨n, hnumbers, fun j hj k hk hjs hks => h.unique j hj k hk (hjs.trans hks.symm), hn,
    by omega, hbefore, fun j hj hjs hjn hterm => ?_, fun j hj k hk hjs hks hjt hkt => ?_⟩
  · rw [← hjn]
    refine h.concluded j hj hterm fun htaken => ?_
    have hle := ((hnumbers _).mp (hjs ▸ htaken)).2
    omega
  · exact h.unique j hj k hk (hjs.trans hks.symm)
      ((hlive j hj hjs hjt).trans (hlive k hk hks hkt).symm)

/-- A live attempt is the last one of its submission. -/
theorem Attempts.last {maxAttempts : ℤ} {db : Database} (h : Attempts maxAttempts db)
    {j k : RunnerJob} (hj : j ∈ db.jobs) (hlive : ¬j.status.IsTerminal) (hk : k ∈ db.jobs)
    (hsub : k.submissionId = j.submissionId) : k.attempt ≤ j.attempt := by
  obtain ⟨s, hs, hsj⟩ := h.submitted j hj
  obtain ⟨n, hhist⟩ := h.history hs
  have hkn := ((hhist.numbers _).mp ⟨k, hk, hsub.trans hsj.symm, rfl⟩).2
  refine hkn.trans (not_lt.mp fun hlt => hlive ?_)
  exact (hhist.superseded j hj hsj.symm hlt).1

/-- **Attempt accounting.** In every reachable state each submission has the
attempts `1..n` of an `AttemptHistory`, no job is without its submission, and
neither the reaper nor a result violates a constraint by queueing a retry. -/
theorem submission_attempts {cfg : Config} {s : State} (hs : (controlPlane cfg).Reachable s) :
    (∀ sub ∈ s.db.submissions, ∃ n, AttemptHistory cfg.maxAttempts s.db sub.id n)
      ∧ (∀ j ∈ s.db.jobs, ∃ sub ∈ s.db.submissions, sub.id = j.submissionId)
      ∧ (∀ env c', Timed env s.clock c' → env.Draws s.db →
          reapJobs cfg env s.db ≠ .error integrityError)
      ∧ ∀ env w jobId data j problem, env.Draws s.db →
          resultTarget env s.db w jobId data = .ok (.inr (j, problem)) →
          recordResult cfg env s.db w j problem data ≠ .error integrityError := by
  have h := reachable_attempts hs
  refine ⟨fun sub hsub => h.history hsub, h.submitted, fun env c' ht hdraws => ?_,
    fun env w jobId data j problem hdraws htarget => ?_⟩
  · exact reapJobs_ne_integrityError ht (reachable_consistent hs) h hdraws
  · exact recordResult_ne_integrityError h hdraws htarget

/-- After the lease of the only job has expired, its submission is at
attempt 2. -/
theorem submission_attempts_expired :
    let s := (replay Sample.config Sample.start
      (Sample.claimed ++ [⟨.reapJobs, 200, 40, Sample.token⟩])).1
    (s.db.jobs.rows.map fun j => (j.submissionId, j.attempt, j.status))
        = [(20, 1, .timeout), (20, 2, .queued)]
      ∧ ∀ sub ∈ s.db.submissions, ∃ n, AttemptHistory 3 s.db sub.id n :=
  ⟨by decide +kernel, (submission_attempts (replay_reachable (by decide) (by decide))).1⟩

end AgentBenchX
