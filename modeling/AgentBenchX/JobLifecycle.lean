import Mathlib.Tactic.Linarith
import AgentBenchX.ControlPlane

/-!
# The life of a job

How a job row moves through a run, and what its columns say at every
point of it. Rows only ever move forward (`RunnerJob.Evolves`): nothing
leads back to `QUEUED`, the owner and the lease token are written once,
and a terminal row never changes again. Along the way three facts hold
of every committed database:

* `Ownership`: a queued job has no owner, every other job has one, with a
  token and an expiry, and a worker owns at most one active job;
* `Recorded`: an evaluation belongs to a terminal job and agrees with
  it, and no job has two;
* `Leased`: no lease reaches further than `lease_seconds` past the
  clock.

Each is proved once per change and lifted to runs by the rules of
`Transition`. `Change.jobs` says once what a change does to the job
rows.
-/

namespace AgentBenchX

/-! ## Rows move forward -/

/-- What stays of a job row when time passes: its identity, an owner and a
token once written, a terminal row as a whole; and no way back to the
queue. -/
structure RunnerJob.Evolves (j j' : RunnerJob) : Prop where
  id : j'.id = j.id
  submission : j'.submissionId = j.submissionId
  attempt : j'.attempt = j.attempt
  worker : ∀ w, j.workerId = some w → j'.workerId = some w
  token : ∀ t, j.leaseToken = some t → j'.leaseToken = some t
  queued : j'.status = .queued → j' = j
  active : j'.status.IsActive → j.status.IsActive ∨ j.status = .queued
  terminal : j.status.IsTerminal → j' = j

namespace RunnerJob.Evolves

theorem refl (j : RunnerJob) : j.Evolves j :=
  ⟨rfl, rfl, rfl, fun _ h => h, fun _ h => h, fun _ => rfl, Or.inl, fun _ => rfl⟩

theorem trans {j k l : RunnerJob} (h : j.Evolves k) (h' : k.Evolves l) : j.Evolves l where
  id := h'.id.trans h.id
  submission := h'.submission.trans h.submission
  attempt := h'.attempt.trans h.attempt
  worker w hw := h'.worker w (h.worker w hw)
  token t ht := h'.token t (h.token t ht)
  queued hq := by
    have hlk := h'.queued hq
    exact hlk.trans (h.queued (hlk ▸ hq))
  active ha := by
    rcases h'.active ha with hk | hk
    · exact h.active hk
    · exact Or.inr (h.queued hk ▸ hk)
  terminal ht := by
    have hkj := h.terminal ht
    exact (h'.terminal (hkj ▸ ht)).trans hkj

end RunnerJob.Evolves

/-- Every job row survives in an evolved form, and submissions and
evaluations are only ever added. -/
structure Database.Evolves (db db' : Database) : Prop where
  jobs : ∀ j ∈ db.jobs, ∃ j' ∈ db'.jobs, j.Evolves j'
  evaluations : ∀ e ∈ db.evaluations, e ∈ db'.evaluations
  submissions : ∀ s ∈ db.submissions, s ∈ db'.submissions

namespace Database.Evolves

theorem refl (db : Database) : db.Evolves db :=
  ⟨fun j hj => ⟨j, hj, .refl j⟩, fun _ h => h, fun _ h => h⟩

theorem trans {a b c : Database} (h : a.Evolves b) (h' : b.Evolves c) : a.Evolves c where
  jobs j hj := by
    obtain ⟨k, hk, hjk⟩ := h.jobs j hj
    obtain ⟨l, hl, hkl⟩ := h'.jobs k hk
    exact ⟨l, hl, hjk.trans hkl⟩
  evaluations e he := h'.evaluations e (h.evaluations e he)
  submissions s hs := h'.submissions s (h.submissions s hs)

end Database.Evolves

/-! ## The rows each change writes -/

section Rows

variable {cfg : Config} {env : Env} {j : RunnerJob} {w : Worker}

theorem claimRows_evolves (hq : j.status = .queued) (hw : j.workerId = none)
    (ht : j.leaseToken = none) : j.Evolves (claimRows cfg env j w).1 where
  id := rfl
  submission := rfl
  attempt := rfl
  worker v hv := by simp [hw] at hv
  token t h := by simp [ht] at h
  queued h := by simp [claimRows] at h
  active _ := Or.inr hq
  terminal h := absurd hq h.ne_queued

theorem heartbeatRows_evolves {event : JobEvent} (ha : j.status.IsActive) :
    j.Evolves (heartbeatRows cfg env j w event).1 where
  id := rfl
  submission := rfl
  attempt := rfl
  worker _ h := h
  token _ h := h
  queued h := by simp [heartbeatRows] at h
  active _ := Or.inl ha
  terminal h := absurd h ha.not_terminal

theorem finishedRow_terminal {data : ResultInput} :
    (finishedRow env j data).status.IsTerminal :=
  data.status.toJobStatus_isTerminal

theorem expiredRow_terminal {t : Time} : (expiredRow cfg t j).status.IsTerminal := by
  simp only [expiredRow]
  split <;> simp [JobStatus.IsTerminal]

/-- A row that is retired keeps every column an active row has to keep. -/
theorem retired_evolves {j' : RunnerJob} (ha : j.status.IsActive)
    (hterm : j'.status.IsTerminal) (hid : j'.id = j.id)
    (hsub : j'.submissionId = j.submissionId) (hatt : j'.attempt = j.attempt)
    (hw : j'.workerId = j.workerId) (ht : j'.leaseToken = j.leaseToken) : j.Evolves j' where
  id := hid
  submission := hsub
  attempt := hatt
  worker _ hv := hw.trans hv
  token _ h := ht.trans h
  queued h := absurd h hterm.ne_queued
  active h := absurd hterm h.not_terminal
  terminal h := absurd h ha.not_terminal

theorem finishedRow_evolves {data : ResultInput} (ha : j.status.IsActive) :
    j.Evolves (finishedRow env j data) :=
  retired_evolves ha finishedRow_terminal rfl rfl rfl rfl rfl

theorem expiredRow_evolves {t : Time} (ha : j.status.IsActive) :
    j.Evolves (expiredRow cfg t j) :=
  retired_evolves ha expiredRow_terminal rfl rfl rfl rfl rfl

end Rows

/-! ## Ownership -/

/-- The ownership columns agree with the status. -/
structure RunnerJob.WellOwned (j : RunnerJob) : Prop where
  queued : j.status = .queued →
    j.workerId = none ∧ j.leaseToken = none ∧ j.leaseExpiresAt = none
  owned : j.status ≠ .queued →
    (∃ w, j.workerId = some w) ∧ (∃ t, j.leaseToken = some t) ∧ ∃ e, j.leaseExpiresAt = some e

/-- A row that was never queued keeps its owner's columns filled. -/
theorem RunnerJob.WellOwned.retire {j j' : RunnerJob} (h : j.WellOwned)
    (ha : j.status.IsActive) (hterm : j'.status ≠ .queued) (hw : j'.workerId = j.workerId)
    (ht : j'.leaseToken = j.leaseToken) (he : j'.leaseExpiresAt = j.leaseExpiresAt) :
    j'.WellOwned where
  queued hq := absurd hq hterm
  owned _ := by
    rw [hw, ht, he]
    exact h.owned ha.ne_queued

theorem wellOwned_of_queued {j : RunnerJob} (hq : j.status = .queued) (hw : j.workerId = none)
    (ht : j.leaseToken = none) (he : j.leaseExpiresAt = none) : j.WellOwned :=
  ⟨fun _ => ⟨hw, ht, he⟩, fun h => absurd hq h⟩

/-- Rows are well owned, and a worker owns at most one active job. -/
structure Ownership (db : Database) : Prop where
  rows : ∀ j ∈ db.jobs, j.WellOwned
  single : ∀ j ∈ db.jobs, ∀ k ∈ db.jobs, j.status.IsActive → k.status.IsActive →
    j.workerId = k.workerId → j = k

namespace Ownership

variable {cfg : Config} {c c' : Time} {kind : ChangeKind} {db db' : Database}

/-- A new row that is not active cannot be anybody's second active job. -/
theorem insert {j : RunnerJob} (h : Ownership db) (hmem : ∀ x, x ∈ db'.jobs ↔ x ∈ db.jobs ∨ x = j)
    (hj : j.WellOwned) (hna : ¬j.status.IsActive) : Ownership db' where
  rows x hx := by
    rcases (hmem x).mp hx with hx | rfl
    · exact h.rows x hx
    · exact hj
  single x hx y hy hax hay hw := by
    rcases (hmem x).mp hx with hx | rfl
    · rcases (hmem y).mp hy with hy | rfl
      · exact h.single x hx y hy hax hay hw
      · exact absurd hay hna
    · exact absurd hax hna

/-- Replacing an active row by one with the same owner keeps ownership. -/
theorem replace {j : RunnerJob} (j' : RunnerJob) (h : Ownership db) (hj : j ∈ db.jobs)
    (ha : j.status.IsActive) (hjobs : db'.jobs = db.jobs.update j') (hid : j'.id = j.id)
    (hj' : j'.WellOwned) (hw : j'.workerId = j.workerId) : Ownership db' where
  rows x hx := by
    rcases (Table.mem_update j' hj hid).mp (hjobs ▸ hx) with rfl | ⟨hx, -⟩
    · exact hj'
    · exact h.rows x hx
  single x hx y hy hax hay hxy := by
    have hmem := @Table.mem_update _ _ _ _ db.jobs j j' hj hid
    rw [hjobs] at hx hy
    rcases hmem.mp hx with rfl | ⟨hx', hxj⟩
    · rcases hmem.mp hy with rfl | ⟨hy', hyj⟩
      · rfl
      · exact absurd (h.single j hj y hy' ha hay (hw ▸ hxy)) (Ne.symm hyj)
    · rcases hmem.mp hy with rfl | ⟨hy', hyj⟩
      · exact absurd (h.single x hx' j hj hax ha (hxy.trans hw)) hxj
      · exact h.single x hx' y hy' hax hay hxy

/-- Giving a queued job to a worker without an active one keeps ownership. -/
theorem assign {j : RunnerJob} (j' : RunnerJob) {w : Uid} (h : Ownership db)
    (hfree : ∀ x ∈ db.jobs, x.workerId = some w → ¬x.status.IsActive)
    (hj : j ∈ db.jobs) (hjobs : db'.jobs = db.jobs.update j') (hid : j'.id = j.id)
    (hj' : j'.WellOwned) (hw : j'.workerId = some w) : Ownership db' where
  rows x hx := by
    rcases (Table.mem_update j' hj hid).mp (hjobs ▸ hx) with rfl | ⟨hx, -⟩
    · exact hj'
    · exact h.rows x hx
  single x hx y hy hax hay hxy := by
    have hmem := @Table.mem_update _ _ _ _ db.jobs j j' hj hid
    rw [hjobs] at hx hy
    rcases hmem.mp hx with rfl | ⟨hx', -⟩
    · rcases hmem.mp hy with rfl | ⟨hy', -⟩
      · rfl
      · exact absurd hay (hfree y hy' (hxy.symm.trans hw))
    · rcases hmem.mp hy with rfl | ⟨hy', -⟩
      · exact absurd hax (hfree x hx' (hxy.trans hw))
      · exact h.single x hx' y hy' hax hay hxy

theorem of_jobs_eq (h : Ownership db) (heq : db'.jobs = db.jobs) : Ownership db' :=
  ⟨heq ▸ h.rows, heq ▸ h.single⟩

/-- Retiring an active row and queueing a retry keeps ownership. -/
theorem retire {base : Database} {condition : Prop} {j retry : RunnerJob} (j' : RunnerJob)
    (h : Ownership db)
    (hj : j ∈ db.jobs) (ha : j.status.IsActive)
    (hjobs : base.jobs = db.jobs.update j') (hid : j'.id = j.id)
    (hj' : j'.WellOwned) (hw : j'.workerId = j.workerId)
    (hret : Retried base db' condition retry) (hretry : retry.WellOwned)
    (hna : ¬retry.status.IsActive) : Ownership db' := by
  have hbase : Ownership base := h.replace j' hj ha hjobs hid hj' hw
  by_cases hc : condition
  · exact hbase.insert (fun x => hret.mem_jobs.trans (by simp [hc])) hretry hna
  · have heq : db' = base := hret.elim (fun h => absurd h.1 hc) (·.2)
    exact heq ▸ hbase

theorem change (hch : Change cfg c c' kind db db') (h : Ownership db) : Ownership db' := by
  cases hch with
  | enqueue hsub hjob =>
      obtain ⟨ts, -, rfl⟩ := Database.insertSubmission_eq hsub
      obtain ⟨-, -, t, ht, rfl⟩ := Database.insertJob_eq hjob
      exact h.insert (fun x => Table.mem_insert? ht) (wellOwned_of_queued rfl rfl rfl rfl)
        (by simp [JobStatus.IsActive])
  | register _ => exact h.of_jobs_eq rfl
  | report _ _ => exact h.of_jobs_eq rfl
  | @claim _ env w j _ _ _ hfree hj hq =>
      exact h.assign (claimRows cfg env j w).1 (Database.activeJob_eq_none.mp hfree) hj
        rfl rfl
        ⟨fun hq' => by simp [claimRows] at hq', fun _ => ⟨⟨_, rfl⟩, ⟨_, rfl⟩, ⟨_, rfl⟩⟩⟩ rfl
  | @renew _ env w j event e _ _ hj hw ha _ _ =>
      obtain ⟨hworker, htoken, -⟩ := (h.rows _ hj).owned ha.ne_queued
      exact h.replace (heartbeatRows cfg env j w event).1 hj ha rfl rfl
        ⟨fun hq => by simp [heartbeatRows] at hq, fun _ => ⟨hworker, htoken, ⟨_, rfl⟩⟩⟩ rfl
  | @finish _ _ env w j problem data e evs _ _ hj _ ha _ _ _ _ _ hret =>
      exact h.retire (finishedRow env j data) hj ha rfl rfl
        ((h.rows _ hj).retire ha finishedRow_terminal.ne_queued rfl rfl rfl) rfl hret
        (wellOwned_of_queued rfl rfl rfl rfl) (by simp [retryOf, JobStatus.IsActive])
  | @expire _ _ j e t₀ t₁ t₂ id _ _ _ _ hj ha _ _ hret =>
      exact h.retire (expiredRow cfg t₁ j) hj ha rfl rfl
        ((h.rows _ hj).retire ha expiredRow_terminal.ne_queued rfl rfl rfl) rfl hret
        (wellOwned_of_queued rfl rfl rfl rfl) (by simp [retryOf, JobStatus.IsActive])
  | offline _ _ _ _ _ => exact h.of_jobs_eq rfl

theorem fresh (h : db.Fresh) : Ownership db := by
  obtain ⟨-, -, hjobs, -⟩ := h
  exact ⟨fun j hj => by simp [hjobs] at hj, fun j hj => by simp [hjobs] at hj⟩

end Ownership

/-- **Ownership of every reachable database.** -/
theorem reachable_ownership {cfg : Config} {s : State} (hs : (controlPlane cfg).Reachable s) :
    Ownership s.db :=
  hs.rec_on (fun _ h => Ownership.fresh h)
    fun _ _ _ _ h hstep => step_preserves Ownership.change hstep h

/-! ## What a change does to the job rows -/

/-- The four ways a job row is rewritten between the clock times `c` and
`c'`. -/
inductive RowChange (cfg : Config) (c c' : Time) (j : RunnerJob) :
    ChangeKind → RunnerJob → Prop
  | claim {env : Env} {w : Worker} :
      Timed env c c' → j.status = .queued → RowChange cfg c c' j .claim (claimRows cfg env j w).1
  | renew {env : Env} {w : Worker} {event : JobEvent} {e : Time} :
      Timed env c c' → j.workerId = some w.id → j.status.IsActive →
      j.leaseExpiresAt = some e → env.tick 0 < e →
      RowChange cfg c c' j .renew (heartbeatRows cfg env j w event).1
  | finish {env : Env} {w : Worker} {data : ResultInput} {e : Time} :
      Timed env c c' → j.workerId = some w.id → j.status.IsActive →
      j.leaseExpiresAt = some e → env.tick 2 < e → RowChange cfg c c' j .finish
        (finishedRow env j data)
  | expire {e t₀ t₁ : Time} :
      c ≤ t₀ → t₀ ≤ t₁ → t₁ ≤ c' → j.status.IsActive → j.leaseExpiresAt = some e → e < t₀ →
      RowChange cfg c c' j .expire (expiredRow cfg t₁ j)

theorem RowChange.evolves {cfg : Config} {c c' : Time} {kind : ChangeKind} {j j' : RunnerJob}
    (h : RowChange cfg c c' j kind j') (hj : j.WellOwned) : j.Evolves j' := by
  cases h with
  | claim _ hq =>
      obtain ⟨hw, ht, -⟩ := hj.queued hq
      exact claimRows_evolves hq hw ht
  | renew _ _ ha _ _ => exact heartbeatRows_evolves ha
  | finish _ _ ha _ _ => exact finishedRow_evolves ha
  | expire _ _ _ ha _ _ => exact expiredRow_evolves ha

/-- The job rows of `db'`: those of `db`, at most one of them rewritten, and
new rows in the queue. -/
structure JobsChange (cfg : Config) (c c' : Time) (kind : ChangeKind) (db db' : Database) :
    Prop where
  after : ∀ j ∈ db.jobs, j ∈ db'.jobs ∨ ∃ j' ∈ db'.jobs, RowChange cfg c c' j kind j'
  before : ∀ j' ∈ db'.jobs, j' ∈ db.jobs ∨ (∃ j ∈ db.jobs, RowChange cfg c c' j kind j')
    ∨ (j'.status = .queued ∧ j'.workerId = none ∧ j'.leaseExpiresAt = none)

namespace JobsChange

variable {cfg : Config} {c c' : Time} {kind : ChangeKind} {db db' : Database}

theorem of_eq (h : db'.jobs = db.jobs) : JobsChange cfg c c' kind db db' :=
  ⟨fun _ hj => Or.inl (h ▸ hj), fun _ hj => Or.inl (h ▸ hj)⟩

theorem of_replace {j : RunnerJob} (j' : RunnerJob) (hj : j ∈ db.jobs) (hid : j'.id = j.id)
    (hrow : RowChange cfg c c' j kind j') (hjobs : db'.jobs = db.jobs.update j') :
    JobsChange cfg c c' kind db db' where
  after x hx := by
    rw [hjobs]
    by_cases hxj : x = j
    · exact Or.inr ⟨j', (Table.mem_update j' hj hid).mpr (Or.inl rfl), hxj ▸ hrow⟩
    · exact Or.inl ((Table.mem_update j' hj hid).mpr (Or.inr ⟨hx, hxj⟩))
  before x hx := by
    rcases (Table.mem_update j' hj hid).mp (hjobs ▸ hx) with rfl | ⟨hx, -⟩
    · exact Or.inr (Or.inl ⟨j, hj, hrow⟩)
    · exact Or.inl hx

theorem insert {base : Database} {j : RunnerJob} (h : JobsChange cfg c c' kind db base)
    (hmem : ∀ x, x ∈ db'.jobs → x ∈ base.jobs ∨ x = j) (hkeep : ∀ x ∈ base.jobs, x ∈ db'.jobs)
    (hq : j.status = .queued) (hw : j.workerId = none) (he : j.leaseExpiresAt = none) :
    JobsChange cfg c c' kind db db' where
  after x hx := by
    rcases h.after x hx with hx | ⟨x', hx', hrow⟩
    · exact Or.inl (hkeep x hx)
    · exact Or.inr ⟨x', hkeep x' hx', hrow⟩
  before x hx := by
    rcases hmem x hx with hx | rfl
    · exact h.before x hx
    · exact Or.inr (Or.inr ⟨hq, hw, he⟩)

/-- A row is rewritten, and possibly a retry is queued. -/
theorem of_retire {base : Database} {condition : Prop} {j : RunnerJob} {id : Uid} {t : Time}
    (j' : RunnerJob) (hj : j ∈ db.jobs) (hid : j'.id = j.id) (hrow : RowChange cfg c c' j kind j')
    (hjobs : base.jobs = db.jobs.update j')
    (hret : Retried base db' condition (retryOf id t j)) : JobsChange cfg c c' kind db db' :=
  (of_replace j' hj hid hrow hjobs).insert
    (fun _ hx => (hret.mem_jobs.mp hx).imp_right And.right)
    (fun _ hx => hret.mem_jobs.mpr (Or.inl hx)) rfl rfl rfl

end JobsChange

theorem Change.jobs {cfg : Config} {c c' : Time} {kind : ChangeKind} {db db' : Database}
    (hch : Change cfg c c' kind db db') : JobsChange cfg c c' kind db db' := by
  cases hch with
  | enqueue hsub hjob =>
      obtain ⟨ts, -, rfl⟩ := Database.insertSubmission_eq hsub
      obtain ⟨-, -, t, ht, rfl⟩ := Database.insertJob_eq hjob
      exact (JobsChange.of_eq rfl).insert (fun _ => (Table.mem_insert? ht).mp)
        (fun _ hx => (Table.mem_insert? ht).mpr (Or.inl hx)) rfl rfl rfl
  | register _ => exact .of_eq rfl
  | report _ _ => exact .of_eq rfl
  | @claim _ env w j ht _ _ _ hj hq =>
      exact .of_replace (claimRows cfg env j w).1 hj rfl (.claim ht hq) rfl
  | @renew _ env w j event e ht _ hj hw ha he hlt =>
      exact .of_replace (heartbeatRows cfg env j w event).1 hj rfl (.renew ht hw ha he hlt) rfl
  | @finish _ _ env w j problem data e evs ht _ hj hw ha he hlt _ _ _ hret =>
      exact .of_retire (finishedRow env j data) hj rfl (.finish ht hw ha he hlt) rfl hret
  | @expire _ _ j e t₀ t₁ t₂ id h₀ h₁ h₂ h₃ hj ha he hlt hret =>
      exact .of_retire (expiredRow cfg t₁ j) hj rfl
        (.expire h₀ h₁ (h₂.trans h₃) ha he hlt) rfl hret
  | offline _ _ _ _ _ => exact .of_eq rfl

/-! ## Evolution of the database -/

/-- Submissions and evaluations are only ever added. -/
theorem Change.grows {cfg : Config} {c c' : Time} {kind : ChangeKind} {db db' : Database}
    (hch : Change cfg c c' kind db db') :
    (∀ e ∈ db.evaluations, e ∈ db'.evaluations) ∧ ∀ s ∈ db.submissions, s ∈ db'.submissions := by
  cases hch with
  | enqueue hsub hjob =>
      obtain ⟨ts, hts, rfl⟩ := Database.insertSubmission_eq hsub
      obtain ⟨-, -, t, -, rfl⟩ := Database.insertJob_eq hjob
      exact ⟨fun _ h => h, fun s hs => (Table.mem_insert? hts).mpr (Or.inl hs)⟩
  | finish _ _ _ _ _ _ _ _ _ hev hret =>
      rw [hret.frame]
      exact ⟨fun e he => (Table.mem_insert? hev).mpr (Or.inl he), fun _ h => h⟩
  | expire _ _ _ _ _ _ _ _ hret =>
      rw [hret.frame]
      exact ⟨fun _ h => h, fun _ h => h⟩
  | _ => exact ⟨fun _ h => h, fun _ h => h⟩

/-- A new evaluation is for an active job, recorded before its lease expires. -/
theorem Change.evaluations {cfg : Config} {c c' : Time} {kind : ChangeKind} {db db' : Database}
    (hch : Change cfg c c' kind db db') :
    ∀ ev ∈ db'.evaluations, ev ∈ db.evaluations ∨ (kind = .finish ∧ ∃ j ∈ db.jobs,
      j.id = ev.jobId ∧ j.status.IsActive
        ∧ ∃ e reading, j.leaseExpiresAt = some e ∧ c ≤ reading ∧ reading < e) := by
  intro ev hev
  cases hch with
  | enqueue hsub hjob =>
      obtain ⟨ts, -, rfl⟩ := Database.insertSubmission_eq hsub
      obtain ⟨-, -, t, -, rfl⟩ := Database.insertJob_eq hjob
      exact Or.inl hev
  | @finish _ _ env w j problem data e evs ht _ hj _ ha he hlt _ _ hins hret =>
      rw [hret.frame] at hev
      rcases (Table.mem_insert? hins).mp hev with hev | rfl
      · exact Or.inl hev
      · exact Or.inr ⟨rfl, j, hj, rfl, ha, e, _, he, ht.start_le 2, hlt⟩
  | expire _ _ _ _ _ _ _ _ hret =>
      rw [hret.frame] at hev
      exact Or.inl hev
  | _ => exact Or.inl hev

theorem Change.evolves {cfg : Config} {c c' : Time} {kind : ChangeKind} {db db' : Database}
    (hch : Change cfg c c' kind db db') (hown : Ownership db) : db.Evolves db' where
  jobs j hj := by
    rcases hch.jobs.after j hj with hj' | ⟨j', hj', hrow⟩
    · exact ⟨j, hj', .refl j⟩
    · exact ⟨j', hj', hrow.evolves (hown.rows j hj)⟩
  evaluations := hch.grows.1
  submissions := hch.grows.2

/-! ## Evaluations and their jobs -/

/-- An evaluation belongs to a terminal job and agrees with it, and no job
has two. -/
structure Recorded (db : Database) : Prop where
  job : ∀ e ∈ db.evaluations, ∃ j ∈ db.jobs, j.id = e.jobId ∧ j.status = e.status.toJobStatus
    ∧ j.submissionId = e.submissionId ∧ j.workerId = some e.workerId
    ∧ j.errorMessage = e.failureType.map FailureType.text
  single : ∀ e ∈ db.evaluations, ∀ e' ∈ db.evaluations, e.jobId = e'.jobId → e = e'

namespace Recorded

variable {cfg : Config} {c c' : Time} {kind : ChangeKind} {db db' : Database}

/-- The job of an evaluation is terminal. -/
theorem terminal (h : Recorded db) {e : Evaluation} (he : e ∈ db.evaluations) {j : RunnerJob}
    (hj : j ∈ db.jobs) (hid : j.id = e.jobId) : j.status.IsTerminal := by
  obtain ⟨k, hk, hkid, hstatus, -⟩ := h.job e he
  rw [Table.eq_of_key_eq hj hk (hid.trans hkid.symm), hstatus]
  exact e.status.toJobStatus_isTerminal

theorem not_evaluated (h : Recorded db) {j : RunnerJob} (hj : j ∈ db.jobs)
    (ha : j.status.IsActive) : ∀ e ∈ db.evaluations, e.jobId ≠ j.id :=
  fun _ he heq => ha.not_terminal (h.terminal he hj heq.symm)

/-- Terminal rows never change, so an evaluation keeps agreeing with its
job. -/
theorem of_evolves (h : Recorded db) (hev : db.Evolves db')
    (heq : db'.evaluations = db.evaluations) : Recorded db' where
  job e he := by
    obtain ⟨j, hj, hid, hstatus, hrest⟩ := h.job e (heq ▸ he)
    obtain ⟨j', hj', hjj'⟩ := hev.jobs j hj
    obtain rfl := hjj'.terminal (hstatus ▸ e.status.toJobStatus_isTerminal)
    exact ⟨j', hj', hid, hstatus, hrest⟩
  single e he e' he' := h.single e (heq ▸ he) e' (heq ▸ he')

theorem change (hch : Change cfg c c' kind db db') (hown : Ownership db) (h : Recorded db) :
    Recorded db' := by
  have hev := hch.evolves hown
  cases hch with
  | enqueue hsub hjob =>
      obtain ⟨ts, -, rfl⟩ := Database.insertSubmission_eq hsub
      obtain ⟨-, -, t, -, rfl⟩ := Database.insertJob_eq hjob
      exact h.of_evolves hev rfl
  | register _ => exact h.of_evolves hev rfl
  | report _ _ => exact h.of_evolves hev rfl
  | claim _ _ _ _ _ _ => exact h.of_evolves hev rfl
  | renew _ _ _ _ _ _ _ => exact h.of_evolves hev rfl
  | @finish _ _ env w j problem data e evs _ _ hj hw ha _ _ _ hfree hins hret =>
      have hmem : ∀ x, x ∈ db'.evaluations
          ↔ x ∈ db.evaluations ∨ x = evaluationRow env w j problem data := by
        intro x
        rw [hret.frame]
        exact Table.mem_insert? hins
      refine ⟨fun x hx => ?_, fun x hx y hy hxy => ?_⟩
      · rcases (hmem x).mp hx with hx | rfl
        · obtain ⟨k, hk, hkid, hstatus, hrest⟩ := h.job x hx
          obtain ⟨k', hk', hkk'⟩ := hev.jobs k hk
          obtain rfl := hkk'.terminal (hstatus ▸ x.status.toJobStatus_isTerminal)
          exact ⟨k', hk', hkid, hstatus, hrest⟩
        · refine ⟨finishedRow env j data, hret.mem_jobs.mpr (Or.inl ?_), rfl, rfl, rfl, hw, rfl⟩
          exact (Table.mem_update (finishedRow env j data) hj rfl).mpr (Or.inl rfl)
      · rcases (hmem x).mp hx with hx | rfl <;> rcases (hmem y).mp hy with hy | rfl
        · exact h.single x hx y hy hxy
        · exact absurd hxy (hfree x hx)
        · exact absurd hxy.symm (hfree y hy)
        · rfl
  | expire _ _ _ _ _ _ _ _ hret =>
      exact h.of_evolves hev (by rw [hret.frame])
  | offline _ _ _ _ _ => exact h.of_evolves hev rfl

theorem fresh (h : db.Fresh) : Recorded db := by
  obtain ⟨-, -, -, hev, -⟩ := h
  exact ⟨fun e he => by simp [hev] at he, fun e he => by simp [hev] at he⟩

end Recorded

/-- Both invariants together. -/
structure Consistent (db : Database) : Prop where
  ownership : Ownership db
  recorded : Recorded db

theorem Consistent.change {cfg : Config} {c c' : Time} {kind : ChangeKind} {db db' : Database}
    (hch : Change cfg c c' kind db db') (h : Consistent db) : Consistent db' :=
  ⟨Ownership.change hch h.ownership, Recorded.change hch h.ownership h.recorded⟩

theorem Consistent.fresh {db : Database} (h : db.Fresh) : Consistent db :=
  ⟨Ownership.fresh h, Recorded.fresh h⟩

theorem Consistent.changes {cfg : Config} {c c' : Time} {kind : ChangeKind} {db db' : Database}
    (hch : Changes cfg c c' kind db db') (h : Consistent db) : Consistent db' := by
  induction hch with
  | refl => exact h
  | tail _ hlast ih => exact change hlast ih

/-- **Evaluations agree with their jobs in every reachable database.** -/
theorem reachable_consistent {cfg : Config} {s : State} (hs : (controlPlane cfg).Reachable s) :
    Consistent s.db :=
  hs.rec_on (fun _ h => Consistent.fresh h) fun _ _ _ _ h hstep => h.changes (step_changes hstep)

/-! ## Lease bounds -/

/-- No lease reaches further than `lease_seconds` past the clock `c`. -/
def Leased (cfg : Config) (c : Time) (db : Database) : Prop :=
  ∀ j ∈ db.jobs, ∀ e, j.leaseExpiresAt = some e → e ≤ c + cfg.leaseSeconds

namespace Leased

variable {cfg : Config} {c c' : Time} {kind : ChangeKind} {db db' : Database}

theorem mono (h : Leased cfg c db) (hc : c ≤ c') : Leased cfg c' db :=
  fun j hj e he => (h j hj e he).trans (by linarith)

theorem change (hch : Change cfg c c' kind db db') (h : Leased cfg c' db) : Leased cfg c' db' := by
  intro j' hj' e he
  rcases hch.jobs.before j' hj' with hj | ⟨j, hj, hrow⟩ | ⟨-, -, hnone⟩
  · exact h j' hj e he
  · cases hrow with
    | claim ht _ =>
        obtain rfl := Option.some.inj he
        linarith [ht.le 1]
    | renew ht _ _ _ _ =>
        obtain rfl := Option.some.inj he
        linarith [ht.le 3]
    | finish _ _ _ _ _ => exact h j hj e he
    | expire _ _ _ _ _ _ => exact h j hj e he
  · rw [hnone] at he
    cases he

theorem changes (hch : Changes cfg c c' kind db db') (h : Leased cfg c' db) :
    Leased cfg c' db' := by
  induction hch with
  | refl => exact h
  | tail _ hlast ih => exact change hlast ih

end Leased

/-- **Lease bound of every reachable state.** -/
theorem reachable_leased {cfg : Config} {s : State} (hs : (controlPlane cfg).Reachable s) :
    Leased cfg s.clock s.db := by
  refine hs.rec_on (P := fun s => Leased cfg s.clock s.db) ?_ ?_
  · rintro s ⟨-, -, hjobs, -⟩ j hj
    simp [hjobs] at hj
  · intro s call t _ h hstep
    exact (h.mono (step_clock hstep)).changes (step_changes hstep)

/-! ## Whole runs -/

theorem changes_evolves {cfg : Config} {c c' : Time} {kind : ChangeKind} {db db' : Database}
    (hch : Changes cfg c c' kind db db') (hown : Ownership db) :
    db.Evolves db' ∧ Ownership db' := by
  induction hch with
  | refl => exact ⟨.refl _, hown⟩
  | tail _ hlast ih => exact ⟨ih.1.trans (hlast.evolves ih.2), Ownership.change hlast ih.2⟩

/-- **Rows move forward along every run.** -/
theorem run_evolves {cfg : Config} {s t : State} {tr : List Call}
    (hs : (controlPlane cfg).Reachable s) (h : (controlPlane cfg).Run s tr t) :
    s.db.Evolves t.db :=
  h.relates (R := fun s t => s.db.Evolves t.db) (fun _ => .refl _) (fun h h' => h.trans h')
    (fun _ _ _ hr hstep => (changes_evolves (step_changes hstep) (reachable_ownership hr)).1) hs

/-- The row a job has evolved into is the row now stored under its id. -/
theorem evolved_row {db db' : Database} (h : db.Evolves db') {j j' : RunnerJob}
    (hj : j ∈ db.jobs) (hj' : j' ∈ db'.jobs) (hid : j'.id = j.id) : j.Evolves j' := by
  obtain ⟨k, hk, hjk⟩ := h.jobs j hj
  rwa [Table.eq_of_key_eq hj' hk (hid.trans hjk.id.symm)]

end AgentBenchX
