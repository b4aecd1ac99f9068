import AgentBenchX.Attempts

/-!
# The timeline of an attempt

The timestamps of a job come from different readings in different requests:
`queued_at` from the flush that inserts the row, `heartbeat_at`, `started_at`
and the lease from the worker's requests, `finished_at` from a result or the
reaper. `RunnerJob.Timeline` is the order they are in at every moment, and
which of them are set in which status.

The attempts of a submission follow one another: none is queued before the one
before it has finished.
-/

namespace AgentBenchX

/-! ## The rows after a request -/

/-- A row that has just been put in the queue. -/
structure RunnerJob.Enqueued (c c' : Time) (j : RunnerJob) : Prop where
  queued : j.status = .queued
  unheard : j.heartbeatAt = none
  unstarted : j.startedAt = none
  unfinished : j.finishedAt = none
  unleased : j.leaseExpiresAt = none
  ge : c ≤ j.queuedAt
  le : j.queuedAt ≤ c'

theorem RowChange.ne_queued {cfg : Config} {c c' : Time} {kind : ChangeKind} {j j' : RunnerJob}
    (h : RowChange cfg c c' j kind j') : j'.status ≠ .queued := by
  cases h with
  | claim _ _ => simp [claimRows]
  | renew _ _ _ _ _ => simp [heartbeatRows]
  | finish _ _ _ _ _ => exact finishedRow_terminal.ne_queued
  | expire _ _ _ _ _ _ => exact expiredRow_terminal.ne_queued

/-- The rows that were there, some of them rewritten, and new ones. -/
def RowsFrom (cfg : Config) (c c' : Time) (kind : ChangeKind) (db db' : Database) : Prop :=
  ∀ j' ∈ db'.jobs, j' ∈ db.jobs ∨ (∃ j ∈ db.jobs, RowChange cfg c c' j kind j')
    ∨ j'.Enqueued c c'

section Rows

variable {cfg : Config} {env : Env} {c c' : Time} {kind : ChangeKind} {db db' : Database}

theorem RowsFrom.refl (db : Database) : RowsFrom cfg c c' kind db db := fun _ hj => Or.inl hj

/-- A row is rewritten, and possibly a retry is queued. -/
theorem RowsFrom.of_retire {base : Database} {condition : Prop} {j : RunnerJob} {id : Uid}
    {t : Time} (j' : RunnerJob) (hj : j ∈ db.jobs) (hid : j'.id = j.id)
    (hrow : RowChange cfg c c' j kind j') (hjobs : base.jobs = db.jobs.update j')
    (hret : Retried base db' condition (retryOf id t j)) (hge : c ≤ t) (hle : t ≤ c') :
    RowsFrom cfg c c' kind db db' := by
  intro x hx
  rcases hret.mem_jobs.mp hx with hx | ⟨-, rfl⟩
  · rcases (Table.mem_update j' hj hid).mp (hjobs ▸ hx) with rfl | ⟨hx, -⟩
    · exact Or.inr (Or.inl ⟨j, hj, hrow⟩)
    · exact Or.inl hx
  · exact Or.inr (Or.inr ⟨rfl, rfl, rfl, rfl, rfl, hge, hle⟩)

theorem Change.rows (hch : Change cfg c c' kind db db') (hkind : kind ≠ .enqueue) :
    RowsFrom cfg c c' kind db db' := by
  have hreplace : ∀ {j j' : RunnerJob}, j ∈ db.jobs → j'.id = j.id →
      RowChange cfg c c' j kind j' → ∀ x ∈ db.jobs.update j',
      x ∈ db.jobs ∨ (∃ j ∈ db.jobs, RowChange cfg c c' j kind x) ∨ x.Enqueued c c' := by
    intro j j' hj hid hrow x hx
    rcases (Table.mem_update j' hj hid).mp hx with rfl | ⟨hx, -⟩
    · exact Or.inr (Or.inl ⟨j, hj, hrow⟩)
    · exact Or.inl hx
  cases hch with
  | enqueue _ _ => exact absurd rfl hkind
  | register _ => exact .refl db
  | report _ _ => exact .refl db
  | claim ht _ _ _ hj hq => exact hreplace hj rfl (.claim ht hq)
  | renew ht _ hj hw ha he hlt => exact hreplace hj rfl (.renew ht hw ha he hlt)
  | @finish _ _ env w j problem data e evs ht _ hj hw ha he hlt _ _ _ hret =>
      exact .of_retire (finishedRow env j data) hj rfl (.finish ht hw ha he hlt) rfl hret
        (ht.start_le 5) (ht.le 5)
  | @expire _ _ j e t₀ t₁ t₂ id h₀ h₁ h₂ h₃ hj ha he hlt hret =>
      exact .of_retire (expiredRow cfg t₁ j) hj rfl (.expire h₀ h₁ (h₂.trans h₃) ha he hlt) rfl
        hret (h₀.trans (h₁.trans h₂)) h₃
  | offline _ _ _ _ _ => exact .refl db

theorem submit_rows {data : SubmissionCreate} (ht : Timed env c c')
    (h : submit env db data = .ok db') : RowsFrom cfg c c' .enqueue db db' := by
  unfold submit at h
  obtain ⟨-, -, h⟩ := ok_of_bind h
  obtain ⟨problems, -, h⟩ := ok_of_bind h
  split at h
  · cases h
  · obtain ⟨db₁, hfold, h⟩ := ok_of_bind h
    obtain rfl := Env.ok_of_committed h
    refine foldlM_ok (P := fun _ d => RowsFrom cfg c c' .enqueue db d) ?_ hfold (.refl db)
    rintro ⟨problem, i⟩ rest d d' hd hp
    obtain ⟨d₁, h₁, hp⟩ := ok_of_bind hp
    obtain ⟨ts, -, rfl⟩ := Database.insertSubmission_eq (ok_of_inserted h₁)
    obtain ⟨-, -, t, ht', rfl⟩ := Database.insertJob_eq (ok_of_inserted hp)
    intro x hx
    rcases (Table.mem_insert? ht').mp hx with hx | rfl
    · exact hd x hx
    · exact Or.inr (Or.inr ⟨rfl, rfl, rfl, rfl, rfl, ht.start_le i, ht.le i⟩)

/-- A batch rewrites no row twice: the reaper takes active rows and leaves terminal and
queued ones. -/
theorem Changes.rows (hch : Changes cfg c c' .expire db db') :
    RowsFrom cfg c c' .expire db db' := by
  induction hch with
  | refl => exact .refl db
  | tail _ hlast ih =>
      intro x hx
      rcases hlast.rows (by simp) x hx with hx | ⟨j, hj, hrow⟩ | hnew
      · exact ih x hx
      · have hactive : j.status.IsActive := by
          cases hrow with
          | expire _ _ _ ha _ _ => exact ha
        rcases ih j hj with hj | ⟨i, -, hi⟩ | hnew
        · exact Or.inr (Or.inl ⟨j, hj, hrow⟩)
        · cases hi with
          | expire _ _ _ _ _ _ => exact absurd expiredRow_terminal hactive.not_terminal
        · exact absurd hnew.queued hactive.ne_queued
      · exact Or.inr (Or.inr hnew)

theorem jobs_of_offline (hch : Changes cfg c c' .offline db db') : db'.jobs = db.jobs := by
  induction hch with
  | refl => rfl
  | tail _ hlast ih =>
      cases hlast with
      | offline _ _ _ _ _ => exact ih

theorem submit_step {s t : State} {call : Call} {data : SubmissionCreate}
    (h : (controlPlane cfg).step s call t) (hreq : call.request = .submit data) :
    RowsFrom cfg s.clock t.clock .enqueue s.db t.db := by
  obtain ⟨ht, hhandle⟩ := h
  rw [hreq] at hhandle
  have hanswer := (Prod.mk.injEq .. |>.mp hhandle).1
  cases hsubmit : submit call.env s.db data with
  | error e =>
      rw [hsubmit] at hanswer
      rw [← (Prod.mk.injEq .. |>.mp hanswer).1]
      exact .refl _
  | ok db' =>
      rw [hsubmit] at hanswer
      rw [← (Prod.mk.injEq .. |>.mp hanswer).1]
      exact submit_rows ht hsubmit

/-- **The job rows a request leaves.** -/
theorem step_rows {s t : State} {call : Call} (h : (controlPlane cfg).step s call t) :
    RowsFrom cfg s.clock t.clock call.request.kind s.db t.db := by
  have hch := step_changes h
  by_cases hsubmit : ∃ data, call.request = .submit data
  · obtain ⟨data, hreq⟩ := hsubmit
    rw [hreq]
    exact submit_step h hreq
  · have hkind : call.request.kind ≠ .enqueue := by
      cases hreq : call.request with
      | submit data => exact absurd ⟨data, hreq⟩ hsubmit
      | _ => simp [Request.kind]
    rcases step_once h with (hreq | hreq | hreq) | hsame | hone
    · exact absurd hreq hsubmit
    · rw [hreq] at hch ⊢
      exact Changes.rows hch
    · rw [hreq] at hch ⊢
      exact fun x hx => Or.inl (jobs_of_offline hch ▸ hx)
    · rw [hsame]
      exact .refl _
    · exact hone.rows hkind

end Rows

/-! ## One attempt -/

/-- The order of the timestamps of a job at the clock time `c`. -/
structure RunnerJob.Timeline (cfg : Config) (c : Time) (j : RunnerJob) : Prop where
  queued : j.queuedAt ≤ c
  heartbeat : ∀ h, j.heartbeatAt = some h → j.queuedAt ≤ h ∧ h ≤ c
  started : ∀ t, j.startedAt = some t → j.queuedAt ≤ t ∧ t ≤ c
  lease : ∀ e, j.leaseExpiresAt = some e →
    ∃ h, j.heartbeatAt = some h ∧ h + cfg.leaseSeconds ≤ e ∧ e ≤ c + cfg.leaseSeconds
  finished : ∀ f, j.finishedAt = some f → j.queuedAt ≤ f ∧ f ≤ c
    ∧ (∀ h, j.heartbeatAt = some h → h ≤ f) ∧ ∀ t, j.startedAt = some t → t ≤ f
  terminal : j.status.IsTerminal ↔ j.finishedAt.isSome
  running : j.status = .running → j.startedAt.isSome
  waiting : j.status = .queued ∨ j.status = .claimed → j.startedAt = none
  unheard : j.status = .queued → j.heartbeatAt = none

namespace RunnerJob.Timeline

variable {cfg : Config} {c c' : Time} {j j' : RunnerJob}

theorem mono (h : j.Timeline cfg c) (hc : c ≤ c') : j.Timeline cfg c' where
  queued := h.queued.trans hc
  heartbeat t ht := ⟨(h.heartbeat t ht).1, (h.heartbeat t ht).2.trans hc⟩
  started t ht := ⟨(h.started t ht).1, (h.started t ht).2.trans hc⟩
  lease e he := by
    obtain ⟨b, hb, hbe, hle⟩ := h.lease e he
    exact ⟨b, hb, hbe, hle.trans (by linarith)⟩
  finished f hf := ⟨(h.finished f hf).1, (h.finished f hf).2.1.trans hc, (h.finished f hf).2.2⟩
  terminal := h.terminal
  running := h.running
  waiting := h.waiting
  unheard := h.unheard

theorem of_enqueued (h : j.Enqueued c c') : j.Timeline cfg c' where
  queued := h.le
  heartbeat t ht := by simp [h.unheard] at ht
  started t ht := by simp [h.unstarted] at ht
  lease e he := by simp [h.unleased] at he
  finished f hf := by simp [h.unfinished] at hf
  terminal := by simp [h.queued, h.unfinished, JobStatus.IsTerminal]
  running hr := by simp [h.queued] at hr
  waiting _ := h.unstarted
  unheard _ := h.unheard

theorem claimed {env : Env} {w : Worker} (h : j.Timeline cfg c) (ht : Timed env c c')
    (hq : j.status = .queued) : (claimRows cfg env j w).1.Timeline cfg c' where
  queued := h.queued.trans ht.start_le_stop
  heartbeat t hb := by
    obtain rfl := Option.some.inj hb
    exact ⟨h.queued.trans (ht.start_le 0), ht.le 0⟩
  started t hs := by
    have hnone := (h.waiting (Or.inl hq)).symm.trans hs
    cases hnone
  lease e he := by
    obtain rfl := Option.some.inj he
    exact ⟨env.tick 0, rfl, by linarith [ht.mono (show 0 ≤ 1 by omega)], by linarith [ht.le 1]⟩
  finished f hf := by
    have hterm := h.terminal.mpr (Option.isSome_iff_exists.mpr ⟨f, hf⟩)
    exact absurd hq hterm.ne_queued
  terminal := by
    have hnone : ¬j.finishedAt.isSome := fun hs => absurd hq (h.terminal.mpr hs).ne_queued
    exact ⟨fun hterm => by simp [claimRows, JobStatus.IsTerminal] at hterm,
      fun hs => absurd hs hnone⟩
  running hr := by simp [claimRows] at hr
  waiting _ := h.waiting (Or.inl hq)
  unheard hu := by simp [claimRows] at hu

theorem renewed {env : Env} {w : Worker} {event : JobEvent} (h : j.Timeline cfg c)
    (ht : Timed env c c') (ha : j.status.IsActive) :
    (heartbeatRows cfg env j w event).1.Timeline cfg c' where
  queued := h.queued.trans ht.start_le_stop
  heartbeat t hb := by
    obtain rfl := Option.some.inj hb
    exact ⟨h.queued.trans (ht.start_le 1), ht.le 1⟩
  started t hs := by
    obtain rfl := Option.some.inj hs
    cases hstarted : j.startedAt with
    | none => exact ⟨h.queued.trans (ht.start_le 2), ht.le 2⟩
    | some t =>
        obtain ⟨hge, hle⟩ := h.started t hstarted
        exact ⟨hge, hle.trans ht.start_le_stop⟩
  lease e he := by
    obtain rfl := Option.some.inj he
    exact ⟨env.tick 1, rfl, by linarith [ht.mono (show 1 ≤ 3 by omega)], by linarith [ht.le 3]⟩
  finished f hf := by
    have hterm := h.terminal.mpr (Option.isSome_iff_exists.mpr ⟨f, hf⟩)
    exact absurd hterm ha.not_terminal
  terminal := by
    have hnone : ¬j.finishedAt.isSome := fun hs => ha.not_terminal (h.terminal.mpr hs)
    exact ⟨fun hterm => by simp [heartbeatRows, JobStatus.IsTerminal] at hterm,
      fun hs => absurd hs hnone⟩
  running _ := rfl
  waiting hw := by simp [heartbeatRows] at hw
  unheard hu := by simp [heartbeatRows] at hu

/-- A finished attempt. -/
theorem retire {f : Time} {status : JobStatus} {message : Option String} (h : j.Timeline cfg c)
    (hge : c ≤ f) (hle : f ≤ c') (hterm : status.IsTerminal) :
    { j with status, finishedAt := some f, errorMessage := message }.Timeline cfg c' where
  queued := h.queued.trans (hge.trans hle)
  heartbeat := (h.mono (hge.trans hle)).heartbeat
  started := (h.mono (hge.trans hle)).started
  lease := (h.mono (hge.trans hle)).lease
  finished t ht := by
    obtain rfl := Option.some.inj ht
    exact ⟨h.queued.trans hge, hle, fun b hb => (h.heartbeat b hb).2.trans hge,
      fun b hb => (h.started b hb).2.trans hge⟩
  terminal := ⟨fun _ => rfl, fun _ => hterm⟩
  running hr := by
    rw [show status = .running from hr] at hterm
    simp [JobStatus.IsTerminal] at hterm
  waiting hw := by
    rcases hw with hw | hw
    · exact absurd hw hterm.ne_queued
    · rw [show status = .claimed from hw] at hterm
      simp [JobStatus.IsTerminal] at hterm
  unheard hu := absurd hu hterm.ne_queued

theorem change {kind : ChangeKind} (h : j.Timeline cfg c) (hrow : RowChange cfg c c' j kind j') :
    j'.Timeline cfg c' := by
  cases hrow with
  | claim ht hq => exact h.claimed ht hq
  | renew ht _ ha _ _ => exact h.renewed ht ha
  | @finish _ _ data _ ht _ _ _ _ =>
      exact h.retire (ht.start_le 3) (ht.le 3) data.status.toJobStatus_isTerminal
  | @expire _ _ t₁ h₀ h₁ h₂ _ _ _ =>
      have hterminal : (expiredRow cfg t₁ j).status.IsTerminal := expiredRow_terminal
      exact h.retire (h₀.trans h₁) h₂ hterminal

end RunnerJob.Timeline

theorem reachable_timeline {cfg : Config} {s : State} (hs : (controlPlane cfg).Reachable s) :
    ∀ j ∈ s.db.jobs, j.Timeline cfg s.clock := by
  refine hs.rec_on (P := fun s => ∀ j ∈ s.db.jobs, j.Timeline cfg s.clock) ?_ ?_
  · rintro s ⟨-, -, hjobs, -⟩ j hj
    simp [hjobs] at hj
  · intro s call t _ h hstep j' hj'
    rcases step_rows hstep j' hj' with hj | ⟨j, hj, hrow⟩ | hnew
    · exact (h j' hj).mono (step_clock hstep)
    · exact (h j hj).change hrow
    · exact .of_enqueued hnew

/-! ## One attempt after the other -/

/-- An attempt is queued when the one before it has finished. -/
def Successive (db : Database) : Prop :=
  ∀ j ∈ db.jobs, ∀ k ∈ db.jobs, k.submissionId = j.submissionId → k.attempt = j.attempt + 1 →
    ∃ f, j.finishedAt = some f ∧ f ≤ k.queuedAt

namespace Successive

variable {cfg : Config} {c c' : Time} {kind : ChangeKind} {maxAttempts : ℤ} {db db' base : Database}

theorem of_jobs (h : Successive db) (hjobs : db'.jobs = db.jobs) : Successive db' := by
  unfold Successive
  rw [hjobs]
  exact h

/-- A row is rewritten, and stays finished if it has a successor. -/
theorem replace {j : RunnerJob} (j' : RunnerJob) (h : Successive db) (hj : j ∈ db.jobs)
    (hjobs : db'.jobs = db.jobs.update j') (hid : j'.id = j.id)
    (hsub : j'.submissionId = j.submissionId) (hatt : j'.attempt = j.attempt)
    (hqueued : j'.queuedAt = j.queuedAt)
    (hfinished : db.AttemptTaken j.submissionId (j.attempt + 1) →
      ∀ f, j.finishedAt = some f → j'.finishedAt = some f) : Successive db' := by
  have hold : ∀ x ∈ db'.jobs, ∃ y ∈ db.jobs, y.submissionId = x.submissionId
      ∧ y.attempt = x.attempt ∧ y.queuedAt = x.queuedAt
      ∧ (db.AttemptTaken y.submissionId (y.attempt + 1) →
        ∀ f, y.finishedAt = some f → x.finishedAt = some f) := by
    intro x hx
    rcases (Table.mem_update j' hj hid).mp (hjobs ▸ hx) with rfl | ⟨hx, -⟩
    · exact ⟨j, hj, hsub.symm, hatt.symm, hqueued.symm, hfinished⟩
    · exact ⟨x, hx, rfl, rfl, rfl, fun _ _ hf => hf⟩
  intro x hx y hy hxy hn
  obtain ⟨x₀, hx₀, hxsub, hxn, -, hxf⟩ := hold x hx
  obtain ⟨y₀, hy₀, hysub, hyn, hyq, -⟩ := hold y hy
  have hsub₀ : y₀.submissionId = x₀.submissionId := by rw [hysub, hxsub, hxy]
  have hn₀ : y₀.attempt = x₀.attempt + 1 := by rw [hyn, hxn, hn]
  obtain ⟨f, hf, hle⟩ := h x₀ hx₀ y₀ hy₀ hsub₀ hn₀
  exact ⟨f, hxf ⟨y₀, hy₀, hsub₀, hn₀⟩ f hf, hyq ▸ hle⟩

/-- A new row comes behind its predecessor and has no successor. -/
theorem insert {k : RunnerJob} (h : Successive db) (hmem : ∀ x, x ∈ db'.jobs → x ∈ db.jobs ∨ x = k)
    (hprev : ∀ j ∈ db.jobs, k.submissionId = j.submissionId → k.attempt = j.attempt + 1 →
      ∃ f, j.finishedAt = some f ∧ f ≤ k.queuedAt)
    (hnext : ∀ j ∈ db.jobs, j.submissionId = k.submissionId → j.attempt ≠ k.attempt + 1) :
    Successive db' := by
  intro x hx y hy hxy hn
  rcases hmem x hx with hx | rfl <;> rcases hmem y hy with hy | rfl
  · exact h x hx y hy hxy hn
  · exact hprev x hx hxy hn
  · exact absurd hn (hnext y hy hxy)
  · omega

/-- A live attempt ends, and possibly its successor is queued. -/
theorem retire {condition : Prop} {j : RunnerJob} {id : Uid} {f t : Time} (j' : RunnerJob)
    (h : Successive db) (hchain : Attempts maxAttempts db) (hj : j ∈ db.jobs)
    (ha : j.status.IsActive)
    (hjobs : base.jobs = db.jobs.update j') (hid : j'.id = j.id)
    (hsub : j'.submissionId = j.submissionId) (hatt : j'.attempt = j.attempt)
    (hqueued : j'.queuedAt = j.queuedAt) (hfinished : j'.finishedAt = some f) (hle : f ≤ t)
    (hret : Retried base db' condition (retryOf id t j)) : Successive db' := by
  have hno := hchain.no_successor hj ha.not_terminal
  have hbase : Successive base :=
    h.replace j' hj hjobs hid hsub hatt hqueued fun htaken => absurd htaken hno
  refine hbase.insert (fun x hx => (hret.mem_jobs.mp hx).imp_right And.right) ?_ ?_
  · intro x hx hxs hxn
    rcases (Table.mem_update j' hj hid).mp (hjobs ▸ hx) with rfl | ⟨hx, hne⟩
    · exact ⟨f, hfinished, hle⟩
    · exact absurd (hchain.unique x hx j hj hxs.symm (Nat.succ.inj hxn).symm) hne
  · intro x hx hxs hxn
    have hxn : x.attempt = j.attempt + 2 := hxn
    rcases (Table.mem_update j' hj hid).mp (hjobs ▸ hx) with rfl | ⟨hx, -⟩
    · omega
    · have hprev := hchain.previous x hx (by omega)
      rw [show x.submissionId = j.submissionId from hxs, hxn] at hprev
      exact hno hprev

theorem change (hch : Change cfg c c' kind db db') (hchain : Attempts cfg.maxAttempts db)
    (h : Successive db) : Successive db' := by
  cases hch with
  | enqueue hsub hjob =>
      obtain ⟨ts, hts, rfl⟩ := Database.insertSubmission_eq hsub
      obtain ⟨hfree, -, t, ht, rfl⟩ := Database.insertJob_eq hjob
      refine h.insert (fun x => (Table.mem_insert? ht).mp) ?_ ?_
      · intro j hj _ hn
        have hbounds := (hchain.bounds j hj).1
        have hn : 1 = j.attempt + 1 := hn
        omega
      · intro j hj hjs hn
        have hn : j.attempt = 2 := hn
        have hprev := hchain.previous j hj (by omega)
        rw [hjs, hn] at hprev
        exact hfree hprev
  | register _ => exact h.of_jobs rfl
  | report _ _ => exact h.of_jobs rfl
  | @claim _ env w j _ _ _ _ hj _ =>
      exact h.replace (claimRows cfg env j w).1 hj rfl rfl rfl rfl rfl fun _ _ hf => hf
  | @renew _ env w j event e _ _ hj _ _ _ _ =>
      exact h.replace (heartbeatRows cfg env j w event).1 hj rfl rfl rfl rfl rfl fun _ _ hf => hf
  | @finish _ _ env w j problem data e evs ht _ hj _ ha _ _ _ _ _ hret =>
      exact h.retire (finishedRow env j data) hchain hj ha rfl rfl rfl rfl rfl rfl
        (ht.mono (show 3 ≤ 5 by omega)) hret
  | @expire _ _ j e t₀ t₁ t₂ id _ _ hle _ hj ha _ _ hret =>
      exact h.retire (expiredRow cfg t₁ j) hchain hj ha rfl rfl rfl rfl rfl rfl
        hle hret
  | offline _ _ _ _ _ => exact h.of_jobs rfl

end Successive

theorem reachable_successive {cfg : Config} {s : State} (hs : (controlPlane cfg).Reachable s) :
    Successive s.db := by
  refine hs.rec_on (P := fun s => Successive s.db) ?_ ?_
  · rintro s ⟨-, -, hjobs, -⟩ j hj
    simp [hjobs] at hj
  · intro s call t hr h hstep
    let P : Database → Prop := fun d => Consistent d ∧ Attempts cfg.maxAttempts d ∧ Successive d
    have hall : P t.db := step_preserves (P := P)
      (fun hch hd => ⟨hd.1.change hch, hd.2.1.change hch hd.1, hd.2.2.change hch hd.2.1⟩) hstep
      ⟨reachable_consistent hr, reachable_attempts hr, h⟩
    exact hall.2.2

/-- All attempts of a submission in their order. -/
theorem Successive.order {cfg : Config} {c : Time} {db : Database} (h : Successive db)
    (hchain : Attempts cfg.maxAttempts db) (htimes : ∀ j ∈ db.jobs, j.Timeline cfg c)
    {j : RunnerJob} (hj : j ∈ db.jobs) (n : ℕ) :
    ∀ k ∈ db.jobs, k.submissionId = j.submissionId → k.attempt = j.attempt + 1 + n →
      ∃ f, j.finishedAt = some f ∧ f ≤ k.queuedAt := by
  induction n with
  | zero => exact fun k hk hsub hn => h j hj k hk hsub hn
  | succ n ih =>
      intro k hk hsub hn
      obtain ⟨i, hi, hisub, hin⟩ := hchain.previous k hk (by omega)
      obtain ⟨f, hf, hle⟩ := ih i hi (hisub.trans hsub) (by omega)
      obtain ⟨g, hg, hgle⟩ := h i hi k hk hisub.symm (by omega)
      exact ⟨f, hf, hle.trans (((htimes i hi).finished g hg).1.trans hgle)⟩

/-- **The timelines of all attempts.** In every reachable state each job was queued first, heard
of and started after that, in either order, and finished last, all of it in the past, and the
attempts of a submission do not overlap. -/
theorem attempts_timeline {cfg : Config} {s : State} (hs : (controlPlane cfg).Reachable s) :
    (∀ j ∈ s.db.jobs, j.Timeline cfg s.clock)
      ∧ ∀ j ∈ s.db.jobs, ∀ k ∈ s.db.jobs, k.submissionId = j.submissionId →
        j.attempt < k.attempt → ∃ f, j.finishedAt = some f ∧ f ≤ k.queuedAt := by
  have htimes := reachable_timeline hs
  refine ⟨htimes, fun j hj k hk hsub hlt => ?_⟩
  exact (reachable_successive hs).order (reachable_attempts hs) htimes hj
    (k.attempt - j.attempt - 1) k hk hsub (by omega)

/-- The second attempt of a job whose lease has expired. -/
theorem attempts_timeline_expired :
    let s := (replay Sample.config Sample.start
      (Sample.claimed ++ [⟨.reapJobs, 200, 40, Sample.token⟩,
        ⟨.claim 10 Sample.credential, 210, 50, Sample.token⟩])).1
    (s.db.jobs.rows.map fun j => (j.attempt, j.queuedAt, j.finishedAt))
        = [(1, 2, some 200), (2, 200, none)]
      ∧ (∀ j ∈ s.db.jobs, j.Timeline Sample.config s.clock)
      ∧ ∀ j ∈ s.db.jobs, ∀ k ∈ s.db.jobs, k.submissionId = j.submissionId →
        j.attempt < k.attempt → ∃ f, j.finishedAt = some f ∧ f ≤ k.queuedAt :=
  ⟨by decide +kernel, attempts_timeline (replay_reachable (by decide) (by decide))⟩

end AgentBenchX
