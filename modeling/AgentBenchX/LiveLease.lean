import AgentBenchX.Availability

/-!
# Leases and the reaper

The lease of a job and the last heartbeat of its worker are two columns of
two tables, each written from a reading of the clock of its own. Whoever
extends a lease writes the heartbeat of the owner after it, so a lease never
outlasts that heartbeat by more than its length (`Fed`), and the reaper, which
waits for longer, does not find the owner of a live lease.
-/

namespace AgentBenchX

variable {cfg : Config} {c c' : Time} {kind : ChangeKind} {db db' : Database}

/-- Every active job has an owner and a lease. The lease ends a lease's length
after the last heartbeat of the owner at the latest, and after the time `c`. -/
def Fed (cfg : Config) (c : Time) (db : Database) : Prop :=
  ∀ j ∈ db.jobs, j.status.IsActive → ∃ w ∈ db.workers, j.workerId = some w.id
    ∧ ∃ e, j.leaseExpiresAt = some e ∧ e ≤ w.lastHeartbeat + cfg.leaseSeconds
      ∧ e ≤ c + cfg.leaseSeconds

namespace Fed

theorem fresh (h : db.Fresh) : Fed cfg c db := by
  obtain ⟨-, -, hjobs, -⟩ := h
  exact fun j hj => by simp [hjobs] at hj

theorem later (h : Fed cfg c db) (hc : c ≤ c') : Fed cfg c' db := by
  intro j hj ha
  obtain ⟨w, hw, hown, e, he, hbeat, hclock⟩ := h j hj ha
  exact ⟨w, hw, hown, e, he, hbeat, by linarith⟩

/-- Active jobs keep their leases, and no heartbeat is lost. -/
theorem of_workers (h : Fed cfg c db)
    (hworkers : ∀ w ∈ db.workers, ∃ w' ∈ db'.workers, w'.id = w.id
      ∧ w.lastHeartbeat ≤ w'.lastHeartbeat)
    (hjobs : ∀ j' ∈ db'.jobs, j'.status.IsActive → j' ∈ db.jobs) : Fed cfg c db' := by
  intro j hj ha
  obtain ⟨w, hw, hown, e, he, hbeat, hclock⟩ := h j (hjobs j hj ha) ha
  obtain ⟨w', hw', hid, hle⟩ := hworkers w hw
  exact ⟨w', hw', by rw [hid, hown], e, he, by linarith, hclock⟩

/-- A worker is heard of at time `t`, which extends at most one lease, of its
own, that ends a lease's length later at the latest. -/
theorem of_row {w : Worker} (row : Worker) {t : Time} (h : Fed cfg c db) (hw : w ∈ db.workers)
    (hid : row.id = w.id) (hworkers : db'.workers = db.workers.update row)
    (hstart : c ≤ t) (hbeat : t ≤ row.lastHeartbeat)
    (hjobs : ∀ j' ∈ db'.jobs, j'.status.IsActive → j' ∈ db.jobs
      ∨ j'.workerId = some w.id ∧ ∃ e, j'.leaseExpiresAt = some e ∧ e ≤ t + cfg.leaseSeconds) :
    Fed cfg t db' := by
  have hmem := @Table.mem_update _ _ _ _ db.workers w row hw hid
  intro j hj ha
  rcases hjobs j hj ha with hold | ⟨hown, e, he, hle⟩
  · obtain ⟨v, hv, hown, e, he, hvbeat, hclock⟩ := h j hold ha
    by_cases hvw : v = w
    · subst hvw
      exact ⟨row, hworkers ▸ hmem.mpr (Or.inl rfl), by rw [hid, hown], e, he, by linarith,
        by linarith⟩
    · exact ⟨v, hworkers ▸ hmem.mpr (Or.inr ⟨hv, hvw⟩), hown, e, he, hvbeat, by linarith⟩
  · exact ⟨row, hworkers ▸ hmem.mpr (Or.inl rfl), by rw [hid, hown], e, he, by linarith, hle⟩

/-- Most changes extend no lease and take back no heartbeat. -/
theorem kept (hch : Change cfg c c' kind db db')
    (hkind : kind ≠ .report ∧ kind ≠ .claim ∧ kind ≠ .renew ∧ kind ≠ .finish)
    (h : Fed cfg c db) : Fed cfg c db' := by
  cases hch with
  | enqueue hsub hjob =>
      obtain ⟨ts, -, rfl⟩ := Database.insertSubmission_eq hsub
      obtain ⟨-, -, t, ht, rfl⟩ := Database.insertJob_eq hjob
      refine h.of_workers (fun w hw => ⟨w, hw, rfl, le_rfl⟩) fun j' hj' ha' => ?_
      rcases (Table.mem_insert? ht).mp hj' with hj' | rfl
      · exact hj'
      · simp [JobStatus.IsActive] at ha'
  | register hins =>
      exact h.of_workers (fun w hw => ⟨w, (Table.mem_insert? hins).mpr (Or.inl hw), rfl, le_rfl⟩)
        fun j' hj' _ => hj'
  | @expire _ _ j e t₀ t₁ t₂ id _ _ _ _ hj ha _ _ hret =>
      have hactive := Engaged.active_of_retire (expiredRow cfg t₁ j) hj rfl expiredRow_terminal
        rfl hret
      exact h.of_workers (fun w hw => ⟨w, by rw [hret.frame]; exact hw, rfl, le_rfl⟩)
        fun j' hj' ha' => (hactive j' hj' ha').1
  | @offline _ w t _ _ hw _ _ =>
      refine h.of_workers (fun v hv => ?_) fun j' hj' _ => hj'
      have hmem := @Table.mem_update _ _ _ _ db.workers w { w with status := .offline } hw rfl
      by_cases hvw : v = w
      · exact ⟨_, hmem.mpr (Or.inl rfl), by rw [hvw], by rw [hvw]⟩
      · exact ⟨v, hmem.mpr (Or.inr ⟨hv, hvw⟩), rfl, le_rfl⟩
  | _ => simp at hkind

/-- The others write the heartbeat after the lease. -/
theorem change (hch : Change cfg c c' kind db db') (hc : c ≤ c') (h : Fed cfg c db) :
    Fed cfg c' db' := by
  cases hch with
  | @report _ env w active status ht hw =>
      exact .later (h.of_row (workerHeartbeatRow env active w status) hw rfl rfl (ht.start_le 0)
        le_rfl fun j' hj' _ => Or.inl hj') (ht.le 0)
  | @claim _ env w j ht hw _ _ hj _ =>
      refine .later (h.of_row (claimRows cfg env j w).2 (t := env.tick 1) hw rfl rfl (ht.start_le 1)
        (ht.mono (by omega)) fun j' hj' _ => ?_) (ht.le 1)
      rcases (Table.mem_update (claimRows cfg env j w).1 hj rfl).mp hj' with rfl | ⟨hj', -⟩
      · exact Or.inr ⟨rfl, _, rfl, le_rfl⟩
      · exact Or.inl hj'
  | @renew _ env w j event _ ht hw hj hworker _ _ _ =>
      refine .later (h.of_row (heartbeatRows cfg env j w event).2 (t := env.tick 3) hw rfl rfl
        (ht.start_le 3) (ht.mono (by omega)) fun j' hj' _ => ?_) (ht.le 3)
      rcases (Table.mem_update (heartbeatRows cfg env j w event).1 hj rfl).mp hj' with
        rfl | ⟨hj', -⟩
      · exact Or.inr ⟨hworker, _, rfl, le_rfl⟩
      · exact Or.inl hj'
  | @finish _ _ env w j problem data e evs ht hw hj _ _ _ _ _ _ _ hret =>
      have hactive := Engaged.active_of_retire (finishedRow env j data) hj rfl finishedRow_terminal
        rfl hret
      exact .later (h.of_row (releasedRow env w) hw rfl (by rw [hret.frame]) (ht.start_le 4) le_rfl
        fun j' hj' ha' => Or.inl (hactive j' hj' ha').1) (ht.le 4)
  | enqueue hsub hjob =>
      have hold : Change cfg c c' .enqueue db _ := .enqueue hsub hjob
      exact (h.kept hold (by simp)).later hc
  | register hins =>
      have hold : Change cfg c c' .register db _ := .register hins
      exact (h.kept hold (by simp)).later hc
  | expire h₀ h₁ h₂ h₃ hj ha he hlt hret =>
      exact (h.kept (.expire h₀ h₁ h₂ h₃ hj ha he hlt hret) (by simp)).later hc
  | offline h₀ h₁ hw hstatus hlt =>
      exact (h.kept (.offline h₀ h₁ hw hstatus hlt) (by simp)).later hc

theorem step {s t : State} {call : Call} (hstep : (controlPlane cfg).step s call t)
    (h : Fed cfg s.clock s.db) : Fed cfg t.clock t.db := by
  rcases step_once hstep with hbatch | hdb | hch
  · have hkind : call.request.kind ≠ .report ∧ call.request.kind ≠ .claim
        ∧ call.request.kind ≠ .renew ∧ call.request.kind ≠ .finish := by
      rcases hbatch with ⟨data, hr⟩ | hr | hr <;> rw [hr] <;> simp [Request.kind]
    refine Fed.later ?_ (step_clock hstep)
    have hchanges := step_changes hstep
    generalize t.db = d at hchanges
    induction hchanges with
    | refl => exact h
    | tail _ hlast ih => exact ih.kept hlast hkind
  · exact hdb ▸ h.later (step_clock hstep)
  · exact h.change hch (step_clock hstep)

end Fed

theorem reachable_fed {s : State} (hs : (controlPlane cfg).Reachable s) : Fed cfg s.clock s.db :=
  hs.rec_on (fun _ h => Fed.fresh h) fun _ _ _ _ h hstep => h.step hstep

/-! ## The two phases of the reaper -/

/-- Expiring jobs touches no worker. -/
theorem reapJobs_workers {s t : State} {call : Call} (hstep : (controlPlane cfg).step s call t)
    (hrequest : call.request = .reapJobs) : t.db.workers = s.db.workers := by
  have hchanges := step_changes hstep
  have hkind : call.request.kind = .expire := by rw [hrequest]; rfl
  generalize t.db = d at hchanges
  induction hchanges with
  | refl => rfl
  | tail _ hlast ih =>
      rw [hkind] at hlast
      cases hlast with
      | expire _ _ _ _ _ _ _ _ hret => rw [hret.frame, ← ih]

/-- A worker that is not picked keeps its row. -/
theorem markOffline_mem {workers : List Worker} {w : Worker}
    (hpicked : ∀ v ∈ workers, v.id ≠ w.id) (hw : w ∈ db.workers) :
    w ∈ (workers.foldl markOffline db).workers := by
  induction workers generalizing db with
  | nil => exact hw
  | cons v workers ih =>
      refine ih (fun u hu => hpicked u (List.mem_cons_of_mem _ hu)) ?_
      exact Table.mem_update_of_ne hw (hpicked v (List.mem_cons_self ..)).symm

/-- The reaper picks no worker whose lease is alive at its reading. -/
theorem Fed.not_offline (h : Fed cfg c db) (hlease : cfg.leaseSeconds ≤ cfg.workerOfflineSeconds)
    {w : Worker} {j : RunnerJob} {e reading : Time} (hw : w ∈ db.workers) (hj : j ∈ db.jobs)
    (hown : j.workerId = some w.id) (ha : j.status.IsActive) (he : j.leaseExpiresAt = some e)
    (hlive : reading ≤ e) (skipped : List Uid) : w ∉ offlineWorkers cfg db skipped reading := by
  intro hpicked
  obtain ⟨-, hlate, -, -⟩ := mem_offlineWorkers.mp hpicked
  obtain ⟨v, hv, hown', e', he', hbeat, -⟩ := h j hj ha
  obtain rfl := Table.eq_of_key_eq hv hw (Option.some.inj (hown'.symm.trans hown))
  obtain rfl := Option.some.inj (he.symm.trans he')
  have hle : (cfg.leaseSeconds : ℚ) ≤ cfg.workerOfflineSeconds := Nat.cast_le.mpr hlease
  linarith

/-- **Live leases.** If a worker may be silent for as long as a lease lasts,
neither phase of the reaper changes a worker with an active job whose lease
has not run out when the second phase reads the clock. -/
theorem live_lease_not_offline {s t : State} {call : Call}
    (hs : (controlPlane cfg).Reachable s) (hlease : cfg.leaseSeconds ≤ cfg.workerOfflineSeconds)
    (hstep : (controlPlane cfg).step s call t) :
    (call.request = .reapJobs → t.db.workers = s.db.workers)
      ∧ (call.request = .reapWorkers → ∀ w ∈ s.db.workers, ∀ j ∈ s.db.jobs,
        j.workerId = some w.id → j.status.IsActive →
        (∃ e, j.leaseExpiresAt = some e ∧ call.env.tick 0 ≤ e) → w ∈ t.db.workers) := by
  refine ⟨reapJobs_workers hstep, fun hrequest w hw j hj hown ha ⟨e, he, hlive⟩ => ?_⟩
  have hpicked : ∀ v ∈ offlineWorkers cfg s.db call.env.skipped (call.env.tick 0), v.id ≠ w.id := by
    intro v hv hid
    obtain rfl := Table.eq_of_key_eq (mem_offlineWorkers.mp hv).1 hw hid
    exact (reachable_fed hs).not_offline hlease hw hj hown ha he hlive _ hv
  obtain ⟨-, hhandle⟩ := hstep
  rw [hrequest] at hhandle
  have hdb := congrArg (fun answer => answer.1.1) hhandle
  dsimp only [handle] at hdb
  rw [← hdb]
  unfold reapWorkers Env.committed
  split
  · exact markOffline_mem hpicked hw
  · exact hw

/-- The second phase of the reaper, at the last moment of a lease. -/
def Sample.reaping : Timely := ⟨.reapWorkers, 123, 40, token⟩

theorem live_lease_not_offline_claimed :
    let s := (replay Sample.config Sample.start Sample.claimed).1
    s.db.workers.rows.map (·.id) = [10]
      ∧ ∀ w ∈ s.db.workers, w ∈ (s.after Sample.config Sample.reaping).1.db.workers := by
  have hreachable : (controlPlane Sample.config).Reachable
      (replay Sample.config Sample.start Sample.claimed).1 :=
    replay_reachable Sample.init (by decide)
  have hstep : (controlPlane Sample.config).step
      (replay Sample.config Sample.start Sample.claimed).1 _
      (State.after Sample.config (replay Sample.config Sample.start Sample.claimed).1
        Sample.reaping).1 := after_step (by decide +kernel)
  refine ⟨by decide +kernel, fun w hw => ?_⟩
  have hjobs : ∀ w ∈ (replay Sample.config Sample.start Sample.claimed).1.db.workers.rows,
      ∃ j ∈ (replay Sample.config Sample.start Sample.claimed).1.db.jobs.rows,
        j.workerId = some w.id ∧ j.status.IsActive ∧ j.leaseExpiresAt = some 123 := by
    decide +kernel
  obtain ⟨j, hj, hown, ha, he⟩ := hjobs w hw
  exact (live_lease_not_offline hreachable (by decide) hstep).2 rfl w hw j hj hown ha
    ⟨123, he, le_rfl⟩

end AgentBenchX
