import AgentBenchX.JobLifecycle

/-!
# Fencing and acceptance

What protects a job from a worker that lost it. A lease token is issued
by exactly the claim that gave the job away (`issued_of_run`); a result is
recorded only under that token and an unexpired lease
(`result_step`); a job whose lease has run out is past saving
(`Lapsed`), whatever is sent for it and in whatever order; and a repeated
result only reads back the first evaluation.

The last section assembles these into `fencing`.
-/

namespace AgentBenchX

variable {cfg : Config}

/-! ## Leases are issued by claims -/

/-- The call is the claim that gave the job to the worker under the token. -/
def Call.Issues (call : Call) (workerId jobId : Uid) (token : Token) : Prop :=
  ∃ auth claim, call.request = .claim workerId auth ∧ call.response = .claimed (some claim)
    ∧ claim.job.id = jobId ∧ claim.leaseToken = token

/-- Only a claim writes the owner and the token of a job. -/
theorem owner_before {c c' : Time} {kind : ChangeKind} {db db' : Database}
    (hch : Changes cfg c c' kind db db') (hkind : kind ≠ .claim) {k : RunnerJob} {w : Uid}
    (hk : k ∈ db'.jobs) (hw : k.workerId = some w) :
    ∃ j ∈ db.jobs, j.id = k.id ∧ j.workerId = k.workerId ∧ j.leaseToken = k.leaseToken := by
  induction hch generalizing k with
  | refl => exact ⟨k, hk, rfl, rfl, rfl⟩
  | tail _ hlast ih =>
      rcases hlast.jobs.before k hk with hj | ⟨j, hj, hrow⟩ | ⟨-, hnone, -⟩
      · exact ih hj hw
      · cases hrow with
        | claim _ _ => exact absurd rfl hkind
        | renew _ _ _ _ _ => exact ih (k := j) hj hw
        | finish _ _ _ _ _ => exact ih (k := j) hj hw
        | expire _ _ _ _ _ _ => exact ih (k := j) hj hw
      · rw [hnone] at hw
        cases hw

/-- What a claim call does: nothing, or it assigns one queued job and says so
in its answer. -/
theorem claim_step {s t : State} {call : Call} {id : Uid} {auth : Option String}
    (h : (controlPlane cfg).step s call t) (hreq : call.request = .claim id auth) :
    t.db = s.db
      ∨ ∃ w j claim, w.id = id ∧ j ∈ s.db.jobs ∧ call.response = .claimed (some claim)
        ∧ claim.job = (claimRows cfg call.env j w).1 ∧ claim.leaseToken = call.env.secret
        ∧ t.db.jobs = s.db.jobs.update (claimRows cfg call.env j w).1 := by
  obtain ⟨-, hhandle⟩ := h
  rw [hreq] at hhandle
  rcases respond_eq (Prod.mk.injEq .. |>.mp hhandle).1 with ⟨a, hok, hres⟩ | ⟨-, -, hdb, -⟩
  · obtain ⟨w, hw, hclaim⟩ := ok_of_bind hok
    obtain ⟨-, hid⟩ := mem_of_workerAuth hw
    rcases claim_ok hclaim with ⟨-, hdb⟩ | ⟨j, problem, agent, -, -, hj, -, rfl, hdb⟩
    · exact Or.inl hdb
    · exact Or.inr ⟨w, j, _, hid, hj, hres, rfl, rfl, by rw [hdb]⟩
  · exact Or.inl hdb

/-- Every owner and token in the database was issued by a claim of the run. -/
theorem issued_of_run {s₀ s : State} {tr : List Call} (h₀ : (controlPlane cfg).init s₀)
    (h : (controlPlane cfg).Run s₀ tr s) :
    ∀ j ∈ s.db.jobs, ∀ w tok, j.workerId = some w → j.leaseToken = some tok →
      ∃ call ∈ tr, call.Issues w j.id tok := by
  induction h with
  | nil =>
      obtain ⟨-, -, hjobs, -⟩ := h₀
      intro j hj
      simp [hjobs] at hj
  | @snoc tr s t call _ hstep ih =>
      intro j' hj' w tok hw htok
      have hold : (∃ j ∈ s.db.jobs, j.id = j'.id ∧ j.workerId = j'.workerId
          ∧ j.leaseToken = j'.leaseToken) → ∃ issue ∈ tr ++ [call], issue.Issues w j'.id tok := by
        rintro ⟨j, hj, hid, hjw, hjt⟩
        obtain ⟨issue, hissue, hissues⟩ := ih j hj w tok (hjw.trans hw) (hjt.trans htok)
        exact ⟨issue, List.mem_append_left _ hissue, hid ▸ hissues⟩
      by_cases hkind : call.request.kind = .claim
      · have hreq : ∃ id auth, call.request = .claim id auth := by
          cases hr : call.request <;> simp [hr, Request.kind] at hkind ⊢
        obtain ⟨id, auth, hreq⟩ := hreq
        rcases claim_step hstep hreq with hdb | ⟨v, j, claim, hv, hj, hres, hjob, hsecret, hjobs⟩
        · exact hold ⟨j', hdb ▸ hj', rfl, rfl, rfl⟩
        · rw [hjobs] at hj'
          rcases (Table.mem_update (claimRows cfg call.env j v).1 hj rfl).mp hj' with rfl | ⟨hj', -⟩
          · obtain rfl := Option.some.inj hw
            obtain rfl := Option.some.inj htok
            refine ⟨call, List.mem_append_right _ (List.mem_singleton_self _), auth, claim, ?_⟩
            exact ⟨hv ▸ hreq, hres, congrArg RunnerJob.id hjob, hsecret⟩
          · exact hold ⟨j', hj', rfl, rfl, rfl⟩
      · exact hold (owner_before (step_changes hstep) hkind hj' hw)

/-! ## What a result call does -/

/-- `compare_digest` succeeds only on equal texts. -/
theorem compareDigest_true {a b : String} (h : compareDigest a b = .ok true) : a = b := by
  unfold compareDigest at h
  split at h
  · exact of_decide_eq_true (Except.ok.inj h)
  · cases h

theorem compareDigest_self (tok : Token) : compareDigest tok.text tok.text = .ok true := by
  unfold compareDigest
  rw [if_pos ⟨tok.ascii, tok.ascii⟩, decide_eq_true rfl]

/-- An evaluation is recorded for the owner of an active job, under the job's
token, with a reading after the artifact storage before the expiry. -/
structure Accepts (s : State) (call : Call) (j : RunnerJob) (ev : Evaluation) : Prop where
  request : ∃ auth data tok, call.request = .result ev.workerId auth ev.jobId data
    ∧ j.leaseToken = some tok ∧ data.leaseToken = tok.text
  response : call.response = .evaluation ev
  job : j ∈ s.db.jobs ∧ j.id = ev.jobId
  worker : j.workerId = some ev.workerId
  active : j.status.IsActive
  /-- The third reading of the clock is the one after the storage. -/
  unexpired : ∃ e, j.leaseExpiresAt = some e ∧ call.env.tick 2 < e

/-- A result call leaves the database alone, or it records one evaluation. -/
theorem result_step {s t : State} {call : Call} {id jobId : Uid} {auth : Option String}
    {data : ResultInput} (hown : Ownership s.db) (h : (controlPlane cfg).step s call t)
    (hreq : call.request = .result id auth jobId data) :
    t.db = s.db
      ∨ ∃ j ev, Accepts s call j ev
        ∧ (∀ x, x ∈ t.db.evaluations ↔ x ∈ s.db.evaluations ∨ x = ev)
        ∧ (∀ x ∈ s.db.jobs, x.id ≠ j.id → x ∈ t.db.jobs)
        ∧ ev.failureType = data.failureType := by
  obtain ⟨ht, hhandle⟩ := h
  rw [hreq] at hhandle
  simp only [handle] at hhandle
  unfold handleResult at hhandle
  split at hhandle
  · exact Or.inl (Prod.mk.injEq .. |>.mp (Prod.mk.injEq .. |>.mp hhandle).1).1.symm
  · rename_i w hw
    obtain ⟨hmem, rfl⟩ := mem_of_workerAuth hw
    split at hhandle
    · exact Or.inl (Prod.mk.injEq .. |>.mp (Prod.mk.injEq .. |>.mp hhandle).1).1.symm
    · rename_i data' hvalid
      obtain ⟨rfl, hvalid⟩ := validate_ok hvalid
      obtain ⟨hans, -⟩ := Prod.mk.injEq .. |>.mp hhandle
      rcases respond_eq hans with ⟨ev, hok, hres⟩ | ⟨-, -, hdb, -⟩
      · have hresult : result cfg call.env s.db s.storage w jobId data'
            = ((result cfg call.env s.db s.storage w jobId data').1, .ok (t.db, ev)) :=
          Prod.ext rfl hok
        rcases result_ok hresult with ⟨-, hdb, -⟩ | ⟨j, problem, e, htarget, he, hlt, hrec⟩
        · exact Or.inl hdb
        · obtain ⟨hj, rfl, hworker, htoken, -, hactive, -⟩ := resultTarget_ok htarget
          obtain ⟨-, rfl, hevs⟩ :=
            recordResult_change ht hmem hj hworker hactive he hlt hvalid hrec
          obtain ⟨-, ⟨tok, htok⟩, -⟩ := (hown.rows j hj).owned hactive.ne_queued
          rw [htok] at htoken
          refine Or.inr ⟨j, _, ⟨⟨auth, data', tok, hreq, htok, (compareDigest_true htoken).symm⟩,
            hres, ⟨hj, rfl⟩, hworker, hactive, e, he, hlt⟩, hevs, fun x hx hne => ?_, rfl⟩
          obtain ⟨-, -, evs, -, hret⟩ := recordResult_ok hrec
          exact hret.mem_jobs.mpr (Or.inl (Table.mem_update_of_ne hx hne))
      · exact Or.inl hdb

/-! ## A lapsed job is past saving -/

/-- The job is without an evaluation and can no longer get one: it is
terminal, or its lease ran out by `c`. -/
def Lapsed (c : Time) (jobId : Uid) (db : Database) : Prop :=
  (∃ j ∈ db.jobs, j.id = jobId ∧ (j.status.IsTerminal
      ∨ (j.status.IsActive ∧ ∃ e, j.leaseExpiresAt = some e ∧ e ≤ c)))
    ∧ ∀ ev ∈ db.evaluations, ev.jobId ≠ jobId

namespace Lapsed

variable {c c₁ c₂ : Time} {jobId : Uid} {db db' : Database}

/-- No reading from `c` on finds the lease of a lapsed job unexpired. -/
theorem not_valid (h : Lapsed c jobId db) {j : RunnerJob} {e reading : Time} (hj : j ∈ db.jobs)
    (hid : j.id = jobId) (ha : j.status.IsActive) (he : j.leaseExpiresAt = some e)
    (hc : c ≤ reading) : ¬reading < e := by
  obtain ⟨⟨k, hk, hkid, hcase⟩, -⟩ := h
  obtain rfl := Table.eq_of_key_eq hj hk (hid.trans hkid.symm)
  rcases hcase with hterm | ⟨-, e', he', hle⟩
  · exact absurd hterm ha.not_terminal
  · obtain rfl := Option.some.inj (he.symm.trans he')
    exact not_lt.mpr (hle.trans hc)

/-- The clock matters where a lease is checked. -/
theorem change_of {kind : ChangeKind} (hch : Change cfg c₁ c₂ kind db db')
    (hc : kind = .renew ∨ kind = .finish → c ≤ c₁) (h : Lapsed c jobId db) :
    Lapsed c jobId db' := by
  have hfree : ∀ ev ∈ db'.evaluations, ev.jobId ≠ jobId := by
    rintro ev hev rfl
    rcases hch.evaluations ev hev with hev | ⟨hkind, j, hj, hid, ha, e, reading, he, hle, hlt⟩
    · exact h.2 ev hev rfl
    · exact h.not_valid hj hid ha he ((hc (Or.inr hkind)).trans hle) hlt
  obtain ⟨j, hj, hid, hcase⟩ := h.1
  refine ⟨?_, hfree⟩
  rcases hch.jobs.after j hj with hj' | ⟨j', hj', hrow⟩
  · exact ⟨j, hj', hid, hcase⟩
  · cases hrow with
    | claim _ hq =>
        rcases hcase with hterm | ⟨ha, -⟩
        · exact absurd hq hterm.ne_queued
        · exact absurd hq ha.ne_queued
    | renew ht _ ha he hlt =>
        exact absurd hlt (h.not_valid hj hid ha he ((hc (Or.inl rfl)).trans (ht.start_le 0)))
    | finish _ _ _ _ _ => exact ⟨_, hj', hid, Or.inl finishedRow_terminal⟩
    | expire _ _ _ _ _ _ => exact ⟨_, hj', hid, Or.inl expiredRow_terminal⟩

theorem changes_of {kind : ChangeKind} (hch : Changes cfg c₁ c₂ kind db db')
    (hc : kind = .renew ∨ kind = .finish → c ≤ c₁) (h : Lapsed c jobId db) :
    Lapsed c jobId db' := by
  induction hch with
  | refl => exact h
  | tail _ hlast ih => exact change_of hlast hc ih

theorem changes {kind : ChangeKind} (hch : Changes cfg c₁ c₂ kind db db') (hc : c ≤ c₁)
    (h : Lapsed c jobId db) : Lapsed c jobId db' :=
  changes_of hch (fun _ => hc) h

end Lapsed

/-- The call is a heartbeat or a result for the job, and it was accepted. -/
def Call.Saves (call : Call) (jobId : Uid) : Prop :=
  (∃ id auth data j, call.request = .heartbeat id auth jobId data ∧ call.response = .job j)
    ∨ ∃ id auth data ev, call.request = .result id auth jobId data
      ∧ call.response = .evaluation ev

/-- Nothing that is sent for a lapsed job is accepted. -/
theorem Lapsed.not_saves {c : Time} {jobId : Uid} {s t : State} {call : Call}
    (h : Lapsed c jobId s.db) (hc : c ≤ s.clock) (hstep : (controlPlane cfg).step s call t) :
    ¬call.Saves jobId := by
  obtain ⟨ht, hhandle⟩ := hstep
  rintro (⟨id, auth, data, j', hreq, hres⟩ | ⟨id, auth, data, ev, hreq, hres⟩)
  · rw [hreq] at hhandle
    rcases respond_eq (Prod.mk.injEq .. |>.mp hhandle).1 with ⟨a, hok, -⟩ | ⟨e, -, -, herr⟩
    · obtain ⟨w, -, hbeat⟩ := ok_of_bind hok
      obtain ⟨j, e, hj, hid, -, -, ha, he, hlt, -⟩ := heartbeat_ok hbeat
      exact h.not_valid hj hid ha he (hc.trans (ht.start_le 0)) hlt
    · rw [hres] at herr
      cases herr
  · rw [hreq, hres] at hhandle
    simp only [handle] at hhandle
    unfold handleResult at hhandle
    split at hhandle
    · cases (Prod.mk.injEq .. |>.mp (Prod.mk.injEq .. |>.mp hhandle).1).2
    · rename_i w _
      split at hhandle
      · cases (Prod.mk.injEq .. |>.mp (Prod.mk.injEq .. |>.mp hhandle).1).2
      · rcases respond_eq (Prod.mk.injEq .. |>.mp hhandle).1 with ⟨ev', hok, -⟩ | ⟨_, -, -, herr⟩
        · rcases result_ok (Prod.ext rfl hok) with ⟨hprev, -⟩ | ⟨j, _, e, htarget, he, hlt, -⟩
          · obtain ⟨hmem, hid⟩ := resultTarget_previous hprev
            exact h.2 ev' hmem hid
          · obtain ⟨hj, hid, -, -, -, ha, -⟩ := resultTarget_ok htarget
            exact h.not_valid hj hid ha he (hc.trans (ht.start_le 2)) hlt
        · cases herr

/-- **No revival.** Along every run from a state in which the job is lapsed, it
stays lapsed and nothing sent for it is accepted. -/
theorem Lapsed.run {jobId : Uid} {s t : State} {tr : List Call}
    (h : Lapsed s.clock jobId s.db) (hs : (controlPlane cfg).Reachable s)
    (hrun : (controlPlane cfg).Run s tr t) :
    Lapsed s.clock jobId t.db ∧ ∀ call ∈ tr, ¬call.Saves jobId := by
  have hboth := hrun.forall_labels
    (P := fun u => s.clock ≤ u.clock ∧ Lapsed s.clock jobId u.db)
    (Q := fun call => ¬call.Saves jobId) ?_ hs ⟨le_rfl, h⟩
  · exact ⟨hboth.1.2, hboth.2⟩
  · rintro u call v - ⟨hclock, hlapsed⟩ hstep
    exact ⟨⟨hclock.trans (step_clock hstep), hlapsed.changes (step_changes hstep) hclock⟩,
      hlapsed.not_saves hclock hstep⟩

/-! ## The reaper and evaluations exclude each other -/

/-- A row the reaper has rewritten was active and is terminal. -/
theorem expired_row {c c' : Time} {db db' : Database} (hch : Changes cfg c c' .expire db db')
    (hown : Ownership db) {j : RunnerJob} (hj : j ∈ db.jobs) :
    j ∈ db'.jobs ∨ (j.status.IsActive ∧ ∃ k ∈ db'.jobs, k.id = j.id ∧ k.status.IsTerminal) := by
  induction hch with
  | refl => exact Or.inl hj
  | @tail d d' hpre hlast ih =>
      rcases ih with hmem | ⟨ha, k, hk, hid, hterm⟩
      · rcases hlast.jobs.after j hmem with hmem | ⟨j', hj', hrow⟩
        · exact Or.inl hmem
        · cases hrow with
          | expire _ _ _ ha _ _ => exact Or.inr ⟨ha, _, hj', rfl, expiredRow_terminal⟩
      · obtain ⟨k', hk', hkk'⟩ := (hlast.evolves (changes_evolves hpre hown).2).jobs k hk
        obtain rfl := hkk'.terminal hterm
        exact Or.inr ⟨ha, k', hk', hid, hterm⟩

theorem expire_evaluations {c c' : Time} {db db' : Database}
    (hch : Changes cfg c c' .expire db db') : ∀ ev ∈ db'.evaluations, ev ∈ db.evaluations := by
  induction hch with
  | refl => exact fun _ h => h
  | tail _ hlast ih =>
      intro ev hev
      rcases hlast.evaluations ev hev with hev | ⟨hkind, -⟩
      · exact ih ev hev
      · cases hkind

/-- A job the reaper has expired is lapsed. -/
theorem lapsed_of_reaped {s t : State} {call : Call} (hs : (controlPlane cfg).Reachable s)
    (hstep : (controlPlane cfg).step s call t) (hreq : call.request = .reapJobs)
    {j : RunnerJob} (hj : j ∈ s.db.jobs) (hgone : j ∉ t.db.jobs) :
    Lapsed t.clock j.id t.db := by
  have hcons := reachable_consistent hs
  have hch := step_changes hstep
  rw [hreq] at hch
  obtain ⟨ha, k, hk, hid, hterm⟩ := (expired_row hch hcons.ownership hj).resolve_left hgone
  exact ⟨⟨k, hk, hid, Or.inl hterm⟩, fun ev hev =>
    hcons.recorded.not_evaluated hj ha ev (expire_evaluations hch ev hev)⟩

/-! ## Repeated results -/

theorem evaluationOf_of_mem {db : Database} (h : Recorded db) {ev : Evaluation}
    (hev : ev ∈ db.evaluations) : db.evaluationOf ev.jobId = some ev := by
  cases hfind : db.evaluationOf ev.jobId with
  | none => exact absurd rfl (Database.evaluationOf_eq_none.mp hfind ev hev)
  | some ev' =>
      obtain ⟨hev', hid⟩ := Database.mem_of_evaluationOf hfind
      rw [h.single ev' hev' ev hev hid]

/-- **Idempotence.** Once the job has an evaluation, a result of its owner
under its token is answered with it and changes nothing, whatever it
reports. -/
theorem result_repeated {s t : State} {call : Call} (hrec : Recorded s.db)
    (hstep : (controlPlane cfg).step s call t) {ev : Evaluation} (hev : ev ∈ s.db.evaluations)
    {j : RunnerJob} (hj : j ∈ s.db.jobs) (hid : j.id = ev.jobId) {tok : Token}
    (htok : j.leaseToken = some tok) {auth : Option String} {w : Worker}
    (hauth : workerAuth cfg s.db ev.workerId auth = .ok w) {data : ResultInput}
    (hvalid : data.Valid) (hdata : data.leaseToken = tok.text)
    (hreq : call.request = .result ev.workerId auth ev.jobId data) :
    call.response = .evaluation ev ∧ t.db = s.db ∧ t.storage = s.storage := by
  have hterm : j.status.IsTerminal := hrec.terminal hev hj hid
  have hworker : j.workerId = some w.id := by
    obtain ⟨k, hk, hkid, -, -, hkw, -⟩ := hrec.job ev hev
    rw [Table.eq_of_key_eq hj hk (hid.trans hkid.symm), hkw, (mem_of_workerAuth hauth).2]
  have hget : s.db.jobs.get? ev.jobId = some j := Table.get?_eq_some.mpr ⟨hj, hid⟩
  have hown : ownedJob (s.db.jobs.get? ev.jobId) w data.leaseToken true (call.env.tick 0)
      = .ok j := by
    unfold ownedJob
    rw [hget]
    simp only [hworker, htok, hdata, ne_eq, not_true_eq_false, if_false, Option.map_some,
      Option.getD_some, compareDigest_self, hterm, and_self, if_true]
    rfl
  have htarget : resultTarget call.env s.db w ev.jobId data = .ok (.inl ev) := by
    unfold resultTarget
    rw [hown]
    simp only [bind, Except.bind, hid, evaluationOf_of_mem hrec hev]
  obtain ⟨-, hhandle⟩ := hstep
  rw [hreq] at hhandle
  simp only [handle, handleResult, show data.validate = .ok data from hvalid, hauth, result,
    htarget, respond] at hhandle
  obtain ⟨⟨hdb, hres⟩, hst⟩ := by simpa only [Prod.mk.injEq] using hhandle
  exact ⟨hres.symm, hdb.symm, hst.symm⟩

/-! ## Fencing -/

/-- A created evaluation is accepted in the sense of `Accepts`, for the worker
and under the token of a claim of the run so far. -/
def Fenced (s : State) (tr : List Call) (call : Call) (ev : Evaluation) : Prop :=
  ∃ j tok, Accepts s call j ev ∧ j.leaseToken = some tok
    ∧ ∃ issue ∈ tr, issue.Issues ev.workerId ev.jobId tok

/-- Only a result call creates an evaluation, the one it is answered with. -/
theorem accepted_of_new {s t : State} {call : Call} (hown : Ownership s.db)
    (hstep : (controlPlane cfg).step s call t) {ev : Evaluation} (hev : ev ∈ t.db.evaluations)
    (hnew : ev ∉ s.db.evaluations) :
    ∃ j id auth jobId data, call.request = .result id auth jobId data ∧ Accepts s call j ev
      ∧ ev.failureType = data.failureType := by
  have hkind : call.request.kind = .finish := by
    have hch := step_changes hstep
    generalize t.db = d at hch hev
    induction hch with
    | refl => exact absurd hev hnew
    | tail _ hlast ih =>
        rcases hlast.evaluations ev hev with hev | ⟨hkind, -⟩
        · exact ih hev
        · exact hkind
  obtain ⟨id, auth, jobId, data, hreq⟩ :
      ∃ id auth jobId data, call.request = .result id auth jobId data := by
    cases hr : call.request <;> simp [hr, Request.kind] at hkind ⊢
  rcases result_step hown hstep hreq with hdb | ⟨j, ev', haccepts, hevs, -, hfailure⟩
  · exact absurd (hdb ▸ hev) hnew
  · obtain rfl := ((hevs ev).mp hev).resolve_left hnew
    exact ⟨j, id, auth, jobId, data, hreq, haccepts, hfailure⟩

theorem evaluation_created {s₀ s t : State} {tr : List Call} {call : Call}
    (h₀ : (controlPlane cfg).init s₀) (hrun : (controlPlane cfg).Run s₀ tr s)
    (hstep : (controlPlane cfg).step s call t) {ev : Evaluation} (hev : ev ∈ t.db.evaluations)
    (hnew : ev ∉ s.db.evaluations) : Fenced s tr call ev := by
  have hown := (reachable_consistent ⟨s₀, tr, h₀, hrun⟩).ownership
  obtain ⟨j, -, -, -, -, -, haccepts, -⟩ := accepted_of_new hown hstep hev hnew
  obtain ⟨hj, hid⟩ := haccepts.job
  obtain ⟨-, -, tok, -, htok, -⟩ := haccepts.request
  obtain ⟨issue, hmem, hissue⟩ := issued_of_run h₀ hrun j hj _ tok haccepts.worker htok
  exact ⟨j, tok, haccepts, htok, issue, hmem, hid ▸ hissue⟩

/-- **Fencing and exactly-once acceptance.** In every state `s` a run `tr`
leads to:

* no job has two evaluations;
* the next call creates an evaluation only for the recorded worker, under the
  token its claim was answered with, before the lease has run out;
* a job the next call reaps never gets an evaluation;
* a job with an evaluation is never touched again, so never reaped;
* once the lease of an active job has run out, no heartbeat and no result for
  it is accepted in any continuation;
* a repeated result is answered with the first evaluation and changes neither
  a row nor an object. -/
theorem fencing {s₀ s : State} {tr : List Call} (h₀ : (controlPlane cfg).init s₀)
    (hrun : (controlPlane cfg).Run s₀ tr s) :
    (∀ e ∈ s.db.evaluations, ∀ e' ∈ s.db.evaluations, e.jobId = e'.jobId → e = e')
      ∧ (∀ call t, (controlPlane cfg).step s call t → ∀ ev ∈ t.db.evaluations,
          ev ∉ s.db.evaluations → Fenced s tr call ev)
      ∧ (∀ call t, (controlPlane cfg).step s call t → call.request = .reapJobs →
          ∀ j ∈ s.db.jobs, j ∉ t.db.jobs → ∀ tr' u, (controlPlane cfg).Run t tr' u →
          ∀ ev ∈ u.db.evaluations, ev.jobId ≠ j.id)
      ∧ (∀ ev ∈ s.db.evaluations, ∀ j ∈ s.db.jobs, j.id = ev.jobId →
          ∀ tr' t, (controlPlane cfg).Run s tr' t → j ∈ t.db.jobs)
      ∧ (∀ j ∈ s.db.jobs, ∀ e, j.status.IsActive → j.leaseExpiresAt = some e → e ≤ s.clock →
          ∀ tr' t, (controlPlane cfg).Run s tr' t → ∀ call ∈ tr', ¬call.Saves j.id)
      ∧ ∀ call t, (controlPlane cfg).step s call t → ∀ ev ∈ s.db.evaluations,
          ∀ j ∈ s.db.jobs, j.id = ev.jobId → ∀ tok, j.leaseToken = some tok →
          ∀ auth w data, workerAuth cfg s.db ev.workerId auth = .ok w → data.Valid →
          data.leaseToken = tok.text → call.request = .result ev.workerId auth ev.jobId data →
          call.response = .evaluation ev ∧ t.db = s.db ∧ t.storage = s.storage := by
  have hs : (controlPlane cfg).Reachable s := ⟨s₀, tr, h₀, hrun⟩
  obtain ⟨hown, hrec⟩ := reachable_consistent hs
  refine ⟨hrec.single, fun call t hstep ev hev hnew => evaluation_created h₀ hrun hstep hev hnew,
    fun call t hstep hreq j hj hgone tr' u hrun' => ?_, fun ev hev j hj hid tr' t hrun' => ?_,
    fun j hj e ha he hle tr' t hrun' => ?_, ?_⟩
  · exact ((lapsed_of_reaped hs hstep hreq hj hgone).run (hs.step hstep) hrun').1.2
  · obtain ⟨j', hj', hjj'⟩ := (run_evolves hs hrun').jobs j hj
    rwa [← hjj'.terminal (hrec.terminal hev hj hid)]
  · have hlapsed : Lapsed s.clock j.id s.db :=
      ⟨⟨j, hj, rfl, Or.inr ⟨ha, e, he, hle⟩⟩, hrec.not_evaluated hj ha⟩
    exact (hlapsed.run hs hrun').2
  · intro call t hstep ev hev j hj hid tok htok auth w data hauth hvalid hdata hreq
    exact result_repeated hrec hstep hev hj hid htok hauth hvalid hdata hreq

/-- A second report with other contents reads back the recorded evaluation. -/
theorem fencing_repeated :
    (Sample.final.db.evaluations.rows.map Evaluation.jobId) = [21]
      ∧ ∀ ev ∈ Sample.final.db.evaluations,
          (Sample.final.after Sample.config ⟨.result 10 Sample.credential 21
            { Sample.result with stdout := "again" }, 60, 60, Sample.token⟩).2
              = .evaluation ev := by
  have hrun : (controlPlane Sample.config).Run Sample.start _ Sample.final :=
    replay_run (by decide)
  have hrows : ∀ ev ∈ Sample.final.db.evaluations.rows, ev.jobId = 21 ∧ ev.workerId = 10 := by
    decide +kernel
  obtain ⟨j, hj, hid, htok⟩ :
      ∃ j ∈ Sample.final.db.jobs.rows, j.id = 21 ∧ j.leaseToken = some Sample.token := by
    decide +kernel
  obtain ⟨w, -, hauth⟩ : ∃ w ∈ Sample.final.db.workers.rows,
      workerAuth Sample.config Sample.final.db 10 Sample.credential = .ok w := by decide +kernel
  have hclock : Sample.final.clock ≤ 60 := by decide +kernel
  have hvalid : ({ Sample.result with stdout := "again" } : ResultInput).Valid := by
    decide +kernel
  refine ⟨by decide +kernel, fun ev hev => ?_⟩
  obtain ⟨hjob, hworker⟩ := hrows ev hev
  have hstep : (controlPlane Sample.config).step Sample.final _ _ :=
    after_step (r := ⟨.result 10 Sample.credential 21 { Sample.result with stdout := "again" },
      60, 60, Sample.token⟩) hclock
  exact ((fencing Sample.init hrun).2.2.2.2.2 _ _ hstep ev hev j hj (hid.trans hjob.symm)
    Sample.token htok Sample.credential w _ (hworker ▸ hauth) hvalid rfl
    (by rw [hworker, hjob])).1

end AgentBenchX
