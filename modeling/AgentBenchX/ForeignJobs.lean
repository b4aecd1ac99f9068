import AgentBenchX.JobLifecycle

/-!
# Jobs of others

Job heartbeat, agent download and result all go through `owned_job`. A
request for a job its worker does not own, or under another token than the
job's, changes nothing; and it is answered with 403 unless
`compare_digest` raises on the way, which it does for text that is not
ASCII (`foreign_job`).
-/

namespace AgentBenchX

/-- The worker has claimed the job. -/
def Owns (db : Database) (id jobId : Uid) : Prop :=
  ∃ j ∈ db.jobs.rows, j.id = jobId ∧ j.workerId = some id

/-- The worker has not claimed the job, or not under this token. -/
def Foreign (db : Database) (id jobId : Uid) (token : String) : Prop :=
  ∀ j ∈ db.jobs.rows, j.id = jobId → j.workerId = some id → j.leaseToken.map Token.text ≠ some token

instance (db : Database) (id jobId : Uid) (token : String) :
    Decidable (Foreign db id jobId token) := by
  unfold Foreign
  infer_instance

def IsAscii (text : String) : Prop := text.toList.all (fun c => decide (c.toNat < 128)) = true

/-- The requests of a worker that name a job and show a token. -/
inductive Request.Shows (id : Uid) (auth : Option String) (jobId : Uid) (token : String) :
    Request → Prop
  | heartbeat (event : JobEvent) :
      Shows id auth jobId token (.heartbeat id auth jobId ⟨token, event⟩)
  | download : Shows id auth jobId token (.download id auth jobId token)
  | result (data : ResultInput) (hvalid : data.Valid) (htoken : data.leaseToken = token) :
      Shows id auth jobId token (.result id auth jobId data)

/-- The request is forbidden and leaves no trace. -/
structure Forbidden (s t : State) (response : Response) : Prop where
  response : ∃ detail, response = .error ⟨403, detail⟩
  database : t.db = s.db
  storage : t.storage = s.storage

section

variable {cfg : Config} {db : Database} {w : Worker} {jobId : Uid} {token : String}

/-- `owned_job` refuses foreign jobs, in one of two ways. -/
theorem ownedJob_foreign (hrows : ∀ j ∈ db.jobs, j.WellOwned)
    (h : Foreign db w.id jobId token) (allowTerminal : Bool) (reading : Time) :
    ∃ e, ownedJob (db.jobs.get? jobId) w token allowTerminal reading = .error e
      ∧ (e.code = 403 ↔ (Owns db w.id jobId → IsAscii token)) := by
  have hforbidden : (Owns db w.id jobId → IsAscii token) →
      ((⟨403, "Invalid job lease"⟩ : HttpError).code = 403 ↔
        (Owns db w.id jobId → IsAscii token)) :=
    fun hascii => ⟨fun _ => hascii, fun _ => rfl⟩
  cases hget : db.jobs.get? jobId with
  | none =>
      refine ⟨_, rfl, hforbidden fun ⟨j, hj, hid, _⟩ => ?_⟩
      exact absurd hid (Table.get?_eq_none.mp hget j hj)
  | some j =>
      obtain ⟨hj, hid⟩ := Table.get?_eq_some.mp hget
      unfold ownedJob
      dsimp only
      by_cases hworker : j.workerId = some w.id
      · rw [if_neg (not_not.mpr hworker)]
        have howns : Owns db w.id jobId := ⟨j, hj, hid, hworker⟩
        have hqueued : j.status ≠ .queued := by
          intro hq
          rw [((hrows j hj).queued hq).1] at hworker
          cases hworker
        obtain ⟨-, ⟨tok, htok⟩, -⟩ := (hrows j hj).owned hqueued
        have hne : tok.text ≠ token := by
          have hdiffers := h j hj hid hworker
          rw [htok] at hdiffers
          exact fun heq => hdiffers (congrArg some heq)
        rw [htok]
        by_cases hascii : IsAscii token
        · refine ⟨_, ?_, hforbidden fun _ => hascii⟩
          rw [bind_of_ok (a := false)]
          · rfl
          · show (if _ then _ else _) = _
            rw [if_pos ⟨tok.ascii, hascii⟩]
            exact congrArg Except.ok (decide_eq_false hne)
        · refine ⟨internalError, ?_, fun hcode => absurd hcode (by decide), fun himp =>
            absurd (himp howns) hascii⟩
          refine bind_of_error ?_
          exact if_neg fun hboth => hascii hboth.2
      · rw [if_pos hworker]
        refine ⟨_, rfl, hforbidden fun ⟨k, hk, hkid, hkworker⟩ => ?_⟩
        rw [Table.eq_of_key_eq hk hj (hkid.trans hid.symm)] at hkworker
        exact absurd hkworker hworker

end

/-- **Foreign jobs.** A request of an authenticated worker that shows the wrong token, or names
a job the worker does not own, is forbidden and leaves no trace exactly when it does not own the
job or the token is ASCII. -/
theorem foreign_job {cfg : Config} {s t : State} {call : Call} {id jobId : Uid}
    {auth : Option String} {token : String} {w : Worker} (hs : (controlPlane cfg).Reachable s)
    (hstep : (controlPlane cfg).step s call t) (hauth : workerAuth cfg s.db id auth = .ok w)
    (hforeign : Foreign s.db id jobId token) (hrequest : call.request.Shows id auth jobId token) :
    Forbidden s t call.response ↔ (Owns s.db id jobId → IsAscii token) := by
  have hid : w.id = id := (mem_of_workerAuth hauth).2
  have howned := ownedJob_foreign (reachable_ownership hs).rows (hid.symm ▸ hforeign)
  rw [hid] at howned
  -- Whichever way the request is made, the error of `owned_job` is the answer.
  have hanswer : ∃ e, call.response = .error e ∧ t.db = s.db ∧ t.storage = s.storage
      ∧ (e.code = 403 ↔ (Owns s.db id jobId → IsAscii token)) := by
    obtain ⟨-, hhandle⟩ := hstep
    obtain ⟨request, env, response⟩ := call
    dsimp only at hrequest hhandle ⊢
    cases hrequest with
    | heartbeat event =>
        obtain ⟨e, he, hcode⟩ := howned false (env.tick 0)
        have hmethod : heartbeat cfg env s.db w jobId ⟨token, event⟩ = .error e := bind_of_error he
        simp only [handle, hauth, bind, Except.bind, hmethod, respond] at hhandle
        obtain ⟨⟨hdb, hresponse⟩, hst⟩ := by simpa only [Prod.mk.injEq] using hhandle
        exact ⟨e, hresponse.symm, hdb.symm, hst.symm, hcode⟩
    | download =>
        obtain ⟨e, he, hcode⟩ := howned false (env.tick 0)
        have hmethod : download env s.db w jobId token = .error e := bind_of_error he
        simp only [handle, hauth, bind, Except.bind, hmethod, respond] at hhandle
        obtain ⟨⟨hdb, hresponse⟩, hst⟩ := by simpa only [Prod.mk.injEq] using hhandle
        exact ⟨e, hresponse.symm, hdb.symm, hst.symm, hcode⟩
    | result data hvalid htoken =>
        obtain ⟨e, he, hcode⟩ := howned true (env.tick 0)
        have htarget : resultTarget env s.db w jobId data = .error e :=
          bind_of_error (htoken ▸ he)
        simp only [handle, handleResult, show data.validate = .ok data from hvalid, hauth, result,
          htarget, respond] at hhandle
        obtain ⟨⟨hdb, hresponse⟩, hst⟩ := by simpa only [Prod.mk.injEq] using hhandle
        exact ⟨e, hresponse.symm, hdb.symm, hst.symm, hcode⟩
  obtain ⟨e, hresponse, hdb, hst, hcode⟩ := hanswer
  refine ⟨fun h => ?_, fun h => ⟨⟨e.detail, ?_⟩, hdb, hst⟩⟩
  · obtain ⟨detail, heq⟩ := h.response
    refine hcode.mp ?_
    rw [Response.error.inj (hresponse.symm.trans heq)]
  · rw [hresponse, ← hcode.mpr h]

/-- The request, handled in the state with the claimed job. -/
def Sample.shown (request : Request) : State × Response :=
  reporting.after config ⟨request, 60, 60, token⟩

/-- The claimed job is another one. -/
theorem foreign_job_unknown : Forbidden Sample.reporting
    (Sample.shown (.download 10 Sample.credential 99 "é")).1
    (Sample.shown (.download 10 Sample.credential 99 "é")).2 := by
  have hreach : (controlPlane Sample.config).Reachable Sample.reporting :=
    replay_reachable (by decide) (by decide)
  have hstep : (controlPlane Sample.config).step Sample.reporting _ _ :=
    after_step (r := ⟨.download 10 Sample.credential 99 "é", 60, 60, Sample.token⟩)
      (by decide +kernel)
  obtain ⟨w, -, hw⟩ : ∃ w ∈ Sample.reporting.db.workers.rows,
      workerAuth Sample.config Sample.reporting.db 10 Sample.credential = .ok w := by decide +kernel
  refine (foreign_job hreach hstep hw ?_ (.download)).mpr fun ⟨j, hj, hid, _⟩ => ?_
  · decide +kernel
  · have hjobs : ∀ j ∈ Sample.reporting.db.jobs.rows, j.id ≠ 99 := by decide +kernel
    exact absurd hid (hjobs j hj)

/-- A token that is not ASCII is not forbidden but an internal error. -/
theorem foreign_token_error :
    Foreign Sample.reporting.db 10 21 "é"
      ∧ (∃ w ∈ Sample.reporting.db.workers.rows,
        workerAuth Sample.config Sample.reporting.db 10 Sample.credential = .ok w)
      ∧ ¬Forbidden Sample.reporting
        (Sample.shown (.heartbeat 10 Sample.credential 21 ⟨"é", .jobStarted⟩)).1
        (Sample.shown (.heartbeat 10 Sample.credential 21 ⟨"é", .jobStarted⟩)).2 := by
  have hresponse : (Sample.shown (.heartbeat 10 Sample.credential 21 ⟨"é", .jobStarted⟩)).2 =
      .error internalError := by decide +kernel
  refine ⟨by decide +kernel, by decide +kernel, fun h => ?_⟩
  obtain ⟨detail, heq⟩ := h.response
  have hcode := congrArg HttpError.code (Response.error.inj (hresponse.symm.trans heq))
  exact absurd (show (500 : ℕ) = 403 from hcode) (by decide)

end AgentBenchX
