import AgentBenchX.Evidence
import AgentBenchX.Fencing

/-!
# All or nothing

A result either becomes an evaluation with all its rows and artifacts, or
it leaves the database as it was. What it had written to the storage by
then stays, under an evaluation id that nobody refers to; so it is never
in the way of a later report (`result_accepted`).
-/

namespace AgentBenchX

/-! ## Artifacts -/

namespace Storage

/-- The objects of an evaluation's artifacts. -/
def objects (path : ArtifactPath) (contents : List (String × Artifact)) : List StoredObject :=
  contents.map fun c => ⟨.artifact path c.1, c.2⟩

theorem create_rows (st : Storage) (key : StorageKey) (content : Artifact) :
    ∃ extra, (st.create key content).rows = st.rows ++ extra ∧ ∀ o ∈ extra, o.key = key := by
  unfold create
  cases hins : st.insert? ⟨key, content⟩ with
  | none => exact ⟨[], (List.append_nil _).symm, by simp⟩
  | some st' => exact ⟨[⟨key, content⟩], Table.rows_insert? hins, by simp⟩

/-- A write adds at most the object it is for, and this one if it succeeds. -/
theorem put_rows (st : Storage) (key : StorageKey) (content : Artifact) (outcome : PutOutcome) :
    (∃ extra, (st.put key content outcome).1.rows = st.rows ++ extra ∧ ∀ o ∈ extra, o.key = key)
      ∧ ((st.put key content outcome).2 = .ok () →
        (st.put key content outcome).1.rows = st.rows ++ [⟨key, content⟩]) := by
  rcases outcome with - | ⟨e, - | left⟩
  · unfold put
    cases hins : st.insert? ⟨key, content⟩ with
    | none => exact ⟨⟨[], (List.append_nil _).symm, by simp⟩, nofun⟩
    | some st' =>
        have hrows := Table.rows_insert? hins
        exact ⟨⟨[⟨key, content⟩], hrows, by simp⟩, fun _ => hrows⟩
  · exact ⟨⟨[], (List.append_nil _).symm, by simp⟩, nofun⟩
  · exact ⟨create_rows st key left, nofun⟩

theorem putAll_rows (path : ArtifactPath) (outcome : ℕ → PutOutcome)
    (contents : List (String × Artifact)) (i : ℕ) (st : Storage) :
    (∃ extra, (putAll path outcome i contents st).1.rows = st.rows ++ extra
        ∧ ∀ o ∈ extra, ∃ name, o.key = .artifact path name)
      ∧ ((putAll path outcome i contents st).2 = .ok () →
        (putAll path outcome i contents st).1.rows = st.rows ++ objects path contents) := by
  induction contents generalizing i st with
  | nil => exact ⟨⟨[], (List.append_nil _).symm, by simp⟩, fun _ => (List.append_nil _).symm⟩
  | cons c contents ih =>
      obtain ⟨name, content⟩ := c
      obtain ⟨⟨extra, hrows, hkeys⟩, hok⟩ := put_rows st (.artifact path name) content (outcome i)
      unfold putAll
      rcases hput : st.put (.artifact path name) content (outcome i) with ⟨st', e | u⟩
      · rw [hput] at hrows
        exact ⟨⟨extra, hrows, fun o ho => ⟨name, hkeys o ho⟩⟩, nofun⟩
      · rw [hput] at hrows hok
        obtain ⟨⟨rest, hrest, hnames⟩, hall⟩ := ih (i + 1) st'
        refine ⟨⟨extra ++ rest, ?_, fun o ho => ?_⟩, fun h => ?_⟩
        · rw [← List.append_assoc, ← hrows]
          exact hrest
        · rcases List.mem_append.mp ho with ho | ho
          · exact ⟨name, hkeys o ho⟩
          · exact hnames o ho
        · refine (hall h).trans ?_
          rw [show st'.rows = st.rows ++ [⟨.artifact path name, content⟩] from hok rfl,
            List.append_assoc]
          rfl

/-- Writes that do not raise, under names of their own and a path nobody has used, succeed. -/
theorem putAll_succeeds {path : ArtifactPath} {outcome : ℕ → PutOutcome}
    (hput : ∀ i, outcome i = .succeeds) {contents : List (String × Artifact)}
    (hnames : (contents.map Prod.fst).Nodup) (i : ℕ) {st : Storage}
    (hfree : ∀ o ∈ st, ∀ c ∈ contents, o.key ≠ .artifact path c.1) :
    ∃ st', putAll path outcome i contents st = (st', .ok ()) := by
  induction contents generalizing i st with
  | nil => exact ⟨st, rfl⟩
  | cons c contents ih =>
      obtain ⟨name, content⟩ := c
      obtain ⟨hname, hnames⟩ := List.nodup_cons.mp hnames
      obtain ⟨st', hins⟩ := Table.insert?_isSome (t := st) (r := ⟨.artifact path name, content⟩)
        fun o ho => hfree o ho _ (List.mem_cons_self ..)
      have hwrite : st.put (.artifact path name) content (outcome i) = (st', .ok ()) := by
        simp only [hput i, put, hins]
      unfold putAll
      rw [hwrite]
      refine ih hnames (i + 1) fun o ho d hd => ?_
      rcases (Table.mem_insert? hins).mp ho with ho | rfl
      · exact hfree o ho d (List.mem_cons_of_mem _ hd)
      · intro heq
        obtain ⟨-, hsame⟩ := StorageKey.artifact.inj heq
        exact hname (List.mem_map.mpr ⟨d, hd, hsame.symm⟩)

end Storage

theorem artifacts_nodup (data : ResultInput) (context : List (String × ReportValue)) :
    ((artifacts data context).map Prod.fst).Nodup := by
  show ["stdout.log", "stderr.log", "agent_output.log", "patch.diff", "test_result.json",
    "analysis.md"].Nodup
  decide

/-! ## References -/

/-- No row mentions the evaluation, as its own or in a path. -/
structure Database.Unreferenced (db : Database) (id : Uid) : Prop where
  evaluations : ∀ e ∈ db.evaluations, e.id ≠ id ∧ e.artifactPath.evaluationId ≠ id
  testResults : ∀ t ∈ db.testResults, t.evaluationId ≠ id
  logs : ∀ l ∈ db.logs, l.evaluationId ≠ id
    ∧ ∀ path name, l.storagePath = .artifact path name → path.evaluationId ≠ id
  patches : ∀ p ∈ db.patches, p.evaluationId ≠ id
    ∧ ∀ path name, p.storagePath = .artifact path name → path.evaluationId ≠ id
  scores : ∀ s ∈ db.scores, s.evaluationId ≠ id

theorem Evidenced.unreferenced {cfg : Config} {db : Database} (h : Evidenced cfg db) {id : Uid}
    (hid : ∀ e ∈ db.evaluations, e.id ≠ id) : db.Unreferenced id := by
  have hpath : ∀ e ∈ db.evaluations, e.artifactPath.evaluationId ≠ id := by
    intro e he
    obtain ⟨data, -, hreports, -⟩ := h.documented e he
    rw [hreports.artifactPath]
    exact hid e he
  refine ⟨fun e he => ⟨hid e he, hpath e he⟩, unreferred h.tests hid, fun l hl => ?_,
    fun p hp => ?_, unreferred h.scores hid⟩
  · refine ⟨unreferred h.logs hid l hl, fun path name heq => ?_⟩
    obtain ⟨e, he, hle⟩ := h.logs l hl
    obtain ⟨data, -, -, hdocumented⟩ := h.documented e he
    have hmem : l ∈ db.logs.filter fun l => decide (l.evaluationId = e.id) :=
      List.mem_filter.mpr ⟨hl, decide_eq_true hle.symm⟩
    rw [hdocumented.logs] at hmem
    obtain ⟨kind, -, rfl⟩ := List.mem_map.mp hmem
    obtain ⟨rfl, -⟩ := StorageKey.artifact.inj heq
    exact hpath e he
  · refine ⟨unreferred h.patches hid p hp, fun path name heq => ?_⟩
    obtain ⟨e, he, hpe⟩ := h.patches p hp
    obtain ⟨data, -, -, hdocumented⟩ := h.documented e he
    have hmem : p ∈ db.patches.filter fun p => decide (p.evaluationId = e.id) :=
      List.mem_filter.mpr ⟨hp, decide_eq_true hpe.symm⟩
    rw [hdocumented.patches] at hmem
    obtain rfl := List.mem_singleton.mp hmem
    obtain ⟨rfl, -⟩ := StorageKey.artifact.inj heq
    exact hpath e he

/-- Submissions refer to versions that exist. -/
def Submitted (db : Database) : Prop :=
  ∀ s ∈ db.submissions, (∃ v ∈ db.agentVersions, v.id = s.agentVersionId)
    ∧ ∃ p ∈ db.problemVersions, p.id = s.problemVersionId

theorem Submitted.change {cfg : Config} {c c' : Time} {kind : ChangeKind} {db db' : Database}
    (hch : Change cfg c c' kind db db') (h : Submitted db) : Submitted db' := by
  cases hch with
  | @enqueue _ db₁ _ submission _ _ hsub hjob =>
      have hversions : (db.agentVersions.get? submission.agentVersionId).isSome
          ∧ (db.problemVersions.get? submission.problemVersionId).isSome := by
        unfold Database.insertSubmission at hsub
        split at hsub
        · assumption
        · cases hsub
      obtain ⟨ts, hts, rfl⟩ := Database.insertSubmission_eq hsub
      obtain ⟨-, -, t, -, rfl⟩ := Database.insertJob_eq hjob
      intro s hs
      rcases (Table.mem_insert? hts).mp hs with hs | rfl
      · exact h s hs
      · obtain ⟨v, hv⟩ := Option.isSome_iff_exists.mp hversions.1
        obtain ⟨p, hp⟩ := Option.isSome_iff_exists.mp hversions.2
        exact ⟨⟨v, Table.get?_eq_some.mp hv⟩, p, Table.get?_eq_some.mp hp⟩
  | finish _ _ _ _ _ _ _ _ _ _ hret =>
      rw [hret.frame]
      exact h
  | expire _ _ _ _ _ _ _ _ hret =>
      rw [hret.frame]
      exact h
  | _ => exact h

theorem reachable_submitted {cfg : Config} {s : State} (hs : (controlPlane cfg).Reachable s) :
    Submitted s.db := by
  refine hs.rec_on (fun _ h sub hsub => ?_)
    fun _ _ _ _ h hstep => step_preserves Submitted.change hstep h
  rw [h.1] at hsub
  exact absurd hsub Table.not_mem_empty

/-! ## A report in time -/

/-- Nothing goes wrong around a request, and what `uid` hands out is new. -/
structure Env.Healthy (env : Env) (s : State) : Prop extends env.Draws s.db where
  put : ∀ i, env.put i = .succeeds
  commit : env.commit = true
  objects : ∀ o ∈ s.storage, ∀ path name, o.key = .artifact path name →
    path.evaluationId ≠ env.fresh 0

/-- A worker reports for a job it owns, and the lease outlasts the storage of the artifacts. -/
structure InLease (cfg : Config) (s : State) (call : Call) (id jobId : Uid) (auth : Option String)
    (data : ResultInput) : Prop where
  request : call.request = .result id auth jobId data
  authenticated : ∃ w, workerAuth cfg s.db id auth = .ok w
  job : ∃ j ∈ s.db.jobs, j.id = jobId ∧ j.workerId = some id ∧ j.status.IsActive
    ∧ (∃ token, j.leaseToken = some token ∧ data.leaseToken = token.text)
    ∧ ∃ e, j.leaseExpiresAt = some e ∧ call.env.tick 2 < e

section Reports

variable {cfg : Config} {s t : State} {call : Call} {id jobId : Uid} {auth : Option String}
  {data : ResultInput}

theorem leaseUnexpired_of_lt {j : RunnerJob} {e reading : Time} {detail : String}
    (he : j.leaseExpiresAt = some e) (hlt : reading < e) :
    leaseUnexpired j reading detail = .ok () := by
  rw [leaseUnexpired, he]
  exact if_neg (not_le.mpr hlt)

theorem leaseValid_of_lt {j : RunnerJob} {e reading : Time} {detail : String}
    (ha : j.status.IsActive) (he : j.leaseExpiresAt = some e) (hlt : reading < e) :
    leaseValid j reading detail = .ok () := by
  rw [leaseValid, if_pos ha]
  exact leaseUnexpired_of_lt he hlt

theorem require_of_mem {α : Type} [Keyed Uid α] (model : String) {t : Table α} {r : α}
    (hr : r ∈ t) :
    require model t (Keyed.key r) = .ok r := by
  rw [require, Table.get?_eq_some.mpr ⟨hr, rfl⟩]

/-- What a report in time is recorded for. -/
theorem InLease.target (hs : (controlPlane cfg).Reachable s) (ht : Timed call.env s.clock t.clock)
    (h : InLease cfg s call id jobId auth data) : ∃ w j problem e,
      workerAuth cfg s.db id auth = .ok w
        ∧ resultTarget call.env s.db w jobId data = .ok (.inr (j, problem))
        ∧ j.leaseExpiresAt = some e ∧ call.env.tick 2 < e := by
  obtain ⟨w, hw⟩ := h.authenticated
  obtain ⟨j, hj, rfl, hworker, ha, ⟨token, htoken, hdata⟩, e, he, hlt⟩ := h.job
  obtain ⟨sub, hsub, hsubj⟩ := (reachable_attempts hs).submitted j hj
  obtain ⟨-, problem, hproblem, hproblemj⟩ := reachable_submitted hs sub hsub
  have hget : s.db.jobs.get? j.id = some j := Table.get?_eq_some.mpr ⟨hj, rfl⟩
  have hnone : s.db.evaluationOf j.id = none :=
    Database.evaluationOf_eq_none.mpr ((reachable_consistent hs).recorded.not_evaluated hj ha)
  have hvalid : ∀ i ≤ 2, ∀ detail, leaseValid j (call.env.tick i) detail = .ok () :=
    fun i hi detail => leaseValid_of_lt ha he ((ht.mono hi).trans_lt hlt)
  have hown : ownedJob (s.db.jobs.get? j.id) w data.leaseToken true (call.env.tick 0) = .ok j := by
    unfold ownedJob
    rw [hget]
    simp only [hworker, (mem_of_workerAuth hw).2, htoken, hdata, ne_eq, not_true_eq_false, if_false,
      Option.map_some, Option.getD_some, compareDigest_self, ha.not_terminal, and_false]
    exact (bind_of_ok rfl).trans (bind_of_ok (hvalid 0 (by omega) _))
  refine ⟨w, j, problem, e, hw, ?_, he, hlt⟩
  unfold resultTarget
  rw [bind_of_ok hown]
  simp only [hnone]
  rw [bind_of_ok (hvalid 1 (by omega) _),
    bind_of_ok (a := sub) (hsubj ▸ require_of_mem "Submission" hsub),
    bind_of_ok (a := problem) (hproblemj ▸ require_of_mem "ProblemVersion" hproblem)]

/-- Only a constraint or the commit stops the recording of a result. -/
theorem recordResult_error {env : Env} {db : Database} {w : Worker} {j : RunnerJob}
    {problem : ProblemVersion} {e : HttpError} (hcommit : env.commit = true)
    (h : recordResult cfg env db w j problem data = .error e) : e = integrityError := by
  have hinserted : ∀ {db? : Option Database}, inserted db? = .error e → e = integrityError := by
    intro db? herr
    cases db? with
    | none => exact (Except.error.inj herr).symm
    | some d => cases herr
  rcases error_of_bind h with herr | ⟨db₁, -, h⟩
  · exact hinserted herr
  · rcases error_of_bind h with herr | ⟨db₂, -, h⟩
    · unfold retryIf at herr
      split at herr
      · exact hinserted herr
      · cases herr
    · rw [Env.committed, hcommit] at h
      cases h

/-- **A report in time is accepted.** -/
theorem result_accepted (hs : (controlPlane cfg).Reachable s)
    (hstep : (controlPlane cfg).step s call t) (hvalid : data.Valid)
    (hlease : InLease cfg s call id jobId auth data) (hhealthy : call.env.Healthy s) :
    ∃ ev, call.response = .evaluation ev := by
  obtain ⟨ht, hhandle⟩ := hstep
  obtain ⟨w, j, problem, e, hw, htarget, he, hlt⟩ := hlease.target hs ht
  have hfree : ∀ o ∈ s.storage, ∀ c ∈ artifacts data (reportContext w problem j),
      o.key ≠ .artifact ⟨call.env.fresh 0, problem.problemId⟩ c.1 :=
    fun o ho c _ heq => hhealthy.objects o ho _ _ heq rfl
  obtain ⟨st, hst⟩ := Storage.putAll_succeeds hhealthy.put
    (artifacts_nodup data (reportContext w problem j)) 0 hfree
  obtain ⟨recorded, hrecorded⟩ : ∃ r, recordResult cfg call.env s.db w j problem data = .ok r := by
    cases hrecord : recordResult cfg call.env s.db w j problem data with
    | ok r => exact ⟨r, rfl⟩
    | error err =>
        obtain rfl := recordResult_error hhealthy.commit hrecord
        exact absurd hrecord
          (recordResult_ne_integrityError (reachable_attempts hs) hhealthy.toDraws htarget)
  rw [hlease.request] at hhandle
  simp only [handle, handleResult, show data.validate = .ok data from hvalid, hw, result, htarget,
    hst, leaseUnexpired_of_lt he hlt, hrecorded, bind, Except.bind, respond] at hhandle
  obtain ⟨⟨-, hresponse⟩, -⟩ := by simpa only [Prod.mk.injEq] using hhandle
  exact ⟨_, hresponse.symm⟩

/-! ## All or nothing -/

/-- The artifacts of a result that was not accepted lie under an evaluation id of their own. -/
def Orphans (s t : State) (env : Env) : Prop :=
  ∃ extra problemId, t.storage.rows = s.storage.rows ++ extra
    ∧ ∀ o ∈ extra, ∃ name, o.key = .artifact ⟨env.fresh 0, problemId⟩ name

/-- The rows and artifacts of a result that was accepted. -/
structure Records (cfg : Config) (s t : State) (jobId : Uid) (data : ResultInput)
    (ev : Evaluation) :
    Prop where
  evaluations : t.db.evaluations.rows = s.db.evaluations.rows ++ [ev]
  reports : ev.jobId = jobId ∧ ev.Reports data
  testResults : t.db.testResults = s.db.testResults ++ data.tests.map fun test => ⟨ev.id, test⟩
  logs : t.db.logs = s.db.logs ++ ["stdout", "stderr", "agent_output"].map fun kind =>
    ⟨ev.id, kind, .artifact ev.artifactPath (kind ++ ".log")⟩
  patches : t.db.patches =
    s.db.patches ++ [⟨ev.id, .artifact ev.artifactPath "patch.diff", cfg.sha256 data.patch⟩]
  scores : t.db.scores = s.db.scores ++ [⟨ev.id, ev.metrics.score⟩]
  artifacts : ∃ context,
    t.storage.rows = s.storage.rows ++ Storage.objects ev.artifactPath (artifacts data context)

theorem records_of_recordResult {env : Env} {w : Worker} {j : RunnerJob}
    {problem : ProblemVersion} {ev : Evaluation} {context : List (String × ReportValue)}
    (hst : t.storage.rows = s.storage.rows ++
      Storage.objects ⟨env.fresh 0, problem.problemId⟩ (artifacts data context))
    (h : recordResult cfg env s.db w j problem data = .ok (t.db, ev)) :
    Records cfg s t j.id data ev := by
  obtain ⟨rfl, -, evaluations, hins, hret⟩ := recordResult_ok h
  have hsame := hret.sameEvidence
  refine ⟨?_, ⟨rfl, rfl, rfl, rfl, rfl⟩, hsame.testResults, hsame.logs, hsame.patches, hsame.scores,
    context, hst⟩
  rw [hsame.evaluations]
  exact Table.rows_insert? hins

/-- The three ways a result call can end. -/
inductive ResultEnds (cfg : Config) (s t : State) (env : Env) (jobId : Uid) (data : ResultInput) :
    Response → Prop
  | refused {response : Response} (hnone : ∀ ev, response ≠ .evaluation ev) (hdb : t.db = s.db)
      (horphans : Orphans s t env) : ResultEnds cfg s t env jobId data response
  | repeated {ev : Evaluation} (hev : ev ∈ s.db.evaluations) (hjob : ev.jobId = jobId)
      (hdb : t.db = s.db) (hst : t.storage = s.storage) :
      ResultEnds cfg s t env jobId data (.evaluation ev)
  | recorded {ev : Evaluation} (h : Records cfg s t jobId data ev) :
      ResultEnds cfg s t env jobId data (.evaluation ev)

theorem orphans_of_eq {env : Env} (h : t.storage = s.storage) : Orphans s t env :=
  ⟨[], 0, by rw [h, List.append_nil], by simp⟩

/-- What a result does once its worker is authenticated. -/
theorem result_outcome {env : Env} {w : Worker} {answer : Except HttpError (Database × Evaluation)}
    {st : Storage} {response : Response}
    (h : result cfg env s.db s.storage w jobId data = (st, answer)) (hst : t.storage = st)
    (hanswer : respond s.db .evaluation answer = (t.db, response)) :
    ResultEnds cfg s t env jobId data response := by
  unfold result at h
  rcases htarget : resultTarget env s.db w jobId data with e | ev | ⟨j, problem⟩
  · rw [htarget] at h
    obtain ⟨rfl, rfl⟩ := Prod.mk.injEq .. |>.mp h
    obtain ⟨hdb, rfl⟩ := Prod.mk.injEq .. |>.mp hanswer
    exact .refused (fun _ h => nomatch h) hdb.symm (orphans_of_eq hst)
  · rw [htarget] at h
    obtain ⟨rfl, rfl⟩ := Prod.mk.injEq .. |>.mp h
    obtain ⟨hdb, rfl⟩ := Prod.mk.injEq .. |>.mp hanswer
    obtain ⟨hev, hjob⟩ := resultTarget_previous htarget
    exact .repeated hev hjob hdb.symm hst
  · obtain ⟨-, hid, -⟩ := resultTarget_ok htarget
    obtain ⟨⟨extra, hrows, hnames⟩, hall⟩ := Storage.putAll_rows
      ⟨env.fresh 0, problem.problemId⟩ env.put (artifacts data (reportContext w problem j)) 0
      s.storage
    rw [htarget] at h
    dsimp only at h
    rcases hput : s.storage.putAll ⟨env.fresh 0, problem.problemId⟩ env.put 0
      (artifacts data (reportContext w problem j)) with ⟨st', e | u⟩ <;> rw [hput] at h hrows hall
    · obtain ⟨rfl, rfl⟩ := Prod.mk.injEq .. |>.mp h
      obtain ⟨hdb, rfl⟩ := Prod.mk.injEq .. |>.mp hanswer
      exact .refused (fun _ h => nomatch h) hdb.symm ⟨extra, problem.problemId, hst ▸ hrows, hnames⟩
    · obtain ⟨rfl, rfl⟩ := Prod.mk.injEq .. |>.mp h
      rcases respond_eq hanswer with ⟨ev, hok, rfl⟩ | ⟨e, -, hdb, rfl⟩
      · obtain ⟨-, -, hrecord⟩ := ok_of_bind hok
        exact .recorded (hid ▸ records_of_recordResult (hst ▸ hall rfl) hrecord)
      · exact .refused (fun _ h => nomatch h) hdb ⟨extra, problem.problemId, hst ▸ hrows, hnames⟩

theorem result_ends (hstep : (controlPlane cfg).step s call t)
    (hreq : call.request = .result id auth jobId data) :
    ResultEnds cfg s t call.env jobId data call.response := by
  have hhandle : handleResult cfg call.env s.db s.storage id auth jobId data =
      ((t.db, call.response), t.storage) := by
    rw [← hstep.2, hreq]
    rfl
  unfold handleResult at hhandle
  rcases hw : workerAuth cfg s.db id auth with e | w
  · rw [hw] at hhandle
    obtain ⟨hanswer, hst⟩ := Prod.mk.injEq .. |>.mp hhandle
    obtain ⟨hdb, hresponse⟩ := Prod.mk.injEq .. |>.mp hanswer
    exact .refused (fun _ h => nomatch hresponse.trans h) hdb.symm (orphans_of_eq hst.symm)
  · rw [hw] at hhandle
    dsimp only at hhandle
    rcases hvalid : data.validate with errors | data'
    · rw [hvalid] at hhandle
      obtain ⟨hanswer, hst⟩ := Prod.mk.injEq .. |>.mp hhandle
      obtain ⟨hdb, hresponse⟩ := Prod.mk.injEq .. |>.mp hanswer
      exact .refused (fun _ h => nomatch hresponse.trans h) hdb.symm (orphans_of_eq hst.symm)
    · obtain ⟨rfl, -⟩ := validate_ok hvalid
      rw [hvalid] at hhandle
      obtain ⟨hanswer, hst⟩ := Prod.mk.injEq .. |>.mp hhandle
      exact result_outcome rfl hst.symm hanswer

end Reports

/-- **All or nothing.** In every reachable state a result call that is not answered with an
evaluation leaves every row as it was and only objects nobody refers to, and whatever happens
next, a report of the same result in time is accepted. A call that is the first to be answered
with an evaluation has recorded it with all its rows and artifacts. -/
theorem result_atomic {cfg : Config} {s t : State} {call : Call} {id jobId : Uid}
    {auth : Option String} {data : ResultInput} (hs : (controlPlane cfg).Reachable s)
    (hstep : (controlPlane cfg).step s call t) (hreq : call.request = .result id auth jobId data) :
    ((∀ ev, call.response ≠ .evaluation ev) →
        t.db = s.db ∧ Orphans s t call.env
          ∧ ((∀ e ∈ s.db.evaluations, e.id ≠ call.env.fresh 0) →
            s.db.Unreferenced (call.env.fresh 0))
          ∧ ∀ tr u call' v auth', (controlPlane cfg).Run t tr u →
            (controlPlane cfg).step u call' v → data.Valid →
            InLease cfg u call' id jobId auth' data →
            call'.env.Healthy u → ∃ ev, call'.response = .evaluation ev)
      ∧ ∀ ev, call.response = .evaluation ev → (∀ e ∈ s.db.evaluations, e.jobId ≠ jobId) →
        Records cfg s t jobId data ev := by
  have hends := result_ends hstep hreq
  refine ⟨fun hnone => ?_, fun ev hev hfirst => ?_⟩
  · have hlater : ∀ tr u call' v auth', (controlPlane cfg).Run t tr u →
        (controlPlane cfg).step u call' v → data.Valid → InLease cfg u call' id jobId auth' data →
        call'.env.Healthy u → ∃ ev, call'.response = .evaluation ev :=
      fun tr u call' v auth' hrun hstep' hvalid hlease hhealthy =>
        result_accepted ((hs.step hstep).run hrun) hstep' hvalid hlease hhealthy
    have hunreferenced : (∀ e ∈ s.db.evaluations, e.id ≠ call.env.fresh 0) →
        s.db.Unreferenced (call.env.fresh 0) := (reachable_evidenced hs).unreferenced
    generalize call.response = response at hnone hends
    cases hends with
    | refused _ hdb horphans => exact ⟨hdb, horphans, hunreferenced, hlater⟩
    | repeated _ _ _ _ => exact absurd rfl (hnone _)
    | recorded _ => exact absurd rfl (hnone _)
  · rw [hev] at hends
    cases hends with
    | refused hnone _ _ => exact absurd rfl (hnone ev)
    | repeated hold hjob _ _ => exact absurd hjob (hfirst ev hold)
    | recorded h => exact h

namespace Sample

/-- The storage fails at the third artifact and leaves an empty object. -/
def interrupted : Env :=
  { Env.quiet 50 50 token with
    put := fun i =>
      if i = 2 then .raises ⟨503, "Object storage unavailable"⟩ (some (.text "")) else .succeeds }

def report : Request := .result 10 credential 21 result

def afterInterruption : State :=
  let answer := handle config interrupted reporting.db reporting.storage report
  ⟨answer.1.1, answer.2, 50⟩

theorem interrupted_step : (controlPlane config).step reporting
    ⟨report, interrupted, .error ⟨503, "Object storage unavailable"⟩⟩ afterInterruption :=
  ⟨⟨fun _ _ _ => le_rfl, by decide +kernel, fun _ => le_rfl⟩, by decide +kernel⟩

theorem healthy_again : (Env.quiet 60 60 token).Healthy afterInterruption := by
  have hjobs : ∀ j ∈ afterInterruption.db.jobs.rows, j.id < 60 := by decide +kernel
  have hevs : afterInterruption.db.evaluations.rows = [] := by decide +kernel
  have hobjects : afterInterruption.storage.rows.all (fun o =>
      match o.key with
      | .artifact path _ => path.evaluationId < 60
      | .agentFile _ _ => true) = true := by decide +kernel
  refine ⟨⟨fun i k h => Nat.add_left_cancel h, fun j hj i => ?_, fun e he => ?_⟩, fun _ => rfl, rfl,
    fun o ho path name hkey => ?_⟩
  · exact Nat.ne_of_lt ((hjobs j hj).trans_le (Nat.le_add_right 60 i))
  · rw [Table.mem_def, hevs] at he
    exact absurd he List.not_mem_nil
  · have hpath := List.all_eq_true.mp hobjects o ho
    rw [hkey] at hpath
    exact Nat.ne_of_lt (of_decide_eq_true hpath)

end Sample

/-- The report that was interrupted leaves three objects and no row; the next one is accepted. -/
theorem result_atomic_interrupted :
    Sample.afterInterruption.db = Sample.reporting.db
      ∧ Sample.afterInterruption.storage.rows.length = 3
      ∧ ∃ ev, (Sample.afterInterruption.after Sample.config
          ⟨Sample.report, 60, 60, Sample.token⟩).2 = .evaluation ev := by
  have hreach : (controlPlane Sample.config).Reachable Sample.reporting :=
    replay_reachable (by decide) (by decide)
  have hvalid : Sample.result.Valid := by decide +kernel
  have hauth : ∃ w ∈ Sample.afterInterruption.db.workers.rows,
      workerAuth Sample.config Sample.afterInterruption.db 10 Sample.credential = .ok w := by
    decide +kernel
  have hjob : ∃ j ∈ Sample.afterInterruption.db.jobs.rows, j.id = 21 ∧ j.workerId = some 10
      ∧ j.status.IsActive ∧ j.leaseToken = some Sample.token ∧ j.leaseExpiresAt = some 123 := by
    decide +kernel
  obtain ⟨w, -, hw⟩ := hauth
  obtain ⟨j, hj, hid, hworker, ha, htoken, he⟩ := hjob
  obtain ⟨hdb, -, -, hlater⟩ :=
    (result_atomic hreach Sample.interrupted_step rfl).1 fun _ h => nomatch h
  have hstep : (controlPlane Sample.config).step Sample.afterInterruption _ _ :=
    after_step (r := ⟨Sample.report, 60, 60, Sample.token⟩) (by decide +kernel)
  refine ⟨hdb, by decide +kernel, hlater [] _ _ _ _ .nil hstep hvalid
    ⟨rfl, ⟨w, hw⟩, j, hj, hid, hworker, ha, ⟨_, htoken, rfl⟩, 123, he, ?_⟩ Sample.healthy_again⟩
  show (60 : ℚ) < 123
  decide +kernel

end AgentBenchX
