import AgentBenchX.Attempts

/-!
# The rows of an evaluation

An evaluation is never alone: its test results, logs, patch and score are
inserted with it, and nobody touches them later. `Documented` says what
belongs to one evaluation, `Evidenced` that the tables hold exactly that.
Since the figures of an evaluation are computed from the validated body of
one request, they agree with each other and with the rows
(`evaluation_consistent`).
-/

namespace AgentBenchX

/-! ## What belongs to an evaluation -/

/-- The rows that refer to an evaluation are those its result was recorded with. -/
structure Documented (cfg : Config) (db : Database) (e : Evaluation) (data : ResultInput) :
    Prop where
  tests : db.testResults.filter (fun t => decide (t.evaluationId = e.id)) =
    data.tests.map fun t => ⟨e.id, t⟩
  logs : db.logs.filter (fun l => decide (l.evaluationId = e.id)) =
    ["stdout", "stderr", "agent_output"].map fun kind =>
      ⟨e.id, kind, .artifact e.artifactPath (kind ++ ".log")⟩
  patches : db.patches.filter (fun p => decide (p.evaluationId = e.id)) =
    [⟨e.id, .artifact e.artifactPath "patch.diff", cfg.sha256 data.patch⟩]
  scores : db.scores.filter (fun s => decide (s.evaluationId = e.id)) = [⟨e.id, e.metrics.score⟩]

/-- The evaluation was computed from the body. -/
structure Evaluation.Reports (e : Evaluation) (data : ResultInput) : Prop where
  status : e.status = data.status
  failureType : e.failureType = data.failureType
  metrics : e.metrics = calculate data
  artifactPath : e.artifactPath.evaluationId = e.id

/-- Every row refers to an evaluation. -/
structure Referring (db : Database) : Prop where
  tests : ∀ t ∈ db.testResults, ∃ e ∈ db.evaluations, e.id = t.evaluationId
  logs : ∀ l ∈ db.logs, ∃ e ∈ db.evaluations, e.id = l.evaluationId
  patches : ∀ p ∈ db.patches, ∃ e ∈ db.evaluations, e.id = p.evaluationId
  scores : ∀ s ∈ db.scores, ∃ e ∈ db.evaluations, e.id = s.evaluationId

structure Evidenced (cfg : Config) (db : Database) : Prop extends Referring db where
  documented : ∀ e ∈ db.evaluations, ∃ data : ResultInput,
    data.Valid ∧ e.Reports data ∧ Documented cfg db e data

/-- The tables with the evidence are the same. -/
structure Database.SameEvidence (db db' : Database) : Prop where
  evaluations : db'.evaluations = db.evaluations
  testResults : db'.testResults = db.testResults
  logs : db'.logs = db.logs
  patches : db'.patches = db.patches
  scores : db'.scores = db.scores

theorem Retried.sameEvidence {db db' : Database} {condition : Prop} {retry : RunnerJob}
    (h : Retried db db' condition retry) : db.SameEvidence db' := by
  rw [h.frame]
  exact ⟨rfl, rfl, rfl, rfl, rfl⟩

section Changes

variable {cfg : Config} {c c' : Time} {kind : ChangeKind} {db db' : Database}

/-- Only an accepted result touches the evidence. -/
theorem Change.sameEvidence (hch : Change cfg c c' kind db db') (hkind : kind ≠ .finish) :
    db.SameEvidence db' := by
  cases hch with
  | enqueue hsub hjob =>
      obtain ⟨ts, -, rfl⟩ := Database.insertSubmission_eq hsub
      obtain ⟨-, -, t, -, rfl⟩ := Database.insertJob_eq hjob
      exact ⟨rfl, rfl, rfl, rfl, rfl⟩
  | finish => exact absurd rfl hkind
  | expire _ _ _ _ _ _ _ _ hret =>
      have h := hret.sameEvidence
      exact ⟨h.evaluations, h.testResults, h.logs, h.patches, h.scores⟩
  | _ => exact ⟨rfl, rfl, rfl, rfl, rfl⟩

/-- Rows that refer to other evaluations do not get in the way. -/
theorem filter_append_of_ne {α : Type} {rows new : List α} {f : α → Uid} {id : Uid}
    (hnew : ∀ r ∈ new, f r ≠ id) :
    (rows ++ new).filter (fun r => decide (f r = id)) =
      rows.filter fun r => decide (f r = id) := by
  have hnil : new.filter (fun r => decide (f r = id)) = [] := by
    refine List.filter_eq_nil_iff.mpr fun r hr => ?_
    simpa using hnew r hr
  rw [List.filter_append, hnil, List.append_nil]

/-- Rows that refer to an evaluation nobody referred to before are all there are. -/
theorem filter_append_of_fresh {α : Type} {rows new : List α} {f : α → Uid} {id : Uid}
    (hold : ∀ r ∈ rows, f r ≠ id) (hnew : ∀ r ∈ new, f r = id) :
    (rows ++ new).filter (fun r => decide (f r = id)) = new := by
  have hnil : rows.filter (fun r => decide (f r = id)) = [] := by
    refine List.filter_eq_nil_iff.mpr fun r hr => ?_
    simpa using hold r hr
  have hall : new.filter (fun r => decide (f r = id)) = new :=
    List.filter_eq_self.mpr fun r hr => by simpa using hnew r hr
  rw [List.filter_append, hnil, hall, List.nil_append]

theorem Documented.congr {e : Evaluation} {data : ResultInput} (h : Documented cfg db e data)
    (hsame : db.SameEvidence db') : Documented cfg db' e data where
  tests := hsame.testResults ▸ h.tests
  logs := hsame.logs ▸ h.logs
  patches := hsame.patches ▸ h.patches
  scores := hsame.scores ▸ h.scores

/-- The rows of a new evaluation do not refer to an old one. -/
theorem Documented.addEvidence {e new : Evaluation} {data data' : ResultInput}
    (h : Documented cfg db e data) (hne : new.id ≠ e.id) :
    Documented cfg (addEvidence cfg db new data') e data where
  tests := (filter_append_of_ne (f := TestResult.evaluationId) (by simp [hne])).trans h.tests
  logs := (filter_append_of_ne (f := EvaluationLog.evaluationId) (by simp [hne])).trans h.logs
  patches := (filter_append_of_ne (f := Patch.evaluationId) (by simp [hne])).trans h.patches
  scores := (filter_append_of_ne (f := Score.evaluationId) (by simp [hne])).trans h.scores

/-- Nobody has referred to a new evaluation. -/
theorem unreferred {α : Type} {rows : List α} {ref : α → Uid} {evs : Table Evaluation} {id : Uid}
    (hrows : ∀ r ∈ rows, ∃ x ∈ evs, x.id = ref r) (hnew : ∀ x ∈ evs, x.id ≠ id) :
    ∀ r ∈ rows, ref r ≠ id := by
  intro r hr heq
  obtain ⟨x, hx, hid⟩ := hrows r hr
  exact hnew x hx (hid.trans heq)

theorem documented_addEvidence {e : Evaluation} {data : ResultInput} (h : Referring db)
    (hnew : ∀ x ∈ db.evaluations, x.id ≠ e.id) :
    Documented cfg (addEvidence cfg db e data) e data where
  tests := filter_append_of_fresh (f := TestResult.evaluationId) (unreferred h.tests hnew) (by simp)
  logs := filter_append_of_fresh (f := EvaluationLog.evaluationId) (unreferred h.logs hnew)
    (by simp)
  patches := filter_append_of_fresh (f := Patch.evaluationId) (unreferred h.patches hnew) (by simp)
  scores := filter_append_of_fresh (f := Score.evaluationId) (unreferred h.scores hnew) (by simp)

theorem refers_append {α : Type} {rows new : List α} {ref : α → Uid} {old evs : Table Evaluation}
    {e : Evaluation} (hrows : ∀ r ∈ rows, ∃ x ∈ old, x.id = ref r) (hold : ∀ x ∈ old, x ∈ evs)
    (he : e ∈ evs) (hnew : ∀ r ∈ new, ref r = e.id) :
    ∀ r ∈ rows ++ new, ∃ x ∈ evs, x.id = ref r := by
  intro r hr
  rcases List.mem_append.mp hr with hr | hr
  · obtain ⟨x, hx, hid⟩ := hrows r hr
    exact ⟨x, hold x hx, hid⟩
  · exact ⟨e, he, (hnew r hr).symm⟩

/-- The rows a result adds refer to its evaluation. -/
theorem referring_addEvidence {e : Evaluation} {data : ResultInput} {evs : Table Evaluation}
    (h : Referring db) (hold : ∀ x ∈ db.evaluations, x ∈ evs) (he : e ∈ evs) :
    Referring (addEvidence cfg { db with evaluations := evs } e data) where
  tests := refers_append h.tests hold he (by simp)
  logs := refers_append h.logs hold he (by simp)
  patches := refers_append h.patches hold he (by simp)
  scores := refers_append h.scores hold he (by simp)

theorem Referring.congr (h : Referring db) (hsame : db.SameEvidence db') : Referring db' where
  tests := by rw [hsame.testResults, hsame.evaluations]; exact h.tests
  logs := by rw [hsame.logs, hsame.evaluations]; exact h.logs
  patches := by rw [hsame.patches, hsame.evaluations]; exact h.patches
  scores := by rw [hsame.scores, hsame.evaluations]; exact h.scores

theorem Evidenced.congr (h : Evidenced cfg db) (hsame : db.SameEvidence db') :
    Evidenced cfg db' where
  toReferring := h.toReferring.congr hsame
  documented e he := by
    obtain ⟨data, hvalid, hreports, hdocumented⟩ := h.documented e (hsame.evaluations ▸ he)
    exact ⟨data, hvalid, hreports, hdocumented.congr hsame⟩

theorem Evidenced.change (hch : Change cfg c c' kind db db') (h : Evidenced cfg db) :
    Evidenced cfg db' := by
  by_cases hkind : kind ≠ .finish
  · exact h.congr (hch.sameEvidence hkind)
  · obtain rfl := not_not.mp hkind
    cases hch with
    | @finish _ _ env w j problem data e evs _ _ _ _ _ _ _ hvalid _ hins hret =>
        let new := evaluationRow env w j problem data
        have hmem : ∀ x, x ∈ evs ↔ x ∈ db.evaluations ∨ x = new := fun x => Table.mem_insert? hins
        have hfresh : ∀ x ∈ db.evaluations, x.id ≠ new.id := Table.fresh_of_insert? hins
        have hadded : Evidenced cfg (addEvidence cfg { db with evaluations := evs } new data) := by
          refine ⟨referring_addEvidence h.toReferring (fun x hx => (hmem x).mpr (Or.inl hx))
            ((hmem new).mpr (Or.inr rfl)), fun x hx => ?_⟩
          rcases (hmem x).mp hx with hx | rfl
          · obtain ⟨data', hvalid', hreports, hdocumented⟩ := h.documented x hx
            have hbase : Documented cfg { db with evaluations := evs } x data' :=
              ⟨hdocumented.tests, hdocumented.logs, hdocumented.patches, hdocumented.scores⟩
            exact ⟨data', hvalid', hreports, hbase.addEvidence (hfresh x hx).symm⟩
          · have hdocumented : Documented cfg (addEvidence cfg db new data) new data :=
              documented_addEvidence h.toReferring hfresh
            exact ⟨data, hvalid, ⟨rfl, rfl, rfl, rfl⟩, hdocumented.tests, hdocumented.logs,
              hdocumented.patches, hdocumented.scores⟩
        have hsame := hret.sameEvidence
        exact hadded.congr ⟨hsame.evaluations, hsame.testResults, hsame.logs, hsame.patches,
          hsame.scores⟩

theorem Evidenced.fresh (h : db.Fresh) : Evidenced cfg db := by
  obtain ⟨-, -, -, hevs, htests, hlogs, hpatches, hscores⟩ := h
  refine ⟨⟨?_, ?_, ?_, ?_⟩, ?_⟩
  · exact fun t ht => by simp [htests] at ht
  · exact fun l hl => by simp [hlogs] at hl
  · exact fun p hp => by simp [hpatches] at hp
  · exact fun s hs => by simp [hscores] at hs
  · exact fun e he => by simp [hevs] at he

end Changes

/-- **Evidence of every reachable database.** -/
theorem reachable_evidenced {cfg : Config} {s : State} (hs : (controlPlane cfg).Reachable s) :
    Evidenced cfg s.db :=
  hs.rec_on (fun _ h => Evidenced.fresh h)
    fun _ _ _ _ h hstep => step_preserves Evidenced.change hstep h

/-! ## The figures of an evaluation -/

/-- The test results of an evaluation with this status. -/
def Database.countResults (db : Database) (id : Uid) (status : TestStatus) : ℕ :=
  db.testResults.countP fun t => decide (t.evaluationId = id ∧ t.test.status = status)

/-- An evaluation agrees with its job, with its test results and with itself. -/
structure Coherent (db : Database) (e : Evaluation) : Prop where
  job : ∃ j, db.jobs.get? e.jobId = some j ∧ j.status = e.status.toJobStatus
    ∧ j.errorMessage = e.failureType.map FailureType.text
  completed : e.status = .completed →
    e.failureType = none ∧ ∀ t ∈ db.testResults, t.evaluationId = e.id → t.test.status ≠ .failed
  timeout : e.status = .timeout → e.failureType = some .timeout
  failed : e.status ≠ .completed → e.failureType.isSome
  counts : e.metrics.testsPassed = db.countResults e.id .passed
    ∧ e.metrics.testsFailed = db.countResults e.id .failed
    ∧ e.metrics.testsSkipped = db.countResults e.id .skipped
  total : e.metrics.testsPassed + e.metrics.testsFailed + e.metrics.testsSkipped =
    e.metrics.totalTests
  score : e.metrics.score = if e.metrics.testsPassed + e.metrics.testsFailed = 0 then 0
    else (e.metrics.testsPassed : ℚ) / (e.metrics.testsPassed + e.metrics.testsFailed)
  bounds : 0 ≤ e.metrics.score ∧ e.metrics.score ≤ 1
  full : e.status = .completed → 0 < e.metrics.testsPassed → e.metrics.score = 1
  tokens : e.metrics.totalTokens = none ↔
    e.metrics.reported.inputTokens = none ∨ e.metrics.reported.outputTokens = none
  sum : ∀ input output, e.metrics.reported.inputTokens = some input →
    e.metrics.reported.outputTokens = some output → e.metrics.totalTokens = some (input + output)

/-- Every test has one of the three statuses. -/
theorem countTests_total (tests : List TestInput) :
    countTests .passed tests + countTests .failed tests + countTests .skipped tests =
      tests.length := by
  unfold countTests
  induction tests with
  | nil => rfl
  | cons t tests ih =>
      simp only [List.countP_cons, List.length_cons]
      cases t.status <;> simp <;> omega

theorem Documented.countResults {cfg : Config} {db : Database} {e : Evaluation} {data : ResultInput}
    (h : Documented cfg db e data) (status : TestStatus) :
    db.countResults e.id status = countTests status data.tests := by
  have hsplit : db.countResults e.id status =
      (db.testResults.filter fun t => decide (t.evaluationId = e.id)).countP
        fun t => decide (t.test.status = status) := by
    rw [List.countP_filter]
    refine List.countP_congr fun t _ => ?_
    simp [and_comm]
  rw [hsplit, h.tests, List.countP_map]
  rfl

/-- What `consistent_status` guarantees. -/
structure StatusRules (data : ResultInput) : Prop where
  completed : data.status = .completed →
    data.failureType = none ∧ ∀ t ∈ data.tests, t.status ≠ .failed
  timeout : data.status = .timeout → data.failureType = some .timeout
  failed : data.status ≠ .completed → data.failureType.isSome

theorem ResultInput.Valid.statusRules {data : ResultInput} (h : data.Valid) : StatusRules data := by
  have hstatus : data.consistentStatus = [] := by
    unfold ResultInput.Valid ResultInput.validate at h
    split at h
    · split at h
      · assumption
      · cases h
    · cases h
  unfold ResultInput.consistentStatus at hstatus
  split at hstatus
  · cases hstatus
  · rename_i hcompleted
    split at hstatus
    · cases hstatus
    · rename_i hfailed
      split at hstatus
      · cases hstatus
      · rename_i htimeout
        have hnone : data.status ≠ .completed → data.failureType ≠ none :=
          fun hs hn => hfailed ⟨hs, hn⟩
        refine ⟨fun hs => ⟨?_, fun t ht hf => ?_⟩, fun hs => ?_, fun hs => ?_⟩
        · by_contra hn
          exact hcompleted ⟨hs, Or.inl (Option.isSome_iff_ne_none.mpr hn)⟩
        · exact hcompleted ⟨hs, Or.inr ⟨t, ht, hf⟩⟩
        · by_contra hn
          exact htimeout ⟨hs, hn⟩
        · exact Option.isSome_iff_ne_none.mpr (hnone hs)

/-- The share of passed tests is a share. -/
theorem share_bounds (p f : ℕ) : 0 ≤ (p / (p + f) : ℚ) ∧ (p / (p + f) : ℚ) ≤ 1 := by
  have hp : (0 : ℚ) ≤ p := Nat.cast_nonneg p
  have hf : (0 : ℚ) ≤ f := Nat.cast_nonneg f
  exact ⟨div_nonneg hp (add_nonneg hp hf), div_le_one_of_le₀ (by linarith) (add_nonneg hp hf)⟩

theorem calculate_score (data : ResultInput) :
    (calculate data).score =
      if (calculate data).testsPassed + (calculate data).testsFailed = 0 then 0
      else ((calculate data).testsPassed : ℚ) /
        ((calculate data).testsPassed + (calculate data).testsFailed) := by
  simp only [calculate, ne_eq, ite_not]

theorem calculate_bounds (data : ResultInput) :
    0 ≤ (calculate data).score ∧ (calculate data).score ≤ 1 := by
  rw [calculate_score]
  split
  · exact ⟨le_rfl, zero_le_one⟩
  · exact share_bounds _ _

/-- Without failed tests, one passed test makes the score full. -/
theorem calculate_full {data : ResultInput} (h : ∀ t ∈ data.tests, t.status ≠ .failed)
    (hp : 0 < (calculate data).testsPassed) : (calculate data).score = 1 := by
  have hfailed : (calculate data).testsFailed = 0 :=
    List.countP_eq_zero.mpr fun t ht => by simpa using h t ht
  have hne : ((calculate data).testsPassed : ℚ) ≠ 0 := Nat.cast_ne_zero.mpr (by omega)
  rw [calculate_score, if_neg (by omega), hfailed, Nat.cast_zero, add_zero, div_self hne]

theorem calculate_tokens (data : ResultInput) : (calculate data).totalTokens = none ↔
    data.metrics.inputTokens = none ∨ data.metrics.outputTokens = none := by
  simp only [calculate]
  cases data.metrics.inputTokens <;> cases data.metrics.outputTokens <;> simp

theorem calculate_sum (data : ResultInput) {input output : ℤ}
    (hi : data.metrics.inputTokens = some input) (ho : data.metrics.outputTokens = some output) :
    (calculate data).totalTokens = some (input + output) := by
  simp only [calculate, hi, ho]
  rfl

/-- **Consistent evaluations.** In every reachable state each evaluation agrees with its job,
its test results and itself. -/
theorem evaluation_consistent {cfg : Config} {s : State} (hs : (controlPlane cfg).Reachable s)
    {e : Evaluation} (he : e ∈ s.db.evaluations) : Coherent s.db e := by
  obtain ⟨data, hvalid, hreports, hdocumented⟩ := (reachable_evidenced hs).documented e he
  obtain ⟨j, hj, hid, hstatus, -, -, herror⟩ := (reachable_consistent hs).recorded.job e he
  have hrules := hvalid.statusRules
  have hcount : ∀ status, countTests status data.tests = s.db.countResults e.id status :=
    fun status => (hdocumented.countResults status).symm
  refine ⟨⟨j, Table.get?_eq_some.mpr ⟨hj, hid⟩, hstatus, herror⟩, ?_, ?_, ?_, ?_, ?_, ?_, ?_,
    ?_, ?_, ?_⟩
  · rw [hreports.status, hreports.failureType]
    refine fun hcompleted => ⟨(hrules.completed hcompleted).1, fun t ht hte => ?_⟩
    have hmem : t ∈ data.tests.map fun t => ⟨e.id, t⟩ := by
      rw [← hdocumented.tests]
      exact List.mem_filter.mpr ⟨ht, decide_eq_true hte⟩
    obtain ⟨test, htest, rfl⟩ := List.mem_map.mp hmem
    exact (hrules.completed hcompleted).2 test htest
  · rw [hreports.status, hreports.failureType]
    exact hrules.timeout
  · rw [hreports.status, hreports.failureType]
    exact hrules.failed
  · rw [hreports.metrics]
    exact ⟨hcount _, hcount _, hcount _⟩
  · rw [hreports.metrics]
    exact countTests_total data.tests
  · rw [hreports.metrics]
    exact calculate_score data
  · rw [hreports.metrics]
    exact calculate_bounds data
  · rw [hreports.metrics, hreports.status]
    exact fun hcompleted hpassed => calculate_full (hrules.completed hcompleted).2 hpassed
  · rw [hreports.metrics]
    exact calculate_tokens data
  · rw [hreports.metrics]
    exact fun input output => calculate_sum data

theorem evaluation_consistent_failed : ∃ e ∈ Sample.final.db.evaluations.rows,
    e.status = .failed ∧ Coherent Sample.final.db e := by
  obtain ⟨e, he, hfailed⟩ : ∃ e ∈ Sample.final.db.evaluations.rows, e.status = .failed := by
    decide +kernel
  have hreach : (controlPlane Sample.config).Reachable Sample.final :=
    replay_reachable (by decide) (by decide)
  exact ⟨e, he, hfailed, evaluation_consistent hreach he⟩

end AgentBenchX
