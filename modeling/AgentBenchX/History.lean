import AgentBenchX.Acceptance
import AgentBenchX.SyncHistory
import AgentBenchX.Uploads

/-!
# The history of a job

The platform as a whole: the worker protocol, the uploads of agents and
the synchronizations of problem sources run on one database. The versions
a job refers to are written by the other two components, so the tables of
versions the worker protocol reads are the ones these maintain.

`Platform.history` is what a reader is shown of a job: its row, its
evaluation with the rows that refer to it, and the submission and the
versions it joins to. Each component keeps the history of a terminal job:
the worker protocol because it rewrites the rows of queued and active jobs
only and evaluates active jobs only, the others because they only add
versions.
-/

namespace AgentBenchX

/-! ## The platform -/

/-- The settings of all components. -/
structure Deployment where
  control : Config
  uploads : UploadSettings
  py : Python
  git : GitSettings

/-- The versions the worker protocol sees. -/
def Shelf.agentVersions (s : Shelf) : Table AgentVersion :=
  s.versions.map AgentRecord.toAgentVersion fun _ => rfl

def Catalog.problemVersions (cat : Catalog) : Table ProblemVersion :=
  cat.versions.map StoredVersion.toProblemVersion fun _ => rfl

theorem Shelf.mem_agentVersions {s : Shelf} {v : AgentVersion} :
    v ∈ s.agentVersions ↔ ∃ record ∈ s.versions, record.toAgentVersion = v :=
  Table.mem_map

theorem Catalog.mem_problemVersions {cat : Catalog} {v : ProblemVersion} :
    v ∈ cat.problemVersions ↔ ∃ stored ∈ cat.versions, stored.toProblemVersion = v :=
  Table.mem_map

structure Platform where
  control : State
  shelf : Shelf
  catalog : Catalog
  agentVersions : control.db.agentVersions = shelf.agentVersions
  problemVersions : control.db.problemVersions = catalog.problemVersions

/-- The worker protocol with other versions. -/
def Database.withVersions (db : Database) (shelf : Shelf) (cat : Catalog) : Database :=
  { db with agentVersions := shelf.agentVersions, problemVersions := cat.problemVersions }

/-- What happens on the platform. -/
inductive PlatformCall where
  | request (call : Call)
  | createAgent (agent : Agent)
  | upload (agentId : Uid) (answer : Except HttpError AgentRecord)
  | source (event : SourceEvent)

/-- One call on one of the components. -/
inductive PlatformStep (D : Deployment) (γ : Type) (s t : Platform) : PlatformCall → Prop
  | request {call : Call} :
      (controlPlane D.control).step s.control call t.control →
      t.shelf = s.shelf → t.catalog = s.catalog → PlatformStep D γ s t (.request call)
  | createAgent {agent : Agent} {agents : Table Agent} :
      s.shelf.agents.insert? agent = some agents → t.shelf = { s.shelf with agents } →
      t.catalog = s.catalog → t.control = s.control → PlatformStep D γ s t (.createAgent agent)
  | upload {env : UploadEnv} {agentId : Uid} {filename : Option String} {content : Bytes}
      {answer : Except HttpError AgentRecord} :
      AgentManager.upload D.uploads env s.shelf agentId filename content = (t.shelf, answer) →
      t.catalog = s.catalog →
      t.control = { s.control with db := s.control.db.withVersions t.shelf t.catalog } →
      PlatformStep D γ s t (.upload agentId answer)
  | source {event : SourceEvent} :
      SourceStep D.py D.git γ s.catalog event t.catalog → t.shelf = s.shelf →
      t.control = { s.control with db := s.control.db.withVersions t.shelf t.catalog } →
      PlatformStep D γ s t (.source event)

/-- Calls in any order, from a database without submissions. -/
def platform (D : Deployment) (γ : Type) : Transition Platform PlatformCall where
  init s := s.control.db.Fresh
  step s call t := PlatformStep D γ s t call

/-! ## What a reader is shown -/

/-- An evaluation with the rows that refer to it. -/
structure EvaluationRecord where
  evaluation : Evaluation
  testResults : List TestResult
  logs : List EvaluationLog
  patches : List Patch
  scores : List Score

def Database.recordOf (db : Database) (jobId : Uid) : Option EvaluationRecord :=
  (db.evaluationOf jobId).map fun e =>
    { evaluation := e
      testResults := db.testResults.filter fun t => decide (t.evaluationId = e.id)
      logs := db.logs.filter fun l => decide (l.evaluationId = e.id)
      patches := db.patches.filter fun p => decide (p.evaluationId = e.id)
      scores := db.scores.filter fun s => decide (s.evaluationId = e.id) }

structure JobHistory where
  job : RunnerJob
  record : Option EvaluationRecord
  submission : Submission
  agentVersion : AgentRecord
  problemVersion : StoredVersion

/-- A job joined to everything it refers to and everything that refers to it. -/
def Platform.history (s : Platform) (jobId : Uid) : Option JobHistory := do
  let job ← s.control.db.jobs.get? jobId
  let submission ← s.control.db.submissions.get? job.submissionId
  let agentVersion ← s.shelf.versions.get? submission.agentVersionId
  let problemVersion ← s.catalog.versions.get? submission.problemVersionId
  return ⟨job, s.control.db.recordOf job.id, submission, agentVersion, problemVersion⟩

/-! ## What the worker protocol keeps -/

/-- Terminal jobs and their evaluations stay, and so does every submission. -/
structure Database.Keeps (db db' : Database) : Prop where
  jobs : ∀ j ∈ db.jobs, j.status.IsTerminal →
    j ∈ db'.jobs ∧ db'.recordOf j.id = db.recordOf j.id
  submissions : ∀ s ∈ db.submissions, s ∈ db'.submissions

namespace Database.Keeps

theorem refl (db : Database) : db.Keeps db := ⟨fun _ hj _ => ⟨hj, rfl⟩, fun _ hs => hs⟩

theorem trans {a b c : Database} (h : a.Keeps b) (h' : b.Keeps c) : a.Keeps c where
  jobs j hj ht := by
    obtain ⟨hb, hrecord⟩ := h.jobs j hj ht
    obtain ⟨hc, hrecord'⟩ := h'.jobs j hb ht
    exact ⟨hc, hrecord'.trans hrecord⟩
  submissions s hs := h'.submissions s (h.submissions s hs)

end Database.Keeps

section Changes

variable {cfg : Config} {c c' : Time} {kind : ChangeKind} {db db' : Database} {j j' : RunnerJob}

/-- Only queued and active rows are rewritten. -/
theorem RowChange.not_terminal (h : RowChange cfg c c' j kind j') : ¬j.status.IsTerminal := by
  cases h with
  | claim _ hq => exact fun ht => ht.ne_queued hq
  | renew _ _ ha _ _ => exact ha.not_terminal
  | finish _ _ ha _ _ => exact ha.not_terminal
  | expire _ _ _ ha _ _ => exact ha.not_terminal

theorem Change.terminal (hch : Change cfg c c' kind db db') (hj : j ∈ db.jobs)
    (ht : j.status.IsTerminal) : j ∈ db'.jobs := by
  rcases hch.jobs.after j hj with hj' | ⟨j', -, hrow⟩
  · exact hj'
  · exact absurd ht hrow.not_terminal

theorem Database.SameEvidence.recordOf (h : db.SameEvidence db') (jobId : Uid) :
    db'.recordOf jobId = db.recordOf jobId := by
  unfold Database.recordOf Database.evaluationOf
  rw [h.evaluations, h.testResults, h.logs, h.patches, h.scores]

/-- A new evaluation does not get in the way of an earlier one, nor of its
absence. -/
theorem recordOf_addEvidence {new : Evaluation} {evaluations : Table Evaluation}
    {data : ResultInput} {jobId : Uid} (hins : db.evaluations.insert? new = some evaluations)
    (hne : new.jobId ≠ jobId) :
    (addEvidence cfg { db with evaluations } new data).recordOf jobId = db.recordOf jobId := by
  have hfind : (addEvidence cfg { db with evaluations } new data).evaluationOf jobId
      = db.evaluationOf jobId := by
    show evaluations.rows.find? _ = db.evaluations.rows.find? _
    rw [Table.rows_insert? hins, List.find?_append, List.find?_singleton,
      if_neg (by simpa using hne), Option.or_none]
  unfold Database.recordOf
  rw [hfind]
  cases he : db.evaluationOf jobId with
  | none => rfl
  | some e =>
      have hid : new.id ≠ e.id :=
        (Table.fresh_of_insert? hins e (Database.mem_of_evaluationOf he).1).symm
      rw [Option.map_some, Option.map_some]
      exact congrArg some ((EvaluationRecord.mk.injEq ..).mpr ⟨rfl,
        filter_append_of_ne (f := TestResult.evaluationId) (by simp [hid]),
        filter_append_of_ne (f := EvaluationLog.evaluationId) (by simp [hid]),
        filter_append_of_ne (f := Patch.evaluationId) (by simp [hid]),
        filter_append_of_ne (f := Score.evaluationId) (by simp [hid])⟩)

/-- No change gives a terminal job an evaluation or touches the one it has. -/
theorem Change.recordOf (hch : Change cfg c c' kind db db') (hj : j ∈ db.jobs)
    (ht : j.status.IsTerminal) : db'.recordOf j.id = db.recordOf j.id := by
  by_cases hkind : kind = .finish
  · subst hkind
    cases hch with
    | @finish _ _ env w k problem data e evaluations _ _ hk _ ha _ _ _ _ hins hret =>
        have hne : k.id ≠ j.id := fun heq =>
          ha.not_terminal (Table.eq_of_key_eq hk hj heq ▸ ht)
        have hadded : (addEvidence cfg { db with evaluations }
            (evaluationRow env w k problem data) data).recordOf j.id = db.recordOf j.id :=
          recordOf_addEvidence hins hne
        exact (hret.sameEvidence.recordOf j.id).trans hadded
  · exact (hch.sameEvidence hkind).recordOf j.id

theorem Change.keeps (hch : Change cfg c c' kind db db') : db.Keeps db' where
  jobs _ hj ht := ⟨hch.terminal hj ht, hch.recordOf hj ht⟩
  submissions := hch.grows.2

theorem Changes.keeps (hch : Changes cfg c c' kind db db') : db.Keeps db' := by
  induction hch with
  | refl => exact .refl _
  | tail _ hlast ih => exact ih.trans hlast.keeps

end Changes

/-! ## What the other components keep -/

theorem AgentManager.upload_grows {cfg : UploadSettings} {env : UploadEnv} {s t : Shelf}
    {agentId : Uid} {filename : Option String} {content : Bytes}
    {answer : Except HttpError AgentRecord}
    (h : AgentManager.upload cfg env s agentId filename content = (t, answer)) : s.Grows t := by
  unfold AgentManager.upload at h
  split at h
  · obtain ⟨rfl, -⟩ := Prod.mk.inj h
    exact .refl s
  · split at h
    · obtain ⟨rfl, -⟩ := Prod.mk.inj h
      exact .refl s
    · rcases s.put_cases agentId env.identifier content env.put with
        ⟨objects, hins, hput⟩ | ⟨error, hput⟩ | ⟨left, objects, error, hins, hput⟩ <;>
        rw [hput] at h <;> dsimp only at h
      · have hstored := Shelf.grows_object hins
        split at h
        · obtain ⟨rfl, -⟩ := Prod.mk.inj h
          exact hstored
        · rename_i shelf hversion
          obtain ⟨versions, hversions, rfl⟩ := Shelf.insertVersion_eq hversion
          split at h
          · obtain ⟨rfl, -⟩ := Prod.mk.inj h
            exact ⟨fun v hv => (Table.mem_insert? hversions).mpr (Or.inl hv), hstored.objects⟩
          · obtain ⟨rfl, -⟩ := Prod.mk.inj h
            exact hstored
      · obtain ⟨rfl, -⟩ := Prod.mk.inj h
        exact .refl s
      · obtain ⟨rfl, -⟩ := Prod.mk.inj h
        exact Shelf.grows_object hins

/-- A registration adds no version, a synchronization adds some or fails. -/
theorem SourceStep.versions {py : Python} {settings : GitSettings} {γ : Type} {cat cat' : Catalog}
    {event : SourceEvent} (h : SourceStep py settings γ cat event cat') :
    ∀ v ∈ cat.versions, v ∈ cat'.versions := by
  intro v hv
  cases h with
  | register hregister =>
      obtain ⟨sources, -, rfl, -⟩ := register_ok hregister
      exact hv
  | refuse => exact hv
  | sync git token env cache sourceId =>
      rcases ProblemSourceManager.sync_cases py settings git token env ⟨cat, cache⟩ sourceId with
        ⟨-, e, hsync⟩ | ⟨source, -, -, ⟨e, cache', hsync⟩ |
          ⟨branch, sha, tasks, skipped, cache', catalog, row, -, hstore, hsync⟩⟩ <;>
        rw [hsync]
      · exact hv
      · obtain ⟨-, hcatalog⟩ := ProblemSourceManager.failed_cases env ⟨cat, cache'⟩ source e
        rcases hcatalog with hcatalog | hcatalog <;> rw [hcatalog] <;> exact hv
      · obtain ⟨mid, created, hadds, -, rfl⟩ := ProblemSourceManager.store_ok hstore
        exact hadds.mem_versions hv

/-! ## What every call keeps -/

structure Platform.Keeps (s t : Platform) : Prop where
  control : s.control.db.Keeps t.control.db
  agentVersions : ∀ v ∈ s.shelf.versions, v ∈ t.shelf.versions
  problemVersions : ∀ v ∈ s.catalog.versions, v ∈ t.catalog.versions

namespace Platform.Keeps

theorem refl (s : Platform) : s.Keeps s := ⟨.refl _, fun _ hv => hv, fun _ hv => hv⟩

theorem trans {s t u : Platform} (h : s.Keeps t) (h' : t.Keeps u) : s.Keeps u where
  control := h.control.trans h'.control
  agentVersions v hv := h'.agentVersions v (h.agentVersions v hv)
  problemVersions v hv := h'.problemVersions v (h.problemVersions v hv)

/-- The history of a terminal job is shown as before. -/
theorem history {s t : Platform} (h : s.Keeps t) {jobId : Uid} {shown : JobHistory}
    (hshown : s.history jobId = some shown) (ht : shown.job.status.IsTerminal) :
    t.history jobId = some shown := by
  unfold Platform.history at hshown ⊢
  simp only [Option.bind_eq_bind, Option.bind_eq_some_iff, Option.pure_def,
    Option.some.injEq] at hshown ⊢
  obtain ⟨job, hjob, submission, hsubmission, agent, hagent, problem, hproblem, rfl⟩ := hshown
  obtain ⟨hmem, hid⟩ := Table.get?_eq_some.mp hjob
  obtain ⟨hmem', hrecord⟩ := h.control.jobs job hmem ht
  exact ⟨job, Table.get?_eq_some.mpr ⟨hmem', hid⟩,
    submission, Table.get?_of_subset h.control.submissions hsubmission,
    agent, Table.get?_of_subset h.agentVersions hagent,
    problem, Table.get?_of_subset h.problemVersions hproblem, by rw [hrecord]⟩

end Platform.Keeps

section Steps

variable {D : Deployment} {γ : Type} {s t : Platform} {call : PlatformCall}

theorem Database.keeps_withVersions (db : Database) (shelf : Shelf) (cat : Catalog) :
    db.Keeps (db.withVersions shelf cat) :=
  ⟨fun _ hj _ => ⟨hj, rfl⟩, fun _ hs => hs⟩

theorem PlatformStep.keeps (h : PlatformStep D γ s t call) : s.Keeps t := by
  cases h with
  | request hstep hshelf hcatalog =>
      exact ⟨(step_changes hstep).keeps, by rw [hshelf]; exact fun _ hv => hv,
        by rw [hcatalog]; exact fun _ hv => hv⟩
  | createAgent _ hshelf hcatalog hcontrol =>
      exact ⟨by rw [hcontrol]; exact .refl _, by rw [hshelf]; exact fun _ hv => hv,
        by rw [hcatalog]; exact fun _ hv => hv⟩
  | upload hupload hcatalog hcontrol =>
      exact ⟨by rw [hcontrol]; exact Database.keeps_withVersions ..,
        (AgentManager.upload_grows hupload).versions, by rw [hcatalog]; exact fun _ hv => hv⟩
  | source hstep hshelf hcontrol =>
      exact ⟨by rw [hcontrol]; exact Database.keeps_withVersions ..,
        by rw [hshelf]; exact fun _ hv => hv, hstep.versions⟩

/-- What is reached keeps what was there. -/
theorem platform_keeps (hs : (platform D γ).Reachable s) {tr : List PlatformCall}
    (h : (platform D γ).Run s tr t) : s.Keeps t :=
  h.relates (R := Platform.Keeps) Platform.Keeps.refl (fun h h' => h.trans h')
    (fun _ _ _ _ hstep => PlatformStep.keeps hstep) hs

end Steps

/-! ## Runs of the worker protocol alone -/

theorem Change.versions {cfg : Config} {c c' : Time} {kind : ChangeKind} {db db' : Database}
    (hch : Change cfg c c' kind db db') :
    db'.agentVersions = db.agentVersions ∧ db'.problemVersions = db.problemVersions := by
  cases hch with
  | enqueue hsub hjob =>
      obtain ⟨ts, -, rfl⟩ := Database.insertSubmission_eq hsub
      obtain ⟨-, -, t, -, rfl⟩ := Database.insertJob_eq hjob
      exact ⟨rfl, rfl⟩
  | finish _ _ _ _ _ _ _ _ _ _ hret =>
      rw [hret.frame]
      exact ⟨rfl, rfl⟩
  | expire _ _ _ _ _ _ _ _ hret =>
      rw [hret.frame]
      exact ⟨rfl, rfl⟩
  | _ => exact ⟨rfl, rfl⟩

/-- A run of the worker protocol is a run of the platform in which the other
components do nothing. -/
theorem platform_run {D : Deployment} {γ : Type} {s : Platform} {tr : List Call} {t : State}
    (h : (controlPlane D.control).Run s.control tr t) :
    ∃ u : Platform, u.control = t ∧ u.shelf = s.shelf ∧ u.catalog = s.catalog
      ∧ (platform D γ).Run s (tr.map .request) u := by
  induction h with
  | nil => exact ⟨s, rfl, rfl, rfl, .nil⟩
  | @snoc tr mid t call _ hstep ih =>
      obtain ⟨u, rfl, hshelf, hcatalog, hrun⟩ := ih
      have hversions : t.db.agentVersions = u.control.db.agentVersions
          ∧ t.db.problemVersions = u.control.db.problemVersions :=
        step_preserves (P := fun db => db.agentVersions = u.control.db.agentVersions
            ∧ db.problemVersions = u.control.db.problemVersions)
          (fun hch hdb => ⟨hch.versions.1.trans hdb.1, hch.versions.2.trans hdb.2⟩) hstep
          ⟨rfl, rfl⟩
      refine ⟨⟨t, u.shelf, u.catalog, hversions.1.trans u.agentVersions,
        hversions.2.trans u.problemVersions⟩, rfl, hshelf, hcatalog, ?_⟩
      rw [List.map_append]
      exact hrun.snoc (.request hstep rfl rfl)

/-! ## Every job has a history -/

/-- What the joins of a job rely on. -/
structure Joined (maxAttempts : ℤ) (db : Database) : Prop where
  consistent : Consistent db
  attempts : Attempts maxAttempts db
  submitted : Submitted db

theorem Joined.change {cfg : Config} {c c' : Time} {kind : ChangeKind} {db db' : Database}
    (hch : Change cfg c c' kind db db') (h : Joined cfg.maxAttempts db) :
    Joined cfg.maxAttempts db' :=
  ⟨h.consistent.change hch, Attempts.change hch h.consistent h.attempts,
    Submitted.change hch h.submitted⟩

/-- The versions of a submission are there with all their columns. -/
theorem Joined.versions {maxAttempts : ℤ} {s : Platform} (h : Joined maxAttempts s.control.db)
    {sub : Submission} (hsub : sub ∈ s.control.db.submissions) :
    (∃ v ∈ s.shelf.versions, v.id = sub.agentVersionId)
      ∧ ∃ p ∈ s.catalog.versions, p.id = sub.problemVersionId := by
  obtain ⟨⟨v, hv, hvid⟩, p, hp, hpid⟩ := h.submitted sub hsub
  rw [s.agentVersions] at hv
  rw [s.problemVersions] at hp
  obtain ⟨record, hrecord, rfl⟩ := Shelf.mem_agentVersions.mp hv
  obtain ⟨stored, hstored, rfl⟩ := Catalog.mem_problemVersions.mp hp
  exact ⟨⟨record, hrecord, hvid⟩, stored, hstored, hpid⟩

/-- More versions break no join. -/
theorem Joined.withVersions {maxAttempts : ℤ} {s t : Platform}
    (h : Joined maxAttempts s.control.db) (hkeeps : s.Keeps t) :
    Joined maxAttempts (s.control.db.withVersions t.shelf t.catalog) where
  consistent := ⟨⟨h.consistent.ownership.rows, h.consistent.ownership.single⟩,
    ⟨h.consistent.recorded.job, h.consistent.recorded.single⟩⟩
  attempts := h.attempts.of_eq rfl rfl rfl
  submitted sub hsub := by
    obtain ⟨⟨v, hv, hvid⟩, p, hp, hpid⟩ := h.versions hsub
    exact ⟨⟨_, Shelf.mem_agentVersions.mpr ⟨v, hkeeps.agentVersions v hv, rfl⟩, hvid⟩,
      _, Catalog.mem_problemVersions.mpr ⟨p, hkeeps.problemVersions p hp, rfl⟩, hpid⟩

theorem reachable_joined {D : Deployment} {γ : Type} {s : Platform}
    (hs : (platform D γ).Reachable s) : Joined D.control.maxAttempts s.control.db := by
  refine hs.rec_on (P := fun s => Joined D.control.maxAttempts s.control.db) ?_ ?_
  · rintro s hfresh
    refine ⟨.fresh hfresh, .fresh hfresh, fun sub hsub => ?_⟩
    rw [hfresh.1] at hsub
    exact absurd hsub Table.not_mem_empty
  · intro s call t _ h hstep
    have hkeeps := PlatformStep.keeps hstep
    cases hstep with
    | request hstep _ _ => exact step_preserves Joined.change hstep h
    | createAgent _ _ _ hcontrol => rwa [hcontrol]
    | upload _ _ hcontrol => rw [hcontrol]; exact h.withVersions hkeeps
    | source _ _ hcontrol => rw [hcontrol]; exact h.withVersions hkeeps

/-- Every job joins to its submission and its versions. -/
theorem Joined.history {maxAttempts : ℤ} {s : Platform} (h : Joined maxAttempts s.control.db)
    {j : RunnerJob} (hj : j ∈ s.control.db.jobs) :
    ∃ shown, s.history j.id = some shown ∧ shown.job = j
      ∧ shown.record = s.control.db.recordOf j.id := by
  obtain ⟨sub, hsub, hsubj⟩ := h.attempts.submitted j hj
  obtain ⟨⟨v, hv, hvid⟩, p, hp, hpid⟩ := h.versions hsub
  have hjob : s.control.db.jobs.get? j.id = some j := Table.get?_eq_some.mpr ⟨hj, rfl⟩
  have hsubmission : s.control.db.submissions.get? j.submissionId = some sub :=
    Table.get?_eq_some.mpr ⟨hsub, hsubj⟩
  have hagent : s.shelf.versions.get? sub.agentVersionId = some v :=
    Table.get?_eq_some.mpr ⟨hv, hvid⟩
  have hproblem : s.catalog.versions.get? sub.problemVersionId = some p :=
    Table.get?_eq_some.mpr ⟨hp, hpid⟩
  refine ⟨⟨j, s.control.db.recordOf j.id, sub, v, p⟩, ?_, rfl, rfl⟩
  unfold Platform.history
  simp only [hjob, hsubmission, hagent, hproblem, Option.bind_eq_bind, Option.bind_some,
    Option.pure_def]

/-- **History is immutable.** Once a job is terminal, every later state shows
the same row, evaluation, evidence, submission and versions for it; a job
without an evaluation never gains one. -/
theorem history_immutable {D : Deployment} {γ : Type} {s : Platform}
    (hs : (platform D γ).Reachable s) {j : RunnerJob} (hj : j ∈ s.control.db.jobs)
    (ht : j.status.IsTerminal) :
    ∃ shown, s.history j.id = some shown ∧ shown.job = j
      ∧ ∀ tr t, (platform D γ).Run s tr t →
          t.history j.id = some shown
            ∧ ((∀ e ∈ s.control.db.evaluations, e.jobId ≠ j.id) →
                ∀ e ∈ t.control.db.evaluations, e.jobId ≠ j.id) := by
  obtain ⟨shown, hshown, rfl, -⟩ := (reachable_joined hs).history hj
  refine ⟨shown, hshown, rfl, fun tr t hrun => ?_⟩
  have hkeeps := platform_keeps hs hrun
  refine ⟨hkeeps.history hshown ht, fun hnone => ?_⟩
  obtain ⟨-, hrecord⟩ := hkeeps.control.jobs shown.job hj ht
  rw [Database.recordOf, Database.recordOf, Database.evaluationOf_eq_none.mpr hnone,
    Option.map_none, Option.map_eq_none_iff] at hrecord
  exact Database.evaluationOf_eq_none.mp hrecord

/-! ### A finished job -/

namespace Sample

def deployment : Deployment := ⟨config, uploadSettings, python, gitSettings⟩

def agentRecord : AgentRecord := { agent with storagePath := .agentFile 4 1 }

def storedVersion : StoredVersion := { problem with metadata := ⟨"harbor", [], [], "", "", ""⟩ }

/-- The small deployment with the versions its worker protocol sees. -/
def published : Platform where
  control := start
  shelf := ⟨.empty, ⟨[agentRecord], by decide⟩, .empty⟩
  catalog := ⟨.empty, .empty, ⟨[storedVersion], by decide⟩⟩
  agentVersions := rfl
  problemVersions := rfl

theorem published_run :
    (controlPlane config).Run published.control (replay config start finished).2 final :=
  replay_run (by decide)

end Sample

theorem history_immutable_failed : ∃ s : Platform, (platform Sample.deployment Unit).Reachable s
    ∧ s.control = Sample.final ∧ ∃ j ∈ s.control.db.jobs, j.status = .failed
      ∧ ∃ shown, s.history j.id = some shown
        ∧ ∀ tr t, (platform Sample.deployment Unit).Run s tr t → t.history j.id = some shown := by
  obtain ⟨s, hcontrol, -, -, hrun⟩ := platform_run (D := Sample.deployment) (γ := Unit)
    Sample.published_run
  have hreach : (platform Sample.deployment Unit).Reachable s :=
    ⟨Sample.published, _, Sample.init, hrun⟩
  obtain ⟨j, hj, hfailed⟩ : ∃ j ∈ Sample.final.db.jobs.rows, j.status = .failed := by
    decide +kernel
  obtain ⟨shown, hshown, -, hlater⟩ :=
    history_immutable hreach (hcontrol ▸ hj) (Or.inr (Or.inl hfailed))
  exact ⟨s, hreach, hcontrol, j, hcontrol ▸ hj, hfailed, shown, hshown, fun tr t h =>
    (hlater tr t h).1⟩

end AgentBenchX
