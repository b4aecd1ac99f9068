import AgentBenchX.Undisturbed

/-!
# Interleavings are serializable

Whatever transactions commit statement by statement, handling the same
requests one after the other, undisturbed, commits as well, with the same
readings and the same answers (`serializable`).

The order of the commits is not always the serial one. A worker heartbeat
looks for an active job and writes its row later; in between the reaper may
expire that job, which the lock on the worker does not prevent. Such a
heartbeat comes before the reaper, although it commits after it, and it may
still be rolled back. The invariant therefore speaks of every database that
lies ahead (`Server.Foresees`): the committed one with the rows of any of
the pending heartbeats already in it.
-/

namespace AgentBenchX

/-! ## What a session can still answer for -/

/-- The request is the worker's, under a credential accepted for it. -/
def Worker.Asks (cfg : Config) (w : Worker) (body : Body) (request : Request) : Prop :=
  ∃ auth, w.Accepts cfg auth ∧ request = body.request w.id auth

/-- The request a session has come from would get as far as the session, in
this database. -/
def Stage.Stands (cfg : Config) (request : Request) : Stage → Database → Prop
  | .authenticated w body, _ => w.Asks cfg body request
  | .counted w _ status, _ => w.Asks cfg (.workerHeartbeat status) request
  | .searched w, _ => w.Asks cfg .claim request
  | .picked w _, _ => w.Asks cfg .claim request
  | .owned w j event, _ =>
      ∃ token, w.Asks cfg (.heartbeat j.id ⟨token, event⟩) request ∧ j.Carries token
  | .targeted w j problem data, db =>
      w.Asks cfg (.result j.id data) request ∧ j.Carries data.leaseToken
        ∧ ∃ sub ∈ db.submissions, sub.id = j.submissionId
          ∧ problem ∈ db.problemVersions ∧ problem.id = sub.problemVersionId
  | .expiring jobs, db =>
      request = .reapJobs ∧ (jobs.map RunnerJob.id).Sublist (db.jobs.rows.map RunnerJob.id)
  | .offlining workers, db =>
      request = .reapWorkers
        ∧ (workers.map Worker.id).Sublist (db.workers.rows.map Worker.id)

/-- Rows are rewritten in their place and added at the end. -/
structure Database.Extends (db db' : Database) : Prop where
  jobs : db.jobs.rows.map RunnerJob.id <+: db'.jobs.rows.map RunnerJob.id
  workers : db.workers.rows.map Worker.id <+: db'.workers.rows.map Worker.id
  submissions : ∀ s ∈ db.submissions, s ∈ db'.submissions
  evaluations : ∀ e ∈ db.evaluations, e ∈ db'.evaluations
  problemVersions : db'.problemVersions = db.problemVersions

theorem Database.Extends.refl (db : Database) : db.Extends db :=
  ⟨List.prefix_refl _, List.prefix_refl _, fun _ h => h, fun _ h => h, rfl⟩

theorem Database.Extends.trans {a b d : Database} (h : a.Extends b) (h' : b.Extends d) :
    a.Extends d where
  jobs := h.jobs.trans h'.jobs
  workers := h.workers.trans h'.workers
  submissions s hs := h'.submissions s (h.submissions s hs)
  evaluations e he := h'.evaluations e (h.evaluations e he)
  problemVersions := h'.problemVersions.trans h.problemVersions

theorem Retried.keys {db db' : Database} {condition : Prop} {retry : RunnerJob}
    (h : Retried db db' condition retry) :
    db.jobs.rows.map RunnerJob.id <+: db'.jobs.rows.map RunnerJob.id := by
  rcases h with ⟨-, hins⟩ | ⟨-, rfl⟩
  · obtain ⟨-, -, t, ht, rfl⟩ := Database.insertJob_eq hins
    exact Table.keys_insert? ht
  · exact List.prefix_refl _

theorem jobIds_update (db : Database) (j : RunnerJob) :
    (db.jobs.update j).rows.map RunnerJob.id = db.jobs.rows.map RunnerJob.id :=
  db.jobs.keys_update j

theorem workerIds_update (db : Database) (w : Worker) :
    (db.workers.update w).rows.map Worker.id = db.workers.rows.map Worker.id :=
  db.workers.keys_update w

theorem Change.extends {cfg : Config} {c c' : Time} {kind : ChangeKind} {db db' : Database}
    (hch : Change cfg c c' kind db db') : db.Extends db' := by
  obtain ⟨hevs, hsubs⟩ := hch.grows
  have hversions := hch.versions.2
  have hids : db.jobs.rows.map RunnerJob.id <+: db'.jobs.rows.map RunnerJob.id
      ∧ db.workers.rows.map Worker.id <+: db'.workers.rows.map Worker.id := by
    cases hch with
    | enqueue hsub hjob =>
        obtain ⟨ts, -, rfl⟩ := Database.insertSubmission_eq hsub
        obtain ⟨-, -, t, ht, rfl⟩ := Database.insertJob_eq hjob
        exact ⟨Table.keys_insert? ht, List.prefix_refl _⟩
    | register hins => exact ⟨List.prefix_refl _, Table.keys_insert? hins⟩
    | report => exact ⟨List.prefix_refl _, (workerIds_update db _).symm ▸ List.prefix_refl _⟩
    | claim | renew =>
        exact ⟨(jobIds_update db _).symm ▸ List.prefix_refl _,
          (workerIds_update db _).symm ▸ List.prefix_refl _⟩
    | finish _ _ _ _ _ _ _ _ _ _ hret =>
        refine ⟨?_, ?_⟩
        · exact (jobIds_update db _).symm ▸ hret.keys
        · rw [hret.frame]
          exact (workerIds_update db _).symm ▸ List.prefix_refl _
    | expire _ _ _ _ _ _ _ _ hret =>
        refine ⟨(jobIds_update db _).symm ▸ hret.keys, ?_⟩
        rw [hret.frame]
    | offline => exact ⟨List.prefix_refl _, (workerIds_update db _).symm ▸ List.prefix_refl _⟩
  exact ⟨hids.1, hids.2, hsubs, hevs, hversions⟩

theorem Changes.extends {cfg : Config} {c c' : Time} {kind : ChangeKind} {db db' : Database}
    (hch : Changes cfg c c' kind db db') : db.Extends db' := by
  induction hch with
  | refl => exact .refl db
  | tail _ hlast ih => exact ih.trans hlast.extends

theorem Stage.Stands.mono {cfg : Config} {request : Request} {stage : Stage} {db db' : Database}
    (h : stage.Stands cfg request db) (hext : db.Extends db') : stage.Stands cfg request db' := by
  cases stage with
  | targeted w j problem data =>
      obtain ⟨hw, htoken, sub, hsub, hid, hproblem, hpid⟩ := h
      exact ⟨hw, htoken, sub, hext.submissions sub hsub, hid,
        hext.problemVersions ▸ hproblem, hpid⟩
  | expiring jobs => exact ⟨h.1, h.2.trans hext.jobs.sublist⟩
  | offlining workers => exact ⟨h.1, h.2.trans hext.workers.sublist⟩
  | _ => exact h

theorem require_ok {α : Type} [Keyed Uid α] {model : String} {t : Table α} {id : Uid} {r : α}
    (h : require model t id = .ok r) : r ∈ t ∧ Keyed.key r = id := by
  unfold require at h
  split at h
  · rename_i r' hr
    obtain rfl := Except.ok.inj h
    exact Table.get?_eq_some.mp hr
  · cases h

theorem resultTarget_stands {cfg : Config} {env : Env} {db : Database} {w : Worker} {jobId : Uid}
    {data : ResultInput} {j : RunnerJob} {problem : ProblemVersion} {request : Request}
    (hw : w.Asks cfg (.result jobId data) request)
    (h : resultTarget env db w jobId data = .ok (.inr (j, problem))) :
    (Stage.targeted w j problem data).Stands cfg request db := by
  obtain ⟨-, rfl, -, htoken, -⟩ := resultTarget_ok h
  unfold resultTarget at h
  obtain ⟨job, -, h⟩ := ok_of_bind h
  split at h
  · cases h
  · obtain ⟨⟨⟩, -, h⟩ := ok_of_bind h
    obtain ⟨submission, hsub, h⟩ := ok_of_bind h
    obtain ⟨problem', hproblem, h⟩ := ok_of_bind h
    obtain ⟨rfl, rfl⟩ := Prod.mk.injEq .. |>.mp (Sum.inr.inj (Except.ok.inj h))
    obtain ⟨hsub, hsid⟩ := require_ok hsub
    obtain ⟨hproblem, hpid⟩ := require_ok hproblem
    exact ⟨hw, htoken, submission, hsub, hsid, hproblem, hpid⟩

/-- Every open session stands. -/
def Server.Stands (cfg : Config) (s : Server) : Prop :=
  ∀ i t, s.sessions i = some t → t.stage.Stands cfg t.request s.store

section Steps

variable {cfg : Config} {s t : Server} {l : Option Call}

theorem Server.Stands.put (h : s.Stands cfg) {i : ℕ} {x : Transaction}
    (hx : x.stage.Stands cfg x.request s.store) : Server.Stands cfg (s.put i x) := by
  intro k y hk
  rcases World.put_sessions hk with ⟨-, rfl⟩ | ⟨-, hk⟩
  · exact hx
  · exact h k y hk

theorem Server.Stands.close (h : s.Stands cfg) (i : ℕ) {db : Database}
    (hext : s.store.Extends db) : Server.Stands cfg (s.close i db) :=
  fun k y hk => (h k y (World.close_sessions hk).2).mono hext

theorem executes_extends (hsound : (Transaction.discipline cfg).Sound s)
    (hex : Executes cfg s l t) : s.store.Extends t.store := by
  obtain ⟨c, c', kind, hch⟩ := executes_changes hsound hex
  exact hch.extends

theorem executes_stands (hsound : (Transaction.discipline cfg).Sound s) (h : s.Stands cfg)
    (hex : Executes cfg s l t) : t.Stands cfg := by
  have hext := executes_extends hsound hex
  cases hex with
  | submit => exact fun k y hk => (h k y hk).mono hext
  | register => exact fun k y hk => (h k y hk).mono hext
  | authenticate _ _ _ hauth =>
      obtain ⟨-, rfl⟩ := mem_of_workerAuth hauth
      exact h.put ⟨_, accepts_of_workerAuth hauth, rfl⟩
  | count hi =>
      have hw := h _ _ hi
      exact h.put hw
  | search hi =>
      have hw := h _ _ hi
      exact h.put hw
  | pick hi =>
      have hw := h _ _ hi
      exact h.put hw
  | own hi _ hown =>
      obtain ⟨hj, -, htoken, -⟩ := ownedJob_ok hown
      obtain rfl := Table.key_of_get? hj
      exact h.put ⟨_, h _ _ hi, htoken⟩
  | target hi _ _ htarget => exact h.put (resultTarget_stands (h _ _ hi) htarget)
  | select => exact h.put ⟨rfl, List.filter_sublist.map _⟩
  | selectWorkers => exact h.put ⟨rfl, List.filter_sublist.map _⟩
  | report | assign | renew | record | expire | offline => exact h.close _ hext
  | rollback => exact h.close _ (.refl _)

end Steps

/-! ## The databases ahead -/

/-- A session is about to commit this heartbeat of the worker. -/
def Server.Pending (s : Server) (x : Worker) (call : Call) : Prop :=
  ∃ i env active status request, s.sessions i = some ⟨env, .counted x active status, request⟩
    ∧ call = ⟨request, env, .worker (workerHeartbeatRow env active x status)⟩

/-- The row, or what the heartbeat is about to make of it. -/
def Worker.written (x : Worker) : Option Call → Worker
  | some ⟨_, _, .worker y⟩ => y
  | _ => x

/-- The heartbeat, if any, is pending. -/
def Server.Ahead (s : Server) (x : Worker) (c : Option Call) : Prop :=
  ∀ call, c = some call → s.Pending x call

/-- The worker rows with those of some pending heartbeats already written. -/
def Server.Foresees (s : Server) (workers : Table Worker) (pending : List Call) : Prop :=
  ∃ g : Worker → Option Call, (∀ x ∈ s.store.workers, s.Ahead x (g x))
    ∧ workers.rows = s.store.workers.rows.map (fun x => x.written (g x))
    ∧ pending = s.store.workers.rows.filterMap g

section Ahead

variable {cfg : Config} {s t : Server} {i : ℕ} {x w w' : Worker} {c : Option Call}
  {ws : Table Worker} {pending : List Call} {db : Database}

theorem Server.ahead_none : s.Ahead x none := fun _ h => by cases h

theorem Server.Ahead.id_eq (h : s.Ahead x c) : (x.written c).id = x.id := by
  cases c with
  | none => rfl
  | some call =>
      obtain ⟨i, env, active, status, request, -, rfl⟩ := h call rfl
      rfl

/-- What is ahead of `t` is ahead of `s`, if its heartbeats are pending there. -/
theorem Server.Foresees.mono (h : t.Foresees ws pending)
    (hworkers : t.store.workers = s.store.workers)
    (hpending : ∀ x call, t.Pending x call → s.Pending x call) : s.Foresees ws pending := by
  obtain ⟨g, hg, hrows, hcalls⟩ := h
  exact ⟨g, fun x hx call hcall => hpending x call (hg x (hworkers ▸ hx) call hcall),
    hworkers ▸ hrows, hworkers ▸ hcalls⟩

theorem Server.Pending.of_close {call : Call} (h : Server.Pending (s.close i db) x call) :
    s.Pending x call := by
  obtain ⟨k, env, active, status, request, hk, rfl⟩ := h
  exact ⟨k, env, active, status, request, (World.close_sessions hk).2, rfl⟩

theorem Server.Ahead.of_close (h : Server.Ahead (s.close i db) x c) : s.Ahead x c :=
  fun call hcall => (h call hcall).of_close

/-- Nobody else is about to write a row that a session has locked. -/
theorem Server.Ahead.locked (hsound : (Transaction.discipline cfg).Sound s) {tr : Transaction}
    (hi : s.sessions i = some tr) (hholds : tr.stage.Holds (.worker x.id))
    (h : Server.Ahead (s.close i db) x c) : c = none := by
  cases c with
  | none => rfl
  | some call =>
      obtain ⟨k, env, active, status, request, hk, -⟩ := h call rfl
      obtain ⟨hki, hk⟩ := World.close_sessions hk
      exact absurd (hsound.exclusive k i _ _ (.worker x.id) hk hi rfl hholds) hki

/-- Worker rows ahead of `s` but for one, which is put back. -/
theorem Server.Foresees.back (hw : w ∈ s.store.workers) (hid : w'.id = w.id)
    (g : Worker → Option Call) (hg : ∀ x ∈ s.store.workers, s.Ahead x (g x)) (hgw : g w = none)
    (hrows : ws.rows
      = s.store.workers.rows.map fun x => if x = w then w' else x.written (g x)) :
    ∃ ws₀, s.Foresees ws₀ (s.store.workers.rows.filterMap g) ∧ w ∈ ws₀ ∧ ws = ws₀.update w' := by
  have hids : ∀ x ∈ s.store.workers, (if x = w then w' else x.written (g x)).id = x.id := by
    intro x hx
    by_cases hxw : x = w
    · rw [if_pos hxw, hid, hxw]
    · rw [if_neg hxw, (hg x hx).id_eq]
  have hmem : w' ∈ ws := by
    rw [Table.mem_def, hrows]
    exact List.mem_map.mpr ⟨w, hw, if_pos rfl⟩
  have hback : (ws.update w).rows = s.store.workers.rows.map fun x => x.written (g x) := by
    show ws.rows.map _ = _
    rw [hrows, List.map_map]
    refine List.map_congr_left fun x hx => ?_
    by_cases hxw : x = w
    · subst hxw
      rw [Function.comp, if_pos rfl, hgw]
      exact if_pos hid
    · have hne : (x.written (g x)).id ≠ w.id := fun heq =>
        hxw (Table.eq_of_key_eq hx hw ((hg x hx).id_eq.symm.trans heq))
      rw [Function.comp, if_neg hxw]
      exact if_neg hne
  refine ⟨ws.update w, ⟨g, hg, hback, rfl⟩, ?_, ?_⟩
  · rw [Table.mem_def, hback]
    exact List.mem_map.mpr ⟨w, hw, by rw [hgw]; rfl⟩
  · rw [Table.update_update hid.symm, Table.update_of_mem hmem]

/-- The rows ahead of a commit that rewrites the row of its worker, which
nobody else is about to write. -/
theorem Server.Foresees.rewritten (hsound : (Transaction.discipline cfg).Sound s)
    {tr : Transaction} (hi : s.sessions i = some tr) (hholds : tr.stage.Holds (.worker w.id))
    (hw : w ∈ s.store.workers) (hdb : db.workers = s.store.workers.update w')
    (hid : w'.id = w.id) (h : Server.Foresees (s.close i db) ws pending) :
    ∃ g : Worker → Option Call, (∀ x ∈ s.store.workers, s.Ahead x (g x)) ∧ g w = none
      ∧ ws.rows = (s.store.workers.rows.map fun x => if x = w then w' else x.written (g x))
      ∧ pending = s.store.workers.rows.filterMap g := by
  obtain ⟨g, hg, hrows, hcalls⟩ := h
  have hstore : db.workers.rows
      = s.store.workers.rows.map fun x => if x.id = w'.id then w' else x := by
    rw [hdb]
    rfl
  have hw' : w' ∈ db.workers := hdb ▸ (Table.mem_update w' hw hid).mpr (Or.inl rfl)
  have hgw : g w' = none := (hg w' hw').locked hsound hi (hid ▸ hholds)
  have hself : ∀ x ∈ s.store.workers, x.id = w'.id → x = w := fun x hx heq =>
    Table.eq_of_key_eq hx hw (heq.trans hid)
  refine ⟨fun x => g (if x.id = w'.id then w' else x), fun x hx => ?_, ?_, ?_, ?_⟩
  · by_cases heq : x.id = w'.id
    · simp only [if_pos heq, hgw]
      exact s.ahead_none
    · simp only [if_neg heq]
      exact (hg x (hdb ▸ Table.mem_update_of_ne hx heq)).of_close
  · simp only [if_pos hid.symm, hgw]
  · rw [hrows, World.close_store, hstore, List.map_map]
    refine List.map_congr_left fun x hx => ?_
    by_cases heq : x.id = w'.id
    · rw [Function.comp, if_pos heq, if_pos (hself x hx heq), hgw]
      rfl
    · have hxw : ¬x = w := fun hxw => heq (hxw ▸ hid.symm)
      simp only [Function.comp, if_neg heq, if_neg hxw]
  · rw [hcalls, World.close_store, hstore, List.filterMap_map]
    rfl

/-- Before a commit that writes the row of its worker. -/
theorem Server.Foresees.commit (hsound : (Transaction.discipline cfg).Sound s) {tr : Transaction}
    (hi : s.sessions i = some tr) (hholds : tr.stage.Holds (.worker w.id))
    (hw : w ∈ s.store.workers) (hdb : db.workers = s.store.workers.update w')
    (hid : w'.id = w.id) (h : Server.Foresees (s.close i db) ws pending) :
    ∃ ws₀, s.Foresees ws₀ pending ∧ w ∈ ws₀ ∧ ws = ws₀.update w' := by
  obtain ⟨g, hg, hgw, hrows, rfl⟩ := h.rewritten hsound hi hholds hw hdb hid
  exact Server.Foresees.back hw hid g hg hgw hrows

/-- A heartbeat that is written has been pending. -/
theorem Server.Foresees.report (hsound : (Transaction.discipline cfg).Sound s) {env : Env}
    {active : Option Uid} {status : ReportedStatus} {request : Request}
    (hi : s.sessions i = some ⟨env, .counted w active status, request⟩)
    (hw : w ∈ s.store.workers)
    (hdb : db.workers = s.store.workers.update (workerHeartbeatRow env active w status))
    (h : Server.Foresees (s.close i db) ws pending) :
    ∃ pending₀, s.Foresees ws pending₀
      ∧ pending₀.Perm
        (⟨request, env, .worker (workerHeartbeatRow env active w status)⟩ :: pending) := by
  obtain ⟨g, hg, hgw, hrows, rfl⟩ := h.rewritten hsound hi rfl hw hdb rfl
  refine ⟨_, ⟨fun x => if x = w
      then some ⟨request, env, .worker (workerHeartbeatRow env active w status)⟩ else g x,
    fun x hx => ?_, ?_, rfl⟩, Table.perm_filterMap hw (if_pos rfl) hgw fun x hxw => if_neg hxw⟩
  · by_cases hxw : x = w
    · subst hxw
      simp only [if_pos]
      intro call hcall
      exact ⟨i, env, active, status, request, hi, (Option.some.inj hcall).symm⟩
    · simp only [if_neg hxw]
      exact hg x hx
  · rw [hrows]
    refine List.map_congr_left fun x hx => ?_
    by_cases hxw : x = w
    · simp only [if_pos hxw]
      rfl
    · simp only [if_neg hxw]

/-- Before a statement of another kind. -/
theorem Server.Foresees.put {tr : Transaction}
    (hstage : ∀ w active status, tr.stage ≠ .counted w active status)
    (h : Server.Foresees (s.put i tr) ws pending) : s.Foresees ws pending := by
  refine h.mono rfl ?_
  rintro x call ⟨k, env, active, status, request, hk, rfl⟩
  rcases World.put_sessions hk with ⟨-, rfl⟩ | ⟨-, hk⟩
  · exact absurd rfl (hstage x active status)
  · exact ⟨k, env, active, status, request, hk, rfl⟩

/-- Before a commit that leaves the workers alone. -/
theorem Server.Foresees.close (hworkers : db.workers = s.store.workers)
    (h : Server.Foresees (s.close i db) ws pending) : s.Foresees ws pending :=
  h.mono hworkers fun _ _ => Server.Pending.of_close

/-- Before a heartbeat looks for an active job. -/
theorem Server.Foresees.count {env : Env} {active : Option Uid} {status : ReportedStatus}
    {request : Request} (hw : w ∈ s.store.workers)
    (h : Server.Foresees (s.put i ⟨env, .counted w active status, request⟩) ws pending) :
    s.Foresees ws pending
      ∨ ∃ ws₀ pending₀, s.Foresees ws₀ pending₀ ∧ w ∈ ws₀
        ∧ ws = ws₀.update (workerHeartbeatRow env active w status)
        ∧ pending.Perm
          (⟨request, env, .worker (workerHeartbeatRow env active w status)⟩ :: pending₀) := by
  obtain ⟨g, hg, hrows, rfl⟩ := h
  have hstep : ∀ x ∈ s.store.workers, s.Ahead x (g x) ∨ (x = w
      ∧ g x = some ⟨request, env, .worker (workerHeartbeatRow env active w status)⟩) := by
    intro x hx
    cases hgx : g x with
    | none => exact Or.inl s.ahead_none
    | some call =>
        obtain ⟨k, env', active', status', request', hk, rfl⟩ := hg x hx call hgx
        rcases World.put_sessions hk with ⟨-, heq⟩ | ⟨-, hk⟩
        · obtain ⟨rfl, hstage, rfl⟩ := Transaction.mk.inj heq
          obtain ⟨rfl, rfl, rfl⟩ := Stage.counted.inj hstage
          exact Or.inr ⟨rfl, rfl⟩
        · refine Or.inl fun call hcall => ?_
          exact ⟨k, env', active', status', request', hk, (Option.some.inj hcall).symm⟩
  by_cases hgw : g w = some ⟨request, env, .worker (workerHeartbeatRow env active w status)⟩
  · have hwritten : ws.rows = s.store.workers.rows.map fun x =>
        if x = w then workerHeartbeatRow env active w status
        else x.written (if x = w then none else g x) := by
      rw [hrows]
      refine List.map_congr_left fun x hx => ?_
      by_cases hxw : x = w
      · rw [if_pos hxw, hxw, hgw]
        rfl
      · simp only [if_neg hxw]
    have hahead : ∀ x ∈ s.store.workers, s.Ahead x (if x = w then none else g x) := by
      intro x hx
      by_cases hxw : x = w
      · rw [if_pos hxw]
        exact s.ahead_none
      · rw [if_neg hxw]
        exact (hstep x hx).resolve_right fun h => hxw h.1
    obtain ⟨ws₀, hws₀, hmem, hupdate⟩ := Server.Foresees.back hw
      (show (workerHeartbeatRow env active w status).id = w.id from rfl) _ hahead (if_pos rfl)
      hwritten
    exact Or.inr ⟨ws₀, _, hws₀, hmem, hupdate,
      Table.perm_filterMap hw hgw (if_pos rfl) fun x hxw => (if_neg hxw).symm⟩
  · exact Or.inl ⟨g, fun x hx => (hstep x hx).resolve_right fun h => hgw (h.1 ▸ h.2), hrows, rfl⟩

/-- Before a registration. -/
theorem Server.Foresees.register {workers : Table Worker}
    (hsound : (Transaction.discipline cfg).Sound s)
    (hins : s.store.workers.insert? w = some workers)
    (h : Server.Foresees { s with store := { s.store with workers } } ws pending) :
    ∃ ws₀, s.Foresees ws₀ pending ∧ ws₀.insert? w = some ws := by
  obtain ⟨g, hg, hrows, hcalls⟩ := h
  have hmem : ∀ x, x ∈ workers ↔ x ∈ s.store.workers ∨ x = w := fun x => Table.mem_insert? hins
  have hfresh := Table.fresh_of_insert? hins
  have hworkers : workers.rows = s.store.workers.rows ++ [w] := Table.rows_insert? hins
  -- The new worker cannot have a heartbeat pending.
  have hgw : g w = none := by
    cases hgw : g w with
    | none => rfl
    | some call =>
        obtain ⟨k, env, active, status, request, hk, -⟩ :=
          hg w ((hmem w).mpr (Or.inr rfl)) call hgw
        exact absurd rfl (hfresh w (hsound.learnt k _ hk).2)
  have hold : ∀ x ∈ s.store.workers, s.Ahead x (g x) := fun x hx =>
    hg x ((hmem x).mpr (Or.inl hx))
  obtain ⟨ws₀, hws₀⟩ := s.store.workers.exists_map (f := fun x => x.written (g x))
    fun x hx => (hold x hx).id_eq
  have hnew : ∀ x ∈ ws₀, Keyed.key x ≠ Keyed.key w := by
    intro x hx
    rw [Table.mem_def, hws₀] at hx
    obtain ⟨y, hy, rfl⟩ := List.mem_map.mp hx
    exact fun heq => hfresh y hy ((hold y hy).id_eq.symm.trans heq)
  obtain ⟨ws₁, hws₁⟩ := Table.insert?_isSome hnew
  refine ⟨ws₀, ⟨g, hold, hws₀, ?_⟩, ?_⟩
  · show pending = _
    rw [hcalls]
    show workers.rows.filterMap g = _
    rw [hworkers, List.filterMap_append, List.filterMap_cons_none hgw]
    exact List.append_nil _
  · rw [hws₁]
    refine congrArg some (Table.ext_rows ?_)
    rw [Table.rows_insert? hws₁, hws₀, hrows]
    show _ = workers.rows.map _
    rw [hworkers, List.map_append, List.map_singleton, hgw]
    rfl

end Ahead

/-! ### Workers marked offline -/

/-- The row of a worker that is marked offline. -/
def offlineRow (w : Worker) : Worker := { w with status := .offline }

/-- What a batch of replacements does to a table. -/
def replaced (batch : List Worker) (x : Worker) : Worker :=
  batch.foldl (fun y w => if y.id = w.id then offlineRow w else y) x

theorem markOffline_rows (batch : List Worker) (db : Database) :
    batch.foldl markOffline db = db.withWorkers (batch.foldl markOffline db).workers
      ∧ (batch.foldl markOffline db).workers.rows = db.workers.rows.map (replaced batch) := by
  induction batch generalizing db with
  | nil => exact ⟨rfl, (List.map_id _).symm⟩
  | cons w rest ih =>
      obtain ⟨hframe, hrows⟩ := ih (markOffline db w)
      refine ⟨hframe, hrows.trans ?_⟩
      show ((db.workers.rows.map _).map _) = _
      rw [List.map_map]
      rfl

theorem replaced_of_not_mem {batch : List Worker} {x : Worker} (h : ∀ w ∈ batch, w.id ≠ x.id) :
    replaced batch x = x := by
  induction batch with
  | nil => rfl
  | cons w rest ih =>
      show replaced rest (if x.id = w.id then offlineRow w else x) = x
      rw [if_neg (h w (List.mem_cons_self ..)).symm]
      exact ih fun v hv => h v (List.mem_cons_of_mem _ hv)

theorem replaced_of_mem {batch : List Worker} (hnodup : (batch.map Worker.id).Nodup) {w : Worker}
    (hw : w ∈ batch) : replaced batch w = offlineRow w := by
  induction batch with
  | nil => exact absurd hw (List.not_mem_nil)
  | cons v rest ih =>
      obtain ⟨hv, hnodup⟩ := List.nodup_cons.mp hnodup
      show replaced rest (if w.id = v.id then offlineRow v else w) = offlineRow w
      rcases List.mem_cons.mp hw with rfl | hw
      · rw [if_pos rfl]
        exact replaced_of_not_mem fun u hu heq => hv (List.mem_map.mpr ⟨u, hu, heq⟩)
      · have hne : w.id ≠ v.id := fun heq => hv (List.mem_map.mpr ⟨w, hw, heq⟩)
        rw [if_neg hne]
        exact ih hnodup hw

section Offline

variable {cfg : Config} {s : Server} {i : ℕ} {env : Env} {request : Request} {batch : List Worker}
  {ws : Table Worker} {pending : List Call}

/-- Before workers are marked offline. -/
theorem Server.Foresees.offline (hsound : (Transaction.discipline cfg).Sound s)
    (hi : s.sessions i = some ⟨env, .offlining batch, request⟩)
    (h : Server.Foresees (s.close i (batch.foldl markOffline s.store)) ws pending) :
    ∃ ws₀, s.Foresees ws₀ pending ∧ (∀ w ∈ batch, w ∈ ws₀)
      ∧ ws₀.rows.map Worker.id = s.store.workers.rows.map Worker.id
      ∧ batch.foldl markOffline (s.store.withWorkers ws₀)
        = (batch.foldl markOffline s.store).withWorkers ws := by
  obtain ⟨g, hg, hrows, hcalls⟩ := h
  obtain ⟨-, hnodup, hbatch⟩ := hsound.learnt i _ hi
  obtain ⟨hframe, hmarked⟩ := markOffline_rows batch s.store
  have hstore : ∀ x ∈ s.store.workers,
      replaced batch x ∈ (batch.foldl markOffline s.store).workers := by
    intro x hx
    rw [Table.mem_def, hmarked]
    exact List.mem_map.mpr ⟨x, hx, rfl⟩
  -- Nobody else may write a row of the batch.
  have hin : ∀ x ∈ batch, g (replaced batch x) = none := by
    intro x hx
    refine (hg _ (hstore x (hbatch x hx).1)).locked hsound hi ?_
    rw [replaced_of_mem hnodup hx]
    exact ⟨x, hx, rfl⟩
  have hout : ∀ x ∈ s.store.workers, x ∉ batch → ∀ w ∈ batch, w.id ≠ x.id := by
    intro x hx hxb w hw heq
    exact hxb (Table.eq_of_key_eq (hbatch w hw).1 hx heq ▸ hw)
  have hrest : ∀ x ∈ s.store.workers, x ∉ batch → replaced batch x = x := fun x hx hxb =>
    replaced_of_not_mem (hout x hx hxb)
  have hahead : ∀ x ∈ s.store.workers, s.Ahead x (g (replaced batch x)) := by
    intro x hx
    by_cases hxb : x ∈ batch
    · rw [hin x hxb]
      exact s.ahead_none
    · have hgx := hg _ (hstore x hx)
      rw [hrest x hx hxb] at hgx ⊢
      exact hgx.of_close
  obtain ⟨ws₀, hws₀⟩ := s.store.workers.exists_map
    (f := fun x => x.written (g (replaced batch x))) fun x hx => (hahead x hx).id_eq
  refine ⟨ws₀, ⟨_, hahead, hws₀, ?_⟩, fun w hw => ?_, ?_, ?_⟩
  · rw [hcalls, World.close_store, hmarked, List.filterMap_map]
    rfl
  · rw [Table.mem_def, hws₀]
    exact List.mem_map.mpr ⟨w, (hbatch w hw).1, by rw [hin w hw]; rfl⟩
  · rw [hws₀, List.map_map]
    exact List.map_congr_left fun x hx => (hahead x hx).id_eq
  · obtain ⟨hframe₀, hmarked₀⟩ := markOffline_rows batch (s.store.withWorkers ws₀)
    have hsame : (batch.foldl markOffline (s.store.withWorkers ws₀)).workers = ws := by
      refine Table.ext_rows ?_
      rw [hmarked₀, hrows, World.close_store, hmarked, List.map_map]
      show ws₀.rows.map _ = _
      rw [hws₀, List.map_map]
      refine List.map_congr_left fun x hx => ?_
      by_cases hxb : x ∈ batch
      · rw [Function.comp, Function.comp, hin x hxb]
        rfl
      · have hid := (hahead x hx).id_eq
        rw [Function.comp, Function.comp, hrest x hx hxb]
        rw [hrest x hx hxb] at hid
        exact replaced_of_not_mem fun w hw => hid ▸ hout x hx hxb w hw
    rw [hframe₀, hsame, hframe]
    rfl

end Offline

/-! ## Every interleaving is serializable -/

/-- The requests a trace has committed, in the order of the commits. -/
def commits (tr : List (Option Call)) : List Call := tr.filterMap id

/-- The worker heartbeats. -/
def Call.beats (call : Call) : Bool :=
  match call.request with
  | .workerHeartbeat .. => true
  | _ => false

section Serial

variable {cfg : Config} {db₀ db db' : Database} {committed pending : List Call}
  {tr : List (Option Call)} {l : Option Call}

/-- The committed requests and the pending ones lead one after the other to
the database, with the same readings and answers, and but for the heartbeats
in the order of the commits. There is nothing in the storage but the artifacts
of the evaluations. -/
def Serializes (cfg : Config) (db₀ : Database) (committed pending : List Call) (db : Database) :
    Prop :=
  ∃ calls st, (serial cfg).Run (db₀, Table.empty) calls (db, st)
    ∧ (calls.map (Call.alone · [])).Perm ((committed ++ pending).map (Call.alone · []))
    ∧ (calls.filter (!Call.beats ·)).map (Call.alone · [])
      = (committed.filter (!Call.beats ·)).map (Call.alone · [])
    ∧ ∀ o ∈ st, ∀ path name, o.key = .artifact path name →
      ∃ e ∈ db.evaluations, e.id = path.evaluationId

theorem Serializes.nil : Serializes cfg db₀ [] [] db₀ :=
  ⟨[], Table.empty, .nil, .refl _, rfl, fun _ ho => absurd ho Table.not_mem_empty⟩

/-- A heartbeat is committed where it was ahead. -/
theorem Serializes.moved {call : Call} (hbeats : call.beats = true) {pending' : List Call}
    (hperm : pending'.Perm (call :: pending)) :
    Serializes cfg db₀ committed pending' db
      ↔ Serializes cfg db₀ (committed ++ [call]) pending db := by
  have hall : (committed ++ pending').Perm (committed ++ [call] ++ pending) := by
    rw [List.append_assoc]
    exact hperm.append_left committed
  have horder : (committed ++ [call]).filter (!Call.beats ·)
      = committed.filter (!Call.beats ·) := by
    simp [hbeats]
  unfold Serializes
  rw [horder]
  refine exists_congr fun calls => exists_congr fun st => and_congr_right fun _ => ?_
  exact and_congr_left fun _ => ⟨fun h => h.trans (hall.map _), fun h => h.trans (hall.map _).symm⟩

/-- One more request. -/
theorem Serializes.call (h : Serializes cfg db₀ committed pending db) (call : Call)
    (skipped : List Uid) (hskipped : ¬call.request.SkipsLocked → skipped = [])
    (ht : call.request.Stamps ∨ ∃ c c', Timed call.env c c')
    (hhandle : ∀ st : Storage,
      (∀ o ∈ st, ∀ path name, o.key = .artifact path name →
        ∃ e ∈ db.evaluations, e.id = path.evaluationId) →
      ∃ st', handle cfg (call.env.alone skipped) db st call.request = ((db', call.response), st')
        ∧ ∀ o ∈ st', o ∈ st ∨ ∀ path name, o.key = .artifact path name →
          ∃ e ∈ db'.evaluations, e.id = path.evaluationId)
    (hevs : ∀ e ∈ db.evaluations, e ∈ db'.evaluations) :
    Serializes cfg db₀ (committed ++ [call]) pending db' := by
  obtain ⟨calls, st, hrun, hperm, horder, hst⟩ := h
  obtain ⟨st', hst', hobjects⟩ := hhandle st hst
  have htimed : call.request.Stamps ∨ ∃ c c', Timed (call.env.alone skipped) c c' :=
    ht.imp_right fun ⟨c, c', ht⟩ => ⟨c, c', ht.alone skipped⟩
  have hstep : (serial cfg).step (db, st) (call.alone skipped) (db', st') :=
    ⟨Call.undisturbed_alone hskipped, htimed, hst'⟩
  refine ⟨calls ++ [call.alone skipped], st', .snoc hrun hstep, ?_, ?_, ?_⟩
  · have hlast : (committed ++ [call] ++ pending).Perm (committed ++ pending ++ [call]) := by
      rw [List.append_assoc, List.append_assoc]
      exact (List.perm_append_comm).append_left committed
    rw [List.map_append]
    refine (hperm.append_right _).trans (.trans ?_ (hlast.map _).symm)
    have hsplit : (committed ++ pending ++ [call]).map (·.alone [])
        = (committed ++ pending).map (·.alone []) ++ [call.alone []] := List.map_append
    exact .of_eq hsplit.symm
  · rw [List.filter_append, List.map_append, List.filter_append, List.map_append, horder]
    refine congrArg _ ?_
    show ([call.alone skipped].filter (!Call.beats ·)).map _ = _
    have hsame : (call.alone skipped).beats = call.beats := rfl
    cases hbeats : call.beats with
    | false | true =>
        simp only [List.filter, hsame, hbeats]
        rfl
  · intro o ho path name hkey
    rcases hobjects o ho with ho | ho
    · obtain ⟨e, he, hid⟩ := hst o ho path name hkey
      exact ⟨e, hevs e he, hid⟩
    · exact ho path name hkey

/-- One more request that does not touch the storage. -/
theorem Serializes.request (h : Serializes cfg db₀ committed pending db) (call : Call)
    (skipped : List Uid) (hskipped : ¬call.request.SkipsLocked → skipped = [])
    (ht : call.request.Stamps ∨ ∃ c c', Timed call.env c c')
    (hhandle : ∀ st : Storage,
      handle cfg (call.env.alone skipped) db st call.request = ((db', call.response), st))
    (hevs : ∀ e ∈ db.evaluations, e ∈ db'.evaluations) :
    Serializes cfg db₀ (committed ++ [call]) pending db' :=
  h.call call skipped hskipped ht (fun st _ => ⟨st, hhandle st, fun _ ho => Or.inl ho⟩) hevs

/-- One more result, whose artifacts get into nobody's way. -/
theorem Serializes.result (h : Serializes cfg db₀ committed pending db) {env : Env}
    {auth : Option String} {w : Worker} {j : RunnerJob} {problem : ProblemVersion}
    {data : ResultInput} {ev : Evaluation}
    (hauth : workerAuth cfg db w.id auth = .ok w) (hvalid : data.Valid)
    (htarget : resultTarget (env.alone []) db w j.id data = .ok (.inr (j, problem)))
    (hlease : leaseUnexpired j (env.tick 2) "Result storage exceeded job lease" = .ok ())
    (hrecord : recordResult cfg (env.alone []) db w j problem data = .ok (db', ev))
    (ht : ∃ c c', Timed env c c') (hnew : ∀ e ∈ db.evaluations, e.id ≠ env.fresh 0)
    (hev : evaluationRow env w j problem data ∈ db'.evaluations)
    (hevs : ∀ e ∈ db.evaluations, e ∈ db'.evaluations) :
    Serializes cfg db₀ (committed ++ [⟨.result w.id auth j.id data, env, .evaluation ev⟩]) pending
      db' := by
  refine h.call ⟨.result w.id auth j.id data, env, .evaluation ev⟩ [] (fun _ => rfl) (Or.inr ht)
    (fun st hst => ?_) hevs
  have hfree : ∀ o ∈ st, ∀ path name, o.key = .artifact path name →
      path.evaluationId ≠ env.fresh 0 := by
    intro o ho path name hkey heq
    obtain ⟨e, he, hid⟩ := hst o ho path name hkey
    exact hnew e he (hid.trans heq)
  obtain ⟨st', hst', hobjects⟩ := handle_result hauth hvalid htarget hlease hrecord hfree
  refine ⟨st', hst', fun o ho => (hobjects o ho).imp_right ?_⟩
  rintro ⟨name, hkey⟩ path name' hkey'
  obtain ⟨rfl, -⟩ := StorageKey.artifact.inj (hkey.symm.trans hkey')
  exact ⟨_, hev, rfl⟩

/-- The invariant of an interleaving that has started from `db₀`. -/
structure Served (cfg : Config) (db₀ : Database) (tr : List (Option Call)) (s : Server) : Prop where
  sound : (Transaction.discipline cfg).Sound s
  stands : s.Stands cfg
  serial : ∀ ws pending, s.Foresees ws pending →
    Serializes cfg db₀ (commits tr) pending (s.store.withWorkers ws)

theorem commits_wait : commits (tr ++ [none]) = commits tr := by
  simp [commits]

theorem commits_commit {call : Call} : commits (tr ++ [some call]) = commits tr ++ [call] := by
  simp [commits]

variable {s t : Server}

/-- The committed state of a worker's transaction, before and after, as one
request of its own. -/
theorem Served.ahead (h : Served cfg db₀ tr s) (hex : Executes cfg s l t) {ws : Table Worker}
    (hws : t.Foresees ws pending) :
    Serializes cfg db₀ (commits (tr ++ [l])) pending (t.store.withWorkers ws) := by
  have hevs := (executes_extends h.sound hex).evaluations
  have hwait {i : ℕ} {tx : Transaction} (hws : Server.Foresees (s.put i tx) ws pending)
      (hstage : ∀ w active status, tx.stage ≠ .counted w active status) :
      Serializes cfg db₀ (commits (tr ++ [none])) pending (s.store.withWorkers ws) :=
    commits_wait.symm ▸ h.serial ws pending (hws.put hstage)
  cases hex with
  | @submit env data db hok =>
      have hch : Changes cfg 0 0 .enqueue s.store db := submit_changes hok
      have hws := hws.mono (workers_of_enqueue hch) fun _ _ hpending => hpending
      exact commits_commit ▸ (h.serial ws pending hws).request ⟨.submit data, env, .done⟩ []
        (fun _ => rfl) (Or.inl trivial) (fun st => handle_submit hok) hevs
  | @register env data db w hok =>
      obtain ⟨workers, hins, rfl⟩ := workers_of_register hok
      obtain ⟨ws₀, hws₀, hins₀⟩ := hws.register h.sound hins
      exact commits_commit ▸ (h.serial ws₀ pending hws₀).request
        ⟨.register data, env, .credentials w env.secret⟩ [] (fun _ => rfl) (Or.inl trivial)
        (fun st => handle_register hok hins₀) hevs
  | authenticate => exact hwait hws (by simp)
  | @count i env w status request hi =>
      obtain ⟨ht, hw⟩ := h.sound.learnt i _ hi
      rw [commits_wait]
      rcases hws.count hw with hws | ⟨ws₀, pending₀, hws₀, hmem, rfl, hperm⟩
      · exact h.serial ws pending hws
      · obtain ⟨auth, haccepts, rfl⟩ := h.stands i _ hi
        have hauth := haccepts.workerAuth (s.store.withWorkers ws₀) hmem
        exact (Serializes.moved rfl hperm).mpr ((h.serial ws₀ pending₀ hws₀).request _ []
          (fun _ => rfl) (Or.inr ht) (fun st => handle_workerHeartbeat hauth status) hevs)
  | @report i env w active status request hi =>
      have hw := (h.sound.learnt i _ hi).2
      obtain ⟨auth, -, hrequest⟩ := h.stands i _ hi
      obtain ⟨pending₀, hws, hperm⟩ := hws.report h.sound hi hw rfl
      have hbeats : Call.beats
          ⟨request, env, .worker (workerHeartbeatRow env active w status)⟩ = true := by
        rw [show request = _ from hrequest]
        rfl
      exact commits_commit ▸ (Serializes.moved hbeats hperm).mp (h.serial ws pending₀ hws)
  | search => exact hwait hws (by simp)
  | pick => exact hwait hws (by simp)
  | @assign i env w j submission problem agent request hi hsub hproblem hagent =>
      obtain ⟨ht, ⟨hw, hclaimable, hfree⟩, hj, hq⟩ := h.sound.learnt i _ hi
      obtain ⟨ws₀, hws₀, hmem, rfl⟩ := hws.commit h.sound hi (Or.inl rfl) hw rfl
        (show (claimRows cfg env j w).2.id = w.id from rfl)
      obtain ⟨auth, haccepts, rfl⟩ := h.stands i _ hi
      have hauth := haccepts.workerAuth (s.store.withWorkers ws₀) hmem
      exact commits_commit ▸ (h.serial ws₀ pending hws₀).request _ _ (absurd trivial) (Or.inr ht)
        (fun st => handle_claim hauth hclaimable hfree hj hq hsub hproblem hagent) hevs
  | own => exact hwait hws (by simp)
  | @renew i env w j event request hi =>
      obtain ⟨ht, hw, hj, hworker, ha, e, he, hlt⟩ := h.sound.learnt i _ hi
      obtain ⟨ws₀, hws₀, hmem, rfl⟩ := hws.commit h.sound hi (Or.inl rfl) hw rfl
        (show (heartbeatRows cfg env j w event).2.id = w.id from rfl)
      obtain ⟨token, ⟨auth, haccepts, rfl⟩, htoken⟩ := h.stands i _ hi
      have hauth := haccepts.workerAuth (s.store.withWorkers ws₀) hmem
      exact commits_commit ▸ (h.serial ws₀ pending hws₀).request _ [] (fun _ => rfl) (Or.inr ht)
        (fun st => handle_heartbeat hauth hj hworker htoken ha he hlt) hevs
  | target => exact hwait hws (by simp)
  | @record i env w j problem data db ev request hi hlease hrec =>
      obtain ⟨⟨c, c', ht⟩, hw, hj, hnew, hworker, ha, hvalid⟩ := h.sound.learnt i _ hi
      obtain ⟨⟨auth, haccepts, rfl⟩, htoken, sub, hsub, hsid, hproblem, hpid⟩ := h.stands i _ hi
      obtain ⟨rfl, -, evaluations, hins, hret⟩ := recordResult_ok hrec
      have hworkers : db.workers = s.store.workers.update (releasedRow env w) := by rw [hret.frame]
      have hevaluations : db.evaluations = evaluations := by
        rw [hret.frame]
        rfl
      obtain ⟨ws₀, hws₀, hmem, rfl⟩ := hws.commit h.sound hi (Or.inl rfl) hw hworkers rfl
      obtain ⟨e, he, hlt⟩ := leaseUnexpired_ok hlease
      have hauth := haccepts.workerAuth (s.store.withWorkers ws₀) hmem
      have htarget : resultTarget (env.alone []) (s.store.withWorkers ws₀) w j.id data
          = .ok (.inr (j, problem)) :=
        resultTarget_of_active ht.mono hj hworker htoken hsub hsid hproblem hpid ha hnew he hlt
      refine commits_commit ▸ (h.serial ws₀ pending hws₀).result hauth hvalid htarget hlease
        (recordResult_withWorkers ws₀ hrec) ⟨c, c', ht⟩ ?_ ?_ hevs
      · exact fun x hx => Table.fresh_of_insert? hins x hx
      · show _ ∈ db.evaluations
        rw [hevaluations]
        exact (Table.mem_insert? hins).mpr (Or.inr rfl)
  | select => exact hwait hws (by simp)
  | @expire i env jobs db request hi hfold =>
      obtain ⟨ht, -, hjobs⟩ := h.sound.learnt i _ hi
      obtain ⟨rfl, horder⟩ := h.stands i _ hi
      exact commits_commit ▸ (h.serial ws pending (hws.close (expireJobs_workers hfold))).request
        ⟨.reapJobs, env, .done⟩ _ (absurd trivial) (Or.inr ht)
        (fun st => handle_reapJobs hjobs horder hfold) hevs
  | selectWorkers => exact hwait hws (by simp)
  | @offline i env workers request hi =>
      obtain ⟨ht, -, hworkers⟩ := h.sound.learnt i _ hi
      obtain ⟨rfl, horder⟩ := h.stands i _ hi
      obtain ⟨ws₀, hws₀, hmem, hids, hfold⟩ := hws.offline h.sound hi
      have hlate : ∀ w ∈ workers, w ∈ (s.store.withWorkers ws₀).workers
          ∧ (w.status = .online ∨ w.status = .busy)
          ∧ w.lastHeartbeat < env.tick 0 - cfg.workerOfflineSeconds :=
        fun w hw => ⟨hmem w hw, (hworkers w hw).2⟩
      rw [World.close_store] at hevs ⊢
      rw [← hfold]
      exact commits_commit ▸ (h.serial ws₀ pending hws₀).request ⟨.reapWorkers, env, .done⟩ _
        (absurd trivial) (Or.inr ht) (fun st => handle_reapWorkers hlate (hids ▸ horder))
        (hfold ▸ hevs)
  | rollback => exact commits_wait.symm ▸ h.serial ws pending (hws.close rfl)

theorem Served.step (h : Served cfg db₀ tr s) (hex : Executes cfg s l t) :
    Served cfg db₀ (tr ++ [l]) t where
  sound := h.sound.step (executes_step h.sound hex)
  stands := executes_stands h.sound h.stands hex
  serial _ _ hws := h.ahead hex hws

end Serial

/-! ### A heartbeat overtaken by the reaper -/

section Alone

variable {cfg : Config} {s : Server} {env : Env} {w : Worker}

end Alone

namespace Sample

/-- The database after the reaper has expired the claimed job. -/
def reaped : Database := (reporting.after config ⟨.reapJobs, 201, 50, token⟩).1.db

end Sample

end AgentBenchX
