import AgentBenchX.Plain
import AgentBenchX.WorkerSteps

/-!
# Failing closed

A worker process claims a job only while nothing is wrong with the
containers of earlier ones: every sandbox an earlier process may have left
is gone, and no evaluation of this process ended with a `CleanupError`.
That is an invariant of the events alone (`Guarded`, `Cleared`). With
`cleans_up_iff` it gives the whole guarantee, for every process whose
evaluations have steady surroundings and for no other (`fail_closed`).
-/

namespace AgentBenchX

open DockerSandbox Evaluator

/-! ## Claims and what comes before them -/

/-- `G` holds of what comes before every claim. -/
def Guarded (G : List WorkerEvent → Prop) (events : List WorkerEvent) : Prop :=
  ∀ before after id, events = before ++ .claimed id :: after → G before

theorem Guarded.snoc {G : List WorkerEvent → Prop} {events : List WorkerEvent}
    (h : Guarded G events) {e : WorkerEvent} (he : ∀ id, e = .claimed id → G events) :
    Guarded G (events ++ [e]) := by
  intro before after id heq
  rcases List.eq_nil_or_concat after with rfl | ⟨rest, last, rfl⟩
  · obtain ⟨rfl, hlast⟩ := List.append_inj' heq rfl
    exact he id (List.cons.inj hlast).1
  · rw [List.concat_eq_append, ← List.cons_append, ← List.append_assoc] at heq
    obtain ⟨rfl, -⟩ := List.append_inj' heq rfl
    exact h before rest id rfl

/-- The evaluation of a claimed job. -/
def evaluation (lib : WorkerLibraries) (settings : ProcessSettings) (w : Surroundings)
    (claim : JobClaim) : Except Exn ResultInput × EvalState :=
  Evaluator.evaluate w lib.toLibraries settings.toWorkerSettings claim
    (Worker.folder lib settings claim.job.id) (Evaluator.start claim)

/-- Docker confirmed that the containers of a job are gone. -/
def Gone (lib : WorkerLibraries) (id : Uid) (events : List WorkerEvent) : Prop :=
  ∃ trace, .recovered id trace ∈ events ∧
    ∀ name ∈ (Worker.abandoned (lib.idText id)).containers,
      ∃ o, Event.ran (removeArgs name) (.ok o) ∈ trace ∧ Removed o

theorem Gone.snoc {lib : WorkerLibraries} {id : Uid} {events : List WorkerEvent}
    (h : Gone lib id events) (e : WorkerEvent) : Gone lib id (events ++ [e]) := by
  obtain ⟨trace, hmem, hgone⟩ := h
  exact ⟨trace, List.mem_append_left _ hmem, hgone⟩

/-- Nothing is wrong with the containers of earlier jobs; `ids` are those whose workspaces
the process found. -/
structure Cleared (lib : WorkerLibraries) (settings : ProcessSettings) (ids : List Uid)
    (events : List WorkerEvent) : Prop where
  gone : ∀ id ∈ ids, Gone lib id events
  confirmed : ∀ w claim, .evaluated w claim ∈ events →
    ∀ e, (evaluation lib settings w claim).1 = .error e → ¬e.IsCleanup

variable {lib : WorkerLibraries} {settings : ProcessSettings} {ids : List Uid}
  {events : List WorkerEvent}

theorem Cleared.claimed (h : Cleared lib settings ids events) (id : Uid) :
    Cleared lib settings ids (events ++ [.claimed id]) where
  gone job hjob := (h.gone job hjob).snoc _
  confirmed w claim hmem := by
    rcases List.mem_append.mp hmem with hmem | hmem
    · exact h.confirmed w claim hmem
    · cases List.mem_singleton.mp hmem

theorem Cleared.evaluated (h : Cleared lib settings ids events) {w : Surroundings}
    {claim : JobClaim}
    (he : ∀ e, (evaluation lib settings w claim).1 = .error e → ¬e.IsCleanup) :
    Cleared lib settings ids (events ++ [.evaluated w claim]) where
  gone job hjob := (h.gone job hjob).snoc _
  confirmed w' claim' hmem := by
    rcases List.mem_append.mp hmem with hmem | hmem
    · exact h.confirmed w' claim' hmem
    · cases List.mem_singleton.mp hmem
      exact he

namespace Worker

variable {env : ProcessEnv}

/-! ## The recovery -/

/-- The file operations are not logged as events. -/
theorem filing_events (lib : WorkerLibraries) (settings : ProcessSettings)
    (J : List WorkerEvent → Prop) :
    Filing (DiskOp.Sound lib settings) fun s => J s.events where
  cut _ _ n h := h.take n
  record _ _ _ h := h
  stop _ h := h

/-- The identity has nothing to do with jobs. -/
theorem spec_enter (d : Disk) :
    Program.Spec (fun s => s.events = [] ∧ s.disk.ids = d.ids ∧ s.disk.job = d.job)
      (enter lib settings env)
      (fun _ s => s.events = [] ∧ s.disk.ids = d.ids ∧ s.disk.job = d.job) := by
  have hI : Filing (fun op => ∃ text, op = .write .identity text)
      (fun s => s.events = [] ∧ s.disk.ids = d.ids ∧ s.disk.job = d.job) := by
    refine ⟨?_, ?_, fun s h => h⟩
    · rintro file text n ⟨text', h⟩
      obtain ⟨rfl, rfl⟩ := DiskOp.write.inj h
      exact ⟨_, rfl⟩
    · rintro s _ ⟨text, rfl⟩ h
      exact h
  have hsafe : Safe (fun s => s.events = [] ∧ s.disk.ids = d.ids ∧ s.disk.job = d.job)
      (enter lib settings env) :=
    safe_bind (safe_of_unchanged fun _ => rfl) fun _ =>
      safe_bind (safe_of_unchanged fun _ => rfl) fun _ =>
        safe_identity hI fun _ _ => ⟨_, rfl⟩
  exact fun s hs => (hsafe s hs).1

/-- Only recoveries so far. -/
def Prelude (events : List WorkerEvent) : Prop := ∀ e ∈ events, ∃ id trace, e = .recovered id trace

theorem recoverOne_spec (id : Uid) (done : List Uid) :
    Program.Spec (fun s => Prelude s.events ∧ ∀ job ∈ done, Gone lib job s.events)
      (recoverOne lib env id)
      (fun r s => Prelude s.events ∧
        (r = .ok () → ∀ job ∈ done ++ [id], Gone lib job s.events)) := by
  rintro s ⟨hprelude, hdone⟩
  obtain ⟨trace, hhost, -, hends⟩ := destroy_spec (w := env.recovery id)
    { sandbox := abandoned (lib.idText id) }
  have hevents : (recoverOne lib env id s).2.events = s.events ++ [.recovered id
      (destroy (env.recovery id) { sandbox := abandoned (lib.idText id) }).2.trace] := rfl
  have hvalue : (recoverOne lib env id s).1 =
      (destroy (env.recovery id) { sandbox := abandoned (lib.idText id) }).1 := rfl
  rw [hevents, hvalue]
  refine ⟨fun e he => ?_, fun hok job hjob => ?_⟩
  · rcases List.mem_append.mp he with he | he
    · exact hprelude e he
    · exact ⟨_, _, List.mem_singleton.mp he⟩
  · rcases List.mem_append.mp hjob with hjob | hjob
    · exact (hdone job hjob).snoc _
    · obtain rfl := List.mem_singleton.mp hjob
      rw [hok] at hends
      cases hends with
      | confirmed _ hasked hconfirms =>
          refine ⟨_, List.mem_append_right _ (List.mem_singleton.mpr rfl), fun name hname => ?_⟩
          obtain ⟨o, ho⟩ := hasked name hname
          refine ⟨o, ?_, (hconfirms _ ho).2 name rfl⟩
          rw [hhost]
          exact List.mem_append_right _ (List.mem_cons_of_mem _ ho)

theorem recoverAll_spec (ids done : List Uid) :
    Program.Spec (fun s => Prelude s.events ∧ ∀ job ∈ done, Gone lib job s.events)
      (recoverAll lib env ids)
      (fun r s => Prelude s.events ∧
        (r = .ok () → ∀ job ∈ done ++ ids, Gone lib job s.events)) := by
  induction ids generalizing done with
  | nil =>
      rintro s ⟨hprelude, hdone⟩
      rw [List.append_nil]
      exact ⟨hprelude, fun _ => hdone⟩
  | cons id ids ih =>
      refine Program.Spec.bind (recoverOne_spec id done) (fun _ => ?_) fun e s hs =>
        ⟨hs.1, fun h => nomatch h⟩
      rintro s ⟨hprelude, hgone⟩
      have hrest := ih (done ++ [id]) s ⟨hprelude, hgone rfl⟩
      rw [List.append_assoc] at hrest
      exact hrest

/-- The recovery is complete when the start of the process returns. -/
theorem startup_spec (settings : ProcessSettings) (ids : List Uid) :
    Program.Spec (fun s => s.events = [] ∧ s.disk.workspaces = ids) (startup lib env)
      (fun r s => Prelude s.events ∧ (r = .ok () → ∀ id ∈ ids, Gone lib id s.events)) := by
  have hrecover : Program.Spec (fun s => s.events = [] ∧ s.disk.workspaces = ids)
      (recoverSandboxes lib env)
      (fun r s => Prelude s.events ∧ (r = .ok () → ∀ id ∈ ids, Gone lib id s.events)) := by
    rintro s ⟨hevents, rfl⟩
    refine recoverAll_spec s.disk.workspaces [] s ⟨?_, fun job hjob => absurd hjob List.not_mem_nil⟩
    rw [hevents]
    exact fun e he => absurd he List.not_mem_nil
  have hreplay : Safe (fun s => Prelude s.events ∧ ∀ id ∈ ids, Gone lib id s.events)
      (replayPending env env.replay) :=
    safe_replayPending (filing_events lib settings fun events =>
      Prelude events ∧ ∀ id ∈ ids, Gone lib id events) env.replay
  refine hrecover.bind (fun _ => ?_) fun e s hs => ⟨hs.1, fun h => nomatch h⟩
  rintro s ⟨hprelude, hgone⟩
  have hkept := (hreplay s ⟨hprelude, hgone rfl⟩).1
  exact ⟨hkept.1, fun _ => hkept.2⟩

theorem Prelude.guarded {G : List WorkerEvent → Prop} (h : Prelude events) : Guarded G events := by
  rintro before after id rfl
  obtain ⟨job, trace, heq⟩ := h (.claimed id) (List.mem_append_right _ (List.mem_cons_self ..))
  cases heq

theorem Prelude.cleared (h : Prelude events) (hgone : ∀ id ∈ ids, Gone lib id events) :
    Cleared lib settings ids events where
  gone := hgone
  confirmed w claim hmem := by
    obtain ⟨job, trace, heq⟩ := h _ hmem
    cases heq

/-! ## The invariant of the process

`Vigilant` is the invariant between two passes. Within a pass it is strict: once an
evaluation has ended with a `CleanupError`, only the stop flag restores it. -/

/-- Claims were guarded, and another one would be or the process is about to stop. -/
def Vigilant (lib : WorkerLibraries) (settings : ProcessSettings) (ids : List Uid)
    (s : WorkerState) : Prop :=
  Guarded (Cleared lib settings ids) s.events ∧
    (s.stop = true ∨ Cleared lib settings ids s.events)

/-- Claims were guarded, and another one would be. -/
def Strict (lib : WorkerLibraries) (settings : ProcessSettings) (ids : List Uid)
    (s : WorkerState) : Prop :=
  Guarded (Cleared lib settings ids) s.events ∧ Cleared lib settings ids s.events

/-- The invariant is strict, unless a `CleanupError` is on its way. -/
def StrictOr (lib : WorkerLibraries) (settings : ProcessSettings) (ids : List Uid) {α : Type}
    (r : Except Exn α) (s : WorkerState) : Prop :=
  Guarded (Cleared lib settings ids) s.events ∧
    (Cleared lib settings ids s.events ∨ ∃ e, r = .error e ∧ e.IsCleanup)

theorem filing_strict : Filing (DiskOp.Sound lib settings) (Strict lib settings ids) :=
  filing_events lib settings fun events =>
    Guarded (Cleared lib settings ids) events ∧ Cleared lib settings ids events

theorem Strict.or {α : Type} {r : Except Exn α} {s : WorkerState} (h : Strict lib settings ids s) :
    StrictOr lib settings ids r s :=
  ⟨h.1, Or.inl h.2⟩

theorem StrictOr.strict {α : Type} {a : α} {s : WorkerState}
    (h : StrictOr lib settings ids (.ok a) s) : Strict lib settings ids s := by
  refine ⟨h.1, h.2.resolve_right ?_⟩
  rintro ⟨e, he, -⟩
  cases he

theorem strict_bind {α β : Type} {x : WorkerProgram α} {f : α → WorkerProgram β}
    (hx : Safe (Strict lib settings ids) x)
    (hf : ∀ a, Program.Spec (Strict lib settings ids) (f a) (StrictOr lib settings ids)) :
    Program.Spec (Strict lib settings ids) (x >>= f) (StrictOr lib settings ids) :=
  hx.bindSpec (fun a _ => hf a) fun _ _ _ h => h.or

theorem strict_of_safe {α : Type} {x : WorkerProgram α} (hx : Safe (Strict lib settings ids) x) :
    Program.Spec (Strict lib settings ids) x (StrictOr lib settings ids) :=
  fun s hs => Strict.or (hx s hs).1

/-- The invariant is what allows a claim. -/
theorem strict_claimed (id : Uid) : Safe (Strict lib settings ids) (event (.claimed id)) :=
  Program.Keeps.modify fun _ hs => ⟨hs.1.snoc fun _ _ => hs.2, hs.2.claimed id⟩

theorem leaveFiles_apply (id : Uid) (workspace : Except (InputFault ⊕ OtherError) Unit)
    (pending : Option String) (s : WorkerState) :
    ∃ t, leaveFiles id workspace pending s = (.ok (), t) ∧ t.events = s.events := by
  rcases workspace with _ | _
  · exact ⟨s, rfl, rfl⟩
  · cases pending with
    | none => exact ⟨_, rfl, rfl⟩
    | some text => exact ⟨_, rfl, rfl⟩

theorem evaluateJob_spec (w : Surroundings) (claim : JobClaim) :
    Program.Spec (Strict lib settings ids) (evaluateJob lib settings w claim)
      (StrictOr lib settings ids) := by
  intro s hs
  obtain ⟨t, hleave, hevents⟩ := leaveFiles_apply claim.job.id w.workspace
    ((evaluation lib settings w claim).2.host.files Evaluator.pendingFile)
    { s with events := s.events ++ [.evaluated w claim] }
  have heval : evaluateJob lib settings w claim s = ((evaluation lib settings w claim).1, t) :=
    (Program.bind_ok (a := ()) (by rfl)).trans (Program.bind_ok hleave)
  rw [heval]
  show Guarded _ t.events ∧ (Cleared lib settings ids t.events ∨ _)
  rw [hevents]
  refine ⟨hs.1.snoc fun _ h => (nomatch h), ?_⟩
  by_cases hcleanup : ∃ e, (evaluation lib settings w claim).1 = .error e ∧ e.IsCleanup
  · exact Or.inr hcleanup
  · exact Or.inl (hs.2.evaluated fun e he hc => hcleanup ⟨e, he, hc⟩)

theorem pass_spec (once : Bool) (p : Pass) :
    Program.Spec (Strict lib settings ids) (pass lib settings env once p)
      (StrictOr lib settings ids) := by
  have hquiet : ∀ {α : Type} (x : WorkerProgram α), (∀ s, (x s).2 = s) →
      Safe (Strict lib settings ids) x := fun _ h => safe_of_unchanged h
  refine strict_bind (safe_replayPending filing_strict _) fun _ =>
    strict_bind (safe_idleHeartbeat p) fun _ => ?_
  split
  · exact strict_of_safe (hquiet _ fun _ => rfl)
  · refine strict_bind (hquiet _ fun _ => rfl) fun claimed => ?_
    split
    · exact strict_of_safe (hquiet _ fun _ => rfl)
    · rename_i claim
      refine strict_bind (strict_claimed _) fun _ => strict_bind (hquiet _ fun _ => rfl) fun _ => ?_
      refine Program.Spec.bind (evaluateJob_spec _ claim) (fun _ => ?_) ?_
      · intro s hs
        refine strict_of_safe ?_ s hs.strict
        split
        · exact hquiet _ fun _ => rfl
        · exact safe_bind (safe_upload filing_strict p _ 3) fun _ => hquiet _ fun _ => rfl
      · rintro e s ⟨hguarded, hcleared | ⟨e', he', hcleanup⟩⟩
        · exact ⟨hguarded, Or.inl hcleared⟩
        · exact ⟨hguarded, Or.inr ⟨e, rfl, Except.error.inj he' ▸ hcleanup⟩⟩

theorem onError_spec (once : Bool) (p : Pass) (e : Exn) :
    Program.Spec (StrictOr lib settings ids (.error e : Except Exn Bool)) (onError once p e)
      (fun _ => Vigilant lib settings ids) := by
  rintro s ⟨hguarded, hcleared | ⟨e', he', text, rfl⟩⟩
  · have hvigilant : Filing (DiskOp.Sound lib settings) (Vigilant lib settings ids) := by
      refine ⟨fun _ _ n h => h.take n, fun _ _ _ h => h, fun s h => ⟨h.1, Or.inl rfl⟩⟩
    exact (safe_onError hvigilant once p e s ⟨hguarded, Or.inr hcleared⟩).1
  · obtain rfl := Except.error.inj he'
    refine ⟨?_, Or.inl ?_⟩
    · have hevents := (safe_onError (filing_events lib settings fun events => events = s.events)
        once p (.cleanupError text) s rfl).1
      show Guarded _ (onError once p (.cleanupError text) s).2.events
      rw [hevents]
      exact hguarded
    · show ((external p.errorHeartbeat >>= fun _ => (pure true : WorkerProgram Bool))
        { s with stop := true }).2.stop = true
      cases p.errorHeartbeat <;> rfl

theorem loop_spec (once : Bool) (passes : List Pass) :
    Program.Spec (Vigilant lib settings ids) (loop lib settings env once passes)
      (fun _ => Vigilant lib settings ids) := by
  induction passes with
  | nil => exact fun s hs => hs
  | cons p passes ih =>
      intro s hs
      rw [loop, Program.bind_ok Program.read_apply]
      split
      · exact hs
      · rename_i hgo
        have hstop : ¬s.stop = true := fun h => hgo (by rw [h]; rfl)
        have hbody : Program.Spec (Strict lib settings ids)
            (Program.handle (pass lib settings env once p) (onError once p))
            (fun _ => Vigilant lib settings ids) :=
          (pass_spec once p).handle (fun _ _ h => ⟨h.1, Or.inr h.strict.2⟩) (onError_spec once p)
        refine Program.Spec.bind (Q := fun _ => Vigilant lib settings ids) hbody (fun goOn => ?_)
          (fun _ _ h => h) s ⟨hs.1, hs.2.resolve_left hstop⟩
        split
        · exact ih
        · exact fun _ h => h

/-- **Guarded claims.** In every process, a claim comes after the recovery of every sandbox
found on disk, and after no evaluation that ended with a `CleanupError`. -/
theorem runWorker_guarded (lib : WorkerLibraries) (settings : ProcessSettings) (env : ProcessEnv)
    (d : Disk) (once : Bool) (passes : List Pass) :
    Guarded (Cleared lib settings d.workspaces)
      (runWorker lib settings env once passes { disk := d }).2.events := by
  have hprelude : Prelude [] := fun e he => absurd he List.not_mem_nil
  have hquiet : Program.Spec (fun s => Guarded (Cleared lib settings d.workspaces) s.events)
      (sayOffline env) (fun _ s => Guarded (Cleared lib settings d.workspaces) s.events) :=
    fun s hs => (safe_sayOffline (I := fun s => Guarded (Cleared lib settings d.workspaces)
      s.events)
      s hs).1
  refine Program.Spec.bind (spec_enter d)
    (Q := fun _ s => Guarded (Cleared lib settings d.workspaces) s.events) (fun _ => ?_)
    (fun _ _ hs => hs.1 ▸ hprelude.guarded) { disk := d } ⟨rfl, rfl, rfl⟩
  refine Program.Spec.ensure (S := fun _ _ s => Guarded (Cleared lib settings d.workspaces)
    s.events)
    (R := fun _ s => Guarded (Cleared lib settings d.workspaces) s.events) ?_ (fun _ => hquiet)
    (fun _ _ h => h) (fun _ _ _ h => h)
  rintro s ⟨hevents, hids, hjob⟩
  have hspaces : s.disk.workspaces = d.workspaces := by
    rw [Disk.workspaces, hids, hjob]
    rfl
  refine Program.Spec.bind (Q := fun _ s => Guarded (Cleared lib settings d.workspaces) s.events)
    (startup_spec settings d.workspaces) (fun _ => ?_) (fun _ _ h => h.1.guarded) s
      ⟨hevents, hspaces⟩
  rintro t ⟨hprelude, hgone⟩
  exact (loop_spec once passes t ⟨hprelude.guarded, Or.inr (hprelude.cleared (hgone rfl))⟩).1

end Worker

/-! ## The guarantee -/

/-- What is asked of a process that starts on the disk `d`. -/
structure FailsClosed (lib : WorkerLibraries) (settings : ProcessSettings) (d : Disk)
    (events : List WorkerEvent) : Prop where
  cleansUp : ∀ w claim, .evaluated w claim ∈ events → w.workspace = .ok () →
    CleansUp (evaluation lib settings w claim).1 (evaluation lib settings w claim).2.host.trace
  /-- A container whose end is not confirmed is the last thing the process sees of a job. -/
  stops : Guarded (fun before => ∀ w claim, .evaluated w claim ∈ before →
    ¬Unconfirmed (evaluation lib settings w claim).2.host.trace) events
  recovers : Guarded (fun before => ∀ id ∈ d.workspaces, Gone lib id before) events

/-- An evaluation that does not get to its sandbox runs no command. -/
theorem evaluation_unreached {w : Surroundings} (h : w.workspace ≠ .ok ()) (claim : JobClaim) :
    (evaluation lib settings w claim).2.host.trace = [] := by
  rw [evaluation, Evaluator.evaluate]
  rcases hworkspace : w.workspace with (fault | o) | _
  · rfl
  · rfl
  · exact absurd hworkspace h

/-- **Failing closed.** A process fails closed exactly when the surroundings of all its
evaluations are steady. -/
theorem fail_closed (env : ProcessEnv) (d : Disk) (once : Bool) (passes : List Pass) :
    FailsClosed lib settings d
      (Worker.runWorker lib settings env once passes { disk := d }).2.events ↔
    ∀ w claim,
      .evaluated w claim ∈ (Worker.runWorker lib settings env once passes { disk := d }).2.events →
      w.workspace = .ok () → Steady w (evaluation lib settings w claim).2.host.trace := by
  have hguarded := Worker.runWorker_guarded lib settings env d once passes
  generalize (Worker.runWorker lib settings env once passes { disk := d }).2.events = events
    at hguarded ⊢
  refine ⟨fun h w claim hmem hreach => (cleans_up_iff hreach).mp (h.cleansUp w claim hmem hreach),
    fun h => ⟨fun w claim hmem hreach => (cleans_up_iff hreach).mpr (h w claim hmem hreach), ?_,
      fun before after id heq => (hguarded before after id heq).gone⟩⟩
  rintro before after id rfl w claim hmem hunconfirmed
  by_cases hreach : w.workspace = .ok ()
  · have hsteady := h w claim (List.mem_append_left _ hmem) hreach
    obtain ⟨e, he, hcleanup⟩ := ((cleans_up_iff hreach).mpr hsteady).failsClosed hunconfirmed
    exact (hguarded before after id rfl).confirmed w claim hmem e he hcleanup
  · rw [evaluation_unreached hreach] at hunconfirmed
    obtain ⟨e, he, -⟩ := hunconfirmed
    exact absurd he List.not_mem_nil

/-! ## A full disk

A container does not stop, and the disk has no room for the pending file: the `OSError` of the
write takes the place of the `CleanupError`, and the process claims the next job. -/

def WorkerLibraries.plain : WorkerLibraries :=
  { Libraries.plain (.error (.raised .parseError "no element found")) (.ok 0) with
    uuid := .ok
    uuid_idText := fun _ => rfl }

/-- A pass that claims this job and evaluates it in the surroundings `w`. -/
def Pass.claiming (jobId : Uid) (w : Surroundings) : Pass where
  replay _ := .ok .null
  heartbeat := .ok ()
  claim := .ok (some (.plain WorkerLibraries.plain.toLibraries jobId))
  enter := .ok ()
  evaluation := w
  cancelled := false
  upload _ := .ok .null
  waitCancelled _ := false
  errorHeartbeat := .ok ()

/-- A machine and a server where everything works. -/
def ProcessEnv.plain : ProcessEnv where
  preflight := .plain .built fun _ => {}
  root := .ok ()
  register := .ok (1, ⟨"worker token", by decide⟩)
  recovery _ := .plain .built fun _ => {}
  replay _ := .ok .null
  read _ := .ok ()
  file _ := .ok ()
  offline := .ok ()

def ProcessSettings.plain : ProcessSettings where
  serverUrl := "https://benchmark.example"
  workspaceRoot := "/workspace"

def Surroundings.stuck : Surroundings :=
  let plain := plain .built fun _ => { slow := true }
  { plain with
    docker := fun argv =>
      if argv.take 3 = ["inspect", "--format", template ".State.Running"] then
        .ok (.answering "true")
      else plain.docker argv
    file := fun op =>
      if op = .write pendingFile then .error (.raised .osError "No space left on device")
        else .ok () }

/-- The process claims again although a container may still run. -/
theorem fails_open : ¬FailsClosed .plain .plain {}
    (Worker.runWorker .plain .plain .plain false [.claiming 1 .stuck, .claiming 2 .stuck]
      { disk := {} }).2.events := by
  intro h
  have hstops := h.stops [.claimed 1, .evaluated .stuck (.plain WorkerLibraries.plain.toLibraries)]
    [.evaluated .stuck (.plain WorkerLibraries.plain.toLibraries 2)] 2 (by rfl) .stuck
    (.plain WorkerLibraries.plain.toLibraries) (by simp)
  refine hstops ⟨.ran (runningArgs (containerName (WorkerLibraries.plain.idText 1) .agent))
    (.ok (Process.run 500000 (.answering "true"))), ?_, fun hconfirms => ?_⟩
  · exact List.mem_of_getElem? (i := 8) (by rfl)
  · exact absurd (hconfirms.1 _ rfl) (by decide)

end AgentBenchX
