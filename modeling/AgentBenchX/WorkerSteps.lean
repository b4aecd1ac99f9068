import AgentBenchX.Cleanup
import AgentBenchX.Worker

/-!
# What the worker process can do

The effects of `run_worker` on its state, said once: it records file
operations of a known form (`DiskOp.Sound`), logs events and sets the
stop flag. `Filing` is an invariant as far as the first and the last are
concerned; it survives everything between two claims. `Invariant` also
survives events, and with it the whole process.
-/

namespace AgentBenchX

open DockerSandbox

/-- The operations of a worker: of the texts that are read back, only complete ones or
prefixes are written. -/
def DiskOp.Sound (lib : WorkerLibraries) (settings : ProcessSettings) : DiskOp → Prop
  | .write .identity text => ∃ id token n,
      text = takeChars n (String.ofList (Json.dumps none
        (Worker.identityJson lib settings id token)))
  | .write (.pending _) text => ∃ (r : ResultInput) (n : ℕ),
      text = takeChars n (r.pendingText lib.toLibraries)
  | _ => True

theorem takeChars_takeChars (m n : ℕ) (s : String) :
    takeChars m (takeChars n s) = takeChars (min m n) s := by
  simp [takeChars, List.take_take]

/-- An operation that is cut short is one of the same form. -/
theorem DiskOp.Sound.take {lib : WorkerLibraries} {settings : ProcessSettings} {file : DiskFile}
    {text : String} (h : (DiskOp.write file text).Sound lib settings) (n : ℕ) :
    (DiskOp.write file (takeChars n text)).Sound lib settings := by
  cases file with
  | identity =>
      obtain ⟨id, token, m, rfl⟩ := h
      exact ⟨id, token, min n m, takeChars_takeChars ..⟩
  | pending id =>
      obtain ⟨r, m, rfl⟩ := h
      exact ⟨r, min n m, takeChars_takeChars ..⟩
  | receipt id => trivial

theorem DiskOp.Torn.sound {lib : WorkerLibraries} {settings : ProcessSettings} {op torn : DiskOp}
    (h : op.Torn torn) (hs : op.Sound lib settings) : torn.Sound lib settings := by
  cases h with
  | write file text n => exact hs.take n

namespace Worker

variable {lib : WorkerLibraries} {settings : ProcessSettings} {env : ProcessEnv}
  {I : WorkerState → Prop}

/-- Nothing is known of values and exceptions. -/
abbrev Safe {α : Type} (I : WorkerState → Prop) (x : WorkerProgram α) : Prop :=
  Program.Keeps I x (fun _ => True) fun _ => True

theorem safe_bind {α β : Type} {x : WorkerProgram α} {f : α → WorkerProgram β} (hx : Safe I x)
    (hf : ∀ a, Safe I (f a)) : Safe I (x >>= f) :=
  hx.bind fun a _ => hf a

/-- Programs that only look. -/
theorem safe_of_unchanged {α : Type} {x : WorkerProgram α} (h : ∀ s, (x s).2 = s) : Safe I x := by
  intro s hs
  rw [h s]
  exact ⟨hs, fun _ _ => trivial, fun _ _ => trivial⟩

theorem safe_read {α : Type} {f : WorkerState → WorkerProgram α} (hf : ∀ s, Safe I (f s)) :
    Safe I (Program.read >>= f) :=
  safe_bind (safe_of_unchanged fun _ => rfl) hf

theorem safe_handle {α : Type} {x : WorkerProgram α} {h : Exn → WorkerProgram α} (hx : Safe I x)
    (hh : ∀ e, Safe I (h e)) : Safe I (Program.handle x h) :=
  hx.handle fun e _ => hh e

/-! ## File operations -/

/-- An invariant that operations `P` keep, and that does not see events. -/
structure Filing (P : DiskOp → Prop) (I : WorkerState → Prop) : Prop where
  cut : ∀ file text n, P (.write file text) → P (.write file (takeChars n text))
  record : ∀ s op, P op → I s → I { s with disk := s.disk.apply op, ops := s.ops ++ [op] }
  stop : ∀ s, I s → I { s with stop := true }

section Operations

variable {P : DiskOp → Prop} (hI : Filing P I)

include hI

theorem safe_record {op : DiskOp} (h : P op) : Safe I (record op) :=
  Program.Keeps.modify fun s hs => hI.record s op h hs

theorem safe_setStop : Safe I setStop :=
  Program.Keeps.modify fun s hs => hI.stop s hs

theorem safe_perform {op : DiskOp} (h : P op) : Safe I (perform env op) := by
  unfold perform
  split
  · exact safe_record hI h
  · split
    · exact safe_bind (safe_record hI (hI.cut _ _ _ h)) fun _ => safe_of_unchanged fun _ => rfl
    · exact safe_of_unchanged fun _ => rfl

omit hI in
theorem safe_readJson (file : DiskFile) (text : String) : Safe I (readJson env file text) := by
  refine safe_bind (safe_of_unchanged fun _ => rfl) fun _ => ?_
  split
  · exact safe_of_unchanged fun _ => rfl
  · exact safe_of_unchanged fun _ => rfl

theorem safe_identity (h : ∀ id token, P (.write .identity
      (String.ofList (Json.dumps none (identityJson lib settings id token))))) :
    Safe I (identity lib settings env) := by
  refine safe_read fun s => ?_
  split
  · exact safe_of_unchanged fun _ => rfl
  · split
    · exact safe_of_unchanged fun _ => rfl
    · refine safe_bind (safe_readJson _ _) fun stored =>
        safe_bind (safe_of_unchanged fun _ => rfl) fun url => ?_
      split
      · exact safe_of_unchanged fun _ => rfl
      · exact safe_bind (safe_of_unchanged fun _ => rfl) fun _ =>
          safe_bind (safe_of_unchanged fun _ => rfl) fun _ =>
            safe_bind (safe_of_unchanged fun _ => rfl) fun _ => safe_of_unchanged fun _ => rfl
  · refine safe_bind (safe_of_unchanged fun _ => rfl) fun credentials => ?_
    exact safe_bind (safe_perform hI (h _ _)) fun _ => safe_of_unchanged fun _ => rfl

end Operations

theorem sound_identity (lib : WorkerLibraries) (settings : ProcessSettings) (id : Uid)
    (token : Token) : (DiskOp.write .identity
      (String.ofList (Json.dumps none (identityJson lib settings id token)))).Sound lib settings :=
  ⟨id, token, _, (takeChars_length _).symm⟩

section Filing

variable (hI : Filing (DiskOp.Sound lib settings) I)

include hI

theorem safe_replayOne (answer : Uid → Except OtherError Json) (id : Uid) :
    Safe I (replayOne env answer id) := by
  refine safe_read fun s => ?_
  split
  · exact safe_of_unchanged fun _ => rfl
  · refine safe_bind (safe_readJson _ _) fun _ => ?_
    split
    · exact safe_bind (safe_perform hI trivial) fun _ => safe_perform hI trivial
    · split
      · exact safe_perform hI trivial
      · exact safe_of_unchanged fun _ => rfl

theorem safe_replayPending (answer : Uid → Except OtherError Json) :
    Safe I (replayPending env answer) := by
  refine safe_read fun s => ?_
  generalize s.disk.pendings = ids
  induction ids with
  | nil => exact safe_of_unchanged fun _ => rfl
  | cons id ids ih => exact safe_bind (safe_replayOne hI answer id) fun _ => ih

theorem safe_acknowledged (id : Uid) (evaluation : Json) :
    Safe I (acknowledged env id evaluation) :=
  safe_bind (safe_perform hI trivial) fun _ => safe_bind (safe_perform hI trivial) fun _ =>
    safe_perform hI trivial

theorem safe_leaveFiles {id : Uid} {workspace : Except (InputFault ⊕ OtherError) Unit}
    {pending : Option String}
    (h : ∀ text, pending = some text → (DiskOp.write (.pending id) text).Sound lib settings) :
    Safe I (leaveFiles id workspace pending) := by
  unfold leaveFiles
  split
  · exact safe_of_unchanged fun _ => rfl
  · exact safe_record hI trivial
  · exact safe_bind (safe_record hI trivial) fun _ => safe_record hI (h _ rfl)

theorem safe_upload (p : Pass) (id : Uid) (n : ℕ) : Safe I (upload env p id n) := by
  induction n with
  | zero => exact safe_setStop hI
  | succ n ih =>
      refine safe_handle (safe_bind (safe_of_unchanged fun _ => rfl) fun _ =>
        safe_acknowledged hI id _) fun e => ?_
      split
      · split
        · split
          · exact safe_of_unchanged fun _ => rfl
          · exact ih
        · exact safe_of_unchanged fun _ => rfl
      · exact safe_of_unchanged fun _ => rfl

theorem safe_onError (once : Bool) (p : Pass) (e : Exn) : Safe I (onError once p e) := by
  unfold onError
  split
  · exact safe_bind (safe_setStop hI) fun _ =>
      safe_bind (safe_of_unchanged fun _ => rfl) fun _ => safe_of_unchanged fun _ => rfl
  · split
    · exact safe_of_unchanged fun _ => rfl
    · split
      · exact safe_of_unchanged fun _ => rfl
      · exact safe_of_unchanged fun _ => rfl

end Filing

theorem safe_idleHeartbeat (p : Pass) : Safe I (idleHeartbeat p) := by
  unfold idleHeartbeat
  split
  · exact safe_of_unchanged fun _ => rfl
  · exact safe_of_unchanged fun _ => rfl

theorem safe_sayOffline : Safe I (sayOffline env) := by
  refine safe_handle (safe_of_unchanged fun _ => rfl) fun e => ?_
  split
  · split
    · exact safe_of_unchanged fun _ => rfl
    · exact safe_of_unchanged fun _ => rfl
  · exact safe_of_unchanged fun _ => rfl

/-! ## The whole process -/

/-- An invariant of the process. -/
structure Invariant (lib : WorkerLibraries) (settings : ProcessSettings)
    (I : WorkerState → Prop) : Prop extends Filing (DiskOp.Sound lib settings) I where
  event : ∀ s e, I s → I { s with events := s.events ++ [e] }

theorem sound_pending (lib : WorkerLibraries) (settings : ProcessSettings) (w : Surroundings)
    (claim : JobClaim) (folder : String) (text : String)
    (h : (Evaluator.evaluate w lib.toLibraries settings.toWorkerSettings claim folder
      (Evaluator.start claim)).2.host.files Evaluator.pendingFile = some text) :
    (DiskOp.write (.pending claim.job.id) text).Sound lib settings :=
  evaluate_pending h

section Invariant

variable (hI : Invariant lib settings I)

include hI

theorem safe_event (e : WorkerEvent) : Safe I (event e) :=
  Program.Keeps.modify fun s hs => hI.event s e hs

theorem safe_recoverSandboxes : Safe I (recoverSandboxes lib env) := by
  refine safe_read fun s => ?_
  generalize s.disk.workspaces = ids
  induction ids with
  | nil => exact safe_of_unchanged fun _ => rfl
  | cons id ids ih =>
      refine safe_bind ?_ fun _ => ih
      exact safe_bind (safe_event hI _) fun _ => safe_of_unchanged fun _ => rfl

theorem safe_evaluateJob (w : Surroundings) (claim : JobClaim) :
    Safe I (evaluateJob lib settings w claim) := by
  refine safe_bind (safe_event hI _) fun _ => safe_bind ?_ fun _ =>
    safe_of_unchanged fun _ => rfl
  exact safe_leaveFiles hI.toFiling fun text h => sound_pending lib settings w claim _ text h

theorem safe_pass (once : Bool) (p : Pass) : Safe I (pass lib settings env once p) := by
  refine safe_bind (safe_replayPending hI.toFiling _) fun _ =>
    safe_bind (safe_idleHeartbeat p) fun _ => ?_
  split
  · exact safe_of_unchanged fun _ => rfl
  · refine safe_bind (safe_of_unchanged fun _ => rfl) fun claimed => ?_
    split
    · exact safe_of_unchanged fun _ => rfl
    · refine safe_bind (safe_event hI _) fun _ => safe_bind (safe_of_unchanged fun _ => rfl)
        fun _ => safe_bind (safe_evaluateJob hI _ _) fun _ => ?_
      split
      · exact safe_of_unchanged fun _ => rfl
      · exact safe_bind (safe_upload hI.toFiling p _ 3) fun _ => safe_of_unchanged fun _ => rfl

theorem safe_loop (once : Bool) (passes : List Pass) :
    Safe I (loop lib settings env once passes) := by
  induction passes with
  | nil => exact safe_of_unchanged fun _ => rfl
  | cons p passes ih =>
      refine safe_read fun s => ?_
      split
      · exact safe_of_unchanged fun _ => rfl
      · refine safe_bind (safe_handle (safe_pass hI once p) (safe_onError hI.toFiling once p))
          fun goOn => ?_
        split
        · exact ih
        · exact safe_of_unchanged fun _ => rfl

/-- **Process rule.** What survives sound file operations, events and the stop flag survives
the process. -/
theorem safe_runWorker (once : Bool) (passes : List Pass) :
    Safe I (runWorker lib settings env once passes) := by
  have henter : Safe I (enter lib settings env) :=
    safe_bind (safe_of_unchanged fun _ => rfl) fun _ =>
      safe_bind (safe_of_unchanged fun _ => rfl) fun _ =>
        safe_identity hI.toFiling (sound_identity lib settings)
  refine safe_bind henter fun _ => Program.Keeps.ensure ?_ safe_sayOffline
  refine safe_bind ?_ fun _ => safe_loop hI once passes
  exact safe_bind (safe_recoverSandboxes hI) fun _ => safe_replayPending hI.toFiling _

end Invariant

end Worker

end AgentBenchX
