import AgentBenchX.Works

/-!
# Cleanup

What becomes of containers whose end could not be confirmed. The body of
an evaluation runs no removal command, and it ends with a `CleanupError`
when a container does not stop (`Undisturbed`, with the two invariants
below it). `destroy` comes last, behind the writing of the pending file;
so it is reached exactly when that writing succeeds, and its own
exceptions replace the one of the body (`cleans_up_iff`).
-/

namespace AgentBenchX

open DockerSandbox Evaluator

/-! ## Commands and confirmations -/

/-- The commands of `destroy`. -/
def IsRemoval (argv : List String) : Prop :=
  argv.head? = some "rm" ∨ ∃ image, argv = ["image", "rm", image]

/-- Neither a command of `destroy` nor the check of `stop`. -/
structure Ordinary (argv : List String) : Prop where
  kept : ¬IsRemoval argv
  unchecked : ∀ name, argv ≠ runningArgs name

theorem ordinary_of_head {command : String} {args : List String} (hrm : command ≠ "rm")
    (himage : command ≠ "image") (hinspect : command ≠ "inspect") : Ordinary (command :: args) where
  kept := by
    rintro (h | ⟨image, h⟩)
    · exact hrm (Option.some.inj h)
    · exact himage (List.cons.inj h).1
  unchecked name h := hinspect (List.cons.inj h).1

theorem ordinary_inspect_image (format image : String) :
    Ordinary ["image", "inspect", "--format", format, image] where
  kept := by
    rintro (h | ⟨name, h⟩)
    · exact absurd (Option.some.inj h) (by decide)
    · simp at h
  unchecked name h := absurd (List.cons.inj h).1 (by decide)

theorem ordinary_inspect_state (name : String) :
    Ordinary ["inspect", "--format", template "json .State", name] where
  kept := by
    rintro (h | ⟨image, h⟩)
    · exact absurd (Option.some.inj h) (by decide)
    · exact absurd (List.cons.inj h).1 (by decide)
  unchecked name h := by
    have hformat := (List.cons.inj (List.cons.inj (List.cons.inj h).2).2).1
    exact absurd hformat (by decide)

def Event.IsRemoval : Event → Prop
  | .ran argv _ => AgentBenchX.IsRemoval argv
  | .copied _ _ => False
  | .destroying => True

/-- Where a command checks that a container is gone, the answer says so. -/
def Event.Confirms : Event → Prop
  | .ran argv (.ok o) => (∀ name, argv = runningArgs name → Stopped o) ∧
      ∀ name, argv = removeArgs name → Removed o
  | _ => True

/-- Some container could not be confirmed to be stopped or removed. -/
def Unconfirmed (trace : List Event) : Prop := ∃ e ∈ trace, ¬e.Confirms

theorem run_error {w : Surroundings} {argv : List String} {o : OtherError}
    (h : w.docker argv = .error o) (s : Host) :
    run w argv s = (.error (.other o), s.log (.ran argv (.error o))) := by
  show (((w.docker argv).map (Process.run 500000)).mapError Exn.other, s.log _) = _
  rw [h]
  rfl

theorem run_ok {w : Surroundings} {argv : List String} {ended : Ended}
    (h : w.docker argv = .ok ended) (s : Host) :
    run w argv s = (.ok (Process.run 500000 ended),
      s.log (.ran argv (.ok (Process.run 500000 ended)))) := by
  show (((w.docker argv).map (Process.run 500000)).mapError Exn.other, s.log _) = _
  rw [h]
  rfl

def Exn.IsCleanup (e : Exn) : Prop := ∃ text, e = .cleanupError text

/-! ## The body of an evaluation -/

/-- An invariant that the body of an evaluation keeps, unless it raises an exception of `E`:
all that has to be known are the effects of the single operations. -/
structure Undisturbed (w : Surroundings) (I : Host → Prop) (E : Exn → Prop) : Prop where
  ran : ∀ h argv answer, Ordinary argv → I h → I (h.log (.ran argv answer))
  copied : ∀ h argv answer, I h → I (h.log (.copied argv answer))
  stop : ∀ name, Program.KeepsOr I E (stop w name)
  sandbox : ∀ h s, I h → I { h with sandbox := s }
  file : ∀ h path text, path ≠ pendingFile → I h →
    I { h with files := fun p => if p = path then some text else h.files p }

namespace Undisturbed

variable {w : Surroundings} {lib : Libraries} {settings : WorkerSettings} {claim : JobClaim}
  {I : Host → Prop} {E : Exn → Prop} (hI : Undisturbed w I E)

include hI

theorem run {argv : List String} (h : Ordinary argv) : Program.KeepsOr I E (run w argv) :=
  (Program.KeepsOr.modify fun s hs => hI.ran s argv _ h hs).bind fun _ =>
    Program.KeepsOr.of_unchanged fun _ => rfl

theorem checked {argv : List String} (h : Ordinary argv) :
    Program.KeepsOr I E (checked w argv) := by
  refine (hI.run h).bind fun o => ?_
  split
  · exact Program.KeepsOr.of_unchanged fun _ => rfl
  · exact Program.KeepsOr.of_unchanged fun _ => rfl

theorem update (f : Sandbox → Sandbox) : Program.KeepsOr I E (update f) :=
  Program.KeepsOr.modify fun s hs => hI.sandbox s _ hs

theorem writeText {path : String} (text : String) (h : path ≠ pendingFile) :
    Program.KeepsOr I E (writeText w path text) := by
  have hset : ∀ content, Program.KeepsOr I E (setFile path content) := fun content =>
    Program.KeepsOr.modify fun s hs => hI.file s path content h hs
  unfold DockerSandbox.writeText
  split
  · exact hset _
  · exact Program.KeepsOr.of_unchanged fun _ => rfl
  · exact (hset _).bind fun _ => Program.KeepsOr.of_unchanged fun _ => rfl

theorem preflight : Program.KeepsOr I E (preflight w) := by
  unfold DockerSandbox.preflight
  split
  · exact Program.KeepsOr.of_unchanged fun _ => rfl
  · split
    · exact Program.KeepsOr.of_unchanged fun _ => rfl
    · refine (hI.checked (ordinary_of_head (by decide) (by decide) (by decide))).bind fun _ => ?_
      split
      · exact Program.KeepsOr.of_unchanged fun _ => rfl
      · exact (hI.checked (ordinary_of_head (by decide) (by decide) (by decide))).bind fun _ =>
          Program.KeepsOr.of_unchanged fun _ => rfl

theorem create (jobId : String) : Program.KeepsOr I E (create w jobId) :=
  hI.preflight.bind fun _ => hI.update _

theorem prepare (sandboxId folder : String) :
    Program.KeepsOr I E (prepare w settings sandboxId folder) := by
  have hexternal : ∀ {α : Type} (answer : Except OtherError α),
      Program.KeepsOr I E (external answer) := fun _ =>
    Program.KeepsOr.of_unchanged fun _ => rfl
  refine (hI.update _).bind fun _ => (hexternal _).bind fun _ => (hexternal _).bind fun _ =>
    (hexternal _).bind fun _ => (hexternal _).bind fun _ => ?_
  refine (hI.writeText _ (by decide)).bind fun _ => ?_
  refine (Program.KeepsOr.of_unchanged fun _ => rfl).bind fun h => ?_
  refine (hI.run (ordinary_of_head (by decide) (by decide) (by decide))).bind fun build => ?_
  refine (hI.writeText _ (by decide)).bind fun _ => (hI.writeText _ (by decide)).bind fun _ => ?_
  split
  · exact Program.KeepsOr.of_unchanged fun _ => rfl
  · refine (hI.checked (ordinary_inspect_image _ _)).bind fun id => (hI.update _).bind fun _ => ?_
    refine (hI.checked (ordinary_inspect_image _ _)).bind fun workdir => ?_
    split
    · exact Program.KeepsOr.of_unchanged fun _ => rfl
    · exact Program.KeepsOr.of_unchanged fun _ => rfl

theorem execute (mode : SandboxMode) : Program.KeepsOr I E (execute w settings mode) := by
  refine (Program.KeepsOr.of_unchanged fun _ => rfl).bind fun h => ?_
  dsimp only
  split
  · exact Program.KeepsOr.of_unchanged fun _ => rfl
  · split
    · exact Program.KeepsOr.of_unchanged fun _ => rfl
    · refine (hI.update _).bind fun _ => ?_
      refine (hI.checked (ordinary_of_head (by decide) (by decide) (by decide))).bind fun _ => ?_
      refine (hI.update _).bind fun _ => ?_
      refine (hI.run (ordinary_of_head (by decide) (by decide) (by decide))).bind fun o => ?_
      refine (hI.stop _).bind fun _ => (hI.run (ordinary_inspect_state _)).bind fun _ => ?_
      exact (Program.KeepsOr.of_unchanged fun _ => rfl).bind fun _ =>
        Program.KeepsOr.of_unchanged fun _ => rfl

theorem readFile (name filename : String) (limit : ℕ) :
    Program.KeepsOr I E (readFile w name filename limit) :=
  (Program.KeepsOr.modify fun h hh => hI.copied h _ _ hh).bind fun _ =>
    Program.KeepsOr.of_unchanged fun _ => rfl

theorem collect : Program.KeepsOr I E (collect w) := by
  refine (Program.KeepsOr.of_unchanged fun _ => rfl).bind fun h => ?_
  split
  · exact Program.KeepsOr.of_unchanged fun _ => rfl
  · split
    · exact (hI.readFile _ _ _).bind fun _ => (Program.KeepsOr.of_unchanged fun _ => rfl).bind
        fun _ => Program.KeepsOr.of_unchanged fun _ => rfl
    · exact (hI.readFile _ _ _).bind fun _ => (hI.readFile _ _ _).bind fun _ =>
        Program.KeepsOr.of_unchanged fun _ => rfl

omit hI in
theorem onHost {α : Type} {x : HostProgram α} (hx : Program.KeepsOr I E x) :
    Program.KeepsOr (fun s : EvalState => I s.host) E (onHost x) :=
  hx.focus (fun _ ht => ht) fun _ _ _ hs => hs

omit hI in
theorem setResult (f : ResultInput → ResultInput) :
    Program.KeepsOr (fun s : EvalState => I s.host) E (setResult f) :=
  Program.KeepsOr.modify fun _ hs => hs

omit hI in
theorem external {α : Type} (answer : Except OtherError α) :
    Program.KeepsOr (fun s : EvalState => I s.host) E (external answer) :=
  Program.KeepsOr.of_unchanged fun _ => rfl

theorem prepareInputs (folder : String) :
    Program.KeepsOr (fun s : EvalState => I s.host) E
      (prepareInputs w lib settings claim folder) := by
  refine (onHost (hI.create _)).bind fun _ => (external _).bind fun content => ?_
  have hverify : Program.KeepsOr (fun s : EvalState => I s.host) E
      (verifyAgent lib claim.agentVersion content) := by
    unfold verifyAgent
    split
    · exact Program.KeepsOr.of_unchanged fun _ => rfl
    · exact Program.KeepsOr.of_unchanged fun _ => rfl
  have hinput : Program.KeepsOr (fun s : EvalState => I s.host) E (input w.prepareProblem) := by
    unfold input
    split
    · exact Program.KeepsOr.of_unchanged fun _ => rfl
    · exact Program.KeepsOr.of_unchanged fun _ => rfl
    · exact Program.KeepsOr.of_unchanged fun _ => rfl
  refine hverify.bind fun _ => (external _).bind fun _ => hinput.bind fun _ => ?_
  split
  · exact Program.KeepsOr.of_unchanged fun _ => rfl
  · exact (onHost (hI.prepare _ _)).bind fun _ =>
      (Program.KeepsOr.of_unchanged fun _ => rfl).bind fun _ => setResult _

theorem agentPhase :
    Program.KeepsOr (fun s : EvalState => I s.host) E (agentPhase w settings) := by
  refine (external _).bind fun _ => (onHost (hI.execute .agent)).bind fun outcome => ?_
  refine (setResult _).bind fun _ => (setResult _).bind fun _ => ?_
  exact (onHost hI.collect).bind fun _ => (setResult _).bind fun _ =>
    Program.KeepsOr.of_unchanged fun _ => rfl

omit hI in
theorem parseTests (junit : Bytes) :
    Program.KeepsOr (fun s : EvalState => I s.host) E (parseTests lib junit) := by
  intro s hs
  have hhost : (Evaluator.parseTests lib junit s).2.host = s.host := by
    rw [parseTests_apply]
    split
    · rfl
    · rfl
  left
  show I (Evaluator.parseTests lib junit s).2.host
  rw [hhost]
  exact hs

theorem testPhase :
    Program.KeepsOr (fun s : EvalState => I s.host) E (testPhase w lib settings claim) := by
  refine (external _).bind fun _ => (external _).bind fun _ => ?_
  refine (Program.KeepsOr.of_unchanged fun _ => rfl).bind fun s => ?_
  refine (onHost (hI.writeText _ (by decide))).bind fun _ => ?_
  refine (onHost (hI.writeText _ (by decide))).bind fun _ => (external _).bind fun _ => ?_
  refine (onHost (hI.execute .test)).bind fun test => (setResult _).bind fun _ => ?_
  refine (setResult _).bind fun _ => (onHost hI.collect).bind fun collected => ?_
  refine (parseTests _).bind fun _ => (setResult _).bind fun _ => ?_
  split
  · exact Program.KeepsOr.of_unchanged fun _ => rfl
  · exact external _

theorem attempt (folder : String) :
    Program.KeepsOr (fun s : EvalState => I s.host) E
      (attempt w lib settings claim folder) := by
  refine (hI.prepareInputs folder).bind fun _ => hI.agentPhase.bind fun outcome => ?_
  split
  · exact setResult _
  · split
    · exact setResult _
    · exact hI.testPhase

end Undisturbed

section Body

variable {w : Surroundings} {lib : Libraries} {settings : WorkerSettings} {claim : JobClaim}

/-- Nothing of the cleanup has happened. -/
structure Untouched (h : Host) : Prop where
  pending : h.files pendingFile = none
  trace : ∀ e ∈ h.trace, ¬e.IsRemoval

/-- Everything that was checked is confirmed. -/
def Confirmed (h : Host) : Prop := ∀ e ∈ h.trace, e.Confirms

theorem Untouched.log {h : Host} (hu : Untouched h) {e : Event} (he : ¬e.IsRemoval) :
    Untouched (h.log e) where
  pending := hu.pending
  trace := by
    intro e' he'
    rcases List.mem_append.mp he' with he' | he'
    · exact hu.trace e' he'
    · rw [List.mem_singleton.mp he']
      exact he

theorem Confirmed.log {h : Host} (hc : Confirmed h) {e : Event} (he : e.Confirms) :
    Confirmed (h.log e) := by
  intro e' he'
  rcases List.mem_append.mp he' with he' | he'
  · exact hc e' he'
  · rw [List.mem_singleton.mp he']
    exact he

theorem not_removal_running (name : String) : ¬IsRemoval (runningArgs name) := by
  rintro (h | ⟨image, h⟩)
  · exact absurd (Option.some.inj h) (by decide)
  · exact absurd (List.cons.inj h).1 (by decide)

theorem ordinary_kill (name : String) : Ordinary ["kill", name] :=
  ordinary_of_head (by decide) (by decide) (by decide)

theorem confirms_of_ordinary {argv : List String} (h : Ordinary argv)
    (answer : Except OtherError Outcome) : (Event.ran argv answer).Confirms := by
  cases answer with
  | error e => trivial
  | ok o => exact ⟨fun name hname => absurd hname (h.unchecked name),
      fun name hname => absurd (Or.inl (congrArg List.head? hname)) h.kept⟩

theorem undisturbed_untouched : Undisturbed w Untouched fun _ => False where
  ran h argv answer hargv hu := hu.log hargv.kept
  copied _ _ _ hu := hu.log not_false
  stop name := by
    have hrun : ∀ argv, ¬IsRemoval argv → Program.KeepsOr Untouched (fun _ => False) (run w argv) :=
      fun argv hargv => (Program.KeepsOr.modify fun h hu => hu.log hargv).bind fun _ =>
        Program.KeepsOr.of_unchanged fun _ => rfl
    refine (hrun _ (ordinary_kill name).kept).bind fun _ =>
      (hrun _ (not_removal_running name)).bind fun o => ?_
    split
    · exact Program.KeepsOr.of_unchanged fun _ => rfl
    · exact Program.KeepsOr.of_unchanged fun _ => rfl
  sandbox _ _ hu := ⟨hu.pending, hu.trace⟩
  file h path text hpath hu := ⟨by
    show (if pendingFile = path then some text else h.files pendingFile) = none
    rw [if_neg (Ne.symm hpath)]
    exact hu.pending, hu.trace⟩

/-- Only an exception of the cleanup breaks the invariant: `stop` checks that the container
does not run and raises when the answer does not say so. -/
theorem undisturbed_confirmed : Undisturbed w Confirmed Exn.IsCleanup where
  ran _ _ answer hargv hc := hc.log (confirms_of_ordinary hargv answer)
  copied _ _ _ hc := hc.log trivial
  stop name := by
    have hkill : Program.KeepsOr Confirmed Exn.IsCleanup (run w ["kill", name]) :=
      (Program.KeepsOr.modify fun h hc => hc.log (confirms_of_ordinary (ordinary_kill name) _)).bind
        fun _ => Program.KeepsOr.of_unchanged fun _ => rfl
    refine hkill.bind fun _ h hc => ?_
    cases hanswer : w.docker (runningArgs name) with
    | error e =>
        rw [Program.bind_error (run_error hanswer h)]
        exact Or.inl (hc.log trivial)
    | ok ended =>
        rw [Program.bind_ok (run_ok hanswer h)]
        split
        · rename_i hstopped
          exact Or.inl (hc.log ⟨fun _ _ => hstopped, fun name' hname =>
            absurd (List.cons.inj hname).1 (by decide)⟩)
        · exact Or.inr ⟨_, rfl, _, rfl⟩
  sandbox _ _ hc := hc
  file _ _ _ _ hc := hc

end Body

/-! ## `destroy` -/

section Destroy

variable {w : Surroundings}

/-- No command raised. -/
def Answered (trace : List Event) : Prop := ∀ argv o, Event.ran argv (.error o) ∉ trace

theorem Answered.cons {argv : List String} {o : Outcome} {trace : List Event}
    (h : Answered trace) : Answered (.ran argv (.ok o) :: trace) := by
  intro argv' o' hmem
  rcases List.mem_cons.mp hmem with heq | hmem
  · cases heq
  · exact h argv' o' hmem

theorem confirms_removed {name : String} {o : Outcome} (h : Removed o) :
    (Event.ran (removeArgs name) (.ok o)).Confirms :=
  ⟨fun _ hname => absurd (List.cons.inj hname).1 (by decide), fun _ _ => h⟩

theorem confirms_image_rm (image : String) (o : Outcome) :
    (Event.ran ["image", "rm", image] (.ok o)).Confirms :=
  ⟨fun _ hname => absurd (List.cons.inj hname).1 (by decide),
    fun _ hname => absurd (List.cons.inj hname).1 (by decide)⟩

/-- Docker was asked to remove every one of these containers. -/
def Asked (names : List String) (trace : List Event) : Prop :=
  ∀ name ∈ names, ∃ o, Event.ran (removeArgs name) (.ok o) ∈ trace

/-- How the removal of containers ends, with the commands it ran. -/
inductive Removals (names : List String) : Except Exn (List String) → List Event → Prop
  | answered {failures : List String} {trace : List Event} (h : Answered trace)
      (hasked : Asked names trace) (hconfirms : failures = [] → ∀ e ∈ trace, e.Confirms) :
      Removals names (.ok failures) trace
  | raised {o : OtherError} {trace : List Event} {argv : List String}
      (h : Event.ran argv (.error o) ∈ trace) : Removals names (.error (.other o)) trace

theorem removeAll_spec (names : List String) (h : Host) :
    ∃ trace, (removeAll w names h).2 = { h with trace := h.trace ++ trace } ∧
      (∀ e ∈ trace, e.IsRemoval) ∧ Removals names (removeAll w names h).1 trace := by
  induction names generalizing h with
  | nil =>
      refine ⟨[], ?_, fun e he => absurd he List.not_mem_nil, .answered
        (fun _ _ => List.not_mem_nil)
        (fun name hname => absurd hname List.not_mem_nil)
        fun _ e he => absurd he List.not_mem_nil⟩
      show h = { h with trace := h.trace ++ [] }
      rw [List.append_nil]
  | cons name names ih =>
      cases hanswer : w.docker (removeArgs name) with
      | error o =>
          rw [removeAll, Program.bind_error (run_error hanswer h)]
          refine ⟨[.ran (removeArgs name) (.error o)], rfl, ?_, .raised
            (List.mem_singleton.mpr rfl)⟩
          intro e he
          rw [List.mem_singleton.mp he]
          exact Or.inl rfl
      | ok ended =>
          obtain ⟨trace, hhost, hremoval, hends⟩ :=
            ih (h.log (.ran (removeArgs name) (.ok (Process.run 500000 ended))))
          rw [removeAll, Program.bind_ok (run_ok hanswer h)]
          have hlog : ∀ e ∈ Event.ran (removeArgs name) (.ok (Process.run 500000 ended)) :: trace,
              e.IsRemoval := by
            intro e he
            rcases List.mem_cons.mp he with rfl | he
            · exact Or.inl rfl
            · exact hremoval e he
          rcases hrest : removeAll w names _ with ⟨_ | failures, h₂⟩ <;>
            rw [hrest] at hhost hends <;> dsimp only at hhost hends <;>
            refine ⟨.ran (removeArgs name) (.ok (Process.run 500000 ended)) :: trace, ?_, hlog, ?_⟩
          · rw [Program.bind_error hrest, hhost, Host.log, List.append_assoc]
            rfl
          · rw [Program.bind_error hrest]
            cases hends with
            | raised hraised => exact .raised (List.mem_cons_of_mem _ hraised)
          · rw [Program.bind_ok hrest, hhost, Host.log, List.append_assoc]
            split
            · rfl
            · rfl
          · rw [Program.bind_ok hrest]
            cases hends with
            | answered hanswered hasked hconfirms =>
                have hall : Asked (name :: names)
                    (.ran (removeArgs name) (.ok (Process.run 500000 ended)) :: trace) := by
                  intro name' hname
                  rcases List.mem_cons.mp hname with rfl | hname
                  · exact ⟨_, List.mem_cons_self ..⟩
                  · obtain ⟨o, ho⟩ := hasked name' hname
                    exact ⟨o, List.mem_cons_of_mem _ ho⟩
                split
                · rename_i hremoved
                  refine .answered hanswered.cons hall fun hnil e he => ?_
                  rcases List.mem_cons.mp he with rfl | he
                  · exact confirms_removed hremoved
                  · exact hconfirms hnil e he
                · exact .answered hanswered.cons hall fun hnil => absurd hnil (List.cons_ne_nil _ _)

/-- How `destroy` ends, with the commands it ran. -/
inductive Destroys (names : List String) : Except Exn Unit → List Event → Prop
  | confirmed {trace : List Event} (h : Answered trace) (hasked : Asked names trace)
      (hconfirms : ∀ e ∈ trace, e.Confirms) : Destroys names (.ok ()) trace
  | unconfirmed {e : Exn} {trace : List Event} (h : Answered trace) (he : e.IsCleanup) :
      Destroys names (.error e) trace
  | raised {o : OtherError} {trace : List Event} {argv : List String}
      (h : Event.ran argv (.error o) ∈ trace) : Destroys names (.error (.other o)) trace

theorem removals_image {names : List String} {trace : List Event}
    (hremoval : ∀ e ∈ trace, e.IsRemoval) (hanswered : Answered trace)
    (hasked : Asked names trace) (hconfirms : ∀ e ∈ trace, e.Confirms) (image : String) :
    (∀ answer, ∀ e ∈ trace ++ [.ran ["image", "rm", image] answer], e.IsRemoval) ∧
      ∀ o, Destroys names (.ok ()) (trace ++ [.ran ["image", "rm", image] (.ok o)]) := by
  refine ⟨fun answer e he => ?_, fun o => .confirmed (fun argv o' hmem => ?_)
    (fun name hname => ?_) fun e he => ?_⟩
  · rcases List.mem_append.mp he with he | he
    · exact hremoval e he
    · rw [List.mem_singleton.mp he]
      exact Or.inr ⟨image, rfl⟩
  · rcases List.mem_append.mp hmem with hmem | hmem
    · exact hanswered argv o' hmem
    · cases List.mem_singleton.mp hmem
  · obtain ⟨o, ho⟩ := hasked name hname
    exact ⟨o, List.mem_append_left _ ho⟩
  · rcases List.mem_append.mp he with he | he
    · exact hconfirms e he
    · rw [List.mem_singleton.mp he]
      exact confirms_image_rm image _

theorem destroy_spec (h : Host) :
    ∃ trace, (destroy w h).2 = { h with trace := h.trace ++ .destroying :: trace } ∧
      (∀ e ∈ trace, e.IsRemoval) ∧ Destroys h.sandbox.containers (destroy w h).1 trace := by
  obtain ⟨trace, hhost, hremoval, hends⟩ := removeAll_spec (w := w)
    (w.iterate h.sandbox.containers) (h.log .destroying)
  rw [destroy, Program.bind_ok (Program.modify_apply _), Program.bind_ok Program.read_apply,
    Host.log_sandbox]
  rw [Host.log_trace] at hhost
  rcases hrest : removeAll w (w.iterate h.sandbox.containers) _ with ⟨_ | failures, h₂⟩ <;>
    rw [hrest] at hhost hends <;> dsimp only at hhost hends
  · rw [Program.bind_error hrest]
    refine ⟨trace, ?_, hremoval, ?_⟩
    · rw [hhost, List.append_assoc]
      rfl
    · cases hends with
      | raised hraised => exact .raised hraised
  · rw [Program.bind_ok hrest]
    cases hends with
    | answered hanswered hasked hconfirms =>
        have hasked : Asked h.sandbox.containers trace := fun name hname =>
          hasked name ((w.iterate_perm _).mem_iff.mpr hname)
        split
        · refine ⟨trace, ?_, hremoval, .unconfirmed hanswered ⟨_, rfl⟩⟩
          rw [Program.raise_apply, hhost, List.append_assoc]
          rfl
        · rename_i hnil
          have hconfirms := hconfirms (not_not.mp hnil)
          cases h.sandbox.image with
          | none =>
              refine ⟨trace, ?_, hremoval, .confirmed hanswered hasked hconfirms⟩
              show h₂ = _
              rw [hhost, List.append_assoc]
              rfl
          | some image =>
              obtain ⟨hlog, hends⟩ := removals_image hremoval hanswered hasked hconfirms image
              dsimp only
              cases hanswer : w.docker ["image", "rm", image] with
              | error o =>
                  rw [Program.bind_error (run_error hanswer h₂)]
                  refine ⟨_, ?_, hlog (.error o), .raised (List.mem_append_right _
                    (List.mem_singleton.mpr rfl))⟩
                  rw [hhost]
                  simp only [Host.log, List.append_assoc, List.cons_append, List.nil_append]
              | ok ended =>
                  rw [Program.bind_ok (run_ok hanswer h₂)]
                  refine ⟨_, ?_, hlog (.ok (Process.run 500000 ended)), hends _⟩
                  rw [Program.pure_apply, hhost]
                  simp only [Host.log, List.append_assoc, List.cons_append, List.nil_append]

end Destroy

/-! ## One evaluation -/

section Evaluation

variable {w : Surroundings} {lib : Libraries} {settings : WorkerSettings} {claim : JobClaim}
  {folder : String}

theorem keepsOr_recover {I : Host → Prop} {E : Exn → Prop} (e : Exn) :
    Program.KeepsOr (fun s : EvalState => I s.host) E (recover w e) := by
  have hlog : ∀ name set, Program.KeepsOr (fun s : EvalState => I s.host) E
      (keepLog w name set) := by
    intro name set
    refine (Program.KeepsOr.of_unchanged fun _ => rfl).bind fun s => ?_
    split
    · exact Program.KeepsOr.of_unchanged fun _ => rfl
    · exact (Program.KeepsOr.of_unchanged fun _ => rfl).bind fun _ => Undisturbed.setResult _
  cases e with
  | cleanupError text => exact Program.KeepsOr.of_unchanged fun _ => rfl
  | inputError fault => exact Undisturbed.setResult _
  | other o =>
      exact (Undisturbed.setResult _).bind fun _ => (hlog _ _).bind fun _ => hlog _ _

/-- The body of the `try` with its handlers. -/
def handled (w : Surroundings) (lib : Libraries) (settings : WorkerSettings) (claim : JobClaim)
    (folder : String) : EvalProgram Unit :=
  Program.handle (attempt w lib settings claim folder) (recover w)

theorem handled_untouched {s : EvalState} (h : Untouched s.host) :
    Untouched (handled w lib settings claim folder s).2.host := by
  have hkeeps : Program.KeepsOr (fun s : EvalState => Untouched s.host) (fun _ => False)
      (handled w lib settings claim folder) :=
    (undisturbed_untouched.attempt folder).handle (fun e _ => keepsOr_recover e)
      fun _ he => he.elim
  rcases hkeeps s h with h | ⟨_, _, h⟩
  · exact h
  · exact h.elim

/-- A container that did not stop ends the body with an exception of the cleanup. -/
theorem handled_confirmed {s : EvalState} (h : Confirmed s.host) :
    Confirmed (handled w lib settings claim folder s).2.host ∨
      ∃ e, (handled w lib settings claim folder s).1 = .error e ∧ e.IsCleanup := by
  refine Program.KeepsOr.handle (I := fun s : EvalState => Confirmed s.host)
    (undisturbed_confirmed.attempt folder) (fun e _ => keepsOr_recover e) ?_ s h
  rintro _ ⟨text, rfl⟩ t
  exact ⟨_, rfl, text, rfl⟩

theorem evaluate_eq (hreach : w.workspace = .ok ()) (s : EvalState) :
    evaluate w lib settings claim folder s =
      match handled w lib settings claim folder s with
      | (r, t) =>
          match finish w lib t with
          | (.error e, u) => (.error e, u)
          | (.ok (), u) => (r.map fun _ => u.result, u) := by
  rw [evaluate, hreach, Program.bind_ok (a := ()) (t := s) (by rfl)]
  show Program.bind (Program.ensure (handled w lib settings claim folder) (finish w lib)) _ s = _
  unfold Program.bind Program.ensure
  rcases handled w lib settings claim folder s with ⟨r, t⟩
  dsimp only
  rcases finish w lib t with ⟨_ | _, u⟩
  · rfl
  · cases r with
    | error e => rfl
    | ok a => rfl

/-- The pending file can be written, and its mode set. -/
def Writable (w : Surroundings) : Prop :=
  w.file (.write pendingFile) = .ok () ∧ w.file (.chmod pendingFile) = .ok ()

theorem finish_eq (s : EvalState) :
    finish w lib s =
      (onHost (writeText w pendingFile ((withMetrics w.elapsed s.result).pendingText lib)) >>=
        fun _ => external (w.file (.chmod pendingFile)) >>= fun _ => onHost (destroy w))
        { s with result := withMetrics w.elapsed s.result } :=
  rfl

/-- Where the pending file is written, `finish` ends as `destroy` does. -/
theorem finish_destroy (lib : Libraries) (h : Writable w) (s : EvalState) :
    ∃ t : Host, t.trace = s.host.trace ∧ (finish w lib s).1 = (destroy w t).1 ∧
      (finish w lib s).2.host = (destroy w t).2 := by
  rw [finish_eq, writeText, h.1, h.2]
  exact ⟨(setFile pendingFile ((withMetrics w.elapsed s.result).pendingText lib) s.host).2,
    rfl, rfl, rfl⟩

/-- Where it is not, `destroy` is not reached. -/
theorem finish_raises (lib : Libraries) (h : ¬Writable w) (s : EvalState) :
    ∃ o, (finish w lib s).1 = .error (.other o) ∧
      (finish w lib s).2.host.trace = s.host.trace := by
  rw [finish_eq, writeText]
  cases hwrite : w.file (.write pendingFile) with
  | error o =>
      cases w.leaves pendingFile with
      | none => exact ⟨o, rfl, rfl⟩
      | some n => exact ⟨o, rfl, rfl⟩
  | ok _ =>
      cases hchmod : w.file (.chmod pendingFile) with
      | error o => exact ⟨o, rfl, rfl⟩
      | ok _ => exact absurd ⟨hwrite, hchmod⟩ h

/-- What is asked of an evaluation: the sandbox is destroyed, and a container whose end is
not confirmed ends the evaluation with an exception of the cleanup. -/
structure CleansUp (x : Except Exn ResultInput) (trace : List Event) : Prop where
  destroyed : Event.destroying ∈ trace
  failsClosed : Unconfirmed trace → ∃ e, x = .error e ∧ e.IsCleanup

/-- The condition on the surroundings: the pending file can be written, and the commands of
`destroy` do not raise when it matters. -/
structure Steady (w : Surroundings) (trace : List Event) : Prop where
  writable : Writable w
  answered : Unconfirmed trace → ∀ argv o, IsRemoval argv → Event.ran argv (.error o) ∉ trace

/-- **One evaluation cleans up** exactly when its surroundings are steady. -/
theorem cleans_up_iff (hreach : w.workspace = .ok ()) :
    CleansUp (evaluate w lib settings claim folder (start claim)).1
      (evaluate w lib settings claim folder (start claim)).2.host.trace ↔
    Steady w (evaluate w lib settings claim folder (start claim)).2.host.trace := by
  have huntouched : Untouched (start claim).host :=
    ⟨rfl, fun e he => absurd he List.not_mem_nil⟩
  have hconfirmed : Confirmed (start claim).host := fun e he => absurd he List.not_mem_nil
  have hu : Untouched (handled w lib settings claim folder (start claim)).2.host :=
    handled_untouched huntouched
  have hc : Confirmed (handled w lib settings claim folder (start claim)).2.host ∨
      ∃ e, (handled w lib settings claim folder (start claim)).1 = .error e ∧ e.IsCleanup :=
    handled_confirmed hconfirmed
  rw [evaluate_eq hreach]
  rcases hbody : handled w lib settings claim folder (start claim) with ⟨r, t⟩
  rw [hbody] at hu hc
  dsimp only at hu hc ⊢
  by_cases hwritable : Writable w
  · obtain ⟨h, htrace, hfinish, hhost⟩ := finish_destroy lib hwritable t
    obtain ⟨removals, hdestroyed, hremoval, hends⟩ := destroy_spec (w := w) h
    rcases hf : finish w lib t with ⟨x, u⟩
    rw [hf] at hfinish hhost
    dsimp only at hfinish hhost
    rw [← hfinish] at hends
    rw [hdestroyed] at hhost
    have hfinal : u.host.trace = t.host.trace ++ .destroying :: removals := by
      rw [hhost, ← htrace]
    have hmem : Event.destroying ∈ u.host.trace := by
      rw [hfinal]
      exact List.mem_append_right _ (List.mem_cons_self ..)
    -- A removal command in the trace is one of `destroy`.
    have hraised : ∀ argv o, IsRemoval argv → Event.ran argv (.error o) ∈ u.host.trace →
        Event.ran argv (.error o) ∈ removals := by
      intro argv o hargv he
      rw [hfinal] at he
      rcases List.mem_append.mp he with he | he
      · exact absurd hargv (hu.trace _ he)
      · rcases List.mem_cons.mp he with heq | he
        · cases heq
        · exact he
    have hunconfirmed : Unconfirmed u.host.trace → ¬Confirmed t.host ∨ Unconfirmed removals := by
      rintro ⟨e, he, hnot⟩
      rw [hfinal] at he
      rcases List.mem_append.mp he with he | he
      · exact Or.inl fun h => hnot (h e he)
      · rcases List.mem_cons.mp he with rfl | he
        · exact absurd trivial hnot
        · exact Or.inr ⟨e, he, hnot⟩
    cases hends with
    | confirmed hanswered _ hconfirms =>
        refine ⟨fun _ => ⟨hwritable, fun _ argv o hargv he =>
          hanswered argv o (hraised argv o hargv he)⟩, fun _ => ⟨hmem, fun h => ?_⟩⟩
        rcases hunconfirmed h with h | ⟨e, he, hnot⟩
        · obtain ⟨e, rfl, he⟩ := hc.resolve_left h
          exact ⟨e, rfl, he⟩
        · exact absurd (hconfirms e he) hnot
    | unconfirmed hanswered he =>
        exact ⟨fun _ => ⟨hwritable, fun _ argv o hargv he =>
          hanswered argv o (hraised argv o hargv he)⟩, fun _ => ⟨hmem, fun _ => ⟨_, rfl, he⟩⟩⟩
    | raised hanswer =>
        rename_i o argv
        have hargv : IsRemoval argv := hremoval _ hanswer
        have hlost : Event.ran argv (.error o) ∈ u.host.trace := by
          rw [hfinal]
          exact List.mem_append_right _ (List.mem_cons_of_mem _ hanswer)
        refine ⟨fun h => ⟨hwritable, fun hopen => ?_⟩, fun h => ⟨hmem, fun hopen => ?_⟩⟩
        · obtain ⟨e, he, text, rfl⟩ := h.failsClosed hopen
          cases he
        · exact absurd hlost (h.answered hopen argv o hargv)
  · obtain ⟨o, hfinish, htrace⟩ := finish_raises lib hwritable t
    rcases hf : finish w lib t with ⟨x, u⟩
    rw [hf] at hfinish htrace
    dsimp only at hfinish htrace
    subst hfinish
    dsimp only
    rw [htrace]
    exact ⟨fun h => absurd h.destroyed fun hmem => hu.trace _ hmem trivial,
      fun h => absurd h.writable hwritable⟩

theorem takeChars_length (s : String) : takeChars s.length s = s := by
  rw [takeChars, ← String.length_toList, List.take_length, String.ofList_toList]

theorem finish_pending {s : EvalState} (hs : s.host.files pendingFile = none) {text : String}
    (h : (finish w lib s).2.host.files pendingFile = some text) :
    ∃ (r : ResultInput) (n : ℕ), text = takeChars n (r.pendingText lib) := by
  rw [finish_eq, writeText] at h
  cases hwrite : w.file (.write pendingFile) with
  | error o =>
      rw [hwrite] at h
      cases hleaves : w.leaves pendingFile with
      | none =>
          rw [hleaves] at h
          rw [show s.host.files pendingFile = some text from h] at hs
          cases hs
      | some n =>
          rw [hleaves] at h
          exact ⟨_, n, (Option.some.inj h).symm⟩
  | ok _ =>
      rw [hwrite] at h
      cases hchmod : w.file (.chmod pendingFile) with
      | error o =>
          rw [hchmod] at h
          exact ⟨_, _, (Option.some.inj h).symm.trans (takeChars_length _).symm⟩
      | ok _ =>
          rw [hchmod] at h
          obtain ⟨trace, hdestroy, -⟩ := destroy_spec (w := w) (setFile pendingFile
            ((withMetrics w.elapsed s.result).pendingText lib) s.host).2
          have hfiles : (destroy w (setFile pendingFile
              ((withMetrics w.elapsed s.result).pendingText lib) s.host).2).2.files pendingFile =
                some text := h
          rw [hdestroy] at hfiles
          exact ⟨_, _, (Option.some.inj hfiles).symm.trans (takeChars_length _).symm⟩

/-- What is found in the pending file is the text of a dictionary, perhaps cut short. -/
theorem evaluate_pending {text : String}
    (h : (evaluate w lib settings claim folder (start claim)).2.host.files pendingFile
      = some text) :
    ∃ (r : ResultInput) (n : ℕ), text = takeChars n (r.pendingText lib) := by
  cases hreach : w.workspace with
  | error e =>
      have hnone : (evaluate w lib settings claim folder (start claim)).2 = start claim := by
        rw [evaluate, hreach]
        cases e with
        | inl fault => rfl
        | inr o => rfl
      rw [hnone] at h
      cases h
  | ok _ =>
      have hu : Untouched (handled w lib settings claim folder (start claim)).2.host :=
        handled_untouched ⟨rfl, fun e he => absurd he List.not_mem_nil⟩
      rw [evaluate_eq hreach] at h
      rcases hbody : handled w lib settings claim folder (start claim) with ⟨r, t⟩
      rw [hbody] at hu h
      refine finish_pending (w := w) hu.pending (Eq.trans ?_ h)
      dsimp only
      rcases finish w lib t with ⟨_ | _, u⟩
      · rfl
      · rfl

end Evaluation

end AgentBenchX
