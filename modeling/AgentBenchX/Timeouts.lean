import AgentBenchX.Plain

/-!
# Phases that run out of time

A phase that timed out is classified after its artifacts are collected,
so the verdict depends on them: it is `TIMEOUT` exactly when what the
containers left can be read (`timeout_reported`). Otherwise the handler
for any exception ends the evaluation, and the initial classification as
an infrastructure failure stands.
-/

namespace AgentBenchX

open DockerSandbox Evaluator

variable {w : Surroundings} {lib : Libraries} {settings : WorkerSettings} {claim : JobClaim}
  {folder : String}

/-! ## Which phase timed out -/

/-- The agent's phase runs out of time. -/
def AgentTimesOut (w : Surroundings) (id : String) : Prop :=
  ∃ o, w.phase id .agent = .ok o ∧ o.timedOut = true

/-- The agent finishes, and the test phase runs out of time. -/
structure TestTimesOut (w : Surroundings) (id : String) : Prop where
  agent : ∃ o, w.phase id .agent = .ok o ∧ o.timedOut = false ∧ o.cancelled = false ∧
    o.exitCode = 0
  patch : ∃ patch, readPatch w (containerName id .agent) = .ok patch
  test : ∃ o, w.phase id .test = .ok o ∧ o.timedOut = true

theorem AgentTimesOut.not_test {id : String} (h : AgentTimesOut w id) : ¬TestTimesOut w id := by
  rintro ⟨⟨o', ho', hfinished, -⟩, -, -⟩
  obtain ⟨o, ho, htimedOut⟩ := h
  obtain rfl := Except.ok.inj (ho.symm.trans ho')
  rw [hfinished] at htimedOut
  cases htimedOut

/-- The artifacts of the phase that timed out can be read, up to a `ValueError` of the
JUnit parser. -/
structure Legible (w : Surroundings) (lib : Libraries) (id : String) : Prop where
  patch : AgentTimesOut w id → ∃ patch, readPatch w (containerName id .agent) = .ok patch
  tests : TestTimesOut w id → ∃ files, testFiles w (containerName id .test) = .ok files ∧
    ∀ e, parseJunit lib files.1 = .error e → e.isValueError

/-! ## The verdict -/

/-- The verdict on a timeout. -/
def ResultInput.TimedOut (r : ResultInput) : Prop :=
  r.status = .timeout ∧ r.failureType = some .timeout

/-- The verdict before anything is classified. -/
def ResultInput.Infrastructure (r : ResultInput) : Prop :=
  r.status = .failed ∧ r.failureType = some .infrastructureFailure

theorem ResultInput.Infrastructure.not_timedOut {r : ResultInput} (h : r.Infrastructure) :
    ¬r.TimedOut := by
  intro ht
  rw [ResultInput.TimedOut, h.1] at ht
  cases ht.1

theorem classify_timedOut {o : Outcome} (ho : o.timedOut = true) (reward : Bytes)
    (r : ResultInput) :
    (classify o reward r).TimedOut := by
  rw [classify, if_pos (Or.inl ho)]
  exact ⟨rfl, rfl⟩

/-- An exception of the body leaves the initial verdict. -/
theorem infrastructure_of_error (hw : w.Works lib claim) {t : EvalState} {e : Exn}
    (he : ∃ o, e = .other o) (ht : t.result.Infrastructure)
    (h : attempt w lib settings claim folder (start claim) = (.error e, t)) :
    ∃ r u, evaluate w lib settings claim folder (start claim) = (.ok r, u) ∧ r.Infrastructure := by
  obtain ⟨o, rfl⟩ := he
  obtain ⟨r, u, hevaluate, hstatus, hfailure⟩ := evaluate_of_error hw h
  exact ⟨r, u, hevaluate, hstatus.trans ht.1, hfailure.trans ht.2⟩

theorem timedOut_of_ok (hw : w.Works lib claim) {t : EvalState} (ht : t.result.TimedOut)
    (h : attempt w lib settings claim folder (start claim) = (.ok (), t)) :
    ∃ r u, evaluate w lib settings claim folder (start claim) = (.ok r, u) ∧ r.TimedOut := by
  obtain ⟨u, hevaluate, -⟩ := evaluate_of_ok hw h
  exact ⟨_, u, hevaluate, ht⟩

/-- What is returned after the agent's phase timed out. -/
theorem agent_timeout (settings : WorkerSettings) (folder : String) (hw : w.Works lib claim)
    (h : AgentTimesOut w (lib.idText claim.job.id)) :
    ∃ r u, evaluate w lib settings claim folder (start claim) = (.ok r, u) ∧
      ((∃ patch, readPatch w (containerName (lib.idText claim.job.id) .agent) = .ok patch) →
        r.TimedOut) ∧
      ((¬∃ patch, readPatch w (containerName (lib.idText claim.job.id) .agent) = .ok patch) →
        r.Infrastructure) := by
  obtain ⟨o, ho, htimedOut⟩ := h
  obtain ⟨imageId, t, -, -, hresult, hattempt⟩ := attempt_apply settings hw folder ho
  cases hread : readPatch w (containerName (lib.idText claim.job.id) .agent) with
  | error e =>
      rw [hread] at hattempt
      have ht : t.result.Infrastructure := by
        rw [hresult]
        exact ⟨rfl, rfl⟩
      obtain ⟨r, u, hevaluate, hr⟩ :=
        infrastructure_of_error hw (other_readPatch hread) ht hattempt
      exact ⟨r, u, hevaluate, (fun ⟨_, h⟩ => nomatch h), fun _ => hr⟩
  | ok patch =>
      rw [hread] at hattempt
      dsimp only at hattempt
      rw [if_pos (Or.inl htimedOut), setResult_apply] at hattempt
      obtain ⟨r, u, hevaluate, hr⟩ := timedOut_of_ok hw ⟨rfl, rfl⟩ hattempt
      exact ⟨r, u, hevaluate, fun _ => hr, fun h => absurd ⟨patch, rfl⟩ h⟩

/-- What is returned after the test phase timed out. -/
theorem test_timeout (settings : WorkerSettings) (folder : String) (hw : w.Works lib claim)
    (h : TestTimesOut w (lib.idText claim.job.id)) :
    ∃ r u, evaluate w lib settings claim folder (start claim) = (.ok r, u) ∧
      ((∃ files, testFiles w (containerName (lib.idText claim.job.id) .test) = .ok files ∧
        ∀ e, parseJunit lib files.1 = .error e → e.isValueError) → r.TimedOut) ∧
      ((¬∃ files, testFiles w (containerName (lib.idText claim.job.id) .test) = .ok files ∧
        ∀ e, parseJunit lib files.1 = .error e → e.isValueError) → r.Infrastructure) := by
  obtain ⟨⟨o, ho, hfinished, hcancelled, hexit⟩, ⟨patch, hpatch⟩, ⟨o', ho', htimedOut⟩⟩ := h
  obtain ⟨imageId, s, -, hready, hs, hattempt⟩ := attempt_apply settings hw folder ho
  have hfailed : ¬o.Failed := by
    rintro (h | h | h)
    · exact h hexit
    · exact absurd (hfinished.symm.trans h) (by decide)
    · exact absurd (hcancelled.symm.trans h) (by decide)
  obtain ⟨t, ht, htest⟩ := testPhase_apply settings hw (hw.test o patch ho hfailed hpatch)
    (s := { s with result := { s.result with patch } }) hready ho'
  have hinfrastructure : t.result.Infrastructure := by
    rw [ht, hs]
    exact ⟨rfl, rfl⟩
  rw [hpatch] at hattempt
  dsimp only at hattempt
  rw [if_neg (by rw [hfinished, hcancelled]; decide), if_neg (not_not.mpr hexit)] at hattempt
  replace hattempt := hattempt.trans htest
  cases hfiles : testFiles w (containerName (lib.idText claim.job.id) .test) with
  | error e =>
      rw [hfiles] at hattempt
      obtain ⟨r, u, hevaluate, hr⟩ :=
        infrastructure_of_error hw (other_testFiles hfiles) hinfrastructure hattempt
      exact ⟨r, u, hevaluate, (fun ⟨_, h, _⟩ => nomatch h), fun _ => hr⟩
  | ok files =>
      rw [hfiles] at hattempt
      dsimp only at hattempt
      cases hparsed : parsed lib files.1 t.result with
      | error e =>
          rw [hparsed] at hattempt
          obtain ⟨o, rfl, hparse, hvalue⟩ := parsed_error hparsed
          obtain ⟨r, u, hevaluate, hr⟩ :=
            infrastructure_of_error hw ⟨o, rfl⟩ hinfrastructure hattempt
          refine ⟨r, u, hevaluate, fun ⟨files', h, hlegible⟩ => ?_, fun _ => hr⟩
          obtain rfl := Except.ok.inj h
          exact absurd (hlegible o hparse) hvalue
      | ok r' =>
          rw [hparsed] at hattempt
          obtain ⟨r, u, hevaluate, hr⟩ :=
            timedOut_of_ok hw (classify_timedOut htimedOut files.2 r') hattempt
          exact ⟨r, u, hevaluate, fun _ => hr, fun h => absurd ⟨files, rfl, parsed_ok hparsed⟩ h⟩

/-- **Timeouts.** Where everything outside of the containers works, a phase that ran out of
time is reported as a timeout exactly when the artifacts it left are legible; otherwise it is
reported as an infrastructure failure. -/
theorem timeout_reported (hw : w.Works lib claim) (h : AgentTimesOut w (lib.idText claim.job.id) ∨
      TestTimesOut w (lib.idText claim.job.id)) :
    ∃ r u, evaluate w lib settings claim folder (start claim) = (.ok r, u) ∧
      (r.TimedOut ↔ Legible w lib (lib.idText claim.job.id)) ∧
      (r.Infrastructure ↔ ¬Legible w lib (lib.idText claim.job.id)) := by
  have hboth : ∀ {P : Prop} (r : ResultInput), (P → r.TimedOut) → (¬P → r.Infrastructure) →
      (r.TimedOut ↔ P) ∧ (r.Infrastructure ↔ ¬P) := by
    intro P r htimeout hinfrastructure
    refine ⟨⟨fun hr => ?_, htimeout⟩, fun hr hP => hr.not_timedOut (htimeout hP), hinfrastructure⟩
    by_contra hP
    exact (hinfrastructure hP).not_timedOut hr
  rcases h with hagent | htest
  · obtain ⟨r, u, hevaluate, htimeout, hinfrastructure⟩ := agent_timeout settings folder hw hagent
    have hlegible : Legible w lib (lib.idText claim.job.id) ↔
        ∃ patch, readPatch w (containerName (lib.idText claim.job.id) .agent) = .ok patch :=
      ⟨fun h => h.patch hagent, fun h => ⟨fun _ => h, fun ht => absurd ht hagent.not_test⟩⟩
    rw [hlegible]
    exact ⟨r, u, hevaluate, hboth r htimeout hinfrastructure⟩
  · obtain ⟨r, u, hevaluate, htimeout, hinfrastructure⟩ := test_timeout settings folder hw htest
    have hlegible : Legible w lib (lib.idText claim.job.id) ↔
        ∃ files, testFiles w (containerName (lib.idText claim.job.id) .test) = .ok files ∧
          ∀ e, parseJunit lib files.1 = .error e → e.isValueError :=
      ⟨fun h => h.tests htest, fun h => ⟨fun ha => absurd htest ha.not_test, fun _ => h⟩⟩
    rw [hlegible]
    exact ⟨r, u, hevaluate, hboth r htimeout hinfrastructure⟩

/-- A JUnit file that was cut while it was written. -/
def cutJunit : Bytes := ascii "<testsuite><testcase name=\"a\""

/-- What `ElementTree` says about it. -/
def cutLibraries : Libraries :=
  .plain (.error (.raised .parseError "unclosed token: line 1, column 11")) (.ok 0)

/-- A machine whose test container runs out of time. -/
def slowTests : Surroundings :=
  .plain .built fun name =>
    if name = containerName (cutLibraries.idText 1) .test then
      { slow := true, files := [(junitFile, cutJunit)] }
    else { files := [(patchFile, [])] }

theorem slowTests_works : slowTests.Works cutLibraries (.plain cutLibraries) :=
  Surroundings.plain_works (answering_succeeds _) _

theorem slowTests_timesOut : TestTimesOut slowTests (cutLibraries.idText 1) where
  agent := ⟨_, Surroundings.plain_phase _ _, by decide, by decide, by decide⟩
  patch := by
    have hpatch : copiedFile slowTests (containerName (cutLibraries.idText 1) .agent) patchFile
        2000000 = .ok [] :=
      Surroundings.plain_file (by decide) (by decide) (by decide) (by decide)
    exact ⟨"", readPatch_of hpatch rfl⟩
  test := ⟨_, Surroundings.plain_phase _ _, by decide⟩

theorem cutJunit_error : parseJunit cutLibraries cutJunit =
    .error (.raised .parseError "unclosed token: line 1, column 11") := by
  rw [parseJunit, if_neg (by decide)]
  rfl

/-- A half-written report turns the timeout of the tests into an infrastructure failure. -/
theorem timeout_lost :
    ∃ r u, evaluate slowTests cutLibraries {} (.plain cutLibraries) "workspace"
        (start (.plain cutLibraries)) = (.ok r, u) ∧
      TestTimesOut slowTests (cutLibraries.idText 1) ∧ ¬r.TimedOut ∧ r.Infrastructure := by
  obtain ⟨r, u, hevaluate, -, hlost⟩ := test_timeout {} "workspace" slowTests_works
    slowTests_timesOut
  have hr := hlost ?_
  · exact ⟨r, u, hevaluate, slowTests_timesOut, hr.not_timedOut, hr⟩
  · rintro ⟨files, hfiles, hlegible⟩
    have hjunit : testFiles slowTests (containerName (cutLibraries.idText 1) .test)
        = .ok (cutJunit, []) :=
      testFiles_of (Surroundings.plain_file (by decide) (by decide) (by decide) (by decide))
        (Surroundings.plain_missing (by decide))
    obtain rfl := Except.ok.inj (hjunit.symm.trans hfiles)
    exact absurd (hlegible _ cutJunit_error) (by decide)

theorem timeout_reported_slow :
    ∃ r u, evaluate slowTests cutLibraries {} (.plain cutLibraries) "workspace"
        (start (.plain cutLibraries)) = (.ok r, u) ∧
      (r.TimedOut ↔ Legible slowTests cutLibraries (cutLibraries.idText 1)) ∧
      (r.Infrastructure ↔ ¬Legible slowTests cutLibraries (cutLibraries.idText 1)) :=
  timeout_reported slowTests_works (Or.inr slowTests_timesOut)

end AgentBenchX
