import AgentBenchX.FailClosed

/-!
# Starting after a crash

A process is killed at any moment, and the next one starts on the disk it
left: `identity`, `recover_sandboxes` and `replay_pending` come before the
first claim. `identity.json` and `result.pending.json` are read back as
JSON but not written in one step. One that was cut short raises, in the
next process and in all later ones. On every disk that crashes can leave,
the worker gets to its claims exactly if these files are whole
(`recovers_iff`); a receipt that was cut short does no harm.
-/

namespace AgentBenchX

open DockerSandbox Worker

/-! ## What crashes leave -/

/-- The disks of a worker whose processes may all have been killed. -/
inductive Crashed (lib : WorkerLibraries) (settings : ProcessSettings) : Disk → Prop
  | empty : Crashed lib settings {}
  | killed {d d' : Disk} {env : ProcessEnv} {once : Bool} {passes : List Pass} :
      Crashed lib settings d →
      Killed d (runWorker lib settings env once passes { disk := d }).2.ops d' →
      Crashed lib settings d'

namespace Disk

variable {lib : WorkerLibraries} {settings : ProcessSettings} {d d' : Disk} {op : DiskOp}
  {ops : List DiskOp}

theorem update_job (id i : Uid) (f : JobFiles → JobFiles) (d : Disk) :
    (d.update id f).job i = if i = id then f (d.job i) else d.job i := rfl

/-- Where a pending file comes from. -/
theorem pending_apply {id : Uid} {text : String}
    (h : ((d.apply op).job id).pending = some text) :
    (d.job id).pending = some text ∨ op = .write (.pending id) text := by
  cases op with
  | create i =>
      have hjob : ((d.update i fun j => { j with workspace := true }).job id).pending
          = some text := h
      rw [update_job] at hjob
      split at hjob <;> exact .inl hjob
  | write file text' =>
      cases file with
      | identity => exact .inl h
      | pending i =>
          simp only [apply, update_job] at h
          split at h
          · rename_i hid
            obtain rfl := Option.some.inj h
            exact .inr (by rw [hid])
          · exact .inl h
      | receipt i =>
          simp only [apply, update_job] at h
          split at h <;> exact .inl h
  | accept i | reject i =>
      simp only [apply, update_job] at h
      split at h
      · cases h
      · exact .inl h
  | remove i =>
      simp only [apply, update_job] at h
      split at h <;> exact .inl h

/-- Where an identity comes from. -/
theorem identity_apply {file : IdentityFile} (h : (d.apply op).identity = some file) :
    d.identity = some file ∨ ∃ text, op = .write .identity text ∧ file = ⟨text, true⟩ := by
  cases op with
  | write target text =>
      cases target with
      | identity => exact .inr ⟨text, rfl, (Option.some.inj h).symm⟩
      | pending i | receipt i => exact .inl h
  | create i | accept i | reject i | remove i => exact .inl h

/-- What is read back was written by a worker, to the end or not. -/
structure Written (lib : WorkerLibraries) (settings : ProcessSettings) (d : Disk) : Prop where
  identity : ∀ file, d.identity = some file →
    file.isPrivate = true ∧ (DiskOp.write .identity file.text).Sound lib settings
  pending : ∀ id text, (d.job id).pending = some text →
    (DiskOp.write (.pending id) text).Sound lib settings

theorem Written.apply (h : d.Written lib settings) (hop : op.Sound lib settings) :
    (d.apply op).Written lib settings where
  identity file hfile := by
    rcases identity_apply hfile with hfile | ⟨text, rfl, rfl⟩
    · exact h.identity file hfile
    · exact ⟨rfl, hop⟩
  pending id text htext := by
    rcases pending_apply htext with htext | rfl
    · exact h.pending id text htext
    · exact hop

theorem Written.applyAll (h : d.Written lib settings) (hops : ∀ op ∈ ops, op.Sound lib settings) :
    (ops.foldl Disk.apply d).Written lib settings := by
  induction ops generalizing d with
  | nil => exact h
  | cons op ops ih =>
      exact ih (h.apply (hops op (List.mem_cons_self ..)))
        fun op' hop' => hops op' (List.mem_cons_of_mem _ hop')

theorem Written.killed (h : d.Written lib settings) (hops : ∀ op ∈ ops, op.Sound lib settings)
    (hkilled : Killed d ops d') : d'.Written lib settings := by
  cases hkilled with
  | between done rest hsplit =>
      rw [hsplit] at hops
      exact h.applyAll fun op hop => hops op (List.mem_append_left _ hop)
  | within done rest op torn hsplit htorn =>
      rw [hsplit] at hops
      have hdone := h.applyAll fun op hop => hops op (List.mem_append_left _ hop)
      exact hdone.apply (htorn.sound (hops op (List.mem_append_right _ (List.mem_cons_self ..))))

end Disk

section Crashed

variable {lib : WorkerLibraries} {settings : ProcessSettings} {d : Disk}

theorem Worker.sound_ops (env : ProcessEnv) (once : Bool) (passes : List Pass) (d : Disk) :
    ∀ op ∈ (runWorker lib settings env once passes { disk := d }).2.ops, op.Sound lib settings := by
  have hI : Invariant lib settings fun s => ∀ op ∈ s.ops, op.Sound lib settings := by
    refine ⟨⟨fun _ _ n h => h.take n, fun s op hop hs op' hop' => ?_, fun _ hs => hs⟩,
      fun _ _ hs => hs⟩
    rcases List.mem_append.mp hop' with hop' | hop'
    · exact hs op' hop'
    · rw [List.mem_singleton.mp hop']
      exact hop
  exact (safe_runWorker hI once passes { disk := d } nofun).1

theorem Crashed.written (h : Crashed lib settings d) : d.Written lib settings := by
  induction h with
  | empty => exact ⟨nofun, nofun⟩
  | killed _ hkilled ih => exact ih.killed (sound_ops _ _ _ _) hkilled

end Crashed

/-! ## Texts that read back -/

/-- Text mode changes carriage returns only. -/
theorem newlines_eq {text : List Char} (h : '\r' ∉ text) : newlines text = text := by
  induction text with
  | nil => rfl
  | cons c rest ih =>
      obtain ⟨hc, hrest⟩ : '\r' ≠ c ∧ '\r' ∉ rest := by simpa using h
      have hstep : newlines (c :: rest) = (if c = '\r' then '\n' else c) :: newlines rest := by
        rw [newlines.eq_def]
        split
        · rename_i heq
          cases heq
        · rename_i heq
          exact absurd (List.cons.inj heq).1 (Ne.symm hc)
        · rename_i heq
          obtain ⟨rfl, rfl⟩ := List.cons.inj heq
          rfl
      rw [hstep, if_neg (Ne.symm hc), ih hrest]

section Texts

variable {lib : WorkerLibraries} {settings : ProcessSettings} {text : String}

theorem loads_written {indent : Option ℕ} {members : List (String × Json)}
    (hmembers : Json.WellFormedMembers members) :
    Json.loads (newlines (String.ofList (Json.dumps indent (.object members))).toList)
      = some (.object members) := by
  have hwf : (Json.object members).WellFormed := by rwa [Json.WellFormed]
  rw [String.toList_ofList, newlines_eq (Json.return_dumps indent hwf), Json.loads_dumps indent hwf]

/-- Of the prefixes of a written object only the whole reads. -/
theorem loads_prefix {indent : Option ℕ} {members : List (String × Json)} {n : ℕ}
    (hmembers : Json.WellFormedMembers members)
    (h : text = takeChars n (String.ofList (Json.dumps indent (.object members)))) :
    Json.loads (newlines text.toList) = none
      ∨ text = String.ofList (Json.dumps indent (.object members)) := by
  have hwf : (Json.object members).WellFormed := by rwa [Json.WellFormed]
  have htext : text.toList = (Json.dumps indent (.object members)).take n := by
    rw [h, takeChars, String.toList_ofList, String.toList_ofList]
  have hreturn : '\r' ∉ text.toList := fun hmem =>
    Json.return_dumps indent hwf (List.mem_of_mem_take (htext ▸ hmem))
  by_cases hall : text.toList = Json.dumps indent (.object members)
  · exact .inr (by rw [← hall, String.ofList_toList])
  · rw [newlines_eq hreturn]
    exact .inl (Json.loads_cut indent hmembers (htext ▸ List.take_prefix ..) hall)

theorem wellFormed_optionJson {α : Type} {f : α → Json} (h : ∀ a, (f a).WellFormed) :
    ∀ o, (optionJson f o).WellFormed
  | none => trivial
  | some a => h a

theorem wellFormed_float (lib : Libraries) (x : PyFloat) : (x.toJson lib).WellFormed := by
  rw [PyFloat.toJson, Json.WellFormed]
  exact lib.floatText_numeral x

theorem wellFormed_process (lib : Libraries) (p : ProcessEvidence) :
    (p.toJson lib).WellFormed := by
  simp [ProcessEvidence.toJson, Json.WellFormed, Json.WellFormedMembers, Json.wellFormed_ofInt,
    wellFormed_float]

theorem wellFormed_tests (lib : Libraries) (tests : List TestInput) :
    Json.WellFormedItems (tests.map (TestInput.toJson lib)) := by
  induction tests with
  | nil => trivial
  | cons t tests ih =>
      have ht : (t.toJson lib).WellFormed := by
        simp [TestInput.toJson, Json.WellFormed, Json.WellFormedMembers, wellFormed_float]
      exact ⟨ht, ih⟩

theorem wellFormed_string (s : String) : (Json.string s).WellFormed := by
  rw [Json.WellFormed]
  trivial

theorem wellFormed_execution (lib : Libraries) (e : ExecutionEvidence) :
    (e.toJson lib).WellFormed := by
  have himage := wellFormed_optionJson wellFormed_string e.imageId
  have herror := wellFormed_optionJson wellFormed_string e.error
  simp [ExecutionEvidence.toJson, Json.WellFormed, Json.WellFormedMembers, wellFormed_process,
    wellFormed_optionJson, himage, herror]

theorem wellFormed_result (lib : Libraries) (r : ResultInput) :
    Json.WellFormedMembers (r.members lib) := by
  have hmetrics : (r.metrics.toJson lib).WellFormed := by
    simp [Metrics.toJson, Json.WellFormed, Json.WellFormedMembers, Json.wellFormed_ofInt,
      wellFormed_float, wellFormed_optionJson]
  have hfailure : (optionJson (fun f : FailureType => Json.string f.text)
    r.failureType).WellFormed :=
    wellFormed_optionJson (fun f : FailureType => wellFormed_string f.text) _
  have htests : (Json.array (r.tests.map (TestInput.toJson lib))).WellFormed := by
    rw [Json.WellFormed]
    exact wellFormed_tests lib r.tests
  have hexecution : (optionJson (ExecutionEvidence.toJson lib) r.execution).WellFormed :=
    wellFormed_optionJson (wellFormed_execution lib) _
  simp [ResultInput.members, Json.WellFormedMembers, wellFormed_string, hmetrics, hfailure, htests,
    hexecution]

/-- A pending file reads back exactly if it is whole. -/
theorem pending_reads {id : Uid} (h : (DiskOp.write (.pending id) text).Sound lib settings) :
    (∃ json, Json.loads (newlines text.toList) = some json)
      ↔ ∃ r : ResultInput, text = r.pendingText lib.toLibraries := by
  obtain ⟨r, n, hcut⟩ := h
  refine ⟨fun ⟨json, hjson⟩ => ?_, ?_⟩
  · rcases loads_prefix (wellFormed_result lib.toLibraries r) hcut with hnone | hwhole
    · rw [hnone] at hjson
      cases hjson
    · exact ⟨r, hwhole⟩
  · rintro ⟨r', rfl⟩
    exact ⟨_, loads_written (wellFormed_result lib.toLibraries r')⟩

/-- What `identity` writes. -/
def identityText (lib : WorkerLibraries) (settings : ProcessSettings) (id : Uid) (token : Token) :
    String :=
  String.ofList (Json.dumps none (identityJson lib settings id token))

/-- An identity that was cut short does not read. -/
theorem identity_reads (h : (DiskOp.write .identity text).Sound lib settings) :
    Json.loads (newlines text.toList) = none
      ∨ ∃ id token, text = identityText lib settings id token
        ∧ Json.loads (newlines text.toList) = some (identityJson lib settings id token) := by
  obtain ⟨id, token, n, hcut⟩ := h
  have hmembers : Json.WellFormedMembers [("id", .string (lib.idText id)),
      ("token", .string token.text), ("server_url", .string settings.serverUrl)] := by
    simp [Json.WellFormedMembers, wellFormed_string]
  rcases loads_prefix hmembers hcut with hnone | hwhole
  · exact .inl hnone
  · refine .inr ⟨id, token, hwhole, ?_⟩
    rw [hwhole]
    exact loads_written hmembers

end Texts

/-! ## The start of a process -/

/-- The next process finds docker, its disk and the server in order, and the
server answers every result that is sent again. -/
structure Healthy (lib : WorkerLibraries) (settings : ProcessSettings) (env : ProcessEnv) :
    Prop where
  workerId : ∀ id, settings.workerId = some id → ∃ name, lib.uuid id = .ok name
  preflight : (preflight env.preflight {}).1 = .ok ()
  root : env.root = .ok ()
  register : ∃ credentials, env.register = .ok credentials
  recovery : ∀ id, (env.recovery id).Removes
  answers : ∀ id, (∃ receipt, env.replay id = .ok receipt)
    ∨ ∃ e, env.replay id = .error e ∧ isRejection e = true
  read : ∀ file, env.read file = .ok ()
  file : ∀ op, env.file op = .ok ()

/-- No write of a file that is read back was cut short. -/
structure Disk.Whole (lib : WorkerLibraries) (settings : ProcessSettings) (d : Disk) : Prop where
  identity : settings.workerId = none → ∀ file, d.identity = some file →
    ∃ id token, file.text = identityText lib settings id token
  pending : ∀ id ∈ d.pendings, ∀ text, (d.job id).pending = some text →
    ∃ r : ResultInput, text = r.pendingText lib.toLibraries

/-- What an answer makes of the files of a job. -/
def JobFiles.settle (answer : Except OtherError Json) (j : JobFiles) : JobFiles :=
  match j.pending, answer with
  | none, _ => j
  | some text, .ok receipt =>
      { j with pending := none, accepted := some text, receipt := some (receiptText receipt) }
  | some text, .error _ => { j with pending := none, rejected := some text }

theorem JobFiles.settle_none {answer : Except OtherError Json} {j : JobFiles}
    (h : j.pending = none) : j.settle answer = j := by
  simp only [settle, h]

theorem JobFiles.settle_pending (answer : Except OtherError Json) (j : JobFiles) :
    (j.settle answer).pending = none := by
  unfold settle
  split
  · assumption
  · rfl
  · rfl

theorem JobFiles.settle_settle (answer : Except OtherError Json) (j : JobFiles) :
    (j.settle answer).settle answer = j.settle answer :=
  settle_none (settle_pending answer j)

/-- The file is renamed. -/
theorem JobFiles.settle_some {answer : Except OtherError Json} {j : JobFiles} {text : String}
    (h : j.pending = some text) :
    (j.settle answer).accepted = some text ∨ (j.settle answer).rejected = some text := by
  cases answer with
  | ok receipt =>
      simp only [settle, h]
      exact .inl trivial
  | error e =>
      simp only [settle, h]
      exact .inr trivial

/-- The file of a job reads back. -/
def JobFiles.Readable (j : JobFiles) : Prop :=
  ∀ text, j.pending = some text → ∃ json, Json.loads (newlines text.toList) = some json

section Startup

variable {lib : WorkerLibraries} {settings : ProcessSettings} {env : ProcessEnv}
  {s t : WorkerState} {d : Disk}

namespace Worker

theorem readJson_ok {file : DiskFile} {text : String} {json : Json}
    (hread : env.read file = .ok ()) (h : Json.loads (newlines text.toList) = some json)
    (s : WorkerState) : readJson env file text s = (.ok json, s) := by
  rw [readJson, hread, h]
  rfl

theorem readJson_error (env : ProcessEnv) (file : DiskFile) {text : String}
    (h : Json.loads (newlines text.toList) = none) (s : WorkerState) :
    ∃ e, readJson env file text s = (.error e, s) := by
  rw [readJson, h]
  cases hread : env.read file with
  | ok _ => exact ⟨_, rfl⟩
  | error e => exact ⟨_, rfl⟩

theorem perform_ok {op : DiskOp} (h : env.file op = .ok ()) (s : WorkerState) :
    perform env op s = (.ok (), { s with disk := s.disk.apply op, ops := s.ops ++ [op] }) := by
  rw [perform, h]
  rfl

/-! ### `replay_pending` -/

theorem replayOne_ok (henv : Healthy lib settings env) {id : Uid}
    (h : (s.disk.job id).Readable) : ∃ t, replayOne env env.replay id s = (.ok (), t)
      ∧ t.disk = s.disk.update id (JobFiles.settle (env.replay id)) := by
  cases hpending : (s.disk.job id).pending with
  | none =>
      refine ⟨s, ?_, ?_⟩
      · rw [replayOne, Program.bind_ok Program.read_apply, hpending]
        rfl
      · have hsame : (s.disk.update id (JobFiles.settle (env.replay id))).job = s.disk.job := by
          funext i
          rw [Disk.update_job]
          split
          · rename_i hi
            rw [hi]
            exact JobFiles.settle_none hpending
          · rfl
        rw [show s.disk.update id (JobFiles.settle (env.replay id))
          = { s.disk with job := (s.disk.update id (JobFiles.settle (env.replay id))).job }
            from rfl,
          hsame]
  | some text =>
      obtain ⟨json, hjson⟩ := h text hpending
      rw [replayOne, Program.bind_ok Program.read_apply, hpending]
      dsimp only
      rw [Program.bind_ok (readJson_ok (henv.read _) hjson s)]
      have hjob : ∀ i, i = id → (s.disk.job i).pending = some text := fun i hi => hi ▸ hpending
      rcases henv.answers id with ⟨receipt, hanswer⟩ | ⟨e, hanswer, hrejection⟩ <;> rw [hanswer]
      · dsimp only
        rw [Program.bind_ok (perform_ok (henv.file _) s), perform_ok (henv.file _)]
        refine ⟨_, rfl, ?_⟩
        simp only [Disk.apply, Disk.update, Disk.mk.injEq, true_and]
        funext i
        by_cases hi : i = id
        · simp [hi, JobFiles.settle, hpending]
        · simp [hi]
      · dsimp only
        rw [if_pos hrejection, perform_ok (henv.file _)]
        refine ⟨_, rfl, ?_⟩
        simp only [Disk.apply, Disk.update, Disk.mk.injEq, true_and]
        funext i
        by_cases hi : i = id
        · simp [hi, JobFiles.settle, hpending]
        · simp [hi]

theorem replayOne_error (env : ProcessEnv) {id : Uid} (answer : Uid → Except OtherError Json)
    (h : ¬(s.disk.job id).Readable) : ∃ e t, replayOne env answer id s = (.error e, t) := by
  simp only [JobFiles.Readable, not_forall, not_exists] at h
  obtain ⟨text, hpending, hnone⟩ := h
  have hloads : Json.loads (newlines text.toList) = none :=
    Option.eq_none_iff_forall_ne_some.mpr hnone
  obtain ⟨e, he⟩ := readJson_error env (.pending id) hloads s
  refine ⟨e, s, ?_⟩
  rw [replayOne, Program.bind_ok Program.read_apply, hpending]
  exact Program.bind_error he

/-- Every job of the list is settled if all of them can be read, and one of
them raises otherwise. -/
theorem replayAll_cases (henv : Healthy lib settings env) (ids : List Uid) (s : WorkerState) :
    ((∀ id ∈ ids, (s.disk.job id).Readable) ∧
      ∃ t, replayAll env env.replay ids s = (.ok (), t) ∧ t.disk.ids = s.disk.ids ∧
        ∀ id, t.disk.job id
          = if id ∈ ids then (s.disk.job id).settle (env.replay id) else s.disk.job id)
    ∨ (¬∀ id ∈ ids, (s.disk.job id).Readable) ∧
      ∃ e t, replayAll env env.replay ids s = (.error e, t) := by
  induction ids generalizing s with
  | nil => exact .inl ⟨nofun, s, rfl, rfl, fun _ => rfl⟩
  | cons id ids ih =>
      rw [replayAll]
      by_cases hread : (s.disk.job id).Readable
      · obtain ⟨t, hone, hdisk⟩ := replayOne_ok henv hread
        have hjob : ∀ i, t.disk.job i
            = if i = id then (s.disk.job i).settle (env.replay id) else s.disk.job i := fun i => by
          rw [hdisk, Disk.update_job]
        have hreadable : ∀ i, (s.disk.job i).Readable → (t.disk.job i).Readable := by
          intro i hi text htext
          rw [hjob] at htext
          split at htext
          · rename_i heq
            unfold JobFiles.settle at htext
            split at htext
            · exact hi text htext
            · cases htext
            · cases htext
          · exact hi text htext
        have hback : ∀ i, i ≠ id → (t.disk.job i).Readable → (s.disk.job i).Readable := by
          intro i hne hi
          rwa [hjob, if_neg hne] at hi
        rw [Program.bind_ok hone]
        rcases ih t with ⟨hall, u, hrest, hids, hjobs⟩ | ⟨hnot, e, u, hrest⟩
        · refine .inl ⟨?_, u, hrest, hids.trans (by rw [hdisk]; rfl), fun i => ?_⟩
          · intro i hi
            rcases List.mem_cons.mp hi with rfl | hi
            · exact hread
            · by_cases hne : i = id
              · exact hne ▸ hread
              · exact hback i hne (hall i hi)
          · rw [hjobs, hjob]
            by_cases heq : i = id
            · subst heq
              simp only [if_true, List.mem_cons, true_or]
              split
              · exact JobFiles.settle_settle ..
              · rfl
            · simp only [heq, if_false, List.mem_cons, false_or]
        · refine .inr ⟨fun hall => hnot fun i hi => ?_, e, u, hrest⟩
          exact hreadable i (hall i (List.mem_cons_of_mem _ hi))
      · obtain ⟨e, t, hone⟩ := replayOne_error env env.replay hread
        exact .inr ⟨fun hall => hread (hall id (List.mem_cons_self ..)), e, t,
          Program.bind_error hone⟩

/-! ### `recover_sandboxes` -/

theorem recoverAll_ok (henv : Healthy lib settings env) (ids : List Uid) (s : WorkerState) :
    ∃ t, recoverAll lib env ids s = (.ok (), t) ∧ t.disk = s.disk := by
  induction ids generalizing s with
  | nil => exact ⟨s, rfl, rfl⟩
  | cons id ids ih =>
      obtain ⟨_, h, hdestroy, -⟩ := returns_destroy (henv.recovery id)
        { sandbox := abandoned (lib.idText id) } trivial
      have hone : ∃ t, recoverOne lib env id s = (.ok (), t) ∧ t.disk = s.disk := by
        rw [recoverOne, hdestroy]
        exact ⟨_, rfl, rfl⟩
      obtain ⟨t, hone, hdisk⟩ := hone
      obtain ⟨u, hrest, hdisk'⟩ := ih t
      exact ⟨u, (Program.bind_ok hone).trans hrest, hdisk'.trans hdisk⟩

/-! ### `identity` -/

/-- The condition on `identity.json`. -/
theorem identity_cases (henv : Healthy lib settings env) (hwritten : s.disk.Written lib settings) :
    ((settings.workerId = none → ∀ file, s.disk.identity = some file →
        ∃ id token, file.text = identityText lib settings id token)
      ∧ ∃ name t, identity lib settings env s = (.ok name, t) ∧ t.disk.ids = s.disk.ids
        ∧ t.disk.job = s.disk.job)
    ∨ (¬(settings.workerId = none → ∀ file, s.disk.identity = some file →
        ∃ id token, file.text = identityText lib settings id token)
      ∧ ∃ e t, identity lib settings env s = (.error e, t)) := by
  rw [identity, Program.bind_ok Program.read_apply]
  cases hconfigured : settings.workerId with
  | some id =>
      obtain ⟨name, hname⟩ := henv.workerId id hconfigured
      refine .inl ⟨nofun, name, s, ?_, rfl, rfl⟩
      dsimp only
      rw [hname]
      rfl
  | none =>
      cases hidentity : s.disk.identity with
      | none =>
          obtain ⟨⟨id, token⟩, hregister⟩ := henv.register
          refine .inl ⟨nofun, lib.idText id, ?_⟩
          dsimp only
          rw [hregister, Program.bind_ok (a := (id, token)) (t := s) (by rfl)]
          dsimp only
          rw [Program.bind_ok (perform_ok (henv.file _) s)]
          exact ⟨_, rfl, rfl, rfl⟩
      | some file =>
          obtain ⟨hprivate, hsound⟩ := hwritten.identity file hidentity
          dsimp only
          rw [hprivate, if_neg (by decide)]
          rcases identity_reads hsound with hnone | ⟨id, token, htext, hloads⟩
          · obtain ⟨e, he⟩ := readJson_error env .identity hnone s
            refine .inr ⟨fun h => ?_, e, s, Program.bind_error he⟩
            obtain ⟨id, token, htext⟩ := h rfl file rfl
            have hmembers : Json.WellFormedMembers [("id", .string (lib.idText id)),
                ("token", .string token.text), ("server_url", .string settings.serverUrl)] := by
              simp [Json.WellFormedMembers, wellFormed_string]
            rw [htext, identityText, identityJson, loads_written hmembers] at hnone
            cases hnone
          · refine .inl ⟨fun _ file' hfile' => ?_, lib.idText id, s, ?_, rfl, rfl⟩
            · obtain rfl := Option.some.inj hfile'
              exact ⟨id, token, htext⟩
            · rw [Program.bind_ok (readJson_ok (henv.read _) hloads s),
                Program.bind_ok (a := settings.serverUrl) (t := s) (by rfl),
                if_neg (not_not.mpr rfl),
                Program.bind_ok (a := lib.idText id) (t := s) (by rfl), lib.uuid_idText]
              rfl

end Worker

/-! ## Recovery -/

/-- The process gets to its claim loop in the state `t`, and every pending
file has been renamed. -/
structure Recovers (lib : WorkerLibraries) (settings : ProcessSettings) (env : ProcessEnv)
    (d : Disk) (t : WorkerState) : Prop where
  starts : ∃ name s, Worker.enter lib settings env { disk := d } = (.ok name, s)
    ∧ startup lib env s = (.ok (), t)
  settled : ∀ id ∈ d.ids, ∀ text, (d.job id).pending = some text →
    (t.disk.job id).pending = none
      ∧ ((t.disk.job id).accepted = some text ∨ (t.disk.job id).rejected = some text)
  nothing : t.disk.pendings = []

/-- What is left of the process is its claim loop. -/
theorem Recovers.loop (h : Recovers lib settings env d t) (once : Bool) (passes : List Pass) :
    runWorker lib settings env once passes { disk := d }
      = Program.ensure (Worker.loop lib settings env once passes) (sayOffline env) t := by
  obtain ⟨name, s, henter, hstartup⟩ := h.starts
  rw [runWorker, Program.bind_ok henter, Program.ensure, Program.ensure,
    Program.bind_ok hstartup]

theorem Worker.enter_eq (henv : Healthy lib settings env) (s : WorkerState) :
    Worker.enter lib settings env s = identity lib settings env s := by
  rw [Worker.enter, Program.bind_ok (a := ()) (t := s) (by rw [henv.preflight]; rfl),
    Program.bind_ok (a := ()) (t := s) (by rw [henv.root]; rfl)]

end Startup

section Crashed

variable {lib : WorkerLibraries} {settings : ProcessSettings} {env : ProcessEnv} {d : Disk}

theorem Disk.Written.readable (h : d.Written lib settings) :
    (∀ id ∈ d.pendings, (d.job id).Readable) ↔ ∀ id ∈ d.pendings, ∀ text,
      (d.job id).pending = some text → ∃ r : ResultInput, text = r.pendingText lib.toLibraries where
  mp hread id hid text htext := (pending_reads (h.pending id text htext)).mp
    (hread id hid text htext)
  mpr hwhole id hid text htext :=
    (pending_reads (h.pending id text htext)).mpr (hwhole id hid text htext)

/-- With the identity, what is left to do is on the disk that was found. -/
theorem Worker.startup_eq (henv : Healthy lib settings env) {s : WorkerState}
    (hids : s.disk.ids = d.ids) (hjob : s.disk.job = d.job) :
    ∃ u, startup lib env s = replayAll env env.replay d.pendings u
      ∧ u.disk.ids = d.ids ∧ u.disk.job = d.job := by
  obtain ⟨u, hrecover, hdisk⟩ := Worker.recoverAll_ok henv s.disk.workspaces s
  have hrecover' : recoverSandboxes lib env s = (.ok (), u) := hrecover
  have hpendings : u.disk.pendings = d.pendings := by
    rw [hdisk, Disk.pendings, hids, hjob]
    rfl
  refine ⟨u, ?_, by rw [hdisk, hids], by rw [hdisk, hjob]⟩
  rw [startup, Program.bind_ok hrecover', replayPending, Program.bind_ok Program.read_apply,
    hpendings]

theorem Disk.Whole.recovers (h : d.Whole lib settings) (hd : d.Written lib settings)
    (henv : Healthy lib settings env) : ∃ t, Recovers lib settings env d t := by
  rcases Worker.identity_cases (s := { disk := d }) henv hd with
    ⟨-, name, s, hok, hids, hjob⟩ | ⟨hnot, -⟩
  · obtain ⟨u, hstartup, huids, hujob⟩ := Worker.startup_eq henv hids hjob
    rcases Worker.replayAll_cases henv d.pendings u with
      ⟨-, t, hreplay, htids, htjob⟩ | ⟨hnot, -⟩
    · rw [hujob] at htjob
      refine ⟨t, ⟨name, s, (Worker.enter_eq henv _).trans hok, hstartup.trans hreplay⟩, ?_, ?_⟩
      · intro id hid text htext
        have hmem : id ∈ d.pendings := List.mem_filter.mpr ⟨hid, by rw [htext]; rfl⟩
        rw [htjob, if_pos hmem]
        exact ⟨JobFiles.settle_pending .., JobFiles.settle_some htext⟩
      · refine List.filter_eq_nil_iff.mpr fun id hid => ?_
        rw [htids, huids] at hid
        rw [htjob]
        split
        · rw [JobFiles.settle_pending]
          decide
        · rename_i hmem
          exact fun hsome => hmem (List.mem_filter.mpr ⟨hid, hsome⟩)
    · rw [hujob] at hnot
      exact absurd (hd.readable.mpr h.pending) hnot
  · exact absurd h.identity hnot

theorem Recovers.whole {t : WorkerState} (h : Recovers lib settings env d t)
    (hd : d.Written lib settings) (henv : Healthy lib settings env) : d.Whole lib settings := by
  obtain ⟨name, s, henter, hstarts⟩ := h.starts
  rw [Worker.enter_eq henv] at henter
  rcases Worker.identity_cases (s := { disk := d }) henv hd with
    ⟨hidentity, name', s', hok, hids, hjob⟩ | ⟨-, e, s', herror⟩
  · obtain ⟨-, rfl⟩ := Prod.mk.injEq .. |>.mp (hok.symm.trans henter)
    obtain ⟨u, hstartup, -, hujob⟩ := Worker.startup_eq henv hids hjob
    rcases Worker.replayAll_cases henv d.pendings u with ⟨hall, -⟩ | ⟨-, e, t', hreplay⟩
    · rw [hujob] at hall
      exact ⟨hidentity, hd.readable.mp hall⟩
    · rw [hstartup, hreplay] at hstarts
      cases hstarts
  · rw [herror] at henter
    cases henter

end Crashed

/-- **Recovery.** On every disk that crashes may have left, the next healthy
process gets to its claim loop with every pending file renamed exactly if
the identity and the pending files are whole. -/
theorem recovers_iff {lib : WorkerLibraries} {settings : ProcessSettings} {env : ProcessEnv}
    {d : Disk} (hd : Crashed lib settings d) (henv : Healthy lib settings env) :
    (∃ t, Recovers lib settings env d t) ↔ d.Whole lib settings where
  mp := fun ⟨_, h⟩ => h.whole hd.written henv
  mpr h := h.recovers hd.written henv

/-! ### Two crashes -/

theorem ProcessEnv.plain_healthy : Healthy .plain .plain .plain where
  workerId := nofun
  preflight := by rfl
  root := rfl
  register := ⟨_, rfl⟩
  recovery _ :=
    have hworks : Surroundings.Works _ WorkerLibraries.plain.toLibraries _ :=
      Surroundings.plain_works (answering_succeeds builtId) fun _ => {}
    hworks.removes
  answers _ := .inl ⟨.null, rfl⟩
  read _ := rfl
  file _ := rfl

/-- A machine whose docker does not answer while a job is evaluated. -/
def Surroundings.silent : Surroundings :=
  { plain .built fun _ => {} with
    docker := fun _ => .error (.raised .fileNotFoundError "No such file or directory: 'docker'") }

/-- What a worker does with one job there, on an empty disk. -/
theorem ProcessEnv.plain_ops : ∃ identity pending receipt,
    (runWorker .plain .plain .plain false [.claiming 1 .silent] { disk := {} }).2.ops
      = [.write .identity identity, .create 1, .write (.pending 1) pending,
        .write (.receipt 1) receipt, .accept 1, .remove 1] :=
  ⟨_, _, _, by rfl⟩

/-- The process is killed as it has opened `identity.json`. -/
theorem ProcessEnv.crashed_identity : ∃ d, Crashed .plain .plain d
    ∧ ∃ file, d.identity = some file ∧ file.text = "" := by
  obtain ⟨identity, pending, receipt, hops⟩ := ProcessEnv.plain_ops
  exact ⟨_, .killed .empty (.within [] _ _ _ hops (.write _ _ 0)), _, rfl, rfl⟩

/-- The process is killed as it has opened the pending file. -/
theorem ProcessEnv.crashed_pending : ∃ d, Crashed .plain .plain d ∧ 1 ∈ d.pendings
    ∧ (d.job 1).pending = some "" := by
  obtain ⟨identity, pending, receipt, hops⟩ := ProcessEnv.plain_ops
  refine ⟨_, .killed .empty (.within [_, _] _ _ _ hops (.write _ _ 0)), ?_, rfl⟩
  exact List.mem_filter.mpr ⟨List.mem_singleton_self 1, rfl⟩

theorem identityText_ne (lib : WorkerLibraries) (settings : ProcessSettings) (id : Uid)
    (token : Token) : identityText lib settings id token ≠ "" := by
  intro h
  obtain ⟨rest, hrest⟩ := Json.dumps_object none [("id", .string (lib.idText id)),
    ("token", .string token.text), ("server_url", .string settings.serverUrl)]
  have hempty : Json.dumps none (identityJson lib settings id token) = [] := by
    rw [← String.toList_ofList (l := Json.dumps none (identityJson lib settings id token))]
    exact congrArg String.toList h
  rw [identityJson, hrest] at hempty
  cases hempty

/-- Either of the two files that was opened and not written stops all later
processes, whatever works. -/
theorem recovery_blocked :
    (∃ d, Crashed .plain .plain d ∧ (d.job 1).pending = some ""
      ∧ Healthy .plain .plain .plain ∧ ∀ t, ¬Recovers .plain .plain .plain d t)
    ∧ ∃ d file, Crashed .plain .plain d ∧ d.identity = some file ∧ file.text = ""
      ∧ Healthy .plain .plain .plain ∧ ∀ t, ¬Recovers .plain .plain .plain d t := by
  obtain ⟨d, hd, hmem, hpending⟩ := ProcessEnv.crashed_pending
  obtain ⟨d', hd', file, hfile, htext⟩ := ProcessEnv.crashed_identity
  refine ⟨⟨d, hd, hpending, ProcessEnv.plain_healthy, fun t h => ?_⟩,
    ⟨d', file, hd', hfile, htext, ProcessEnv.plain_healthy, fun t h => ?_⟩⟩
  · have hwhole := h.whole hd.written ProcessEnv.plain_healthy
    obtain ⟨json, hjson⟩ := hd.written.readable.mpr hwhole.pending 1 hmem "" hpending
    have hnone : Json.loads (newlines "".toList) = none := by decide
    rw [hnone] at hjson
    cases hjson
  · have hwhole := h.whole hd'.written ProcessEnv.plain_healthy
    obtain ⟨id, token, hfull⟩ := hwhole.identity rfl file hfile
    exact identityText_ne _ _ id token (hfull.symm.trans htext)

/-- A job that was evaluated and not acknowledged is settled by the next
process. -/
theorem recovers_iff_plain : ∃ d, (d.job 1).pending.isSome = true
    ∧ ((∃ t, Recovers .plain .plain .plain d t) ↔ d.Whole .plain .plain) := by
  obtain ⟨identity, pending, receipt, hops⟩ := ProcessEnv.plain_ops
  have hd : Crashed .plain .plain
      ([.write .identity identity, .create 1, .write (.pending 1) pending].foldl Disk.apply {}) :=
    .killed .empty (.between _ [.write (.receipt 1) receipt, .accept 1, .remove 1] hops)
  exact ⟨_, rfl, recovers_iff hd ProcessEnv.plain_healthy⟩

end AgentBenchX
