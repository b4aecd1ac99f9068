import AgentBenchX.Lib.Locking
import AgentBenchX.Lib.Transition
import AgentBenchX.Lib.Utf8
import AgentBenchX.Evaluator
import AgentBenchX.Services

/-!
# Agent uploads

`AgentManager.upload` stores the uploaded file under a key of its own and
then commits a version record that names the key, the size and the digest
of the file. The row of the agent is locked from the first statement to
the end, so the version number, one more than the largest so far, is still
free when the record is inserted.

Uploads are interleaved statement by statement, and any of them can raise
between two statements, in the storage write (with or without an object
left behind), or in the commit. `Shelf.Intact` is what they keep: numbers
without gap or duplicate, and every record backed by its bytes
(`reachable_intact`). What a worker downloads passes `verify_agent`, and
nothing else does (`versions_intact`).
-/

namespace AgentBenchX

/-! ## Rows and objects -/

structure Agent where
  id : Uid
  name : String
  description : String
deriving DecidableEq

/-- A version with the key its file is stored under. -/
structure AgentRecord extends AgentVersion where
  storagePath : StorageKey
deriving DecidableEq

/-- A stored `agent.py`. -/
structure AgentObject where
  key : StorageKey
  content : Bytes
deriving DecidableEq

instance : Keyed Uid Agent := ⟨Agent.id⟩
instance : Keyed Uid AgentRecord := ⟨fun v => v.id⟩
instance : Keyed StorageKey AgentObject := ⟨AgentObject.key⟩

@[simp] theorem key_agent (a : Agent) : Keyed.key a = a.id := rfl
@[simp] theorem key_agentRecord (v : AgentRecord) : Keyed.key v = v.id := rfl
@[simp] theorem key_agentObject (o : AgentObject) : Keyed.key o = o.key := rfl

/-- The agents, their versions, and the objects in storage. -/
structure Shelf where
  agents : Table Agent
  versions : Table AgentRecord
  objects : Table AgentObject
deriving DecidableEq

/-- The limit of an upload, the digest, and the syntax check of
`ast.parse`. -/
structure UploadSettings where
  uploadLimit : ℕ := 2000000
  sha256 : Bytes → String
  parses : String → Bool

namespace Shelf

/-- The versions of an agent in the order of their creation. -/
def versionsOf (s : Shelf) (agentId : Uid) : List AgentRecord :=
  s.versions.rows.filter fun v => decide (v.agentId = agentId)

/-- Insert a version under `UNIQUE(agent_id, version)`; `none` is an
integrity error. -/
def insertVersion (s : Shelf) (v : AgentRecord) : Option Shelf :=
  if ∃ v' ∈ s.versions.rows, v'.agentId = v.agentId ∧ v'.version = v.version then none
  else (s.versions.insert? v).map fun t => { s with versions := t }

theorem mem_versionsOf {s : Shelf} {agentId : Uid} {v : AgentRecord} :
    v ∈ s.versionsOf agentId ↔ v ∈ s.versions ∧ v.agentId = agentId := by
  simp [versionsOf, Table.mem_def]

theorem insertVersion_eq {s s' : Shelf} {v : AgentRecord} (h : s.insertVersion v = some s') :
    ∃ t, s.versions.insert? v = some t ∧ s' = { s with versions := t } := by
  unfold insertVersion at h
  split at h
  · cases h
  · obtain ⟨t, ht, rfl⟩ := Option.map_eq_some_iff.mp h
    exact ⟨t, ht, rfl⟩

end Shelf

/-! ## The statements of an upload -/

namespace AgentManager

variable (cfg : UploadSettings)

/-- The checks before anything is written. -/
def checkUpload (filename : Option String) (content : Bytes) : Except HttpError Unit :=
  if filename ≠ some "agent.py" ∨ content = [] ∨ content.length > cfg.uploadLimit then
    .error ⟨422, "Upload a nonempty agent.py no larger than 2 MB"⟩
  else
    match Utf8.decode content with
    | some source =>
        if cfg.parses source then .ok ()
        else .error ⟨422, "agent.py must be valid UTF-8 Python source"⟩
    | none => .error ⟨422, "agent.py must be valid UTF-8 Python source"⟩

/-- `(select max(version) ... or 0) + 1`. -/
def nextVersion (s : Shelf) (agentId : Uid) : ℕ :=
  ((s.versionsOf agentId).map (·.version)).max?.getD 0 + 1

/-- The object of a new version. -/
def object (agentId identifier : Uid) (content : Bytes) : AgentObject :=
  ⟨.agentFile agentId identifier, content⟩

/-- The record of a new version. -/
def record (agentId identifier : Uid) (content : Bytes) (version : ℕ) : AgentRecord where
  id := identifier
  agentId := agentId
  filename := "agent.py"
  sha256 := cfg.sha256 content
  size := content.length
  version := version
  storagePath := .agentFile agentId identifier

theorem checkUpload_ok {filename : Option String} {content : Bytes}
    (h : checkUpload cfg filename content = .ok ()) :
    content ≠ [] ∧ content.length ≤ cfg.uploadLimit := by
  unfold checkUpload at h
  split at h
  · cases h
  · rename_i hfalse
    simp only [not_or, not_lt] at hfalse
    exact hfalse.2

end AgentManager

/-- What the storage write of an upload does. -/
inductive UploadWrite where
  | succeeds
  | raises (error : HttpError) (left : Option Bytes)

/-- What one upload takes from its surroundings. -/
structure UploadEnv where
  identifier : Uid
  put : UploadWrite
  commit : Bool

/-- `storage.put` of the file of a new version. -/
def Shelf.put (s : Shelf) (agentId identifier : Uid) (content : Bytes) :
    UploadWrite → Shelf × Except HttpError Unit
  | .raises error none => (s, .error error)
  | .raises error (some left) =>
      match s.objects.insert? (AgentManager.object agentId identifier left) with
      | some t => ({ s with objects := t }, .error error)
      | none => (s, .error error)
  | .succeeds =>
      match s.objects.insert? (AgentManager.object agentId identifier content) with
      | some t => ({ s with objects := t }, .ok ())
      | none => (s, .error ⟨500, "FileExistsError"⟩)

/-- A write that returns has created the object; one that raises may have
created another one under the key. -/
theorem Shelf.put_cases (s : Shelf) (agentId identifier : Uid) (content : Bytes)
    (write : UploadWrite) :
    (∃ t, s.objects.insert? (AgentManager.object agentId identifier content) = some t
        ∧ s.put agentId identifier content write = ({ s with objects := t }, .ok ()))
      ∨ (∃ error, s.put agentId identifier content write = (s, .error error))
      ∨ ∃ left t error, s.objects.insert? (AgentManager.object agentId identifier left) = some t
        ∧ s.put agentId identifier content write = ({ s with objects := t }, .error error) := by
  unfold Shelf.put
  split
  · exact Or.inr (Or.inl ⟨_, rfl⟩)
  · split
    · rename_i hins
      exact Or.inr (Or.inr ⟨_, _, _, hins, rfl⟩)
    · exact Or.inr (Or.inl ⟨_, rfl⟩)
  · split
    · rename_i hins
      exact Or.inl ⟨_, hins, rfl⟩
    · exact Or.inr (Or.inl ⟨_, rfl⟩)

/-- `AgentManager.upload`, with what it leaves in storage. -/
def AgentManager.upload (cfg : UploadSettings) (env : UploadEnv) (s : Shelf) (agentId : Uid)
    (filename : Option String) (content : Bytes) : Shelf × Except HttpError AgentRecord :=
  match s.agents.get? agentId with
  | none => (s, .error ⟨404, "Agent not found"⟩)
  | some _ =>
      match checkUpload cfg filename content with
      | .error e => (s, .error e)
      | .ok () =>
          let record := record cfg agentId env.identifier content (nextVersion s agentId)
          match s.put agentId env.identifier content env.put with
          | (s', .error e) => (s', .error e)
          | (s', .ok ()) =>
              match s'.insertVersion record with
              | none => (s', .error integrityError)
              | some s'' =>
                  if env.commit then (s'', .ok record) else (s', .error internalError)

/-- How far an upload has come. -/
inductive UploadStage where
  /-- The agent row is locked. -/
  | locked (agentId : Uid) (filename : Option String) (content : Bytes)
  /-- The file is accepted and the version number read. -/
  | numbered (agentId : Uid) (content : Bytes) (version : ℕ)
  /-- The file is in storage. -/
  | stored (agentId : Uid) (content : Bytes) (version : ℕ) (identifier : Uid)

namespace UploadStage

def agentId : UploadStage → Uid
  | .locked a _ _ => a
  | .numbered a _ _ => a
  | .stored a _ _ _ => a

/-- An accepted file. -/
def Accepted (cfg : UploadSettings) (content : Bytes) : Prop :=
  content ≠ [] ∧ content.length ≤ cfg.uploadLimit

/-- What an upload relies on. -/
def Learnt (cfg : UploadSettings) : UploadStage → Shelf → Prop
  | .locked _ _ _, _ => True
  | .numbered a content version, s => Accepted cfg content ∧ version = AgentManager.nextVersion s a
  | .stored a content version identifier, s =>
      (Accepted cfg content ∧ version = AgentManager.nextVersion s a)
        ∧ AgentManager.object a identifier content ∈ s.objects

end UploadStage

/-- A change a lock on the agent row would not notice. -/
def Shelf.Keeps (s s' : Shelf) (agentId : Uid) : Prop :=
  s'.versionsOf agentId = s.versionsOf agentId ∧ ∀ o ∈ s.objects, o ∈ s'.objects

/-- The lock on the agent row as a locking discipline. -/
def UploadStage.discipline (cfg : UploadSettings) : Locking Shelf UploadStage Uid where
  holds stage agentId := agentId = stage.agentId
  learnt stage s := stage.Learnt cfg s
  keeps agentId s s' := s.Keeps s' agentId
  stable := by
    intro stage s s' h hkeeps
    obtain ⟨hversions, hobjects⟩ := hkeeps stage.agentId rfl
    have hnext : AgentManager.nextVersion s' stage.agentId
        = AgentManager.nextVersion s stage.agentId := by
      unfold AgentManager.nextVersion
      rw [hversions]
    cases stage with
    | locked a filename content => trivial
    | numbered a content version => exact ⟨h.1, h.2.trans hnext.symm⟩
    | stored a content version identifier =>
        exact ⟨⟨h.1.1, h.1.2.trans hnext.symm⟩, hobjects _ h.2⟩

/-- The shelf and the open uploads. -/
abbrev UploadServer := World Shelf ℕ UploadStage

/-- One statement of one upload, or the creation of an agent. The route reads
one byte more than the limit. -/
inductive Uploads (cfg : UploadSettings) (s : UploadServer) : UploadServer → Prop
  | createAgent {a : Agent} {t : Table Agent} :
      s.store.agents.insert? a = some t →
      Uploads cfg s { s with store := { s.store with agents := t } }
  | lock {i : ℕ} {agentId : Uid} {filename : Option String} {file : Bytes} :
      s.sessions i = none → (UploadStage.discipline cfg).Free s i agentId →
      s.store.agents.get? agentId ≠ none →
      Uploads cfg s (s.put i (.locked agentId filename (file.take (cfg.uploadLimit + 1))))
  | number {i : ℕ} {a : Uid} {filename : Option String} {content : Bytes} :
      s.sessions i = some (.locked a filename content) →
      AgentManager.checkUpload cfg filename content = .ok () →
      Uploads cfg s (s.put i (.numbered a content (AgentManager.nextVersion s.store a)))
  | store {i : ℕ} {a identifier : Uid} {content : Bytes} {version : ℕ} {t : Table AgentObject} :
      s.sessions i = some (.numbered a content version) →
      s.store.objects.insert? (AgentManager.object a identifier content) = some t →
      Uploads cfg s
        (World.put { s with store := { s.store with objects := t } } i
          (.stored a content version identifier))
  /-- A write that raises can leave a truncated object. -/
  | storeRaises {i : ℕ} {a identifier : Uid} {content left : Bytes} {version : ℕ}
      {t : Table AgentObject} :
      s.sessions i = some (.numbered a content version) →
      s.store.objects.insert? (AgentManager.object a identifier left) = some t →
      Uploads cfg s (s.close i { s.store with objects := t })
  | commit {i : ℕ} {a identifier : Uid} {content : Bytes} {version : ℕ} {shelf : Shelf} :
      s.sessions i = some (.stored a content version identifier) →
      s.store.insertVersion (AgentManager.record cfg a identifier content version) = some shelf →
      Uploads cfg s (s.close i shelf)
  /-- An error at any point, or a failed commit. -/
  | rollback {i : ℕ} : Uploads cfg s (s.close i s.store)

/-- Uploads interleaved statement by statement, from an empty shelf. -/
def uploads (cfg : UploadSettings) : Transition UploadServer Unit where
  init s := s.store = ⟨.empty, .empty, .empty⟩ ∧ ∀ i, s.sessions i = none
  step s _ t := Uploads cfg s t

/-- An upload nobody interrupts is a run of its statements. -/
theorem upload_run {cfg : UploadSettings} {s : UploadServer} (hidle : ∀ i, s.sessions i = none)
    (env : UploadEnv) (agentId : Uid) (filename : Option String) (file : Bytes) :
    ∃ tr, (uploads cfg).Run s tr { s with store :=
      (AgentManager.upload cfg env s.store agentId filename
        (file.take (cfg.uploadLimit + 1))).1 } := by
  have hfree : (UploadStage.discipline cfg).Free s 0 agentId := fun k l _ hk => by
    rw [hidle k] at hk
    cases hk
  unfold AgentManager.upload
  split
  · exact ⟨[], .nil⟩
  · rename_i a hagent
    have hlock : Uploads cfg s
        (s.put 0 (.locked agentId filename (file.take (cfg.uploadLimit + 1)))) :=
      .lock (hidle 0) hfree (by rw [hagent]; exact Option.some_ne_none a)
    generalize file.take (cfg.uploadLimit + 1) = content at hlock ⊢
    split
    · exact ⟨[], .nil⟩
    · rename_i hcheck
      have hrun := (Transition.Run.single (M := uploads cfg) (l := ()) hlock).snoc (l := ())
        (.number (World.put_self s 0 (.locked agentId filename content)) hcheck)
      rw [World.put_put, World.put_store] at hrun
      have hends : ∀ {tr : List Unit} {u : UploadServer} (shelf : Shelf),
          (uploads cfg).Run s tr u → u.close 0 shelf = s.close 0 shelf →
          Uploads cfg u (u.close 0 shelf) →
          ∃ tr, (uploads cfg).Run s tr { s with store := shelf } := by
        intro tr u shelf hrun hclose hstep
        have hlast := hrun.snoc (l := ()) hstep
        rw [hclose, World.close_idle (hidle 0)] at hlast
        exact ⟨_, hlast⟩
      rcases s.store.put_cases agentId env.identifier content env.put with
        ⟨t, hins, hput⟩ | ⟨error, hput⟩ | ⟨left, t, error, hins, hput⟩ <;> rw [hput] <;> dsimp only
      · have hstore := hrun.snoc (l := ()) (.store (World.put_self ..) hins)
        split
        · exact hends _ hstore (by simp [World.put, World.close]) .rollback
        · rename_i shelf hversion
          split
          · exact hends _ hstore (by simp [World.put, World.close])
              (.commit (World.put_self ..) hversion)
          · exact hends _ hstore (by simp [World.put, World.close]) .rollback
      · exact hends _ hrun (World.put_close ..) .rollback
      · exact hends _ hrun (World.put_close ..) (.storeRaises (World.put_self ..) hins)

/-! ## What uploads keep -/

/-- The bytes are what the record says they are. -/
structure AgentRecord.Describes (cfg : UploadSettings) (v : AgentRecord) (content : Bytes) :
    Prop where
  filename : v.filename = "agent.py"
  size : v.size = content.length
  sha256 : v.sha256 = cfg.sha256 content
  accepted : UploadStage.Accepted cfg content

/-- Numbers without gap or duplicate, and every record backed by its bytes. -/
structure Shelf.Intact (cfg : UploadSettings) (s : Shelf) : Prop where
  numbers : ∀ a, (s.versionsOf a).map (·.version) = List.range' 1 (s.versionsOf a).length
  paths : ∀ v ∈ s.versions, v.storagePath = .agentFile v.agentId v.id
  backed : ∀ v ∈ s.versions, ∃ content, ⟨v.storagePath, content⟩ ∈ s.objects
    ∧ v.Describes cfg content

/-- Versions and objects are only ever added. -/
structure Shelf.Grows (s t : Shelf) : Prop where
  versions : ∀ v ∈ s.versions, v ∈ t.versions
  objects : ∀ o ∈ s.objects, o ∈ t.objects

section Intact

variable {cfg : UploadSettings} {s t : Shelf}

theorem Shelf.Grows.refl (s : Shelf) : s.Grows s := ⟨fun _ h => h, fun _ h => h⟩

theorem Shelf.Grows.trans {u : Shelf} (h : s.Grows t) (h' : t.Grows u) : s.Grows u :=
  ⟨fun v hv => h'.versions v (h.versions v hv), fun o ho => h'.objects o (h.objects o ho)⟩

theorem Shelf.grows_object {o : AgentObject} {objects : Table AgentObject}
    (h : s.objects.insert? o = some objects) : s.Grows { s with objects } :=
  ⟨fun _ hv => hv, fun _ ho => (Table.mem_insert? h).mpr (Or.inl ho)⟩

/-- More objects do no harm. -/
theorem Shelf.Intact.of_objects (h : s.Intact cfg) (hversions : t.versions = s.versions)
    (hobjects : ∀ o ∈ s.objects, o ∈ t.objects) : t.Intact cfg := by
  have hof : ∀ a, t.versionsOf a = s.versionsOf a := fun a => by
    unfold Shelf.versionsOf
    rw [hversions]
  refine ⟨fun a => ?_, fun v hv => h.paths v (hversions ▸ hv), fun v hv => ?_⟩
  · rw [hof]
    exact h.numbers a
  · obtain ⟨content, hmem, hdesc⟩ := h.backed v (hversions ▸ hv)
    exact ⟨content, hobjects _ hmem, hdesc⟩

theorem max?_range' (n : ℕ) : ((List.range' 1 n).max?).getD 0 = n := by
  cases n with
  | zero => rfl
  | succ n =>
      have hmax : (List.range' 1 (n + 1)).max? = some (n + 1) := by
        rw [List.max?_eq_some_iff]
        refine ⟨List.mem_range'_1.mpr (by omega), fun b hb => ?_⟩
        have := List.mem_range'_1.mp hb
        omega
      rw [hmax]
      rfl

theorem Shelf.Intact.nextVersion (h : s.Intact cfg) (a : Uid) :
    AgentManager.nextVersion s a = (s.versionsOf a).length + 1 := by
  unfold AgentManager.nextVersion
  rw [h.numbers a, max?_range']

theorem Shelf.versionsOf_insert_self {v : AgentRecord} {versions : Table AgentRecord}
    (h : s.versions.insert? v = some versions) :
    Shelf.versionsOf { s with versions } v.agentId = s.versionsOf v.agentId ++ [v] := by
  unfold Shelf.versionsOf
  rw [Table.rows_insert? h, List.filter_append, List.filter_cons_of_pos (by simp), List.filter_nil]

theorem Shelf.versionsOf_insert_of_ne {v : AgentRecord} {versions : Table AgentRecord}
    (h : s.versions.insert? v = some versions) {a : Uid} (ha : v.agentId ≠ a) :
    Shelf.versionsOf { s with versions } a = s.versionsOf a := by
  unfold Shelf.versionsOf
  rw [Table.rows_insert? h, List.filter_append, List.filter_cons_of_neg (by simpa using ha),
    List.filter_nil, List.append_nil]

/-- The next version of an agent, with its bytes in place. -/
theorem Shelf.Intact.insertVersion (h : s.Intact cfg) {a identifier : Uid} {content : Bytes}
    (haccepted : UploadStage.Accepted cfg content)
    (hobject : AgentManager.object a identifier content ∈ s.objects)
    (hins : s.insertVersion (AgentManager.record cfg a identifier content
      (AgentManager.nextVersion s a)) = some t) : t.Intact cfg := by
  obtain ⟨versions, hversions, rfl⟩ := Shelf.insertVersion_eq hins
  refine ⟨fun b => ?_, fun v hv => ?_, fun v hv => ?_⟩
  · by_cases hab : a = b
    · subst hab
      have hself := Shelf.versionsOf_insert_self hversions
      simp only [AgentManager.record] at hself
      rw [hself, List.map_append, List.length_append, h.numbers a, List.map_singleton,
        List.length_singleton, List.range'_concat, h.nextVersion, Nat.one_mul, Nat.add_comm 1]
    · rw [Shelf.versionsOf_insert_of_ne hversions hab]
      exact h.numbers b
  · rcases (Table.mem_insert? hversions).mp hv with hv | rfl
    · exact h.paths v hv
    · rfl
  · rcases (Table.mem_insert? hversions).mp hv with hv | rfl
    · exact h.backed v hv
    · exact ⟨content, hobject, rfl, rfl, rfl, haccepted⟩

end Intact

section Steps

variable {cfg : UploadSettings} {s t : UploadServer}

/-- Every statement of an upload follows the discipline, and what it leaves
is intact and larger. -/
theorem uploads_step (h : (UploadStage.discipline cfg).Sound s) (hintact : s.store.Intact cfg)
    (hstep : Uploads cfg s t) :
    (UploadStage.discipline cfg).Sound t ∧ t.store.Intact cfg ∧ s.store.Grows t.store := by
  cases hstep with
  | @createAgent a agents _ =>
      exact ⟨h.step (.outside fun r => ⟨rfl, fun _ ho => ho⟩),
        hintact.of_objects rfl fun _ ho => ho, ⟨fun _ hv => hv, fun _ ho => ho⟩⟩
  | lock _ hfree _ =>
      refine ⟨h.step (.learn ?_ trivial), hintact, .refl _⟩
      rintro r rfl
      exact hfree
  | number hi hcheck =>
      exact ⟨h.step (.learn (fun r hr => h.free hi hr)
        ⟨AgentManager.checkUpload_ok cfg hcheck, rfl⟩), hintact, .refl _⟩
  | @store i a identifier content version objects hi hins =>
      have hgrows := Shelf.grows_object hins
      have hstored := h.step (.outside (s := { s.store with objects }) fun r =>
        ⟨rfl, hgrows.objects⟩)
      have hlearnt : UploadStage.Accepted cfg content
          ∧ version = AgentManager.nextVersion { s.store with objects } a := hstored.learnt i _ hi
      have hobject : AgentManager.object a identifier content ∈ objects :=
        (Table.mem_insert? hins).mpr (Or.inr rfl)
      exact ⟨hstored.step (.learn (fun r hr => hstored.free hi hr) ⟨hlearnt, hobject⟩),
        hintact.of_objects rfl hgrows.objects, hgrows⟩
  | storeRaises hi hins =>
      have hgrows := Shelf.grows_object hins
      exact ⟨h.step (.commit hi fun r _ => ⟨rfl, hgrows.objects⟩),
        hintact.of_objects rfl hgrows.objects, hgrows⟩
  | @commit i a identifier content version shelf hi hins =>
      obtain ⟨⟨haccepted, rfl⟩, hobject⟩ := h.learnt i _ hi
      obtain ⟨versions, hversions, rfl⟩ := Shelf.insertVersion_eq hins
      refine ⟨h.step (.commit hi fun r hr => ⟨?_, fun _ ho => ho⟩),
        hintact.insertVersion haccepted hobject hins,
        ⟨fun v hv => (Table.mem_insert? hversions).mpr (Or.inl hv), fun _ ho => ho⟩⟩
      exact Shelf.versionsOf_insert_of_ne hversions fun heq => hr heq.symm
  | rollback => exact ⟨h.step .abort, hintact, .refl _⟩

theorem reachable_intact (hs : (uploads cfg).Reachable s) :
    (UploadStage.discipline cfg).Sound s ∧ s.store.Intact cfg := by
  refine hs.rec_on
    (P := fun s => (UploadStage.discipline cfg).Sound s ∧ s.store.Intact cfg) ?_ ?_
  · rintro s ⟨hstore, hidle⟩
    refine ⟨Locking.sound_of_idle hidle, ?_⟩
    rw [hstore]
    exact ⟨fun a => rfl, fun v hv => (Table.not_mem_empty hv).elim,
      fun v hv => (Table.not_mem_empty hv).elim⟩
  · rintro s l t - ⟨hsound, hintact⟩ hstep
    obtain ⟨hsound, hintact, -⟩ := uploads_step hsound hintact hstep
    exact ⟨hsound, hintact⟩

theorem uploads_grow (hs : (uploads cfg).Reachable s) {tr : List Unit}
    (hrun : (uploads cfg).Run s tr t) : s.store.Grows t.store := by
  refine hrun.relates (R := fun s t => s.store.Grows t.store) (fun _ => .refl _)
    (fun h h' => h.trans h') ?_ hs
  intro u l v hu hstep
  obtain ⟨hsound, hintact⟩ := reachable_intact hu
  exact (uploads_step hsound hintact hstep).2.2

end Steps

/-! ## What a worker downloads -/

/-- `stored_response`: the bytes the API streams. -/
def storedResponse (objects : Table AgentObject) (key : StorageKey) : Except HttpError Bytes :=
  match objects.get? key with
  | some o => .ok o.content
  | none => .error ⟨404, "Artifact unavailable"⟩

/-- `WorkerClient.download_agent` on the chunks of a successful response. -/
def downloadAgent (data : Bytes) : List Bytes → Except String Bytes
  | [] => .ok data
  | chunk :: chunks =>
      if (data ++ chunk).length > 2000000 then .error "Agent download exceeds 2 MB"
      else downloadAgent (data ++ chunk) chunks

theorem downloadAgent_ok {chunks : List Bytes} {data : Bytes}
    (h : (data ++ chunks.flatten).length ≤ 2000000) :
    downloadAgent data chunks = .ok (data ++ chunks.flatten) := by
  induction chunks generalizing data with
  | nil => simp [downloadAgent]
  | cons chunk chunks ih =>
      rw [List.flatten_cons, ← List.append_assoc] at h ⊢
      have hchunk : ¬(data ++ chunk).length > 2000000 := by
        rw [List.length_append] at h
        omega
      rw [downloadAgent, if_neg hchunk]
      exact ih h

theorem verifyAgent_accepts {lib : Libraries} {version : AgentVersion} {content : Bytes}
    (hfilename : version.filename = "agent.py") (hversion : 1 ≤ version.version)
    (hsize : version.size = content.length) (hpos : 0 < content.length)
    (hle : content.length ≤ 2000000) (hsha : lib.sha256 content = version.sha256) :
    (Evaluator.verifyAgent lib version content : EvalProgram Unit) = pure () := by
  unfold Evaluator.verifyAgent
  rw [if_neg]
  rintro (hbad | hbad | hbad | hbad | hbad)
  · exact hbad hfilename
  · omega
  · exact hbad hsize
  · exact hbad ⟨hpos, hle⟩
  · exact hbad hsha

/-- Another digest is refused. -/
theorem verifyAgent_rejects {lib : Libraries} {version : AgentVersion} {content : Bytes}
    (hsha : lib.sha256 content ≠ version.sha256) :
    (Evaluator.verifyAgent lib version content : EvalProgram Unit)
      = Program.raise (.inputError .agentMismatch) := by
  unfold Evaluator.verifyAgent
  rw [if_pos (Or.inr (Or.inr (Or.inr (Or.inr hsha))))]

section Download

variable {cfg : UploadSettings} {s : Shelf} {v : AgentRecord} {content : Bytes}

theorem Shelf.Intact.version_pos (h : s.Intact cfg) (hv : v ∈ s.versions) : 1 ≤ v.version := by
  have hmem : v.version ∈ (s.versionsOf v.agentId).map (·.version) :=
    List.mem_map_of_mem (Shelf.mem_versionsOf.mpr ⟨hv, rfl⟩)
  rw [h.numbers] at hmem
  exact (List.mem_range'_1.mp hmem).1

theorem Shelf.Intact.path_unique (h : s.Intact cfg) (hv : v ∈ s.versions) :
    ∀ v' ∈ s.versions, v'.storagePath = v.storagePath → v' = v := by
  intro v' hv' heq
  rw [h.paths v hv, h.paths v' hv'] at heq
  exact Table.eq_of_key_eq hv' hv (StorageKey.agentFile.inj heq).2

theorem storedResponse_of_mem (h : ⟨v.storagePath, content⟩ ∈ s.objects) :
    storedResponse s.objects v.storagePath = .ok content := by
  have hget : s.objects.get? v.storagePath = some ⟨v.storagePath, content⟩ :=
    Table.get?_eq_some.mpr ⟨h, rfl⟩
  rw [storedResponse, hget]

/-- The worker takes the bytes of a version however they are cut into chunks. -/
theorem AgentRecord.Describes.download (h : v.Describes cfg content)
    (hlimit : cfg.uploadLimit = 2000000) {chunks : List Bytes}
    (hchunks : chunks.flatten = content) :
    downloadAgent [] chunks = .ok content := by
  have hlen : content.length ≤ 2000000 := hlimit ▸ h.accepted.2
  have hok : downloadAgent [] chunks = .ok ([] ++ chunks.flatten) :=
    downloadAgent_ok (by simpa [hchunks] using hlen)
  rwa [List.nil_append, hchunks] at hok

variable {lib : Libraries}

theorem AgentRecord.Describes.verify (h : v.Describes cfg content)
    (hlimit : cfg.uploadLimit = 2000000) (hversion : 1 ≤ v.version)
    (hlib : lib.sha256 = cfg.sha256) :
    (Evaluator.verifyAgent lib v.toAgentVersion content : EvalProgram Unit) = pure () :=
  verifyAgent_accepts h.filename hversion h.size (List.length_pos_iff.mpr h.accepted.1)
    (hlimit ▸ h.accepted.2) (hlib ▸ h.sha256.symm)

/-- Other bytes have another digest. -/
theorem AgentRecord.Describes.reject (h : v.Describes cfg content)
    (hfree : ∀ c, cfg.sha256 c = cfg.sha256 content → c = content)
    (hlib : lib.sha256 = cfg.sha256) {other : Bytes} (hother : other ≠ content) :
    (Evaluator.verifyAgent lib v.toAgentVersion other : EvalProgram Unit)
      = Program.raise (.inputError .agentMismatch) := by
  refine verifyAgent_rejects fun hsha => hother (hfree other ?_)
  rw [← hlib, hsha, h.sha256, hlib]

end Download

/-- **Uploads.** Whatever uploads are interleaved and wherever they fail, the
versions of an agent are numbered 1, 2, 3, … in their order. The key of a
version is used by no other one and holds, in every later state, the bytes
the record describes. The worker accepts these bytes and no others. -/
theorem versions_intact {cfg : UploadSettings} {s : UploadServer}
    (hs : (uploads cfg).Reachable s) :
    (∀ a, (s.store.versionsOf a).map (·.version)
        = List.range' 1 (s.store.versionsOf a).length)
      ∧ ∀ v ∈ s.store.versions,
          (∀ v' ∈ s.store.versions, v'.storagePath = v.storagePath → v' = v)
            ∧ ∃ content, content.length = v.size ∧ cfg.sha256 content = v.sha256
              ∧ (∀ tr t, (uploads cfg).Run s tr t → v ∈ t.store.versions
                  ∧ storedResponse t.store.objects v.storagePath = .ok content)
              ∧ ∀ lib : Libraries, lib.sha256 = cfg.sha256 → cfg.uploadLimit = 2000000 →
                  (∀ chunks : List Bytes, chunks.flatten = content →
                      downloadAgent [] chunks = .ok content)
                    ∧ (Evaluator.verifyAgent lib v.toAgentVersion content : EvalProgram Unit)
                        = pure ()
                    ∧ ((∀ c, cfg.sha256 c = cfg.sha256 content → c = content) →
                        ∀ other, other ≠ content →
                          (Evaluator.verifyAgent lib v.toAgentVersion other : EvalProgram Unit)
                            = Program.raise (.inputError .agentMismatch)) := by
  obtain ⟨-, hintact⟩ := reachable_intact hs
  refine ⟨hintact.numbers, fun v hv => ⟨hintact.path_unique hv, ?_⟩⟩
  obtain ⟨content, hobject, hdesc⟩ := hintact.backed v hv
  refine ⟨content, hdesc.size.symm, hdesc.sha256.symm, fun tr t hrun => ?_, fun lib hlib hlimit =>
    ⟨fun chunks hchunks => hdesc.download hlimit hchunks,
      hdesc.verify hlimit (hintact.version_pos hv) hlib, fun hfree other hother =>
      hdesc.reject hfree hlib hother⟩⟩
  have hgrows := uploads_grow hs hrun
  exact ⟨hgrows.versions v hv, storedResponse_of_mem (hgrows.objects _ hobject)⟩

/-! ### Three uploads -/

theorem reachable_upload {cfg : UploadSettings} {s : Shelf}
    (hs : (uploads cfg).Reachable ⟨s, fun _ => none⟩) (env : UploadEnv) (agentId : Uid)
    (filename : Option String) (file : Bytes) :
    (uploads cfg).Reachable ⟨(AgentManager.upload cfg env s agentId filename
      (file.take (cfg.uploadLimit + 1))).1, fun _ => none⟩ := by
  obtain ⟨tr, hrun⟩ := upload_run (s := ⟨s, fun _ => none⟩) (fun _ => rfl) env agentId filename file
  exact hs.run hrun

namespace Sample

/-- A digest that spells the bytes out. -/
def uploadSettings : UploadSettings where
  sha256 content := String.ofList (content.map fun b => Char.ofNat b.toNat)
  parses _ := true

theorem uploadSettings_injective : Function.Injective uploadSettings.sha256 := by
  have hval : ∀ b : UInt8, (Char.ofNat b.toNat).toNat = b.toNat := fun b => by
    have hvalid : b.toNat.isValidChar := Or.inl (b.toNat_lt.trans (by decide))
    rw [Char.ofNat, dif_pos hvalid]
    rfl
  intro c c' h
  refine List.map_injective_iff.mpr (fun b b' hb => ?_) (String.ofList_injective h)
  have hnat := congrArg Char.toNat hb
  rw [hval, hval] at hnat
  exact UInt8.toNat_inj.mp hnat

def author : Agent := ⟨1, "author", ""⟩

def shelf : Shelf where
  agents := (Table.empty.insert? author).get (by decide)
  versions := .empty
  objects := .empty

def upload (env : UploadEnv) (s : Shelf) (file : Bytes) : Shelf :=
  (AgentManager.upload uploadSettings env s 1 (some "agent.py")
    (file.take (uploadSettings.uploadLimit + 1))).1

def uploadLibraries : Libraries where
  fromstring _ := .ok (.node "testsuite" [] none [])
  float _ := .ok (.finite 0)
  sha256 := uploadSettings.sha256
  idText := toString
  floatText _ := ['0']
  floatText_numeral := fun _ => by decide

/-- The second of three uploads fails in storage and leaves a fragment there. -/
def uploaded : Shelf :=
  let first := upload ⟨10, .succeeds, true⟩ shelf [112, 97, 115, 115]
  let second := upload ⟨11, .raises internalError (some [120]), true⟩ first [120, 61, 49]
  upload ⟨12, .succeeds, true⟩ second [120, 61, 49]

end Sample

theorem versions_intact_uploaded : ∃ s, (uploads Sample.uploadSettings).Reachable s
    ∧ (s.store.versions.rows.map fun v => (v.version, v.size)) = [(1, 4), (2, 3)]
    ∧ s.store.objects.rows.length = 3
    ∧ ∀ v ∈ s.store.versions, ∃ content,
        (Evaluator.verifyAgent Sample.uploadLibraries v.toAgentVersion content : EvalProgram Unit)
            = pure ()
          ∧ ∀ other, other ≠ content →
              (Evaluator.verifyAgent Sample.uploadLibraries v.toAgentVersion other :
                EvalProgram Unit) = Program.raise (.inputError .agentMismatch) := by
  have hinit : (uploads Sample.uploadSettings).Reachable
      ⟨⟨.empty, .empty, .empty⟩, fun _ => none⟩ := .init ⟨rfl, fun _ => rfl⟩
  have hshelf : (uploads Sample.uploadSettings).Reachable ⟨Sample.shelf, fun _ => none⟩ :=
    hinit.step (l := ()) (.createAgent (a := Sample.author) (Option.some_get (by decide)).symm)
  have hreach : (uploads Sample.uploadSettings).Reachable ⟨Sample.uploaded, fun _ => none⟩ :=
    reachable_upload (reachable_upload (reachable_upload hshelf ..) ..) ..
  refine ⟨_, hreach, by decide +kernel, by decide +kernel, fun v hv => ?_⟩
  obtain ⟨-, content, -, -, -, hworker⟩ := (versions_intact hreach).2 v hv
  obtain ⟨-, hverify, hreject⟩ := hworker Sample.uploadLibraries rfl rfl
  exact ⟨content, hverify, hreject fun c hc => Sample.uploadSettings_injective hc⟩

end AgentBenchX
