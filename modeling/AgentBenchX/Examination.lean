import AgentBenchX.Commits

/-!
# Examining one file

What becomes of a `task.toml` is a function of its table, of the names of
the commit and of the instruction (`outcomeOf_eq`). Two kinds of values end
the discovery instead of skipping the folder, a difficulty that is not text
and a timeout without a number (`Handled`); nothing else does
(`outcomeOf_caught`).
-/

namespace AgentBenchX

open ProblemDiscoveryService

namespace Commit

variable (py : Python) (names : List String)

/-- Discovery gets past scope and category with the folder. -/
structure Mapped (folder : String) (raw metadata : List (String × Toml)) (category : String)
    (tags : List String) (normalized : String) (kind : Toml) : Prop where
  isTable : getD raw "metadata" (.table []) = .table metadata
  declares : categoryAndTags metadata = .ok (category, tags)
  inScope : isGis py folder category tags = false
  required : ∀ p ∈ ["instruction.md", "tests/test.sh", "environment/Dockerfile"],
    folder ++ "/" ++ p ∈ names
  classified : classify metadata category tags = .ok (normalized, kind)

/-- The values whose wrong type or size discovery does not handle. -/
structure Handled (raw metadata : List (String × Toml)) : Prop where
  difficulty : ∃ s, getD metadata "difficulty" (.string "medium") = .string s
  verifier : ∃ verifier, getD raw "verifier" (.table []) = .table verifier
    ∧ ∀ negative, getD verifier "timeout_sec" (.integer 300) ≠ .float (.inf negative)

/-- The task as discovery builds it. -/
def taskOf (folder : String) (raw : List (String × Toml)) (tags : List String) (normalized : String)
    (kind : Toml) (difficulty : String) (timeout : ℤ) (instruction : String) : Task where
  path := folder
  name := String.ofList (purePath folder).name
  category := normalized
  type := kind
  difficulty := difficulty
  timeout := timeout
  metadata :=
    { source := raw
      tags
      language := if "python" ∈ tags then "Python" else "Unknown"
      framework := if "django" ∈ tags then "Django" else ""
      instruction }

end Commit

/-! ## The steps of an examination -/

namespace ProblemDiscoveryService

variable {py : Python} {metadata raw : List (String × Toml)} {category : String}
  {tags : List String} {e : SyncError}

theorem decode_caught {content : Bytes} {e : SyncError}
    (he : GitRepositoryManager.decode py content = .error e) : e.Caught := by
  unfold GitRepositoryManager.decode at he
  split at he
  · cases he
  · obtain rfl := Except.error.inj he
    trivial

theorem categoryAndTags_caught (h : categoryAndTags metadata = .error e) : e.Caught := by
  unfold categoryAndTags at h
  split at h
  · cases h
  · obtain rfl := Except.error.inj h
    trivial

theorem classify_caught (h : classify metadata category tags = .error e) : e.Caught := by
  unfold classify at h
  split_ifs at h
  obtain rfl := Except.error.inj h
  trivial

theorem classify_category {normalized : String} {kind : Toml}
    (h : classify metadata category tags = .ok (normalized, kind)) :
    normalized ∈ ["CODING", "DATABASE", "DATA", "API_BACKEND"] := by
  unfold classify at h
  split_ifs at h with _ _ _ _ _ hcategory
  all_goals obtain ⟨rfl, -⟩ := Prod.mk.inj (Except.ok.inj h)
  all_goals first | exact hcategory | simp

/-- Of the conversions to a number, only that of an infinity ends the discovery. -/
theorem toInt_caught {v : Toml} (h : toInt py v = .error e) :
    e.Caught ↔ ∀ negative, v ≠ .float (.inf negative) := by
  cases v with
  | string s =>
      cases hint : py.int s with
      | error text =>
          simp only [toInt, hint] at h
          obtain rfl := Except.error.inj h
          exact ⟨fun _ => nofun, fun _ => trivial⟩
      | ok n =>
          simp only [toInt, hint] at h
          cases h
  | float x =>
      cases x with
      | finite q => cases h
      | inf negative =>
          obtain rfl := Except.error.inj h
          exact ⟨False.elim, fun hne => hne negative rfl⟩
      | nan =>
          obtain rfl := Except.error.inj h
          exact ⟨fun _ => nofun, fun _ => trivial⟩
  | integer n => cases h
  | boolean b => cases h
  | _ =>
      obtain rfl := Except.error.inj h
      exact ⟨fun _ => nofun, fun _ => trivial⟩

end ProblemDiscoveryService

namespace ProblemValidationService

variable {task task' : Task} {e : SyncError}

theorem validate_caught (h : validate task = .error e) : e.Caught := by
  unfold validate at h
  split_ifs at h
  all_goals
    obtain rfl := Except.error.inj h
    trivial

theorem validate_ok : validate task = .ok task' ↔ task' = task
    ∧ ¬((purePath task.path).IsAbsolute ∨ ['.', '.'] ∈ (purePath task.path).parts)
    ∧ task.category ∈ ["CODING", "DATABASE", "DATA", "API_BACKEND"]
    ∧ (1 ≤ task.timeout ∧ task.timeout ≤ 86400)
    ∧ task.difficulty ∈ ["EASY", "MEDIUM", "HARD", "EXPERT"] := by
  unfold validate
  constructor
  · intro h
    split_ifs at h with hsafe hcategory hrange hgrade
    obtain rfl := Except.ok.inj h
    exact ⟨rfl, hsafe, hcategory, hrange, hgrade⟩
  · rintro ⟨rfl, hsafe, hcategory, hrange, hgrade⟩
    rw [if_neg hsafe, if_neg (not_not.mpr hcategory), if_neg (not_not.mpr hrange),
      if_neg (not_not.mpr hgrade)]

end ProblemValidationService

/-! ## The examination -/

namespace ProblemDiscoveryService

open Commit (Mapped Handled)

section Definitions

variable (py : Python) (repo : Repository Unit) (names : List String)

/-- The table of a `task.toml`. -/
def tableOf (filename : String) : Except SyncError (List (String × Toml)) := do
  let content ← (repo.read filename ()).1
  let text ← GitRepositoryManager.decode py content
  py.loads text

/-- The instruction of a task. -/
def instructionOf (folder : String) : Except SyncError String := do
  let content ← (repo.read (folder ++ "/instruction.md") ()).1
  GitRepositoryManager.decode py content

/-- The examination of a folder that is mapped. -/
def acceptFrom (instruction : Except SyncError String) (folder : String)
    (raw metadata : List (String × Toml)) (tags : List String) (normalized : String)
    (kind : Toml) : Except SyncError Found := do
  let difficulty ← upper py (getD metadata "difficulty" (.string "medium"))
  let timeout ← timeoutOf py raw
  let instruction ← instruction
  let task ← ProblemValidationService.validate
    (Commit.taskOf folder raw tags normalized kind difficulty timeout instruction)
  return .task task

/-- The examination, once the table is read. -/
def examinedFrom (instruction : Except SyncError String) (folder : String)
    (raw : List (String × Toml)) : Except SyncError Found :=
  match getD raw "metadata" (.table []) with
  | .table metadata => do
      let (category, tags) ← categoryAndTags metadata
      if isGis py folder category tags then return .skipped "GIS is out of scope"
      else if ["instruction.md", "tests/test.sh", "environment/Dockerfile"].any fun p =>
          folder ++ "/" ++ p ∉ names then
        .error (.sourceError "Missing instruction, verifier or environment Dockerfile")
      else do
        let (normalized, kind) ← classify metadata category tags
        acceptFrom py instruction folder raw metadata tags normalized kind
  | _ => .error (.sourceError "Metadata must be a table")

/-- What `examine` makes of a file. -/
def outcomeOf (filename : String) : Except SyncError Found :=
  (examine py repo names (folderOf filename) filename ()).1

end Definitions

variable {py : Python} {repo : Repository Unit} {names : List String}
  {folder filename : String} {raw metadata : List (String × Toml)} {category : String}
  {tags : List String} {normalized : String} {kind : Toml} {instruction : Except SyncError String}

theorem outcomeOf_eq : outcomeOf py repo names filename
    = tableOf py repo filename >>=
      examinedFrom py names (instructionOf py repo (folderOf filename)) (folderOf filename) := by
  unfold outcomeOf examine tableOf
  rw [Program.bind_unit, bind_assoc]
  refine bind_congr fun content => ?_
  rw [Program.bind_unit, bind_assoc]
  refine bind_congr fun text => ?_
  rw [Program.bind_unit]
  refine bind_congr fun raw => ?_
  unfold examinedFrom
  cases getD raw "metadata" (.table []) with
  | table metadata =>
      dsimp only
      rw [Program.bind_unit]
      refine bind_congr fun ⟨category, tags⟩ => ?_
      dsimp only
      by_cases hgis : isGis py (folderOf filename) category tags = true
      · rw [if_pos hgis, if_pos hgis]
        rfl
      · rw [if_neg hgis, if_neg hgis]
        split
        · rfl
        · rw [Program.bind_unit]
          refine bind_congr fun ⟨normalized, kind⟩ => ?_
          unfold acceptFrom instructionOf
          simp only [Program.bind_unit, Program.lift_apply, bind_assoc]
          rfl
  | _ => rfl

theorem examinedFrom_mapped
    (h : Mapped py names folder raw metadata category tags normalized kind) :
    examinedFrom py names instruction folder raw
      = acceptFrom py instruction folder raw metadata tags normalized kind := by
  unfold examinedFrom
  rw [h.isTable]
  dsimp only
  rw [bind_of_ok h.declares]
  dsimp only
  rw [h.inScope, if_neg Bool.false_ne_true, if_neg, bind_of_ok h.classified]
  intro hmissing
  obtain ⟨p, hp, hnot⟩ := List.any_eq_true.mp hmissing
  exact of_decide_eq_true hnot (h.required p hp)

/-- A folder that is not mapped is skipped one way or the other. -/
theorem examinedFrom_unmapped
    (h : ¬∃ metadata category tags normalized kind,
      Mapped py names folder raw metadata category tags normalized kind) :
    (∃ reason, examinedFrom py names instruction folder raw = .ok (.skipped reason))
      ∨ ∃ e, examinedFrom py names instruction folder raw = .error e ∧ e.Caught := by
  unfold examinedFrom
  cases hmeta : getD raw "metadata" (.table []) with
  | table metadata =>
      dsimp only
      cases hcategory : categoryAndTags metadata with
      | error e => exact Or.inr ⟨e, bind_of_error rfl, categoryAndTags_caught hcategory⟩
      | ok found =>
          obtain ⟨category, tags⟩ := found
          rw [bind_of_ok rfl]
          dsimp only
          by_cases hgis : isGis py folder category tags = true
          · exact Or.inl ⟨_, by rw [if_pos hgis]; rfl⟩
          · rw [if_neg hgis]
            split
            · exact Or.inr ⟨_, rfl, trivial⟩
            · rename_i hrequired
              cases hclass : classify metadata category tags with
              | error e => exact Or.inr ⟨e, bind_of_error rfl, classify_caught hclass⟩
              | ok mapped =>
                  refine absurd ⟨metadata, category, tags, mapped.1, mapped.2, hmeta, hcategory,
                    Bool.eq_false_iff.mpr hgis, fun p hp => ?_, hclass⟩ h
                  by_contra hnot
                  exact hrequired (List.any_eq_true.mpr ⟨p, hp, decide_eq_true hnot⟩)
  | _ => exact Or.inr ⟨_, rfl, trivial⟩

/-- A mapped folder ends the discovery for one of two reasons. -/
theorem acceptFrom_caught (hinstruction : ∀ e, instruction = .error e → e.Caught) :
    (∀ e, acceptFrom py instruction folder raw metadata tags normalized kind = .error e → e.Caught)
      ↔ Handled raw metadata := by
  unfold acceptFrom
  constructor
  · intro h
    cases hdifficulty : getD metadata "difficulty" (.string "medium") with
    | string s =>
        rw [hdifficulty] at h
        refine ⟨⟨s, hdifficulty⟩, ?_⟩
        rw [bind_of_ok (show ProblemDiscoveryService.upper py (.string s)
          = .ok (py.upper s) from rfl)]
          at h
        cases hverifier : getD raw "verifier" (.table []) with
        | table verifier =>
            refine ⟨verifier, rfl, fun negative hinf => ?_⟩
            have htimeout : timeoutOf py raw
                = .error (.other "OverflowError" "cannot convert float infinity to integer") := by
              rw [timeoutOf, hverifier]
              dsimp only
              rw [hinf]
              rfl
            exact h _ (bind_of_error htimeout)
        | _ =>
            have htimeout := timeoutOf.eq_def py raw
            rw [hverifier] at htimeout
            exact (h _ (bind_of_error htimeout)).elim
    | _ =>
        rw [hdifficulty] at h
        exact (h _ (bind_of_error rfl)).elim
  · rintro ⟨⟨s, hdifficulty⟩, verifier, hverifier, hfinite⟩ e h
    rw [hdifficulty, bind_of_ok (show ProblemDiscoveryService.upper py (.string s)
      = .ok (py.upper s) from rfl)] at h
    have htimeout : timeoutOf py raw = toInt py (getD verifier "timeout_sec" (.integer 300)) := by
      rw [timeoutOf, hverifier]
    rw [htimeout] at h
    rcases error_of_bind h with h | ⟨timeout, -, h⟩
    · exact (toInt_caught h).mpr hfinite
    · rcases error_of_bind h with h | ⟨text, -, h⟩
      · exact hinstruction e h
      · rcases error_of_bind h with h | ⟨task, -, h⟩
        · exact ProblemValidationService.validate_caught h
        · cases h

/-- What ends the discovery at a file. -/
theorem outcomeOf_caught
    (hinstruction : ∀ e, instructionOf py repo (folderOf filename) = .error e → e.Caught) :
    (∀ e, outcomeOf py repo names filename = .error e → e.Caught)
      ↔ (∀ e, tableOf py repo filename = .error e → e.Caught)
      ∧ ∀ raw metadata category tags normalized kind, tableOf py repo filename = .ok raw →
        Mapped py names (folderOf filename) raw metadata category tags normalized kind →
        Handled raw metadata := by
  rw [outcomeOf_eq]
  cases htable : tableOf py repo filename with
  | error e =>
      refine ⟨fun h => ⟨fun e' he' => h e' ?_, fun raw _ _ _ _ _ hraw => nomatch hraw⟩,
        fun h e' he' => h.1 e' ?_⟩
      · rw [Except.error.inj he']
        rfl
      · rw [Except.error.inj (show Except.error e = .error e' from he')]
  | ok raw =>
      show (∀ e, examinedFrom py names (instructionOf py repo (folderOf filename))
        (folderOf filename) raw = .error e → e.Caught) ↔ _
      refine ⟨fun h => ⟨nofun, ?_⟩, fun ⟨_, hhandled⟩ e he => ?_⟩
      · rintro raw' metadata category tags normalized kind hraw hmapped
        obtain rfl := Except.ok.inj hraw
        rw [examinedFrom_mapped hmapped] at h
        exact (acceptFrom_caught hinstruction).mp h
      · by_cases hmapped : ∃ metadata category tags normalized kind,
          Mapped py names (folderOf filename) raw metadata category tags normalized kind
        · obtain ⟨metadata, category, tags, normalized, kind, hmapped⟩ := hmapped
          rw [examinedFrom_mapped hmapped] at he
          exact (acceptFrom_caught hinstruction).mpr (hhandled _ _ _ _ _ _ rfl hmapped) e he
        · rcases examinedFrom_unmapped hmapped with ⟨reason, hskipped⟩ | ⟨e', herror, hcaught⟩
          · rw [hskipped] at he
            cases he
          · obtain rfl := Except.error.inj (herror.symm.trans he)
            exact hcaught

/-! ## The loop -/

/-- The folder of a `task.toml`. -/
theorem folderOf_regular {filename : String} (h : PurePath.Regular filename.toList)
    (htoml : "/task.toml".toList <:+ filename.toList) :
    PurePath.Regular (folderOf filename).toList ∧ folderOf filename ++ "/task.toml" = filename := by
  obtain ⟨folder, hfolder⟩ := htoml
  have hslash : folder ++ '/' :: "task.toml".toList = filename.toList := hfolder
  rw [← hslash] at h
  have hparent : (folderOf filename).toList = folder := by
    rw [folderOf, String.toList_ofList, purePath, ← hslash]
    exact h.text_parent (by decide)
  refine ⟨by rw [hparent]; exact (PurePath.regular_append.mp h).1, ?_⟩
  rw [← String.toList_inj, String.toList_append, hparent, hfolder]

/-- A folder after its handler. -/
theorem inspect_eq {filename : String} : (inspect py repo names filename ()).1
    = match outcomeOf py repo names filename with
      | .ok found => .ok found
      | .error e => if e.Caught then .ok (.skipped e.text) else .error e := by
  unfold inspect Program.handle outcomeOf
  rcases examine py repo names (folderOf filename) filename () with ⟨e | found, u⟩
  · dsimp only
    split <;> rfl
  · rfl

theorem inspect_ok {filename : String} :
    (∃ found, (inspect py repo names filename ()).1 = .ok found)
      ↔ ∀ e, outcomeOf py repo names filename = .error e → e.Caught := by
  rw [inspect_eq]
  cases houtcome : outcomeOf py repo names filename with
  | ok found => exact ⟨fun _ => nofun, fun _ => ⟨found, rfl⟩⟩
  | error e =>
      constructor
      · rintro ⟨found, hfound⟩ e' he'
        rw [← Except.error.inj he']
        by_contra hnot
        dsimp only at hfound
        rw [if_neg hnot] at hfound
        cases hfound
      · intro h
        exact ⟨_, if_pos (h e rfl)⟩

theorem inspect_found {task : Task} :
    (inspect py repo names filename ()).1 = .ok (.task task)
      ↔ outcomeOf py repo names filename = .ok (.task task) := by
  rw [inspect_eq]
  cases outcomeOf py repo names filename with
  | ok found => exact Iff.rfl
  | error e =>
      dsimp only
      split <;> exact ⟨nofun, nofun⟩

theorem inspectAll_returns {filenames : List String}
    (h : ∀ filename ∈ filenames,
      ∃ f, (inspect py repo names filename ()).1 = .ok f) :
    ∃ found, (inspectAll py repo names filenames ()).1 = .ok found := by
  induction filenames with
  | nil => exact ⟨[], rfl⟩
  | cons filename rest ih =>
      obtain ⟨⟨f, hf⟩, hrest⟩ := List.forall_mem_cons.mp h
      obtain ⟨others, hothers⟩ := ih hrest
      refine ⟨(folderOf filename, f) :: others, ?_⟩
      rw [inspectAll, Program.bind_unit, bind_of_ok hf, Program.bind_unit, bind_of_ok hothers]
      rfl

/-- Discovery returns if no file raises what it does not handle. -/
theorem discover_handled (hfiles : (repo.files ()).1 = .ok names)
    (h : ∀ filename ∈ taskFiles names, ∀ e, outcomeOf py repo names filename = .error e →
      e.Caught) : ∃ tasks skipped, (discover py repo ()).1 = .ok (tasks, skipped) := by
  obtain ⟨found, hfound⟩ := inspectAll_returns fun filename hmem => inspect_ok.mpr (h filename hmem)
  refine ⟨tasks found, skipped found, ?_⟩
  rw [discover, Program.bind_unit, bind_of_ok hfiles, Program.bind_unit, bind_of_ok hfound]
  rfl

end ProblemDiscoveryService

end AgentBenchX
