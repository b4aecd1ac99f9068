import AgentBenchX.Preparation
import AgentBenchX.StoringPhase

/-!
# Versions a worker can prepare

Discovery on the server and `prepare_problem` on the worker read the same
commit with checks of their own. The URL of a version was accepted by the
check the worker makes, and the files it requires are those discovery has
seen. But discovery reads `task.toml` and the instruction only, while the
worker reads every file but the reference answers, each within a limit and
all within a budget; a version that exceeds one of them is stored and can
never be prepared.
-/

namespace AgentBenchX

/-! ## What the server hands over -/

open ProblemSourceManager ProblemDiscoveryService

/-- Every source has a URL that was accepted. -/
def Catalog.Validated (py : Python) (settings : GitSettings) (cat : Catalog) : Prop :=
  ∀ source ∈ cat.sources,
    GitRepositoryManager.validateUrl py settings source.repositoryUrl = .ok source.repositoryUrl

section Server

variable {py : Python} {settings : GitSettings} {γ : Type} {cat cat' : Catalog}

theorem Catalog.Validated.update {source : ProblemSource} (row : ProblemSource)
    (h : cat.Validated py settings)
    (hsource : source ∈ cat.sources) (hid : row.id = source.id)
    (hurl : row.repositoryUrl = source.repositoryUrl)
    (hsources : cat'.sources = cat.sources.update row) : cat'.Validated py settings := by
  intro x hx
  rw [hsources] at hx
  rcases (Table.mem_update row hsource hid).mp hx with rfl | ⟨hx, -⟩
  · rw [hurl]
    exact h source hsource
  · exact h x hx

theorem SourceStep.validated {event : SourceEvent} (h : cat.Validated py settings)
    (hstep : SourceStep py settings γ cat event cat') : cat'.Validated py settings := by
  cases hstep with
  | register hregister =>
      obtain ⟨sources, hins, rfl, -, -, hurl⟩ := register_ok hregister
      intro x hx
      rcases (Table.mem_insert? hins).mp hx with hx | rfl
      · exact h x hx
      · exact hurl
  | refuse => exact h
  | sync git token env cache sourceId =>
      rcases sync_cases py settings git token env ⟨cat, cache⟩ sourceId with
        ⟨-, e, hsync⟩ | ⟨source, hget, -, ⟨e, cache', hsync⟩ |
          ⟨branch, sha, tasks, skipped, cache', catalog, row, -, hstore, hsync⟩⟩ <;>
        rw [hsync]
      · exact h
      · obtain ⟨-, hcatalog⟩ := failed_cases env ⟨cat, cache'⟩ source e
        rcases hcatalog with hcatalog | hcatalog <;> rw [hcatalog]
        · exact h
        · exact h.update (failedRow env source) (Table.mem_of_get? hget) rfl rfl rfl
      · obtain ⟨mid, created, hadds, rfl, rfl⟩ := store_ok hstore
        exact h.update (syncedRow env source branch sha tasks.length created skipped)
          (Table.mem_of_get? hget) rfl rfl (by rw [hadds.sources])

theorem validated_of_run {cat₀ : Catalog} {tr : List SourceEvent} (h₀ : cat₀.Empty)
    (hrun : (sourceHistory py settings γ).Run cat₀ tr cat) : cat.Validated py settings := by
  induction hrun with
  | nil =>
      intro x hx
      rw [h₀.1] at hx
      exact absurd hx Table.not_mem_empty
  | snoc _ hstep ih => exact SourceStep.validated ih hstep

end Server

/-- A task of the commit that discovery has returned, and the version under
which a synchronization has stored it. -/
inductive Stored (py : Python) (settings : GitSettings) (γ : Type) (c : Commit) (task : Task)
    (v : StoredVersion) : Prop
  | intro {cat₀ cat : Catalog} {tr : List SourceEvent} {git : GitHost γ} {token : Option String}
      {env : SyncEnv} {cache : Cache γ} {source row : ProblemSource} {path branch sha : String}
      {tasks : List Task} {skipped : List Skipped} {t : SyncServer γ} :
      cat₀.Empty → (sourceHistory py settings γ).Run cat₀ tr cat → source ∈ cat.sources →
      Delivers py settings git token source cache path branch sha c →
      (discover py (c.repository py) ()).1 = .ok (tasks, skipped) → task ∈ tasks →
      sync py settings git token env ⟨cat, cache⟩ source.id = (.ok row, t) →
      v ∈ t.catalog.versions → v.At source.repositoryUrl sha task.path →
      Stored py settings γ c task v

section Stored

variable {py : Python} {settings : GitSettings} {γ : Type} {c : Commit} {task : Task}
  {v : StoredVersion} {names : List String}

theorem Stored.discovered (h : Stored py settings γ c task v) (hnames : c.names py = .ok names)
    (htree : IsTree names) (destination : String) :
    Inputs.Discovered py ⟨destination, settings.allowedHosts⟩ names v.toProblemVersion := by
  obtain ⟨h₀, hrun, hsource, hgit, hdiscover, htask, -, -, hat⟩ := h
  obtain ⟨_, _, _, cache₃, -, -, hcheckout, -⟩ := hgit
  obtain ⟨names', hnames', -, htasks⟩ := discover_ok hdiscover
  obtain rfl := Except.ok.inj (hnames.symm.trans hnames')
  obtain ⟨filename, hfile, houtcome⟩ := (htasks task).mp htask
  obtain ⟨hmem, htoml⟩ := mem_taskFiles.mp hfile
  obtain ⟨raw, metadata, category, tags, normalized, kind, difficulty, timeout, text, -, hmapped,
    -, rfl⟩ := Commit.outcome_task.mp houtcome
  obtain ⟨hurl, hsha, hpath⟩ := hat
  obtain ⟨hregular, hfilename⟩ := folderOf_regular (htree.regular filename hmem) htoml
  refine ⟨?_, ?_, ?_, ?_⟩
  · rw [hsha]
    exact checkout_isSha hcheckout
  · rw [hurl]
    exact validated_of_run h₀ hrun _ hsource
  · rw [hpath]
    exact hregular
  · rw [hpath]
    intro file hrequired
    cases file with
    | task =>
        have hname : folderOf filename ++ "/" ++ "task.toml" = filename := by
          rw [String.append_assoc]
          exact hfilename
        exact hname.symm ▸ hmem
    | instruction => exact hmapped.required "instruction.md" (by decide)
    | dockerfile => exact hmapped.required "environment/Dockerfile" (by decide)
    | test => exact hmapped.required "tests/test.sh" (by decide)

end Stored

/-- **Prepared versions.** When git and the disk of the worker work and the
allowed hosts are the server's, in lower case, a stored task of a tree is
prepared exactly if each file to copy has at most a million bytes and all
of them at most fifty. -/
theorem stored_prepared {py : Python} {settings : GitSettings} {γ δ : Type} {c : Commit}
    {task : Task} {v : StoredVersion} {names : List String} {git : GitHost δ} {disk : LocalDisk}
    {token : Option String} {destination : String} {g : δ} (log : List LogRecord)
    (hstored : Stored py settings γ c task v)
    (hlower : ∀ host ∈ settings.allowedHosts, host.toList.map Char.toLower = host.toList)
    (hnames : c.names py = .ok names) (htree : IsTree names)
    (hgit : Inputs.Provides py ⟨destination, settings.allowedHosts⟩ git token
      v.toProblemVersion c g)
    (hdisk : Inputs.LocalDisk.Takes disk names) :
    (∃ folder t, Inputs.prepareProblem py git disk token v.toProblemVersion destination
        settings.allowedHosts ⟨⟨g, log⟩, false, []⟩ = (.ok folder, t))
      ↔ (∀ name ∈ names, InTask task.path name → (c.content name).length ≤ 1000000)
        ∧ taskBytes c task.path names ≤ 50000000 := by
  have hpath : v.problemPath = task.path := by
    obtain ⟨-, -, -, -, -, -, -, -, hat⟩ := hstored
    exact hat.2.2
  rw [Inputs.prepareProblem_iff log hlower (hstored.discovered hnames htree destination) hnames
    htree hgit hdisk, Inputs.Affordable, Nat.zero_add, hpath]

/-! ### Tasks with more files -/

namespace Sample

/-- The files of the small task and more below its folder. -/
def withFiles (extra : List (String × Bytes)) : List (String × Bytes) := demoFiles ++ extra

def demoTask : Task :=
  Commit.taskOf "d" bugfixTable [] "CODING" (.string "BUG_FIX") "MEDIUM" 300 "Fix it."

/-- The commit lists the task and nothing else to discover. -/
structure Lists (files : List (String × Bytes)) (names : List String) : Prop where
  plain : Plain files
  listed : namesIn (listing files) = .ok names
  tasks : taskFiles names = ["d/task.toml"]
  required : ∀ p ∈ ["instruction.md", "tests/test.sh", "environment/Dockerfile"],
    "d" ++ "/" ++ p ∈ names
  sizes : ∀ name ∈ names, Reads python ((files.lookup name).getD []).length

theorem Lists.names_eq {files : List (String × Bytes)} {names : List String}
    (h : Lists files names) : (commit files h.plain).names python = .ok names :=
  (commit_names h.plain).trans h.listed

theorem Lists.reads {files : List (String × Bytes)} {names : List String} (h : Lists files names) :
    ∀ names', (commit files h.plain).names python = .ok names' → ∀ name ∈ names',
      Reads python ((commit files h.plain).content name).length := by
  intro names' hnames'
  obtain rfl := Except.ok.inj (h.names_eq.symm.trans hnames')
  exact h.sizes

section Demo

variable {extra : List (String × Bytes)} {names : List String}

theorem demo_outcome (h : Lists (withFiles extra) names) :
    (commit (withFiles extra) h.plain).outcome python names "d/task.toml"
      = .ok (.task demoTask) := by
  have hfolder : folderOf "d/task.toml" = "d" := by decide +kernel
  refine Commit.outcome_task.mpr ⟨bugfixTable, [("category", .string "bugfix")], "bugfix", [],
    "CODING", .string "BUG_FIX", "MEDIUM", 300, "Fix it.", by rfl, ?_, ?_, ?_⟩ <;> rw [hfolder]
  · exact ⟨by rfl, by rfl, by decide +kernel, h.required, by rfl⟩
  · refine ⟨?_, by decide, by rfl, by decide, ?_, by decide +kernel⟩
    · show Except.ok (python.upper "medium") = _
      rw [show python.upper "medium" = "MEDIUM" by decide +kernel]
    · have hdecode : Utf8.decode (ascii "Fix it.") = some "Fix it." := by decide +kernel
      show GitRepositoryManager.decode python (ascii "Fix it.") = _
      rw [GitRepositoryManager.decode, hdecode]
  · rfl

theorem demo_discover (h : Lists (withFiles extra) names) : ∃ tasks skipped,
    (discover python ((commit (withFiles extra) h.plain).repository python) ()).1
        = .ok (tasks, skipped) ∧ ∀ task, task ∈ tasks ↔ task = demoTask := by
  obtain ⟨tasks, skipped, hdiscover⟩ := discover_returns h.names_eq fun filename hmem e he => by
    rw [h.tasks, List.mem_singleton] at hmem
    rw [hmem, demo_outcome h] at he
    cases he
  refine ⟨tasks, skipped, hdiscover, fun task => ?_⟩
  obtain ⟨names', hnames', -, htasks⟩ := discover_ok hdiscover
  obtain rfl := Except.ok.inj (h.names_eq.symm.trans hnames')
  rw [htasks, h.tasks]
  simp only [List.exists_mem_cons_iff, demo_outcome h, List.not_mem_nil, false_and, exists_false,
    or_false, Except.ok.injEq, Found.task.injEq]
  exact eq_comm

/-- The task is stored. -/
theorem demo_stored (h : Lists (withFiles extra) names) : ∃ v,
    Stored python gitSettings Unit (commit (withFiles extra) h.plain) demoTask v
      ∧ v.At source.repositoryUrl sha "d" := by
  obtain ⟨tasks, skipped, hdiscover, htasks⟩ := demo_discover h
  have hid : python.idText 5 = "5" := by decide +kernel
  have hgit := host_delivers h.plain hid h.reads
  have hstorable : ∀ task ∈ tasks, task.Storable python := fun task htask => by
    have hname : Varchar 250 demoTask.name := by decide +kernel
    have hmetadata : demoTask.metadata.storable python.recursionLimit = true := by decide +kernel
    have htime : (1 : ℤ) ≤ 300 ∧ (300 : ℤ) ≤ 86400 := by decide
    rw [(htasks task).mp htask]
    exact ⟨hname, ⟨"BUG_FIX", rfl, by decide⟩, show Varchar 50 "CODING" by decide,
      show Varchar 30 "MEDIUM" by decide, htime, hmetadata⟩
  obtain ⟨row, t, hsync, hversions⟩ := sync_stores none source_mem rfl hgit healthy hdiscover
    hstorable (by decide)
  have hmem : demoTask ∈ tasks := (htasks demoTask).mpr rfl
  obtain ⟨v, hv, hat⟩ := hversions demoTask hmem
  exact ⟨v, .intro ⟨rfl, rfl, rfl⟩ (history_run []) source_mem hgit hdiscover hmem hsync hv hat,
    hat⟩

variable {v : StoredVersion}

theorem demo_discovered (h : Lists (withFiles extra) names)
    (hat : v.At source.repositoryUrl sha "d") :
    Inputs.Discovered python ⟨"work", gitSettings.allowedHosts⟩ names v.toProblemVersion := by
  obtain ⟨hurl, hsha, hpath⟩ := hat
  refine ⟨?_, ?_, ?_, ?_⟩
  · rw [hsha]
    decide +kernel
  · rw [hurl]
    decide +kernel
  · rw [hpath]
    decide
  · rw [hpath]
    intro file _
    cases file with
    | task =>
        have hmem : "d/task.toml" ∈ taskFiles names := by
          rw [h.tasks]
          exact List.mem_singleton_self _
        exact (mem_taskFiles.mp hmem).1
    | instruction => exact h.required "instruction.md" (by decide)
    | dockerfile => exact h.required "environment/Dockerfile" (by decide)
    | test => exact h.required "tests/test.sh" (by decide)

/-- And a worker with the same git is provided with its commit. -/
theorem demo_provides (h : Lists (withFiles extra) names)
    (hat : v.At source.repositoryUrl sha "d") : Inputs.Provides python
      ⟨"work", gitSettings.allowedHosts⟩ (host (withFiles extra)) none v.toProblemVersion
      (commit (withFiles extra) h.plain) () := by
  have hempty : Utf8.decode [] = some "" := rfl
  have hdecode : Utf8.decode (ascii sha) = some sha := by decide +kernel
  have hstrip : DockerSandbox.strip sha = sha := by decide +kernel
  refine ⟨fun _ => True, (), (), (), rfl, ?_, .found ⟨rfl, hdecode, ?_⟩, trivial, ?_⟩
  · exact .cons rfl hempty (.cons rfl hempty (.cons rfl hempty (.cons rfl hempty
      (.cons rfl hempty (.cons rfl hempty .nil)))))
  · rw [hstrip, hat.2.1]
  · rw [hat.2.1]
    exact host_serves h.plain h.reads _ (by decide)

/-- A disk that takes everything. -/
def roomy : LocalDisk := ⟨none, fun _ => none, fun _ => none⟩

theorem roomy_takes : Inputs.LocalDisk.Takes roomy names := ⟨rfl, fun _ _ => rfl, fun _ _ => rfl⟩

/-- The preparation of the stored task. -/
def prepared (files : List (String × Bytes)) (v : StoredVersion) :
    Except SyncError (List (List Char)) × Bench Unit :=
  Inputs.prepareProblem python (host files) roomy none v.toProblemVersion "work"
    gitSettings.allowedHosts ⟨⟨(), []⟩, false, []⟩

/-- The task is stored, git provides the worker with the commit, the disk takes
its files, and the preparation raises. -/
def Refused (files : List (String × Bytes)) (names : List String) : Prop :=
  ∃ (h : Plain files) (v : StoredVersion), (commit files h).names python = .ok names
    ∧ Stored python gitSettings Unit (commit files h) demoTask v
    ∧ Inputs.Provides python ⟨"work", gitSettings.allowedHosts⟩ (host files) none
        v.toProblemVersion (commit files h) ()
    ∧ Inputs.LocalDisk.Takes roomy names
    ∧ ∃ e t, prepared files v = (.error e, t)

theorem lower_hosts : ∀ host ∈ gitSettings.allowedHosts,
    host.toList.map Char.toLower = host.toList := by decide

theorem demo_refused (h : Lists (withFiles extra) names) (htree : IsTree names)
    (hnot : ¬Inputs.Affordable (commit (withFiles extra) h.plain) "d" 0 names) :
    Refused (withFiles extra) names := by
  obtain ⟨v, hstored, hat⟩ := demo_stored h
  refine ⟨h.plain, v, h.names_eq, hstored, demo_provides h hat, roomy_takes, ?_⟩
  have hiff := Inputs.prepareProblem_iff [] lower_hosts (demo_discovered h hat) h.names_eq
    htree (demo_provides h hat) roomy_takes
  rw [show v.toProblemVersion.problemPath = "d" from hat.2.2] at hiff
  rcases hrun : prepared (withFiles extra) v with ⟨e | folder, t⟩
  · exact ⟨e, t, rfl⟩
  · exact absurd (hiff.mp ⟨folder, t, hrun⟩) hnot

end Demo

/-! A file of one byte more than a million, 51 files of a million bytes, and a
name that leads out of its folder. -/

def demoNames : List String :=
  ["d/environment/Dockerfile", "d/instruction.md", "d/task.toml", "d/tests/test.sh"]

theorem demo_reads : ∀ name ∈ demoNames, Reads python ((demoFiles.lookup name).getD []).length := by
  have hlength : ∀ name ∈ demoNames, ((demoFiles.lookup name).getD []).length = 0
      ∨ ((demoFiles.lookup name).getD []).length = 7
      ∨ (demoFiles.lookup name).getD [] = ascii bugfixToml := by decide +kernel
  intro name hname
  rcases hlength name hname with hzero | hseven | htoml
  · rw [hzero]
    exact ⟨"0", by decide +kernel, by decide +kernel⟩
  · rw [hseven]
    exact ⟨"7", by decide +kernel, by decide +kernel⟩
  · rw [htoml]
    exact reads_bugfixToml

/-- Files with one content. -/
def blobs (names : List String) (n : ℕ) : List (String × Bytes) :=
  names.map fun name => (name, List.replicate n 0)

theorem lookup_blobs {names : List String} {n : ℕ} {name : String} (h : name ∈ names) :
    (blobs names n).lookup name = some (List.replicate n 0) := by
  induction names with
  | nil => cases h
  | cons first rest ih =>
      rw [blobs, List.map_cons, List.lookup_cons]
      split
      · rfl
      · rename_i hne
        rcases List.mem_cons.mp h with rfl | h
        · simp at hne
        · exact ih h

theorem lookup_demo {extra : List (String × Bytes)} {name : String} (h : name ∈ demoNames) :
    (withFiles extra).lookup name = demoFiles.lookup name := by
  have hsome : ∀ name ∈ demoNames, (demoFiles.lookup name).isSome = true := by decide +kernel
  obtain ⟨content, hcontent⟩ := Option.isSome_iff_exists.mp (hsome name h)
  rw [withFiles, List.lookup_append, hcontent, Option.some_or]

theorem lookup_extra {extra : List (String × Bytes)} {name : String} (h : name ∉ demoNames) :
    (withFiles extra).lookup name = extra.lookup name := by
  have hnone : demoFiles.lookup name = none := by
    refine List.lookup_eq_none_iff.mpr fun file hfile => ?_
    have hmem : file.1 ∈ demoNames := List.mem_map_of_mem (f := Prod.fst) hfile
    simpa using fun heq : name = file.1 => h (heq ▸ hmem)
  rw [withFiles, List.lookup_append, hnone, Option.none_or]

theorem lists_blobs {names : List String} {n : ℕ} (hplain : Plain (withFiles (blobs names n)))
    (hlisted : namesIn (listing (withFiles (blobs names n))) = .ok (demoNames ++ names))
    (htasks : taskFiles (demoNames ++ names) = ["d/task.toml"])
    (hnew : ∀ name ∈ names, name ∉ demoNames) (hread : Reads python n) :
    Lists (withFiles (blobs names n)) (demoNames ++ names) where
  plain := hplain
  listed := hlisted
  tasks := htasks
  required p hp := by
    have hall : ∀ p ∈ ["instruction.md", "tests/test.sh", "environment/Dockerfile"],
        "d" ++ "/" ++ p ∈ demoNames := by decide
    exact List.mem_append_left _ (hall p hp)
  sizes name hname := by
    rcases List.mem_append.mp hname with hname | hname
    · rw [lookup_demo hname]
      exact demo_reads name hname
    · rw [lookup_extra (hnew name hname), lookup_blobs hname, Option.getD_some,
        List.length_replicate]
      exact hread

theorem blob_length {names : List String} {n : ℕ} (hplain : Plain (withFiles (blobs names n)))
    (hnew : ∀ name ∈ names, name ∉ demoNames) {name : String} (hname : name ∈ names) :
    ((commit (withFiles (blobs names n)) hplain).content name).length = n := by
  show (((withFiles (blobs names n)).lookup name).getD []).length = n
  rw [lookup_extra (hnew name hname), lookup_blobs hname, Option.getD_some, List.length_replicate]

/-- One file over the limit. -/
def large : List (String × Bytes) := withFiles (blobs ["d/data"] 1000001)

theorem large_refused : Refused large (demoNames ++ ["d/data"]) := by
  have hplain : Plain large := ⟨forall_of_text (by decide +kernel), by decide +kernel⟩
  have hnew : ∀ name ∈ ["d/data"], name ∉ demoNames := by decide
  have hlists : Lists large (demoNames ++ ["d/data"]) :=
    lists_blobs hplain (by decide +kernel) (by decide +kernel) hnew
      ⟨"1000001", by decide +kernel, by decide +kernel⟩
  refine demo_refused hlists ⟨by decide +kernel, by decide +kernel⟩ fun h => ?_
  have hlarge := h.1 "d/data" (by decide) (by decide)
  rw [blob_length hplain hnew (List.mem_singleton_self _)] at hlarge
  omega

/-- Files over the budget. -/
def manyNames : List String :=
  (List.range 51).map fun i => String.ofList ['d', '/', Char.ofNat (65 + i)]

def many : List (String × Bytes) := withFiles (blobs manyNames 1000000)

theorem many_refused : Refused many (demoNames ++ manyNames) := by
  have hplain : Plain many := ⟨forall_of_text (by decide +kernel), by decide +kernel⟩
  have hnew : ∀ name ∈ manyNames, name ∉ demoNames := by decide +kernel
  have hlists : Lists many (demoNames ++ manyNames) :=
    lists_blobs hplain (by decide +kernel) (by decide +kernel) hnew
      ⟨"1000000", by decide +kernel, by decide +kernel⟩
  refine demo_refused hlists ⟨by decide +kernel, by decide +kernel⟩ fun h => ?_
  have hall : manyNames.filter (fun name => decide (InTask "d" name)) = manyNames :=
    List.filter_eq_self.mpr (by decide +kernel)
  have hmap : manyNames.map (fun name => ((commit many hplain).content name).length)
      = List.replicate 51 1000000 := by
    refine List.eq_replicate_iff.mpr ⟨by rw [List.length_map]; rfl, fun n hn => ?_⟩
    obtain ⟨name, hname, rfl⟩ := List.mem_map.mp hn
    exact blob_length hplain hnew hname
  have hsum : (List.replicate 51 1000000).sum = 51000000 := by decide
  have htotal : 0 + taskBytes (commit many hplain) "d" (demoNames ++ manyNames) ≤ 50000000 := h.2
  rw [taskBytes, List.filter_append, hall, List.map_append, List.sum_append, hmap, hsum] at htotal
  omega

/-- A name that leads out of its folder. -/
def dotted : List (String × Bytes) := withFiles (blobs ["d/../data"] 0)

theorem dotted_refused : Refused dotted (demoNames ++ ["d/../data"]) := by
  have hplain : Plain dotted := ⟨forall_of_text (by decide +kernel), by decide +kernel⟩
  have hlists : Lists dotted (demoNames ++ ["d/../data"]) :=
    lists_blobs hplain (by decide +kernel) (by decide +kernel) (by decide)
      ⟨"0", by decide +kernel, by decide +kernel⟩
  obtain ⟨v, hstored, hat⟩ := demo_stored hlists
  obtain ⟨cache, I, s, -, -, -, heq⟩ := Inputs.prepareProblem_eq [] lower_hosts
    (demo_discovered hlists hat) hlists.names_eq (show roomy.mkdir = none from rfl)
    (demo_provides hlists hat)
  have hsorted : (demoNames ++ ["d/../data"]).insertionSort (· ≤ ·) = "d/../data" :: demoNames := by
    decide +kernel
  refine ⟨hplain, v, hlists.names_eq, hstored, demo_provides hlists hat, roomy_takes,
    Inputs.inputError .unsafePath, s, heq.trans ?_⟩
  rw [hsorted, show v.toProblemVersion.problemPath = "d" from hat.2.2]
  refine Program.bind_error (Program.bind_error ?_)
  unfold Inputs.extract
  refine (congrFun (if_pos (by decide)) _).trans ?_
  exact congrFun (if_pos (by decide)) _

/-- A file within the limit. -/
def modest : List (String × Bytes) := withFiles (blobs ["d/data"] 7)

end Sample

theorem stored_prepared_modest : ∃ (h : Sample.Plain Sample.modest) (v : StoredVersion),
    Stored Sample.python Sample.gitSettings Unit (Sample.commit Sample.modest h) Sample.demoTask v
      ∧ ∃ folder t, Sample.prepared Sample.modest v = (.ok folder, t) := by
  have hplain : Sample.Plain Sample.modest :=
    ⟨forall_of_text (by decide +kernel), by decide +kernel⟩
  have hlists : Sample.Lists Sample.modest (Sample.demoNames ++ ["d/data"]) :=
    Sample.lists_blobs hplain (by decide +kernel) (by decide +kernel) (by decide)
      ⟨"7", by decide +kernel, by decide +kernel⟩
  have htree : IsTree (Sample.demoNames ++ ["d/data"]) := ⟨by decide +kernel, by decide +kernel⟩
  obtain ⟨v, hstored, hat⟩ := Sample.demo_stored hlists
  have hsmall : ∀ name ∈ Sample.demoNames ++ ["d/data"],
      ((Sample.modest.lookup name).getD []).length ≤ 31 := by decide +kernel
  refine ⟨hplain, v, hstored, (stored_prepared [] hstored Sample.lower_hosts hlists.names_eq htree
    (Sample.demo_provides hlists hat) Sample.roomy_takes).mpr ⟨fun name hname _ => ?_, ?_⟩⟩
  · exact (hsmall name hname).trans (by decide)
  · show (((Sample.demoNames ++ ["d/data"]).filter fun name => decide (InTask "d" name)).map
      fun name => ((Sample.modest.lookup name).getD []).length).sum ≤ 50000000
    decide +kernel

/-- Three stored tasks that no worker can prepare. -/
theorem stored_refused : Sample.Refused Sample.large (Sample.demoNames ++ ["d/data"])
    ∧ Sample.Refused Sample.many (Sample.demoNames ++ Sample.manyNames)
    ∧ Sample.Refused Sample.dotted (Sample.demoNames ++ ["d/../data"]) :=
  ⟨Sample.large_refused, Sample.many_refused, Sample.dotted_refused⟩

end AgentBenchX
