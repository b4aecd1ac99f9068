import AgentBenchX.Sync

/-!
# Commits that git serves

A `Commit` is what git shows of a commit: the listing of its tree and the
bytes of its files. `Serves` says of a machine that its git shows that
commit, whatever the machine remembers in between; then the repository
manager reads the commit (`repository_agrees`), and discovery finds in it
what it finds in the commit itself (`discover_agrees`).
-/

namespace AgentBenchX

open GitRepositoryManager (command decode blobNames)

structure Commit where
  /-- The output of `ls-tree -rz`. -/
  listing : Bytes
  content : String → Bytes
  /-- Every line of the listing has a tab before its name. -/
  tabs : ∀ text, Utf8.decode listing = some text →
    ∀ e ∈ text.toList.splitOn (Char.ofNat 0), e ≠ [] → '\t' ∈ e

namespace Commit

variable (py : Python) (c : Commit)

/-- The names of the regular files. -/
def names : Except SyncError (List String) := do
  let listing ← decode py c.listing
  blobNames listing

/-- The commit, read without a machine. -/
def repository : Repository Unit where
  files := Program.lift (names py c)
  read name :=
    if (c.content name).length > 1000000 then
      Program.raise (.sourceError "Metadata exceeds 1 MB")
    else return c.content name

end Commit

/-- Git shows the commit, from all states with `I`, which it keeps. -/
structure GitHost.Serves {γ : Type} (py : Python) (git : GitHost γ) (path sha : String) (c : Commit)
    (I : γ → Prop) : Prop where
  listing : ∀ g, I g → ∃ err g', git.spawn g (command ["ls-tree", "-rz", sha]) (some path)
    = (.exited 0 c.listing err, g') ∧ I g'
  /-- The size is printed as Python reads numbers. -/
  size : ∀ g names name, I g → c.names py = .ok names → name ∈ names → ∃ out err g' text,
    git.spawn g (command ["cat-file", "-s", sha ++ ":" ++ name]) (some path)
        = (.exited 0 out err, g') ∧ I g'
      ∧ Utf8.decode out = some text ∧ py.int (DockerSandbox.strip text)
        = .ok (c.content name).length
  blob : ∀ g names name, I g → c.names py = .ok names → name ∈ names → ∃ err g',
    git.spawn g (command ["show", sha ++ ":" ++ name]) (some path)
      = (.exited 0 (c.content name) err, g') ∧ I g'

namespace GitRepositoryManager

variable {γ : Type} {py : Python} {git : GitHost γ} {args : List String} {cwd : Option String}
  {s : Cache γ} {g : γ} {out err : Bytes} {text : String}

/-- A child that exits normally. -/
theorem run_exited (h : git.spawn s.host (command args) cwd = (.exited 0 out err, g)) :
    run py git args cwd s = (.ok out, { s with host := g }) := by
  simp only [run, h]
  rfl

theorem runText_exited (h : git.spawn s.host (command args) cwd = (.exited 0 out err, g))
    (htext : Utf8.decode out = some text) :
    runText py git args cwd s = (.ok (DockerSandbox.strip text), { s with host := g }) := by
  unfold runText
  rw [Program.bind_ok (run_exited h), Program.bind_ok (a := text)]
  · rfl
  · rw [Program.lift_apply, decode, htext]

/-- Only a child that exits with zero is returned from. -/
theorem run_ok {t : Cache γ} (h : run py git args cwd s = (.ok out, t)) :
    ∃ err, git.spawn s.host (command args) cwd = (.exited 0 out err, t.host) := by
  rcases hspawn : git.spawn s.host (command args) cwd with ⟨ended, g⟩
  simp only [run, hspawn, Prod.mk.injEq] at h
  obtain ⟨hended, rfl⟩ := h
  cases ended with
  | exited code stdout stderr =>
      rw [completed] at hended
      split at hended
      · rename_i hcode
        exact ⟨stderr, by rw [hcode, Except.ok.inj hended]⟩
      · cases hended
  | timedOut => cases hended
  | failed text => cases hended

end GitRepositoryManager

section Reading

variable {γ : Type} {py : Python} {git : GitHost γ} {path sha : String} {c : Commit} {I : γ → Prop}

theorem files_agrees (h : git.Serves py path sha c I) :
    Program.Agrees (fun s : Cache γ => I s.host) (GitRepositoryManager.files py git path sha)
      (c.repository py).files := by
  intro s hs
  obtain ⟨err, g', hspawn, hI⟩ := h.listing s.host hs
  refine ⟨{ s with host := g' }, ?_, hI⟩
  unfold GitRepositoryManager.files
  rw [Program.bind_ok (GitRepositoryManager.run_exited hspawn)]
  show _ = (c.names py, _)
  unfold Commit.names
  cases hdecode : decode py c.listing with
  | error e => exact Program.bind_error (by rfl)
  | ok listing => exact Program.bind_ok (by rfl)

theorem read_agrees (h : git.Serves py path sha c I) {names : List String}
    (hnames : c.names py = .ok names) {name : String} (hname : name ∈ names) :
    Program.Agrees (fun s : Cache γ => I s.host) (GitRepositoryManager.read py git path sha name)
      ((c.repository py).read name) := by
  intro s hs
  obtain ⟨out, err, g₁, text, hsize, hI, htext, hint⟩ := h.size s.host names name hs hnames hname
  have hint' : (Program.lift ((py.int (DockerSandbox.strip text)).mapError .valueError) :
      SourceProgram γ ℤ) { s with host := g₁ } = (.ok ↑(c.content name).length,
        { s with host := g₁ }) := by
    rw [hint]
    rfl
  unfold GitRepositoryManager.read
  rw [Program.bind_ok (GitRepositoryManager.runText_exited hsize htext), Program.bind_ok hint']
  by_cases hlarge : (c.content name).length > 1000000
  · refine ⟨{ s with host := g₁ }, ?_, hI⟩
    rw [if_pos (by exact_mod_cast hlarge), Commit.repository]
    dsimp only
    rw [if_pos hlarge]
    rfl
  · obtain ⟨err, g₂, hblob, hI⟩ := h.blob g₁ names name hI hnames hname
    refine ⟨{ s with host := g₂ }, ?_, hI⟩
    rw [if_neg (by exact_mod_cast hlarge), Commit.repository]
    dsimp only
    rw [if_neg hlarge]
    exact GitRepositoryManager.run_exited hblob

end Reading

/-! ## Discovery -/

namespace ProblemDiscoveryService

variable {σ : Type} {py : Python} {repo : Repository σ} {repo' : Repository Unit} {I : σ → Prop}
  {files : List String}

open Program (Agrees)

/-- The file with the instruction is one of those required. -/
theorem instruction_mem {folder : String}
    (h : ¬(["instruction.md", "tests/test.sh", "environment/Dockerfile"].any fun p =>
      decide (folder ++ "/" ++ p ∉ files)) = true) : folder ++ "/instruction.md" ∈ files := by
  have hslash : folder ++ "/instruction.md" = folder ++ "/" ++ "instruction.md" := by
    rw [String.append_assoc]
    rfl
  rw [hslash]
  by_contra hmem
  exact h (List.any_eq_true.mpr ⟨"instruction.md", List.mem_cons_self .., decide_eq_true hmem⟩)

/-- Discovery reads only files of the commit. -/
theorem examine_agrees (hread : ∀ name ∈ files, Agrees I (repo.read name) (repo'.read name))
    {folder filename : String} (hmem : filename ∈ files) :
    Agrees I (examine py repo files folder filename) (examine py repo' files folder filename) := by
  unfold examine
  refine (hread filename hmem).bind fun content _ => Agrees.lift.bind fun text _ =>
    Agrees.lift.bind fun raw _ => ?_
  split
  · refine Agrees.lift.bind fun ⟨category, tags⟩ _ => ?_
    dsimp only
    split
    · exact Agrees.pure
    · split
      · exact Agrees.raise
      · rename_i hrequired
        refine Agrees.lift.bind fun ⟨normalized, kind⟩ _ => Agrees.lift.bind fun difficulty _ =>
          Agrees.lift.bind fun timeout _ => Agrees.bind (hread _ ?_) fun instruction _ =>
          Agrees.lift.bind fun text _ => Agrees.lift.bind fun task _ => Agrees.pure
        exact instruction_mem hrequired
  · exact Agrees.raise

theorem inspect_agrees (hread : ∀ name ∈ files, Agrees I (repo.read name) (repo'.read name))
    {filename : String} (hmem : filename ∈ files) :
    Agrees I (inspect py repo files filename) (inspect py repo' files filename) := by
  refine (examine_agrees hread hmem).handle fun e => ?_
  split
  · exact Agrees.pure
  · exact Agrees.raise

theorem inspectAll_agrees (hread : ∀ name ∈ files, Agrees I (repo.read name) (repo'.read name))
    {filenames : List String} (hmem : ∀ name ∈ filenames, name ∈ files) :
    Agrees I (inspectAll py repo files filenames) (inspectAll py repo' files filenames) := by
  induction filenames with
  | nil => exact Agrees.pure
  | cons filename rest ih =>
      refine (inspect_agrees hread (hmem filename (List.mem_cons_self ..))).bind fun found _ =>
        (ih fun name hname => hmem name (List.mem_cons_of_mem _ hname)).bind fun others _ => ?_
      exact Agrees.pure

theorem mem_taskFiles {filename : String} :
    filename ∈ taskFiles files ↔ filename ∈ files ∧ "/task.toml".toList <:+ filename.toList := by
  rw [taskFiles, List.mem_insertionSort, List.mem_filter, decide_eq_true_iff]

/-- Discovery in a commit that git serves is discovery in the commit. -/
theorem discover_agrees {γ : Type} {git : GitHost γ} {path sha : String} {c : Commit}
    {J : γ → Prop} (h : git.Serves py path sha c J) :
    Agrees (fun s : Cache γ => J s.host)
      (discover py (GitRepositoryManager.repository py git path sha))
      (discover py (c.repository py)) := by
  unfold discover
  refine (files_agrees h).bind fun files hfiles => Agrees.bind ?_ fun found _ => Agrees.pure
  exact inspectAll_agrees (fun name hname => read_agrees h hfiles hname)
    fun name hname => (mem_taskFiles.mp hname).1

end ProblemDiscoveryService

/-! ## Synchronization -/

namespace ProblemSourceManager

variable {γ : Type} {py : Python} {settings : GitSettings} {git : GitHost γ}
  {token : Option String} {source : ProblemSource} {cache : Cache γ} {path branch sha : String}
  {c : Commit}

/-- The git commands of a synchronization succeed, and git shows the commit
`c` under the name `sha` of `branch`. -/
def Delivers (py : Python) (settings : GitSettings) (git : GitHost γ) (token : Option String)
    (source : ProblemSource) (cache : Cache γ) (path branch sha : String) (c : Commit) : Prop :=
  ∃ (I : γ → Prop) (cache₁ cache₂ cache₃ : Cache γ),
    fetchOrClone py settings git token source cache = (.ok path, cache₁)
      ∧ branchOf py git source path cache₁ = (.ok branch, cache₂)
      ∧ GitRepositoryManager.checkout py git path branch cache₂ = (.ok sha, cache₃)
      ∧ I cache₃.host ∧ git.Serves py path sha c I
      ∧ ∀ s : Cache γ, I s.host → ∃ t, GitRepositoryManager.pin py git path sha s = (.ok (), t)

/-- Then the first phase comes to what discovery makes of the commit. -/
theorem acquire_delivers (h : Delivers py settings git token source cache path branch sha c) :
    ∃ cache', acquire py settings git token source cache
      = ((ProblemDiscoveryService.discover py (c.repository py) ()).1.map
          fun found => (branch, sha, found.1, found.2), cache') := by
  obtain ⟨I, cache₁, cache₂, cache₃, hfetch, hbranch, hcheckout, hI, hserves, hpin⟩ := h
  obtain ⟨cache₄, hdiscover, hI⟩ :=
    ProblemDiscoveryService.discover_agrees hserves cache₃ hI
  unfold acquire
  rw [Program.bind_ok hfetch, Program.bind_ok hbranch, Program.bind_ok hcheckout]
  rcases hfound : (ProblemDiscoveryService.discover py (c.repository py) ()).1 with
    e | ⟨tasks, skipped⟩ <;> rw [hfound] at hdiscover
  · exact ⟨cache₄, Program.bind_error hdiscover⟩
  · obtain ⟨cache₅, hpinned⟩ := hpin cache₄ hI
    refine ⟨cache₅, ?_⟩
    rw [Program.bind_ok hdiscover]
    exact Program.bind_ok hpinned

end ProblemSourceManager

/-! ### A commit -/

namespace Sample

def sha : String := "0123456789abcdef0123456789abcdef01234567"

/-- A commit of files with plain names. -/
def lines (files : List (String × Bytes)) : Bytes :=
  files.flatMap fun f =>
    ascii "100644 blob 89abcdef\t" ++ ascii f.1 ++ [0]

/-- The listing as text. -/
def listing (files : List (String × Bytes)) : List Char :=
  files.flatMap fun f => "100644 blob 89abcdef\t".toList ++ f.1.toList ++ [Char.ofNat 0]

theorem lines_eq (files : List (String × Bytes)) :
    lines files = (listing files).map fun c => UInt8.ofNat c.toNat := by
  rw [lines, listing, List.map_flatMap]
  refine congrArg (List.flatMap · files) (funext fun f => ?_)
  rw [List.map_append, List.map_append]
  rfl

/-- Files with plain names. -/
structure Plain (files : List (String × Bytes)) : Prop where
  ascii : ∀ c ∈ listing files, c.toNat < 128
  tabs : ∀ e ∈ (listing files).splitOn (Char.ofNat 0), e ≠ [] → '\t' ∈ e

theorem Plain.decode {files : List (String × Bytes)} (h : Plain files) :
    Utf8.decode (lines files) = some (String.ofList (listing files)) := by
  rw [lines_eq, Utf8.decode_ascii h.ascii]

def commit (files : List (String × Bytes)) (h : Plain files) : Commit where
  listing := lines files
  content name := (files.lookup name).getD []
  tabs text htext := by
    rw [h.decode] at htext
    rw [← Option.some.inj htext, String.toList_ofList]
    exact h.tabs

/-- The names in a listing that is given by its characters. -/
def namesIn (listing : List Char) : Except SyncError (List String) := do
  let entries := (listing.splitOn (Char.ofNat 0)).filter fun e =>
    decide ("100644 blob".toList <+: e ∨ "100755 blob".toList <+: e)
  let names ← entries.mapM fun e =>
    if '\t' ∈ e then .ok (String.ofList (Url.partition '\t' e).2)
    else .error (.other "IndexError" "list index out of range")
  return names.dedup

theorem blobNames_ofList (listing : List Char) :
    blobNames (String.ofList listing) = namesIn listing := by
  have hchars : (String.ofList listing).toList = listing := String.toList_ofList
  unfold blobNames namesIn
  rw [hchars]

theorem commit_names {py : Python} {files : List (String × Bytes)} (h : Plain files) :
    (commit files h).names py = namesIn (listing files) := by
  have hdecode : GitRepositoryManager.decode py (lines files)
      = .ok (String.ofList (listing files)) := by
    rw [GitRepositoryManager.decode, h.decode]
  exact (bind_of_ok hdecode).trans (blobNames_ofList _)

def decimal (n : ℕ) : Bytes := (Nat.toDigits 10 n).map fun c => UInt8.ofNat c.toNat

/-- Git on a machine with that commit as the head of `main`. -/
def host (files : List (String × Bytes)) : GitHost Unit where
  pathExists _ _ := true
  mkdir _ _ := (.ok (), ())
  spawn _ args _ :=
    let content (object : String) :=
      (files.lookup (String.ofList (object.toList.drop 41))).getD []
    let out := match args.drop 7 with
      | "symbolic-ref" :: _ => ascii "main\n"
      | "rev-parse" :: _ => ascii sha
      | "ls-tree" :: _ => lines files
      | ["cat-file", "-s", object] => decimal (content object).length
      | ["show", object] => content object
      | _ => []
    (.exited 0 out [], ())

/-- The files of a task. -/
def demoFiles : List (String × Bytes) :=
  [("d/environment/Dockerfile", []), ("d/instruction.md", ascii "Fix it."),
    ("d/task.toml", ascii bugfixToml), ("d/tests/test.sh", [])]

/-- Python reads the number the way git prints it. -/
def Reads (py : Python) (n : ℕ) : Prop :=
  ∃ text, Utf8.decode (decimal n) = some text ∧ py.int (DockerSandbox.strip text) = .ok n

theorem reads_bugfixToml : Reads python (ascii bugfixToml).length :=
  ⟨"31", by decide +kernel, by decide +kernel⟩

/-- Git serves the commit, under any name. -/
theorem host_serves {py : Python} {files : List (String × Bytes)} (h : Plain files)
    (hsize : ∀ names, (commit files h).names py = .ok names → ∀ name ∈ names,
      Reads py ((commit files h).content name).length) (path : String) {sha : String}
    (hsha : sha.toList.length = 40) :
    (host files).Serves py path sha (commit files h) fun _ => True := by
  have hlength : (sha ++ ":").toList.length = 41 := by
    rw [String.toList_append, List.length_append, hsha]
    rfl
  have hname : ∀ name : String, String.ofList ((sha ++ ":" ++ name).toList.drop 41) = name :=
    fun name => by
      rw [String.toList_append, List.drop_left' hlength, String.ofList_toList]
  refine ⟨fun g _ => ⟨[], g, rfl, trivial⟩, fun g names name _ hnames hmem => ?_,
    fun g names name _ hnames hmem => ⟨[], g, ?_, trivial⟩⟩
  · obtain ⟨text, htext, hint⟩ := hsize names hnames name hmem
    refine ⟨_, [], g, text, ?_, trivial, htext, hint⟩
    show (Completed.exited 0 (decimal ((files.lookup
      (String.ofList ((sha ++ ":" ++ name).toList.drop 41))).getD []).length) [], ()) = _
    rw [hname]
    rfl
  · show (Completed.exited 0 ((files.lookup
      (String.ofList ((sha ++ ":" ++ name).toList.drop 41))).getD []) [], ()) = _
    rw [hname]
    rfl

/-- And a synchronization of the sample source gets it. -/
theorem host_delivers {py : Python} {files : List (String × Bytes)} (h : Plain files)
    (hid : py.idText 5 = "5")
    (hsize : ∀ names, (commit files h).names py = .ok names → ∀ name ∈ names,
      Reads py ((commit files h).content name).length) :
    ProblemSourceManager.Delivers py gitSettings (host files) none source sources.cache
      "storage/problem_sources/5/repository" "main" sha (commit files h) := by
  have hpath : GitRepositoryManager.path py gitSettings 5
      = "storage/problem_sources/5/repository" := by
    rw [GitRepositoryManager.path, hid]
    decide
  have htext (args : List String) (cwd : Option String) (out : Bytes) {text : String}
      (hspawn : (host files).spawn () (command args) cwd = (.exited 0 out [], ()))
      (hdecode : Utf8.decode out = some text) :
      GitRepositoryManager.runText py (host files) args cwd sources.cache
        = (.ok (DockerSandbox.strip text), sources.cache) :=
    GitRepositoryManager.runText_exited hspawn hdecode
  refine ⟨fun _ => True, sources.cache, sources.cache, sources.cache, ?_, ?_, ?_, trivial,
    host_serves h hsize _ (by decide), fun s _ => ⟨s, ?_⟩⟩
  · unfold ProblemSourceManager.fetchOrClone
    rw [show source.id = 5 from rfl, hpath, Program.bind_ok (a := sources.cache) (by rfl)]
    refine (congrFun (if_pos rfl) _).trans (Program.bind_ok (a := ()) (t := sources.cache) ?_)
    exact Program.bind_ok (htext _ _ [] rfl rfl)
  · have hmain : Utf8.decode (ascii "main\n") = some "main\n" := by decide +kernel
    have hstrip : DockerSandbox.strip "main\n" = "main" := by decide +kernel
    show GitRepositoryManager.getBranch py (host files) _ sources.cache = _
    rw [← hstrip]
    exact htext _ _ _ rfl hmain
  · have hsha : Utf8.decode (ascii sha) = some sha := by decide +kernel
    have hstrip : DockerSandbox.strip sha = sha := by decide +kernel
    have hrev := htext ["rev-parse", "--verify", "refs/heads/" ++ "main" ++ "^\x7bcommit\x7d"]
      (some "storage/problem_sources/5/repository") (ascii sha) rfl hsha
    unfold GitRepositoryManager.checkout
    rw [if_pos (by decide +kernel), GitRepositoryManager.getCurrentCommit,
      Program.bind_ok hrev, hstrip, if_pos (by decide +kernel)]
    rfl
  · exact Program.bind_ok (GitRepositoryManager.runText_exited rfl rfl)

end Sample

end AgentBenchX
