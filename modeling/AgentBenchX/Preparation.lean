import AgentBenchX.Inputs
import AgentBenchX.Commits
import AgentBenchX.UrlGrammar

/-!
# Preparing a problem

What `prepare_problem` comes to when git and the disk of the worker work.
The rewriting of an SSH URL does not lead out of the allowed hosts
(`validateUrl_httpsUrl`), and in a tree as git writes it every name below
the folder of a task is a name in the workspace. So what is left are the
two budgets of the transfer (`prepareProblem_iff`).
-/

namespace AgentBenchX

open GitRepositoryManager (command)

/-! ## URLs -/

namespace Inputs

variable {py : Python} {settings : GitSettings} {url : String}

/-- **The rewritten URL passes the check again**, if the hosts are in lower
case. -/
theorem validateUrl_httpsUrl
    (hlower : ∀ host ∈ settings.allowedHosts, host.toList.map Char.toLower = host.toList)
    (h : GitRepositoryManager.validateUrl py settings url = .ok url) :
    GitRepositoryManager.validateUrl py settings (httpsUrl url) = .ok (httpsUrl url) := by
  unfold httpsUrl
  cases hssh : sshMatch url.toList with
  | none => exact h
  | some groups =>
      obtain ⟨host, path⟩ := groups
      dsimp only
      obtain ⟨hhost, ⟨owner, repo, howner, hrepo, hpath⟩, -⟩ := sshMatch_eq_some.mp hssh
      have hallowed : String.ofList host ∈ settings.allowedHosts := by
        rcases validateUrl_eq_ok.mp h with ⟨host', path', hgroups, hmem⟩ | ⟨hnone, -⟩
        · obtain ⟨rfl, rfl⟩ := Prod.mk.inj (Option.some.inj (hssh.symm.trans hgroups))
          exact hmem
        · rw [hssh] at hnone
          cases hnone
      have hliteral : Literal host
          ("https://" ++ String.ofList host ++ "/" ++ String.ofList path).toList := by
        have hurl : ("https://" ++ String.ofList host ++ "/" ++ String.ofList path).toList
            = "https://".toList ++ (host ++ ("".toList
              ++ '/' :: (owner ++ '/' :: (repo ++ ".git".toList)))) := by
          simp only [String.toList_append, String.toList_ofList, List.append_assoc, hpath]
          rfl
        rw [hurl]
        exact .intro hhost howner hrepo (by decide) (by decide)
      obtain ⟨parsed, hsplit, hparts⟩ := hliteral.parts py.tables
      refine validateUrl_eq_ok.mpr (Or.inr ⟨hliteral.sshMatch, parsed, hsplit, (hparts _).mpr ?_⟩)
      have hlow := hlower _ hallowed
      rw [String.toList_ofList] at hlow
      rwa [hlow]

end Inputs

/-! ## The files of a task -/

/-- The files of a commit as git writes them: their components are names, and
no file is a folder. -/
structure IsTree (names : List String) : Prop where
  regular : ∀ name ∈ names, PurePath.Regular name.toList
  leaves : ∀ name ∈ names, ∀ other ∈ names, ¬name.toList ++ ['/'] <+: other.toList

/-- The part of a name below the folder. -/
def below (folder name : String) : List (List Char) :=
  PurePath.components (name.toList.drop (folder.toList ++ ['/']).length)

/-- A file the worker copies: below the folder, and no reference answer. -/
def InTask (folder name : String) : Prop :=
  folder.toList ++ ['/'] <+: name.toList ∧ (below folder name).head? ≠ some "solution".toList

instance (folder name : String) : Decidable (InTask folder name) :=
  inferInstanceAs (Decidable (_ ∧ _))

/-- The bytes of the files to copy. -/
def taskBytes (c : Commit) (folder : String) (names : List String) : ℕ :=
  ((names.filter fun name => decide (InTask folder name)).map fun name =>
    (c.content name).length).sum

section Names

variable {names : List String} {folder name other : String}

theorem below_eq {rest : List Char} (h : name.toList = folder.toList ++ '/' :: rest) :
    name.toList.drop (folder.toList ++ ['/']).length = rest := by
  rw [h, show folder.toList ++ '/' :: rest = folder.toList ++ ['/'] ++ rest by simp,
    List.drop_left]

/-- What follows the folder is a path of names. -/
theorem below_regular (hname : PurePath.Regular name.toList)
    (hbelow : folder.toList ++ ['/'] <+: name.toList) : ∃ rest,
      name.toList = folder.toList ++ '/' :: rest ∧ PurePath.Regular rest
        ∧ below folder name = PurePath.components rest := by
  obtain ⟨rest, hrest⟩ := hbelow
  have hsplit : name.toList = folder.toList ++ '/' :: rest := by
    rw [← hrest, List.append_assoc]
    rfl
  rw [hsplit] at hname
  exact ⟨rest, hsplit, (PurePath.regular_append.mp hname).2, by rw [below, below_eq hsplit]⟩

/-- No file of the task is in the way of another one. -/
theorem IsTree.apart (h : IsTree names) (hname : name ∈ names) (hother : other ∈ names)
    (hbelow : folder.toList ++ ['/'] <+: name.toList)
    (hbelow' : folder.toList ++ ['/'] <+: other.toList) :
    ¬(below folder name <+: below folder other ∧ below folder name ≠ below folder other) := by
  rintro ⟨hstart, hne⟩
  obtain ⟨rest, hrest, -, hcomponents⟩ := below_regular (h.regular name hname) hbelow
  obtain ⟨rest', hrest', -, hcomponents'⟩ := below_regular (h.regular other hother) hbelow'
  rw [hcomponents, hcomponents'] at hstart hne
  obtain ⟨tail, htail⟩ := PurePath.prefix_of_components hstart hne
  refine h.leaves name hname other hother ⟨tail, ?_⟩
  rw [hrest, hrest', ← htail]
  simp

end Names

/-! ## The copy -/

namespace Inputs

open PurePath (components Regular)

section Copy

variable {γ : Type} {py : Python} {git : GitHost γ} {disk : LocalDisk} {cache sha : String}
  {c : Commit} {I : γ → Prop} {names : List String} {folder name : String}
  {task : List (List Char)} {total : ℕ} {s : Bench γ}

theorem onCache_apply {α : Type} {x : SourceProgram γ α} {r : Except SyncError α} {t : Cache γ}
    (h : x s.cache = (r, t)) : onCache x s = (r, { s with cache := t }) := by
  rw [onCache, Program.focus, h]

/-- The workspace holds files of the task, and git shows the commit. -/
structure Holding (I : γ → Prop) (names : List String) (folder : String) (s : Bench γ) : Prop where
  git : I s.cache.host
  files : ∀ f ∈ s.files, ∃ name ∈ names,
    folder.toList ++ ['/'] <+: name.toList ∧ f.1 = below folder name

theorem extract_other (hname : PurePath.Regular name.toList) (h : ¬InTask folder name) :
    extract py git disk cache sha task (folder.toList ++ ['/']) total name s = (.ok total, s) := by
  unfold extract
  split
  · rename_i hbelow
    obtain ⟨rest, hsplit, hregular, hcomponents⟩ := below_regular hname hbelow
    have hhead : (components rest).head? = some "solution".toList := by
      rw [← hcomponents]
      by_contra hne
      exact h ⟨hbelow, hne⟩
    dsimp only
    rw [below_eq hsplit, hregular.parts, if_neg]
    · cases hparts : components rest with
      | nil => exact absurd hparts (PurePath.components_ne_nil rest)
      | cons first others =>
          rw [hparts] at hhead
          dsimp only
          rw [if_pos (Option.some.inj hhead)]
          rfl
    · rintro (hdots | habsolute)
      · exact hregular.not_dotdot hdots
      · exact hregular.not_absolute habsolute
  · rfl

/-- For a file of the task only the budgets are left to check. -/
theorem extract_task (hname : PurePath.Regular name.toList) (h : InTask folder name) :
    extract py git disk cache sha task (folder.toList ++ ['/']) total name = (do
      let data ← onCache (GitRepositoryManager.read py git cache sha name)
      if total + data.length > 50000000 then Program.raise (inputError .overBudget)
      else do
        makeParents disk name (below folder name)
        writeBytes disk name (below folder name) data
        return total + data.length) := by
  obtain ⟨hbelow, hhead⟩ := h
  obtain ⟨rest, hsplit, hregular, hcomponents⟩ := below_regular hname hbelow
  have hdots : ['.', '.'] ∉ components rest := fun hmem => (hregular _ hmem).2.2 rfl
  unfold extract
  rw [if_pos hbelow]
  dsimp only
  rw [below_eq hsplit, hregular.parts,
    if_neg (not_or.mpr ⟨hregular.not_dotdot, hregular.not_absolute⟩), hcomponents]
  rw [hcomponents] at hhead
  cases hparts : components rest with
  | nil => exact absurd hparts (PurePath.components_ne_nil rest)
  | cons first others =>
      rw [hparts] at hhead hdots
      dsimp only
      rw [if_neg fun heq => hhead (congrArg some heq), if_neg]
      rw [not_not, PurePath.resolve_append hdots]
      exact List.prefix_append _ _

/-- The disk takes the folder and the files. -/
structure LocalDisk.Takes (disk : LocalDisk) (names : List String) : Prop where
  mkdir : disk.mkdir = none
  parents : ∀ name ∈ names, disk.parents name = none
  write : ∀ name ∈ names, disk.write name = none

theorem makeParents_ok (hdisk : disk.parents name = none) {target : List (List Char)}
    (h : ∀ f ∈ s.files, ¬f.1 <+: target.dropLast) :
    makeParents disk name target s = (.ok (), s) := by
  unfold makeParents
  rw [hdisk]
  dsimp only
  rw [if_neg fun ⟨f, hf, hstart⟩ => h f hf hstart]

theorem writeBytes_ok (hdisk : disk.write name = none) {target : List (List Char)} {data : Bytes}
    (h : ∀ f ∈ s.files, ¬(target <+: f.1 ∧ target ≠ f.1)) : writeBytes disk name target data s
      = (.ok (), { s with files := (target, data) :: s.files }) := by
  unfold writeBytes
  rw [hdisk]
  dsimp only
  rw [if_neg fun ⟨f, hf, hstart⟩ => h f hf hstart]

/-- Git's answer to a read. -/
theorem onCache_read (hserves : git.Serves py cache sha c I) (hnames : c.names py = .ok names)
    (hname : name ∈ names) (hs : I s.cache.host) :
    ∃ t : Cache γ, I t.host ∧ onCache (GitRepositoryManager.read py git cache sha name) s
      = (if (c.content name).length > 1000000 then .error (.sourceError "Metadata exceeds 1 MB")
          else .ok (c.content name), { s with cache := t }) := by
  obtain ⟨t, hread, hI⟩ := read_agrees hserves hnames hname s.cache hs
  refine ⟨t, hI, onCache_apply (hread.trans ?_)⟩
  unfold Commit.repository
  dsimp only
  split <;> rfl

/-- A file within the budgets is copied. -/
theorem extract_copied (hserves : git.Serves py cache sha c I) (hnames : c.names py = .ok names)
    (hdisk : LocalDisk.Takes disk names) (htree : IsTree names) (hname : name ∈ names)
    (hin : InTask folder name) (hs : Holding I names folder s)
    (hsize : (c.content name).length ≤ 1000000)
    (htotal : total + (c.content name).length ≤ 50000000) :
    ∃ t, extract py git disk cache sha task (folder.toList ++ ['/']) total name s
        = (.ok (total + (c.content name).length), t)
      ∧ Holding I names folder t ∧ t.created = s.created
      ∧ t.files = (below folder name, c.content name) :: s.files := by
  obtain ⟨cache', hI, hread⟩ := onCache_read hserves hnames hname hs.git
  rw [if_neg (not_lt.mpr hsize)] at hread
  rw [extract_task (htree.regular name hname) hin, Program.bind_ok hread, if_neg
    (not_lt.mpr htotal)]
  let u : Bench γ := { s with cache := cache' }
  have hparents : makeParents disk name (below folder name) u = (.ok (), u) := by
    refine makeParents_ok (hdisk.parents name hname) fun f hf hstart => ?_
    obtain ⟨other, hother, hbelow, heq⟩ := hs.files f hf
    rw [heq] at hstart
    refine htree.apart hother hname hbelow hin.1
      ⟨hstart.trans (List.dropLast_prefix _), fun hsame => ?_⟩
    have hlength := hstart.length_le
    have hne : below folder name ≠ [] := PurePath.components_ne_nil _
    rw [hsame, List.length_dropLast] at hlength
    have := List.length_pos_iff.mpr hne
    omega
  have hwrite : writeBytes disk name (below folder name) (c.content name) u
      = (.ok (), { u with files := (below folder name, c.content name) :: u.files }) := by
    refine writeBytes_ok (hdisk.write name hname) fun f hf hstart => ?_
    obtain ⟨other, hother, hbelow, heq⟩ := hs.files f hf
    rw [heq] at hstart
    exact htree.apart hname hother hin.1 hbelow hstart
  refine ⟨{ u with files := (below folder name, c.content name) :: u.files }, ?_,
    ⟨hI, ?_⟩, rfl, rfl⟩
  · rw [Program.bind_ok hparents, Program.bind_ok hwrite]
    rfl
  · intro f hf
    rcases List.mem_cons.mp hf with rfl | hf
    · exact ⟨name, hname, hin.1, rfl⟩
    · exact hs.files f hf

/-- Any other one stops the preparation. -/
theorem extract_refused (hserves : git.Serves py cache sha c I) (hnames : c.names py = .ok names)
    (htree : IsTree names) (hname : name ∈ names) (hin : InTask folder name)
    (hs : I s.cache.host) (h : ¬((c.content name).length ≤ 1000000
      ∧ total + (c.content name).length ≤ 50000000)) :
    ∃ e t, extract py git disk cache sha task (folder.toList ++ ['/']) total name s
      = (.error e, t) := by
  obtain ⟨cache', -, hread⟩ := onCache_read hserves hnames hname hs
  rw [extract_task (htree.regular name hname) hin]
  split at hread
  · exact ⟨_, _, Program.bind_error hread⟩
  · rename_i hsize
    have htotal : total + (c.content name).length > 50000000 := by
      by_contra hle
      exact h ⟨not_lt.mp hsize, not_lt.mp hle⟩
    exact ⟨inputError .overBudget, _, by rw [Program.bind_ok hread, if_pos htotal]; rfl⟩

/-- The files of the task within the budgets of a transfer that has begun. -/
def Affordable (c : Commit) (folder : String) (total : ℕ) (names : List String) : Prop :=
  (∀ name ∈ names, InTask folder name → (c.content name).length ≤ 1000000)
    ∧ total + taskBytes c folder names ≤ 50000000

theorem affordable_cons_other {rest : List String} (h : ¬InTask folder name) :
    Affordable c folder total (name :: rest) ↔ Affordable c folder total rest := by
  rw [Affordable, Affordable, List.forall_mem_cons, taskBytes, taskBytes,
    List.filter_cons_of_neg (by simpa using h)]
  simp [h]

theorem affordable_cons {rest : List String} (h : InTask folder name) :
    Affordable c folder total (name :: rest) ↔ (c.content name).length ≤ 1000000
      ∧ Affordable c folder (total + (c.content name).length) rest := by
  rw [Affordable, Affordable, List.forall_mem_cons, taskBytes, taskBytes,
    List.filter_cons_of_pos (by simpa using h), List.map_cons, List.sum_cons, ← Nat.add_assoc]
  simp [h, and_assoc]

/-- The loop copies all files of the task, or stops at the first one that
exceeds a budget. -/
theorem extractAll_cases (hserves : git.Serves py cache sha c I) (hnames : c.names py = .ok names)
    (hdisk : LocalDisk.Takes disk names) (htree : IsTree names) (task : List (List Char))
    {rest : List String} (hrest : ∀ name ∈ rest, name ∈ names) (htotal : total ≤ 50000000)
    (hs : Holding I names folder s) :
    (Affordable c folder total rest ∧ ∃ n t,
      extractAll py git disk cache sha task (folder.toList ++ ['/']) total rest s = (.ok n, t)
        ∧ (∀ name ∈ rest, InTask folder name → (below folder name, c.content name) ∈ t.files)
        ∧ ∀ f ∈ s.files, f ∈ t.files)
      ∨ ¬Affordable c folder total rest ∧ ∃ e t,
        extractAll py git disk cache sha task (folder.toList ++ ['/']) total rest s
          = (.error e, t) := by
  induction rest generalizing total s with
  | nil => exact Or.inl ⟨⟨nofun, htotal⟩, total, s, rfl, nofun, fun _ hf => hf⟩
  | cons name rest ih =>
      obtain ⟨hname, hrest⟩ := List.forall_mem_cons.mp hrest
      rw [extractAll]
      by_cases hin : InTask folder name
      · rw [affordable_cons hin]
        by_cases hfits : (c.content name).length ≤ 1000000
            ∧ total + (c.content name).length ≤ 50000000
        · obtain ⟨t, hcopied, hholding, -, hfiles⟩ :=
            extract_copied hserves hnames hdisk htree hname hin hs hfits.1 hfits.2
          rw [Program.bind_ok hcopied]
          rcases ih hrest hfits.2 hholding with ⟨hall, n, u, hreturns, hmem, hkeep⟩
            | ⟨hnot, hraises⟩
          · refine Or.inl ⟨⟨hfits.1, hall⟩, n, u, hreturns, ?_, fun f hf =>
              hkeep f (hfiles ▸ List.mem_cons_of_mem _ hf)⟩
            refine List.forall_mem_cons.mpr ⟨fun _ => hkeep _ ?_, hmem⟩
            rw [hfiles]
            exact List.mem_cons_self ..
          · exact Or.inr ⟨fun h => hnot h.2, hraises⟩
        · obtain ⟨e, t, hrefused⟩ := extract_refused hserves hnames htree hname hin hs.git hfits
          refine Or.inr ⟨fun h => hfits ⟨h.1, ?_⟩, e, t, Program.bind_error hrefused⟩
          exact (Nat.le_add_right _ _).trans h.2.2
      · rw [affordable_cons_other hin, Program.bind_ok
          (extract_other (htree.regular name hname) hin)]
        rcases ih hrest htotal hs with ⟨hall, n, u, hreturns, hmem, hkeep⟩ | h
        · refine Or.inl ⟨hall, n, u, hreturns, ?_, hkeep⟩
          exact List.forall_mem_cons.mpr ⟨fun h => absurd h hin, hmem⟩
        · exact Or.inr h

/-- The order of the files does not matter. -/
theorem affordable_perm {names' : List String} (h : names.Perm names') :
    Affordable c folder total names ↔ Affordable c folder total names' := by
  have hbytes : taskBytes c folder names = taskBytes c folder names' :=
    ((h.filter _).map _).sum_eq
  rw [Affordable, Affordable, hbytes]
  simp only [h.mem_iff]

theorem checkRequired_ok {files : List RequiredFile}
    (h : ∀ file ∈ files, ∃ f ∈ s.files, f.1 = (purePath file.path).parts) :
    checkRequired files s = (.ok (), s) := by
  induction files with
  | nil => rfl
  | cons file rest ih =>
      obtain ⟨hfile, hrest⟩ := List.forall_mem_cons.mp h
      rw [checkRequired, Program.bind_ok (a := s) (by rfl), if_pos hfile]
      exact ih hrest

end Copy

/-! ## The clone -/

section Clone

variable {γ : Type}

/-- The commands succeed one after the other, with text as their output. -/
inductive Succeeds (git : GitHost γ) : γ → List (List String × Option String) → γ → Prop
  | nil {g : γ} : Succeeds git g [] g
  | cons {g g₁ g₂ : γ} {args : List String} {cwd : Option String} {out err : Bytes}
      {text : String} {rest : List (List String × Option String)} :
      git.spawn g (command args) cwd = (.exited 0 out err, g₁) → Utf8.decode out = some text →
      Succeeds git g₁ rest g₂ → Succeeds git g ((args, cwd) :: rest) g₂

/-- The commands of a clone. -/
def cloneCommands (path url : String) : List (List String × Option String) :=
  [(["ls-remote", url], none), (["config", "--list", "--show-origin"], none),
    (["init", "--bare", path], none), (["-C", path, "remote", "add", "origin", url], none),
    (["-C", path, "remote", "set-url", "origin", url], none),
    (["-C", path, "fetch", "origin", "+refs/heads/*:refs/heads/*"], none)]

variable {py : Python} {git : GitHost γ} {settings : GitSettings} {token : Option String}
  {id : Uid} {url sha cache : String} {g g₁ g₂ : γ} {log : List LogRecord}

theorem clone_returns (log : List LogRecord)
    (hvalid : GitRepositoryManager.validateUrl py settings url = .ok url)
    (hmkdir : git.mkdir g (GitRepositoryManager.parentPath py settings id) = (.ok (), g₁))
    (h : Succeeds git g₁ (cloneCommands (GitRepositoryManager.path py settings id)
      (GitRepositoryManager.cloneUrl token url)) g₂) :
    ∃ log', GitRepositoryManager.clone py settings git token id url ⟨g, log⟩
      = (.ok (GitRepositoryManager.path py settings id), ⟨g₂, log'⟩) := by
  have hdir : ∀ l, GitRepositoryManager.mkdir git (GitRepositoryManager.parentPath py settings id)
      ⟨g, l⟩ = (.ok (), ⟨g₁, l⟩) := fun l => by
    rw [GitRepositoryManager.mkdir, hmkdir]
    rfl
  unfold cloneCommands at h
  obtain _ | ⟨hls, hlstext, h⟩ := h
  obtain _ | ⟨hconfig, hconfigtext, h⟩ := h
  obtain _ | ⟨hinit, hinittext, h⟩ := h
  obtain _ | ⟨hadd, haddtext, h⟩ := h
  obtain _ | ⟨hset, hsettext, h⟩ := h
  obtain _ | ⟨hfetch, hfetchtext, h⟩ := h
  obtain _ | _ := h
  unfold GitRepositoryManager.clone
  rw [Program.bind_ok (a := ()) (by rfl), Program.bind_ok (a := url) (by rw [hvalid]; rfl),
    Program.bind_ok (hdir _), Program.bind_ok (a := ()) (by rfl),
    Program.bind_ok (GitRepositoryManager.runText_exited hls hlstext),
    Program.bind_ok (a := ()) (by rfl),
    Program.bind_ok (GitRepositoryManager.runText_exited hconfig hconfigtext),
    Program.bind_ok (a := ()) (by rfl),
    Program.bind_ok (GitRepositoryManager.runText_exited hinit hinittext),
    Program.bind_ok (GitRepositoryManager.runText_exited hadd haddtext),
    Program.bind_ok (GitRepositoryManager.runText_exited hset hsettext),
    Program.bind_ok (GitRepositoryManager.runText_exited hfetch hfetchtext)]
  exact ⟨_, rfl⟩

/-- `rev-parse` prints the commit. -/
inductive Parses (git : GitHost γ) (cache sha : String) : γ → γ → Prop
  | intro {g g₁ : γ} {out err : Bytes} {text : String} :
      git.spawn g (command ["rev-parse", "--verify", sha ++ "^\x7bcommit\x7d"]) (some cache)
        = (.exited 0 out err, g₁) →
      Utf8.decode out = some text → DockerSandbox.strip text = sha → Parses git cache sha g g₁

/-- The commit is in the clone, or can be fetched by its name. -/
inductive Resolves (git : GitHost γ) (cache sha : String) (g : γ) : γ → Prop
  | found {g₁ : γ} : Parses git cache sha g g₁ → Resolves git cache sha g g₁
  | fetched {g₁ g₂ g₃ : γ} {code : ℤ} {out err : Bytes} :
      git.spawn g (command ["rev-parse", "--verify", sha ++ "^\x7bcommit\x7d"]) (some cache)
        = (.exited code out err, g₁) → code ≠ 0 →
      Succeeds git g₁ [(["fetch", "origin", sha], some cache)] g₂ →
      Parses git cache sha g₂ g₃ → Resolves git cache sha g g₃

theorem getCurrentCommit_returns (hsha : GitRepositoryManager.isSha sha = true)
    (h : Parses git cache sha g g₁) :
    GitRepositoryManager.getCurrentCommit py git cache sha ⟨g, log⟩
      = (.ok sha, ⟨g₁, log⟩) := by
  obtain ⟨hspawn, htext, hstrip⟩ := h
  unfold GitRepositoryManager.getCurrentCommit
  rw [Program.bind_ok (GitRepositoryManager.runText_exited hspawn htext), hstrip, if_pos hsha]
  rfl

theorem resolveCommit_returns (hsha : GitRepositoryManager.isSha sha = true) {s : Bench γ}
    (h : Resolves git cache sha s.cache.host g₁) : resolveCommit py git cache sha s
      = (.ok sha, { s with cache := ⟨g₁, s.cache.log⟩ }) := by
  cases h with
  | found h =>
      unfold resolveCommit Program.handle
      rw [onCache_apply (getCurrentCommit_returns hsha h)]
  | @fetched g₂ g₃ _ code out err hspawn hcode hfetch hparses =>
      obtain _ | ⟨hfetch, hfetchtext, hnil⟩ := hfetch
      obtain _ | _ := hnil
      have hfirst : onCache (GitRepositoryManager.getCurrentCommit py git cache sha) s
          = (.error (.sourceError ("Git operation failed: " ++ GitRepositoryManager.lastChars 3000
            (DockerSandbox.strip (Utf8.decodeReplace err)))),
            { s with cache := ⟨g₂, s.cache.log⟩ }) := by
        refine onCache_apply (Program.bind_error (Program.bind_error ?_))
        simp only [GitRepositoryManager.run, hspawn, GitRepositoryManager.completed, if_neg hcode]
      unfold resolveCommit Program.handle
      rw [hfirst]
      refine (congrFun (if_pos trivial) _).trans ?_
      rw [Program.bind_ok (onCache_apply (GitRepositoryManager.runText_exited hfetch hfetchtext))]
      exact onCache_apply (getCurrentCommit_returns hsha hparses)

/-- Git works on the worker, and has the commit. -/
structure Provides (py : Python) (settings : GitSettings) (git : GitHost γ) (token : Option String)
    (version : ProblemVersion) (c : Commit) (g : γ) : Prop where
  provides : ∃ (I : γ → Prop) (g₁ g₂ g₃ : γ),
    git.mkdir g (GitRepositoryManager.parentPath py settings version.id) = (.ok (), g₁)
      ∧ Succeeds git g₁ (cloneCommands (GitRepositoryManager.path py settings version.id)
          (GitRepositoryManager.cloneUrl token (httpsUrl version.repositoryUrl))) g₂
      ∧ Resolves git (GitRepositoryManager.path py settings version.id) version.commitSha g₂ g₃
      ∧ I g₃ ∧ git.Serves py (GitRepositoryManager.path py settings version.id)
        version.commitSha c I

end Clone

/-! ## The preparation -/

section Prepare

variable {γ : Type} {py : Python} {git : GitHost γ} {disk : LocalDisk} {token : Option String}
  {version : ProblemVersion} {destination : String} {hosts : List String} {c : Commit}
  {names : List String} {g : γ}

/-- What discovery has checked of a version. -/
structure Discovered (py : Python) (settings : GitSettings) (names : List String)
    (version : ProblemVersion) : Prop where
  sha : GitRepositoryManager.isSha version.commitSha = true
  url : GitRepositoryManager.validateUrl py settings version.repositoryUrl
    = .ok version.repositoryUrl
  path : PurePath.Regular version.problemPath.toList
  required : ∀ file ∈ required, version.problemPath ++ "/" ++ file.path ∈ names

/-- A required file is one to copy. -/
theorem required_inTask (folder : String) {file : RequiredFile} (h : file ∈ required) :
    InTask folder (folder ++ "/" ++ file.path)
      ∧ below folder (folder ++ "/" ++ file.path) = (purePath file.path).parts := by
  have hname : (folder ++ "/" ++ file.path).toList = folder.toList ++ '/' :: file.path.toList := by
    rw [String.toList_append, String.toList_append, List.append_assoc]
    rfl
  have hbelow : below folder (folder ++ "/" ++ file.path)
      = PurePath.components file.path.toList := by rw [below, below_eq hname]
  have hfile : ∀ file ∈ required, PurePath.components file.path.toList = (purePath file.path).parts
      ∧ (PurePath.components file.path.toList).head? ≠ some "solution".toList := by decide
  obtain ⟨hparts, hhead⟩ := hfile file h
  refine ⟨⟨⟨file.path.toList, ?_⟩, hbelow ▸ hhead⟩, hbelow.trans hparts⟩
  rw [hname, List.append_assoc]
  rfl

/-- What is left to do when the commit is there. -/
theorem prepareProblem_eq (log : List LogRecord)
    (hlower : ∀ host ∈ hosts, host.toList.map Char.toLower = host.toList)
    (hfound : Discovered py ⟨destination, hosts⟩ names version) (hnames : c.names py = .ok names)
    (hmkdir : disk.mkdir = none)
    (hgit : Provides py ⟨destination, hosts⟩ git token version c g) :
    ∃ (cache : String) (I : γ → Prop) (s : Bench γ), git.Serves py cache version.commitSha c I
      ∧ I s.cache.host ∧ s.files = []
      ∧ prepareProblem py git disk token version destination hosts ⟨⟨g, log⟩, false, []⟩
        = (do
          let _ ← extractAll py git disk cache version.commitSha
            ((purePath destination).parts ++ ["problem".toList])
            (version.problemPath.toList ++ ['/']) 0 (names.insertionSort (· ≤ ·))
          checkRequired required
          return (purePath destination).parts ++ ["problem".toList] : PrepareProgram γ _) s := by
  obtain ⟨I, g₁, g₂, g₃, hparent, hclone, hresolve, hI, hserves⟩ := hgit
  have hurl := validateUrl_httpsUrl hlower hfound.url
  obtain ⟨log', hcloned⟩ := clone_returns log hurl hparent hclone
  let cache := GitRepositoryManager.path py ⟨destination, hosts⟩ version.id
  obtain ⟨cache', hfiles, hI'⟩ := files_agrees hserves ⟨g₃, log'⟩ hI
  have hlisted : onCache (GitRepositoryManager.files py git cache version.commitSha)
      ⟨⟨g₃, log'⟩, true, []⟩ = (.ok names, ⟨cache', true, []⟩) :=
    onCache_apply (hfiles.trans (by rw [← hnames]; rfl))
  have hidentity : ¬(¬GitRepositoryManager.isSha version.commitSha
      ∨ (purePath version.problemPath).IsAbsolute
      ∨ (purePath version.problemPath).HasDotdot
      ∨ (purePath version.problemPath).parts = []) := by
    have hparts : (purePath version.problemPath).parts
        = PurePath.components version.problemPath.toList := hfound.path.parts
    rw [hparts]
    rintro (hsha | habsolute | hdots | hnil)
    · exact hsha hfound.sha
    · exact hfound.path.not_absolute habsolute
    · exact hfound.path.not_dotdot hdots
    · exact PurePath.components_ne_nil _ hnil
  have htask : makeTask disk (⟨⟨g₃, log'⟩, false, []⟩ : Bench γ)
      = (.ok (), ⟨⟨g₃, log'⟩, true, []⟩) := by
    rw [makeTask, hmkdir]
    rfl
  refine ⟨cache, I, ⟨cache', true, []⟩, hserves, hI', rfl, ?_⟩
  unfold prepareProblem
  refine (congrFun (if_neg hidentity) _).trans ?_
  rw [Program.bind_ok (a := version.repositoryUrl) (by rw [hfound.url]; rfl),
    Program.bind_ok (a := httpsUrl version.repositoryUrl) (by rw [hurl]; rfl),
    Program.bind_ok (onCache_apply hcloned),
    Program.bind_ok (resolveCommit_returns hfound.sha hresolve)]
  refine (congrFun (if_neg (not_not.mpr rfl)) _).trans ?_
  rw [Program.bind_ok htask, Program.bind_ok hlisted, show (purePath version.problemPath).text
    = version.problemPath.toList from hfound.path.text_parse]

/-- With git and the disk working, the worker prepares what was discovered
exactly if it is within the budgets. -/
theorem prepareProblem_iff (log : List LogRecord)
    (hlower : ∀ host ∈ hosts, host.toList.map Char.toLower = host.toList)
    (hfound : Discovered py ⟨destination, hosts⟩ names version) (hnames : c.names py = .ok names)
    (htree : IsTree names) (hgit : Provides py ⟨destination, hosts⟩ git token version c g)
    (hdisk : LocalDisk.Takes disk names) :
    (∃ task t, prepareProblem py git disk token version destination hosts ⟨⟨g, log⟩, false, []⟩
        = (.ok task, t))
      ↔ Affordable c version.problemPath 0 names := by
  obtain ⟨cache, I, s, hserves, hI, hnew, heq⟩ :=
    prepareProblem_eq log hlower hfound hnames hdisk.mkdir hgit
  have hperm : (names.insertionSort (· ≤ ·)).Perm names := List.perm_insertionSort ..
  have hholding : Holding I names version.problemPath s := ⟨hI, by rw [hnew]; nofun⟩
  rw [heq, ← affordable_perm hperm]
  rcases extractAll_cases hserves hnames hdisk htree
    ((purePath destination).parts ++ ["problem".toList]) (fun name hname => hperm.mem_iff.mp hname)
      (Nat.zero_le _) hholding with
    ⟨hall, n, t, hcopied, hmem, -⟩ | ⟨hnot, e, t, hraises⟩
  · refine ⟨fun _ => hall, fun _ => ⟨(purePath destination).parts ++ ["problem".toList], t, ?_⟩⟩
    rw [Program.bind_ok hcopied, Program.bind_ok (checkRequired_ok fun file hfile => ?_)]
    · rfl
    · obtain ⟨hin, hbelow⟩ := required_inTask version.problemPath hfile
      exact ⟨_, hmem _ (hperm.mem_iff.mpr (hfound.required file hfile)) hin, hbelow⟩
  · refine ⟨fun ⟨task, u, hok⟩ => ?_, fun h => absurd h hnot⟩
    rw [Program.bind_error hraises] at hok
    cases hok

end Prepare

end Inputs

end AgentBenchX
