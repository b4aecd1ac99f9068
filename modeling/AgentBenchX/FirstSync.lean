import AgentBenchX.Mirrors

/-!
# The first synchronization

A source without a configured branch gets what HEAD of the mirror points to,
and no command of `clone` points HEAD to the default branch of the remote
(`default_branch_detected`). `sync` clones only where there is nothing in the
cache. What a clone leaves that did not come to its end can be fetched
into, unless it had just created the repository (`failed_first_sync`); then
the source is stranded (`stranded_forever`).
-/

namespace AgentBenchX

/-! ## Sources marked as failed -/

namespace Catalog

variable {cat : Catalog} {t : Table ProblemSource}

def withSources (cat : Catalog) (t : Table ProblemSource) : Catalog := { cat with sources := t }

theorem insertProblem_withSources (p : Problem) :
    (cat.withSources t).insertProblem p = (cat.insertProblem p).map (withSources · t) := by
  unfold insertProblem
  by_cases hsome : (cat.problemOf p.sourceId p.problemKey).isSome = true
  · rw [if_pos hsome]
    exact if_pos hsome
  · rw [if_neg hsome]
    refine (if_neg hsome).trans ?_
    rw [Option.map_map]
    rfl

theorem insertVersion_withSources (v : StoredVersion) :
    (cat.withSources t).insertVersion v = (cat.insertVersion v).map (withSources · t) := by
  unfold insertVersion
  by_cases hsome : (cat.versionOf v.repositoryUrl v.commitSha v.problemPath).isSome = true
  · rw [if_pos hsome]
    exact if_pos hsome
  · rw [if_neg hsome]
    refine (if_neg hsome).trans ?_
    rw [Option.map_map]
    rfl

end Catalog

namespace ProblemSourceManager

section Marked

variable {py : Python} {env env' : SyncEnv} {source : ProblemSource} {branch sha : String}
  {cat : Catalog} {t : Table ProblemSource}

theorem inserted_map (reached fits : Bool) (cat? : Option Catalog) (g : Catalog → Catalog) :
    inserted reached fits (cat?.map g) = (inserted reached fits cat?).map g := by
  unfold inserted
  split
  · rfl
  · split
    · rfl
    · cases cat? <;> rfl

/-- Problems and versions are stored the same, whatever the sources are marked as. -/
theorem storeProblem_marked (task : Task) (i : ℕ) :
    storeProblem py env (failedRow env' source) (cat.withSources t) task i
      = (storeProblem py env source cat task i).map fun r => (r.1.withSources t, r.2) := by
  unfold storeProblem
  rw [show (cat.withSources t).problemOf (failedRow env' source).id task.path
    = cat.problemOf source.id task.path from rfl]
  cases cat.problemOf source.id task.path with
  | some problem => rfl
  | none =>
      rw [show problemRow py (failedRow env' source) (env.fresh (2 * i)) task
        = problemRow py source (env.fresh (2 * i)) task from rfl]
      cases problemRow py source (env.fresh (2 * i)) task with
      | none => rfl
      | some problem =>
          dsimp only
          rw [Catalog.insertProblem_withSources, inserted_map]
          cases inserted (env.flush (2 * i)) (decide (Problem.Fits problem))
            (cat.insertProblem problem) <;> rfl

theorem storeTask_marked (b : Catalog × ℕ) (a : Task × ℕ) :
    storeTask py env (failedRow env' source) branch sha (b.1.withSources t, b.2) a
      = (storeTask py env source branch sha b a).map fun r => (r.1.withSources t, r.2) := by
  obtain ⟨cat, created⟩ := b
  obtain ⟨task, i⟩ := a
  unfold storeTask
  dsimp only
  rw [storeProblem_marked]
  cases storeProblem py env source cat task i with
  | error e => rfl
  | ok r =>
      obtain ⟨cat', problem⟩ := r
      dsimp only [Except.map, bind, Except.bind]
      rw [show (cat'.withSources t).versionOf (failedRow env' source).repositoryUrl sha task.path
        = cat'.versionOf source.repositoryUrl sha task.path from rfl]
      cases cat'.versionOf source.repositoryUrl sha task.path with
      | some v => rfl
      | none =>
          dsimp only
          rw [Catalog.insertVersion_withSources, inserted_map]
          rw [show versionRow (failedRow env' source) branch sha (env.fresh (2 * i + 1)) problem.id
            task = versionRow source branch sha (env.fresh (2 * i + 1)) problem.id task from rfl]
          cases inserted (env.flush (2 * i + 1)) (decide (StoredVersion.Fits py
            (versionRow source branch sha (env.fresh (2 * i + 1)) problem.id task)))
            (cat'.insertVersion
              (versionRow source branch sha (env.fresh (2 * i + 1)) problem.id task)) <;> rfl

/-- A source that was marked as failed is stored as if it were not. -/
theorem store_marked {tasks : List Task} {skipped : List Skipped} {cat' : Catalog}
    {row : ProblemSource} (h : store py env source branch sha cat tasks skipped = .ok (cat', row)) :
    store py env (failedRow env' source) branch sha
      (cat.withSources (cat.sources.update (failedRow env' source))) tasks skipped
        = .ok (cat', row) := by
  unfold store at h ⊢
  obtain ⟨⟨mid, created⟩, hloop, h⟩ := ok_of_bind h
  have hsources : mid.sources = cat.sources := (storeTasks_ok hloop).sources
  have hmarked : tasks.zipIdx.foldlM (storeTask py env (failedRow env' source) branch sha)
      (cat.withSources (cat.sources.update (failedRow env' source)), 0)
      = .ok (mid.withSources (cat.sources.update (failedRow env' source)), created) := by
    have hmap : tasks.zipIdx.foldlM (storeTask py env (failedRow env' source) branch sha)
        (cat.withSources (cat.sources.update (failedRow env' source)), 0)
        = (tasks.zipIdx.foldlM (storeTask py env source branch sha) (cat, 0)).map
            fun r => (r.1.withSources (cat.sources.update (failedRow env' source)), r.2) :=
      foldlM_map storeTask_marked tasks.zipIdx (cat, 0)
    rw [hloop] at hmap
    exact hmap
  have hupdate : (cat.sources.update (failedRow env' source)).update
      (syncedRow env source branch sha tasks.length created skipped)
        = mid.sources.update (syncedRow env source branch sha tasks.length created skipped) := by
    rw [hsources]
    exact Table.update_update rfl
  rw [bind_of_ok hmarked]
  refine Eq.trans ?_ h
  dsimp only
  rw [show syncedRow env (failedRow env' source) branch sha tasks.length created skipped
    = syncedRow env source branch sha tasks.length created skipped from rfl, ← hupdate]
  rfl

end Marked

/-! ## Stranded sources -/

section Stranded

variable {γ : Type} {py : Python} {settings : GitSettings} {git : GitHost γ} {initial : String}
  {reach : String → Option (Git.Remote String)} {disk : γ → GitDisk} {sourceId : Uid}
  {s : SyncServer γ}

/-- Where a repository without an origin is in the cache, a synchronization fails
and leaves it there. -/
theorem sync_stranded (hgit : git.Documented initial reach disk) (token : Option String)
    (env : SyncEnv)
    (hs : Git.Stranded (disk s.cache.host (GitRepositoryManager.path py settings sourceId))) :
    (∃ e, (sync py settings git token env s sourceId).1 = .error e)
      ∧ disk (sync py settings git token env s sourceId).2.cache.host = disk s.cache.host := by
  unfold sync
  cases hsource : s.catalog.sources.get? sourceId with
  | none => exact ⟨⟨_, rfl⟩, rfl⟩
  | some source =>
      obtain rfl : source.id = sourceId := Table.key_of_get? hsource
      dsimp only
      split
      · obtain ⟨e, t, hfetch, hdisk⟩ :=
          fetchOrClone_stranded hgit token source rfl hs
        have hacquire : acquire py settings git token source s.cache = (.error e, t) :=
          Program.bind_error hfetch
        rw [hacquire]
        dsimp only
        refine ⟨(failed_cases env { s with cache := t } source e).1, ?_⟩
        unfold failed
        split <;> exact hdisk
      · exact ⟨⟨_, rfl⟩, rfl⟩

/-- The server after any synchronizations of the source. -/
def synced (py : Python) (settings : GitSettings) (git : GitHost γ) (sourceId : Uid)
    (s : SyncServer γ) (calls : List (Option String × SyncEnv)) : SyncServer γ :=
  calls.foldl (fun s call => (sync py settings git call.1 call.2 s sourceId).2) s

/-- It never gets out of it. -/
theorem stranded_forever (hgit : git.Documented initial reach disk)
    (hs : Git.Stranded (disk s.cache.host (GitRepositoryManager.path py settings sourceId)))
    (calls : List (Option String × SyncEnv)) (token : Option String) (env : SyncEnv) :
    ∃ e, (sync py settings git token env (synced py settings git sourceId s calls) sourceId).1
      = .error e := by
  have hrun : Git.Stranded (disk (synced py settings git sourceId s calls).cache.host
      (GitRepositoryManager.path py settings sourceId)) :=
    foldl_rec (P := fun _ (s : SyncServer γ) => Git.Stranded (disk s.cache.host
      (GitRepositoryManager.path py settings sourceId))) (fun call rest s hs => by
        rw [(sync_stranded hgit call.1 call.2 hs).2]
        exact hs) hs
  exact (sync_stranded hgit token env hrun).1

end Stranded

/-! ## The main results -/

section Main

variable {γ : Type} {py : Python} {settings : GitSettings} {git : GitHost γ} {initial : String}
  {reach : String → Option (Git.Remote String)} {disk : γ → GitDisk}
  {contents : String → Option Commit} {H : γ → Prop} {token : Option String} {env : SyncEnv}
  {source row : ProblemSource} {remote : Git.Remote String} {origin tip : String} {n : ℕ}

/-- The phases of a synchronization that succeeds. -/
theorem sync_ok {s t : SyncServer γ} (hsource : source ∈ s.catalog.sources)
    (h : sync py settings git token env s source.id = (.ok row, t)) :
    source.enabled = true ∧ ∃ branch sha tasks skipped,
      acquire py settings git token source s.cache = (.ok (branch, sha, tasks, skipped), t.cache)
        ∧ store py env source branch sha s.catalog tasks skipped = .ok (t.catalog, row) := by
  have hget : s.catalog.sources.get? source.id = some source :=
    Table.get?_eq_some.mpr ⟨hsource, rfl⟩
  obtain ⟨source', branch, sha, tasks, skipped, hget', henabled, hacquire, hstore⟩ := sync_stored h
  obtain rfl := Option.some.inj (hget.symm.trans hget')
  exact ⟨henabled, branch, sha, tasks, skipped, hacquire, hstore⟩

/-- What it notes on the source. -/
theorem sync_row {s t : SyncServer γ} (hgit : git.Documented initial reach disk)
    (hremote : reach (GitRepositoryManager.cloneUrl token source.repositoryUrl) = some remote)
    (horigin : reach origin = some remote)
    (hs : Git.Progress initial origin n
      (disk s.cache.host (GitRepositoryManager.path py settings source.id)))
    (hsource : source ∈ s.catalog.sources)
    (h : sync py settings git token env s source.id = (.ok row, t)) :
    t.catalog.sources.get? source.id = some row
      ∧ row.defaultBranch = some (branchWanted initial source)
      ∧ ∀ tip, remote.heads (branchWanted initial source) = some tip →
        GitRepositoryManager.isSha tip = true → row.lastCommitSha = some tip := by
  obtain ⟨-, branch, sha, tasks, skipped, hacquire, hstore⟩ := sync_ok hsource h
  obtain ⟨rfl, htips⟩ := acquire_ok hgit rfl hremote horigin hs hacquire
  obtain ⟨mid, created, hadds, rfl, hcatalog⟩ := store_ok hstore
  have hmid : mid.sources.get? source.id = some source := by
    rw [hadds.sources]
    exact Table.get?_eq_some.mpr ⟨hsource, rfl⟩
  rw [hcatalog]
  exact ⟨Table.get?_update hmid, rfl, fun tip htip hsha => congrArg some (htips tip htip hsha)⟩

/-- A URL that was cloned is a valid one. -/
theorem validateUrl_of_sync {s t : SyncServer γ} (hgit : git.Documented initial reach disk)
    (hnew : disk s.cache.host (GitRepositoryManager.path py settings source.id) = none)
    (hsource : source ∈ s.catalog.sources)
    (h : sync py settings git token env s source.id = (.ok row, t)) :
    GitRepositoryManager.validateUrl py settings source.repositoryUrl
      = .ok source.repositoryUrl := by
  obtain ⟨-, branch, sha, tasks, skipped, hacquire, -⟩ := sync_ok hsource h
  obtain ⟨path, s₁, hfetch, -⟩ := Program.ok_of_bind hacquire
  rw [fetchOrClone_absent rfl (by rw [hgit.pathExists, hnew]; rfl)] at hfetch
  obtain ⟨_, s₂, -, hclone⟩ := Program.ok_of_bind hfetch
  obtain ⟨url, s₃, hvalid, -⟩ := Program.ok_of_bind hclone
  have hvalid := (Prod.mk.inj hvalid).1
  obtain rfl := GitRepositoryManager.validateUrl_ok hvalid
  exact hvalid

/-- **The default branch.** All that a first synchronization can find out is the
name `git init` gives to the first branch: a source without a configured
branch gets the default branch of its remote exactly if it has that name. -/
theorem default_branch_detected (py : Python) (settings : GitSettings) (token : Option String)
    (env : SyncEnv) {s : SyncServer γ} (hgit : git.Documented initial reach disk)
    (hremote : reach (GitRepositoryManager.cloneUrl token source.repositoryUrl) = some remote)
    (horigin : reach origin = some remote)
    (hs : Git.Progress initial origin n
      (disk s.cache.host (GitRepositoryManager.path py settings source.id)))
    (hsource : source ∈ s.catalog.sources)
    (hdefault : source.defaultBranch = none ∨ source.defaultBranch = some "")
    (htip : remote.heads remote.head = some tip) (hsha : GitRepositoryManager.isSha tip = true) :
    (∀ row t, sync py settings git token env s source.id = (.ok row, t) →
        t.catalog.sources.get? source.id = some row
          ∧ ((row.defaultBranch = some remote.head ∧ row.lastCommitSha = some tip)
            ↔ remote.head = initial))
      ∧ ∀ contents H sha c, git.Healthy py initial reach disk contents H → H s.cache.host → n ≠ 3 →
        GitRepositoryManager.validateUrl py settings source.repositoryUrl
          = .ok source.repositoryUrl →
        remote.heads initial = some sha → GitRepositoryManager.isSha sha = true →
        contents sha = some c →
        ∃ cache, acquire py settings git token source s.cache
          = ((ProblemDiscoveryService.discover py (c.repository py) ()).1.map
              fun found => (initial, sha, found.1, found.2), cache) := by
  have hwanted : branchWanted initial source = initial := by
    unfold branchWanted
    rcases hdefault with hdefault | hdefault <;> rw [hdefault]
    exact if_neg (by decide)
  refine ⟨fun row t h => ?_, fun contents H sha c hhealthy hH hn hvalid hfirst hfirstSha hc => ?_⟩
  · obtain ⟨hstored, hbranch, htips⟩ := sync_row hgit hremote horigin hs hsource h
    rw [hwanted] at hbranch htips
    refine ⟨hstored, fun hrow => ?_, fun hhead => ?_⟩
    · exact (Option.some.inj (hbranch.symm.trans hrow.1)).symm
    · rw [hbranch, hhead]
      rw [hhead] at htip
      exact ⟨rfl, htips tip htip hsha⟩
  · have hdelivers := hhealthy.delivers hgit rfl hremote horigin ⟨hH, hs⟩ hn hvalid
      (by rw [hwanted]; exact hgit.plain) (by rw [hwanted]; exact hfirst) hfirstSha hc
    rw [hwanted] at hdelivers
    exact acquire_delivers hdelivers

/-- **A failed first synchronization.** The clone may have come to anything, and
the failure may have been noted or not: a later synchronization of a
configured branch comes to what one comes to that never failed, exactly if
the clone did not stop between the third of its commands, which creates the
repository, and the fourth, which gives it an origin. -/
theorem failed_first_sync {γ' : Type} {git' : GitHost γ'}
    {reach' : String → Option (Git.Remote String)} {disk' : γ' → GitDisk} {token' : Option String}
    {cat cat' : Catalog} {branch sha : String} {c : Commit} {cache' : Cache γ'}
    {cache cache₀ : Cache γ} {t₀ : SyncServer γ} (hgit' : git'.Documented initial reach' disk')
    (hnew' : disk' cache'.host (GitRepositoryManager.path py settings source.id) = none)
    (hgit : git.Documented initial reach disk)
    (hhealthy : git.Healthy py initial reach disk contents H)
    (hleft : disk cache.host (GitRepositoryManager.path py settings source.id)
      = disk' (GitRepositoryManager.clone py settings git' token' source.id source.repositoryUrl
          cache').2.host (GitRepositoryManager.path py settings source.id))
    (hmarked : cat' = cat ∨ ∃ env' : SyncEnv,
      cat' = { cat with sources := cat.sources.update (failedRow env' source) })
    (hH : H cache.host)
    (horigin : reach (GitRepositoryManager.cloneUrl token' source.repositoryUrl) = some remote)
    (hremote : reach (GitRepositoryManager.cloneUrl token source.repositoryUrl) = some remote)
    (hsource : source ∈ cat.sources) (hdefault : source.defaultBranch = some branch)
    (hbranch : GitRepositoryManager.isBranch branch = true) (htip : remote.heads branch = some sha)
    (hsha : GitRepositoryManager.isSha sha = true) (hc : contents sha = some c)
    (hH₀ : H cache₀.host)
    (hnew : disk cache₀.host (GitRepositoryManager.path py settings source.id) = none)
    (hnever : sync py settings git token env ⟨cat, cache₀⟩ source.id = (.ok row, t₀)) :
    ∃ n, Git.Progress initial (GitRepositoryManager.cloneUrl token' source.repositoryUrl) n
        (disk cache.host (GitRepositoryManager.path py settings source.id))
      ∧ ((∃ t, sync py settings git token env ⟨cat', cache⟩ source.id = (.ok row, t)
          ∧ t.catalog = t₀.catalog) ↔ n ≠ 3) := by
  have hstart : Git.Progress initial (GitRepositoryManager.cloneUrl token' source.repositoryUrl) 0
      (disk' cache'.host (GitRepositoryManager.path py settings source.id)) := by
    rw [hnew']
    exact .absent (by decide)
  have hprogress := (hgit'.clone_progress rfl rfl cache' hstart).1
  rw [← hleft] at hprogress
  obtain ⟨n, hn⟩ := hprogress
  refine ⟨n, hn, fun h hstranded => ?_, fun hne => ?_⟩
  · obtain ⟨t, hsync, -⟩ := h
    obtain ⟨⟨e, he⟩, -⟩ := sync_stranded (s := ⟨cat', cache⟩) hgit token env
      (hn.stranded_iff.mpr hstranded)
    rw [hsync] at he
    cases he
  · have hwanted : branchWanted initial source = branch := by
      unfold branchWanted
      rw [hdefault]
      refine if_pos ?_
      rintro rfl
      exact absurd hbranch (by decide)
    have hvalid := validateUrl_of_sync hgit hnew hsource hnever
    have hdelivers : ∀ (n : ℕ) (cache : Cache γ),
        Git.Progress initial (GitRepositoryManager.cloneUrl token' source.repositoryUrl) n
          (disk cache.host (GitRepositoryManager.path py settings source.id)) →
        H cache.host → n ≠ 3 →
        Delivers py settings git token source cache
          (GitRepositoryManager.path py settings source.id) branch sha c := by
      intro n cache hn hH hne
      rw [← hwanted]
      exact hhealthy.delivers hgit rfl hremote horigin ⟨hH, hn⟩ hne hvalid
        (by rw [hwanted]; exact hbranch) (by rw [hwanted]; exact htip) hsha hc
    -- What the synchronization that never failed has found, the later one finds too.
    obtain ⟨henabled, branch', sha', tasks, skipped, hacquire, hstore⟩ := sync_ok hsource hnever
    obtain ⟨cache₁, hacquired⟩ := acquire_delivers
      (hdelivers 0 cache₀ (by rw [hnew]; exact .absent (by decide)) hH₀ (by decide))
    have hfound := (Prod.mk.inj (hacquire.symm.trans hacquired)).1
    cases hdiscover : (ProblemDiscoveryService.discover py (c.repository py) ()).1 with
    | error e =>
        rw [hdiscover] at hfound
        cases hfound
    | ok found =>
        rw [hdiscover] at hfound
        have hfound := Except.ok.inj hfound
        simp only [Prod.mk.injEq] at hfound
        obtain ⟨rfl, rfl, rfl, rfl⟩ := hfound
        rcases hmarked with rfl | ⟨env', rfl⟩
        · obtain ⟨cache₂, hsync⟩ := sync_delivers (s := ⟨cat', cache⟩) token env hsource henabled
            (hdelivers n cache hn hH hne) hdiscover
          dsimp only at hsync
          rw [hstore] at hsync
          exact ⟨_, hsync, rfl⟩
        · have hmem : failedRow env' source ∈ cat.sources.update (failedRow env' source) :=
            (Table.mem_update (failedRow env' source) hsource rfl).mpr (Or.inl rfl)
          obtain ⟨cache₂, hsync⟩ := sync_delivers
            (s := ⟨cat.withSources (cat.sources.update (failedRow env' source)), cache⟩) token env
            hmem henabled (hdelivers n cache hn hH hne) hdiscover
          dsimp only at hsync
          rw [store_marked hstore] at hsync
          exact ⟨_, hsync, rfl⟩

end Main

end ProblemSourceManager

/-! ### A machine that works -/

namespace Sample

open ProblemSourceManager

def gitHost (head : String) : GitHost GitDisk :=
  machine (reachable head) (fun _ => true) (two bugfixToml)

theorem gitHost_documented (head : String) :
    (gitHost head).Documented "master" (reachable head) id :=
  machine_documented

theorem gitHost_healthy (head : String) : (gitHost head).Healthy python "master"
    (reachable head) id (contents (two bugfixToml) (two_plain bugfixToml)) fun _ => True :=
  machine_healthy (two_plain bugfixToml) fun _ hnames _ hmem =>
    two_reads reads_bugfixToml hnames hmem

def emptyCache : Cache GitDisk := ⟨fun _ => none, []⟩

/-- The sample source, with or without a configured branch. -/
def sourceWith (configured : Option String) : ProblemSource :=
  { source with defaultBranch := configured }

theorem reachable_source (head : String) (configured : Option String) :
    reachable head (GitRepositoryManager.cloneUrl none (sourceWith configured).repositoryUrl)
      = some (remote head) :=
  if_pos rfl

theorem source_valid : GitRepositoryManager.validateUrl python gitSettings
    source.repositoryUrl = .ok source.repositoryUrl :=
  show GitRepositoryManager.validateUrl python gitSettings source.repositoryUrl = _ by
    decide +kernel

def catalogWith (configured : Option String) : Catalog :=
  ⟨⟨[sourceWith configured], List.nodup_singleton _⟩, .empty, .empty⟩

/-- Nothing was synchronized yet. -/
def newServer (configured : Option String) : SyncServer GitDisk :=
  ⟨catalogWith configured, emptyCache⟩

theorem catalogWith_healthy (configured : Option String) :
    syncEnv.Healthy (catalogWith configured) :=
  ⟨fun _ => rfl, rfl, Function.injective_id, nofun, nofun⟩

theorem wanted_none : branchWanted "master" (sourceWith none) = "master" := rfl

theorem wanted_main : branchWanted "master" (sourceWith (some "main")) = "main" := by
  decide

/-- The first synchronization works. -/
theorem first_sync (head : String) {configured : Option String} {branch tip : String}
    (hwanted : branchWanted "master" (sourceWith configured) = branch)
    (hbranch : GitRepositoryManager.isBranch branch = true) (hname : Varchar 200 branch)
    (htip : (remote head).heads branch = some tip) (hsha : GitRepositoryManager.isSha tip = true)
    (hlength : tip.toList.length = 40) :
    ∃ row t, sync python gitSettings (gitHost head) none syncEnv
      (newServer configured) 5 = (.ok row, t) := by
  have hnew : Underway "master" id (GitRepositoryManager.path python gitSettings 5)
      source.repositoryUrl (fun _ => True) 0 emptyCache :=
    ⟨trivial, .absent (by decide)⟩
  have hdelivers : Delivers python gitSettings (gitHost head) none
      (sourceWith configured) emptyCache
      (GitRepositoryManager.path python gitSettings 5)
      (branchWanted "master" (sourceWith configured)) tip (twoCommit bugfixToml) :=
    (gitHost_healthy head).delivers (gitHost_documented head) rfl (reachable_source head configured)
      (reachable_source head configured) hnew (by decide) source_valid
      (by rw [hwanted]; exact hbranch) (by rw [hwanted]; exact htip) hsha (if_pos hlength)
  obtain ⟨tasks, skipped, hdiscover, htasks⟩ := two_discover bugfix_table ⟨rfl, rfl⟩
  obtain ⟨row, t, hsync, -⟩ := sync_stores (s := newServer configured) none
    (List.mem_singleton_self _) rfl hdelivers (catalogWith_healthy configured) hdiscover
    (fun task htask => by
      rcases (htasks task).mp htask with rfl | rfl
      · exact foundIn_storable (by decide +kernel) (by decide +kernel)
      · exact foundIn_storable (by decide +kernel) (by decide +kernel))
    (by rw [hwanted]; exact hname)
  exact ⟨row, t, hsync⟩

/-- A machine on which this command does not work. -/
def machineWithout (refused : GitCommand → Bool) : GitHost GitDisk :=
  machine (reachable "main") (fun c => !refused c) (two bugfixToml)

/-- A machine that breaks off before it adds a remote. -/
def breakingOff : GitHost GitDisk :=
  machineWithout fun c => match c with
    | .remoteAdd .. => true
    | _ => false

/-- A machine that loses touch with the remote as it fetches. -/
def losingTouch : GitHost GitDisk :=
  machineWithout fun c => match c with
    | .fetch .. => true
    | _ => false

/-- What a first clone leaves in the cache. -/
def left (git : GitHost GitDisk) : Cache GitDisk :=
  (GitRepositoryManager.clone python gitSettings git none 5 source.repositoryUrl emptyCache).2

/-- The server after a synchronization that failed so. -/
def marked (git : GitHost GitDisk) : SyncServer GitDisk :=
  ⟨{ catalogWith (some "main") with
    sources := (catalogWith (some "main")).sources.update
      (failedRow syncEnv (sourceWith (some "main"))) }, left git⟩

theorem breakingOff_left : (left breakingOff).host (GitRepositoryManager.path python gitSettings 5)
    = some (.created "master") := by
  rfl

theorem breakingOff_sync : sync python gitSettings breakingOff none syncEnv
    (newServer (some "main")) 5
      = (.error (.sourceError "Git operation failed: fatal"), marked breakingOff) := by
  rfl

theorem losingTouch_sync : sync python gitSettings losingTouch none syncEnv
    (newServer (some "main")) 5
      = (.error (.sourceError "Git operation failed: fatal"), marked losingTouch) := by
  rfl

end Sample

open ProblemSourceManager (sync)

/-- Where the default branch has the built-in name. -/
theorem default_branch_detected_master : ∃ row t,
    sync Sample.python Sample.gitSettings (Sample.gitHost "master") none
        Sample.syncEnv (Sample.newServer none) 5 = (.ok row, t)
      ∧ t.catalog.sources.get? 5 = some row ∧ row.defaultBranch = some "master"
      ∧ row.lastCommitSha = some "fedcba9876543210fedcba9876543210fedcba98" := by
  obtain ⟨row, t, hsync⟩ := Sample.first_sync "master" Sample.wanted_none (by decide +kernel)
    (by decide) rfl (by decide +kernel) (by decide)
  have hdetected := ProblemSourceManager.default_branch_detected Sample.python
    Sample.gitSettings none Sample.syncEnv (s := Sample.newServer none)
    (Sample.gitHost_documented "master") (Sample.reachable_source "master" none)
    (Sample.reachable_source "master" none) (.absent (Nat.zero_le 2)) (List.mem_singleton_self _)
    (Or.inl rfl) rfl (by decide +kernel)
  obtain ⟨hstored, hrow⟩ := hdetected.1 row t hsync
  exact ⟨row, t, hsync, hstored, hrow.mpr rfl⟩

/-- A remote whose default branch is `main`, with another branch `master`: all
commands work, and the source gets `master`. -/
theorem default_branch_missed :
    (Sample.remote "main").head = "main" ∧ (Sample.remote "main").heads "main" = some Sample.sha
      ∧ ∃ row t, sync Sample.python Sample.gitSettings (Sample.gitHost "main")
          none Sample.syncEnv (Sample.newServer none) 5 = (.ok row, t)
        ∧ row.defaultBranch = some "master" ∧ row.defaultBranch ≠ some "main"
        ∧ row.lastCommitSha ≠ some Sample.sha := by
  obtain ⟨row, t, hsync⟩ := Sample.first_sync "main" Sample.wanted_none (by decide +kernel)
    (by decide) rfl (by decide +kernel) (by decide)
  obtain ⟨-, hbranch, htips⟩ := ProblemSourceManager.sync_row (Sample.gitHost_documented "main")
    (Sample.reachable_source "main" none) (Sample.reachable_source "main" none)
    (.absent (Nat.zero_le 2)) (List.mem_singleton_self _) hsync
  rw [Sample.wanted_none] at hbranch htips
  refine ⟨rfl, rfl, row, t, hsync, hbranch, ?_, ?_⟩
  · rw [hbranch]
    decide
  · rw [htips "fedcba9876543210fedcba9876543210fedcba98" rfl (by decide +kernel)]
    decide

/-- The first clone fails as it fetches, and leaves a repository with an origin. The next
synchronization comes to what one comes to that never failed. -/
theorem failed_first_sync_connected : ∃ row t₀ e s,
    sync Sample.python Sample.gitSettings (Sample.gitHost "main") none
        Sample.syncEnv (Sample.newServer (some "main")) 5 = (.ok row, t₀)
      ∧ sync Sample.python Sample.gitSettings Sample.losingTouch none
        Sample.syncEnv (Sample.newServer (some "main")) 5 = (.error e, s)
      ∧ s.cache.host (GitRepositoryManager.path Sample.python Sample.gitSettings 5)
        = some ⟨"master", fun _ => none, some Sample.source.repositoryUrl⟩
      ∧ ∃ t, sync Sample.python Sample.gitSettings (Sample.gitHost "main") none Sample.syncEnv s 5
          = (.ok row, t) ∧ t.catalog = t₀.catalog := by
  obtain ⟨row, t₀, hsync⟩ := Sample.first_sync "main" Sample.wanted_main (by decide +kernel)
    (by decide) rfl (by decide +kernel) (by decide)
  have hleft : (Sample.marked Sample.losingTouch).cache = (GitRepositoryManager.clone Sample.python
    Sample.gitSettings Sample.losingTouch none 5 Sample.source.repositoryUrl
    Sample.emptyCache).2 := rfl
  have hbranch : GitRepositoryManager.isBranch "main" = true := by decide +kernel
  have hsha : GitRepositoryManager.isSha Sample.sha = true := by decide +kernel
  obtain ⟨n, hn, hrepaired⟩ := ProblemSourceManager.failed_first_sync Sample.machine_documented rfl
    (Sample.gitHost_documented "main") (Sample.gitHost_healthy "main")
    (congrArg (·.host (GitRepositoryManager.path Sample.python Sample.gitSettings 5)) hleft)
    (Or.inr ⟨Sample.syncEnv, rfl⟩) trivial (Sample.reachable_source "main" (some "main"))
    (Sample.reachable_source "main" (some "main")) (List.mem_singleton_self _) rfl hbranch rfl hsha
    (if_pos rfl) trivial rfl hsync
  have hconnected : n ≠ 3 := fun h => hn.stranded_iff.mpr h
  exact ⟨row, t₀, _, _, hsync, Sample.losingTouch_sync, rfl, hrepaired.mpr hconnected⟩

/-- The server is interrupted between `init` and `remote add`. A synchronization
would have worked, and after that one it does not. -/
theorem interrupted_first_sync :
    (∃ row t, sync Sample.python Sample.gitSettings (Sample.gitHost "main")
        none Sample.syncEnv (Sample.newServer (some "main")) 5 = (.ok row, t))
      ∧ ∃ e s, sync Sample.python Sample.gitSettings Sample.breakingOff none
          Sample.syncEnv (Sample.newServer (some "main")) 5 = (.error e, s)
        ∧ ∃ e, (sync Sample.python Sample.gitSettings (Sample.gitHost "main")
          none Sample.syncEnv s 5).1 = .error e := by
  refine ⟨Sample.first_sync "main" Sample.wanted_main (by decide +kernel) (by decide) rfl
    (by decide +kernel) (by decide), _, _, Sample.breakingOff_sync, ?_⟩
  refine (ProblemSourceManager.sync_stranded (Sample.gitHost_documented "main") none Sample.syncEnv
    ?_).1
  show Git.Stranded ((Sample.left Sample.breakingOff).host _)
  rw [Sample.breakingOff_left]
  trivial

end AgentBenchX
