import AgentBenchX.Commits

/-!
# Histories of synchronizations

Sources are registered and synchronized in any order, against a branch that
moves in between, and each synchronization may fail at any step. `Adds`
says once what the storing phase does to the tables of problems and
versions: rows are appended, and only where the lookup finds none. The
source row is rewritten last, so what it says of a commit is what the last
successful synchronization left there.
-/

namespace AgentBenchX

open ProblemSourceManager

/-! ## What the storing phase adds -/

/-- A version of a path at a commit of a repository. -/
def StoredVersion.At (v : StoredVersion) (url sha path : String) : Prop :=
  v.repositoryUrl = url ∧ v.commitSha = sha ∧ v.problemPath = path

namespace Catalog

/-- The two uniqueness constraints. -/
structure Unique (cat : Catalog) : Prop where
  problems : ∀ p ∈ cat.problems, ∀ p' ∈ cat.problems,
    p'.sourceId = p.sourceId → p'.problemKey = p.problemKey → p' = p
  versions : ∀ v ∈ cat.versions, ∀ v' ∈ cat.versions,
    v'.At v.repositoryUrl v.commitSha v.problemPath → v' = v

variable {cat cat' : Catalog}

theorem problemOf_eq_none {sourceId : Uid} {key : String} (h : cat.problemOf sourceId key = none) :
    ∀ p ∈ cat.problems, ¬(p.sourceId = sourceId ∧ p.problemKey = key) := fun p hp => by
  simpa using List.find?_eq_none.mp h p hp

theorem versionOf_eq_none {url sha path : String} (h : cat.versionOf url sha path = none) :
    ∀ v ∈ cat.versions, ¬v.At url sha path := fun v hv => by
  simpa [StoredVersion.At] using List.find?_eq_none.mp h v hv

theorem versionOf_eq_some {url sha path : String} {v : StoredVersion}
    (h : cat.versionOf url sha path = some v) : v ∈ cat.versions ∧ v.At url sha path :=
  ⟨List.mem_of_find?_eq_some h, by simpa [StoredVersion.At] using List.find?_some h⟩

theorem insertProblem_eq {p : Problem} (h : cat.insertProblem p = some cat') :
    cat.problemOf p.sourceId p.problemKey = none
      ∧ ∃ problems, cat.problems.insert? p = some problems ∧ cat' = { cat with problems } := by
  unfold insertProblem at h
  split at h
  · cases h
  · rename_i hnone
    obtain ⟨problems, hins, rfl⟩ := Option.map_eq_some_iff.mp h
    exact ⟨by simpa using hnone, problems, hins, rfl⟩

theorem insertVersion_eq {v : StoredVersion} (h : cat.insertVersion v = some cat') :
    cat.versionOf v.repositoryUrl v.commitSha v.problemPath = none
      ∧ ∃ versions, cat.versions.insert? v = some versions ∧ cat' = { cat with versions } := by
  unfold insertVersion at h
  split at h
  · cases h
  · rename_i hnone
    obtain ⟨versions, hins, rfl⟩ := Option.map_eq_some_iff.mp h
    exact ⟨by simpa using hnone, versions, hins, rfl⟩

theorem Unique.insertProblem {p : Problem} (h : cat.Unique)
    (hins : cat.insertProblem p = some cat') : cat'.Unique := by
  obtain ⟨hnone, problems, hproblems, rfl⟩ := insertProblem_eq hins
  have hnew := problemOf_eq_none hnone
  refine ⟨fun q hq q' hq' hsource hkey => ?_, h.versions⟩
  rcases (Table.mem_insert? hproblems).mp hq with hq | rfl <;>
    rcases (Table.mem_insert? hproblems).mp hq' with hq' | rfl
  · exact h.problems q hq q' hq' hsource hkey
  · exact absurd ⟨hsource.symm, hkey.symm⟩ (hnew q hq)
  · exact absurd ⟨hsource, hkey⟩ (hnew q' hq')
  · rfl

theorem Unique.insertVersion {v : StoredVersion} (h : cat.Unique)
    (hins : cat.insertVersion v = some cat') : cat'.Unique := by
  obtain ⟨hnone, versions, hversions, rfl⟩ := insertVersion_eq hins
  have hnew := versionOf_eq_none hnone
  refine ⟨h.problems, fun w hw w' hw' hat => ?_⟩
  rcases (Table.mem_insert? hversions).mp hw with hw | rfl <;>
    rcases (Table.mem_insert? hversions).mp hw' with hw' | rfl
  · exact h.versions w hw w' hw' hat
  · exact absurd ⟨hat.1.symm, hat.2.1.symm, hat.2.2.symm⟩ (hnew w hw)
  · exact absurd hat (hnew w' hw')
  · rfl

end Catalog

/-- The row of a new version of `task` that fits its columns. -/
structure StoredVersion.Of (py : Python) (source : ProblemSource) (branch sha : String)
    (task : Task) (v : StoredVersion) : Prop where
  row : v = versionRow source branch sha v.id v.problemId task
  fits : StoredVersion.Fits py v

/-- Storing `tasks` leads from `cat` to `cat'`: nothing is lost or changed,
and `added` versions are new. -/
structure Adds (py : Python) (source : ProblemSource) (branch sha : String) (tasks : List Task)
    (added : ℕ) (cat cat' : Catalog) : Prop where
  sources : cat'.sources = cat.sources
  problems : cat.problems.rows <+: cat'.problems.rows
  versions : ∃ new, cat'.versions.rows = cat.versions.rows ++ new ∧ new.length = added
    ∧ ∀ v ∈ new, ∃ task ∈ tasks, v.Of py source branch sha task
  present : ∀ task ∈ tasks, ∃ v ∈ cat'.versions, v.At source.repositoryUrl sha task.path
  idle : (∀ task ∈ tasks, ∃ v ∈ cat.versions, v.At source.repositoryUrl sha task.path) → added = 0
  unique : cat.Unique → cat'.Unique

theorem StoredVersion.Of.at {py : Python} {source : ProblemSource} {branch sha : String}
    {task : Task} {v : StoredVersion} (h : v.Of py source branch sha task) :
    v.At source.repositoryUrl sha task.path := by
  rw [h.row]
  exact ⟨rfl, rfl, rfl⟩

namespace Adds

variable {py : Python} {source : ProblemSource} {branch sha : String} {tasks tasks' : List Task}
  {m n : ℕ} {a b c : Catalog}

theorem refl (cat : Catalog) : Adds py source branch sha [] 0 cat cat where
  sources := rfl
  problems := List.prefix_rfl
  versions := ⟨[], by simp, rfl, nofun⟩
  present := nofun
  idle _ := rfl
  unique := id

theorem mem_versions (h : Adds py source branch sha tasks n a b) {v : StoredVersion}
    (hv : v ∈ a.versions) : v ∈ b.versions := by
  obtain ⟨new, hnew, -⟩ := h.versions
  rw [Table.mem_def, hnew]
  exact List.mem_append_left _ hv

theorem trans (h : Adds py source branch sha tasks m a b)
    (h' : Adds py source branch sha tasks' n b c) :
    Adds py source branch sha (tasks ++ tasks') (m + n) a c where
  sources := h'.sources.trans h.sources
  problems := h.problems.trans h'.problems
  versions := by
    obtain ⟨new, hnew, hlen, hof⟩ := h.versions
    obtain ⟨new', hnew', hlen', hof'⟩ := h'.versions
    refine ⟨new ++ new', by rw [hnew', hnew, List.append_assoc],
      by rw [List.length_append, hlen, hlen'], fun v hv => ?_⟩
    rcases List.mem_append.mp hv with hv | hv
    · obtain ⟨task, htask, hvof⟩ := hof v hv
      exact ⟨task, List.mem_append_left _ htask, hvof⟩
    · obtain ⟨task, htask, hvof⟩ := hof' v hv
      exact ⟨task, List.mem_append_right _ htask, hvof⟩
  present task htask := by
    rcases List.mem_append.mp htask with htask | htask
    · obtain ⟨v, hv, hvat⟩ := h.present task htask
      exact ⟨v, h'.mem_versions hv, hvat⟩
    · exact h'.present task htask
  idle hall := by
    have hm := h.idle fun task htask => hall task (List.mem_append_left _ htask)
    have hn := h'.idle fun task htask => by
      obtain ⟨v, hv, hvat⟩ := hall task (List.mem_append_right _ htask)
      exact ⟨v, h.mem_versions hv, hvat⟩
    omega
  unique hunique := h'.unique (h.unique hunique)

end Adds

/-! ## The storing phase -/

namespace ProblemSourceManager

section Store

variable {py : Python} {env : SyncEnv} {source : ProblemSource} {branch sha : String}
  {cat cat' : Catalog}

theorem ok_of_inserted {reached fits : Bool} {cat? : Option Catalog}
    (h : inserted reached fits cat? = .ok cat) :
    reached = true ∧ fits = true ∧ cat? = some cat := by
  unfold inserted at h
  split at h
  · cases h
  · split at h
    · cases h
    · cases cat? with
      | none => cases h
      | some cat? => exact ⟨by simp_all, by simp_all, by rw [Except.ok.inj h]⟩

/-- A problem may be new; versions and sources stay. -/
theorem storeProblem_ok {task : Task} {i : ℕ} {problem : Problem}
    (h : storeProblem py env source cat task i = .ok (cat', problem)) :
    cat'.sources = cat.sources ∧ cat'.versions = cat.versions
      ∧ cat.problems.rows <+: cat'.problems.rows ∧ (cat.Unique → cat'.Unique) := by
  unfold storeProblem at h
  split at h
  · obtain ⟨rfl, -⟩ := Prod.mk.inj (Except.ok.inj h)
    exact ⟨rfl, rfl, List.prefix_rfl, id⟩
  · split at h
    · cases h
    · obtain ⟨cat₁, hins, hret⟩ := ok_of_bind h
      obtain ⟨rfl, -⟩ := Prod.mk.inj (Except.ok.inj hret)
      obtain ⟨-, -, hins⟩ := ok_of_inserted hins
      obtain ⟨-, problems, hproblems, hcat⟩ := Catalog.insertProblem_eq hins
      refine ⟨by rw [hcat], by rw [hcat], ?_, fun hunique => hunique.insertProblem hins⟩
      rw [hcat, Table.rows_insert? hproblems]
      exact List.prefix_append _ _

theorem storeTask_ok {n m : ℕ} {task : Task} {i : ℕ}
    (h : storeTask py env source branch sha (cat, n) (task, i) = .ok (cat', m)) :
    ∃ added, m = n + added ∧ Adds py source branch sha [task] added cat cat' := by
  unfold storeTask at h
  obtain ⟨⟨mid, problem⟩, hproblem, h⟩ := ok_of_bind h
  obtain ⟨hsources, hversions, hstart, hunique⟩ := storeProblem_ok hproblem
  dsimp only at h
  split at h
  · rename_i v hfound
    obtain ⟨rfl, rfl⟩ := Prod.mk.inj (Except.ok.inj h)
    obtain ⟨hv, hat⟩ := Catalog.versionOf_eq_some hfound
    exact ⟨0, rfl, hsources, hstart, ⟨[], by rw [hversions, List.append_nil], rfl, nofun⟩,
      fun task' htask => ⟨v, hv, List.mem_singleton.mp htask ▸ hat⟩, fun _ => rfl, hunique⟩
  · rename_i hnone
    obtain ⟨new, hins, hret⟩ := ok_of_bind h
    obtain ⟨rfl, rfl⟩ := Prod.mk.inj (Except.ok.inj hret)
    obtain ⟨-, hfits, hins⟩ := ok_of_inserted hins
    obtain ⟨-, versions, hnew, hcat⟩ := Catalog.insertVersion_eq hins
    rw [hversions] at hnew
    have hof : (versionRow source branch sha (env.fresh (2 * i + 1)) problem.id task).Of
        py source branch sha task := ⟨rfl, of_decide_eq_true hfits⟩
    refine ⟨1, rfl, by rw [hcat, hsources], by rw [hcat]; exact hstart, ?_, ?_, ?_,
      fun h => (hunique h).insertVersion hins⟩
    · exact ⟨[_], by rw [hcat]; exact Table.rows_insert? hnew, rfl, fun v hv =>
        ⟨task, List.mem_singleton_self _, List.mem_singleton.mp hv ▸ hof⟩⟩
    · intro task' htask
      rw [List.mem_singleton.mp htask, hcat]
      exact ⟨_, (Table.mem_insert? hnew).mpr (Or.inr rfl), hof.at⟩
    · intro hall
      obtain ⟨v, hv, hvat⟩ := hall task (List.mem_singleton_self _)
      exact absurd hvat (Catalog.versionOf_eq_none hnone v (hversions ▸ hv))

/-- The whole loop. The induction is on the tasks still to be stored. -/
theorem storeTasks_ok {tasks : List Task} {created : ℕ}
    (h : tasks.zipIdx.foldlM (storeTask py env source branch sha) (cat, 0) = .ok (cat', created)) :
    Adds py source branch sha tasks created cat cat' := by
  have hloop := foldlM_ok (P := fun rest (b : Catalog × ℕ) =>
      ∃ done, tasks = done ++ rest.map Prod.fst ∧ Adds py source branch sha done b.2 cat b.1) ?_ h
      ⟨[], (List.zipIdx_map_fst ..).symm, .refl cat⟩
  · obtain ⟨done, hdone, hadds⟩ := hloop
    rw [hdone, List.map_nil, List.append_nil]
    exact hadds
  · rintro ⟨task, i⟩ rest ⟨mid, n⟩ ⟨mid', m⟩ ⟨done, hdone, hadds⟩ hstep
    obtain ⟨added, rfl, hadds'⟩ := storeTask_ok hstep
    exact ⟨done ++ [task], by rw [hdone, List.map_cons, List.append_assoc]; rfl,
      hadds.trans hadds'⟩

/-- A storing phase that commits. -/
theorem store_ok {tasks : List Task} {skipped : List Skipped} {row : ProblemSource}
    (h : store py env source branch sha cat tasks skipped = .ok (cat', row)) :
    ∃ mid created, Adds py source branch sha tasks created cat mid
      ∧ row = syncedRow env source branch sha tasks.length created skipped
      ∧ cat' = { mid with sources := mid.sources.update row } := by
  unfold store at h
  obtain ⟨⟨mid, created⟩, hloop, h⟩ := ok_of_bind h
  obtain ⟨final, hins, hret⟩ := ok_of_bind h
  obtain ⟨rfl, rfl⟩ := Prod.mk.inj (Except.ok.inj hret)
  obtain ⟨-, -, hfinal⟩ := ok_of_inserted hins
  exact ⟨mid, created, storeTasks_ok hloop, rfl, (Option.some.inj hfinal).symm⟩

end Store

/-! ## One synchronization -/

section Sync

variable {γ : Type} {py : Python} {settings : GitSettings} {git : GitHost γ}
  {token : Option String} {env : SyncEnv} {s t : SyncServer γ} {sourceId : Uid}

/-- A failure is an error, and all it writes is the failed row. -/
theorem failed_cases (env : SyncEnv) (s : SyncServer γ) (source : ProblemSource) (e : SyncError) :
    (∃ e', (failed env s source e).1 = .error e')
      ∧ ((failed env s source e).2.catalog = s.catalog
        ∨ (failed env s source e).2.catalog
          = { s.catalog with sources := s.catalog.sources.update (failedRow env source) }) := by
  unfold failed
  split
  · exact ⟨⟨_, rfl⟩, Or.inr rfl⟩
  · exact ⟨⟨_, rfl⟩, Or.inl rfl⟩

/-- What a synchronization comes to: refused, failed, or stored. -/
theorem sync_cases (py : Python) (settings : GitSettings) (git : GitHost γ) (token : Option String)
    (env : SyncEnv) (s : SyncServer γ) (sourceId : Uid) :
    ((∀ source, s.catalog.sources.get? sourceId = some source → source.enabled = false)
        ∧ ∃ e, sync py settings git token env s sourceId = (.error e, s))
      ∨ ∃ source, s.catalog.sources.get? sourceId = some source ∧ source.enabled = true
        ∧ ((∃ e cache, sync py settings git token env s sourceId
              = failed env { s with cache } source e)
          ∨ ∃ branch sha tasks skipped cache catalog row,
              acquire py settings git token source s.cache
                  = (.ok (branch, sha, tasks, skipped), cache)
                ∧ store py env source branch sha s.catalog tasks skipped = .ok (catalog, row)
                ∧ sync py settings git token env s sourceId = (.ok row, ⟨catalog, cache⟩)) := by
  unfold sync
  cases hsource : s.catalog.sources.get? sourceId with
  | none => exact Or.inl ⟨nofun, _, rfl⟩
  | some source =>
      by_cases henabled : source.enabled = true
      · refine Or.inr ⟨source, rfl, henabled, ?_⟩
        simp only [if_pos henabled]
        split
        · exact Or.inl ⟨_, _, rfl⟩
        · rename_i branch sha tasks skipped cache hacquire
          split
          · exact Or.inl ⟨_, _, rfl⟩
          · rename_i catalog row hstore
            exact Or.inr ⟨branch, sha, tasks, skipped, cache, catalog, row, hacquire, hstore, rfl⟩
      · simp only [if_neg henabled]
        refine Or.inl ⟨?_, _, rfl⟩
        rintro source' hsource'
        rw [← Option.some.inj hsource']
        simpa using henabled

/-- A synchronization that succeeds has stored the tasks of a commit. -/
theorem sync_stored {row : ProblemSource}
    (h : sync py settings git token env s sourceId = (.ok row, t)) :
    ∃ source branch sha tasks skipped, s.catalog.sources.get? sourceId = some source
      ∧ source.enabled = true
      ∧ acquire py settings git token source s.cache = (.ok (branch, sha, tasks, skipped), t.cache)
      ∧ store py env source branch sha s.catalog tasks skipped = .ok (t.catalog, row) := by
  rcases sync_cases py settings git token env s sourceId with
    ⟨-, e, hcase⟩ | ⟨source, hget, henabled, ⟨e, cache, hcase⟩ |
      ⟨branch, sha, tasks, skipped, cache, catalog, row', hacquire, hstore, hcase⟩⟩ <;>
    rw [hcase] at h
  · cases (Prod.mk.inj h).1
  · obtain ⟨e', herror⟩ := (failed_cases env { s with cache } source e).1
    cases herror.symm.trans (congrArg Prod.fst h)
  · obtain ⟨hrow, rfl⟩ := Prod.mk.inj h
    obtain rfl := Except.ok.inj hrow
    exact ⟨source, branch, sha, tasks, skipped, hget, henabled, hacquire, hstore⟩

end Sync

end ProblemSourceManager

/-! ## Histories -/

/-- What happens to the sources, with the row a call returned. -/
inductive SourceEvent where
  | registered (source : ProblemSource)
  | refused (e : SyncError)
  | synced (source : ProblemSource)
  | failed (sourceId : Uid) (e : SyncError)

namespace SourceEvent

def ofSync (sourceId : Uid) : Except SyncError ProblemSource → SourceEvent
  | .ok source => .synced source
  | .error e => .failed sourceId e

/-- The row of a successful synchronization of the source. -/
def syncOf (sourceId : Uid) : SourceEvent → Option ProblemSource
  | .synced source => if source.id = sourceId then some source else none
  | _ => none

/-- The last successful synchronization of a source. -/
def lastSync (sourceId : Uid) (tr : List SourceEvent) : Option ProblemSource :=
  tr.reverse.findSome? (syncOf sourceId)

theorem lastSync_concat {sourceId : Uid} {tr : List SourceEvent} {l : SourceEvent} :
    lastSync sourceId (tr ++ [l]) = (l.syncOf sourceId).or (lastSync sourceId tr) := by
  rw [lastSync, List.reverse_append, List.reverse_singleton, List.singleton_append,
    List.findSome?_cons]
  cases l.syncOf sourceId <;> rfl

end SourceEvent

/-- A call on the sources. Git and the server's cache are arbitrary each time. -/
inductive SourceStep (py : Python) (settings : GitSettings) (γ : Type) (cat : Catalog) :
    SourceEvent → Catalog → Prop
  | register {env : SyncEnv} {name url : String} {branch : Option String} {cat' : Catalog}
      {source : ProblemSource} :
      ProblemSourceManager.register py settings env cat name url branch = .ok (cat', source) →
      SourceStep py settings γ cat (.registered source) cat'
  | refuse {env : SyncEnv} {name url : String} {branch : Option String} {e : SyncError} :
      ProblemSourceManager.register py settings env cat name url branch = .error e →
      SourceStep py settings γ cat (.refused e) cat
  | sync (git : GitHost γ) (token : Option String) (env : SyncEnv) (cache : Cache γ)
      (sourceId : Uid) :
      SourceStep py settings γ cat
        (.ofSync sourceId (sync py settings git token env ⟨cat, cache⟩ sourceId).1)
        (sync py settings git token env ⟨cat, cache⟩ sourceId).2.catalog

def sourceHistory (py : Python) (settings : GitSettings) (γ : Type) :
    Transition Catalog SourceEvent where
  init := Catalog.Empty
  step := SourceStep py settings γ

/-- Two rows of a source that tell of the same synchronization. -/
structure ProblemSource.SameCommit (a b : ProblemSource) : Prop where
  defaultBranch : a.defaultBranch = b.defaultBranch
  lastCommitSha : a.lastCommitSha = b.lastCommitSha
  lastSyncedAt : a.lastSyncedAt = b.lastSyncedAt

/-- What a synchronization that stores leaves. -/
structure Synchronized (env : SyncEnv) (cat cat' : Catalog) (source row : ProblemSource)
    (branch sha : String) (tasks : List Task) (skipped : List Skipped) : Prop where
  /-- One version at the commit for every path. -/
  complete : ∀ task ∈ tasks, ∃! v, v ∈ cat'.versions ∧ v.At source.repositoryUrl sha task.path
  problems : cat.problems.rows <+: cat'.problems.rows
  /-- The report counts the versions that were added. -/
  versions : ∃ new, cat'.versions.rows = cat.versions.rows ++ new
    ∧ row.syncReport = .done tasks.length new.length skipped
    ∧ ((∀ task ∈ tasks, ∃ v ∈ cat.versions, v.At source.repositoryUrl sha task.path) → new = [])
  sources : cat'.sources = cat.sources.update row
  row : row = { source with
    defaultBranch := some branch
    lastCommitSha := some sha
    lastSyncedAt := some (env.now 0)
    syncStatus := row.syncStatus
    syncReport := row.syncReport
    updatedAt := row.updatedAt }

/-- What a synchronization that fails leaves. -/
def Failed (cat cat' : Catalog) (source : ProblemSource) : Prop :=
  cat' = cat ∨ ∃ status report time, cat' =
    { cat with
      sources := cat.sources.update
        { source with syncStatus := status, syncReport := report, updatedAt := time } }

section Step

variable {γ : Type} {py : Python} {settings : GitSettings} {env : SyncEnv} {cat cat' : Catalog}
  {source row : ProblemSource} {branch sha : String} {tasks : List Task} {skipped : List Skipped}

theorem synchronized_of_store (hunique : cat.Unique)
    (h : store py env source branch sha cat tasks skipped = .ok (cat', row)) :
    Synchronized env cat cat' source row branch sha tasks skipped ∧ cat'.Unique := by
  obtain ⟨mid, created, hadds, rfl, rfl⟩ := store_ok h
  have hmid := hadds.unique hunique
  obtain ⟨new, hnew, rfl, -⟩ := hadds.versions
  refine ⟨⟨fun task htask => ?_, hadds.problems, ⟨new, hnew, rfl, fun hall => ?_⟩, ?_, rfl⟩,
    hmid.problems, hmid.versions⟩
  · obtain ⟨v, hv, hvat⟩ := hadds.present task htask
    refine ⟨v, ⟨hv, hvat⟩, fun v' ⟨hv', hvat'⟩ => hmid.versions v hv v' hv' ?_⟩
    rw [hvat.1, hvat.2.1, hvat.2.2]
    exact hvat'
  · exact List.length_eq_zero_iff.mp (hadds.idle hall)
  · rw [hadds.sources]

theorem register_ok {name url : String} {defaultBranch : Option String}
    (h : ProblemSourceManager.register py settings env cat name url defaultBranch
      = .ok (cat', source)) :
    ∃ sources, cat.sources.insert? source = some sources ∧ cat' = { cat with sources }
      ∧ source.lastCommitSha = none ∧ source.lastSyncedAt = none
      ∧ GitRepositoryManager.validateUrl py settings source.repositoryUrl
        = .ok source.repositoryUrl := by
  unfold ProblemSourceManager.register at h
  obtain ⟨url', hurl, h⟩ := ok_of_bind h
  obtain ⟨cat₁, hins, hret⟩ := ok_of_bind h
  obtain ⟨rfl, rfl⟩ := Prod.mk.inj (Except.ok.inj hret)
  obtain ⟨-, -, hins⟩ := ProblemSourceManager.ok_of_inserted hins
  unfold Catalog.insertSource at hins
  split at hins
  · cases hins
  · obtain ⟨sources, hsources, hcat⟩ := Option.map_eq_some_iff.mp hins
    obtain rfl := GitRepositoryManager.validateUrl_ok hurl
    exact ⟨sources, hsources, hcat.symm, rfl, rfl, hurl⟩

end Step

/-! ## What the source rows tell -/

namespace ProblemSource.SameCommit

variable {a b c : ProblemSource}

theorem refl (a : ProblemSource) : a.SameCommit a := ⟨rfl, rfl, rfl⟩

theorem trans (h : a.SameCommit b) (h' : b.SameCommit c) : a.SameCommit c :=
  ⟨h.defaultBranch.trans h'.defaultBranch, h.lastCommitSha.trans h'.lastCommitSha,
    h.lastSyncedAt.trans h'.lastSyncedAt⟩

end ProblemSource.SameCommit

/-- After the events `tr`, a row tells of the last successful synchronization
of its source, or else is as registered. -/
structure Told (tr : List SourceEvent) (cat : Catalog) : Prop where
  unique : cat.Unique
  rows : ∀ source ∈ cat.sources, ∃ origin, .registered origin ∈ tr ∧ origin.id = source.id
    ∧ origin.lastCommitSha = none ∧ origin.lastSyncedAt = none
    ∧ source.SameCommit ((SourceEvent.lastSync source.id tr).getD origin)
  synced : ∀ row, .synced row ∈ tr → ∃ source ∈ cat.sources, source.id = row.id

namespace Told

open SourceEvent

variable {tr : List SourceEvent} {cat cat' : Catalog} {l : SourceEvent}

/-- An event that only rewrites what is not told. -/
theorem quiet (h : Told tr cat) (hl : ∀ sourceId, l.syncOf sourceId = none)
    (hunique : cat'.Unique)
    (hrows : ∀ x ∈ cat'.sources, ∃ y ∈ cat.sources, y.id = x.id ∧ x.SameCommit y)
    (hkeep : ∀ y ∈ cat.sources, ∃ x ∈ cat'.sources, x.id = y.id) : Told (tr ++ [l]) cat' where
  unique := hunique
  rows x hx := by
    obtain ⟨y, hy, hid, hsame⟩ := hrows x hx
    obtain ⟨origin, hmem, horigin, hsha, htime, htold⟩ := h.rows y hy
    refine ⟨origin, List.mem_append_left _ hmem, horigin.trans hid, hsha, htime, ?_⟩
    rw [lastSync_concat, hl, Option.none_or, ← hid]
    exact hsame.trans htold
  synced row hrow := by
    rcases List.mem_append.mp hrow with hrow | hrow
    · obtain ⟨y, hy, hid⟩ := h.synced row hrow
      obtain ⟨x, hx, hxid⟩ := hkeep y hy
      exact ⟨x, hx, hxid.trans hid⟩
    · have hsome := hl row.id
      rw [← List.mem_singleton.mp hrow, syncOf, if_pos rfl] at hsome
      cases hsome

theorem unchanged (h : Told tr cat) (hl : ∀ sourceId, l.syncOf sourceId = none) :
    Told (tr ++ [l]) cat :=
  h.quiet hl h.unique (fun x hx => ⟨x, hx, rfl, .refl x⟩) fun y hy => ⟨y, hy, rfl⟩

theorem registered (h : Told tr cat) {source : ProblemSource} {sources : Table ProblemSource}
    (hins : cat.sources.insert? source = some sources) (hsha : source.lastCommitSha = none)
    (htime : source.lastSyncedAt = none) :
    Told (tr ++ [.registered source]) { cat with sources } where
  unique := ⟨h.unique.problems, h.unique.versions⟩
  rows x hx := by
    have hsync : (SourceEvent.registered source).syncOf x.id = none := rfl
    rw [lastSync_concat, hsync, Option.none_or]
    rcases (Table.mem_insert? hins).mp hx with hx | rfl
    · obtain ⟨origin, hmem, hrest⟩ := h.rows x hx
      exact ⟨origin, List.mem_append_left _ hmem, hrest⟩
    · refine ⟨x, List.mem_append_right _ (List.mem_singleton_self _), rfl, hsha, htime, ?_⟩
      -- The key is new, so no synchronization was under it.
      have hnone : lastSync x.id tr = none := by
        refine List.findSome?_eq_none_iff.mpr fun l hl => ?_
        cases l with
        | synced row =>
            obtain ⟨y, hy, hid⟩ := h.synced row (List.mem_reverse.mp hl)
            have hne : row.id ≠ x.id := fun heq =>
              Table.fresh_of_insert? hins y hy (hid.trans heq)
            rw [syncOf, if_neg hne]
        | _ => rfl
      rw [hnone]
      exact .refl x
  synced row hrow := by
    rcases List.mem_append.mp hrow with hrow | hrow
    · obtain ⟨y, hy, hid⟩ := h.synced row hrow
      exact ⟨y, (Table.mem_insert? hins).mpr (Or.inl hy), hid⟩
    · cases List.mem_singleton.mp hrow

theorem failure (h : Told tr cat) {source : ProblemSource} {e : SyncError}
    (hsource : source ∈ cat.sources) (hfailed : Failed cat cat' source) :
    Told (tr ++ [.failed source.id e]) cat' := by
  rcases hfailed with rfl | ⟨status, report, time, rfl⟩
  · exact h.unchanged fun _ => rfl
  · let row := { source with syncStatus := status, syncReport := report, updatedAt := time }
    have hmem : ∀ x, x ∈ cat.sources.update row ↔ x = row ∨ (x ∈ cat.sources ∧ x ≠ source) :=
      fun x => Table.mem_update row hsource rfl
    refine h.quiet (fun _ => rfl) ⟨h.unique.problems, h.unique.versions⟩ (fun x hx => ?_)
      fun y hy => ?_
    · rcases (hmem x).mp hx with rfl | ⟨hx, -⟩
      · exact ⟨source, hsource, rfl, rfl, rfl, rfl⟩
      · exact ⟨x, hx, rfl, .refl x⟩
    · by_cases hys : y = source
      · exact ⟨row, (hmem row).mpr (Or.inl rfl), by rw [hys]⟩
      · exact ⟨y, (hmem y).mpr (Or.inr ⟨hy, hys⟩), rfl⟩

theorem success (h : Told tr cat) {env : SyncEnv} {source row : ProblemSource}
    {branch sha : String} {tasks : List Task} {skipped : List Skipped}
    (hsource : source ∈ cat.sources) (hunique : cat'.Unique)
    (hsync : Synchronized env cat cat' source row branch sha tasks skipped) :
    Told (tr ++ [.synced row]) cat' := by
  have hid : row.id = source.id := by rw [hsync.row]
  have hmem : ∀ x, x ∈ cat'.sources ↔ x = row ∨ (x ∈ cat.sources ∧ x ≠ source) := fun x => by
    rw [hsync.sources, Table.mem_update row hsource hid]
  refine ⟨hunique, fun x hx => ?_, fun row' hrow' => ?_⟩
  · rw [lastSync_concat, syncOf]
    rcases (hmem x).mp hx with rfl | ⟨hx, hne⟩
    · obtain ⟨origin, horigin, hoid, hsha, htime, -⟩ := h.rows source hsource
      rw [if_pos rfl]
      exact ⟨origin, List.mem_append_left _ horigin, hoid.trans hid.symm, hsha, htime, .refl _⟩
    · obtain ⟨origin, horigin, hrest⟩ := h.rows x hx
      rw [if_neg fun heq => hne (Table.eq_of_key_eq hx hsource (heq.symm.trans hid)),
        Option.none_or]
      exact ⟨origin, List.mem_append_left _ horigin, hrest⟩
  · rcases List.mem_append.mp hrow' with hrow' | hrow'
    · obtain ⟨y, hy, hyid⟩ := h.synced row' hrow'
      by_cases hys : y = source
      · exact ⟨row, (hmem row).mpr (Or.inl rfl), by rw [hid, ← hys, hyid]⟩
      · exact ⟨y, (hmem y).mpr (Or.inr ⟨hy, hys⟩), hyid⟩
    · obtain rfl := SourceEvent.synced.inj (List.mem_singleton.mp hrow')
      exact ⟨row', (hmem row').mpr (Or.inl rfl), rfl⟩

end Told

section History

variable {γ : Type} {py : Python} {settings : GitSettings} {cat cat' : Catalog}
  {tr : List SourceEvent} {l : SourceEvent}

theorem Told.step (h : Told tr cat) (hstep : SourceStep py settings γ cat l cat') :
    Told (tr ++ [l]) cat' := by
  cases hstep with
  | register hregister =>
      obtain ⟨sources, hins, rfl, hsha, htime, -⟩ := register_ok hregister
      exact h.registered hins hsha htime
  | refuse => exact h.unchanged fun _ => rfl
  | sync git token env cache sourceId =>
      rcases sync_cases py settings git token env ⟨cat, cache⟩ sourceId with
        ⟨-, e, hsync⟩ | ⟨source, hget, -, ⟨e, cache', hsync⟩ |
          ⟨branch, sha, tasks, skipped, cache', catalog, row, -, hstore, hsync⟩⟩ <;>
        rw [hsync]
      · exact h.unchanged fun _ => rfl
      · obtain ⟨hsource, rfl⟩ := Table.get?_eq_some.mp hget
        obtain ⟨⟨e', herror⟩, hcatalog⟩ := failed_cases env ⟨cat, cache'⟩ source e
        rw [herror]
        exact h.failure hsource (hcatalog.imp id fun hrow => ⟨_, _, _, hrow⟩)
      · obtain ⟨hsource, rfl⟩ := Table.get?_eq_some.mp hget
        obtain ⟨hsynced, hunique⟩ := synchronized_of_store h.unique hstore
        exact h.success hsource hunique hsynced

theorem Told.run {cat₀ : Catalog} (h₀ : cat₀.Empty)
    (hrun : (sourceHistory py settings γ).Run cat₀ tr cat) : Told tr cat := by
  induction hrun with
  | nil =>
      obtain ⟨hsources, hproblems, hversions⟩ := h₀
      exact ⟨⟨by simp [hproblems], by simp [hversions]⟩, by simp [hsources], by simp⟩
  | snoc _ hstep ih => exact ih.step hstep

end History

/-- **Synchronization.** In every history of registrations and
synchronizations there is at most one problem for a source and a path, and
at most one version for a repository, commit and path. A source tells of
its last successful synchronization. The next one stores the tasks of its
commit, adding versions only where there are none, or it fails and changes
no more than the status of the source. -/
theorem sync_history {py : Python} {settings : GitSettings} {γ : Type} {cat₀ cat : Catalog}
    {tr : List SourceEvent} (h₀ : cat₀.Empty)
    (hrun : (sourceHistory py settings γ).Run cat₀ tr cat) :
    cat.Unique
      ∧ (∀ source ∈ cat.sources, ∃ origin, .registered origin ∈ tr ∧ origin.id = source.id
          ∧ origin.lastCommitSha = none ∧ origin.lastSyncedAt = none
          ∧ source.SameCommit ((SourceEvent.lastSync source.id tr).getD origin))
      ∧ ∀ (git : GitHost γ) (token : Option String) (env : SyncEnv) (cache : Cache γ),
          ∀ source ∈ cat.sources, source.enabled = true → ∀ t,
            (∀ row, sync py settings git token env ⟨cat, cache⟩ source.id = (.ok row, t) →
              ∃ branch sha tasks skipped,
                acquire py settings git token source cache
                    = (.ok (branch, sha, tasks, skipped), t.cache)
                  ∧ Synchronized env cat t.catalog source row branch sha tasks skipped)
              ∧ ∀ e, sync py settings git token env ⟨cat, cache⟩ source.id = (.error e, t) →
                Failed cat t.catalog source := by
  have htold := Told.run h₀ hrun
  refine ⟨htold.unique, htold.rows, ?_⟩
  intro git token env cache source hsource henabled t
  have hget : cat.sources.get? source.id = some source := Table.get?_eq_some.mpr ⟨hsource, rfl⟩
  rcases sync_cases py settings git token env ⟨cat, cache⟩ source.id with
    ⟨hrefused, -⟩ | ⟨source', hget', -, ⟨e', cache', hsync⟩ |
      ⟨branch, sha, tasks, skipped, cache', catalog, row', hacquire, hstore, hsync⟩⟩
  · rw [hrefused source hget] at henabled
    cases henabled
  · obtain rfl := Option.some.inj (hget.symm.trans hget')
    obtain ⟨⟨e'', herror⟩, hcatalog⟩ := failed_cases env ⟨cat, cache'⟩ source e'
    rw [hsync]
    refine ⟨fun row hrow => ?_, fun e he => ?_⟩
    · rw [hrow] at herror
      cases herror
    · rw [he] at hcatalog
      exact hcatalog.imp id fun hrow => ⟨_, _, _, hrow⟩
  · obtain rfl := Option.some.inj (hget.symm.trans hget')
    rw [hsync]
    refine ⟨fun row hrow => ?_, nofun⟩
    obtain ⟨hrow', rfl⟩ := Prod.mk.inj hrow
    obtain rfl := Except.ok.inj hrow'
    exact ⟨branch, sha, tasks, skipped, hacquire, (synchronized_of_store htold.unique hstore).1⟩

/-! ### A repeated synchronization -/

namespace Sample

def syncedBy (git : GitHost Unit) (cat : Catalog) : Except SyncError ProblemSource × Catalog :=
  let r := sync python gitSettings git none syncEnv ⟨cat, sources.cache⟩ 5
  (r.1, r.2.catalog)

/-- A registration and some synchronizations, the last one first. -/
def history : List (GitHost Unit) → List SourceEvent × Catalog
  | [] => ([.registered source], sources.catalog)
  | git :: gits =>
      let (tr, cat) := history gits
      (tr ++ [.ofSync 5 (syncedBy git cat).1], (syncedBy git cat).2)

theorem registered : ProblemSourceManager.register python gitSettings
    ⟨fun _ => 5, fun _ => 0, fun _ => true, true, true⟩ ⟨.empty, .empty, .empty⟩ source.name
    source.repositoryUrl none = .ok (sources.catalog, source) := by
  have hvalid : GitRepositoryManager.validateUrl python gitSettings source.repositoryUrl
      = .ok source.repositoryUrl := by decide +kernel
  unfold ProblemSourceManager.register
  rw [bind_of_ok hvalid]
  rfl

theorem history_run : ∀ gits, (sourceHistory python gitSettings Unit).Run ⟨.empty, .empty, .empty⟩
    (history gits).1 (history gits).2
  | [] => .single (.register registered)
  | git :: gits => (history_run gits).snoc (.sync git none syncEnv sources.cache 5)

/-- The same commit twice, then no network. -/
def repeated : List SourceEvent × Catalog := history [offline, host demoFiles, host demoFiles]

end Sample

theorem sync_history_repeated :
    (sourceHistory Sample.python Sample.gitSettings Unit).Run ⟨.empty, .empty, .empty⟩
        Sample.repeated.1 Sample.repeated.2
      ∧ Sample.repeated.2.problems.rows.length = 1 ∧ Sample.repeated.2.versions.rows.length = 1
      ∧ ∀ source ∈ Sample.repeated.2.sources, source.syncStatus = "FAILED"
          ∧ source.lastCommitSha = some Sample.sha := by
  have hrun : (sourceHistory Sample.python Sample.gitSettings Unit).Run ⟨.empty, .empty, .empty⟩
      Sample.repeated.1 Sample.repeated.2 := Sample.history_run _
  obtain ⟨-, htold, -⟩ := sync_history ⟨rfl, rfl, rfl⟩ hrun
  obtain ⟨hproblems, hversions, hsources, hlast⟩ :
      Sample.repeated.2.problems.rows.length = 1 ∧ Sample.repeated.2.versions.rows.length = 1
        ∧ (∀ source ∈ Sample.repeated.2.sources.rows, source.id = 5 ∧ source.syncStatus = "FAILED")
        ∧ (SourceEvent.lastSync 5 Sample.repeated.1).map (·.lastCommitSha)
          = some (some Sample.sha) := by
    decide +kernel
  refine ⟨hrun, hproblems, hversions, fun source hsource => ?_⟩
  obtain ⟨hid, hstatus⟩ := hsources source hsource
  obtain ⟨origin, -, -, -, -, hsame⟩ := htold source hsource
  obtain ⟨row, hrow, hsha⟩ := Option.map_eq_some_iff.mp hlast
  rw [hid, hrow, Option.getD_some] at hsame
  exact ⟨hstatus, hsame.lastCommitSha.trans hsha⟩

end AgentBenchX
