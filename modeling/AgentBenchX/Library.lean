import AgentBenchX.SyncHistory
import Mathlib.Data.List.MinMax

/-!
# The problem library

`listing` shows each problem with the version of it that was created last.
A synchronization writes the row of a problem once, and reuses the version
of a commit it has stored before. So an entry follows the last
synchronization as long as the branch moves to new commits and the metadata
of a task stays; `Current` is what it takes in general.
-/

namespace AgentBenchX

open ProblemSourceManager

/-! ## The last row in an order -/

section Last

variable {α β : Type} [LinearOrder β] {l : List α} {f : α → β}

/-- A row that `order_by(f.desc()).limit(1)` may give; rows of one value
come in any order. -/
def IsLast (f : α → β) (l : List α) (a : α) : Prop := a ∈ l ∧ ∀ b ∈ l, f b ≤ f a

theorem exists_isLast {a : α} (ha : a ∈ l) : ∃ b, IsLast f l b := by
  cases hmax : l.argmax f with
  | none => rw [List.argmax_eq_none.mp hmax] at ha; cases ha
  | some b => exact ⟨b, List.argmax_mem hmax, fun c hc => List.le_of_mem_argmax hc hmax⟩

/-- The last row is the only one with a property just when the others are
strictly before it. -/
theorem isLast_only_iff {P : α → Prop} {a : α} (ha : a ∈ l) (honly : ∀ b ∈ l, P b ↔ b = a) :
    (∀ b, IsLast f l b → P b) ↔ ∀ b ∈ l, ¬P b → f b < f a := by
  constructor
  · intro h b hb hnot
    obtain ⟨m, hm⟩ := exists_isLast (f := f) ha
    obtain rfl := (honly m hm.1).mp (h m hm)
    refine (hm.2 b hb).lt_of_ne fun heq => hnot (h b ⟨hb, fun c hc => ?_⟩)
    rw [heq]
    exact hm.2 c hc
  · intro h b hb
    by_contra hnot
    exact (h b hb.1 hnot).not_ge (hb.2 a ha)

end Last

/-! ## The listing -/

/-- An entry of the problem library. -/
structure LibraryEntry where
  problem : Problem
  latestVersion : Option StoredVersion

/-- `select(ProblemVersion).where(problem_id)`. -/
def Catalog.versionsOf (cat : Catalog) (problemId : Uid) : List StoredVersion :=
  cat.versions.rows.filter fun v => decide (v.problemId = problemId)

/-- The entries of `listing`. A version keeps the `created_at` it was
inserted with, so the column is a function of the primary key. -/
def Catalog.Lists (created : Uid → Time) (cat : Catalog) (e : LibraryEntry) : Prop :=
  e.problem ∈ cat.problems ∧
    match e.latestVersion with
    | none => cat.versionsOf e.problem.id = []
    | some v => IsLast (fun v => created v.id) (cat.versionsOf e.problem.id) v

/-- The row of a problem tells what was discovered. -/
structure Problem.Tells (py : Python) (task : Task) (p : Problem) : Prop where
  name : p.name = task.name
  category : p.category = task.category
  type : typeText py task.type = some p.type
  difficulty : p.difficulty = task.difficulty

/-- The library shows `task` at the last commit of the source: it has an
entry for it, and whichever version is taken for the latest. -/
structure Catalog.Shows (created : Uid → Time) (py : Python) (cat : Catalog)
    (source : ProblemSource) (task : Task) : Prop where
  listed : ∃ e, cat.Lists created e ∧ e.problem.sourceId = source.id
    ∧ e.problem.problemKey = task.path
  shown : ∀ e, cat.Lists created e → e.problem.sourceId = source.id →
    e.problem.problemKey = task.path → e.problem.Tells py task
      ∧ ∃ v, e.latestVersion = some v ∧ source.lastCommitSha = some v.commitSha

/-! ## When it shows the commit -/

/-- The version of a path at the commit: the stored one, or the one the
first task of the path inserts. -/
def versionAt (env : SyncEnv) (cat : Catalog) (source : ProblemSource) (sha : String)
    (tasks : List (Task × ℕ)) (path : String) : Option Uid :=
  ((cat.versionOf source.repositoryUrl sha path).map (·.id)).or
    (tasks.findSome? fun x => if x.1.path = path then some (env.fresh (2 * x.2 + 1)) else none)

/-- Two tasks that one row tells of. -/
structure Task.Alike (py : Python) (a b : Task) : Prop where
  name : a.name = b.name
  category : a.category = b.category
  type : typeText py a.type = typeText py b.type
  difficulty : a.difficulty = b.difficulty

/-- What synchronizing `tasks` of commit `sha` takes for the library to
follow: the rows written before still tell of the tasks, no folder is
discovered twice with different metadata, and no version at another commit
was created as late as the one at this commit. -/
structure Current (created : Uid → Time) (py : Python) (env : SyncEnv) (cat : Catalog)
    (source : ProblemSource) (sha : String) (tasks : List Task) : Prop where
  problems : ∀ task ∈ tasks, ∀ p, cat.problemOf source.id task.path = some p → p.Tells py task
  alike : ∀ task ∈ tasks, ∀ task' ∈ tasks, task'.path = task.path → task'.Alike py task
  latest : ∀ task ∈ tasks, ∀ id, versionAt env cat source sha tasks.zipIdx task.path = some id →
    ∀ v ∈ cat.versions, v.repositoryUrl = source.repositoryUrl → v.problemPath = task.path →
      v.commitSha ≠ sha → created v.id < created id

theorem Problem.Tells.alike {py : Python} {p : Problem} {task task' : Task}
    (h : p.Tells py task) (h' : p.Tells py task') : task'.Alike py task where
  name := h'.name.symm.trans h.name
  category := h'.category.symm.trans h.category
  type := h'.type.trans h.type.symm
  difficulty := h'.difficulty.symm.trans h.difficulty

theorem Problem.Tells.of_alike {py : Python} {p : Problem} {task task' : Task}
    (h : p.Tells py task') (halike : task'.Alike py task) : p.Tells py task where
  name := h.name.trans halike.name
  category := h.category.trans halike.category
  type := halike.type.symm.trans h.type
  difficulty := h.difficulty.trans halike.difficulty

theorem ProblemSourceManager.tells_problemRow {py : Python} {source : ProblemSource} {id : Uid}
    {task : Task} {p : Problem} (h : problemRow py source id task = some p) :
    p.Tells py task ∧ p.id = id ∧ p.sourceId = source.id ∧ p.problemKey = task.path := by
  obtain ⟨type, htype, hrow⟩ := Option.bind_eq_some_iff.mp h
  obtain rfl := Option.some.inj hrow
  exact ⟨⟨rfl, rfl, htype, rfl⟩, rfl, rfl, rfl⟩

/-! ## Rows that belong together -/

namespace Catalog

/-- One source for each URL, and every version under the problem of its path
in the source of its repository. -/
structure Linked (cat : Catalog) : Prop where
  urls : ∀ s ∈ cat.sources, ∀ s' ∈ cat.sources, s'.repositoryUrl = s.repositoryUrl → s' = s
  versions : ∀ v ∈ cat.versions, ∃ p ∈ cat.problems, p.id = v.problemId
    ∧ p.problemKey = v.problemPath
    ∧ ∃ s ∈ cat.sources, s.id = p.sourceId ∧ s.repositoryUrl = v.repositoryUrl

variable {cat cat' : Catalog} {source : ProblemSource}

theorem problemOf_eq_some {sourceId : Uid} {key : String} {p : Problem}
    (h : cat.problemOf sourceId key = some p) :
    p ∈ cat.problems ∧ p.sourceId = sourceId ∧ p.problemKey = key :=
  ⟨List.mem_of_find?_eq_some h, by simpa using List.find?_some h⟩

/-- The versions of a problem are those of its path in the repository. -/
theorem Linked.mem_versionsOf (h : cat.Linked) (hunique : cat.Unique)
    (hsource : source ∈ cat.sources) {p : Problem} (hp : p ∈ cat.problems)
    (hid : p.sourceId = source.id) {v : StoredVersion} :
    v ∈ cat.versionsOf p.id ↔ v ∈ cat.versions ∧ v.repositoryUrl = source.repositoryUrl
      ∧ v.problemPath = p.problemKey := by
  rw [versionsOf, List.mem_filter, decide_eq_true_eq]
  refine and_congr_right fun hv => ?_
  obtain ⟨q, hq, hqid, hkey, s, hs, hsid, hurl⟩ := h.versions v hv
  constructor
  · intro hvp
    obtain rfl := Table.eq_of_key_eq hq hp (hqid.trans hvp)
    obtain rfl := Table.eq_of_key_eq hs hsource (hsid.trans hid)
    exact ⟨hurl.symm, hkey.symm⟩
  · rintro ⟨hvurl, hvkey⟩
    obtain rfl := h.urls source hsource s hs (hurl.trans hvurl)
    rw [← hqid, hunique.problems p hp q hq (hsid.symm.trans hid.symm) (hkey.trans hvkey)]

/-- Where a version is stored, both lookups find a row. -/
theorem Linked.found (h : cat.Linked) (hsource : source ∈ cat.sources) {v : StoredVersion}
    {sha path : String} (hv : v ∈ cat.versions) (hat : v.At source.repositoryUrl sha path) :
    ∃ p w, cat.problemOf source.id path = some p
      ∧ cat.versionOf source.repositoryUrl sha path = some w := by
  obtain ⟨q, hq, -, hkey, s, hs, hsid, hurl⟩ := h.versions v hv
  obtain rfl := h.urls source hsource s hs (hurl.trans hat.1)
  cases hp : cat.problemOf s.id path with
  | none => exact absurd ⟨hsid.symm, hkey.trans hat.2.2⟩ (problemOf_eq_none hp q hq)
  | some p =>
      cases hw : cat.versionOf s.repositoryUrl sha path with
      | none => exact absurd hat (versionOf_eq_none hw v hv)
      | some w => exact ⟨p, w, rfl, rfl⟩

theorem problemOf_insert {p : Problem} (h : cat.insertProblem p = some cat') (sourceId : Uid)
    (key : String) : cat'.problemOf sourceId key = (cat.problemOf sourceId key).or
      (if p.sourceId = sourceId ∧ p.problemKey = key then some p else none) := by
  obtain ⟨-, problems, hproblems, rfl⟩ := insertProblem_eq h
  rw [problemOf, Table.rows_insert? hproblems, List.find?_append, List.find?_singleton]
  simp only [decide_eq_true_eq]
  rfl

instance (v : StoredVersion) (url sha path : String) : Decidable (v.At url sha path) :=
  inferInstanceAs (Decidable (_ ∧ _))

theorem versionOf_insert {v : StoredVersion} (h : cat.insertVersion v = some cat')
    (url sha path : String) : cat'.versionOf url sha path = (cat.versionOf url sha path).or
      (if v.At url sha path then some v else none) := by
  obtain ⟨-, versions, hversions, rfl⟩ := insertVersion_eq h
  rw [versionOf, Table.rows_insert? hversions, List.find?_append, List.find?_singleton]
  simp only [decide_eq_true_eq]
  rfl

/-- A source row may be rewritten under its id and URL. -/
theorem Linked.update (h : cat.Linked) {s s' : ProblemSource} (hs : s ∈ cat.sources)
    (hid : s'.id = s.id) (hurl : s'.repositoryUrl = s.repositoryUrl) :
    Linked { cat with sources := cat.sources.update s' } where
  urls a ha b hb hab := by
    rcases (Table.mem_update s' hs hid).mp ha with rfl | ⟨ha₀, hne⟩ <;>
      rcases (Table.mem_update _ hs hid).mp hb with rfl | ⟨hb₀, hne'⟩
    · rfl
    · exact absurd (h.urls s hs b hb₀ (hab.trans hurl)) hne'
    · exact absurd (h.urls s hs a ha₀ (hab.symm.trans hurl)) hne
    · exact h.urls a ha₀ b hb₀ hab
  versions v hv := by
    obtain ⟨p, hp, hpid, hkey, a, ha, haid, haurl⟩ := h.versions v hv
    refine ⟨p, hp, hpid, hkey, ?_⟩
    by_cases has : a = s
    · subst has
      exact ⟨s', (Table.mem_update s' hs hid).mpr (Or.inl rfl), hid.trans haid, hurl.trans haurl⟩
    · exact ⟨a, (Table.mem_update s' hs hid).mpr (Or.inr ⟨ha, has⟩), haid, haurl⟩

theorem Linked.insertSource {s : ProblemSource} (h : cat.Linked)
    (hins : cat.insertSource s = some cat') : cat'.Linked := by
  unfold Catalog.insertSource at hins
  split at hins
  · cases hins
  · rename_i hnew
    obtain ⟨sources, hsources, rfl⟩ := Option.map_eq_some_iff.mp hins
    have hmem := fun x => Table.mem_insert? hsources (x := x)
    refine ⟨fun a ha b hb hab => ?_, fun v hv => ?_⟩
    · rcases (hmem a).mp ha with ha | rfl <;> rcases (hmem b).mp hb with hb | rfl
      · exact h.urls a ha b hb hab
      · exact absurd ⟨a, ha, hab.symm⟩ hnew
      · exact absurd ⟨b, hb, hab⟩ hnew
      · rfl
    · obtain ⟨p, hp, hpid, hkey, a, ha, hrest⟩ := h.versions v hv
      exact ⟨p, hp, hpid, hkey, a, (hmem a).mpr (Or.inl ha), hrest⟩

theorem Linked.insertProblem {p : Problem} (h : cat.Linked)
    (hins : cat.insertProblem p = some cat') : cat'.Linked := by
  obtain ⟨-, problems, hproblems, rfl⟩ := insertProblem_eq hins
  refine ⟨h.urls, fun v hv => ?_⟩
  obtain ⟨q, hq, hrest⟩ := h.versions v hv
  exact ⟨q, (Table.mem_insert? hproblems).mpr (Or.inl hq), hrest⟩

/-- A new version goes under the problem of its path. -/
theorem Linked.insertVersion {v : StoredVersion} {p : Problem} (h : cat.Linked)
    (hsource : source ∈ cat.sources) (hp : p ∈ cat.problems) (hid : p.sourceId = source.id)
    (hkey : p.problemKey = v.problemPath) (hurl : v.repositoryUrl = source.repositoryUrl)
    (hproblem : v.problemId = p.id) (hins : cat.insertVersion v = some cat') : cat'.Linked := by
  obtain ⟨-, versions, hversions, rfl⟩ := insertVersion_eq hins
  refine ⟨h.urls, fun w hw => ?_⟩
  rcases (Table.mem_insert? hversions).mp hw with hw | rfl
  · exact h.versions w hw
  · exact ⟨p, hp, hproblem.symm, hkey, source, hsource, hid.symm, hurl.symm⟩

end Catalog

/-! ## Storing the tasks -/

/-- What storing the tasks `done` of a commit makes of the lookups: a row
that was there stays, else the first task of the path has written it. -/
structure StoredTasks (py : Python) (env : SyncEnv) (source : ProblemSource) (sha : String)
    (done : List (Task × ℕ)) (cat cat' : Catalog) : Prop where
  sources : cat'.sources = cat.sources
  problemOf : ∀ path, cat'.problemOf source.id path = (cat.problemOf source.id path).or
    (done.findSome? fun x =>
      if x.1.path = path then problemRow py source (env.fresh (2 * x.2)) x.1 else none)
  versionOf : ∀ path, (cat'.versionOf source.repositoryUrl sha path).map (·.id)
    = versionAt env cat source sha done path
  linked : cat.Linked → source ∈ cat.sources → cat'.Linked

section Store

variable {py : Python} {env : SyncEnv} {source : ProblemSource} {branch sha : String}
  {cat mid cat' : Catalog} {done done' : List (Task × ℕ)}

theorem StoredTasks.refl (cat : Catalog) : StoredTasks py env source sha [] cat cat :=
  ⟨rfl, fun _ => (Option.or_none ..).symm, fun _ => (Option.or_none ..).symm, fun h _ => h⟩

theorem StoredTasks.trans (h : StoredTasks py env source sha done cat mid)
    (h' : StoredTasks py env source sha done' mid cat') :
    StoredTasks py env source sha (done ++ done') cat cat' where
  sources := h'.sources.trans h.sources
  problemOf path := by
    rw [h'.problemOf, h.problemOf, List.findSome?_append, Option.or_assoc]
  versionOf path := by
    rw [h'.versionOf, versionAt, h.versionOf, versionAt, versionAt, List.findSome?_append,
      Option.or_assoc]
  linked hlinked hsource := h'.linked (h.linked hlinked hsource) (h.sources ▸ hsource)

/-- The row of a problem, kept or written. -/
theorem storeProblem_row {task : Task} {i : ℕ} {problem : Problem}
    (h : storeProblem py env source cat task i = .ok (cat', problem)) :
    problem ∈ cat'.problems ∧ problem.sourceId = source.id ∧ problem.problemKey = task.path
      ∧ (cat.Linked → cat'.Linked)
      ∧ ∀ path, cat'.problemOf source.id path = (cat.problemOf source.id path).or
        (if task.path = path then problemRow py source (env.fresh (2 * i)) task else none) := by
  unfold storeProblem at h
  split at h
  · rename_i p hfound
    obtain ⟨rfl, rfl⟩ := Prod.mk.inj (Except.ok.inj h)
    obtain ⟨hp, hid, hkey⟩ := Catalog.problemOf_eq_some hfound
    refine ⟨hp, hid, hkey, id, fun path => ?_⟩
    by_cases hpath : task.path = path
    · rw [← hpath, hfound]
      rfl
    · rw [if_neg hpath, Option.or_none]
  · split at h
    · cases h
    · rename_i p hrow
      obtain ⟨new, hins, hret⟩ := ok_of_bind h
      obtain ⟨rfl, rfl⟩ := Prod.mk.inj (Except.ok.inj hret)
      obtain ⟨-, -, hins⟩ := ProblemSourceManager.ok_of_inserted hins
      obtain ⟨-, -, hid, hkey⟩ := tells_problemRow hrow
      obtain ⟨-, problems, hproblems, hcat⟩ := Catalog.insertProblem_eq hins
      refine ⟨?_, hid, hkey, fun hlinked => hlinked.insertProblem hins, fun path => ?_⟩
      · rw [hcat]
        exact (Table.mem_insert? hproblems).mpr (Or.inr rfl)
      · rw [Catalog.problemOf_insert hins, hid, hkey, hrow]
        simp only [true_and]

theorem storeTask_stored {n m : ℕ} {task : Task} {i : ℕ}
    (h : storeTask py env source branch sha (cat, n) (task, i) = .ok (cat', m)) :
    StoredTasks py env source sha [(task, i)] cat cat' := by
  unfold storeTask at h
  obtain ⟨⟨mid, problem⟩, hproblem, h⟩ := ok_of_bind h
  obtain ⟨hmem, hid, hkey, hlinked, hlookup⟩ := storeProblem_row hproblem
  obtain ⟨hsources, hversions, -⟩ := storeProblem_ok hproblem
  have hsame : ∀ url sha path, mid.versionOf url sha path = cat.versionOf url sha path :=
    fun url sha path => by rw [Catalog.versionOf, hversions]; rfl
  dsimp only at h
  split at h
  · rename_i v hfound
    obtain ⟨rfl, rfl⟩ := Prod.mk.inj (Except.ok.inj h)
    refine ⟨hsources, fun path => ?_, fun path => ?_, fun h _ => hlinked h⟩
    · rw [hlookup, List.findSome?_singleton]
    · rw [versionAt, hsame, List.findSome?_singleton]
      by_cases hpath : task.path = path
      · rw [hsame, hpath] at hfound
        rw [hfound]
        rfl
      · rw [if_neg hpath, Option.or_none]
  · obtain ⟨new, hins, hret⟩ := ok_of_bind h
    obtain ⟨rfl, rfl⟩ := Prod.mk.inj (Except.ok.inj hret)
    obtain ⟨-, -, hins⟩ := ProblemSourceManager.ok_of_inserted hins
    obtain ⟨-, versions, -, hcat⟩ := Catalog.insertVersion_eq hins
    refine ⟨by rw [hcat, hsources], fun path => ?_, fun path => ?_, fun h hsource => ?_⟩
    · rw [List.findSome?_singleton, ← hlookup, hcat]
      rfl
    · rw [Catalog.versionOf_insert hins, versionAt, hsame, List.findSome?_singleton,
        Option.map_or]
      congr 1
      by_cases hpath : task.path = path
      · rw [if_pos ⟨rfl, rfl, hpath⟩, if_pos hpath]
        rfl
      · rw [if_neg fun hat => hpath hat.2.2, if_neg hpath]
        rfl
    · exact (hlinked h).insertVersion (hsources ▸ hsource) hmem hid hkey rfl rfl hins

/-- The whole loop. -/
theorem storeTasks_stored {tasks : List Task} {created : ℕ}
    (h : tasks.zipIdx.foldlM (storeTask py env source branch sha) (cat, 0) = .ok (cat', created)) :
    StoredTasks py env source sha tasks.zipIdx cat cat' := by
  have hloop := foldlM_ok (P := fun rest (b : Catalog × ℕ) =>
      ∃ done, tasks.zipIdx = done ++ rest ∧ StoredTasks py env source sha done cat b.1) ?_ h
      ⟨[], rfl, .refl cat⟩
  · obtain ⟨done, hdone, hstored⟩ := hloop
    rw [hdone, List.append_nil]
    exact hstored
  · rintro ⟨task, i⟩ rest ⟨mid, n⟩ ⟨mid', m⟩ ⟨done, hdone, hstored⟩ hstep
    exact ⟨done ++ [(task, i)], by rw [hdone, List.append_assoc]; rfl,
      hstored.trans (storeTask_stored hstep)⟩

theorem store_stored {tasks : List Task} {skipped : List Skipped} {row : ProblemSource}
    (h : store py env source branch sha cat tasks skipped = .ok (cat', row)) :
    ∃ mid created, Adds py source branch sha tasks created cat mid
      ∧ StoredTasks py env source sha tasks.zipIdx cat mid
      ∧ row = syncedRow env source branch sha tasks.length created skipped
      ∧ cat' = { mid with sources := mid.sources.update row } := by
  unfold store at h
  obtain ⟨⟨mid, created⟩, hloop, h⟩ := ok_of_bind h
  obtain ⟨final, hins, hret⟩ := ok_of_bind h
  obtain ⟨rfl, rfl⟩ := Prod.mk.inj (Except.ok.inj hret)
  obtain ⟨-, -, hfinal⟩ := ProblemSourceManager.ok_of_inserted hins
  exact ⟨mid, created, storeTasks_ok hloop, storeTasks_stored hloop, rfl,
    (Option.some.inj hfinal).symm⟩

end Store

/-! ## The entry of a task -/

section Entry

variable {created : Uid → Time} {py : Python} {cat : Catalog} {source : ProblemSource}
  {sha : String} {task : Task} {p : Problem} {v₀ : StoredVersion}

/-- The entry of a task with problem `p` and version `v₀` at the commit. -/
theorem Catalog.shows_iff (hunique : cat.Unique) (hlinked : cat.Linked)
    (hsource : source ∈ cat.sources) (hsha : source.lastCommitSha = some sha)
    (hp : cat.problemOf source.id task.path = some p)
    (hv₀ : cat.versionOf source.repositoryUrl sha task.path = some v₀) :
    cat.Shows created py source task ↔ p.Tells py task
      ∧ ∀ v ∈ cat.versions, v.repositoryUrl = source.repositoryUrl → v.problemPath = task.path →
        v.commitSha ≠ sha → created v.id < created v₀.id := by
  obtain ⟨hp, hid, hkey⟩ := problemOf_eq_some hp
  obtain ⟨hmem, hat⟩ := versionOf_eq_some hv₀
  have hof : ∀ {v : StoredVersion}, v ∈ cat.versionsOf p.id ↔ v ∈ cat.versions
      ∧ v.repositoryUrl = source.repositoryUrl ∧ v.problemPath = p.problemKey :=
    hlinked.mem_versionsOf hunique hsource hp hid
  have hv₀p : v₀ ∈ cat.versionsOf p.id := hof.mpr ⟨hmem, hat.1, hat.2.2.trans hkey.symm⟩
  have honly : ∀ v ∈ cat.versionsOf p.id, v.commitSha = sha ↔ v = v₀ := fun v hv => by
    obtain ⟨hv, hurl, hpath⟩ := hof.mp hv
    refine ⟨fun hvsha => hunique.versions v₀ hmem v hv ?_, fun heq => heq ▸ hat.2.1⟩
    exact ⟨hurl.trans hat.1.symm, hvsha.trans hat.2.1.symm, hpath.trans (hkey.trans hat.2.2.symm)⟩
  have hlast := isLast_only_iff (f := fun v : StoredVersion => created v.id) hv₀p honly
  constructor
  · intro h
    have hentry : ∀ v, IsLast (fun v : StoredVersion => created v.id) (cat.versionsOf p.id) v →
        p.Tells py task ∧ v.commitSha = sha := fun v hv => by
      obtain ⟨htells, v', hv', hv'sha⟩ := h.shown ⟨p, some v⟩ ⟨hp, hv⟩ hid hkey
      obtain rfl := Option.some.inj hv'
      exact ⟨htells, Option.some.inj (hv'sha.symm.trans hsha)⟩
    obtain ⟨v, hv⟩ := exists_isLast (f := fun v : StoredVersion => created v.id) hv₀p
    refine ⟨(hentry v hv).1, fun w hw hurl hpath hne => ?_⟩
    exact hlast.mp (fun u hu => (hentry u hu).2) w (hof.mpr ⟨hw, hurl, hpath.trans hkey.symm⟩) hne
  · rintro ⟨htells, hbefore⟩
    have hcommit := hlast.mpr fun v hv hne => by
      obtain ⟨hv, hurl, hpath⟩ := hof.mp hv
      exact hbefore v hv hurl (hpath.trans hkey) hne
    obtain ⟨v, hv⟩ := exists_isLast (f := fun v : StoredVersion => created v.id) hv₀p
    refine ⟨⟨⟨p, some v⟩, ⟨hp, hv⟩, hid, hkey⟩, ?_⟩
    rintro ⟨q, latest⟩ ⟨hq, hlatest⟩ hqid hqkey
    obtain rfl : q = p := hunique.problems p hp q hq (hqid.trans hid.symm) (hqkey.trans hkey.symm)
    refine ⟨htells, ?_⟩
    cases latest with
    | none => rw [hlatest] at hv₀p; cases hv₀p
    | some w => exact ⟨w, rfl, hsha.trans (congrArg some (hcommit w hlatest).symm)⟩

end Entry

/-! ## After a synchronization -/

section Synced

variable {created : Uid → Time} {py : Python} {env : SyncEnv} {source row : ProblemSource}
  {branch sha : String} {cat cat' : Catalog} {tasks : List Task} {skipped : List Skipped}

theorem store_linked (hlinked : cat.Linked) (hsource : source ∈ cat.sources)
    (h : store py env source branch sha cat tasks skipped = .ok (cat', row)) :
    cat'.Linked ∧ row ∈ cat'.sources := by
  obtain ⟨mid, created, hadds, hstored, rfl, rfl⟩ := store_stored h
  have hmid : source ∈ mid.sources := hadds.sources ▸ hsource
  refine ⟨(hstored.linked hlinked hsource).update hmid rfl rfl, ?_⟩
  exact (Table.mem_update (syncedRow env source branch sha tasks.length created skipped)
    hmid rfl).mpr (Or.inl rfl)

/-- **One synchronization.** The library shows the tasks of the commit just
when they are current. -/
theorem store_shows_iff (hunique : cat.Unique) (hlinked : cat.Linked)
    (hsource : source ∈ cat.sources)
    (h : store py env source branch sha cat tasks skipped = .ok (cat', row)) :
    (∀ task ∈ tasks, cat'.Shows created py row task)
      ↔ Current created py env cat source sha tasks := by
  obtain ⟨hlinked', hrow⟩ := store_linked hlinked hsource h
  obtain ⟨-, hunique'⟩ := synchronized_of_store hunique h
  obtain ⟨mid, n, hadds, hstored, rfl, hcat⟩ := store_stored h
  obtain ⟨new, hversions, -, hnew⟩ := hadds.versions
  have hproblemOf : cat'.problemOf = mid.problemOf := by rw [hcat]; rfl
  have hversionOf : cat'.versionOf = mid.versionOf := by rw [hcat]; rfl
  -- The entry of a task, in the tables the loop leaves.
  have hentry : ∀ task ∈ tasks, ∃ p v, mid.problemOf source.id task.path = some p
      ∧ mid.versionOf source.repositoryUrl sha task.path = some v
      ∧ (cat'.Shows created py (syncedRow env source branch sha tasks.length n skipped) task
        ↔ p.Tells py task
          ∧ ∀ w ∈ cat'.versions, w.repositoryUrl = source.repositoryUrl →
            w.problemPath = task.path → w.commitSha ≠ sha → created w.id < created v.id) :=
    fun task htask => by
      obtain ⟨v, hv, hat⟩ := hadds.present task htask
      obtain ⟨p, w, hp, hw⟩ := hlinked'.found hrow (hcat ▸ hv) hat
      exact ⟨p, w, hproblemOf ▸ hp, hversionOf ▸ hw,
        Catalog.shows_iff hunique' hlinked' hrow rfl hp hw⟩
  constructor
  · intro hshows
    refine ⟨fun task htask p hp => ?_, fun task htask task' htask' hpath => ?_,
      fun task htask id hid v hv hurl hpath hne => ?_⟩
    · obtain ⟨q, v, hq, -, hiff⟩ := hentry task htask
      rw [hstored.problemOf, hp] at hq
      obtain rfl := Option.some.inj hq
      exact (hiff.mp (hshows task htask)).1
    · obtain ⟨p, v, hp, -, hiff⟩ := hentry task htask
      obtain ⟨p', v', hp', -, hiff'⟩ := hentry task' htask'
      rw [hpath, hp] at hp'
      obtain rfl := Option.some.inj hp'
      exact (hiff.mp (hshows task htask)).1.alike (hiff'.mp (hshows task' htask')).1
    · obtain ⟨q, w, -, hw, hiff⟩ := hentry task htask
      rw [← hstored.versionOf, hw] at hid
      rw [← Option.some.inj hid]
      exact (hiff.mp (hshows task htask)).2 v (hcat ▸ hadds.mem_versions hv) hurl hpath hne
  · intro hcurrent task htask
    obtain ⟨p, v, hp, hv, hiff⟩ := hentry task htask
    refine hiff.mpr ⟨?_, fun w hw hurl hpath hne => ?_⟩
    · rw [hstored.problemOf] at hp
      cases hold : cat.problemOf source.id task.path with
      | some q =>
          rw [hold] at hp
          exact Option.some.inj hp ▸ hcurrent.problems task htask q hold
      | none =>
          -- The first task of the path wrote the row.
          rw [hold, Option.none_or] at hp
          obtain ⟨⟨task', i⟩, hmem, hrow'⟩ := List.exists_of_findSome?_eq_some hp
          split at hrow'
          · rename_i hpath
            have htask' : task' ∈ tasks := List.fst_mem_of_mem_zipIdx hmem
            exact (tells_problemRow hrow').1.of_alike (hcurrent.alike task htask task' htask' hpath)
          · cases hrow'
    · have hid := hstored.versionOf task.path
      rw [hv] at hid
      refine hcurrent.latest task htask v.id hid.symm w ?_ hurl hpath hne
      rw [hcat, Table.mem_def, hversions] at hw
      rcases List.mem_append.mp hw with hw | hw
      · exact hw
      · obtain ⟨task', -, hof⟩ := hnew w hw
        exact absurd hof.at.2.1 hne

end Synced

/-! ## Histories -/

section History

variable {γ : Type} {py : Python} {settings : GitSettings} {cat cat' : Catalog}
  {tr : List SourceEvent} {l : SourceEvent}

theorem Catalog.Linked.step (hlinked : cat.Linked)
    (hstep : SourceStep py settings γ cat l cat') : cat'.Linked := by
  cases hstep with
  | register hregister =>
      unfold ProblemSourceManager.register at hregister
      obtain ⟨url, -, hregister⟩ := ok_of_bind hregister
      obtain ⟨new, hins, hret⟩ := ok_of_bind hregister
      obtain ⟨rfl, rfl⟩ := Prod.mk.inj (Except.ok.inj hret)
      exact hlinked.insertSource (ProblemSourceManager.ok_of_inserted hins).2.2
  | refuse => exact hlinked
  | sync git token env cache sourceId =>
      rcases sync_cases py settings git token env ⟨cat, cache⟩ sourceId with
        ⟨-, e, hsync⟩ | ⟨source, hget, -, ⟨e, cache', hsync⟩ |
          ⟨branch, sha, tasks, skipped, cache', catalog, row, -, hstore, hsync⟩⟩ <;>
        rw [hsync]
      · exact hlinked
      · rcases (failed_cases env ⟨cat, cache'⟩ source e).2 with hcatalog | hcatalog <;>
          rw [hcatalog]
        · exact hlinked
        · exact hlinked.update (Table.mem_of_get? hget) rfl rfl
      · exact (store_linked hlinked (Table.mem_of_get? hget) hstore).1

theorem Catalog.Linked.run {cat₀ : Catalog} (h₀ : cat₀.Empty)
    (hrun : (sourceHistory py settings γ).Run cat₀ tr cat) : cat.Linked := by
  induction hrun with
  | nil =>
      obtain ⟨hsources, -, hversions⟩ := h₀
      exact ⟨by simp [hsources], by simp [hversions]⟩
  | snoc _ hstep ih => exact ih.step hstep

end History

/-- **The problem library.** In every history of registrations and
synchronizations, the library shows every task of a commit right after it
was synchronized just when the tasks were current. -/
theorem library_shows_commit {γ : Type} {py : Python} {settings : GitSettings}
    {cat₀ cat : Catalog} {tr : List SourceEvent} (created : Uid → Time) (h₀ : cat₀.Empty)
    (hrun : (sourceHistory py settings γ).Run cat₀ tr cat) (git : GitHost γ)
    (token : Option String) (env : SyncEnv) (cache : Cache γ) (sourceId : Uid)
    (row : ProblemSource) (t : SyncServer γ)
    (hsync : sync py settings git token env ⟨cat, cache⟩ sourceId = (.ok row, t)) :
    ∃ source branch sha tasks skipped,
      cat.sources.get? sourceId = some source
        ∧ acquire py settings git token source cache
          = (.ok (branch, sha, tasks, skipped), t.cache)
        ∧ row.lastCommitSha = some sha
        ∧ ((∀ task ∈ tasks, t.catalog.Shows created py row task)
          ↔ Current created py env cat source sha tasks) := by
  obtain ⟨source, branch, sha, tasks, skipped, hget, -, hacquire, hstore⟩ := sync_stored hsync
  refine ⟨source, branch, sha, tasks, skipped, hget, hacquire, ?_, ?_⟩
  · obtain ⟨-, -, -, rfl, -⟩ := store_ok hstore
    rfl
  · exact store_shows_iff (Told.run h₀ hrun).unique (.run h₀ hrun) (Table.mem_of_get? hget) hstore

/-! ### A branch that moves -/

namespace Sample

/-- Git at another commit of the same files. -/
def hostAt (commit : String) : GitHost Unit where
  pathExists := (host demoFiles).pathExists
  mkdir := (host demoFiles).mkdir
  spawn c args cwd :=
    if (args.drop 7).head? = some "rev-parse" then (.exited 0 (ascii commit) [], c)
    else (host demoFiles).spawn c args cwd

def commitA : String := "aaaaaaaaaaaaaaaaaaaaaaaaaaaaaaaaaaaaaaaa"
def commitB : String := "bbbbbbbbbbbbbbbbbbbbbbbbbbbbbbbbbbbbbbbb"

/-- The `n`-th synchronization takes its keys from `2 * n` on. -/
def syncedAt (commit : String) (n : ℕ) (cat : Catalog) :
    Except SyncError ProblemSource × SyncServer Unit :=
  sync python gitSettings (hostAt commit) none { syncEnv with fresh := fun i => 2 * n + i }
    ⟨cat, sources.cache⟩ 5

/-- A registration and synchronizations of these commits, the last one
first. -/
def timeline : List String → List SourceEvent × Catalog
  | [] => ([.registered source], sources.catalog)
  | commit :: before =>
      let (tr, cat) := timeline before
      let r := syncedAt commit before.length cat
      (tr ++ [.ofSync 5 r.1], r.2.catalog)

theorem timeline_run : ∀ commits, (sourceHistory python gitSettings Unit).Run
    ⟨.empty, .empty, .empty⟩ (timeline commits).1 (timeline commits).2
  | [] => .single (.register registered)
  | commit :: before => (timeline_run before).snoc (.sync (hostAt commit) none _ sources.cache 5)

/-- The clock of the versions: keys are handed out in order. -/
def createdAt (id : Uid) : Time := id

/-- What is to be told of a task. -/
structure Tale where
  path : String
  name : String
  category : String
  type : Option String
  difficulty : String
deriving DecidableEq

def taleOf (task : Task) : Tale :=
  ⟨task.path, task.name, task.category, typeText python task.type, task.difficulty⟩

def taleOfRow (p : Problem) : Tale :=
  ⟨p.problemKey, p.name, p.category, some p.type, p.difficulty⟩

/-- What is discovered in the commit. -/
def discovered (commit : String) (source : ProblemSource) : Option (String × List Tale) :=
  (acquire python gitSettings (hostAt commit) none source sources.cache).1.toOption.map
    fun r => (r.2.1, r.2.2.1.map taleOf)

/-- Both commits hold this task. -/
def demoTale : Tale := ⟨"d", "d", "CODING", some "BUG_FIX", "MEDIUM"⟩

theorem discovered_eq {commit branch sha : String} {source : ProblemSource} {tasks : List Task}
    {skipped : List Skipped} {cache : Cache Unit}
    (h : acquire python gitSettings (hostAt commit) none source sources.cache
      = (.ok (branch, sha, tasks, skipped), cache))
    (hdiscovered : discovered commit source = some (commit, [demoTale])) :
    sha = commit ∧ ∃ task, tasks = [task] ∧ taleOf task = demoTale := by
  rw [discovered, h] at hdiscovered
  obtain ⟨hsha, htasks⟩ := Prod.mk.inj (Option.some.inj hdiscovered)
  obtain ⟨task, rest, rfl, htask, hrest⟩ := List.map_eq_cons_iff.mp htasks
  obtain rfl := List.map_eq_nil_iff.mp hrest
  exact ⟨hsha, task, rfl, htask⟩

theorem syncedAt_ok {commit : String} {n : ℕ} {cat : Catalog}
    (h : (syncedAt commit n cat).1.isOk = true) :
    ∃ row t, syncedAt commit n cat = (.ok row, t)
      ∧ ∃ source branch sha tasks skipped, cat.sources.get? 5 = some source
        ∧ acquire python gitSettings (hostAt commit) none source sources.cache
          = (.ok (branch, sha, tasks, skipped), t.cache)
        ∧ store python { syncEnv with fresh := fun i => 2 * n + i } source branch sha cat tasks
          skipped = .ok (t.catalog, row) := by
  cases hsync : syncedAt commit n cat with
  | mk r t =>
      cases r with
      | ok row =>
          obtain ⟨source, branch, sha, tasks, skipped, hget, -, hacquire, hstore⟩ :=
            sync_stored hsync
          exact ⟨row, t, rfl, source, branch, sha, tasks, skipped, hget, hacquire, hstore⟩
      | error e => rw [hsync] at h; cases h

end Sample

open Sample in
/-- A branch that moves on. -/
theorem library_shows_commit_forward :
    ∃ row t source branch sha tasks skipped,
      (sourceHistory python gitSettings Unit).Run ⟨.empty, .empty, .empty⟩
          (timeline [commitA]).1 (timeline [commitA]).2
        ∧ syncedAt commitB 1 (timeline [commitA]).2 = (.ok row, t)
        ∧ acquire python gitSettings (hostAt commitB) none source sources.cache
          = (.ok (branch, sha, tasks, skipped), t.cache)
        ∧ row.lastCommitSha = some commitB ∧ tasks.length = 1
        ∧ ∀ task ∈ tasks, t.catalog.Shows createdAt python row task := by
  obtain ⟨hok, hfacts⟩ : (syncedAt commitB 1 (timeline [commitA]).2).1.isOk = true
      ∧ ((timeline [commitA]).2.sources.get? 5).map (fun s => (discovered commitB s,
          ((timeline [commitA]).2.problemOf 5 "d").map taleOfRow,
          ((timeline [commitA]).2.versionOf s.repositoryUrl commitB "d").map (·.id),
          (timeline [commitA]).2.versions.rows.map (·.id)))
        = some (some (commitB, [demoTale]), some demoTale, none, [1]) := by decide +kernel
  obtain ⟨row, t, hsync, -⟩ := syncedAt_ok hok
  obtain ⟨source, branch, sha, tasks, skipped, hget, hacquire, hsha, hiff⟩ :=
    library_shows_commit createdAt ⟨rfl, rfl, rfl⟩ (timeline_run [commitA]) (hostAt commitB)
      none _ sources.cache 5 row t hsync
  rw [hget, Option.map_some, Option.some_inj, Prod.mk.injEq, Prod.mk.injEq, Prod.mk.injEq] at hfacts
  obtain ⟨hdiscovered, hproblem, hnone, hids⟩ := hfacts
  obtain ⟨rfl, task, rfl, htask⟩ := discovered_eq hacquire hdiscovered
  have hid := Table.key_of_get? hget
  have hpath : task.path = "d" := congrArg Tale.path htask
  refine ⟨row, t, source, branch, _, _, skipped, timeline_run _, hsync, hacquire, hsha, rfl,
    hiff.mpr ⟨?_, ?_, ?_⟩⟩
  · intro task' htask' p hp
    rw [List.mem_singleton.mp htask'] at hp ⊢
    rw [← key_problemSource, hid, hpath] at hp
    rw [hp, ← htask] at hproblem
    obtain ⟨-, hname, hcategory, htype, hdifficulty⟩ := Tale.mk.inj (Option.some.inj hproblem)
    exact ⟨hname, hcategory, htype.symm, hdifficulty⟩
  · intro a ha b hb _
    rw [List.mem_singleton.mp ha, List.mem_singleton.mp hb]
    exact ⟨rfl, rfl, rfl, rfl⟩
  · intro task' htask' id hversion v hv _ _ _
    have hold : v.id = 1 :=
      List.mem_singleton.mp (hids ▸ List.mem_map_of_mem (f := fun v : StoredVersion => v.id) hv)
    rw [← hpath] at hnone
    rw [List.mem_singleton.mp htask', versionAt, hnone, Option.none_or, List.zipIdx_singleton,
      List.findSome?_singleton, if_pos rfl] at hversion
    rw [hold, ← Option.some.inj hversion]
    exact (by decide +kernel : createdAt 1 < createdAt 3)

open Sample in
/-- A branch that moves back: the source is at the first commit again, the
library at the second. -/
theorem branch_moved_back :
    ∃ row t source branch sha tasks skipped,
      (sourceHistory python gitSettings Unit).Run ⟨.empty, .empty, .empty⟩
          (timeline [commitB, commitA]).1 (timeline [commitB, commitA]).2
        ∧ syncedAt commitA 2 (timeline [commitB, commitA]).2 = (.ok row, t)
        ∧ acquire python gitSettings (hostAt commitA) none source sources.cache
          = (.ok (branch, sha, tasks, skipped), t.cache)
        ∧ row.lastCommitSha = some sha
        ∧ ¬∀ task ∈ tasks, t.catalog.Shows createdAt python row task := by
  have hrun := timeline_run [commitB, commitA]
  obtain ⟨hok, hfacts⟩ : (syncedAt commitA 2 (timeline [commitB, commitA]).2).1.isOk = true
      ∧ ((timeline [commitB, commitA]).2.sources.get? 5).map (fun s => (discovered commitA s,
          ((timeline [commitB, commitA]).2.versionOf s.repositoryUrl commitA "d").map (·.id),
          ((timeline [commitB, commitA]).2.versionOf s.repositoryUrl commitB "d").map (·.id)))
        = some (some (commitA, [demoTale]), some 1, some 3) := by decide +kernel
  obtain ⟨row, t, hsync, source, branch, sha, tasks, skipped, hget, hacquire, hstore⟩ :=
    syncedAt_ok hok
  rw [hget, Option.map_some, Option.some_inj, Prod.mk.injEq, Prod.mk.injEq] at hfacts
  obtain ⟨hdiscovered, hA, hB⟩ := hfacts
  obtain ⟨rfl, task, rfl, htask⟩ := discovered_eq hacquire hdiscovered
  have hpath : task.path = "d" := congrArg Tale.path htask
  rw [← hpath] at hA hB
  refine ⟨row, t, source, branch, _, _, skipped, hrun, hsync, hacquire, ?_, fun hshows => ?_⟩
  · obtain ⟨-, -, -, rfl, -⟩ := store_ok hstore
    rfl
  · have hcurrent := (store_shows_iff (Told.run ⟨rfl, rfl, rfl⟩ hrun).unique
      (.run ⟨rfl, rfl, rfl⟩ hrun) (Table.mem_of_get? hget) hstore).mp hshows
    -- The version at the first commit is older than the one at the second.
    obtain ⟨v, hv, hid⟩ := Option.map_eq_some_iff.mp hB
    obtain ⟨hmem, hurl, hsha, hvpath⟩ := Catalog.versionOf_eq_some hv
    have hlate := hcurrent.latest task (List.mem_singleton_self _) 1 (by rw [versionAt, hA]; rfl)
      v hmem hurl hvpath (hsha ▸ by decide)
    rw [hid] at hlate
    exact absurd hlate (by decide +kernel)

end AgentBenchX
