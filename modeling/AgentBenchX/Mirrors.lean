import AgentBenchX.Lib.Git
import AgentBenchX.StoringPhase

/-!
# Mirrors of sources

The commands of the repository manager as those of `Git`, on a machine
whose git does what is documented (`GitHost.Documented`), and on one where
nothing fails either (`GitHost.Healthy`). Whatever `clone` comes to, the
disk holds as much of a mirror as the commands have made (`clone_progress`);
a synchronization that gets as far as a branch has one that is complete
(`fetchOrClone_ok`).
-/

namespace AgentBenchX

open GitRepositoryManager (command)
open DockerSandbox (strip isStripped)

/-! ## Commands -/

abbrev GitCommand := Git.Command String String String
abbrev GitDisk := Git.Disk String String String

namespace Git.Command

/-- The arguments of the manager. -/
def args : GitCommand → List String
  | .lsRemote url => ["ls-remote", url]
  | .configList => ["config", "--list", "--show-origin"]
  | .init path => ["init", "--bare", path]
  | .remoteAdd path url => ["-C", path, "remote", "add", "origin", url]
  | .remoteSetUrl path url => ["-C", path, "remote", "set-url", "origin", url]
  | .fetch false path => ["-C", path, "fetch", "origin", "+refs/heads/*:refs/heads/*"]
  | .fetch true _ => ["fetch", "--prune", "origin", "+refs/heads/*:refs/heads/*"]
  | .symbolicRef _ => ["symbolic-ref", "--short", "HEAD"]
  | .revParse _ branch => ["rev-parse", "--verify", "refs/heads/" ++ branch ++ "^\x7bcommit\x7d"]

/-- The folder they are meant for, where it is not among them. -/
def cwd : GitCommand → Option String
  | .fetch true path | .symbolicRef path | .revParse path _ => some path
  | _ => none

end Git.Command

/-- Git does what is documented, while `reach` are the remote repositories it can
reach: `disk` is what the machine has of bare repositories. -/
structure GitHost.Documented {γ : Type} (git : GitHost γ) (initial : String)
    (reach : String → Option (Git.Remote String)) (disk : γ → GitDisk) : Prop where
  /-- The built-in name of the first branch is a plain one. -/
  plain : GitRepositoryManager.isBranch initial = true
  pathExists : ∀ g path, git.pathExists g path = (disk g path).isSome
  mkdir : ∀ g directory, disk (git.mkdir g directory).2 = disk g
  exited : ∀ g g' (c : GitCommand) out err,
    git.spawn g (command c.args) c.cwd = (.exited 0 out err, g') →
      c.run initial reach (disk g) = some (disk g') ∧ ∃ text, Utf8.decode out = some text
        ∧ ∀ name, c.prints (disk g) = some name → text = name ++ "\n"
  leaves : ∀ g (c : GitCommand),
    c.Leaves initial reach (disk g) (disk (git.spawn g (command c.args) c.cwd).2)

/-- A repository has the commit as the tip of a branch. -/
def Git.Holds (d : GitDisk) (path sha : String) : Prop :=
  ∃ r branch, d path = some r ∧ r.heads branch = some sha

/-- From the states with `H`, which they keep, all commands work. -/
structure GitHost.Healthy {γ : Type} (py : Python) (git : GitHost γ) (initial : String)
    (reach : String → Option (Git.Remote String)) (disk : γ → GitDisk)
    (contents : String → Option Commit) (H : γ → Prop) : Prop where
  mkdir : ∀ g directory, H g → ∃ g', git.mkdir g directory = (.ok (), g') ∧ H g'
  exits : ∀ g (c : GitCommand), H g → c.Unhindered (disk g) →
    (c.run initial reach (disk g)).isSome →
    ∃ out err g', git.spawn g (command c.args) c.cwd = (.exited 0 out err, g') ∧ H g'
  serves : ∀ path sha c, contents sha = some c →
    git.Serves py path sha c fun g => H g ∧ Git.Holds (disk g) path sha
  pins : ∀ path sha (s : Cache γ), H s.host → Git.Holds (disk s.host) path sha →
    ∃ t, GitRepositoryManager.pin py git path sha s = (.ok (), t)

/-! ## Names that git prints -/

theorem isStripped_of_isPlain {c : Char} (h : Url.isPlain c = true) : isStripped c = false := by
  have hall : ∀ n < 128, Url.isPlain (Char.ofNat n) = true → isStripped (Char.ofNat n) = false := by
    decide +kernel
  have hc := hall c.toNat (Url.toNat_of_isPlain h).2
  rw [Char.ofNat_toNat] at hc
  exact hc h

theorem dropWhile_of_none {p : Char → Bool} {cs : List Char} (h : ∀ c ∈ cs, p c = false) :
    cs.dropWhile p = cs := by
  cases cs with
  | nil => rfl
  | cons c rest => exact List.dropWhile_cons_of_neg (by rw [h c (List.mem_cons_self ..)]; decide)

/-- The line end is stripped. -/
theorem strip_line {name : String} (h : ∀ c ∈ name.toList, isStripped c = false) :
    strip (name ++ "\n") = name := by
  have hnewline : isStripped '\n' = true := by decide
  have hstart : (name.toList ++ ['\n']).dropWhile isStripped = name.toList ++ ['\n']
      ∨ name.toList = [] := by
    cases hname : name.toList with
    | nil => exact Or.inr rfl
    | cons c rest =>
        have hc := h c (hname ▸ List.mem_cons_self ..)
        exact Or.inl (List.dropWhile_cons_of_neg (by rw [hc]; decide))
  have hend : ((name.toList ++ ['\n']).reverse.dropWhile isStripped).reverse = name.toList := by
    rw [List.reverse_append, List.reverse_singleton, List.singleton_append,
      List.dropWhile_cons_of_pos hnewline,
      dropWhile_of_none fun c hc => h c (List.mem_reverse.mp hc), List.reverse_reverse]
  unfold strip
  rw [String.toList_append, show "\n".toList = ['\n'] from rfl]
  rcases hstart with hstart | hstart
  · rw [hstart, hend, String.ofList_toList]
  · rw [hstart, List.nil_append, List.dropWhile_cons_of_pos hnewline, ← hstart]
    exact (congrArg String.ofList (by rw [hstart]; rfl)).trans String.ofList_toList

theorem strip_branch {branch : String} (h : GitRepositoryManager.isBranch branch = true) :
    strip (branch ++ "\n") = branch := by
  simp only [GitRepositoryManager.isBranch, Bool.and_eq_true, List.all_eq_true, Bool.or_eq_true,
    decide_eq_true_eq] at h
  refine strip_line fun c hc => ?_
  rcases h.1.2 c hc with hplain | rfl
  · exact isStripped_of_isPlain hplain
  · decide

theorem strip_sha {sha : String} (h : GitRepositoryManager.isSha sha = true) :
    strip (sha ++ "\n") = sha := by
  simp only [GitRepositoryManager.isSha, Bool.and_eq_true, List.all_eq_true, Bool.or_eq_true,
    decide_eq_true_eq] at h
  refine strip_line fun c hc => isStripped_of_isPlain ?_
  have halpha : c.isAlphanum = true := by
    rcases h.1.1 c hc with hdigit | ⟨ha, hf⟩
    · exact (Bool.or_eq_true ..).mpr (Or.inr hdigit)
    · have hz : c ≤ 'z' := hf.trans (show 'f' ≤ 'z' by decide)
      have hlower : c.isLower = true :=
        (Bool.and_eq_true ..).mpr ⟨decide_eq_true ha, decide_eq_true hz⟩
      exact (Bool.or_eq_true ..).mpr (Or.inl ((Bool.or_eq_true ..).mpr (Or.inr hlower)))
  simp only [Url.isPlain, halpha, Bool.true_or]

/-! ## The commands of the manager -/

section Manager

variable {γ : Type} {py : Python} {git : GitHost γ} {initial : String}
  {reach : String → Option (Git.Remote String)} {disk : γ → GitDisk} {c : GitCommand}
  {s t : Cache γ} {text path url : String} {n : ℕ}

open GitRepositoryManager (runText)

/-- A command that is returned from has worked. -/
theorem GitHost.Documented.runText_ok (hgit : git.Documented initial reach disk)
    (h : runText py git c.args c.cwd s = (.ok text, t)) :
    c.run initial reach (disk s.host) = some (disk t.host)
      ∧ ∀ name, c.prints (disk s.host) = some name → text = strip (name ++ "\n") := by
  obtain ⟨out, u, hrun, h⟩ := Program.ok_of_bind h
  obtain ⟨err, hspawn⟩ := GitRepositoryManager.run_ok hrun
  obtain ⟨heffect, printed, hdecode, hprints⟩ := hgit.exited _ _ _ _ _ hspawn
  rw [Program.bind_ok (a := printed) (t := u)
    (by rw [Program.lift_apply, GitRepositoryManager.decode, hdecode])] at h
  obtain ⟨htext, rfl⟩ := Prod.mk.inj h
  refine ⟨heffect, fun name hname => ?_⟩
  rw [← hprints name hname]
  exact (Except.ok.inj htext).symm

/-- Whatever a command comes to. -/
theorem GitHost.Documented.runText_leaves (hgit : git.Documented initial reach disk)
    (py : Python) (c : GitCommand) (s : Cache γ) :
    c.Leaves initial reach (disk s.host) (disk (runText py git c.args c.cwd s).2.host) := by
  have hhost : (runText py git c.args c.cwd s).2.host
      = (git.spawn s.host (command c.args) c.cwd).2 := by
    unfold runText
    rcases hrun : GitRepositoryManager.run py git c.args c.cwd s with ⟨e | out, u⟩
    · rw [Program.bind_error hrun]
      exact (congrArg (fun x => x.2.host) hrun).symm
    · rw [Program.bind_ok hrun]
      refine Eq.trans ?_ (congrArg (fun x => x.2.host) hrun).symm
      cases GitRepositoryManager.decode py out <;> rfl
  rw [hhost]
  exact hgit.leaves _ _

/-- On a healthy machine a command that git does not refuse is returned from. -/
theorem GitHost.Healthy.runText_returns {contents : String → Option Commit} {H : γ → Prop}
    (hgit : git.Documented initial reach disk)
    (hhealthy : git.Healthy py initial reach disk contents H) (hH : H s.host)
    (hclear : c.Unhindered (disk s.host)) (hrun : (c.run initial reach (disk s.host)).isSome) :
    ∃ text t, runText py git c.args c.cwd s = (.ok text, t) ∧ H t.host := by
  obtain ⟨out, err, g, hspawn, hH⟩ := hhealthy.exits _ c hH hclear hrun
  obtain ⟨-, printed, hdecode, -⟩ := hgit.exited _ _ _ _ _ hspawn
  exact ⟨_, _, GitRepositoryManager.runText_exited hspawn hdecode, hH⟩

end Manager

/-! ## Cloning and fetching -/

section Sources

variable {γ : Type} {py : Python} {settings : GitSettings} {git : GitHost γ} {initial : String}
  {reach : String → Option (Git.Remote String)} {disk : γ → GitDisk} {token : Option String}
  {source : ProblemSource} {contents : String → Option Commit} {H : γ → Prop} {s t : Cache γ}
  {path url : String} {n : ℕ}

open GitRepositoryManager (runText warn clone cloneUrl validateUrl)
open Program (Spec Returns)

/-- The next command of a mirror. -/
theorem GitHost.Documented.next {α : Type} (hgit : git.Documented initial reach disk)
    {c : GitCommand} (hc : (Git.mirror path url)[n]? = some c) {f : String → SourceProgram γ α}
    {Q : Except SyncError α → Cache γ → Prop}
    (hf : ∀ text, Spec (fun s => Git.Progress initial url (n + 1) (disk s.host path)) (f text) Q)
    (he : ∀ e s k, Git.Progress initial url k (disk s.host path) → Q (.error e) s) :
    Spec (fun s => Git.Progress initial url n (disk s.host path))
      (runText py git c.args c.cwd >>= f) Q := by
  intro s hs
  have hleaves := hs.leaves hc (hgit.runText_leaves py c s)
  rcases hrun : runText py git c.args c.cwd s with ⟨e | text, t⟩
  · rw [hrun] at hleaves
    rw [Program.bind_error hrun]
    exact hleaves.elim (he e t n) (he e t (n + 1))
  · rw [Program.bind_ok hrun]
    exact hf text t (hs.run hc (hgit.runText_ok hrun).1)

/-- The log is no part of a mirror. -/
theorem spec_warn {α : Type} {message arg : String} {f : Unit → SourceProgram γ α}
    {P : γ → Prop} {Q : Except SyncError α → Cache γ → Prop}
    (hf : Spec (fun s => P s.host) (f ()) Q) :
    Spec (fun s => P s.host) (warn message arg >>= f) Q :=
  fun s hs => hf { s with log := s.log ++ [⟨message, arg⟩] } hs

/-- **`clone`.** Whatever it comes to, some of its commands are done; if it
returns, the mirror is complete. -/
theorem GitHost.Documented.clone_progress (hgit : git.Documented initial reach disk)
    (hpath : GitRepositoryManager.path py settings source.id = path)
    (hurl : cloneUrl token source.repositoryUrl = url) :
    Spec (fun s => Git.Progress initial url 0 (disk s.host path))
      (clone py settings git token source.id source.repositoryUrl)
      fun r s => (∃ n, Git.Progress initial url n (disk s.host path))
        ∧ ∀ path', r = .ok path' → path' = path ∧ ∀ remote, reach url = some remote →
          disk s.host path = some ⟨initial, remote.heads, some url⟩ := by
  have herror : ∀ (e : SyncError) (s : Cache γ) (n : ℕ),
      Git.Progress initial url n (disk s.host path) →
      (∃ n, Git.Progress initial url n (disk s.host path))
        ∧ ∀ path', (Except.error e : Except SyncError String) = .ok path' →
          path' = path ∧ ∀ remote, reach url = some remote →
          disk s.host path = some ⟨initial, remote.heads, some url⟩ :=
    fun e s n hs => ⟨⟨n, hs⟩, nofun⟩
  unfold clone
  dsimp only
  rw [hpath, hurl]
  refine spec_warn (P := fun g => Git.Progress initial url 0 (disk g path)) ?_
  refine Spec.bind (R := fun _ s => Git.Progress initial url 0 (disk s.host path)) (fun s hs => hs)
    (fun _ => ?_) fun e s hs => herror e s 0 hs
  refine Spec.bind (R := fun _ s => Git.Progress initial url 0 (disk s.host path)) (fun s hs => ?_)
    (fun _ => ?_) fun e s hs => herror e s 0 hs
  · show Git.Progress initial url 0 (disk (git.mkdir s.host _).2 path)
    rw [hgit.mkdir]
    exact hs
  refine spec_warn (P := fun g => Git.Progress initial url 0 (disk g path)) ?_
  refine hgit.next (c := .lsRemote url) rfl (fun debug => ?_) herror
  refine spec_warn (P := fun g => Git.Progress initial url 1 (disk g path)) ?_
  refine hgit.next (c := .configList) rfl (fun config => ?_) herror
  refine spec_warn (P := fun g => Git.Progress initial url 2 (disk g path)) ?_
  refine hgit.next (c := .init path) rfl (fun _ => ?_) herror
  refine hgit.next (c := .remoteAdd path url) rfl (fun _ => ?_) herror
  refine hgit.next (c := .remoteSetUrl path url) rfl (fun _ => ?_) herror
  intro s hs
  rcases hrun : runText py git (Git.Command.fetch false path).args
    (Git.Command.fetch false path).cwd s with ⟨e | text, t⟩
  · have hleaves := hs.leaves rfl (hgit.runText_leaves py (.fetch false path) s)
    rw [hrun] at hleaves
    rw [Program.bind_error (by exact hrun)]
    exact hleaves.elim (herror e t 5) (herror e t 6)
  · have hworked := (hgit.runText_ok hrun).1
    rw [Program.bind_ok (by exact hrun)]
    refine ⟨⟨6, hs.run rfl hworked⟩, fun path' hpath' => ⟨(Except.ok.inj hpath').symm, ?_⟩⟩
    exact fun remote hremote => hs.run_fetch (Or.inl (by decide)) hremote hworked

/-- So much of a mirror is done, and the machine is healthy. -/
def Underway (initial : String) (disk : γ → GitDisk) (path url : String) (H : γ → Prop) (n : ℕ)
    (s : Cache γ) : Prop :=
  H s.host ∧ Git.Progress initial url n (disk s.host path)

/-- The next command works. -/
theorem GitHost.Healthy.next (hgit : git.Documented initial reach disk)
    (hhealthy : git.Healthy py initial reach disk contents H) (hreach : (reach url).isSome)
    {c : GitCommand} (hc : (Git.mirror path url)[n]? = some c) :
    Returns (Underway initial disk path url H n) (runText py git c.args c.cwd)
      fun _ => Underway initial disk path url H (n + 1) := by
  rintro s ⟨hH, hs⟩
  obtain ⟨d, hrun⟩ : ∃ d, c.run initial reach (disk s.host) = some d := hs.runs hc hreach
  obtain ⟨text, t, htext, hH⟩ :=
    hhealthy.runText_returns hgit hH (hs.unhindered hc) (by rw [hrun]; rfl)
  exact ⟨text, t, htext, hH, hs.run hc (hgit.runText_ok htext).1⟩

theorem Underway.mkdir (hgit : git.Documented initial reach disk)
    (hhealthy : git.Healthy py initial reach disk contents H) (directory : String) :
    Returns (Underway initial disk path url H n) (GitRepositoryManager.mkdir git directory)
      fun _ => Underway initial disk path url H n := by
  rintro s ⟨hH, hs⟩
  obtain ⟨g, hmkdir, hH⟩ := hhealthy.mkdir s.host directory hH
  have hdisk : disk g = disk s.host := by rw [← hgit.mkdir s.host directory, hmkdir]
  refine ⟨(), { s with host := g }, by rw [GitRepositoryManager.mkdir, hmkdir]; rfl, hH, ?_⟩
  show Git.Progress initial url n (disk g path)
  rw [hdisk]
  exact hs

/-- On a healthy machine `clone` returns. -/
theorem GitHost.Healthy.clone_returns (hgit : git.Documented initial reach disk)
    (hhealthy : git.Healthy py initial reach disk contents H)
    (hpath : GitRepositoryManager.path py settings source.id = path)
    (hurl : cloneUrl token source.repositoryUrl = url) (hreach : (reach url).isSome)
    (hvalid : validateUrl py settings source.repositoryUrl = .ok source.repositoryUrl) :
    Returns (Underway initial disk path url H 0)
      (clone py settings git token source.id source.repositoryUrl) fun _ s => H s.host := by
  have hwarn : ∀ (n : ℕ) (message arg : String), Returns (Underway initial disk path url H n)
      (warn message arg) fun _ => Underway initial disk path url H n :=
    fun n message arg => Returns.modify fun s hs => hs
  have hnext : ∀ (n : ℕ) (c : GitCommand), (Git.mirror path url)[n]? = some c →
      Returns (Underway initial disk path url H n) (runText py git c.args c.cwd)
        fun _ => Underway initial disk path url H (n + 1) :=
    fun n c hc => hhealthy.next hgit hreach hc
  have hlift : Returns (Underway initial disk path url H 0)
      (Program.lift (validateUrl py settings source.repositoryUrl))
      fun _ => Underway initial disk path url H 0 :=
    Returns.lift hvalid fun s hs => hs
  unfold clone
  dsimp only
  rw [hpath, hurl]
  refine (hwarn 0 _ _).bind fun _ => hlift.bind fun _ => ?_
  refine (Underway.mkdir hgit hhealthy _).bind fun _ => (hwarn 0 _ _).bind fun _ => ?_
  refine (hnext 0 (.lsRemote url) rfl).bind fun _ => (hwarn 1 _ _).bind fun _ => ?_
  refine (hnext 1 .configList rfl).bind fun _ => (hwarn 2 _ _).bind fun _ => ?_
  refine (hnext 2 (.init path) rfl).bind fun _ => ?_
  refine (hnext 3 (.remoteAdd path url) rfl).bind fun _ => ?_
  refine (hnext 4 (.remoteSetUrl path url) rfl).bind fun _ => ?_
  refine (hnext 5 (.fetch false path) rfl).bind fun _ => ?_
  exact Returns.pure fun s hs => hs.1

/-- The mirror has all branches of the remote, and HEAD where it was. -/
def Mirrored (initial : String) (disk : γ → GitDisk) (path : String) (remote : Git.Remote String)
    (g : γ) : Prop :=
  ∃ origin, disk g path = some ⟨initial, remote.heads, some origin⟩

open ProblemSourceManager (fetchOrClone branchOf)

section Steps

variable {remote : Git.Remote String} {origin branch sha tip path' : String}

theorem fetchOrClone_absent (hpath : GitRepositoryManager.path py settings source.id = path)
    (h : git.pathExists s.host path = false) :
    fetchOrClone py settings git token source s
      = clone py settings git token source.id source.repositoryUrl s := by
  subst hpath
  unfold fetchOrClone
  exact (Program.bind_ok (a := s) (t := s) (by rfl)).trans
    (congrFun (if_neg (by rw [h]; decide)) s)

theorem fetchOrClone_present (hpath : GitRepositoryManager.path py settings source.id = path)
    (h : git.pathExists s.host path = true) :
    fetchOrClone py settings git token source s
      = (do
        let _ ← runText py git (Git.Command.fetch true path).args (Git.Command.fetch true path).cwd
        return path : SourceProgram γ String) s := by
  subst hpath
  unfold fetchOrClone
  refine (Program.bind_ok (a := s) (t := s) (by rfl)).trans ((congrFun (if_pos h) s).trans ?_)
  show (GitRepositoryManager.fetch py git _ >>= fun _ => pure _) s = _
  unfold GitRepositoryManager.fetch
  rw [bind_assoc]
  rfl

/-- What gets past the cache has a complete mirror. -/
theorem fetchOrClone_ok (hgit : git.Documented initial reach disk)
    (hpath : GitRepositoryManager.path py settings source.id = path)
    (hremote : reach (cloneUrl token source.repositoryUrl) = some remote)
    (horigin : reach origin = some remote) (hs : Git.Progress initial origin n (disk s.host path))
    (h : fetchOrClone py settings git token source s = (.ok path', t)) :
    path' = path ∧ Mirrored initial disk path remote t.host := by
  have hexists := hgit.pathExists s.host path
  cases hr : disk s.host path with
  | none =>
      rw [hr] at hexists
      have hnew : Git.Progress initial (cloneUrl token source.repositoryUrl) 0
          (disk s.host path) := by
        rw [hr]
        exact .absent (by decide)
      have hclone := (hgit.clone_progress hpath rfl s hnew).2
      rw [← fetchOrClone_absent hpath hexists, h] at hclone
      obtain ⟨hp, hcomplete⟩ := hclone path' rfl
      exact ⟨hp, _, hcomplete remote hremote⟩
  | some r =>
      rw [hr] at hexists
      rw [fetchOrClone_present hpath hexists] at h
      obtain ⟨text, u, hfetch, h⟩ := Program.ok_of_bind h
      obtain ⟨hp, rfl⟩ := Prod.mk.inj h
      refine ⟨(Except.ok.inj hp).symm, origin, ?_⟩
      exact hs.run_fetch (Or.inr rfl) horigin (hgit.runText_ok hfetch).1

/-- On a healthy machine everything gets past the cache that is not stranded. -/
theorem fetchOrClone_returns (hgit : git.Documented initial reach disk)
    (hhealthy : git.Healthy py initial reach disk contents H)
    (hpath : GitRepositoryManager.path py settings source.id = path)
    (hremote : reach (cloneUrl token source.repositoryUrl) = some remote)
    (horigin : reach origin = some remote) (hs : Underway initial disk path origin H n s)
    (hn : n ≠ 3)
    (hvalid : validateUrl py settings source.repositoryUrl = .ok source.repositoryUrl) :
    ∃ t, fetchOrClone py settings git token source s = (.ok path, t) ∧ H t.host := by
  obtain ⟨hH, hs⟩ := hs
  have hexists := hgit.pathExists s.host path
  obtain ⟨path', t, h, hH⟩ : ∃ path' t,
      fetchOrClone py settings git token source s = (.ok path', t) ∧ H t.host := by
    cases hr : disk s.host path with
    | none =>
        rw [hr] at hexists
        have hnew : Underway initial disk path (cloneUrl token source.repositoryUrl) H 0 s :=
          ⟨hH, by rw [hr]; exact .absent (by decide)⟩
        rw [fetchOrClone_absent hpath hexists]
        exact hhealthy.clone_returns hgit hpath rfl (by rw [hremote]; rfl) hvalid s hnew
    | some r =>
        rw [hr] at hexists
        rw [fetchOrClone_present hpath hexists]
        have hn' : 4 ≤ n := by
          rw [hr] at hs
          cases hs <;> omega
        obtain ⟨d, hrun⟩ : ∃ d, (Git.Command.fetch true path).run initial reach (disk s.host)
            = some d :=
          hs.runs_fetch hn' rfl (by rw [horigin]; rfl)
        obtain ⟨text, t, htext, hH⟩ := hhealthy.runText_returns (c := .fetch true path) hgit hH
          trivial (by rw [hrun]; rfl)
        exact ⟨path, t, Program.bind_ok htext, hH⟩
  obtain ⟨rfl, -⟩ := fetchOrClone_ok hgit hpath hremote horigin hs h
  exact ⟨t, h, hH⟩

/-- What is stranded stays so. -/
theorem fetchOrClone_stranded (hgit : git.Documented initial reach disk) (token : Option String)
    (source : ProblemSource) (hpath : GitRepositoryManager.path py settings source.id = path)
    (hs : Git.Stranded (disk s.host path)) :
    ∃ e t, fetchOrClone py settings git token source s = (.error e, t)
      ∧ disk t.host = disk s.host := by
  have hexists : git.pathExists s.host path = true := by
    rw [hgit.pathExists]
    cases hr : disk s.host path with
    | none =>
        rw [hr] at hs
        exact hs.elim
    | some r => rfl
  have hleaves := hs.leaves (hgit.runText_leaves py (.fetch true path) s)
  rw [fetchOrClone_present hpath hexists]
  rcases hrun : runText py git (Git.Command.fetch true path).args
    (Git.Command.fetch true path).cwd s with ⟨e | text, t⟩
  · rw [hrun] at hleaves
    exact ⟨e, t, Program.bind_error hrun, hleaves⟩
  · have hworked := (hgit.runText_ok hrun).1
    rw [hs.run_fetch] at hworked
    cases hworked

/-- The branch a synchronization looks for. -/
def branchWanted (initial : String) (source : ProblemSource) : String :=
  match source.defaultBranch with
  | some branch => if branch ≠ "" then branch else initial
  | none => initial

theorem Mirrored.symbolicRef (reach : String → Option (Git.Remote String)) {g : γ}
    (hs : Mirrored initial disk path remote g) :
    (Git.Command.symbolicRef path).run initial reach (disk g) = some (disk g)
      ∧ (Git.Command.symbolicRef path).prints (disk g) = some initial := by
  obtain ⟨origin, hs⟩ := hs
  rw [Git.Command.run, Git.Command.prints, hs]
  exact ⟨rfl, rfl⟩

theorem Mirrored.revParse (reach : String → Option (Git.Remote String)) {g : γ}
    (hs : Mirrored initial disk path remote g) (htip : remote.heads branch = some tip) :
    (Git.Command.revParse path branch).run initial reach (disk g) = some (disk g)
      ∧ (Git.Command.revParse path branch).prints (disk g) = some tip := by
  obtain ⟨origin, hs⟩ := hs
  rw [Git.Command.run, Git.Command.prints, hs]
  exact ⟨congrArg (Option.map _) htip, htip⟩

/-- HEAD is read. -/
theorem getBranch_ok (hgit : git.Documented initial reach disk)
    (hs : Mirrored initial disk path remote s.host)
    (h : GitRepositoryManager.getBranch py git path s = (.ok branch, t)) :
    branch = initial ∧ disk t.host = disk s.host := by
  obtain ⟨hworked, hprints⟩ := hgit.runText_ok (c := .symbolicRef path) h
  obtain ⟨hrun, hname⟩ := hs.symbolicRef reach
  refine ⟨?_, Option.some.inj (hworked.symm.trans hrun)⟩
  rw [hprints initial hname, strip_branch hgit.plain]

theorem getBranch_returns (hgit : git.Documented initial reach disk)
    (hhealthy : git.Healthy py initial reach disk contents H) (hH : H s.host)
    (hs : Mirrored initial disk path remote s.host) :
    ∃ t, GitRepositoryManager.getBranch py git path s = (.ok initial, t) ∧ H t.host
      ∧ disk t.host = disk s.host := by
  obtain ⟨text, t, htext, hH⟩ := hhealthy.runText_returns (c := .symbolicRef path) hgit hH trivial
    (by rw [(hs.symbolicRef reach).1]; rfl)
  obtain ⟨rfl, hdisk⟩ := getBranch_ok hgit hs htext
  exact ⟨t, htext, hH, hdisk⟩

theorem branchOf_ok (hgit : git.Documented initial reach disk)
    (hs : Mirrored initial disk path remote s.host)
    (h : branchOf py git source path s = (.ok branch, t)) :
    branch = branchWanted initial source ∧ disk t.host = disk s.host := by
  unfold branchOf at h
  unfold branchWanted
  cases hdefault : source.defaultBranch with
  | none =>
      rw [hdefault] at h
      exact getBranch_ok hgit hs h
  | some configured =>
      rw [hdefault] at h
      dsimp only at h ⊢
      by_cases hempty : configured ≠ ""
      · rw [if_pos hempty] at h ⊢
        obtain ⟨hbranch, rfl⟩ := Prod.mk.inj h
        exact ⟨(Except.ok.inj hbranch).symm, rfl⟩
      · rw [if_neg hempty] at h ⊢
        exact getBranch_ok hgit hs h

theorem branchOf_returns (hgit : git.Documented initial reach disk)
    (hhealthy : git.Healthy py initial reach disk contents H) (hH : H s.host)
    (hs : Mirrored initial disk path remote s.host) :
    ∃ t, branchOf py git source path s = (.ok (branchWanted initial source), t) ∧ H t.host
      ∧ disk t.host = disk s.host := by
  unfold branchOf branchWanted
  cases source.defaultBranch with
  | none => exact getBranch_returns hgit hhealthy hH hs
  | some configured =>
      dsimp only
      by_cases hempty : configured ≠ ""
      · rw [if_pos hempty, if_pos hempty]
        exact ⟨s, rfl, hH, rfl⟩
      · rw [if_neg hempty, if_neg hempty]
        exact getBranch_returns hgit hhealthy hH hs

theorem checkout_ok (hgit : git.Documented initial reach disk)
    (hs : Mirrored initial disk path remote s.host) (htip : remote.heads branch = some tip)
    (hsha : GitRepositoryManager.isSha tip = true)
    (h : GitRepositoryManager.checkout py git path branch s = (.ok sha, t)) :
    sha = tip ∧ disk t.host = disk s.host := by
  unfold GitRepositoryManager.checkout at h
  split at h
  · obtain ⟨text, u, htext, h⟩ := Program.ok_of_bind h
    obtain ⟨hworked, hprints⟩ := hgit.runText_ok (c := .revParse path branch) htext
    obtain ⟨hrun, hname⟩ := hs.revParse reach htip
    have hprinted := hprints tip hname
    rw [strip_sha hsha] at hprinted
    split at h
    · obtain ⟨hreturned, rfl⟩ := Prod.mk.inj h
      exact ⟨(Except.ok.inj hreturned).symm.trans hprinted,
        Option.some.inj (hworked.symm.trans hrun)⟩
    · cases h
  · cases h

theorem checkout_returns (hgit : git.Documented initial reach disk)
    (hhealthy : git.Healthy py initial reach disk contents H) (hH : H s.host)
    (hs : Mirrored initial disk path remote s.host) (htip : remote.heads branch = some tip)
    (hsha : GitRepositoryManager.isSha tip = true)
    (hbranch : GitRepositoryManager.isBranch branch = true) :
    ∃ t, GitRepositoryManager.checkout py git path branch s = (.ok tip, t) ∧ H t.host
      ∧ disk t.host = disk s.host := by
  obtain ⟨text, t, htext, hH⟩ :=
    hhealthy.runText_returns (c := .revParse path branch) hgit hH trivial
    (by rw [(hs.revParse reach htip).1]; rfl)
  have hprinted : text = tip := by
    rw [(hgit.runText_ok (c := .revParse path branch) htext).2 tip (hs.revParse reach htip).2,
      strip_sha hsha]
  subst hprinted
  have hcheckout : GitRepositoryManager.checkout py git path branch s = (.ok text, t) := by
    unfold GitRepositoryManager.checkout GitRepositoryManager.getCurrentCommit
    rw [if_pos hbranch]
    exact (Program.bind_ok htext).trans (congrFun (if_pos hsha) t)
  exact ⟨t, hcheckout, hH, (checkout_ok hgit hs htip hsha hcheckout).2⟩

/-! ## The first phase of a synchronization -/

/-- What it resolves. -/
theorem acquire_ok (hgit : git.Documented initial reach disk)
    (hpath : GitRepositoryManager.path py settings source.id = path)
    (hremote : reach (cloneUrl token source.repositoryUrl) = some remote)
    (horigin : reach origin = some remote) (hs : Git.Progress initial origin n (disk s.host path))
    {tasks : List Task} {skipped : List Skipped}
    (h : ProblemSourceManager.acquire py settings git token source s
      = (.ok (branch, sha, tasks, skipped), t)) :
    branch = branchWanted initial source
      ∧ ∀ tip, remote.heads branch = some tip → GitRepositoryManager.isSha tip = true →
        sha = tip := by
  obtain ⟨path', s₁, hfetch, h⟩ := Program.ok_of_bind h
  obtain ⟨rfl, hcomplete⟩ := fetchOrClone_ok hgit hpath hremote horigin hs hfetch
  obtain ⟨branch', s₂, hbranch, h⟩ := Program.ok_of_bind h
  obtain ⟨hwanted, hdisk⟩ := branchOf_ok hgit hcomplete hbranch
  obtain ⟨sha', s₃, hcheckout, h⟩ := Program.ok_of_bind h
  obtain ⟨⟨tasks', skipped'⟩, s₄, -, h⟩ := Program.ok_of_bind h
  obtain ⟨_, s₅, -, h⟩ := Program.ok_of_bind h
  obtain ⟨rfl, hrest⟩ := Prod.mk.inj (Except.ok.inj (Prod.mk.inj h).1)
  obtain ⟨rfl, -⟩ := Prod.mk.inj hrest
  have hcomplete : Mirrored initial disk path' remote s₂.host := by
    rw [Mirrored, hdisk]
    exact hcomplete
  exact ⟨hwanted, fun tip htip hsha => (checkout_ok hgit hcomplete htip hsha hcheckout).1⟩

/-- On a healthy machine it gets the tip of the branch it looks for. -/
theorem GitHost.Healthy.delivers (hgit : git.Documented initial reach disk)
    (hhealthy : git.Healthy py initial reach disk contents H)
    (hpath : GitRepositoryManager.path py settings source.id = path)
    (hremote : reach (cloneUrl token source.repositoryUrl) = some remote)
    (horigin : reach origin = some remote) (hs : Underway initial disk path origin H n s)
    (hn : n ≠ 3)
    (hvalid : validateUrl py settings source.repositoryUrl = .ok source.repositoryUrl)
    (hbranch : GitRepositoryManager.isBranch (branchWanted initial source) = true)
    (htip : remote.heads (branchWanted initial source) = some sha)
    (hsha : GitRepositoryManager.isSha sha = true) {c : Commit} (hc : contents sha = some c) :
    ProblemSourceManager.Delivers py settings git token source s path (branchWanted initial source)
      sha c := by
  obtain ⟨s₁, hfetch, hH⟩ := fetchOrClone_returns hgit hhealthy hpath hremote horigin hs hn hvalid
  obtain ⟨-, hcomplete⟩ := fetchOrClone_ok hgit hpath hremote horigin hs.2 hfetch
  obtain ⟨s₂, hbranchOf, hH, hdisk⟩ := branchOf_returns hgit hhealthy hH hcomplete
  have hcomplete₂ : Mirrored initial disk path remote s₂.host := by
    rw [Mirrored, hdisk]
    exact hcomplete
  obtain ⟨s₃, hcheckout, hH, hdisk₃⟩ :=
    checkout_returns hgit hhealthy hH hcomplete₂ htip hsha hbranch
  obtain ⟨url, hurl⟩ := hcomplete₂
  have hholds : Git.Holds (disk s₃.host) path sha :=
    ⟨_, branchWanted initial source, by rw [hdisk₃]; exact hurl, htip⟩
  exact ⟨fun g => H g ∧ Git.Holds (disk g) path sha, s₁, s₂, s₃, hfetch, hbranchOf, hcheckout,
    ⟨hH, hholds⟩, hhealthy.serves path sha c hc, fun s hs => hhealthy.pins path sha s hs.1 hs.2⟩

end Steps

end Sources

/-! ### A machine -/

namespace Sample

/-- The command of a command line. -/
def parse (args : List String) (cwd : Option String) : Option GitCommand :=
  match args.drop 7, cwd with
  | ["ls-remote", url], none => some (.lsRemote url)
  | ["config", "--list", "--show-origin"], none => some .configList
  | ["init", "--bare", path], none => some (.init path)
  | ["-C", path, "remote", "add", "origin", url], none => some (.remoteAdd path url)
  | ["-C", path, "remote", "set-url", "origin", url], none => some (.remoteSetUrl path url)
  | ["-C", path, "fetch", "origin", "+refs/heads/*:refs/heads/*"], none =>
      some (.fetch false path)
  | ["fetch", "--prune", "origin", "+refs/heads/*:refs/heads/*"], some path =>
      some (.fetch true path)
  | ["symbolic-ref", "--short", "HEAD"], some path => some (.symbolicRef path)
  | ["rev-parse", "--verify", ref], some path =>
      some (.revParse path (String.ofList ((ref.toList.drop 11).take (ref.toList.length - 20))))
  | _, _ => none

theorem parse_args (c : GitCommand) : parse (command c.args) c.cwd = some c := by
  rcases c with url | _ | path | ⟨path, url⟩ | ⟨path, url⟩ | ⟨_ | _, path⟩ | path | ⟨path, branch⟩
  any_goals rfl
  have hbranch : (("refs/heads/" ++ branch ++ "^\x7bcommit\x7d").toList.drop 11).take
      (("refs/heads/" ++ branch ++ "^\x7bcommit\x7d").toList.length - 20) = branch.toList := by
    have hlength : ("refs/heads/".toList ++ branch.toList ++ "^\x7bcommit\x7d".toList).length - 20
        = branch.toList.length := by
      rw [List.length_append, List.length_append]
      show 11 + branch.toList.length + 9 - 20 = _
      omega
    rw [String.toList_append, String.toList_append, hlength, List.append_assoc,
      List.drop_left' (by decide), List.take_left' rfl]
  show some (Git.Command.revParse path (String.ofList _)) = _
  rw [hbranch, String.ofList_toList]

/-- Git as documented, as far as `works` lets it. -/
def machine (reach : String → Option (Git.Remote String)) (works : GitCommand → Bool)
    (files : List (String × Bytes)) : GitHost GitDisk where
  pathExists d path := (d path).isSome
  mkdir d _ := (.ok (), d)
  spawn d args cwd :=
    match parse args cwd with
    | some c =>
        match if works c then c.run "master" reach d else none with
        | some d' => (.exited 0 (Utf8.encode ((c.prints d).elim "" (· ++ "\n")).toList) [], d')
        | none => (.exited 128 [] (ascii "fatal"), d)
    | none => (((host files).spawn () args cwd).1, d)

section Machine

variable {reach : String → Option (Git.Remote String)} {works : GitCommand → Bool}
  {files : List (String × Bytes)}

theorem machine_spawn (reach : String → Option (Git.Remote String)) (works : GitCommand → Bool)
    (files : List (String × Bytes)) (d : GitDisk) (c : GitCommand) :
    (machine reach works files).spawn d (command c.args) c.cwd
      = match if works c then c.run "master" reach d else none with
        | some d' => (.exited 0 (Utf8.encode ((c.prints d).elim "" (· ++ "\n")).toList) [], d')
        | none => (.exited 128 [] (ascii "fatal"), d) := by
  rw [machine]
  dsimp only
  rw [parse_args]

theorem machine_documented : (machine reach works files).Documented "master" reach id where
  plain := by decide +kernel
  pathExists _ _ := rfl
  mkdir _ _ := rfl
  exited d d' c out err h := by
    rw [machine_spawn] at h
    split at h
    · rename_i d₁ hrun
      obtain ⟨hended, rfl⟩ := Prod.mk.inj h
      obtain ⟨-, rfl, -⟩ := Completed.exited.inj hended
      refine ⟨?_, _, Utf8.decode_encode _, fun name hname => ?_⟩
      · split at hrun
        · exact hrun
        · cases hrun
      · have hname : c.prints d = some name := hname
        rw [hname, String.ofList_toList]
        rfl
    · cases (Completed.exited.inj (Prod.mk.inj h).1).1
  leaves d c := by
    rw [machine_spawn]
    split
    · rename_i d₁ hrun
      split at hrun
      · exact .done hrun
      · cases hrun
    · exact .nothing

/-- All that has the length of a commit is that one. -/
def contents (files : List (String × Bytes)) (h : Plain files) (sha : String) : Option Commit :=
  if sha.toList.length = 40 then some (commit files h) else none

theorem machine_healthy {py : Python} (h : Plain files)
    (hsize : ∀ names, (commit files h).names py = .ok names → ∀ name ∈ names,
      Reads py ((commit files h).content name).length) :
    (machine reach (fun _ => true) files).Healthy py "master" reach id (contents files h)
      fun _ => True where
  mkdir d _ _ := ⟨d, rfl, trivial⟩
  exits d c _ _ hrun := by
    obtain ⟨d', hrun⟩ := Option.isSome_iff_exists.mp hrun
    have hworks : (if true then c.run "master" reach d else none) = some d' := hrun
    have hspawn := machine_spawn reach (fun _ => true) files d c
    rw [hworks] at hspawn
    exact ⟨_, [], d', hspawn, trivial⟩
  serves path sha c hc := by
    rw [contents] at hc
    split at hc
    · rename_i hlength
      obtain rfl := Option.some.inj hc
      have hserves := host_serves h hsize path hlength
      refine ⟨fun d hd => ?_, fun d names name hd hnames hname => ?_,
        fun d names name hd hnames hname => ?_⟩
      · obtain ⟨err, _, hspawn, -⟩ := hserves.listing () trivial
        exact ⟨err, d, congrArg (fun x => (x.1, d)) hspawn, hd⟩
      · obtain ⟨out, err, _, text, hspawn, -, htext⟩ :=
          hserves.size () names name trivial hnames hname
        exact ⟨out, err, d, text, congrArg (fun x => (x.1, d)) hspawn, hd, htext⟩
      · obtain ⟨err, _, hspawn, -⟩ := hserves.blob () names name trivial hnames hname
        exact ⟨err, d, congrArg (fun x => (x.1, d)) hspawn, hd⟩
    · cases hc
  pins path sha s _ _ := ⟨s, Program.bind_ok (GitRepositoryManager.runText_exited rfl rfl)⟩

end Machine

/-- A remote repository where `main` is not the only branch. -/
def remote (head : String) : Git.Remote String :=
  ⟨head, fun branch => if branch = "main" then some sha
    else if branch = "master" then some "fedcba9876543210fedcba9876543210fedcba98" else none⟩

def reachable (head url : String) : Option (Git.Remote String) :=
  if url = source.repositoryUrl then some (remote head) else none

end Sample

end AgentBenchX
