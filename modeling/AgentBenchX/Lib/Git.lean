import Mathlib.Data.Nat.Notation
import Mathlib.Logic.Function.Basic

/-!
# Bare repositories

What git documents of the few commands a mirror of a remote repository is
made with: where HEAD points, which branches there are, and the remote
named `origin`. `Command.run` is a command that works and `Command.Leaves`
what one that fails may have done. `Progress` says how far the construction
of a mirror has come (`Progress.run`, `Progress.leaves`).

Paths, URLs and names are of any types.
-/

namespace AgentBenchX
namespace Git

/-- A repository to fetch from: the branch its HEAD points to, and the tips of
its branches. -/
structure Remote (ν : Type) where
  head : ν
  heads : ν → Option ν

structure BareRepository (υ ν : Type) where
  /-- The branch HEAD points to, whether there is one of that name or not. -/
  head : ν
  heads : ν → Option ν
  /-- The URL of `origin`. -/
  origin : Option υ

abbrev Disk (π υ ν : Type) := π → Option (BareRepository υ ν)

/-- `git init --bare`; `initial` is the built-in name of the first branch. -/
def BareRepository.created {υ ν : Type} (initial : ν) : BareRepository υ ν :=
  ⟨initial, fun _ => none, none⟩

/-- `git fetch` of all branches, with or without `--prune`. HEAD stays. -/
def BareRepository.fetched {υ ν : Type} (r : BareRepository υ ν) (prune : Bool)
    (remote : Remote ν) : BareRepository υ ν :=
  { r with heads := if prune then remote.heads else fun b => remote.heads b <|> r.heads b }

inductive Command (π υ ν : Type) where
  | lsRemote (url : υ)
  | configList
  | init (path : π)
  | remoteAdd (path : π) (url : υ)
  | remoteSetUrl (path : π) (url : υ)
  | fetch (prune : Bool) (path : π)
  | symbolicRef (path : π)
  | revParse (path : π) (branch : ν)

variable {π υ ν : Type} [DecidableEq π]

namespace Command

/-- The disk after a command that works; `none` where git refuses. -/
def run (initial : ν) (reach : υ → Option (Remote ν)) (d : Disk π υ ν) :
    Command π υ ν → Option (Disk π υ ν)
  | lsRemote url => (reach url).map fun _ => d
  | configList => some d
  | init path =>
      match d path with
      | some _ => some d
      | none => some (Function.update d path (some (.created initial)))
  | remoteAdd path url =>
      match d path with
      | some ⟨head, heads, none⟩ => some (Function.update d path (some ⟨head, heads, some url⟩))
      | _ => none
  | remoteSetUrl path url =>
      match d path with
      | some ⟨head, heads, some _⟩ => some (Function.update d path (some ⟨head, heads, some url⟩))
      | _ => none
  | fetch prune path =>
      match d path with
      | some ⟨head, heads, some url⟩ => (reach url).map fun remote =>
          Function.update d path
            (some (BareRepository.fetched ⟨head, heads, some url⟩ prune remote))
      | _ => none
  | symbolicRef path => (d path).map fun _ => d
  | revParse path branch => (d path).bind fun r => (r.heads branch).map fun _ => d

/-- No branch is in the way: a fetch that does not prune meets none, for one called `a`
keeps git from making one called `a/b`. -/
def Unhindered (d : Disk π υ ν) : Command π υ ν → Prop
  | fetch false path => ∀ r, d path = some r → ∀ branch, r.heads branch = none
  | _ => True

/-- What is printed, as far as it is said here. -/
def prints (d : Disk π υ ν) : Command π υ ν → Option ν
  | symbolicRef path => (d path).map BareRepository.head
  | revParse path branch => (d path).bind fun r => r.heads branch
  | _ => none

/-- What a command leaves that may have failed: all of its effect or nothing,
or some branches of a fetch. -/
inductive Leaves (initial : ν) (reach : υ → Option (Remote ν)) (d : Disk π υ ν) :
    Command π υ ν → Disk π υ ν → Prop
  | nothing {c : Command π υ ν} : Leaves initial reach d c d
  | done {c : Command π υ ν} {d' : Disk π υ ν} :
      c.run initial reach d = some d' → Leaves initial reach d c d'
  | part {prune : Bool} {path : π} {head : ν} {old heads : ν → Option ν} {url : υ} :
      d path = some ⟨head, old, some url⟩ →
      Leaves initial reach d (.fetch prune path)
        (Function.update d path (some ⟨head, heads, some url⟩))

end Command

/-! ## Mirrors -/

/-- The commands a mirror is made with. -/
def mirror (path : π) (url : υ) : List (Command π υ ν) :=
  [.lsRemote url, .configList, .init path, .remoteAdd path url, .remoteSetUrl path url,
    .fetch false path]

/-- The mirror after `n` of its commands, the last one perhaps in part. -/
inductive Progress (initial : ν) (url : υ) : ℕ → Option (BareRepository υ ν) → Prop
  | absent {n : ℕ} : n ≤ 2 → Progress initial url n none
  | created : Progress initial url 3 (some (.created initial))
  | connected {n : ℕ} : 4 ≤ n → n ≤ 5 →
      Progress initial url n (some ⟨initial, fun _ => none, some url⟩)
  | fetched {heads : ν → Option ν} : Progress initial url 6 (some ⟨initial, heads, some url⟩)

/-- A repository without an origin. -/
def Stranded : Option (BareRepository υ ν) → Prop
  | some ⟨_, _, none⟩ => True
  | _ => False

namespace Progress

variable {initial : ν} {reach : υ → Option (Remote ν)} {path : π} {url : υ} {n : ℕ}
  {d d' : Disk π υ ν} {c : Command π υ ν} {r : Option (BareRepository υ ν)}

theorem eq_none (h : Progress initial url n r) (hn : n ≤ 2) : r = none := by
  cases h with
  | absent => rfl
  | created | connected | fetched => omega

theorem eq_created (h : Progress initial url 3 r) : r = some (.created initial) := by
  cases h with
  | absent | connected => omega
  | created => rfl

theorem eq_connected (h : Progress initial url n r) (hn : 4 ≤ n) (hn' : n ≤ 5) :
    r = some ⟨initial, fun _ => none, some url⟩ := by
  cases h with
  | absent | created | fetched => omega
  | connected => rfl

/-- It is stranded between two of the commands only. -/
theorem stranded_iff (h : Progress initial url n r) : Stranded r ↔ n = 3 := by
  cases h with
  | absent => exact ⟨False.elim, by omega⟩
  | created => exact ⟨fun _ => rfl, fun _ => trivial⟩
  | connected | fetched => exact ⟨False.elim, by omega⟩

/-- The next command works. -/
theorem run (h : Progress initial url n (d path)) (hc : (mirror path url)[n]? = some c)
    (hrun : c.run initial reach d = some d') : Progress initial url (n + 1) (d' path) := by
  rcases n with _ | _ | _ | _ | _ | _ | n
  · obtain rfl := Option.some.inj hc
    obtain ⟨-, -, rfl⟩ := Option.map_eq_some_iff.mp hrun
    rw [h.eq_none (by decide)]
    exact .absent (by decide)
  · obtain rfl := Option.some.inj hc
    obtain rfl := Option.some.inj hrun
    rw [h.eq_none (by decide)]
    exact .absent (by decide)
  · obtain rfl := Option.some.inj hc
    rw [Command.run, h.eq_none (by decide)] at hrun
    obtain rfl := Option.some.inj hrun
    rw [Function.update_self]
    exact .created
  · obtain rfl := Option.some.inj hc
    rw [Command.run, h.eq_created] at hrun
    obtain rfl := Option.some.inj hrun
    rw [Function.update_self]
    exact .connected (by decide) (by decide)
  · obtain rfl := Option.some.inj hc
    rw [Command.run, h.eq_connected (by decide) (by decide)] at hrun
    obtain rfl := Option.some.inj hrun
    rw [Function.update_self]
    exact .connected (by decide) (by decide)
  · obtain rfl := Option.some.inj hc
    rw [Command.run, h.eq_connected (by decide) (by decide)] at hrun
    obtain ⟨remote, -, rfl⟩ := Option.map_eq_some_iff.mp hrun
    rw [Function.update_self]
    exact .fetched
  · cases hc

/-- A command that may have failed. -/
theorem leaves (h : Progress initial url n (d path)) (hc : (mirror path url)[n]? = some c)
    (hleaves : c.Leaves initial reach d d') :
    Progress initial url n (d' path) ∨ Progress initial url (n + 1) (d' path) := by
  cases hleaves with
  | nothing => exact Or.inl h
  | done hrun => exact Or.inr (h.run hc hrun)
  | @part prune path' head old heads url' hpath =>
      obtain ⟨rfl, rfl⟩ : n = 5 ∧ path' = path := by
        rcases n with _ | _ | _ | _ | _ | _ | n <;> cases hc
        exact ⟨rfl, rfl⟩
      rw [h.eq_connected (by decide) (by decide)] at hpath
      cases hpath
      rw [Function.update_self]
      exact Or.inr .fetched

/-- Every command works if the remote can be reached. -/
theorem runs (h : Progress initial url n (d path)) (hc : (mirror path url)[n]? = some c)
    (hreach : (reach url).isSome) : ∃ d', c.run initial reach d = some d' := by
  obtain ⟨remote, hremote⟩ := Option.isSome_iff_exists.mp hreach
  rcases n with _ | _ | _ | _ | _ | _ | n
  · obtain rfl := Option.some.inj hc
    rw [Command.run, hremote]
    exact ⟨_, rfl⟩
  · obtain rfl := Option.some.inj hc
    exact ⟨_, rfl⟩
  · obtain rfl := Option.some.inj hc
    rw [Command.run, h.eq_none (by decide)]
    exact ⟨_, rfl⟩
  · obtain rfl := Option.some.inj hc
    rw [Command.run, h.eq_created]
    exact ⟨_, rfl⟩
  · obtain rfl := Option.some.inj hc
    rw [Command.run, h.eq_connected (by decide) (by decide)]
    exact ⟨_, rfl⟩
  · obtain rfl := Option.some.inj hc
    rw [Command.run, h.eq_connected (by decide) (by decide)]
    dsimp only
    rw [hremote]
    exact ⟨_, rfl⟩
  · cases hc

omit [DecidableEq π] in
/-- Nothing is in its way. -/
theorem unhindered (h : Progress initial url n (d path)) (hc : (mirror path url)[n]? = some c) :
    c.Unhindered d := by
  rcases n with _ | _ | _ | _ | _ | _ | n <;> cases hc
  any_goals trivial
  intro r hr branch
  rw [h.eq_connected (by decide) (by decide)] at hr
  exact Option.some.inj hr ▸ rfl

/-- Fetching works if there is a remote to fetch from. -/
theorem runs_fetch {prune : Bool} (h : Progress initial url n r) (hn : 4 ≤ n) (hr : d path = r)
    (hreach : (reach url).isSome) :
    ∃ d', (Command.fetch prune path).run initial reach d = some d' := by
  obtain ⟨remote, hremote⟩ := Option.isSome_iff_exists.mp hreach
  cases h with
  | absent | created => omega
  | connected | fetched =>
      rw [Command.run, hr]
      dsimp only
      rw [hremote]
      exact ⟨_, rfl⟩

/-- After a fetch there are the branches of the remote, if nothing else was there
or it is pruned. -/
theorem run_fetch {prune : Bool} {remote : Remote ν} (h : Progress initial url n (d path))
    (hprune : n ≤ 5 ∨ prune = true) (hreach : reach url = some remote)
    (hrun : (Command.fetch prune path).run initial reach d = some d') :
    d' path = some ⟨initial, remote.heads, some url⟩ := by
  rw [Command.run] at hrun
  generalize hr : d path = r at h hrun
  cases h with
  | absent | created => cases hrun
  | connected =>
      dsimp only at hrun
      rw [hreach] at hrun
      obtain rfl := Option.some.inj hrun
      dsimp only
      rw [Function.update_self, BareRepository.fetched]
      cases prune <;> simp
  | fetched =>
      dsimp only at hrun
      rw [hreach] at hrun
      obtain rfl := Option.some.inj hrun
      dsimp only
      rw [Function.update_self, hprune.resolve_left (by decide)]
      rfl

end Progress

/-- A repository without an origin cannot be fetched into. -/
theorem Stranded.run_fetch {initial : ν} {reach : υ → Option (Remote ν)} {path : π} {prune : Bool}
    {d : Disk π υ ν} (h : Stranded (d path)) :
    (Command.fetch prune path).run initial reach d = none := by
  rw [Command.run]
  generalize d path = r at h
  rcases r with _ | ⟨head, heads, _ | url⟩
  · rfl
  · rfl
  · exact h.elim

/-- And what fails to be fetched leaves it as it is. -/
theorem Stranded.leaves {initial : ν} {reach : υ → Option (Remote ν)} {path : π} {prune : Bool}
    {d d' : Disk π υ ν} (h : Stranded (d path))
    (hleaves : (Command.fetch prune path).Leaves initial reach d d') : d' = d := by
  cases hleaves with
  | nothing => rfl
  | done hrun =>
      rw [h.run_fetch] at hrun
      cases hrun
  | part hpath =>
      rw [hpath] at h
      exact h.elim

end Git
end AgentBenchX
