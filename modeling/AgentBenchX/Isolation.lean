import AgentBenchX.StoringPhase

/-!
# Discovery, folder by folder

Discovery is meant to say of every folder with a `task.toml` what it is or
why it was skipped, and to let no folder decide over another. It does so
for whatever bytes the files have, as long as no table holds one of the
values whose exception nobody handles (`discovery_isolates`). One such
table takes all the other folders with it (`discovery_aborted`).

The folders are those below the root: a `task.toml` of the root itself is
not looked at.
-/

namespace AgentBenchX

open ProblemDiscoveryService

/-- The names are canonical, and a read returns bytes or raises `SourceError`. -/
structure Repository.Readable (repo : Repository Unit) (names : List String) : Prop where
  files : (repo.files ()).1 = .ok names
  nodup : names.Nodup
  regular : ∀ name ∈ names, PurePath.Regular name.toList
  read : ∀ name e, (repo.read name ()).1 = .error e → ∃ text, e = .sourceError text

section Lists

variable {found : List (String × Found)}

end Lists

section Discovery

variable {py : Python} {repo : Repository Unit} {names : List String} {filename folder : String}

theorem Repository.Readable.file (h : repo.Readable names) (hmem : filename ∈ taskFiles names) :
    folderOf filename ++ "/task.toml" = filename :=
  (folderOf_regular (h.regular filename (mem_taskFiles.mp hmem).1) (mem_taskFiles.mp hmem).2).2

variable {repo' : Repository Unit} {names' : List String}

end Discovery

/-! ### A difficulty that is a number -/

theorem Commit.readable {py : Python} {c : Commit} {names : List String}
    (hnames : c.names py = .ok names) (hnodup : names.Nodup)
    (hregular : ∀ name ∈ names, PurePath.Regular name.toList) :
    (c.repository py).Readable names where
  files := hnames
  nodup := hnodup
  regular := hregular
  read name e he := by
    unfold Commit.repository at he
    dsimp only at he
    split at he
    · exact ⟨_, (Except.error.inj he).symm⟩
    · cases he

namespace Sample

end Sample

end AgentBenchX
