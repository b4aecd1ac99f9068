import AgentBenchX.Lib.RealPath

/-!
# Storage keys

Both backends address an object by the logical key: the local one below its
root directory, S3 by the key itself. `logical_key` refuses whatever a path
would be rewritten for, so a key is stored under its own name or not at all.

The disk is its symbolic links. Whether anything exists at a place does not
matter to where a path leads.
-/

namespace AgentBenchX

open PurePath

inductive StorageFault where
  | valueError (text : String)
  /-- `Symlink loop from …`. -/
  | runtimeError
deriving DecidableEq

def logicalKey (key : String) : Except StorageFault String :=
  let parts := components key.toList
  if key = "" ∨ (∃ p ∈ parts, p = [] ∨ p = ['.'] ∨ p = ['.', '.']) ∨ '\\' ∈ key.toList
      ∨ Char.ofNat 0 ∈ key.toList then
    .error (.valueError "Invalid logical storage key")
  else .ok (String.ofList (parse key.toList).text)

/-- The root is resolved: the names on the way from the root directory. -/
structure LocalStorageBackend where
  root : Place
deriving DecidableEq

namespace LocalStorageBackend

variable (links : Symlinks) (cwd : Place)

/-- `LocalStorageBackend(root)`. -/
def init (root : PurePath) : Except StorageFault LocalStorageBackend :=
  match links.resolve cwd root with
  | none => .error .runtimeError
  | some place => .ok ⟨place⟩

def path (backend : LocalStorageBackend) (key : String) : Except StorageFault Place :=
  match logicalKey key with
  | .error e => .error e
  | .ok key =>
      match links.resolve cwd ((pathOf backend.root).join key.toList) with
      | none => .error .runtimeError
      | some path =>
          if backend.root <+: path then .ok path
          else .error (.valueError "Storage path escapes root")

end LocalStorageBackend

/-- The `Key` of every request to the bucket. -/
def S3CompatibleStorageBackend.objectKey (key : String) : Except StorageFault String :=
  logicalKey key

/-! ## Accepted keys -/

/-- Every component is a name, and no character is a backslash or NUL. -/
def IsLogicalKey (key : String) : Prop :=
  key ≠ "" ∧ '\\' ∉ key.toList ∧ Char.ofNat 0 ∉ key.toList
    ∧ ∀ c ∈ components key.toList, c ≠ [] ∧ c ≠ ['.'] ∧ c ≠ ['.', '.']

instance : DecidablePred IsLogicalKey := fun _ => inferInstanceAs (Decidable (_ ∧ _))

variable {key k : String}

theorem IsLogicalKey.regular (h : IsLogicalKey key) : Regular key.toList := h.2.2.2

theorem refused_iff :
    (key = "" ∨ (∃ p ∈ components key.toList, p = [] ∨ p = ['.'] ∨ p = ['.', '.'])
      ∨ '\\' ∈ key.toList ∨ Char.ofNat 0 ∈ key.toList) ↔ ¬IsLogicalKey key := by
  rw [IsLogicalKey]
  grind

/-- A key is accepted as it is. -/
theorem logicalKey_eq_ok : logicalKey key = .ok k ↔ IsLogicalKey key ∧ k = key := by
  by_cases h : IsLogicalKey key
  · have hsame : logicalKey key = .ok key := by
      rw [logicalKey, if_neg fun hrefused => refused_iff.mp hrefused h, h.regular.text_parse,
        String.ofList_toList]
    rw [hsame]
    exact ⟨fun heq => ⟨h, (Except.ok.inj heq).symm⟩, fun heq => heq.2 ▸ rfl⟩
  · rw [logicalKey, if_pos (refused_iff.mpr h)]
    exact ⟨fun heq => (nomatch heq), fun hkey => absurd hkey.1 h⟩

theorem components_injective {s t : List Char} (h : components s = components t) : s = t := by
  rw [← intercalate_components s, h, intercalate_components]

/-! ## Places -/

variable {links : Symlinks} {cwd : Place} {backend : LocalStorageBackend}

/-- No symbolic link on the way to a place or below it. -/
def SymlinkFree (links : Symlinks) (root : Place) : Prop :=
  ∀ p, p ≠ [] → (p <+: root ∨ root <+: p) → links.lookup p = none

namespace SymlinkFree

variable {root : Place}

/-- The root of a new backend has no link on its way, so that only the links
below it matter. -/
theorem of_init {path : PurePath} (hcwd : links.Free cwd)
    (hinit : LocalStorageBackend.init links cwd path = .ok backend)
    (hbelow : ∀ p, backend.root <+: p → p ≠ backend.root → links.lookup p = none) :
    SymlinkFree links backend.root := by
  have hfree : links.Free backend.root := by
    rw [LocalStorageBackend.init] at hinit
    cases hplace : links.resolve cwd path with
    | none => rw [hplace] at hinit; nomatch hinit
    | some place =>
        rw [hplace] at hinit
        obtain rfl := Except.ok.inj hinit
        exact Symlinks.realpath_free _ _ hcwd hplace
  intro p hne hp
  by_cases heq : p = backend.root
  · exact hfree p (heq ▸ List.prefix_rfl) hne
  · exact hp.elim (fun hp => hfree p hp hne) fun hp => hbelow p hp heq

theorem iff_entries :
    SymlinkFree links root ↔ ∀ e ∈ links, e.1 ≠ [] → ¬(e.1 <+: root ∨ root <+: e.1) := by
  constructor
  · intro h e he hne hway
    have hnone := List.lookup_eq_none_iff.mp (h e.1 hne hway) e he
    simp at hnone
  · intro h p hne hway
    refine List.lookup_eq_none_iff.mpr fun e he => bne_iff_ne.mpr ?_
    rintro rfl
    exact h e he hne hway

instance : Decidable (SymlinkFree links root) := decidable_of_iff _ iff_entries.symm

theorem free (h : SymlinkFree links root) (names : List Name) : links.Free (root ++ names) := by
  intro p hp hne
  exact h p hne (List.prefix_or_prefix_of_prefix hp (List.prefix_append _ _))

/-- An accepted key leads down from the root by its components. -/
theorem path_eq (h : SymlinkFree links backend.root) (hkey : IsLogicalKey key)
    {names : List Name} (hnames : names.map Name.text = components key.toList) :
    backend.path links cwd key = .ok (backend.root ++ names) := by
  have hreal := Symlinks.resolve_pathOf cwd (h.free names)
  rw [LocalStorageBackend.path, logicalKey_eq_ok.mpr ⟨hkey, rfl⟩]
  dsimp only
  rw [join_pathOf hkey.regular hnames, hreal]
  exact if_pos (List.prefix_append _ _)

end SymlinkFree

/-- Keys that are told apart as text are told apart as paths below a root,
resolved or not. -/
theorem keys_apart {key' : String} (hkey : IsLogicalKey key) (hkey' : IsLogicalKey key')
    (hne : key ≠ key') :
    (pathOf backend.root).join key.toList ≠ (pathOf backend.root).join key'.toList
      ∧ (SymlinkFree links backend.root →
        backend.path links cwd key ≠ backend.path links cwd key') := by
  obtain ⟨names, -, hnames⟩ := hkey.regular.names
  obtain ⟨names', -, hnames'⟩ := hkey'.regular.names
  have hdiff : backend.root ++ names ≠ backend.root ++ names' := by
    intro heq
    obtain rfl := List.append_cancel_left heq
    exact hne (String.ext (components_injective (hnames.symm.trans hnames')))
  rw [join_pathOf hkey.regular hnames, join_pathOf hkey'.regular hnames']
  refine ⟨fun heq => hdiff (pathOf_injective heq), fun hfree heq => hdiff ?_⟩
  rw [hfree.path_eq hkey hnames, hfree.path_eq hkey' hnames'] at heq
  exact Except.ok.inj heq

/-- **Storage keys.** `logical_key` accepts the texts whose components are
names and that have neither a backslash nor a NUL, and returns them as they
are. So two accepted keys are two keys of the bucket and two paths below the
local root, which stay two, strictly below the root, when they are resolved
and the root has no symbolic links. -/
theorem storage_keys :
    (∀ key, (∃ k, logicalKey key = .ok k) ↔ IsLogicalKey key)
      ∧ (∀ key k, logicalKey key = .ok k → k = key)
      ∧ (∀ key key', IsLogicalKey key → IsLogicalKey key' → key ≠ key' →
        S3CompatibleStorageBackend.objectKey key ≠ S3CompatibleStorageBackend.objectKey key'
        ∧ ∀ (backend : LocalStorageBackend) (links : Symlinks) (cwd : Place),
          (pathOf backend.root).join key.toList ≠ (pathOf backend.root).join key'.toList
          ∧ (SymlinkFree links backend.root →
            backend.path links cwd key ≠ backend.path links cwd key'))
      ∧ ∀ (backend : LocalStorageBackend) (links : Symlinks) (cwd : Place) (key : String),
        SymlinkFree links backend.root → IsLogicalKey key →
          ∃ p, backend.path links cwd key = .ok p ∧ backend.root <+: p ∧ p ≠ backend.root := by
  refine ⟨fun key => ?_, fun key k h => (logicalKey_eq_ok.mp h).2, ?_, ?_⟩
  · exact ⟨fun ⟨k, hk⟩ => (logicalKey_eq_ok.mp hk).1, fun h => ⟨key, logicalKey_eq_ok.mpr ⟨h, rfl⟩⟩⟩
  · intro key key' hkey hkey' hne
    refine ⟨fun heq => hne ?_, fun _ _ _ => keys_apart hkey hkey' hne⟩
    rw [S3CompatibleStorageBackend.objectKey, S3CompatibleStorageBackend.objectKey,
      logicalKey_eq_ok.mpr ⟨hkey, rfl⟩, logicalKey_eq_ok.mpr ⟨hkey', rfl⟩] at heq
    exact Except.ok.inj heq
  · intro backend links cwd key hfree hkey
    obtain ⟨names, hnil, hnames⟩ := hkey.regular.names
    exact ⟨_, hfree.path_eq hkey hnames, List.prefix_append _ _, by simpa using hnil⟩

namespace Sample

def named (text : String) (h : IsName text.toList := by decide) : Name := ⟨text.toList, h⟩

/-- A root below `/srv`, on a disk with a link elsewhere. -/
def objects : LocalStorageBackend := ⟨[named "srv", named "objects"]⟩

def elsewhere : Symlinks := [([named "var"], "/mnt/data".toList)]

/-- Somebody has put a link into the root. -/
def planted : Symlinks := [([named "srv", named "objects", named "old"], "agents".toList)]

end Sample

theorem storage_keys_upload :
    (Sample.objects.path Sample.elsewhere [] "agents/a/v/agent.py"
        ≠ Sample.objects.path Sample.elsewhere [] "agents/a/agent.py")
      ∧ ∃ p, Sample.objects.path Sample.elsewhere [] "agents/a/v/agent.py" = .ok p
        ∧ Sample.objects.root <+: p ∧ p ≠ Sample.objects.root :=
  ⟨((storage_keys.2.2.1 "agents/a/v/agent.py" "agents/a/agent.py" (by decide) (by decide)
      (by decide)).2 Sample.objects Sample.elsewhere []).2 (by decide),
    storage_keys.2.2.2 Sample.objects Sample.elsewhere [] _ (by decide) (by decide)⟩

/-- Through a link below the root two keys lead to one place. -/
example : Sample.objects.path Sample.planted [] "old/a" = Sample.objects.path Sample.planted []
    "agents/a" := by decide

end AgentBenchX
