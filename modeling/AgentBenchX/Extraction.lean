import AgentBenchX.Handover

/-!
# What a prepared problem holds

Whenever `prepare_problem` returns, the folder holds the files of the task
and nothing else, byte for byte (`extraction_exact`). Nothing is assumed of
the machine but that git, where it succeeds, shows the commit: the listing
is read back to its entries (`blobNames_listing`), and the loop is inverted
name by name (`extractAll_ok`).
-/

namespace AgentBenchX

open GitRepositoryManager (command blobNames)

/-! ## The listing of a tree -/

inductive ObjectType where
  | blob | tree | commit | tag
deriving DecidableEq, Repr

def ObjectType.text : ObjectType → String
  | .blob => "blob"
  | .tree => "tree"
  | .commit => "commit"
  | .tag => "tag"

/-- A line of `git ls-tree`. -/
structure TreeEntry where
  mode : String
  type : ObjectType
  oid : String
  path : String

namespace TreeEntry

/-- The mode and the name of the object are digits; the path is canonical, but may hold
tabs and line ends. -/
structure WellFormed (e : TreeEntry) : Prop where
  mode : ∀ c ∈ e.mode.toList, c.isDigit = true
  oid : ∀ c ∈ e.oid.toList, c.isAlphanum = true
  path : PurePath.Regular e.path.toList
  nul : Char.ofNat 0 ∉ e.path.toList

/-- A regular file. -/
def IsFile (e : TreeEntry) : Prop := e.type = .blob ∧ (e.mode = "100644" ∨ e.mode = "100755")

instance (e : TreeEntry) : Decidable e.IsFile := inferInstanceAs (Decidable (_ ∧ _))

/-- What stands in front of the tab. -/
def metadata (e : TreeEntry) : List Char :=
  e.mode.toList ++ ' ' :: (e.type.text.toList ++ ' ' :: e.oid.toList)

def text (e : TreeEntry) : List Char := e.metadata ++ '\t' :: e.path.toList

/-- The output of `ls-tree -rz`. -/
def listing (entries : List TreeEntry) : Bytes :=
  Utf8.encode (entries.flatMap fun e => e.text ++ [Char.ofNat 0])

end TreeEntry

/-- Text that ends every piece with a separator. -/
theorem splitOn_terminated {α : Type} [DecidableEq α] {sep : α} {pieces : List (List α)}
    (h : ∀ p ∈ pieces, sep ∉ p) :
    (pieces.flatMap fun p => p ++ [sep]).splitOn sep = pieces ++ [[]] := by
  induction pieces with
  | nil => rfl
  | cons p pieces ih =>
      obtain ⟨hp, hpieces⟩ := List.forall_mem_cons.mp h
      rw [List.flatMap_cons, List.append_assoc, List.singleton_append,
        List.splitOn_append_cons_self, List.splitOn_eq_singleton hp, ih hpieces]
      rfl

/-- Up to a separator that is in neither of two texts, a prefix is the whole. -/
theorem prefix_separated {α : Type} {sep : α} {a b x y : List α} (ha : sep ∉ a) (hb : sep ∉ b) :
    a ++ sep :: x <+: b ++ sep :: y ↔ a = b ∧ x <+: y := by
  induction a generalizing b with
  | nil =>
      cases b with
      | nil => simp
      | cons c b =>
          have hc : sep ≠ c := fun heq => hb (heq ▸ List.mem_cons_self ..)
          simp [hc]
  | cons c a ih =>
      have hc : c ≠ sep := fun heq => ha (heq ▸ List.mem_cons_self ..)
      cases b with
      | nil => simp [hc]
      | cons d b =>
          simp only [List.cons_append, List.cons_prefix_cons, List.cons.injEq]
          rw [ih (fun h => ha (List.mem_cons_of_mem _ h)) (fun h => hb (List.mem_cons_of_mem _ h)),
            and_assoc]

namespace TreeEntry

variable {e : TreeEntry}

/-- The metadata are letters, digits and blanks. -/
theorem WellFormed.metadata (h : e.WellFormed) :
    ∀ c ∈ e.metadata, c = ' ' ∨ c.isAlphanum = true := by
  intro c hc
  simp only [TreeEntry.metadata, List.mem_append, List.mem_cons] at hc
  rcases hc with hc | rfl | hc | rfl | hc
  · exact Or.inr (by simp [Char.isAlphanum, h.mode c hc])
  · exact Or.inl rfl
  · refine Or.inr ?_
    have htype : ∀ t : ObjectType, ∀ c ∈ t.text.toList, c.isAlphanum = true := by
      intro t
      cases t <;> exact forall_of_text (by decide)
    exact htype _ c hc
  · exact Or.inl rfl
  · exact Or.inr (h.oid c hc)

theorem WellFormed.notMem_metadata (h : e.WellFormed) {c : Char} (hblank : c ≠ ' ')
    (hc : c.isAlphanum = false) : c ∉ e.metadata := by
  intro hmem
  rcases h.metadata c hmem with rfl | htrue
  · exact hblank rfl
  · rw [hc] at htrue
    cases htrue

theorem WellFormed.nul_text (h : e.WellFormed) : Char.ofNat 0 ∉ e.text := by
  rw [text, List.mem_append, List.mem_cons, not_or, not_or]
  exact ⟨h.notMem_metadata (by decide) (by decide), by decide, h.nul⟩

/-- Only the line of a regular file starts like one. -/
theorem WellFormed.starts_iff (h : e.WellFormed) :
    ("100644 blob".toList <+: e.text ∨ "100755 blob".toList <+: e.text) ↔ e.IsFile := by
  have hmode : ' ' ∉ e.mode.toList := fun hmem => absurd (h.mode _ hmem) (by decide)
  have hstarts : ∀ mode : String, ' ' ∉ mode.toList →
      ((mode.toList ++ ' ' :: "blob".toList <+: e.text) ↔ e.type = .blob ∧ e.mode = mode) := by
    intro mode hblank
    rw [text, TreeEntry.metadata, List.append_assoc, List.cons_append,
      prefix_separated hblank hmode, String.toList_inj, and_comm, eq_comm (a := mode)]
    refine and_congr_left fun _ => ?_
    cases e.type <;> simp [ObjectType.text]
  rw [IsFile, and_or_left, ← hstarts "100644" (by decide), ← hstarts "100755" (by decide)]
  exact Iff.rfl

/-- The first tab ends the metadata. -/
theorem WellFormed.partition (h : e.WellFormed) :
    Url.partition '\t' e.text = (e.metadata, e.path.toList) :=
  Url.partition_append (h.notMem_metadata (by decide) (by decide))

/-- **The listing is read back.** -/
theorem blobNames_listing {entries : List TreeEntry} (h : ∀ e ∈ entries, e.WellFormed) :
    blobNames (String.ofList (entries.flatMap fun e => e.text ++ [Char.ofNat 0]))
      = .ok ((entries.filter fun e => decide e.IsFile).map path).dedup := by
  let starts : List Char → Bool := fun x =>
    decide ("100644 blob".toList <+: x ∨ "100755 blob".toList <+: x)
  have hsplit : (entries.flatMap fun e => e.text ++ [Char.ofNat 0]).splitOn (Char.ofNat 0)
      = entries.map text ++ [[]] := by
    rw [← splitOn_terminated (List.forall_mem_map.mpr fun e he => (h e he).nul_text),
      List.flatMap_map]
  have hfilter : (entries.map text ++ [[]]).filter starts
      = (entries.filter fun e => decide e.IsFile).map text := by
    rw [List.filter_append, List.filter_map, show [[]].filter starts = [] from by decide,
      List.append_nil]
    refine congrArg (List.map text) (List.filter_congr fun e he => ?_)
    exact decide_eq_decide.mpr (h e he).starts_iff
  have hread : ∀ l : List TreeEntry, (∀ e ∈ l, e.WellFormed) →
      ((l.map text).mapM fun x =>
        if '\t' ∈ x then .ok (String.ofList (Url.partition '\t' x).2)
        else .error (.other "IndexError" "list index out of range") :
          Except SyncError (List String))
        = .ok (l.map path) := by
    intro l hl
    induction l with
    | nil => rfl
    | cons e l ih =>
        obtain ⟨he, hl⟩ := List.forall_mem_cons.mp hl
        have htab : '\t' ∈ e.text := List.mem_append_right _ (List.mem_cons_self ..)
        rw [List.map_cons, List.mapM_cons, if_pos htab, he.partition, String.ofList_toList, ih hl]
        rfl
  have hchars : (String.ofList (entries.flatMap fun e => e.text ++ [Char.ofNat 0])).toList
      = entries.flatMap fun e => e.text ++ [Char.ofNat 0] := String.toList_ofList
  unfold blobNames
  rw [hchars, hsplit]
  have hnames := hread (entries.filter fun e => decide e.IsFile) fun e he =>
    h e (List.mem_of_mem_filter he)
  rw [← hfilter] at hnames
  exact bind_of_ok hnames

theorem text_listing (entries : List TreeEntry) : Utf8.decode (listing entries)
    = some (String.ofList (entries.flatMap fun e => e.text ++ [Char.ofNat 0])) :=
  Utf8.decode_encode _

end TreeEntry

/-- Where git succeeds, it prints the commit: the listing, and the files in it. -/
structure GitHost.Shows {γ : Type} (git : GitHost γ) (cache sha : String)
    (entries : List TreeEntry) (content : String → Bytes) : Prop where
  listing : ∀ {g g' : γ} {out err : Bytes},
    git.spawn g (command ["ls-tree", "-rz", sha]) (some cache) = (.exited 0 out err, g') →
      out = TreeEntry.listing entries
  blob : ∀ {g g' : γ} {out err : Bytes}, ∀ e ∈ entries, e.IsFile →
    git.spawn g (command ["show", sha ++ ":" ++ e.path]) (some cache) = (.exited 0 out err, g') →
      out = content e.path

/-! ## What the manager returns -/

namespace GitRepositoryManager

variable {γ : Type} {py : Python} {git : GitHost γ} {cache sha : String}
  {entries : List TreeEntry} {content : String → Bytes} {s t : Cache γ}

theorem files_ok (hgit : git.Shows cache sha entries content)
    (hentries : ∀ e ∈ entries, e.WellFormed) {names : List String}
    (h : files py git cache sha s = (.ok names, t)) :
    names = ((entries.filter fun e => decide e.IsFile).map TreeEntry.path).dedup := by
  obtain ⟨out, u, hrun, h⟩ := Program.ok_of_bind h
  obtain ⟨err, hspawn⟩ := run_ok hrun
  obtain rfl := hgit.listing hspawn
  have hdecode : decode py (TreeEntry.listing entries)
      = .ok (String.ofList (entries.flatMap fun e => e.text ++ [Char.ofNat 0])) := by
    rw [decode, TreeEntry.text_listing]
  rw [Program.bind_ok (t := u) (by rw [hdecode]; rfl), TreeEntry.blobNames_listing hentries] at h
  exact (Except.ok.inj (Prod.mk.inj h).1).symm

theorem read_ok (hgit : git.Shows cache sha entries content) {e : TreeEntry} (he : e ∈ entries)
    (hfile : e.IsFile) {data : Bytes} (h : read py git cache sha e.path s = (.ok data, t)) :
    data = content e.path := by
  obtain ⟨text, u, -, h⟩ := Program.ok_of_bind h
  obtain ⟨size, w, -, h⟩ := Program.ok_of_bind h
  by_cases hsize : size > 1000000
  · rw [if_pos hsize] at h
    cases h
  · rw [if_neg hsize] at h
    obtain ⟨err, hspawn⟩ := run_ok h
    exact hgit.blob e he hfile hspawn

/-- What a clone returns is its place in the cache. -/
theorem clone_ok {settings : GitSettings} {token : Option String} {id : Uid} {url path' : String}
    (h : clone py settings git token id url s = (.ok path', t)) : path' = path py settings id := by
  refine Program.Keeps.value (V := fun place => place = path py settings id) ?_ h
  unfold clone
  repeat refine .follow fun _ => ?_
  exact .pure rfl

end GitRepositoryManager

/-! ## What the loop has written -/

namespace Inputs

open PurePath (components Regular)

/-- The files of the task among the names, each at its place. -/
def copied (folder : String) (content : String → Bytes) (names : List String) :
    List (List (List Char) × Bytes) :=
  (names.filter fun name => decide (InTask folder name)).map fun name =>
    (below folder name, content name)

def bytes (files : List (List (List Char) × Bytes)) : ℕ := (files.map fun f => f.2.length).sum

section Loop

variable {γ : Type} {py : Python} {git : GitHost γ} {disk : LocalDisk} {cache sha : String}
  {entries : List TreeEntry} {content : String → Bytes} {folder name : String} {names : List String}
  {task : List (List Char)} {total n : ℕ} {s t : Bench γ}

theorem copied_cons (h : InTask folder name) : copied folder content (name :: names)
    = (below folder name, content name) :: copied folder content names := by
  rw [copied, List.filter_cons_of_pos (by simpa using h)]
  rfl

theorem copied_cons_other (h : ¬InTask folder name) :
    copied folder content (name :: names) = copied folder content names := by
  rw [copied, List.filter_cons_of_neg (by simpa using h)]
  rfl

theorem onCache_ok {α : Type} {x : SourceProgram γ α} {a : α} (h : onCache x s = (.ok a, t)) :
    x s.cache = (.ok a, t.cache) ∧ t.files = s.files := by
  rw [onCache, Program.focus, Prod.mk.injEq] at h
  obtain ⟨ha, rfl⟩ := h
  exact ⟨Prod.ext ha rfl, rfl⟩

theorem makeParents_ok_files {target : List (List Char)}
    (h : makeParents disk name target s = (.ok (), t)) : t.files = s.files := by
  unfold makeParents at h
  split at h
  · cases h
  · split at h
    · cases h
    · rw [← (Prod.mk.inj h).2]

theorem writeBytes_ok_files {target : List (List Char)} {data : Bytes}
    (h : writeBytes disk name target data s = (.ok (), t)) :
    t.files = (target, data) :: s.files := by
  unfold writeBytes at h
  split at h
  · cases h
  · split at h
    · cases h
    · rw [← (Prod.mk.inj h).2]

/-- A file of the task is written; nothing else is. -/
theorem extract_ok (hgit : git.Shows cache sha entries content) {e : TreeEntry} (he : e ∈ entries)
    (hfile : e.IsFile) (hpath : Regular e.path.toList)
    (h : extract py git disk cache sha task (folder.toList ++ ['/']) total e.path s = (.ok n, t)) :
    t.files = (copied folder content [e.path]).reverse ++ s.files
      ∧ n = total + bytes (copied folder content [e.path]) ∧ (n ≤ 50000000 ∨ n = total) := by
  by_cases hin : InTask folder e.path
  · rw [extract_task hpath hin] at h
    obtain ⟨data, u, hread, h⟩ := Program.ok_of_bind h
    obtain ⟨hread, hfiles⟩ := onCache_ok hread
    obtain rfl := GitRepositoryManager.read_ok hgit he hfile hread
    by_cases hover : total + (content e.path).length > 50000000
    · rw [if_pos hover] at h
      cases h
    · rw [if_neg hover] at h
      obtain ⟨_, v, hparents, h⟩ := Program.ok_of_bind h
      obtain ⟨_, w, hwrite, h⟩ := Program.ok_of_bind h
      obtain ⟨hn, rfl⟩ := Prod.mk.inj h
      obtain rfl := Except.ok.inj hn
      rw [copied_cons hin]
      refine ⟨?_, rfl, Or.inl (not_lt.mp hover)⟩
      rw [writeBytes_ok_files hwrite, makeParents_ok_files hparents, hfiles]
      rfl
  · rw [extract_other hpath hin] at h
    obtain ⟨hn, rfl⟩ := Prod.mk.inj h
    rw [copied_cons_other hin]
    exact ⟨rfl, (Except.ok.inj hn).symm, Or.inr (Except.ok.inj hn).symm⟩

theorem copied_append (names names' : List String) : copied folder content (names ++ names')
    = copied folder content names ++ copied folder content names' := by
  rw [copied, List.filter_append, List.map_append]
  rfl

theorem extractAll_ok (hgit : git.Shows cache sha entries content)
    (hnames : ∀ name ∈ names, ∃ e ∈ entries, e.IsFile ∧ Regular e.path.toList ∧ e.path = name)
    (h : extractAll py git disk cache sha task (folder.toList ++ ['/']) total names s
      = (.ok n, t)) :
    t.files = (copied folder content names).reverse ++ s.files
      ∧ n = total + bytes (copied folder content names) ∧ (n ≤ 50000000 ∨ n = total) := by
  induction names generalizing total s with
  | nil =>
      obtain ⟨hn, rfl⟩ := Prod.mk.inj h
      exact ⟨rfl, (Except.ok.inj hn).symm, Or.inr (Except.ok.inj hn).symm⟩
  | cons name names ih =>
      obtain ⟨⟨e, he, hfile, hpath, rfl⟩, hrest⟩ := List.forall_mem_cons.mp hnames
      obtain ⟨m, u, hone, h⟩ := Program.ok_of_bind h
      obtain ⟨hfiles, hbytes, hbudget⟩ := extract_ok hgit he hfile hpath hone
      obtain ⟨hfiles', hbytes', hbudget'⟩ := ih hrest h
      have hcons : copied folder content (e.path :: names)
          = copied folder content [e.path] ++ copied folder content names :=
        copied_append [e.path] names
      have hsum : bytes (copied folder content (e.path :: names))
          = bytes (copied folder content [e.path]) + bytes (copied folder content names) := by
        rw [hcons, bytes, List.map_append, List.sum_append]
        rfl
      refine ⟨?_, by omega, by omega⟩
      rw [hfiles', hfiles, hcons, List.reverse_append, List.append_assoc]

theorem checkRequired_ok_files {files : List RequiredFile}
    (h : checkRequired files s = (.ok (), t)) :
    t = s ∧ ∀ file ∈ files, ∃ f ∈ s.files, f.1 = (purePath file.path).parts := by
  induction files with
  | nil => exact ⟨(Prod.mk.inj h).2.symm, nofun⟩
  | cons file rest ih =>
      rw [checkRequired, Program.bind_ok (a := s) (by rfl)] at h
      by_cases hfile : ∃ f ∈ s.files, f.1 = (purePath file.path).parts
      · rw [if_pos hfile] at h
        obtain ⟨hs, hrest⟩ := ih h
        exact ⟨hs, List.forall_mem_cons.mpr ⟨hfile, hrest⟩⟩
      · rw [if_neg hfile] at h
        cases h

end Loop

section Prepare

variable {γ : Type} {py : Python} {git : GitHost γ} {disk : LocalDisk} {token : Option String}
  {version : ProblemVersion} {destination cache sha : String} {hosts : List String}
  {entries : List TreeEntry} {content : String → Bytes}

theorem frames_resolveCommit :
    Program.Frames Bench.files (resolveCommit py git cache sha : PrepareProgram γ String) := by
  have hcache : ∀ {α : Type} (x : SourceProgram γ α), Program.Frames Bench.files (onCache x) :=
    fun x => .focus fun _ _ => rfl
  refine .handle (hcache _) fun e => ?_
  split
  · exact .bind (hcache _) fun _ => hcache _
  · exact .raise

theorem makeTask_ok_files {s t : Bench γ} (h : makeTask disk s = (.ok (), t)) :
    t.files = s.files := by
  unfold makeTask at h
  split at h
  · cases h
  · split at h
    · cases h
    · rw [← (Prod.mk.inj h).2]

/-- The regular files, in the order they are copied. -/
def sortedFiles (entries : List TreeEntry) : List String :=
  ((entries.filter fun e => decide e.IsFile).map TreeEntry.path).dedup.insertionSort (· ≤ ·)

theorem mem_sortedFiles {name : String} :
    name ∈ sortedFiles entries ↔ ∃ e ∈ entries, e.IsFile ∧ e.path = name := by
  rw [sortedFiles, List.mem_insertionSort, List.mem_dedup, List.mem_map]
  simp only [List.mem_filter, decide_eq_true_eq, and_assoc]

theorem nodup_sortedFiles : (sortedFiles entries).Nodup :=
  (List.perm_insertionSort ..).nodup_iff.mpr (List.nodup_dedup _)

/-- What the folder holds when the preparation has returned. -/
theorem prepareProblem_ok {s t : Bench γ} {folder : String} {task : List (List Char)}
    (hentries : ∀ e ∈ entries, e.WellFormed)
    (hgit : git.Shows (GitRepositoryManager.path py ⟨destination, hosts⟩ version.id)
      version.commitSha entries content)
    (hnew : s.files = []) (hfolder : folder.toList = (purePath version.problemPath).text)
    (h : prepareProblem py git disk token version destination hosts s = (.ok task, t)) :
    task = (purePath destination).parts ++ ["problem".toList]
      ∧ t.files = (copied folder content (sortedFiles entries)).reverse
      ∧ bytes (copied folder content (sortedFiles entries)) ≤ 50000000
      ∧ ∀ file ∈ required, ∃ f ∈ t.files, f.1 = (purePath file.path).parts := by
  unfold prepareProblem at h
  dsimp only at h
  by_cases hidentity : ¬GitRepositoryManager.isSha version.commitSha
      ∨ (purePath version.problemPath).IsAbsolute ∨ (purePath version.problemPath).HasDotdot
      ∨ (purePath version.problemPath).parts = []
  · rw [if_pos hidentity] at h
    cases h
  rw [if_neg hidentity] at h
  obtain ⟨_, s₁, hvalid, h⟩ := Program.ok_of_bind h
  obtain ⟨_, s₂, hvalid', h⟩ := Program.ok_of_bind h
  obtain ⟨cache, s₃, hclone, h⟩ := Program.ok_of_bind h
  obtain ⟨actual, s₄, hresolve, h⟩ := Program.ok_of_bind h
  by_cases hsha : actual ≠ version.commitSha
  · rw [if_pos hsha] at h
    cases h
  rw [if_neg hsha] at h
  obtain ⟨_, s₅, hmake, h⟩ := Program.ok_of_bind h
  obtain ⟨names, s₆, hfiles, h⟩ := Program.ok_of_bind h
  obtain ⟨n, s₇, hextract, h⟩ := Program.ok_of_bind h
  obtain ⟨_, s₈, hrequired, h⟩ := Program.ok_of_bind h
  obtain ⟨htask, rfl⟩ := Prod.mk.inj h
  obtain ⟨hclone, hclonefiles⟩ := onCache_ok hclone
  obtain ⟨hfiles, hlistfiles⟩ := onCache_ok hfiles
  obtain rfl := GitRepositoryManager.clone_ok hclone
  obtain rfl := GitRepositoryManager.files_ok hgit hentries hfiles
  obtain ⟨rfl, hpresent⟩ := checkRequired_ok_files hrequired
  have hempty : s₆.files = [] := by
    rw [hlistfiles, makeTask_ok_files hmake, frames_resolveCommit.apply hresolve, hclonefiles,
      ← (Prod.mk.inj hvalid').2, ← (Prod.mk.inj hvalid).2, hnew]
  rw [← hfolder] at hextract
  obtain ⟨hwritten, hbytes, hbudget⟩ := extractAll_ok hgit (fun name hname => by
    obtain ⟨e, he, hfile, hpath⟩ := mem_sortedFiles.mp hname
    exact ⟨e, he, hfile, (hentries e he).path, hpath⟩) hextract
  rw [hempty, List.append_nil] at hwritten
  exact ⟨(Except.ok.inj htask).symm, hwritten, by unfold sortedFiles; omega, hpresent⟩

end Prepare

end Inputs

/-! ## The folder -/

/-- The regular files of the tree below the folder and no others, each once and in its
place; the reference answers stay behind. -/
structure Extracted (folder : List Char) (entries : List TreeEntry) (content : String → Bytes)
    (task : List (List Char)) (files : List (List (List Char) × Bytes)) : Prop where
  mem_iff : ∀ place data, (place, data) ∈ files ↔ ∃ e ∈ entries, e.IsFile ∧ data = content e.path
    ∧ ∃ rel, e.path.toList = folder ++ '/' :: rel ∧ place = PurePath.components rel
      ∧ place.head? ≠ some "solution".toList
  once : (files.map Prod.fst).Nodup
  /-- Resolved, the path of a file is the folder's and the components below it. -/
  confined : ∀ f ∈ files, f.1 ≠ []
    ∧ PurePath.resolve (task ++ f.1) = PurePath.resolve task ++ f.1
  budget : (files.map fun f => f.2.length).sum ≤ 50000000
  required : ∀ p ∈ ["task.toml", "instruction.md", "environment/Dockerfile", "tests/test.sh"],
    ∃ data, (PurePath.components p.toList, data) ∈ files

section Folder

open Inputs

variable {folder name : String} {names : List String} {content : String → Bytes}

theorem inTask_iff : InTask folder name ↔ ∃ rel, name.toList = folder.toList ++ '/' :: rel
    ∧ below folder name = PurePath.components rel
    ∧ (below folder name).head? ≠ some "solution".toList := by
  constructor
  · rintro ⟨⟨rel, hrel⟩, hhead⟩
    have hname : name.toList = folder.toList ++ '/' :: rel := by
      rw [← hrel, List.append_assoc]
      rfl
    exact ⟨rel, hname, by rw [below, below_eq hname], hhead⟩
  · rintro ⟨rel, hname, -, hhead⟩
    refine ⟨⟨rel, ?_⟩, hhead⟩
    rw [hname, List.append_assoc]
    rfl

theorem below_inj {other : String} (hname : InTask folder name) (hother : InTask folder other)
    (h : below folder name = below folder other) : name = other := by
  obtain ⟨rel, hrel, hbelow, -⟩ := inTask_iff.mp hname
  obtain ⟨rel', hrel', hbelow', -⟩ := inTask_iff.mp hother
  have heq : rel = rel' := by
    rw [← PurePath.intercalate_components rel, ← hbelow, h, hbelow',
      PurePath.intercalate_components]
  rw [← String.toList_inj, hrel, hrel', heq]

theorem mem_copied {place : List (List Char)} {data : Bytes} :
    (place, data) ∈ copied folder content names ↔
      ∃ name ∈ names, InTask folder name ∧ below folder name = place ∧ content name = data := by
  rw [copied, List.mem_map]
  simp only [List.mem_filter, decide_eq_true_eq, Prod.mk.injEq, and_assoc]

theorem nodup_copied (h : names.Nodup) :
    ((copied folder content names).map Prod.fst).Nodup := by
  rw [copied, List.map_map]
  refine (h.filter _).map_on fun name hname other hother heq => ?_
  rw [List.mem_filter, decide_eq_true_eq] at hname hother
  exact below_inj hname.2 hother.2 heq

/-- **Extraction is exact.** -/
theorem extraction_exact {γ : Type} {py : Python} {git : GitHost γ} {disk : LocalDisk}
    {token : Option String} {version : ProblemVersion} {destination : String}
    {hosts : List String} {entries : List TreeEntry} {content : String → Bytes}
    {cache : Cache γ} {task : List (List Char)} {t : Bench γ}
    (hentries : ∀ e ∈ entries, e.WellFormed)
    (hgit : git.Shows (GitRepositoryManager.path py ⟨destination, hosts⟩ version.id)
      version.commitSha entries content)
    (h : prepareProblem py git disk token version destination hosts ⟨cache, false, []⟩
      = (.ok task, t)) :
    task = (purePath destination).parts ++ ["problem".toList]
      ∧ Extracted (purePath version.problemPath).text entries content task t.files := by
  let folder := String.ofList (purePath version.problemPath).text
  have hfolder : folder.toList = (purePath version.problemPath).text := String.toList_ofList
  obtain ⟨htask, hfiles, hbytes, hrequired⟩ :=
    prepareProblem_ok hentries hgit rfl hfolder h
  have hmem : ∀ place data, (place, data) ∈ t.files ↔
      ∃ name ∈ sortedFiles entries, InTask folder name ∧ below folder name = place
        ∧ content name = data := fun place data => by
    rw [hfiles, List.mem_reverse, mem_copied]
  refine ⟨htask, ?_, ?_, fun f hf => ?_, ?_, fun p hp => ?_⟩
  · intro place data
    rw [hmem, ← hfolder]
    constructor
    · rintro ⟨name, hname, hin, rfl, rfl⟩
      obtain ⟨e, he, hfile, rfl⟩ := mem_sortedFiles.mp hname
      exact ⟨e, he, hfile, rfl, inTask_iff.mp hin⟩
    · rintro ⟨e, he, hfile, rfl, rel, hrel, rfl, hhead⟩
      have hbelow : below folder e.path = PurePath.components rel := by rw [below, below_eq hrel]
      refine ⟨e.path, mem_sortedFiles.mpr ⟨e, he, hfile, rfl⟩, ?_, hbelow, rfl⟩
      exact inTask_iff.mpr ⟨rel, hrel, hbelow, hbelow ▸ hhead⟩
  · rw [hfiles, List.map_reverse, List.nodup_reverse]
    exact nodup_copied nodup_sortedFiles
  · obtain ⟨name, hname, hin, hbelow, -⟩ := (hmem f.1 f.2).mp hf
    obtain ⟨e, he, -, rfl⟩ := mem_sortedFiles.mp hname
    obtain ⟨rest, -, hregular, hrest⟩ := below_regular (hentries e he).path hin.1
    rw [← hbelow, hrest]
    exact ⟨PurePath.components_ne_nil _,
      PurePath.resolve_append fun hdots => (hregular _ hdots).2.2 rfl⟩
  · rw [hfiles, List.map_reverse, List.sum_reverse]
    exact hbytes
  · have hparts : ∀ p ∈ ["task.toml", "instruction.md", "environment/Dockerfile", "tests/test.sh"],
        ∃ file ∈ required, (purePath file.path).parts = PurePath.components p.toList := by decide
    obtain ⟨file, hfile, hplace⟩ := hparts p hp
    obtain ⟨f, hf, hf'⟩ := hrequired file hfile
    exact ⟨f.2, by rw [← hplace, ← hf']; exact hf⟩

end Folder

/-! ### A task among other files -/

namespace Sample

open Inputs

def otherNames : List String := ["d/data", "d/solution/solve.sh", "dx/data"]

/-- The task, its reference answer, and a folder whose name starts the same. -/
def mixed : List (String × Bytes) := withFiles (blobs otherNames 7)

/-- The tree of a sample commit. -/
def entries (files : List (String × Bytes)) : List TreeEntry :=
  files.map fun f => ⟨"100644", .blob, "89abcdef", f.1⟩

theorem listing_entries (files : List (String × Bytes)) :
    ((entries files).flatMap fun e => e.text ++ [Char.ofNat 0]) = listing files := by
  rw [entries, listing, List.flatMap_map]
  refine congrArg (List.flatMap · files) (funext fun f => ?_)
  have hmetadata : "100644 blob 89abcdef\t".toList
      = TreeEntry.metadata ⟨"100644", .blob, "89abcdef", ""⟩ ++ ['\t'] := by decide
  rw [hmetadata, TreeEntry.text, List.append_assoc, List.append_assoc, List.append_assoc]
  rfl

theorem host_shows {files : List (String × Bytes)} (h : Plain files) (cache : String) :
    (host files).Shows cache sha (entries files) fun name => (files.lookup name).getD [] where
  listing hspawn := by
    obtain ⟨-, rfl, -⟩ := Completed.exited.inj (Prod.mk.inj hspawn).1
    rw [TreeEntry.listing, listing_entries, Utf8.encode_ascii h.ascii]
    exact lines_eq files
  blob e _ _ hspawn := by
    obtain ⟨-, rfl, -⟩ := Completed.exited.inj (Prod.mk.inj hspawn).1
    have hname : String.ofList ((sha ++ ":" ++ e.path).toList.drop 41) = e.path := by
      rw [String.toList_append, List.drop_left' (by decide), String.ofList_toList]
    show (files.lookup (String.ofList ((sha ++ ":" ++ e.path).toList.drop 41))).getD [] = _
    rw [hname]

theorem mixed_plain : Plain mixed := ⟨forall_of_text (by decide +kernel), by decide +kernel⟩

theorem mixed_lists : Lists mixed (demoNames ++ otherNames) :=
  lists_blobs mixed_plain (by decide +kernel) (by decide +kernel) (by decide)
    ⟨"7", by decide +kernel, by decide +kernel⟩

theorem mixed_prepared : ∃ v : StoredVersion, v.At source.repositoryUrl sha "d"
    ∧ ∃ folder t, prepared mixed v = (.ok folder, t) := by
  have htree : IsTree (demoNames ++ otherNames) := ⟨by decide +kernel, by decide +kernel⟩
  have hsmall : ∀ name ∈ demoNames ++ otherNames, ((mixed.lookup name).getD []).length ≤ 31 := by
    decide +kernel
  obtain ⟨v, -, hat⟩ := demo_stored mixed_lists
  refine ⟨v, hat, (prepareProblem_iff [] lower_hosts (demo_discovered mixed_lists hat)
    mixed_lists.names_eq htree (demo_provides mixed_lists hat) roomy_takes).mpr ⟨?_, ?_⟩⟩
  · exact fun name hname _ => (hsmall name hname).trans (by decide)
  · rw [show v.toProblemVersion.problemPath = "d" from hat.2.2, Nat.zero_add]
    show (((demoNames ++ otherNames).filter fun name => decide (InTask "d" name)).map
      fun name => ((mixed.lookup name).getD []).length).sum ≤ 50000000
    decide +kernel

end Sample

theorem extraction_exact_mixed : ∃ (v : StoredVersion) (folder : List (List Char))
    (t : Bench Unit), Sample.prepared Sample.mixed v = (.ok folder, t)
      ∧ Extracted "d".toList (Sample.entries Sample.mixed)
        (fun name => (Sample.mixed.lookup name).getD []) folder t.files := by
  obtain ⟨v, hat, folder, t, hprepared⟩ := Sample.mixed_prepared
  have hentries : ∀ e ∈ Sample.entries Sample.mixed, e.WellFormed := by
    refine List.forall_mem_map.mpr fun f hf =>
      ⟨show ∀ c ∈ "100644".toList, c.isDigit = true from forall_of_text (by decide),
        show ∀ c ∈ "89abcdef".toList, c.isAlphanum = true from forall_of_text (by decide), ?_, ?_⟩
    · have hall : ∀ f ∈ Sample.mixed, PurePath.Regular f.1.toList := by decide +kernel
      exact hall f hf
    · have hall : ∀ f ∈ Sample.mixed, Char.ofNat 0 ∉ f.1.toList := by decide +kernel
      exact hall f hf
  have hpath : (purePath v.toProblemVersion.problemPath).text = "d".toList := by
    rw [show v.toProblemVersion.problemPath = "d" from hat.2.2]
    decide
  have hsha : v.toProblemVersion.commitSha = Sample.sha := hat.2.1
  have hexact := (extraction_exact hentries
    (by rw [hsha]; exact Sample.host_shows Sample.mixed_plain _) hprepared).2
  rw [hpath] at hexact
  exact ⟨v, folder, t, hprepared, hexact⟩

end AgentBenchX
