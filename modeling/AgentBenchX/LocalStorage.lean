import AgentBenchX.ObjectStorage

/-!
# Objects on the local disk

`LocalStorageBackend.put` makes the directories above the file, opens it
exclusively and writes it. Any number of writers do so at once, a write may
break off anywhere and leave a truncated file, and a reader may look at a
file that is still being written.

A `put` that returned is read back as it was written from then on, and a
file that nobody writes any more stays, truncated or not, so that its key is
never free again.
-/

namespace AgentBenchX

open PurePath

structure LocalFile where
  place : Place
  content : Bytes
deriving DecidableEq

instance : Keyed Place LocalFile := ⟨LocalFile.place⟩

/-- The files and the directories below the root. -/
structure StorageRoot where
  files : Table LocalFile
  dirs : List Place
deriving DecidableEq

namespace StorageRoot

/-- A file stands where the path needs a directory, or at its end. -/
def Blocked (d : StorageRoot) (p : Place) : Prop := ∃ f ∈ d.files.rows, f.place <+: p

instance (d : StorageRoot) (p : Place) : Decidable (d.Blocked p) :=
  inferInstanceAs (Decidable (∃ f ∈ d.files.rows, f.place <+: p))

/-- `mkdir(parents=True, exist_ok=True)`: a file in the way is an error. -/
def mkdir (d : StorageRoot) (p : Place) : Except BackendError StorageRoot :=
  if ∃ f ∈ d.files.rows, f.place = p then .error .fileExistsError
  else if d.Blocked p then .error .notADirectoryError
  else .ok { d with dirs := d.dirs ++ p.inits }

/-- `open("xb")`: a file or directory of the name is an error. -/
def create (d : StorageRoot) (p : Place) : Except BackendError StorageRoot :=
  if p ∈ d.dirs then .error .fileExistsError
  else
    match d.files.insert? ⟨p, []⟩ with
    | some files => .ok { d with files }
    | none => .error .fileExistsError

/-- The file has this content by now. -/
def write (d : StorageRoot) (p : Place) (content : Bytes) : StorageRoot :=
  { d with files := d.files.update ⟨p, content⟩ }

theorem mkdir_ok {d d' : StorageRoot} {p : Place} (h : d.mkdir p = .ok d') :
    d'.files = d.files := by
  unfold mkdir at h
  split at h
  · cases h
  · split at h
    · cases h
    · obtain rfl := Except.ok.inj h
      rfl

theorem create_ok {d d' : StorageRoot} {p : Place} (h : d.create p = .ok d') :
    d.files.insert? ⟨p, []⟩ = some d'.files := by
  unfold create at h
  split at h
  · cases h
  · split at h
    · rename_i hins
      obtain rfl := Except.ok.inj h
      exact hins
    · cases h

end StorageRoot

namespace LocalStorageBackend

variable (links : Symlinks) (cwd : Place) (backend : LocalStorageBackend)

/-- `put` up to the open file. -/
def create (d : StorageRoot) (key : String) : StorageRoot × Except BackendError Place :=
  match backend.path links cwd key with
  | .error e => (d, .error (.key e))
  | .ok path =>
      match d.mkdir path.dropLast with
      | .error e => (d, .error e)
      | .ok d' =>
          match d'.create path with
          | .error e => (d', .error e)
          | .ok d'' => (d'', .ok path)

/-- `put`; `broken` is the number of bytes after which the write fails. -/
def put (d : StorageRoot) (key : String) (content : Bytes) (broken : Option ℕ) :
    StorageRoot × Except BackendError Unit :=
  match backend.create links cwd d key with
  | (d', .error e) => (d', .error e)
  | (d', .ok path) =>
      match broken with
      | none => (d'.write path content, .ok ())
      | some n => (d'.write path (content.take n), .error .osError)

/-- `open`, with all there is to read. -/
def openFile (d : StorageRoot) (key : String) : Except BackendError Bytes :=
  match backend.path links cwd key with
  | .error e => .error (.key e)
  | .ok path =>
      match d.files.get? path with
      | some file => .ok file.content
      | none => .error <|
          if path ∈ d.dirs then .isADirectoryError
          else if d.Blocked path then .notADirectoryError
          else .fileNotFoundError ""

/-- `head`. -/
def head (sha256 : Bytes → String) (d : StorageRoot) (key : String) :
    Except BackendError ObjectHead :=
  (backend.openFile links cwd d key).map fun content => ⟨content.length, some (sha256 content)⟩

variable {links : Symlinks} {cwd : Place} {backend : LocalStorageBackend}

theorem path_below {key : String} {p : Place} (h : backend.path links cwd key = .ok p) :
    backend.root <+: p := by
  unfold path at h
  split at h
  · cases h
  · split at h
    · cases h
    · split at h
      · rename_i hbelow
        exact Except.ok.inj h ▸ hbelow
      · cases h

end LocalStorageBackend

/-! ## Writers at work -/

/-- An open `put`. -/
structure LocalWriter where
  key : String
  place : Place
  content : Bytes
  /-- The bytes of it that have been written. -/
  written : ℕ

/-- The file as far as it has been written. -/
def LocalWriter.file (w : LocalWriter) : LocalFile := ⟨w.place, w.content.take w.written⟩

/-- The disk, the open `put`s, and those that have returned. -/
structure LocalState where
  disk : StorageRoot
  writers : ℕ → Option LocalWriter
  returned : List LocalWriter

/-- One event of the writers. A `put` that is refused has made directories
at most. -/
inductive LocalStep (links : Symlinks) (cwd : Place) (backend : LocalStorageBackend)
    (s : LocalState) : LocalState → Prop
  | mkdir {p : Place} {d : StorageRoot} :
      s.disk.mkdir p = .ok d → LocalStep links cwd backend s { s with disk := d }
  | create {i : ℕ} {key : String} {content : Bytes} {d : StorageRoot} {p : Place} :
      s.writers i = none → backend.path links cwd key = .ok p → s.disk.create p = .ok d →
      LocalStep links cwd backend s
        { s with disk := d, writers := Function.update s.writers i (some ⟨key, p, content, 0⟩) }
  /-- Some more bytes. -/
  | write {i n : ℕ} {w : LocalWriter} :
      s.writers i = some w →
      LocalStep links cwd backend s
        { s with
          disk := s.disk.write w.place (w.content.take (w.written + n))
          writers := Function.update s.writers i (some { w with written := w.written + n }) }
  /-- Everything is written. -/
  | close {i : ℕ} {w : LocalWriter} :
      s.writers i = some w → w.content.length ≤ w.written →
      LocalStep links cwd backend s
        { s with writers := Function.update s.writers i none, returned := s.returned ++ [w] }
  /-- A write raises and leaves the file as it is. -/
  | fail {i : ℕ} {w : LocalWriter} :
      s.writers i = some w →
      LocalStep links cwd backend s { s with writers := Function.update s.writers i none }

/-- Writers below an empty root. -/
def localWriters (links : Symlinks) (cwd : Place) (backend : LocalStorageBackend) :
    Transition LocalState Unit where
  init s := s.disk.files = Table.empty ∧ (∀ i, s.writers i = none) ∧ s.returned = []
  step s _ t := LocalStep links cwd backend s t

namespace LocalState

/-- The contents by place, and the files that are being written. -/
def store (s : LocalState) : WriteOnce Place Bytes ℕ where
  cells p := (s.disk.files.get? p).map LocalFile.content
  writing i := (s.writers i).map LocalWriter.place
  finished := s.returned.map fun w => (w.place, w.content)

/-- Every `put` is about the place of its key, and an open one has its file there. -/
structure Placed (links : Symlinks) (cwd : Place) (backend : LocalStorageBackend)
    (s : LocalState) : Prop where
  writers : ∀ i w, s.writers i = some w → backend.path links cwd w.key = .ok w.place
  written : ∀ i w, s.writers i = some w → s.disk.files.get? w.place = some w.file
  returned : ∀ w ∈ s.returned, backend.path links cwd w.key = .ok w.place
  files : ∀ f ∈ s.disk.files, backend.root <+: f.place

end LocalState

section Steps

variable {links : Symlinks} {cwd : Place} {backend : LocalStorageBackend} {s t : LocalState}

/-- Who is at work after one writer has changed. -/
theorem writer_of_update {i j : ℕ} {v : Option LocalWriter} {w : LocalWriter}
    (h : Function.update s.writers i v j = some w) :
    j = i ∧ v = some w ∨ j ≠ i ∧ s.writers j = some w := by
  by_cases hj : j = i
  · rw [hj, Function.update_self] at h
    exact Or.inl ⟨hj, h⟩
  · rw [Function.update_of_ne hj] at h
    exact Or.inr ⟨hj, h⟩

theorem writer_of_left {i j : ℕ} {w : LocalWriter}
    (h : Function.update s.writers i none j = some w) : s.writers j = some w := by
  rcases writer_of_update h with ⟨-, hnone⟩ | ⟨-, hj⟩
  · cases hnone
  · exact hj

theorem LocalState.Placed.create (h : s.Placed links cwd backend) {i : ℕ} {key : String}
    {content : Bytes} {d : StorageRoot} {p : Place} (hpath : backend.path links cwd key = .ok p)
    (hcreate : s.disk.create p = .ok d) :
    LocalState.Placed links cwd backend
      ⟨d, Function.update s.writers i (some ⟨key, p, content, 0⟩), s.returned⟩ := by
  have hins := StorageRoot.create_ok hcreate
  refine ⟨fun j w hj => ?_, fun j w hj => ?_, h.returned, fun f hf => ?_⟩
  · rcases writer_of_update hj with ⟨-, hw⟩ | ⟨-, hj⟩
    · exact Option.some.inj hw ▸ hpath
    · exact h.writers j w hj
  · rcases writer_of_update hj with ⟨-, hw⟩ | ⟨-, hj⟩
    · obtain rfl := Option.some.inj hw
      exact Table.get?_eq_some.mpr ⟨(Table.mem_insert? hins).mpr (Or.inr rfl), rfl⟩
    · have hget := h.written j w hj
      have hne : w.place ≠ p := fun heq =>
        Table.fresh_of_insert? hins _ (Table.mem_of_get? hget) heq
      exact (Table.get?_insert?_of_ne hins hne).trans hget
  · rcases (Table.mem_insert? hins).mp hf with hf | rfl
    · exact h.files f hf
    · exact LocalStorageBackend.path_below hpath

theorem LocalState.Placed.write (h : s.Placed links cwd backend) (hsound : s.store.Sound) {i n : ℕ}
    {w : LocalWriter} (hi : s.writers i = some w) :
    LocalState.Placed links cwd backend
      ⟨s.disk.write w.place (w.content.take (w.written + n)),
        Function.update s.writers i (some { w with written := w.written + n }), s.returned⟩ := by
  have hget := h.written i w hi
  refine ⟨fun j v hj => ?_, fun j v hj => ?_, h.returned, fun f hf => ?_⟩
  · rcases writer_of_update hj with ⟨-, hv⟩ | ⟨-, hj⟩
    · obtain rfl := Option.some.inj hv
      exact h.writers i w hi
    · exact h.writers j v hj
  · rcases writer_of_update hj with ⟨-, hv⟩ | ⟨hji, hj⟩
    · obtain rfl := Option.some.inj hv
      exact Table.get?_update hget
    · -- No other writer is about this file.
      have hne : v.place ≠ w.place := fun heq => hji <|
        hsound.exclusive j i w.place (by simp [store, hj, heq]) (by simp [store, hi])
      exact (Table.get?_update_of_ne hne).trans (h.written j v hj)
  · obtain ⟨x, hx, hfx⟩ := List.mem_map.mp hf
    split at hfx
    · subst hfx
      exact LocalStorageBackend.path_below (h.writers i w hi)
    · exact hfx ▸ h.files x hx

theorem LocalState.Placed.step (h : s.Placed links cwd backend) (hsound : s.store.Sound)
    (hstep : LocalStep links cwd backend s t) : t.Placed links cwd backend := by
  cases hstep with
  | mkdir hmkdir =>
      have hfiles := StorageRoot.mkdir_ok hmkdir
      exact ⟨h.writers, fun i w hi => (congrArg (·.get? w.place) hfiles).trans (h.written i w hi),
        h.returned, fun f hf => h.files f (hfiles ▸ hf)⟩
  | create _ hpath hcreate => exact h.create hpath hcreate
  | write hi => exact h.write hsound hi
  | @close i w hi =>
      refine ⟨fun j v hj => h.writers j v (writer_of_left hj),
        fun j v hj => h.written j v (writer_of_left hj), fun v hv => ?_, h.files⟩
      rcases List.mem_append.mp hv with hv | hv
      · exact h.returned v hv
      · exact List.mem_singleton.mp hv ▸ h.writers i w hi
  | fail =>
      exact ⟨fun j v hj => h.writers j v (writer_of_left hj),
        fun j v hj => h.written j v (writer_of_left hj), h.returned, h.files⟩

/-- The contents after a file has been created. -/
theorem contents_create {files files' : Table LocalFile} {p : Place}
    (h : files.insert? ⟨p, []⟩ = some files') :
    (files.get? p).map LocalFile.content = none
      ∧ (fun q => (files'.get? q).map LocalFile.content)
        = Function.update (fun q => (files.get? q).map LocalFile.content) p (some []) := by
  have hfree : files.get? p = none := Table.get?_eq_none.mpr (Table.fresh_of_insert? h)
  have hnew : files'.get? p = some ⟨p, []⟩ :=
    Table.get?_eq_some.mpr ⟨(Table.mem_insert? h).mpr (Or.inr rfl), rfl⟩
  refine ⟨by rw [hfree]; rfl, funext fun q => ?_⟩
  by_cases hq : q = p
  · rw [hq, Function.update_self, hnew]
    rfl
  · rw [Function.update_of_ne hq]
    exact congrArg _ (Table.get?_insert?_of_ne h hq)

/-- The contents after a file has been written. -/
theorem contents_write {files : Table LocalFile} {p : Place} (content : Bytes) {old : LocalFile}
    (hold : files.get? p = some old) :
    (fun q => ((files.update ⟨p, content⟩).get? q).map LocalFile.content)
      = Function.update (fun q => (files.get? q).map LocalFile.content) p (some content) := by
  have hnew : (files.update ⟨p, content⟩).get? p = some ⟨p, content⟩ := Table.get?_update hold
  funext q
  by_cases hq : q = p
  · rw [hq, Function.update_self, hnew]
    rfl
  · rw [Function.update_of_ne hq]
    exact congrArg _ (Table.get?_update_of_ne hq)

theorem writing_update (s : LocalState) (i : ℕ) (w : Option LocalWriter) :
    (fun j => (Function.update s.writers i w j).map LocalWriter.place)
      = Function.update s.store.writing i (w.map LocalWriter.place) := by
  funext j
  by_cases hj : j = i
  · rw [hj, Function.update_self, Function.update_self]
  · rw [Function.update_of_ne hj, Function.update_of_ne hj]
    rfl

/-- Every event is a step of the write-once store, or none. -/
theorem LocalState.Placed.store_step (h : s.Placed links cwd backend)
    (hstep : LocalStep links cwd backend s t) :
    t.store = s.store ∨ WriteOnce.Step s.store t.store := by
  cases hstep with
  | mkdir hmkdir =>
      refine Or.inl ?_
      show WriteOnce.mk _ s.store.writing s.store.finished = s.store
      rw [StorageRoot.mkdir_ok hmkdir]
      rfl
  | @create i key content d p hi hpath hcreate =>
      obtain ⟨hfree, hcells⟩ := contents_create (StorageRoot.create_ok hcreate)
      have hidle : s.store.writing i = none := by simp [store, hi]
      refine Or.inr ?_
      show WriteOnce.Step s.store (WriteOnce.mk _ (fun j =>
        (Function.update s.writers i (some ⟨key, p, content, 0⟩) j).map LocalWriter.place)
        s.store.finished)
      rw [writing_update, hcells]
      exact .create hidle hfree
  | @write i n w hi =>
      have hwrites : s.store.writing i = some w.place := by simp [store, hi]
      have hcells := contents_write (w.content.take (w.written + n)) (h.written i w hi)
      have hwriting : (fun j => (Function.update s.writers i
          (some { w with written := w.written + n }) j).map LocalWriter.place)
          = s.store.writing := by
        rw [writing_update, Option.map_some, ← hwrites, Function.update_eq_self]
      refine Or.inr ?_
      show WriteOnce.Step s.store (WriteOnce.mk (fun q =>
        ((s.disk.files.update ⟨w.place, w.content.take (w.written + n)⟩).get? q).map
          LocalFile.content) _ s.store.finished)
      rw [hcells, hwriting]
      exact .write hwrites
  | @close i w hi hwritten =>
      have hwrites : s.store.writing i = some w.place := by simp [store, hi]
      have hcell : s.store.cells w.place = some w.content := by
        have hget := h.written i w hi
        rw [LocalWriter.file, List.take_of_length_le hwritten] at hget
        simp [store, hget]
      refine Or.inr ?_
      show WriteOnce.Step s.store (WriteOnce.mk s.store.cells (fun j =>
        (Function.update s.writers i none j).map LocalWriter.place)
        ((s.returned ++ [w]).map fun w => (w.place, w.content)))
      rw [writing_update, List.map_append]
      exact .finish hwrites hcell
  | @fail i w hi =>
      refine Or.inr ?_
      show WriteOnce.Step s.store (WriteOnce.mk s.store.cells (fun j =>
        (Function.update s.writers i none j).map LocalWriter.place) s.store.finished)
      rw [writing_update]
      exact .abandon

/-- The writers simulate the write-once store. -/
def localSimulation (links : Symlinks) (cwd : Place) (backend : LocalStorageBackend) :
    Transition.Simulation (localWriters links cwd backend) (WriteOnce.system Place Bytes ℕ) where
  rel s a := s.Placed links cwd backend ∧ a = s.store
  init s h := by
    obtain ⟨hfiles, hwriters, hreturned⟩ := h
    refine ⟨s.store, ⟨fun p => ?_, fun i => ?_, ?_⟩, ⟨?_, ?_, ?_, ?_⟩, rfl⟩
    · simp only [LocalState.store, hfiles]
      rfl
    · simp [LocalState.store, hwriters]
    · simp [LocalState.store, hreturned]
    · simp [hwriters]
    · simp [hwriters]
    · simp [hreturned]
    · simp [hfiles]
  step s l s' a _ ha h hstep := by
    obtain ⟨hplaced, rfl⟩ := h
    have hnext := hplaced.step (WriteOnce.reachable_sound ha) hstep
    rcases hplaced.store_step hstep with heq | habstract
    · exact ⟨[], s.store, .nil, hnext, heq.symm⟩
    · exact ⟨[()], s'.store, .single habstract, hnext, rfl⟩

theorem local_reachable (hs : (localWriters links cwd backend).Reachable s) :
    s.Placed links cwd backend ∧ s.store.Sound := by
  obtain ⟨a, ha, hplaced, rfl⟩ := (localSimulation links cwd backend).reachable hs
  exact ⟨hplaced, WriteOnce.reachable_sound ha⟩

/-- What nobody writes any more stays. -/
theorem LocalState.settled_run (hs : (localWriters links cwd backend).Reachable s)
    {tr : List Unit} (hrun : (localWriters links cwd backend).Run s tr t) {p : Place}
    {content : Bytes} (h : s.store.Settled p content) : t.store.Settled p content := by
  refine hrun.preserves (P := fun s => s.store.Settled p content) ?_ hs h
  intro u l v hu h hstep
  rcases (local_reachable hu).1.store_step hstep with heq | habstract
  · exact heq ▸ h
  · exact h.step habstract

theorem LocalState.cells_eq_some {p : Place} {content : Bytes} :
    s.store.cells p = some content ↔ s.disk.files.get? p = some ⟨p, content⟩ := by
  constructor
  · intro h
    obtain ⟨f, hf, hcontent⟩ := Option.map_eq_some_iff.mp h
    have hplace : f.place = p := Table.key_of_get? hf
    rw [hf, ← hplace, ← hcontent]
  · intro h
    show (s.disk.files.get? p).map LocalFile.content = some content
    rw [h]
    rfl

namespace LocalStorageBackend

theorem openFile_of_get? {d : StorageRoot} {key : String} {p : Place} {content : Bytes}
    (hpath : backend.path links cwd key = .ok p) (hget : d.files.get? p = some ⟨p, content⟩) :
    backend.openFile links cwd d key = .ok content := by
  unfold openFile
  simp only [hpath, hget]

/-- A key whose file is there is refused, and the disk's files stay. -/
theorem put_taken {d : StorageRoot} {key : String} {f : LocalFile}
    (hpath : backend.path links cwd key = .ok f.place) (hf : f ∈ d.files) (content : Bytes)
    (broken : Option ℕ) :
    (backend.put links cwd d key content broken).1.files = d.files
      ∧ ∃ e, (backend.put links cwd d key content broken).2 = .error e := by
  unfold put create
  simp only [hpath]
  cases hmkdir : d.mkdir f.place.dropLast with
  | error e => exact ⟨rfl, e, rfl⟩
  | ok d' =>
      have hfiles := StorageRoot.mkdir_ok hmkdir
      cases hcreate : d'.create f.place with
      | error e =>
          simp only [hcreate]
          exact ⟨hfiles, e, rfl⟩
      | ok d'' =>
          exact absurd rfl (Table.fresh_of_insert? (StorageRoot.create_ok hcreate) f (hfiles ▸ hf))

/-- `put` up to the open file, as a run of the writers. -/
theorem create_run {i : ℕ} (hi : s.writers i = none) (key : String) (content : Bytes) :
    ∃ tr t, (localWriters links cwd backend).Run s tr t
      ∧ t.disk = (backend.create links cwd s.disk key).1 ∧ t.returned = s.returned
      ∧ (∀ e, (backend.create links cwd s.disk key).2 = .error e → t.writers = s.writers)
      ∧ ∀ p, (backend.create links cwd s.disk key).2 = .ok p →
        t.writers = Function.update s.writers i (some ⟨key, p, content, 0⟩) := by
  unfold create
  cases hpath : backend.path links cwd key with
  | error e => exact ⟨[], s, .nil, rfl, rfl, fun _ _ => rfl, fun p hp => by cases hp⟩
  | ok p =>
      cases hmkdir : s.disk.mkdir p.dropLast with
      | error e =>
          simp only [hmkdir]
          exact ⟨[], s, .nil, rfl, rfl, fun _ _ => rfl, fun p hp => by cases hp⟩
      | ok d =>
          have hdirs : (localWriters links cwd backend).Run s [()] { s with disk := d } :=
            .single (.mkdir hmkdir)
          simp only [hmkdir]
          cases hcreate : d.create p with
          | error e => exact ⟨_, _, hdirs, rfl, rfl, fun _ _ => rfl, fun p hp => by cases hp⟩
          | ok d' =>
              have hcreated : (localWriters links cwd backend).Run s [(), ()]
                  ⟨d', Function.update s.writers i (some ⟨key, p, content, 0⟩), s.returned⟩ :=
                hdirs.snoc (LocalStep.create hi hpath hcreate)
              refine ⟨_, _, hcreated, rfl, rfl, fun e he => (by cases he), fun q hq => ?_⟩
              obtain rfl := Except.ok.inj hq
              rfl

/-- An undisturbed `put` is a run of the writers. -/
theorem put_run {i : ℕ} (hi : s.writers i = none) (key : String) (content : Bytes)
    (broken : Option ℕ) :
    ∃ tr t, (localWriters links cwd backend).Run s tr t
      ∧ t.disk = (backend.put links cwd s.disk key content broken).1 ∧ t.writers = s.writers
      ∧ ((backend.put links cwd s.disk key content broken).2 = .ok () →
        ∃ p, t.returned = s.returned ++ [⟨key, p, content, content.length⟩])
      ∧ ∀ e, (backend.put links cwd s.disk key content broken).2 = .error e →
        t.returned = s.returned := by
  obtain ⟨tr, t, hrun, hdisk, hreturned, hrefused, hopened⟩ :=
    @create_run links cwd backend s i hi key content
  unfold put
  cases hcreate : backend.create links cwd s.disk key with
  | mk d r =>
      rw [hcreate] at hdisk hrefused hopened
      replace hdisk : t.disk = d := hdisk
      cases r with
      | error e =>
          exact ⟨tr, t, hrun, hdisk, hrefused e rfl, fun h => (by cases h), fun _ _ => hreturned⟩
      | ok p =>
          have hwriters := hopened p rfl
          have hwriter : t.writers i = some ⟨key, p, content, 0⟩ := by
            rw [hwriters, Function.update_self]
          -- The writer and the state after `n` bytes have been written.
          let w : ℕ → LocalWriter := fun n => ⟨key, p, content, n⟩
          let u : ℕ → LocalState := fun n =>
            ⟨d.write p (content.take n), Function.update s.writers i (some (w n)), t.returned⟩
          have hwrite : ∀ n, (localWriters links cwd backend).Run s (tr ++ [()]) (u n) := by
            intro n
            have hwrite := hrun.snoc (l := ()) (LocalStep.write (n := n) hwriter)
            simp only [hdisk, hwriters, Function.update_idem, Nat.zero_add] at hwrite
            exact hwrite
          have hwriting : ∀ n, (u n).writers i = some (w n) := fun n => Function.update_self ..
          have hleft : ∀ n, Function.update (u n).writers i none = s.writers := fun n => by
            rw [Function.update_idem, ← hi, Function.update_eq_self]
          cases broken with
          | some n =>
              have hfail : LocalStep links cwd backend (u n) _ := .fail (hwriting n)
              exact ⟨_, _, (hwrite n).snoc (l := ()) hfail, rfl, hleft n, fun h => (by cases h),
                fun _ _ => hreturned⟩
          | none =>
              have hclose : LocalStep links cwd backend (u content.length) _ :=
                .close (hwriting content.length) (Nat.le_refl _)
              have hdone : d.write p (content.take content.length) = d.write p content := by
                rw [List.take_length]
              exact ⟨_, _, (hwrite content.length).snoc (l := ()) hclose, hdone, hleft _,
                fun _ => ⟨p, congrArg (· ++ [w content.length]) hreturned⟩,
                fun e he => by cases he⟩

end LocalStorageBackend

/-- **Immutable objects on the local disk.** However the writers take
turns and wherever writes break off: what a `put` that returned has stored
is read back as it was handed over, with its length and digest, now and in
all later states, and two of them never return for the same key. A file
that nobody writes, finished or truncated, stays as it is, and no `put` for
its place succeeds again. All files are below the root. -/
theorem local_immutable (hs : (localWriters links cwd backend).Reachable s) :
    (∀ f ∈ s.disk.files, backend.root <+: f.place)
      ∧ (s.returned.map LocalWriter.key).Nodup
      ∧ ∀ tr t, (localWriters links cwd backend).Run s tr t →
        (∀ w ∈ s.returned, backend.openFile links cwd t.disk w.key = .ok w.content
          ∧ ∀ sha256, backend.head links cwd sha256 t.disk w.key
            = .ok ⟨w.content.length, some (sha256 w.content)⟩)
          ∧ ∀ f ∈ s.disk.files, (∀ i w, s.writers i = some w → w.place ≠ f.place) →
            f ∈ t.disk.files
              ∧ ∀ key content broken, backend.path links cwd key = .ok f.place →
                ∃ e, (backend.put links cwd t.disk key content broken).2 = .error e := by
  obtain ⟨hplaced, hsound⟩ := local_reachable hs
  refine ⟨hplaced.files, ?_, fun tr t hrun => ⟨fun w hw => ?_, fun f hf hidle => ?_⟩⟩
  · have hplaces : (s.returned.map LocalWriter.place).Nodup := by
      have hnodup := hsound.nodup
      rwa [LocalState.store, List.map_map] at hnodup
    have hpaths : (s.returned.map LocalWriter.key).map (backend.path links cwd)
        = (s.returned.map LocalWriter.place).map .ok := by
      rw [List.map_map, List.map_map]
      exact List.map_congr_left hplaced.returned
    refine List.Nodup.of_map (backend.path links cwd) ?_
    rw [hpaths]
    exact hplaces.map fun _ _ heq => Except.ok.inj heq
  · have hmem : (w.place, w.content) ∈ s.store.finished := List.mem_map.mpr ⟨w, hw, rfl⟩
    have hsettled := LocalState.settled_run hs hrun (hsound.settled hmem)
    have hopen := LocalStorageBackend.openFile_of_get? (hplaced.returned w hw)
      (LocalState.cells_eq_some.mp hsettled.1)
    exact ⟨hopen, fun sha256 => by rw [LocalStorageBackend.head, hopen]; rfl⟩
  · have hget : s.disk.files.get? f.place = some f := Table.get?_eq_some.mpr ⟨hf, rfl⟩
    have hsettled : s.store.Settled f.place f.content := by
      refine ⟨LocalState.cells_eq_some.mpr hget, fun i hi => ?_⟩
      obtain ⟨w, hw, hplace⟩ := Option.map_eq_some_iff.mp hi
      exact hidle i w hw hplace
    have hlater := LocalState.cells_eq_some.mp (LocalState.settled_run hs hrun hsettled).1
    have hfile : f ∈ t.disk.files := Table.mem_of_get? hlater
    exact ⟨hfile, fun key content broken hpath =>
      (LocalStorageBackend.put_taken hpath hfile content broken).2⟩

end Steps

/-! ### A truncated file -/

namespace Sample

/-- An agent, and a second `put` that breaks off after a byte. -/
def brokenDisk : StorageRoot :=
  (objects.put [] [] (objects.put [] [] ⟨Table.empty, []⟩ "agents/a" [102] none).1
    "agents/b" [120, 121] (some 1)).1

def brokenFile : LocalFile := ⟨objects.root ++ [named "agents", named "b"], [120]⟩

end Sample

theorem local_immutable_broken :
    ∃ s, (localWriters [] [] Sample.objects).Reachable s
      ∧ s.disk = Sample.brokenDisk ∧ s.returned.map LocalWriter.key = ["agents/a"]
      ∧ (∀ w ∈ s.returned, Sample.objects.openFile [] [] s.disk w.key = .ok w.content)
      ∧ ∃ e, (Sample.objects.put [] [] s.disk "agents/b" [120, 121] none).2 = .error e := by
  let s₀ : LocalState := ⟨⟨Table.empty, []⟩, fun _ => none, []⟩
  obtain ⟨tr₁, s₁, hrun₁, hdisk₁, hwriters₁, hreturned₁, -⟩ :=
    @LocalStorageBackend.put_run [] [] Sample.objects s₀ 0 rfl "agents/a" [102] none
  obtain ⟨p, hreturned₁⟩ := hreturned₁ (by decide +kernel)
  have hidle : s₁.writers 0 = none := by rw [hwriters₁]
  obtain ⟨tr₂, s₂, hrun₂, hdisk₂, hwriters₂, -, hreturned₂⟩ :=
    @LocalStorageBackend.put_run [] [] Sample.objects s₁ 0 hidle "agents/b" [120, 121] (some 1)
  have hdisk : s₂.disk = Sample.brokenDisk := by rw [hdisk₂, hdisk₁, Sample.brokenDisk]
  have hreturned₂ := hreturned₂ .osError (by rw [hdisk₁]; decide +kernel)
  have hinit : (localWriters [] [] Sample.objects).init s₀ := ⟨rfl, fun _ => rfl, rfl⟩
  have hs := ((Transition.Reachable.init hinit).run hrun₁).run hrun₂
  obtain ⟨-, -, hlater⟩ := local_immutable hs
  obtain ⟨hreturned, hfiles⟩ := hlater [] s₂ .nil
  have hfile : Sample.brokenFile ∈ s₂.disk.files := by
    rw [hdisk, Table.mem_def]
    decide +kernel
  have hunwritten : ∀ i w, s₂.writers i = some w → w.place ≠ Sample.brokenFile.place := by
    intro i w hw
    rw [hwriters₂, hwriters₁] at hw
    cases hw
  refine ⟨s₂, hs, hdisk, by rw [hreturned₂, hreturned₁]; rfl, fun w hw => (hreturned w hw).1, ?_⟩
  exact (hfiles _ hfile hunwritten).2 _ _ none (by decide +kernel)

end AgentBenchX
