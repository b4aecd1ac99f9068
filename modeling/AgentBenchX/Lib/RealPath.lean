import AgentBenchX.Lib.PurePath

/-!
# Real paths

`Path.resolve` on a disk with symbolic links. The components of a path are
taken one after the other; where one of them is a link, the text of the link
is resolved from the directory the link is in.

What comes out has no link on its way (`realpath_free`), and a path without
links on its way is resolved to itself (`walk_free`).
-/

namespace AgentBenchX

namespace PurePath

/-- A component that is an entry of a directory. -/
def IsName (c : List Char) : Prop := c ≠ [] ∧ c ≠ ['.'] ∧ c ≠ ['.', '.'] ∧ '/' ∉ c

instance : DecidablePred IsName := fun _ => inferInstanceAs (Decidable (_ ∧ _))

structure Name where
  text : List Char
  isName : IsName text
deriving DecidableEq

/-- A place on the disk, as the names on the way from the root directory. -/
abbrev Place := List Name

namespace Name

/-- A component that is no name is empty, a dot, or two dots. -/
def of? (c : List Char) : Option Name := if h : IsName c then some ⟨c, h⟩ else none

@[simp] theorem of?_text (n : Name) : of? n.text = some n := dif_pos n.isName

theorem eq_of_text_eq {m n : Name} (h : m.text = n.text) : m = n := by
  cases m
  cases n
  simpa using h

end Name

/-- `path / text`. -/
def join (p : PurePath) (text : List Char) : PurePath :=
  if (parse text).root = [] then { p with tail := p.tail ++ (parse text).tail } else parse text

/-- The absolute path of a place. -/
def pathOf (place : Place) : PurePath := ⟨['/'], place.map Name.text⟩

theorem pathOf_injective : Function.Injective pathOf := by
  intro p q h
  exact List.map_injective_iff.mpr (fun _ _ => Name.eq_of_text_eq) (PurePath.mk.inj h).2

theorem not_mem_component {s c : List Char} (h : c ∈ components s) : '/' ∉ c := by
  induction s generalizing c with
  | nil => exact List.mem_singleton.mp h ▸ List.not_mem_nil
  | cons d s ih =>
      rw [components, List.splitOn_cons_eq_if_modifyHead] at h
      obtain ⟨first, rest, hsplit⟩ := List.exists_cons_of_ne_nil (components_ne_nil s)
      have hfirst : '/' ∉ first := ih (hsplit ▸ List.mem_cons_self ..)
      rw [components] at hsplit ih
      rw [hsplit] at h ih
      split at h
      · rcases List.mem_cons.mp h with rfl | h
        · exact List.not_mem_nil
        · exact ih h
      · rename_i hd
        rcases List.mem_cons.mp h with rfl | h
        · exact List.not_mem_cons_of_ne_of_not_mem (fun heq => hd (heq ▸ rfl)) hfirst
        · exact ih (List.mem_cons_of_mem _ h)

/-- A regular text names a way down. -/
theorem Regular.names {s : List Char} (h : Regular s) :
    ∃ names : List Name, names ≠ [] ∧ names.map Name.text = components s := by
  have hname : ∀ c ∈ components s, IsName c := fun c hc =>
    ⟨(h c hc).1, (h c hc).2.1, (h c hc).2.2, not_mem_component hc⟩
  have hall : ∀ cs : List (List Char), (∀ c ∈ cs, IsName c) →
      ∃ names : List Name, names.map Name.text = cs := by
    intro cs hcs
    induction cs with
    | nil => exact ⟨[], rfl⟩
    | cons c cs ih =>
        obtain ⟨names, rfl⟩ := ih fun d hd => hcs d (List.mem_cons_of_mem _ hd)
        exact ⟨⟨c, hcs c (List.mem_cons_self ..)⟩ :: names, rfl⟩
  obtain ⟨names, hnames⟩ := hall _ hname
  refine ⟨names, ?_, hnames⟩
  rintro rfl
  exact components_ne_nil s hnames.symm

/-- Going down from a place by a regular text. -/
theorem join_pathOf {s : List Char} {place : Place} {names : List Name} (h : Regular s)
    (hnames : names.map Name.text = components s) :
    (pathOf place).join s = pathOf (place ++ names) := by
  rw [join, h.parse, if_pos rfl, pathOf, pathOf, List.map_append, hnames]

/-- The places of the symbolic links and what `readlink` returns there. -/
abbrev Symlinks := List (Place × List Char)

namespace Symlinks

variable (links : Symlinks)

/-- The components of a path from a place on. `follow` resolves the text of a
link. -/
def walk (follow : Place → List Char → Option Place) : Place → List (List Char) → Option Place
  | place, [] => some place
  | place, c :: rest =>
      match Name.of? c with
      | none => walk follow (if c = ['.', '.'] then place.dropLast else place) rest
      | some name =>
          match links.lookup (place ++ [name]) with
          | none => walk follow (place ++ [name]) rest
          | some target => (follow place target).bind fun p => walk follow p rest

/-- A text as seen from a directory, through at most `depth` links inside each
other. -/
def realpath : ℕ → Place → List Char → Option Place
  | 0, _, _ => none
  | depth + 1, place, text =>
      walk links (realpath depth) (if text.head? = some '/' then [] else place) (components text)

/-- `path.resolve()` in the working directory `cwd`. Links that are deeper
inside each other than there are links lead in a circle, which is a
`RuntimeError`. -/
def resolve (cwd : Place) (path : PurePath) : Option Place :=
  realpath links (links.length + 1) cwd path.text

/-- Nothing on the way to a place is a link, nor is the place. -/
def Free (place : Place) : Prop := ∀ p, p <+: place → p ≠ [] → links.lookup p = none

variable {links} {follow : Place → List Char → Option Place} {place q : Place}

theorem free_nil : Free links [] := fun _ hp hne => absurd (List.prefix_nil.mp hp) hne

theorem Free.of_prefix (h : Free links place) (hq : q <+: place) : Free links q :=
  fun p hp hne => h p (hp.trans hq) hne

theorem Free.concat {name : Name} (h : Free links place)
    (hname : links.lookup (place ++ [name]) = none) : Free links (place ++ [name]) := by
  intro p hp hne
  rcases List.prefix_concat_iff.mp hp with rfl | hp
  · exact hname
  · exact h p hp hne

/-- Induction on the components: the place walked to stays free. -/
theorem walk_keeps_free (hfollow : ∀ p text q, Free links p → follow p text = some q → Free links q)
    {rest : List (List Char)} (h : Free links place)
    (hwalk : walk links follow place rest = some q) :
    Free links q := by
  induction rest generalizing place with
  | nil => exact Option.some.inj hwalk ▸ h
  | cons c rest ih =>
      rw [walk] at hwalk
      cases hc : Name.of? c with
      | none =>
          rw [hc] at hwalk
          refine ih ?_ hwalk
          split
          · exact h.of_prefix (List.dropLast_prefix place)
          · exact h
      | some name =>
          rw [hc] at hwalk
          dsimp only at hwalk
          cases hlink : links.lookup (place ++ [name]) with
          | none =>
              rw [hlink] at hwalk
              exact ih (h.concat hlink) hwalk
          | some target =>
              rw [hlink] at hwalk
              obtain ⟨p, hp, hwalk⟩ := Option.bind_eq_some_iff.mp hwalk
              exact ih (hfollow place target p h hp) hwalk

/-- A real path has no link on its way. -/
theorem realpath_free (depth : ℕ) (text : List Char) (h : Free links place)
    (hreal : realpath links depth place text = some q) : Free links q := by
  induction depth generalizing place text q with
  | zero => nomatch hreal
  | succ depth ih =>
      refine walk_keeps_free (fun p text q hp => ih text hp) ?_ hreal
      split
      · exact free_nil
      · exact h

/-- Names that are no links lead where they say. -/
theorem walk_free (names : List Name) (h : Free links (place ++ names)) :
    walk links follow place (names.map Name.text) = some (place ++ names) := by
  induction names generalizing place with
  | nil => rw [List.append_nil]; rfl
  | cons name names ih =>
      have hsplit : place ++ name :: names = (place ++ [name]) ++ names := by simp
      have hname := h (place ++ [name]) (hsplit ▸ List.prefix_append _ _) (by simp)
      rw [List.map_cons, walk, Name.of?_text]
      dsimp only
      rw [hname, hsplit]
      exact ih (hsplit ▸ h)

theorem walk_empty (rest : List (List Char)) :
    walk links follow place ([] :: rest) = walk links follow place rest := by
  rw [walk, show Name.of? [] = none from dif_neg fun h => h.1 rfl]
  rfl

/-- The absolute path to a place without links on the way. -/
theorem resolve_pathOf (cwd : Place) (h : Free links place) :
    resolve links cwd (pathOf place) = some place := by
  have htext : (pathOf place).text = '/' :: ['/'].intercalate (place.map Name.text) :=
    if_neg fun hroot => absurd hroot.1 (by simp [pathOf])
  rw [resolve, htext, realpath, List.head?_cons, if_pos rfl, ← List.nil_append ('/' :: _),
    components_append, components_name (by simp), List.singleton_append, walk_empty]
  cases place with
  | nil => exact walk_empty _
  | cons name names =>
      have hslash : ∀ c ∈ (name :: names).map Name.text, '/' ∉ c := fun c hc =>
        (List.mem_map.mp hc).elim fun n hn => hn.2 ▸ n.isName.2.2.2
      rw [components, List.splitOn_intercalate '/' hslash (by simp)]
      exact walk_free (name :: names) h

end Symlinks

end PurePath

end AgentBenchX
