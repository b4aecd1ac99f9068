import Mathlib.Data.List.Basic

/-!
# Pure paths

`PurePosixPath` on lists of characters: a root and the components that
are neither empty nor a single dot. Nothing is resolved, so `..` stays a
component.

Text is regular (`Regular`) if its components are what they look like:
none empty, none a dot or two. A regular path prints as it was written
(`text_parse`), and its parent is the text in front of its last slash
(`text_parent`).
-/

namespace AgentBenchX

structure PurePath where
  /-- Empty, `/`, or the two slashes POSIX sets apart. -/
  root : List Char
  tail : List (List Char)
deriving DecidableEq

namespace PurePath

/-- The components of a text. -/
def components (s : List Char) : List (List Char) := s.splitOn '/'

/-- `posixpath.splitroot` without the drive. -/
def splitRoot : List Char → List Char × List Char
  | '/' :: '/' :: '/' :: rest => (['/'], '/' :: '/' :: rest)
  | '/' :: '/' :: rest => (['/', '/'], rest)
  | '/' :: rest => (['/'], rest)
  | s => ([], s)

/-- `PurePosixPath(s)`. -/
def parse (s : List Char) : PurePath where
  root := (splitRoot s).1
  tail := (components (splitRoot s).2).filter fun c => decide (c ≠ [] ∧ c ≠ ['.'])

/-- `str(path)`. -/
def text (p : PurePath) : List Char :=
  if p.root = [] ∧ p.tail = [] then ['.'] else p.root ++ ['/'].intercalate p.tail

def parent (p : PurePath) : PurePath := { p with tail := p.tail.dropLast }

/-- The last component. -/
def name (p : PurePath) : List Char := p.tail.getLast?.getD []

def parts (p : PurePath) : List (List Char) := if p.root = [] then p.tail else p.root :: p.tail

def IsAbsolute (p : PurePath) : Prop := p.root ≠ []

instance (p : PurePath) : Decidable p.IsAbsolute := inferInstanceAs (Decidable (_ ≠ _))

/-! ## Regular texts -/

/-- Every component is a name. -/
def Regular (s : List Char) : Prop :=
  ∀ c ∈ components s, c ≠ [] ∧ c ≠ ['.'] ∧ c ≠ ['.', '.']

instance (s : List Char) : Decidable (Regular s) :=
  inferInstanceAs (Decidable (∀ c ∈ components s, _))

/-- `..` is among the parts. -/
def HasDotdot (p : PurePath) : Prop := ['.', '.'] ∈ p.parts

theorem contains_dotdot (p : PurePath) : p.parts.contains ['.', '.'] = true ↔ p.HasDotdot :=
  List.contains_iff_mem

instance : DecidablePred HasDotdot := fun p => decidable_of_iff _ p.contains_dotdot

theorem components_append (a b : List Char) :
    components (a ++ '/' :: b) = components a ++ components b :=
  List.splitOn_append_cons_self a b

theorem components_ne_nil (s : List Char) : components s ≠ [] := List.splitOn_ne_nil '/' s

theorem intercalate_components (s : List Char) : ['/'].intercalate (components s) = s :=
  List.intercalate_splitOn '/'

theorem intercalate_append {l m : List (List Char)} (hl : l ≠ []) (hm : m ≠ []) :
    ['/'].intercalate (l ++ m) = ['/'].intercalate l ++ '/' :: ['/'].intercalate m := by
  induction l with
  | nil => exact absurd rfl hl
  | cons c l ih =>
      cases l with
      | nil =>
          obtain ⟨d, m, rfl⟩ := List.exists_cons_of_ne_nil hm
          simp only [List.singleton_append, List.intercalate_cons_cons, List.intercalate_singleton,
            List.append_assoc]
      | cons d l =>
          have htail := ih (by simp)
          simp only [List.cons_append, List.intercalate_cons_cons, List.append_assoc] at htail ⊢
          rw [htail]

/-- A path below another one starts with it and a slash. -/
theorem prefix_of_components {a b : List Char} (h : components a <+: components b)
    (hne : components a ≠ components b) : a ++ ['/'] <+: b := by
  obtain ⟨rest, hrest⟩ := h
  have hnil : rest ≠ [] := by
    rintro rfl
    exact hne (by rw [← hrest, List.append_nil])
  refine ⟨['/'].intercalate rest, ?_⟩
  rw [← intercalate_components b, ← hrest, intercalate_append (components_ne_nil a) hnil,
    intercalate_components, List.append_assoc]
  rfl

theorem components_name {c : List Char} (h : '/' ∉ c) : components c = [c] :=
  List.splitOn_eq_singleton h

theorem regular_append {a b : List Char} :
    Regular (a ++ '/' :: b) ↔ Regular a ∧ Regular b := by
  rw [Regular, components_append]
  exact List.forall_mem_append

section

variable {s : List Char}

/-- A regular text does not start with a slash. -/
theorem Regular.splitRoot (h : Regular s) : splitRoot s = ([], s) := by
  cases s with
  | nil => rfl
  | cons c s =>
      by_cases hc : c = '/'
      · subst hc
        have hempty : [] ∈ components ('/' :: s) := by
          rw [show '/' :: s = [] ++ '/' :: s from rfl, components_append]
          exact List.mem_append_left _ (by simp [components])
        exact absurd rfl (h [] hempty).1
      · unfold PurePath.splitRoot
        split <;> simp_all

theorem Regular.parse (h : Regular s) : parse s = ⟨[], components s⟩ := by
  have hall : (components s).filter (fun c => decide (c ≠ [] ∧ c ≠ ['.'])) = components s :=
    List.filter_eq_self.mpr fun c hc => decide_eq_true ⟨(h c hc).1, (h c hc).2.1⟩
  rw [PurePath.parse, h.splitRoot, hall]

theorem Regular.text_parse (h : Regular s) : (PurePath.parse s).text = s := by
  rw [h.parse, text, if_neg fun hnil => components_ne_nil s hnil.2, List.nil_append,
    intercalate_components]

theorem Regular.parts (h : Regular s) : (PurePath.parse s).parts = components s := by
  rw [h.parse, PurePath.parts, if_pos rfl]

theorem Regular.not_absolute (h : Regular s) : ¬(PurePath.parse s).IsAbsolute := by
  rw [h.parse]
  exact fun hroot => hroot rfl

theorem Regular.not_dotdot (h : Regular s) : ¬(PurePath.parse s).HasDotdot := by
  rw [HasDotdot, h.parts]
  exact fun hdots => (h _ hdots).2.2 rfl

/-- The parent of a regular text is what stands in front of its last
slash. -/
theorem Regular.text_parent {c : List Char} (h : Regular (s ++ '/' :: c)) (hc : '/' ∉ c) :
    (PurePath.parse (s ++ '/' :: c)).parent.text = s := by
  rw [h.parse, parent, components_append, components_name hc, List.dropLast_concat, text,
    if_neg fun hnil => components_ne_nil s hnil.2, List.nil_append, intercalate_components]

end

end PurePath

end AgentBenchX
