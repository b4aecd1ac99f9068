import Mathlib.Data.Finset.Card
import Mathlib.Data.List.Dedup
import AgentBenchX.Results

/-!
# The lines of a patch

`patch_metrics` reads a patch line by line, and a line of a Git diff ends at its
line feed. `str.splitlines` also breaks at the other boundaries Python knows of,
so a line with one of them inside is read in pieces, and a piece that begins like
a line of the diff is taken for one.

A diff is its files, their headers and their hunks. Each piece of its rendering
opens a line or is a stray one (`Piece`). What is counted is compared with what
is there: the counts are right if and only if what the stray pieces add and what
they hide make up for each other (`Evens`), which they do where there are none.
-/

namespace AgentBenchX

/-! ## Diffs -/

/-- What a line of a diff is. -/
inductive LineKind where
  | file | header | hunk | context | added | removed | noNewline
deriving DecidableEq

/-- Text on one line. -/
structure LineText where
  chars : List Char
  noFeed : '\n' ∉ chars

/-- An extended header, a mode or a `---` or `+++` line: any line that is neither
the first one of a file nor of a hunk. -/
structure HeaderLine extends LineText where
  notFile : ¬"diff --git ".toList <+: chars
  notHunk : ¬"@@".toList <+: chars

/-- A line of a hunk, with its contents. -/
inductive HunkLine where
  | context (text : LineText)
  | added (text : LineText)
  | removed (text : LineText)
  /-- `\\ No newline at end of file`. -/
  | noNewline (text : LineText)

/-- A hunk, with the rest of its `@@` line. -/
structure Hunk where
  header : LineText
  lines : List HunkLine

/-- A file, with the rest of its `diff --git` line. -/
structure FileDiff where
  header : LineText
  headers : List HeaderLine
  hunks : List Hunk

abbrev Diff := List FileDiff

/-- A line, without its line feed. -/
structure DiffLine where
  kind : LineKind
  chars : List Char
deriving DecidableEq

def HunkLine.line : HunkLine → DiffLine
  | .context text => ⟨.context, ' ' :: text.chars⟩
  | .added text => ⟨.added, '+' :: text.chars⟩
  | .removed text => ⟨.removed, '-' :: text.chars⟩
  | .noNewline text => ⟨.noNewline, '\\' :: text.chars⟩

def Hunk.diffLines (h : Hunk) : List DiffLine :=
  ⟨.hunk, "@@".toList ++ h.header.chars⟩ :: h.lines.map HunkLine.line

/-- The `diff --git` line of a file. -/
def FileDiff.first (f : FileDiff) : List Char := "diff --git ".toList ++ f.header.chars

def FileDiff.diffLines (f : FileDiff) : List DiffLine :=
  ⟨.file, f.first⟩ :: f.headers.map (fun h => ⟨.header, h.chars⟩)
    ++ f.hunks.flatMap Hunk.diffLines

/-- What is read of it: what stands in front of a boundary. -/
def FileDiff.opening (f : FileDiff) : List Char := f.first.takeWhile fun c => !isLineBreak c

namespace Diff

def lines (d : Diff) : List DiffLine := d.flatMap FileDiff.diffLines

/-- The text of the diff. -/
def render (d : Diff) : String := String.ofList (d.lines.flatMap fun l => l.chars ++ ['\n'])

/-- What the diff says. -/
def metrics (d : Diff) : PatchMetrics where
  filesChanged := (d.map FileDiff.first).dedup.length
  insertions := d.lines.countP fun l => decide (l.kind = .added)
  deletions := d.lines.countP fun l => decide (l.kind = .removed)

end Diff

/-! ## Pieces -/

/-- A line as `str.splitlines` gives it back. -/
structure Piece where
  text : List Char
  /-- The kind of the line it begins with, if it is the first piece of one. -/
  opens : Option LineKind
deriving DecidableEq

/-- The pieces of one line. -/
def pieces (l : List Char) : List (List Char) := splitlines (l ++ ['\n'])

def DiffLine.pieces (l : DiffLine) : List Piece :=
  match AgentBenchX.pieces l.chars with
  | [] => []
  | p :: stray => ⟨p, some l.kind⟩ :: stray.map fun q => ⟨q, none⟩

def Diff.pieces (d : Diff) : List Piece := d.lines.flatMap DiffLine.pieces

/-- `piece.startswith(w)`. -/
def Piece.begins (p : Piece) (w : String) : Bool := decide (w.toList <+: p.text)

/-- `in_hunk` behind the piece. -/
def Piece.inHunk (b : Bool) (p : Piece) : Bool :=
  if p.begins "diff --git " then false else if p.begins "@@" then true else b

/-- Each piece with the value of `in_hunk` in front of it. -/
def inHunks : Bool → List Piece → List (Piece × Bool)
  | _, [] => []
  | b, p :: ps => (p, b) :: inHunks (p.inHunk b) ps

namespace Diff

/-- The pieces in a hunk that begin like the lines of this kind and do not open one. -/
def extra (d : Diff) (w : String) (kind : LineKind) : ℕ :=
  (inHunks false d.pieces).countP fun x => x.2 && x.1.begins w && decide (x.1.opens ≠ some kind)

/-- The lines of this kind that do not open in a hunk. -/
def lost (d : Diff) (kind : LineKind) : ℕ :=
  (inHunks false d.pieces).countP fun x => !x.2 && decide (x.1.opens = some kind)

/-- The pieces that begin like the first line of a file. -/
def fileTexts (d : Diff) : List (List Char) :=
  (d.pieces.filter fun p => p.begins "diff --git ").map Piece.text

/-- The stray ones among them. -/
def strayTexts (d : Diff) : List (List Char) :=
  (d.pieces.filter fun p => p.begins "diff --git " && decide (p.opens = none)).map Piece.text

/-- The different stray ones that are not read of a file as well. -/
def strayFirsts (d : Diff) : List (List Char) :=
  d.strayTexts.dedup.filter fun t => !(d.map FileDiff.opening).contains t

/-- How many of the different first lines of files are merged with another one by what is
read of them. -/
def mergedFirsts (d : Diff) : ℕ :=
  (d.map FileDiff.first).dedup.length - (d.map FileDiff.opening).dedup.length

/-- As many first lines are merged as stray pieces are taken for new ones, and as
many pieces are taken for an added or a removed line as such lines are passed over. -/
structure Evens (d : Diff) : Prop where
  files : d.strayFirsts.length = d.mergedFirsts
  added : d.extra "+" .added = d.lost .added
  removed : d.extra "-" .removed = d.lost .removed

end Diff

/-- A line without a boundary inside. -/
def Unbroken (l : List Char) : Prop := ∀ c ∈ l, isLineBreak c = false

instance (l : List Char) : Decidable (Unbroken l) :=
  List.decidableBAll (fun c => isLineBreak c = false) l

/-- No line of the diff has a boundary inside. Any but the first of a file may
end with a carriage return. -/
structure Diff.Whole (d : Diff) : Prop where
  files : ∀ f ∈ d, Unbroken f.header.chars
  lines : ∀ l ∈ d.lines, ∃ t, Unbroken t ∧ (l.chars = t ∨ l.chars = t ++ ['\r'])

/-! ## Splitting -/

theorem splitlines_char {c : Char} {rest : List Char} (h : isLineBreak c = false) :
    splitlines (c :: rest) = match splitlines rest with
      | [] => [[c]]
      | line :: lines => (c :: line) :: lines := by
  rw [splitlines]
  · exact if_neg (by simp [h])
  · rintro rest' rfl
    simp [isLineBreak] at h

theorem splitlines_break {c : Char} {rest : List Char} (h : isLineBreak c = true)
    (hne : c = '\r' → ∀ l, rest ≠ '\n' :: l) : splitlines (c :: rest) = [] :: splitlines rest := by
  rw [splitlines]
  · rw [if_pos h]
  · rintro rest' rfl rfl
    exact hne rfl _ rfl

/-- A boundary ends the first line, with or without a line feed behind it. -/
theorem splitlines_head {c : Char} (rest : List Char) (h : isLineBreak c = true) :
    ∃ ps, splitlines (c :: rest) = [] :: ps := by
  by_cases hcrlf : c = '\r' ∧ ∃ l, rest = '\n' :: l
  · obtain ⟨rfl, l, rfl⟩ := hcrlf
    exact ⟨_, by rw [splitlines]⟩
  · exact ⟨_, splitlines_break h fun hc l hl => hcrlf ⟨hc, l, hl⟩⟩

theorem pieces_break {c : Char} (l : List Char) (h : isLineBreak c = true) :
    ∃ ps, pieces (c :: l) = [] :: ps := splitlines_head _ h

theorem pieces_ne_nil (l : List Char) : pieces l ≠ [] := by
  cases l with
  | nil => rw [show pieces [] = [[]] from rfl]; simp
  | cons c l =>
      cases h : isLineBreak c with
      | true =>
          obtain ⟨ps, hps⟩ := pieces_break l h
          rw [hps]
          simp
      | false =>
          rw [show pieces (c :: l) = splitlines (c :: (l ++ ['\n'])) from rfl, splitlines_char h]
          split <;> simp

theorem pieces_char {c : Char} {l p : List Char} {ps : List (List Char)}
    (h : isLineBreak c = false) (hl : pieces l = p :: ps) : pieces (c :: l) = (c :: p) :: ps := by
  rw [pieces] at hl
  rw [show pieces (c :: l) = splitlines (c :: (l ++ ['\n'])) from rfl, splitlines_char h, hl]

/-- The first piece goes up to the first boundary. -/
theorem pieces_first (l : List Char) :
    ∃ ps, pieces l = (l.takeWhile fun c => !isLineBreak c) :: ps := by
  induction l with
  | nil => exact ⟨[], rfl⟩
  | cons c l ih =>
      obtain ⟨ps, hps⟩ := ih
      cases hc : isLineBreak c with
      | true =>
          rw [List.takeWhile_cons_of_neg (by simp [hc])]
          exact pieces_break l hc
      | false =>
          rw [List.takeWhile_cons_of_pos (by simp [hc])]
          exact ⟨ps, pieces_char hc hps⟩

/-- The first piece is the beginning of the line. -/
theorem begins_of_first {l p : List Char} {ps : List (List Char)} (h : pieces l = p :: ps) :
    p <+: l := by
  obtain ⟨qs, hqs⟩ := pieces_first l
  obtain ⟨rfl, -⟩ := List.cons.inj (h.symm.trans hqs)
  exact List.takeWhile_prefix _

/-- A beginning without a boundary is part of it. -/
theorem first_begins {w l p : List Char} {ps : List (List Char)}
    (hw : Unbroken w) (h : pieces l = p :: ps) (hl : w <+: l) : w <+: p := by
  induction w generalizing l p with
  | nil => exact List.nil_prefix
  | cons c w ih =>
      obtain ⟨rest, rfl⟩ := hl
      obtain ⟨q, qs, hq⟩ := List.exists_cons_of_ne_nil (pieces_ne_nil (w ++ rest))
      rw [List.cons_append, pieces_char (hw c (List.mem_cons_self ..)) hq] at h
      obtain ⟨rfl, rfl⟩ := List.cons.inj h
      exact List.cons_prefix_cons.mpr
        ⟨rfl, ih (fun d hd => hw d (List.mem_cons_of_mem _ hd)) hq (List.prefix_append _ _)⟩

/-- A line feed ends a line whatever comes after it. -/
theorem splitlines_feed (l rest : List Char) :
    splitlines (l ++ '\n' :: rest) = pieces l ++ splitlines rest := by
  have hfeed (rest : List Char) : splitlines ('\n' :: rest) = [] :: splitlines rest :=
    splitlines_break rfl nofun
  unfold pieces
  induction l using splitlines.induct with
  | case1 => rw [List.nil_append, List.nil_append, hfeed, hfeed]; rfl
  | case2 l ih =>
      show splitlines ('\r' :: '\n' :: (l ++ '\n' :: rest)) = splitlines
        ('\r' :: '\n' :: (l ++ _)) ++ _
      rw [splitlines, ih, splitlines]
      rfl
  | case3 c l hcr hbreak ih =>
      by_cases hlast : c = '\r' ∧ l = []
      · obtain ⟨rfl, rfl⟩ := hlast
        show splitlines ('\r' :: '\n' :: rest) = splitlines ['\r', '\n'] ++ splitlines rest
        rw [splitlines, splitlines, splitlines]
        rfl
      · have hne (m : List Char) : c = '\r' → ∀ k, l ++ '\n' :: m ≠ '\n' :: k := by
          rintro rfl k heq
          cases l with
          | nil => exact hlast ⟨rfl, rfl⟩
          | cons d l => exact hcr l rfl (by rw [(List.cons.inj heq).1])
        rw [List.cons_append, splitlines_break hbreak (hne rest), ih, List.cons_append,
          splitlines_break hbreak (hne [])]
        rfl
  | case4 c l _ hbreak _ ih | case5 c l _ hbreak _ _ _ ih =>
      have hchar : isLineBreak c = false := by simpa using hbreak
      rw [List.cons_append, splitlines_char hchar, ih, List.cons_append, splitlines_char hchar]
      obtain ⟨p, ps, hp⟩ := List.exists_cons_of_ne_nil (pieces_ne_nil l)
      rw [pieces] at hp
      rw [hp]
      rfl

theorem DiffLine.text_pieces (l : DiffLine) :
    l.pieces.map Piece.text = AgentBenchX.pieces l.chars := by
  obtain ⟨p, stray, h⟩ := List.exists_cons_of_ne_nil (pieces_ne_nil l.chars)
  rw [DiffLine.pieces, h]
  simp [Function.comp_def]

/-- `patch_metrics` reads the pieces of the diff. -/
theorem Diff.splitlines_render (d : Diff) :
    splitlines d.render.toList = d.pieces.map Piece.text := by
  rw [Diff.render, String.toList_ofList, Diff.pieces]
  induction d.lines with
  | nil => rfl
  | cons l ls ih =>
      rw [List.flatMap_cons, List.append_assoc, List.singleton_append, splitlines_feed, ih,
        List.flatMap_cons, List.map_append, l.text_pieces]

/-! ## Counting -/

/-- A piece that begins like one kind of line does not begin like another. -/
theorem Piece.begins_other {p : Piece} {w v : String} (h : p.begins w = true)
    (hne : w.toList ≠ [] ∧ v.toList ≠ [] ∧ w.toList.head? ≠ v.toList.head?) :
    p.begins v = false := by
  refine decide_eq_false fun hv => hne.2.2 ?_
  obtain ⟨r, hr⟩ := of_decide_eq_true h
  obtain ⟨r', hr'⟩ := hv
  obtain ⟨c, w', hw⟩ := List.exists_cons_of_ne_nil hne.1
  obtain ⟨c', v', hv'⟩ := List.exists_cons_of_ne_nil hne.2.1
  rw [hw] at hr
  rw [hv'] at hr'
  rw [hw, hv']
  simp only [List.head?_cons, Option.some.injEq]
  exact (List.cons.inj (hr.trans hr'.symm)).1

/-- The counts are the pieces in a hunk that begin with the sign, and the
different pieces that begin like the first line of a file. -/
theorem foldl_line (ps : List Piece) (s : PatchCounts) :
    ((ps.map Piece.text).foldl PatchCounts.line s).additions
        = s.additions + (inHunks s.inHunk ps).countP (fun x => x.2 && x.1.begins "+")
      ∧ ((ps.map Piece.text).foldl PatchCounts.line s).deletions
        = s.deletions + (inHunks s.inHunk ps).countP (fun x => x.2 && x.1.begins "-")
      ∧ ((ps.map Piece.text).foldl PatchCounts.line s).files
        = ((ps.filter fun p => p.begins "diff --git ").map Piece.text).foldl
            (fun fs t => fs.insert t) s.files := by
  induction ps generalizing s with
  | nil => exact ⟨rfl, rfl, rfl⟩
  | cons p ps ih =>
      obtain ⟨hadd, hdel, hfiles⟩ := ih (PatchCounts.line s p.text)
      rw [List.map_cons, List.foldl_cons, hadd, hdel, hfiles, inHunks, List.countP_cons,
        List.countP_cons, List.filter_cons]
      unfold PatchCounts.line
      cases hfile : p.begins "diff --git " with
      | true =>
          have hplus : p.begins "+" = false := p.begins_other hfile (by decide)
          have hminus : p.begins "-" = false := p.begins_other hfile (by decide)
          rw [if_pos (of_decide_eq_true hfile)]
          simp [Piece.inHunk, hfile, hplus, hminus]
      | false =>
          rw [if_neg (of_decide_eq_false hfile)]
          cases hhunk : p.begins "@@" with
          | true =>
              have hplus : p.begins "+" = false := p.begins_other hhunk (by decide)
              have hminus : p.begins "-" = false := p.begins_other hhunk (by decide)
              rw [if_pos (of_decide_eq_true hhunk)]
              simp [Piece.inHunk, hfile, hhunk, hplus, hminus]
          | false =>
              rw [if_neg (of_decide_eq_false hhunk)]
              cases hin : s.inHunk with
              | true =>
                  refine ⟨?_, ?_, ?_⟩
                  · rw [if_pos rfl, show p.inHunk true = true by simp [Piece.inHunk, hfile, hhunk]]
                    simp [Piece.begins]
                    omega
                  · rw [if_pos rfl, show p.inHunk true = true by simp [Piece.inHunk, hfile, hhunk]]
                    simp [Piece.begins]
                    omega
                  · simp
              | false => simp [Piece.inHunk, hfile, hhunk, hin]

theorem length_foldl_insert (l : List (List Char)) :
    (l.foldl (fun fs t => fs.insert t) []).length = l.dedup.length := by
  have hfold : ∀ (l acc : List (List Char)), acc.Nodup →
      (l.foldl (fun fs t => fs.insert t) acc).Nodup
        ∧ ∀ t, t ∈ l.foldl (fun fs t => fs.insert t) acc ↔ t ∈ acc ∨ t ∈ l := by
    intro l
    induction l with
    | nil => exact fun acc hacc => ⟨hacc, fun t => by simp⟩
    | cons a l ih =>
        intro acc hacc
        obtain ⟨hnodup, hmem⟩ := ih (acc.insert a) (hacc.insert)
        refine ⟨hnodup, fun t => (hmem t).trans ?_⟩
        rw [List.mem_insert_iff, List.mem_cons]
        tauto
  obtain ⟨hnodup, hmem⟩ := hfold l [] List.nodup_nil
  refine ((List.perm_ext_iff_of_nodup hnodup (List.nodup_dedup l)).mpr fun t => ?_).length_eq
  rw [hmem, List.mem_dedup]
  simp

/-- What `patch_metrics` counts. -/
theorem patchMetrics_render (d : Diff) :
    patchMetrics d.render =
      ⟨d.fileTexts.dedup.length,
        (inHunks false d.pieces).countP (fun x => x.2 && x.1.begins "+"),
        (inHunks false d.pieces).countP (fun x => x.2 && x.1.begins "-")⟩ := by
  obtain ⟨hadd, hdel, hfiles⟩ := foldl_line d.pieces {}
  rw [patchMetrics, d.splitlines_render]
  rw [hadd, hdel, hfiles, length_foldl_insert, Nat.zero_add, Nat.zero_add]
  rfl

theorem inHunks_fst (b : Bool) (ps : List Piece) : (inHunks b ps).map Prod.fst = ps := by
  induction ps generalizing b with
  | nil => rfl
  | cons p ps ih => rw [inHunks, List.map_cons, ih]

/-- A piece that opens a line is the first one of it. -/
theorem DiffLine.opens {l : DiffLine} {p : Piece} {kind : LineKind} (hp : p ∈ l.pieces)
    (hopens : p.opens = some kind) :
    l.kind = kind ∧ ∃ stray, AgentBenchX.pieces l.chars = p.text :: stray := by
  obtain ⟨q, stray, h⟩ := List.exists_cons_of_ne_nil (pieces_ne_nil l.chars)
  rw [DiffLine.pieces, h] at hp
  rcases List.mem_cons.mp hp with rfl | hp
  · exact ⟨Option.some.inj hopens, stray, h⟩
  · obtain ⟨r, -, rfl⟩ := List.mem_map.mp hp
    nomatch hopens

/-- Each line is opened by one piece. -/
theorem Diff.countP_opens (d : Diff) (kind : LineKind) :
    d.pieces.countP (fun p => decide (p.opens = some kind))
      = d.lines.countP fun l => decide (l.kind = kind) := by
  rw [Diff.pieces]
  induction d.lines with
  | nil => rfl
  | cons l ls ih =>
      obtain ⟨q, stray, h⟩ := List.exists_cons_of_ne_nil (pieces_ne_nil l.chars)
      have hstray : (stray.map fun q => (⟨q, none⟩ : Piece)).countP
          (fun p => decide (p.opens = some kind)) = 0 := by
        rw [List.countP_map]
        exact List.countP_eq_zero.mpr (by simp)
      rw [List.flatMap_cons, List.countP_append, ih, List.countP_cons, DiffLine.pieces, h]
      dsimp only
      rw [List.countP_cons, hstray]
      simp
      omega

/-- The sign a kind of line begins with, as only the headers of a file also do. -/
structure Diff.Sign (d : Diff) (w : String) (kind : LineKind) : Prop where
  unbroken : Unbroken w.toList
  begins : ∀ l ∈ d.lines, l.kind = kind → w.toList <+: l.chars
  only : ∀ l ∈ d.lines, w.toList <+: l.chars → l.kind = kind ∨ l.kind = .header

/-- What is counted and what is there differ by the pieces taken for a line and
the lines passed over. -/
theorem Diff.counted_iff (d : Diff) {w : String} {kind : LineKind} (hsign : d.Sign w kind) :
    (inHunks false d.pieces).countP (fun x => x.2 && x.1.begins w)
        = d.lines.countP (fun l => decide (l.kind = kind))
      ↔ d.extra w kind = d.lost kind := by
  let M := inHunks false d.pieces
  let seen := M.countP fun x => x.2 && decide (x.1.opens = some kind)
  have hbegins : ∀ x ∈ M, x.1.opens = some kind → x.1.begins w = true := by
    intro x hx hopens
    have hmem : x.1 ∈ d.pieces := by
      rw [← inHunks_fst false d.pieces]
      exact List.mem_map_of_mem hx
    obtain ⟨l, hl, hxl⟩ := List.mem_flatMap.mp hmem
    obtain ⟨hkind, stray, hpieces⟩ := DiffLine.opens hxl hopens
    exact decide_eq_true (first_begins hsign.unbroken hpieces (hsign.begins l hl hkind))
  have hcounted : M.countP (fun x => x.2 && x.1.begins w) = d.extra w kind + seen := by
    rw [List.countP_eq_countP_filter_add M _ fun x => decide (x.1.opens = some kind),
      List.countP_filter, List.countP_filter, Nat.add_comm]
    refine congrArg₂ _ (List.countP_congr fun x _ => by simp) (List.countP_congr fun x hx => ?_)
    have := hbegins x hx
    simp
    tauto
  have hthere : d.lines.countP (fun l => decide (l.kind = kind)) = d.lost kind + seen := by
    rw [← d.countP_opens kind, ← inHunks_fst false d.pieces, List.countP_map,
      List.countP_eq_countP_filter_add _ _ fun x => x.2, List.countP_filter, List.countP_filter,
      Nat.add_comm]
    exact congrArg₂ _ (List.countP_congr fun x _ => by simp [and_comm])
      (List.countP_congr fun x _ => by simp [and_comm])
  rw [show (inHunks false d.pieces).countP _ = M.countP _ from rfl, hcounted, hthere]
  omega

/-! ## The signs of a diff -/

/-- The character a kind of line begins with, which only the headers of a file
are free to choose. -/
def LineKind.sign : LineKind → Option Char
  | .file => some 'd'
  | .header => none
  | .hunk => some '@'
  | .context => some ' '
  | .added => some '+'
  | .removed => some '-'
  | .noNewline => some '\\'

theorem LineKind.sign_injective {k k' : LineKind} {c : Char} (h : k.sign = some c)
    (h' : k'.sign = some c) : k = k' := by
  rw [← h'] at h
  cases k <;> cases k' <;> first | rfl | exact absurd h (by decide)

theorem HunkLine.signed (l : HunkLine) : l.line.chars.head? = l.line.kind.sign := by
  cases l <;> rfl

theorem Diff.signed {d : Diff} {l : DiffLine} (hl : l ∈ d.lines) :
    (l.kind = .header ∧ ¬"diff --git ".toList <+: l.chars ∧ ¬"@@".toList <+: l.chars)
      ∨ l.chars.head? = l.kind.sign := by
  obtain ⟨f, -, hl⟩ := List.mem_flatMap.mp hl
  rcases List.mem_append.mp hl with hl | hl
  · rcases List.mem_cons.mp hl with rfl | hl
    · exact .inr rfl
    · obtain ⟨g, -, rfl⟩ := List.mem_map.mp hl
      exact .inl ⟨rfl, g.notFile, g.notHunk⟩
  · obtain ⟨g, -, hl⟩ := List.mem_flatMap.mp hl
    rcases List.mem_cons.mp hl with rfl | hl
    · exact .inr rfl
    · obtain ⟨k, -, rfl⟩ := List.mem_map.mp hl
      exact .inr k.signed

theorem Diff.words {d : Diff} {l : DiffLine} (hl : l ∈ d.lines) :
    (l.kind = .file → "diff --git ".toList <+: l.chars)
      ∧ (l.kind = .hunk → "@@".toList <+: l.chars) := by
  obtain ⟨f, -, hl⟩ := List.mem_flatMap.mp hl
  rcases List.mem_append.mp hl with hl | hl
  · rcases List.mem_cons.mp hl with rfl | hl
    · exact ⟨fun _ => List.prefix_append _ _, nofun⟩
    · obtain ⟨g, -, rfl⟩ := List.mem_map.mp hl
      exact ⟨nofun, nofun⟩
  · obtain ⟨g, -, hl⟩ := List.mem_flatMap.mp hl
    rcases List.mem_cons.mp hl with rfl | hl
    · exact ⟨nofun, fun _ => List.prefix_append _ _⟩
    · obtain ⟨k, -, rfl⟩ := List.mem_map.mp hl
      cases k <;> exact ⟨nofun, nofun⟩

theorem head_of_begins {c : Char} {w l : List Char} (h : c :: w <+: l) : l.head? = some c := by
  obtain ⟨r, rfl⟩ := h
  rfl

theorem Diff.sign (d : Diff) (kind : LineKind) {c : Char} (hkind : kind.sign = some c)
    (hc : isLineBreak c = false) : d.Sign (String.ofList [c]) kind where
  unbroken := by
    rw [String.toList_ofList]
    rintro a ha
    rwa [List.mem_singleton.mp ha]
  begins := by
    rintro l hl rfl
    rcases d.signed hl with ⟨hheader, -⟩ | hhead
    · rw [hheader] at hkind
      nomatch hkind
    · rw [hkind] at hhead
      obtain ⟨r, hr⟩ := List.head?_eq_some_iff.mp hhead
      rw [String.toList_ofList, hr]
      exact ⟨r, rfl⟩
  only := by
    rintro l hl hw
    rw [String.toList_ofList] at hw
    rcases d.signed hl with ⟨hheader, -⟩ | hhead
    · exact .inr hheader
    · exact .inl (LineKind.sign_injective (hhead.symm.trans (head_of_begins hw)) hkind)

/-! ## Headers -/

theorem unbroken_file : Unbroken "diff --git ".toList := by decide

theorem Diff.file_iff {d : Diff} {l : DiffLine} (hl : l ∈ d.lines) :
    "diff --git ".toList <+: l.chars ↔ l.kind = .file := by
  refine ⟨fun h => ?_, (Diff.words hl).1⟩
  rcases Diff.signed hl with ⟨-, hno, -⟩ | hhead
  · exact absurd h hno
  · exact LineKind.sign_injective (hhead.symm.trans (head_of_begins h)) rfl

/-- A piece is stray, or what is read of its line. -/
theorem DiffLine.opens_of_mem {l : DiffLine} {p : Piece} (hp : p ∈ l.pieces) :
    p.opens = none ∨ p = ⟨l.chars.takeWhile fun c => !isLineBreak c, some l.kind⟩ := by
  obtain ⟨ps, hps⟩ := pieces_first l.chars
  rw [DiffLine.pieces, hps] at hp
  rcases List.mem_cons.mp hp with rfl | hp
  · exact .inr rfl
  · obtain ⟨q, -, rfl⟩ := List.mem_map.mp hp
    exact .inl rfl

theorem Diff.file_of_kind {d : Diff} {l : DiffLine} (hl : l ∈ d.lines) (hkind : l.kind = .file) :
    ∃ f ∈ d, l = ⟨.file, f.first⟩ := by
  obtain ⟨f, hf, hl⟩ := List.mem_flatMap.mp hl
  refine ⟨f, hf, ?_⟩
  rcases List.mem_append.mp hl with hl | hl
  · rcases List.mem_cons.mp hl with rfl | hl
    · rfl
    · obtain ⟨g, -, rfl⟩ := List.mem_map.mp hl
      cases hkind
  · obtain ⟨g, -, hl⟩ := List.mem_flatMap.mp hl
    rcases List.mem_cons.mp hl with rfl | hl
    · cases hkind
    · obtain ⟨k, -, rfl⟩ := List.mem_map.mp hl
      cases k <;> cases hkind

/-- What is read of the first line of a file begins like one. -/
theorem FileDiff.opening_piece {d : Diff} {f : FileDiff} (hf : f ∈ d) :
    (⟨f.opening, some .file⟩ : Piece) ∈ d.pieces ∧ "diff --git ".toList <+: f.opening := by
  obtain ⟨ps, hps⟩ := pieces_first f.first
  have hline : (⟨.file, f.first⟩ : DiffLine) ∈ d.lines :=
    List.mem_flatMap.mpr ⟨f, hf, List.mem_append_left _ (List.mem_cons_self ..)⟩
  refine ⟨List.mem_flatMap.mpr ⟨_, hline, ?_⟩, ?_⟩
  · rw [DiffLine.pieces, hps]
    exact List.mem_cons_self ..
  · exact first_begins unbroken_file hps (List.prefix_append _ _)

/-- What begins like the first line of a file is one as it is read, or stray. -/
theorem Diff.mem_fileTexts {d : Diff} {t : List Char} :
    t ∈ d.fileTexts ↔ t ∈ d.map FileDiff.opening ∨ t ∈ d.strayTexts := by
  simp only [Diff.fileTexts, Diff.strayTexts, List.mem_map, List.mem_filter, Bool.and_eq_true,
    decide_eq_true_eq]
  constructor
  · rintro ⟨p, ⟨hp, hbegins⟩, rfl⟩
    obtain ⟨l, hl, hpl⟩ := List.mem_flatMap.mp hp
    rcases DiffLine.opens_of_mem hpl with hnone | rfl
    · exact .inr ⟨p, ⟨hp, hbegins, hnone⟩, rfl⟩
    · have hfirst := (of_decide_eq_true hbegins).trans (List.takeWhile_prefix _)
      obtain ⟨f, hf, rfl⟩ := Diff.file_of_kind hl ((Diff.file_iff hl).mp hfirst)
      exact .inl ⟨f, hf, rfl⟩
  · rintro (⟨f, hf, rfl⟩ | ⟨p, ⟨hp, hbegins, -⟩, rfl⟩)
    · obtain ⟨hpiece, hbegins⟩ := FileDiff.opening_piece hf
      exact ⟨_, ⟨hpiece, decide_eq_true hbegins⟩, rfl⟩
    · exact ⟨p, ⟨hp, hbegins⟩, rfl⟩

/-- The different pieces counted as files are those read of files and the new stray ones. -/
theorem Diff.length_fileTexts (d : Diff) : d.fileTexts.dedup.length
    = (d.map FileDiff.opening).dedup.length + d.strayFirsts.length := by
  have hunion : d.fileTexts.toFinset
      = (d.map FileDiff.opening).toFinset ∪ d.strayTexts.toFinset := by
    ext t
    rw [List.mem_toFinset, Diff.mem_fileTexts, Finset.mem_union, List.mem_toFinset,
      List.mem_toFinset]
  have hstray : d.strayFirsts.toFinset
      = d.strayTexts.toFinset \ (d.map FileDiff.opening).toFinset := by
    ext t
    simp [Diff.strayFirsts]
  have hnodup : d.strayFirsts.Nodup := (List.nodup_dedup _).filter _
  rw [← List.card_toFinset, ← List.card_toFinset, ← List.toFinset_card_of_nodup hnodup, hunion,
    hstray, ← Finset.union_sdiff_self_eq_union, Finset.card_union_of_disjoint Finset.disjoint_sdiff]

/-- What is read is determined by the line. -/
theorem Diff.length_opening (d : Diff) :
    (d.map FileDiff.opening).dedup.length ≤ (d.map FileDiff.first).dedup.length := by
  have himage : (d.map FileDiff.opening).toFinset = (d.map FileDiff.first).toFinset.image
      fun l => l.takeWhile fun c => !isLineBreak c := by
    ext t
    simp [FileDiff.opening]
  rw [← List.card_toFinset, ← List.card_toFinset, himage]
  exact Finset.card_image_le

theorem Diff.files_iff (d : Diff) :
    d.fileTexts.dedup.length = (d.map FileDiff.first).dedup.length
      ↔ d.strayFirsts.length = d.mergedFirsts := by
  have hle := d.length_opening
  rw [d.length_fileTexts, Diff.mergedFirsts]
  omega

/-- The counts are right if and only if the stray pieces make up for each other. -/
theorem patchMetrics_iff (d : Diff) : patchMetrics d.render = d.metrics ↔ d.Evens := by
  rw [patchMetrics_render, Diff.metrics, PatchMetrics.mk.injEq, d.files_iff,
    d.counted_iff (d.sign .added rfl rfl),
    d.counted_iff (d.sign .removed rfl rfl)]
  exact ⟨fun ⟨hfiles, hadded, hremoved⟩ => ⟨hfiles, hadded, hremoved⟩,
    fun h => ⟨h.files, h.added, h.removed⟩⟩

/-! ## Whole lines -/

theorem pieces_unbroken {l : List Char} (h : Unbroken l) : pieces l = [l] := by
  induction l with
  | nil => rfl
  | cons c l ih =>
      exact pieces_char (h c (List.mem_cons_self ..))
        (ih fun a ha => h a (List.mem_cons_of_mem _ ha))

theorem pieces_carriage {l : List Char} (h : Unbroken l) : pieces (l ++ ['\r']) = [l] := by
  induction l with
  | nil => rfl
  | cons c l ih =>
      exact pieces_char (h c (List.mem_cons_self ..))
        (ih fun a ha => h a (List.mem_cons_of_mem _ ha))

/-- A whole line is one piece. -/
theorem Diff.Whole.one {d : Diff} (h : d.Whole) {l : DiffLine} (hl : l ∈ d.lines) :
    ∃ t, l.pieces = [⟨t, some l.kind⟩] ∧ AgentBenchX.pieces l.chars = [t] := by
  obtain ⟨t, ht, hchars⟩ := h.lines l hl
  have hone : AgentBenchX.pieces l.chars = [t] := by
    rcases hchars with hchars | hchars <;> rw [hchars]
    · exact pieces_unbroken ht
    · exact pieces_carriage ht
  exact ⟨t, by rw [DiffLine.pieces, hone]; rfl, hone⟩

theorem Diff.hunk_iff {d : Diff} {l : DiffLine} (hl : l ∈ d.lines) :
    "@@".toList <+: l.chars ↔ l.kind = .hunk := by
  refine ⟨fun h => ?_, (Diff.words hl).2⟩
  rcases Diff.signed hl with ⟨-, -, hno⟩ | hhead
  · exact absurd h hno
  · exact LineKind.sign_injective (hhead.symm.trans (head_of_begins h)) rfl

theorem first_iff {w l p : List Char} {ps : List (List Char)} (hw : Unbroken w)
    (h : pieces l = p :: ps) : w <+: p ↔ w <+: l :=
  ⟨fun hp => hp.trans (begins_of_first h), first_begins hw h⟩

theorem unbroken_hunk : Unbroken "@@".toList := by decide

/-- The piece of a whole line is taken for what the line is. -/
theorem Diff.Whole.inHunk {d : Diff} (h : d.Whole) {l : DiffLine} (hl : l ∈ d.lines) :
    ∃ t, l.pieces = [⟨t, some l.kind⟩] ∧ ∀ b, (⟨t, some l.kind⟩ : Piece).inHunk b
      = if l.kind = .file then false else if l.kind = .hunk then true else b := by
  obtain ⟨t, hpieces, hone⟩ := h.one hl
  refine ⟨t, hpieces, fun b => ?_⟩
  have hfile := (first_iff unbroken_file hone).trans
    (Diff.file_iff hl)
  have hhunk := (first_iff unbroken_hunk hone).trans
    (Diff.hunk_iff hl)
  simp only [Piece.inHunk, Piece.begins, decide_eq_true_eq, hfile, hhunk]

/-- The headers of a file stand outside of a hunk, what is added and removed inside. -/
def Placed (b : Bool) (ps : List Piece) : Prop :=
  ∀ x ∈ inHunks b ps, (x.1.opens = some .header → x.2 = false)
    ∧ (x.1.opens = some .added ∨ x.1.opens = some .removed → x.2 = true)

/-- A line, and what follows it in the state it leaves. -/
theorem Diff.Whole.placed_cons {d : Diff} (h : d.Whole) {l : DiffLine} (hl : l ∈ d.lines)
    {b : Bool} {rest : List Piece} (hheader : l.kind = .header → b = false)
    (hcontent : l.kind = .added ∨ l.kind = .removed → b = true)
    (hrest : Placed (if l.kind = .file then false else if l.kind = .hunk then true else b) rest) :
    Placed b (l.pieces ++ rest) := by
  obtain ⟨t, hpieces, hnext⟩ := h.inHunk hl
  rw [hpieces, List.singleton_append]
  intro x hx
  rw [inHunks, hnext] at hx
  rcases List.mem_cons.mp hx with rfl | hx
  · simp only [Option.some.injEq]
    exact ⟨hheader, hcontent⟩
  · exact hrest x hx

/-- Lines that leave the state as it is. -/
theorem Diff.Whole.placed_lines {d : Diff} (h : d.Whole) {b : Bool} {ls : List DiffLine}
    {rest : List Piece} (hmem : ∀ l ∈ ls, l ∈ d.lines)
    (hkind : ∀ l ∈ ls, l.kind ≠ .file ∧ l.kind ≠ .hunk ∧ (l.kind = .header → b = false)
      ∧ (l.kind = .added ∨ l.kind = .removed → b = true))
    (hrest : Placed b rest) : Placed b (ls.flatMap DiffLine.pieces ++ rest) := by
  induction ls with
  | nil => exact hrest
  | cons l ls ih =>
      obtain ⟨hfile, hhunk, hheader, hcontent⟩ := hkind l (List.mem_cons_self ..)
      rw [List.flatMap_cons, List.append_assoc]
      refine h.placed_cons (hmem l (List.mem_cons_self ..)) hheader hcontent ?_
      rw [if_neg hfile, if_neg hhunk]
      exact ih (fun l' hl' => hmem l' (List.mem_cons_of_mem _ hl'))
        fun l' hl' => hkind l' (List.mem_cons_of_mem _ hl')

theorem Diff.Whole.placed_hunks {d : Diff} (h : d.Whole) {gs : List Hunk} {rest : List Piece}
    (hgs : ∀ g ∈ gs, ∀ l ∈ g.diffLines, l ∈ d.lines) (hrest : ∀ b, Placed b rest) (b : Bool) :
    Placed b ((gs.flatMap Hunk.diffLines).flatMap DiffLine.pieces ++ rest) := by
  induction gs generalizing b with
  | nil => exact hrest b
  | cons g gs ih =>
      have hnext := ih fun g' hg' => hgs g' (List.mem_cons_of_mem _ hg')
      have hmem := hgs g (List.mem_cons_self ..)
      rw [List.flatMap_cons, List.flatMap_append, List.append_assoc, Hunk.diffLines,
        List.flatMap_cons, List.append_assoc]
      refine h.placed_cons (hmem _ (List.mem_cons_self ..)) nofun nofun ?_
      refine h.placed_lines (fun l hl => hmem l (List.mem_cons_of_mem _ hl)) ?_ (hnext true)
      intro l hl
      obtain ⟨k, -, rfl⟩ := List.mem_map.mp hl
      cases k <;> exact ⟨nofun, nofun, nofun, fun _ => rfl⟩

theorem Diff.Whole.placed {d : Diff} (h : d.Whole) : Placed false d.pieces := by
  have hfiles : ∀ (fs : List FileDiff) (b : Bool), (∀ f ∈ fs, f ∈ d) →
      Placed b ((fs.flatMap FileDiff.diffLines).flatMap DiffLine.pieces) := by
    intro fs
    induction fs with
    | nil => exact fun b _ => by rintro x ⟨⟩
    | cons f fs ih =>
        intro b hfs
        have hmem : ∀ l ∈ f.diffLines, l ∈ d.lines := fun l hl =>
          List.mem_flatMap.mpr ⟨f, hfs f (List.mem_cons_self ..), hl⟩
        have hrest := fun b => ih b fun f' hf' => hfs f' (List.mem_cons_of_mem _ hf')
        have hhunks := h.placed_hunks (fun g hg l hl =>
          hmem l (List.mem_append_right _ (List.mem_flatMap.mpr ⟨g, hg, hl⟩))) hrest
        rw [List.flatMap_cons, List.flatMap_append, FileDiff.diffLines, List.cons_append,
          List.flatMap_cons, List.flatMap_append, List.append_assoc, List.append_assoc]
        refine h.placed_cons (hmem _ (List.mem_cons_self ..)) nofun nofun ?_
        refine h.placed_lines (fun l hl => hmem l (List.mem_append_left _
          (List.mem_cons_of_mem _ hl))) ?_ (hhunks false)
        intro l hl
        obtain ⟨g, -, rfl⟩ := List.mem_map.mp hl
        exact ⟨nofun, nofun, fun _ => rfl, nofun⟩
  exact hfiles d false fun _ hf => hf

/-- Each piece of a whole diff opens a line. -/
theorem Diff.Whole.opens {d : Diff} (h : d.Whole) {p : Piece} (hp : p ∈ d.pieces) :
    ∃ l ∈ d.lines, p.opens = some l.kind
      ∧ ∀ w : String, Unbroken w.toList → (p.begins w = true ↔ w.toList <+: l.chars) := by
  obtain ⟨l, hl, hpl⟩ := List.mem_flatMap.mp hp
  obtain ⟨t, hpieces, hone⟩ := h.one hl
  rw [hpieces] at hpl
  rw [List.mem_singleton.mp hpl]
  exact ⟨l, hl, rfl, fun w hw => decide_eq_true_iff.trans (first_iff hw hone)⟩

/-- Nothing else in a hunk is taken for a line with the sign, and none is passed over. -/
theorem Diff.Whole.even {d : Diff} (h : d.Whole) {w : String} {kind : LineKind}
    (hsign : d.Sign w kind) (hkind : kind = .added ∨ kind = .removed) :
    d.extra w kind = d.lost kind := by
  have hmem : ∀ x ∈ inHunks false d.pieces, x.1 ∈ d.pieces := fun x hx => by
    rw [← inHunks_fst false d.pieces]
    exact List.mem_map_of_mem hx
  have hextra : d.extra w kind = 0 := by
    refine List.countP_eq_zero.mpr fun x hx hcount => ?_
    simp only [Bool.and_eq_true, decide_eq_true_eq] at hcount
    obtain ⟨⟨hin, hbegins⟩, hopens⟩ := hcount
    obtain ⟨l, hl, hopens', hiff⟩ := h.opens (hmem x hx)
    rcases hsign.only l hl ((hiff w hsign.unbroken).mp hbegins) with hk | hk
    · exact hopens (hk ▸ hopens')
    · exact absurd hin (by simp [(h.placed x hx).1 (hk ▸ hopens')])
  have hlost : d.lost kind = 0 := by
    refine List.countP_eq_zero.mpr fun x hx hcount => ?_
    simp only [Bool.and_eq_true, Bool.not_eq_true', decide_eq_true_eq] at hcount
    have hin := (h.placed x hx).2 (hkind.imp (fun hk => hcount.2.trans (congrArg _ hk))
      fun hk => hcount.2.trans (congrArg _ hk))
    exact absurd hcount.1 (by simp [hin])
  rw [hextra, hlost]

theorem Diff.Whole.strayFirsts {d : Diff} (h : d.Whole) : d.strayFirsts = [] := by
  have hnone : d.strayTexts = [] := by
    refine List.map_eq_nil_iff.mpr (List.filter_eq_nil_iff.mpr fun p hp hstray => ?_)
    simp only [Bool.and_eq_true, decide_eq_true_eq] at hstray
    obtain ⟨l, -, hopens, -⟩ := h.opens hp
    exact absurd (hopens.symm.trans hstray.2) nofun
  rw [Diff.strayFirsts, hnone]
  rfl

/-- The first lines are read as they are. -/
theorem Diff.Whole.mergedFirsts {d : Diff} (h : d.Whole) : d.mergedFirsts = 0 := by
  have hopening : d.map FileDiff.opening = d.map FileDiff.first := by
    refine List.map_congr_left fun f hf => List.takeWhile_eq_self_iff.mpr fun c hc => ?_
    have hunbroken : isLineBreak c = false := by
      rcases List.mem_append.mp hc with hc | hc
      · exact unbroken_file c hc
      · exact h.files f hf c hc
    rw [hunbroken]
    rfl
  rw [Diff.mergedFirsts, hopening, Nat.sub_self]

theorem Diff.Whole.evens {d : Diff} (h : d.Whole) : d.Evens where
  files := by rw [h.strayFirsts, h.mergedFirsts, List.length_nil]
  added := h.even (d.sign .added rfl rfl) (.inl rfl)
  removed := h.even (d.sign .removed rfl rfl) (.inr rfl)

/-- The counts are right if and only if the stray pieces make up for each other,
and so they are wherever no line has a boundary inside. -/
theorem patch_counted (d : Diff) :
    (patchMetrics d.render = d.metrics ↔ d.Evens) ∧ (d.Whole → patchMetrics d.render = d.metrics) :=
  ⟨patchMetrics_iff d, fun h => (patchMetrics_iff d).mpr h.evens⟩

namespace Sample

/-- A file of one line, with this text. -/
def oneLine (text : LineText) : Diff :=
  [{ header := ⟨"a/f b/f".toList, by decide⟩
     headers := [⟨⟨"+++ b/f".toList, by decide⟩, by decide, by decide⟩]
     hunks := [{ header := ⟨" -0,0 +1 @@".toList, by decide⟩, lines := [.added text] }] }]

/-- A form feed, and a sign of removal behind it. -/
def paged : LineText := ⟨"a\x0c-b".toList, by decide⟩

end Sample

/-- Behind a form feed, what is added may be counted as removed too. -/
theorem page_miscounted : patchMetrics (Sample.oneLine Sample.paged).render = ⟨1, 1, 1⟩
    ∧ ¬∀ d : Diff, patchMetrics d.render = d.metrics := by
  refine ⟨by decide +kernel, fun h => ?_⟩
  have := h (Sample.oneLine Sample.paged)
  revert this
  decide +kernel

/-- A line that begins like the first one of a file is counted for what it is. -/
theorem patch_counted_imitation :
    patchMetrics (Sample.oneLine ⟨"diff --git a".toList, by decide⟩).render
      = (Sample.oneLine ⟨"diff --git a".toList, by decide⟩).metrics := by
  refine (patch_counted _).2 ⟨?_, ?_⟩
  · intro f hf
    rw [List.mem_singleton.mp hf]
    decide
  · intro l hl
    refine ⟨l.chars, ?_, .inl rfl⟩
    revert l
    decide

end AgentBenchX
