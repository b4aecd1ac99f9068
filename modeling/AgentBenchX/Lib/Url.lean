import Mathlib.Data.List.TakeWhile

/-!
# URLs

`urllib.parse.urlsplit` and the attributes of its result, on lists of
characters. Where Python raises a `ValueError` the result is `none`. What
depends on Unicode tables or on the syntax of IP addresses is a
parameter.

`urlsplit_plain` computes the parts of a plain URL: a host and a path of
ordinary characters.
-/

namespace AgentBenchX

/-- The tables a URL meets. -/
structure UrlTables where
  /-- `str.lower`. -/
  lower : List Char → List Char
  /-- `_checknetloc` accepts a location that is not ASCII. -/
  normal : List Char → Bool
  /-- `_check_bracketed_netloc` accepts a location with brackets. -/
  address : List Char → Bool
  lower_ascii : ∀ s, (∀ c ∈ s, c.toNat < 128) → lower s = s.map Char.toLower

/-- Form for evaluation of a condition on all characters of a text. -/
theorem forall_of_text {p : Char → Prop} [DecidablePred p] {s : List Char}
    (h : (s.all fun c => decide (p c)) = true) : ∀ c ∈ s, p c :=
  fun c hc => of_decide_eq_true (List.all_eq_true.mp h c hc)

structure SplitUrl where
  scheme : List Char
  netloc : List Char
  path : List Char
  query : List Char
  fragment : List Char
deriving DecidableEq

namespace Url

/-- `s.partition(sep)`; nothing follows a separator that is missing. -/
def partition (sep : Char) (s : List Char) : List Char × List Char :=
  (s.takeWhile (· ≠ sep), (s.dropWhile (· ≠ sep)).tail)

/-- What stands in front of the last separator, and what follows it. -/
def rpartition (sep : Char) (s : List Char) : List Char × List Char :=
  (((s.reverse.dropWhile (· ≠ sep)).tail).reverse, (s.reverse.takeWhile (· ≠ sep)).reverse)

def isSchemeChar (c : Char) : Bool := c.isAlphanum || c = '+' || c = '-' || c = '.'

/-- The scheme in front of a colon, and the rest. -/
def splitScheme (T : UrlTables) (url : List Char) : List Char × List Char :=
  let (scheme, rest) := partition ':' url
  if ':' ∈ url ∧ scheme.head?.any Char.isAlpha ∧ scheme.all isSchemeChar then (T.lower scheme, rest)
  else ([], url)

def isDelimiter (c : Char) : Bool := c = '/' || c = '?' || c = '#'

/-- `_splitnetloc` behind two slashes. -/
def splitNetloc (url : List Char) : List Char × List Char :=
  if ['/', '/'] <+: url then
    ((url.drop 2).takeWhile (!isDelimiter ·), (url.drop 2).dropWhile (!isDelimiter ·))
  else ([], url)

/-- Leading control characters and spaces go, and so do tabs and line ends
anywhere. -/
def clean (url : List Char) : List Char :=
  (url.dropWhile fun c => c.toNat ≤ 32).filter fun c => c ≠ '\t' ∧ c ≠ '\r' ∧ c ≠ '\n'

/-- The checks on the network location. -/
def netlocValid (T : UrlTables) (netloc : List Char) : Bool :=
  (decide ('[' ∈ netloc) == decide (']' ∈ netloc))
    && (decide ('[' ∉ netloc) || T.address netloc)
    && (netloc.all (fun c => c.toNat < 128) || T.normal netloc)

def urlsplit (T : UrlTables) (url : List Char) : Option SplitUrl :=
  let (scheme, rest) := splitScheme T (clean url)
  let (netloc, rest) := splitNetloc rest
  if netlocValid T netloc then
    let (rest, fragment) := partition '#' rest
    let (path, query) := partition '?' rest
    some ⟨scheme, netloc, path, query, fragment⟩
  else none

end Url

namespace SplitUrl

open Url

/-- The host and the port as they are written. -/
def hostinfo (u : SplitUrl) : List Char × List Char :=
  let host := (rpartition '@' u.netloc).2
  if '[' ∈ host then
    let (name, rest) := partition ']' (partition '[' host).2
    (name, (partition ':' rest).2)
  else partition ':' host

/-- `username` and `password`, empty where Python has `None`. -/
def username (u : SplitUrl) : List Char := (partition ':' (rpartition '@' u.netloc).1).1

def password (u : SplitUrl) : List Char := (partition ':' (rpartition '@' u.netloc).1).2

def hostname (T : UrlTables) (u : SplitUrl) : Option (List Char) :=
  let host := u.hostinfo.1
  if host = [] then none
  else some (T.lower (host.takeWhile (· ≠ '%')) ++ host.dropWhile (· ≠ '%'))

def digit? (c : Char) : Option ℕ := if c.isDigit then some (c.toNat - 48) else none

/-- `sys.get_int_max_str_digits()`, leading zeros counted: `int` refuses a longer text. -/
def intMaxStrDigits : ℕ := 4300

/-- `none` is a `ValueError`. -/
def port (u : SplitUrl) : Option (Option ℕ) :=
  let port := u.hostinfo.2
  if port = [] then some none
  else if intMaxStrDigits < port.length then none
  else do
    let digits ← port.mapM digit?
    let value := digits.foldl (fun n d => 10 * n + d) 0
    if value ≤ 65535 then some (some value) else none

end SplitUrl

/-! ## Plain URLs -/

namespace Url

/-- Characters without a meaning of their own in a URL. -/
def isPlain (c : Char) : Bool := c.isAlphanum || c = '_' || c = '.' || c = '-'

theorem partition_of_notMem {sep : Char} {s : List Char} (h : sep ∉ s) :
    partition sep s = (s, []) := by
  have hall : ∀ c ∈ s, decide (c ≠ sep) = true := fun c hc =>
    decide_eq_true fun heq => h (heq ▸ hc)
  rw [partition, List.takeWhile_eq_self_iff.mpr hall, List.dropWhile_eq_nil_iff.mpr hall,
    List.tail_nil]

theorem partition_append {sep : Char} {s rest : List Char} (h : sep ∉ s) :
    partition sep (s ++ sep :: rest) = (s, rest) := by
  have hall : ∀ c ∈ s, decide (c ≠ sep) = true := fun c hc =>
    decide_eq_true fun heq => h (heq ▸ hc)
  rw [partition, List.takeWhile_append_of_pos hall, List.dropWhile_append_of_pos hall]
  simp

/-- A text is what stands around its first separator. -/
theorem eq_partition {sep : Char} {s : List Char} (h : sep ∈ s) :
    s = (partition sep s).1 ++ sep :: (partition sep s).2 := by
  obtain ⟨a, b, rfl, hnot⟩ := List.eq_append_cons_of_mem h
  rw [partition_append hnot]

theorem rpartition_of_notMem {sep : Char} {s : List Char} (h : sep ∉ s) :
    rpartition sep s = ([], s) := by
  have hall : ∀ c ∈ s.reverse, decide (c ≠ sep) = true := fun c hc =>
    decide_eq_true fun heq => h (heq ▸ List.mem_reverse.mp hc)
  rw [rpartition, List.takeWhile_eq_self_iff.mpr hall, List.dropWhile_eq_nil_iff.mpr hall,
    List.tail_nil, List.reverse_nil, List.reverse_reverse]

theorem toNat_of_isPlain {c : Char} (h : isPlain c = true) : 32 < c.toNat ∧ c.toNat < 128 := by
  have hletters : c.isAlphanum = ((decide (c.val ≥ 'A'.val ∧ c.val ≤ 'Z'.val)
      || decide (c.val ≥ 'a'.val) && decide (c.val ≤ 'z'.val))
      || decide (c.val ≥ '0'.val) && decide (c.val ≤ '9'.val)) := rfl
  simp only [isPlain, hletters, Bool.or_eq_true, Bool.and_eq_true, decide_eq_true_eq,
    UInt32.le_iff_toNat_le, ge_iff_le] at h
  rcases h with ((h | rfl) | rfl) | rfl
  · have hval : c.toNat = c.val.toNat := rfl
    have hZ : 'Z'.val.toNat = 90 := rfl
    have hz : 'z'.val.toNat = 122 := rfl
    have h9 : '9'.val.toNat = 57 := rfl
    have hA : 'A'.val.toNat = 65 := rfl
    have ha : 'a'.val.toNat = 97 := rfl
    have h0 : '0'.val.toNat = 48 := rfl
    omega
  all_goals decide

theorem notMem_of_isPlain {s : List Char} (h : ∀ c ∈ s, isPlain c = true) {c : Char}
    (hc : isPlain c = false) : c ∉ s := by
  intro hmem
  rw [h c hmem] at hc
  cases hc

/-- A character of a path of plain components. -/
def isPlainOrSlash (c : Char) : Bool := isPlain c || c = '/'

/-- A character of a plain host with a port. -/
def isPlainOrColon (c : Char) : Bool := isPlain c || c = ':'

theorem toNat_of_isPlainOrColon {c : Char} (h : isPlainOrColon c = true) :
    32 < c.toNat ∧ c.toNat < 128 := by
  rcases Bool.or_eq_true .. |>.mp h with h | h
  · exact toNat_of_isPlain h
  · rw [of_decide_eq_true h]
    decide

theorem notMem_of_isPlainOrColon {s : List Char} (h : ∀ c ∈ s, isPlainOrColon c = true) {c : Char}
    (hc : isPlainOrColon c = false) : c ∉ s := by
  intro hmem
  rw [h c hmem] at hc
  cases hc

theorem clean_eq_self {c : Char} {s : List Char} (hc : 32 < c.toNat) (hs : ∀ d ∈ s, 32 < d.toNat) :
    clean (c :: s) = c :: s := by
  rw [clean, List.dropWhile_cons_of_neg (by simpa using hc)]
  refine List.filter_eq_self.mpr fun d hd => decide_eq_true ?_
  have hd32 : 32 < d.toNat := by
    rcases List.mem_cons.mp hd with rfl | hd
    · exact hc
    · exact hs d hd
  refine ⟨?_, ?_, ?_⟩ <;> rintro rfl <;> revert hd32 <;> decide

theorem netlocValid_plain (T : UrlTables) {netloc : List Char}
    (hnetloc : ∀ c ∈ netloc, isPlainOrColon c = true) : netlocValid T netloc = true := by
  have hopen := notMem_of_isPlainOrColon hnetloc (c := '[') (by decide)
  have hclose := notMem_of_isPlainOrColon hnetloc (c := ']') (by decide)
  have hascii : (netloc.all fun c => decide (c.toNat < 128)) = true :=
    List.all_eq_true.mpr fun c hc => decide_eq_true (toNat_of_isPlainOrColon (hnetloc c hc)).2
  simp only [netlocValid, decide_eq_false hopen, decide_eq_false hclose, decide_eq_true hopen,
    hascii, beq_self_eq_true, Bool.true_or, Bool.and_self]

theorem splitNetloc_plain {netloc rest : List Char}
    (hnetloc : ∀ c ∈ netloc, isPlainOrColon c = true) :
    splitNetloc ('/' :: '/' :: (netloc ++ '/' :: rest)) = (netloc, '/' :: rest) := by
  have hall : ∀ c ∈ netloc, (!isDelimiter c) = true := fun c hc => by
    have hplain := hnetloc c hc
    rw [Bool.not_eq_true', ← Bool.not_eq_true]
    intro hdelim
    simp only [isDelimiter, Bool.or_eq_true, decide_eq_true_eq] at hdelim
    rcases hdelim with (rfl | rfl) | rfl <;> revert hplain <;> decide
  rw [splitNetloc, if_pos (by simp), List.drop_succ_cons, List.drop_succ_cons, List.drop_zero,
    List.takeWhile_append_of_pos hall, List.dropWhile_append_of_pos hall]
  simp [isDelimiter]

/-- The parts of a plain URL. -/
theorem urlsplit_plain (T : UrlTables) {netloc rest : List Char}
    (hnetloc : ∀ c ∈ netloc, isPlainOrColon c = true)
    (hrest : ∀ c ∈ rest, isPlainOrSlash c = true) :
    urlsplit T ("https://".toList ++ (netloc ++ '/' :: rest))
      = some ⟨"https".toList, netloc, '/' :: rest, [], []⟩ := by
  have hslash : ∀ c ∈ rest, 32 < c.toNat := fun c hc => by
    rcases Bool.or_eq_true .. |>.mp (hrest c hc) with hc | hc
    · exact (toNat_of_isPlain hc).1
    · rw [of_decide_eq_true hc]
      decide
  have hpath : ∀ {sep : Char}, isPlainOrSlash sep = false → sep ∉ '/' :: rest := by
    intro sep hsep hmem
    rcases List.mem_cons.mp hmem with rfl | hmem
    · revert hsep
      decide
    · rw [hrest sep hmem] at hsep
      cases hsep
  have hclean : clean ("https://".toList ++ (netloc ++ '/' :: rest))
      = "https".toList ++ ':' :: '/' :: '/' :: (netloc ++ '/' :: rest) := by
    refine clean_eq_self (s := "ttps://".toList ++ (netloc ++ '/' :: rest)) (by decide)
      fun d hd => ?_
    have hstart : ∀ d ∈ "ttps://".toList, 32 < d.toNat := forall_of_text (by decide)
    rcases List.mem_append.mp hd with hd | hd
    · exact hstart d hd
    · rcases List.mem_append.mp hd with hd | hd
      · exact (toNat_of_isPlainOrColon (hnetloc d hd)).1
      · rcases List.mem_cons.mp hd with rfl | hd
        · decide
        · exact hslash d hd
  have hlower : T.lower "https".toList = "https".toList := by
    rw [T.lower_ascii _ (forall_of_text (by decide))]
    decide
  have hscheme : splitScheme T ("https".toList ++ ':' :: '/' :: '/' :: (netloc ++ '/' :: rest))
      = ("https".toList, '/' :: '/' :: (netloc ++ '/' :: rest)) := by
    rw [splitScheme, partition_append (by decide)]
    dsimp only
    rw [if_pos ⟨by simp, by decide, by decide⟩, hlower]
  rw [urlsplit, hclean, hscheme]
  dsimp only
  rw [splitNetloc_plain hnetloc]
  dsimp only
  rw [if_pos (netlocValid_plain T hnetloc), partition_of_notMem (hpath (by decide))]
  dsimp only
  rw [partition_of_notMem (hpath (by decide))]

end Url

end AgentBenchX
