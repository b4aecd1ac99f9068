import Mathlib.Data.Nat.Digits.Lemmas
import AgentBenchX.Lib.Scanner

/-!
# JSON texts

`dumps` and `loads` of Python's `json` module on lists of characters:
the writer with its default escapes (`ensure_ascii`), in one line or
indented, and the reader as the recursive descent it is. Numbers keep
their text, so nothing here depends on how floats are printed.

The two facts files depend on are `loads_dumps`, what was written reads
back, and `loads_cut`, a written object that was cut short does not read
at all. Both rest on how a scanner behaves when more text follows: its
answer does not change as long as the value was closed.
-/

namespace AgentBenchX

/-- A JSON value. Members stand in the order they were written in. -/
inductive Json where
  | null
  | bool (b : Bool)
  | number (text : List Char)
  | string (s : String)
  | array (items : List Json)
  | object (members : List (String × Json))

namespace Json

/-- `value[key]` on an object; of equal keys the last one counts. -/
def get? (key : String) : Json → Option Json
  | .object members => members.reverse.lookup key
  | _ => none

/-! ## White space -/

def isSpace (c : Char) : Bool := c = ' ' ∨ c = '\t' ∨ c = '\n' ∨ c = '\r'

def skipSpace : List Char → List Char
  | [] => []
  | c :: rest => if isSpace c then skipSpace rest else c :: rest

theorem skipSpace_append {gap : List Char} (h : ∀ c ∈ gap, isSpace c) (rest : List Char) :
    skipSpace (gap ++ rest) = skipSpace rest := by
  induction gap with
  | nil => rfl
  | cons c gap ih =>
      rw [List.cons_append, skipSpace, if_pos (h c (List.mem_cons_self ..))]
      exact ih fun d hd => h d (List.mem_cons_of_mem _ hd)

/-- Where white space ends does not depend on what follows the text. -/
theorem skipSpace_more {s rest : List Char} {c : Char} (h : skipSpace s = c :: rest)
    (more : List Char) : skipSpace (s ++ more) = c :: rest ++ more := by
  induction s with
  | nil => cases h
  | cons d s ih =>
      rw [skipSpace] at h
      rw [List.cons_append, skipSpace]
      split at h
      · rw [if_pos ‹_›]
        exact ih h
      · rw [if_neg ‹_›, ← h]
        rfl

/-! ## Strings -/

def hexDigit (d : ℕ) : Char := Char.ofNat (if d < 10 then 48 + d else 87 + d)

def hexValue (c : Char) : Option ℕ :=
  let n := c.toNat
  if 48 ≤ n ∧ n ≤ 57 then some (n - 48)
  else if 97 ≤ n ∧ n ≤ 102 then some (n - 87)
  else if 65 ≤ n ∧ n ≤ 70 then some (n - 55)
  else none

/-- `'\\u{0:04x}'.format(n)`. -/
def escapeUnit (n : ℕ) : List Char :=
  ['\\', 'u', hexDigit (n / 4096 % 16), hexDigit (n / 256 % 16), hexDigit (n / 16 % 16),
    hexDigit (n % 16)]

/-- One character in a written string. -/
def escapeChar (c : Char) : List Char :=
  if c = '"' then ['\\', '"']
  else if c = '\\' then ['\\', '\\']
  else if c = '\n' then ['\\', 'n']
  else if c = '\r' then ['\\', 'r']
  else if c = '\t' then ['\\', 't']
  else if c = Char.ofNat 12 then ['\\', 'f']
  else if c = Char.ofNat 8 then ['\\', 'b']
  else if ' ' ≤ c ∧ c ≤ '~' then [c]
  else if c.toNat < 65536 then escapeUnit c.toNat
  -- A surrogate pair.
  else escapeUnit (55296 + (c.toNat - 65536) / 1024)
    ++ escapeUnit (56320 + (c.toNat - 65536) % 1024)

/-- A string without its opening quote. -/
def escape (s : List Char) : List Char := s.flatMap escapeChar ++ ['"']

/-- A piece of a read string: a character, or a code unit written as `\uXXXX`. -/
inductive Piece where
  | char (c : Char)
  | unit (n : ℕ)
deriving DecidableEq

def unescape (c : Char) : Option Char :=
  if c = '"' ∨ c = '\\' ∨ c = '/' then some c
  else if c = 'b' then some (Char.ofNat 8)
  else if c = 'f' then some (Char.ofNat 12)
  else if c = 'n' then some '\n'
  else if c = 'r' then some '\r'
  else if c = 't' then some '\t'
  else none

def unitValue (h₃ h₂ h₁ h₀ : Char) : Option ℕ := do
  let n₃ ← hexValue h₃
  let n₂ ← hexValue h₂
  let n₁ ← hexValue h₁
  let n₀ ← hexValue h₀
  some (n₃ * 4096 + n₂ * 256 + n₁ * 16 + n₀)

/-- The pieces of a string up to its closing quote, and what is left. -/
def scanPieces : List Char → Option (List Piece × List Char)
  | [] => none
  | '"' :: rest => some ([], rest)
  | '\\' :: 'u' :: h₃ :: h₂ :: h₁ :: h₀ :: rest => do
      let n ← unitValue h₃ h₂ h₁ h₀
      let (pieces, rest) ← scanPieces rest
      some (.unit n :: pieces, rest)
  | '\\' :: e :: rest => do
      let c ← unescape e
      let (pieces, rest) ← scanPieces rest
      some (.char c :: pieces, rest)
  | c :: rest =>
      -- Strict mode: control characters must be escaped.
      if c = '\\' ∨ c.toNat < 32 then none
      else do
        let (pieces, rest) ← scanPieces rest
        some (.char c :: pieces, rest)

/-- The characters of the pieces: two units that are a surrogate pair are one
character. A unit that is half of a pair reads as U+FFFD, since a `Char` is
never a surrogate. -/
def joinPieces : List Piece → List Char
  | [] => []
  | .char c :: rest => c :: joinPieces rest
  | .unit n :: .unit m :: rest =>
      if 55296 ≤ n ∧ n < 56320 ∧ 56320 ≤ m ∧ m < 57344 then
        Char.ofNat (65536 + (n - 55296) * 1024 + (m - 56320)) :: joinPieces rest
      else
        (if 55296 ≤ n ∧ n < 57344 then Char.ofNat 65533 else Char.ofNat n)
          :: joinPieces (.unit m :: rest)
  | .unit n :: rest =>
      (if 55296 ≤ n ∧ n < 57344 then Char.ofNat 65533 else Char.ofNat n) :: joinPieces rest

def scanString (s : List Char) : Option (String × List Char) := do
  let (pieces, rest) ← scanPieces s
  some (String.ofList (joinPieces pieces), rest)

/-! ### Reading back -/

theorem hexValue_hexDigit : ∀ d < 16, hexValue (hexDigit d) = some d := by decide

theorem unitValue_escapeUnit {n : ℕ} (h : n < 65536) :
    unitValue (hexDigit (n / 4096 % 16)) (hexDigit (n / 256 % 16)) (hexDigit (n / 16 % 16))
      (hexDigit (n % 16)) = some n := by
  have hdigit : ∀ m : ℕ, hexValue (hexDigit (m % 16)) = some (m % 16) := fun m =>
    hexValue_hexDigit _ (Nat.mod_lt _ (by decide))
  simp only [unitValue, hdigit, Option.bind_eq_bind, Option.bind_some, Option.some.injEq]
  omega

/-- What a written character is read as. -/
def charPieces (c : Char) : List Piece :=
  if c = '"' ∨ c = '\\' ∨ c = '\n' ∨ c = '\r' ∨ c = '\t' ∨ c = Char.ofNat 12 ∨ c = Char.ofNat 8
      ∨ (' ' ≤ c ∧ c ≤ '~') then [.char c]
  else if c.toNat < 65536 then [.unit c.toNat]
  else [.unit (55296 + (c.toNat - 65536) / 1024), .unit (56320 + (c.toNat - 65536) % 1024)]

theorem scanPieces_unit {n : ℕ} (h : n < 65536) (s : List Char) :
    scanPieces (escapeUnit n ++ s)
      = (scanPieces s).map fun p => (.unit n :: p.1, p.2) := by
  simp only [escapeUnit, List.cons_append, List.nil_append, scanPieces]
  rw [unitValue_escapeUnit h]
  cases scanPieces s <;> rfl

/-- The code points a character can have. -/
theorem toNat_cases (c : Char) : c.toNat < 55296 ∨ (57343 < c.toNat ∧ c.toNat < 1114112) :=
  c.valid

theorem scanPieces_plain {c : Char} (hq : c ≠ '"') (hb : c ≠ '\\') (h : ¬c.toNat < 32)
    (s : List Char) :
    scanPieces (c :: s) = (scanPieces s).map fun p => (.char c :: p.1, p.2) := by
  rw [scanPieces.eq_def]
  split
  · rename_i heq
    cases heq
  · rename_i heq
    exact absurd (List.cons.inj heq).1 hq
  · rename_i heq
    exact absurd (List.cons.inj heq).1 hb
  · rename_i heq
    exact absurd (List.cons.inj heq).1 hb
  · rename_i heq
    obtain ⟨rfl, rfl⟩ := List.cons.inj heq
    rw [if_neg (by simp only [hb, h, or_self, not_false_eq_true])]
    cases scanPieces s <;> rfl

theorem scanPieces_char (c : Char) (s : List Char) :
    scanPieces (escapeChar c ++ s)
      = (scanPieces s).map fun p => (charPieces c ++ p.1, p.2) := by
  unfold escapeChar charPieces
  -- The escapes with a letter of their own.
  by_cases hshort : c = '"' ∨ c = '\\' ∨ c = '\n' ∨ c = '\r' ∨ c = '\t' ∨ c = Char.ofNat 12
      ∨ c = Char.ofNat 8
  · rcases hshort with rfl | rfl | rfl | rfl | rfl | rfl | rfl <;>
      (cases hs : scanPieces s <;> simp [scanPieces, unescape, hs])
  · simp only [not_or] at hshort
    obtain ⟨hq, hb, hn, hr, ht, hf, hback⟩ := hshort
    simp only [hq, hb, hn, hr, ht, hf, hback, if_false, false_or]
    by_cases hplain : ' ' ≤ c ∧ c ≤ '~'
    · rw [if_pos hplain, if_pos hplain, List.singleton_append]
      refine scanPieces_plain hq hb ?_ s
      have hspace := UInt32.le_iff_toNat_le.mp (Char.le_def.mp hplain.1)
      exact Nat.not_lt.mpr hspace
    · rw [if_neg hplain, if_neg hplain]
      split
      · rw [scanPieces_unit ‹_›]
        rfl
      · have hvalid := toNat_cases c
        rw [List.append_assoc, scanPieces_unit (by omega), scanPieces_unit (by omega)]
        cases scanPieces s <;> rfl

theorem joinPieces_unit {n : ℕ} (h : n < 55296 ∨ 57343 < n) (rest : List Piece) :
    joinPieces (.unit n :: rest) = Char.ofNat n :: joinPieces rest := by
  have hlow : ¬(55296 ≤ n ∧ n < 57344) := by omega
  rcases rest with - | ⟨c | m, rest⟩
  · simp only [joinPieces, hlow, if_false]
  · simp only [joinPieces, hlow, if_false]
  · rw [joinPieces, if_neg (by omega), if_neg hlow]

theorem joinPieces_pair {v : ℕ} (h : v < 1048576) (rest : List Piece) :
    joinPieces (.unit (55296 + v / 1024) :: .unit (56320 + v % 1024) :: rest)
      = Char.ofNat (65536 + v) :: joinPieces rest := by
  have hv : 65536 + (55296 + v / 1024 - 55296) * 1024 + (56320 + v % 1024 - 56320)
      = 65536 + v := by omega
  rw [joinPieces, if_pos (by omega), hv]

theorem joinPieces_char (c : Char) (rest : List Piece) :
    joinPieces (charPieces c ++ rest) = c :: joinPieces rest := by
  have hvalid := toNat_cases c
  unfold charPieces
  split
  · rfl
  · split
    · rw [List.singleton_append, joinPieces_unit (by omega), Char.ofNat_toNat]
    · rw [List.cons_append, List.singleton_append, joinPieces_pair (by omega),
        Nat.add_sub_cancel' (by omega), Char.ofNat_toNat]

/-- The pieces of a written string are joined to its characters again. -/
theorem joinPieces_charPieces (s : List Char) : joinPieces (s.flatMap charPieces) = s := by
  induction s with
  | nil => rfl
  | cons c s ih => rw [List.flatMap_cons, joinPieces_char, ih]

theorem scanPieces_escape (s rest : List Char) :
    scanPieces (escape s ++ rest) = some (s.flatMap charPieces, rest) := by
  induction s with
  | nil => rfl
  | cons c s ih =>
      have hcons : escape (c :: s) ++ rest = escapeChar c ++ (escape s ++ rest) := by
        simp [escape]
      rw [hcons, scanPieces_char, ih, List.flatMap_cons]
      rfl

theorem scanString_escape (s : String) (rest : List Char) :
    scanString (escape s.toList ++ rest) = some (s, rest) := by
  unfold scanString
  rw [scanPieces_escape]
  simp [joinPieces_charPieces]

/-! ### More text -/

/-- An escape with a letter of its own. -/
theorem scanPieces_letter {e : Char} (he : e ≠ 'u') (s : List Char) :
    scanPieces ('\\' :: e :: s)
      = (unescape e).bind fun c => (scanPieces s).map fun p => (.char c :: p.1, p.2) := by
  rw [scanPieces.eq_def]
  split
  · rename_i heq
    cases heq
  · rename_i heq
    exact absurd (List.cons.inj heq).1 (by decide)
  · rename_i heq
    exact absurd (List.cons.inj (List.cons.inj heq).2).1 he
  · rename_i heq
    obtain ⟨rfl, rfl⟩ := List.cons.inj (List.cons.inj heq).2
    cases unescape e <;> cases scanPieces s <;> rfl
  · rename_i hne heq
    obtain ⟨rfl, rfl⟩ := List.cons.inj heq
    exact absurd rfl (hne e s rfl)

theorem scanPieces_more {s rest : List Char} {pieces : List Piece}
    (h : scanPieces s = some (pieces, rest)) (more : List Char) :
    scanPieces (s ++ more) = some (pieces, rest ++ more) := by
  fun_induction scanPieces s generalizing pieces rest with
  | case1 => cases h
  | case2 rest' =>
      obtain ⟨rfl, rfl⟩ := Prod.mk.injEq .. |>.mp (Option.some.inj h)
      rfl
  | case3 h₃ h₂ h₁ h₀ rest' ih =>
      simp only [Option.bind_eq_bind, Option.bind_eq_some_iff] at h
      obtain ⟨n, hn, ⟨pieces', rest''⟩, hscan, heq⟩ := h
      obtain ⟨rfl, rfl⟩ := Prod.mk.injEq .. |>.mp (Option.some.inj heq)
      simp only [List.cons_append, scanPieces, hn, ih hscan, Option.bind_eq_bind,
        Option.bind_some]
  | case4 e rest' hne ih =>
      simp only [Option.bind_eq_bind, Option.bind_eq_some_iff] at h
      obtain ⟨c, hc, ⟨pieces', rest''⟩, hscan, heq⟩ := h
      obtain ⟨rfl, rfl⟩ := Prod.mk.injEq .. |>.mp (Option.some.inj heq)
      have he : e ≠ 'u' := by
        rintro rfl
        cases hc
      rw [List.cons_append, List.cons_append, scanPieces_letter he, hc, ih hscan]
      rfl
  | case5 c rest' _ _ _ hbad => cases h
  | case6 c rest' hq _ _ hbad ih =>
      simp only [Option.bind_eq_bind, Option.bind_eq_some_iff] at h
      obtain ⟨⟨pieces', rest''⟩, hscan, heq⟩ := h
      obtain ⟨rfl, rfl⟩ := Prod.mk.injEq .. |>.mp (Option.some.inj heq)
      obtain ⟨hb, hc⟩ := not_or.mp hbad
      rw [List.cons_append, scanPieces_plain hq hb hc, ih hscan]
      rfl

theorem scanString_more {s rest : List Char} {t : String}
    (h : scanString s = some (t, rest)) (more : List Char) :
    scanString (s ++ more) = some (t, rest ++ more) := by
  simp only [scanString, Option.bind_eq_bind, Option.bind_eq_some_iff] at h
  obtain ⟨⟨pieces, rest'⟩, hscan, heq⟩ := h
  obtain ⟨rfl, rfl⟩ := Prod.mk.injEq .. |>.mp (Option.some.inj heq)
  simp only [scanString, scanPieces_more hscan, Option.bind_eq_bind, Option.bind_some]

/-! ## Numbers -/

/-- The characters that can follow a value inside of a text. -/
def stops : List Char := [' ', '\t', '\n', '\r', ',', ']', '}']

def isStop (c : Char) : Bool := c ∈ stops

theorem rejects {p : Char → Bool} (h : (stops.all fun c => !p c) = true) (c : Char)
    (hc : isStop c) : p c = false :=
  Scanner.forall_of_all h c (by simpa [isStop] using hc)

def sign : Scanner isStop := .one (· == '-') (rejects (by decide))

def digit : Scanner isStop := .one Char.isDigit (rejects (by decide))

def digits : Scanner isStop := .many Char.isDigit (rejects (by decide))

def integer : Scanner isStop :=
  sign.optional.andThen <|
    (Scanner.one (· == '0') (rejects (by decide))).orElse <|
      (Scanner.one (fun c => '1' ≤ c && c ≤ '9') (rejects (by decide))).andThen digits

def fraction : Scanner isStop :=
  (Scanner.one (· == '.') (rejects (by decide))).andThen (digit.andThen digits)

def exponent : Scanner isStop :=
  (Scanner.one (fun c => c == 'e' || c == 'E') (rejects (by decide))).andThen <|
    (Scanner.one (fun c => c == '+' || c == '-') (rejects (by decide))).optional.andThen <|
      digit.andThen digits

/-- The decoder's `NUMBER_RE`, and the constants it knows besides. -/
def numeral : Scanner isStop :=
  (integer.andThen (fraction.optional.andThen exponent.optional)).orElse <|
    (Scanner.word ['N', 'a', 'N'] (Scanner.forall_of_all (by decide))).orElse <|
      (Scanner.word ['I', 'n', 'f', 'i', 'n', 'i', 't', 'y']
        (Scanner.forall_of_all (by decide))).orElse <|
        Scanner.word ['-', 'I', 'n', 'f', 'i', 'n', 'i', 't', 'y']
          (Scanner.forall_of_all (by decide))

/-- The text is one number. -/
def IsNumeral (text : List Char) : Prop := numeral.scan text = some (text, [])

instance (text : List Char) : Decidable (IsNumeral text) :=
  inferInstanceAs (Decidable (_ = _))

/-! ## Reading values -/

def nullWord : Scanner isStop := .word ['n', 'u', 'l', 'l'] (Scanner.forall_of_all (by decide))

def trueWord : Scanner isStop := .word ['t', 'r', 'u', 'e'] (Scanner.forall_of_all (by decide))

def falseWord : Scanner isStop :=
  .word ['f', 'a', 'l', 's', 'e'] (Scanner.forall_of_all (by decide))

def scanAtom (s : List Char) : Option (Json × List Char) :=
  match nullWord.scan s, trueWord.scan s, falseWord.scan s, numeral.scan s with
  | some p, _, _, _ => some (.null, p.2)
  | none, some p, _, _ => some (.bool true, p.2)
  | none, none, some p, _ => some (.bool false, p.2)
  | none, none, none, some p => some (.number p.1, p.2)
  | none, none, none, none => none

mutual

/-- `scan_once`. -/
def scanValue : ℕ → List Char → Option (Json × List Char)
  | 0, _ => none
  | n + 1, s =>
      match s with
      | '"' :: rest => (scanString rest).map fun p => (.string p.1, p.2)
      | '[' :: rest =>
          match skipSpace rest with
          | ']' :: rest => some (.array [], rest)
          | rest => (scanItems n rest).map fun p => (.array p.1, p.2)
      | '{' :: rest =>
          match skipSpace rest with
          | '}' :: rest => some (.object [], rest)
          | rest => (scanMembers n rest).map fun p => (.object p.1, p.2)
      | s => scanAtom s

/-- The items of an array that is not empty, from the first one on. -/
def scanItems : ℕ → List Char → Option (List Json × List Char)
  | 0, _ => none
  | n + 1, s => do
      let (v, rest) ← scanValue n s
      match skipSpace rest with
      | ']' :: rest => some ([v], rest)
      | ',' :: rest => do
          let (vs, rest) ← scanItems n (skipSpace rest)
          some (v :: vs, rest)
      | _ => none

/-- The members of an object that is not empty, from the first key on. -/
def scanMembers : ℕ → List Char → Option (List (String × Json) × List Char)
  | n + 1, '"' :: s => do
      let (key, rest) ← scanString s
      match skipSpace rest with
      | ':' :: rest => do
          let (v, rest) ← scanValue n (skipSpace rest)
          match skipSpace rest with
          | '}' :: rest => some ([(key, v)], rest)
          | ',' :: rest => do
              let (ms, rest) ← scanMembers n (skipSpace rest)
              some ((key, v) :: ms, rest)
          | _ => none
      | _ => none
  | _, _ => none

end

/-- `json.loads`. -/
def loads (s : List Char) : Option Json :=
  match scanValue (s.length + 1) (skipSpace s) with
  | some (v, rest) => if skipSpace rest = [] then some v else none
  | none => none

/-! ## Writing values -/

/-- The line break and indentation in front of an item, or of a closing bracket. -/
def gap (indent : Option ℕ) (level : ℕ) : List Char :=
  match indent with
  | none => []
  | some k => '\n' :: List.replicate (k * level) ' '

def itemSeparator (indent : Option ℕ) (level : ℕ) : List Char :=
  match indent with
  | none => [',', ' ']
  | some _ => ',' :: gap indent level

def keyText (key : String) : List Char := '"' :: escape key.toList ++ [':', ' ']

mutual

/-- The text of a value inside of `level` brackets. -/
def dump (indent : Option ℕ) : ℕ → Json → List Char
  | _, .null => ['n', 'u', 'l', 'l']
  | _, .bool true => ['t', 'r', 'u', 'e']
  | _, .bool false => ['f', 'a', 'l', 's', 'e']
  | _, .number text => text
  | _, .string s => '"' :: escape s.toList
  | _, .array [] => ['[', ']']
  | level, .array (v :: vs) =>
      '[' :: gap indent (level + 1) ++ dump indent (level + 1) v ++ dumpItems indent level vs
  | _, .object [] => ['{', '}']
  | level, .object ((key, v) :: ms) =>
      '{' :: gap indent (level + 1) ++ keyText key ++ dump indent (level + 1) v
        ++ dumpMembers indent level ms

def dumpItems (indent : Option ℕ) : ℕ → List Json → List Char
  | level, [] => gap indent level ++ [']']
  | level, v :: vs =>
      itemSeparator indent (level + 1) ++ dump indent (level + 1) v ++ dumpItems indent level vs

def dumpMembers (indent : Option ℕ) : ℕ → List (String × Json) → List Char
  | level, [] => gap indent level ++ ['}']
  | level, (key, v) :: ms =>
      itemSeparator indent (level + 1) ++ keyText key ++ dump indent (level + 1) v
        ++ dumpMembers indent level ms

end

/-- `json.dumps`. -/
def dumps (indent : Option ℕ) (v : Json) : List Char := dump indent 0 v

mutual

/-- Every number of the value is written as one. -/
def WellFormed : Json → Prop
  | .number text => IsNumeral text
  | .array items => WellFormedItems items
  | .object members => WellFormedMembers members
  | .null | .bool _ | .string _ => True

def WellFormedItems : List Json → Prop
  | [] => True
  | v :: vs => v.WellFormed ∧ WellFormedItems vs

def WellFormedMembers : List (String × Json) → Prop
  | [] => True
  | (_, v) :: ms => v.WellFormed ∧ WellFormedMembers ms

end

/-! ### Integers -/

/-- `int.__repr__` of a natural number. -/
def decimal (n : ℕ) : List Char :=
  if n = 0 then ['0'] else (Nat.digits 10 n).reverse.map hexDigit

/-- An integer as a JSON number. -/
def ofInt (i : ℤ) : Json :=
  .number (if i < 0 then '-' :: decimal i.natAbs else decimal i.natAbs)

theorem hexDigit_isDigit : ∀ d < 10, (hexDigit d).isDigit := by decide

theorem hexDigit_nonzero : ∀ d < 10, d ≠ 0 →
    hexDigit d ≠ '-' ∧ hexDigit d ≠ '0' ∧ '1' ≤ hexDigit d ∧ hexDigit d ≤ '9' := by decide

/-- The first digit of a positive number is not zero. -/
theorem decimal_cons {n : ℕ} (hn : n ≠ 0) :
    ∃ d ds, decimal n = hexDigit d :: ds ∧ d < 10 ∧ d ≠ 0 ∧ ∀ c ∈ ds, c.isDigit := by
  have hlt : ∀ d ∈ Nat.digits 10 n, d < 10 := fun d hd => Nat.digits_lt_base (by decide) hd
  have hne : Nat.digits 10 n ≠ [] := Nat.digits_ne_nil_iff_ne_zero.mpr hn
  have hlast := Nat.getLast_digit_ne_zero 10 hn
  have hdigits := List.dropLast_concat_getLast hne
  refine ⟨(Nat.digits 10 n).getLast hne, (Nat.digits 10 n).dropLast.reverse.map hexDigit, ?_,
    hlt _ (List.getLast_mem hne), hlast, fun c hc => ?_⟩
  · rw [decimal, if_neg hn]
    conv => lhs; rw [← hdigits]
    rw [List.reverse_append, List.reverse_singleton, List.map_append, List.map_singleton,
      List.singleton_append]
  · obtain ⟨d, hd, rfl⟩ := List.mem_map.mp hc
    exact hexDigit_isDigit d (hlt d (List.mem_of_mem_dropLast (List.mem_reverse.mp hd)))

theorem integer_digits {c : Char} {ds : List Char} (hc : c ≠ '-' ∧ c ≠ '0' ∧ '1' ≤ c ∧ c ≤ '9')
    (hds : ∀ d ∈ ds, d.isDigit) (negative : Bool) :
    IsNumeral ((if negative then ['-'] else []) ++ c :: ds) := by
  obtain ⟨hminus, hzero, h1, h9⟩ := hc
  have htake : ds.takeWhile Char.isDigit = ds := List.takeWhile_eq_self_iff.mpr hds
  have hdrop : ds.dropWhile Char.isDigit = [] := List.dropWhile_eq_nil_iff.mpr hds
  cases negative <;>
    simp [IsNumeral, numeral, integer, sign, digits, fraction, exponent, Scanner.orElse,
      Scanner.andThen, Scanner.optional, Scanner.one, Scanner.many, hminus, hzero, h1, h9, htake,
      hdrop]

theorem wellFormed_ofInt (i : ℤ) : (ofInt i).WellFormed := by
  rw [ofInt, WellFormed]
  by_cases hi : i.natAbs = 0
  · obtain rfl := Int.natAbs_eq_zero.mp hi
    exact rfl
  · obtain ⟨d, ds, hdecimal, hd, hd0, hds⟩ := decimal_cons hi
    have hnumeral := integer_digits (hexDigit_nonzero d hd hd0) hds
    rw [hdecimal]
    split
    · exact hnumeral true
    · exact hnumeral false

/-! ## Reading back what was written -/

/-- The text ends a token: it is empty or starts with a stop character. -/
def EndsToken (rest : List Char) : Prop := ∀ c s, rest = c :: s → isStop c

theorem endsToken_cons {c : Char} (hc : isStop c) (s : List Char) : EndsToken (c :: s) := by
  intro d t h
  rwa [(List.cons.inj h).1] at hc

theorem numeral_stop {c : Char} (hc : isStop c) (s : List Char) :
    numeral.scan (c :: s) = none :=
  numeral.closes [] c s hc

/-- A number starts like no other value. -/
theorem numeral_head {c : Char} {s : List Char} {p : List Char × List Char}
    (h : numeral.scan (c :: s) = some p) : c ∉ ['"', '[', '{', 'n', 't', 'f'] := by
  intro hc
  simp only [List.mem_cons, List.not_mem_nil, or_false] at hc
  rcases hc with rfl | rfl | rfl | rfl | rfl | rfl <;>
    exact absurd (show none = some p from h) (by simp)

theorem scanAtom_numeral {c : Char} {s : List Char} {p : List Char × List Char}
    (h : numeral.scan (c :: s) = some p) :
    scanAtom (c :: s) = some (.number p.1, p.2) := by
  have hhead := numeral_head h
  simp only [List.mem_cons, List.not_mem_nil, or_false, not_or] at hhead
  obtain ⟨-, -, -, hn, ht, hf⟩ := hhead
  rw [scanAtom, nullWord, trueWord, falseWord, Scanner.word_ne _ hn, Scanner.word_ne _ ht,
    Scanner.word_ne _ hf, h]

theorem scanValue_atom {n : ℕ} {c : Char} {s : List Char} (hc : c ∉ ['"', '[', '{']) :
    scanValue (n + 1) (c :: s) = scanAtom (c :: s) := by
  simp only [List.mem_cons, List.not_mem_nil, or_false, not_or] at hc
  rw [scanValue]
  · exact fun rest heq => hc.1 (List.cons.inj heq).1
  · exact fun rest heq => hc.2.1 (List.cons.inj heq).1
  · exact fun rest heq => hc.2.2 (List.cons.inj heq).1

theorem scanValue_array {n : ℕ} {c : Char} {s t : List Char} (hs : skipSpace s = c :: t)
    (hc : c ≠ ']') :
    scanValue (n + 1) ('[' :: s) = (scanItems n (c :: t)).map fun p => (.array p.1, p.2) := by
  simp only [scanValue, hs]
  split
  · rename_i heq
    exact absurd (List.cons.inj heq).1 hc
  · rfl

theorem scanValue_object {n : ℕ} {c : Char} {s t : List Char} (hs : skipSpace s = c :: t)
    (hc : c ≠ '}') :
    scanValue (n + 1) ('{' :: s) = (scanMembers n (c :: t)).map fun p => (.object p.1, p.2) := by
  simp only [scanValue, hs]
  split
  · rename_i heq
    exact absurd (List.cons.inj heq).1 hc
  · rfl

/-! ### The text around values -/

theorem gap_space {indent : Option ℕ} {level : ℕ} : ∀ c ∈ gap indent level, isSpace c := by
  intro c hc
  unfold gap at hc
  split at hc
  · cases hc
  · rcases List.mem_cons.mp hc with rfl | hc
    · rfl
    · rw [List.eq_of_mem_replicate hc]
      rfl

theorem skipSpace_gap (indent : Option ℕ) (level : ℕ) (s : List Char) :
    skipSpace (gap indent level ++ s) = skipSpace s :=
  skipSpace_append gap_space s

/-- The text that closes an array or object, or goes on in it, ends a token. -/
theorem endsToken_gap (indent : Option ℕ) (level : ℕ) {c : Char} (hc : isStop c) (s : List Char) :
    EndsToken (gap indent level ++ c :: s) := by
  unfold gap
  split
  · exact endsToken_cons hc s
  · exact endsToken_cons (by decide) _

theorem endsToken_separator (indent : Option ℕ) (level : ℕ) (s : List Char) :
    EndsToken (itemSeparator indent level ++ s) := by
  unfold itemSeparator
  split <;> exact endsToken_cons (by decide) _

theorem endsToken_items (indent : Option ℕ) (level : ℕ) (vs : List Json) (s : List Char) :
    EndsToken (dumpItems indent level vs ++ s) := by
  cases vs with
  | nil =>
      rw [dumpItems, List.append_assoc]
      exact endsToken_gap indent level (by decide) s
  | cons v vs =>
      rw [dumpItems, List.append_assoc, List.append_assoc]
      exact endsToken_separator indent (level + 1) _

theorem endsToken_members (indent : Option ℕ) (level : ℕ) (ms : List (String × Json))
    (s : List Char) : EndsToken (dumpMembers indent level ms ++ s) := by
  cases ms with
  | nil =>
      rw [dumpMembers, List.append_assoc]
      exact endsToken_gap indent level (by decide) s
  | cons m ms =>
      rw [dumpMembers, List.append_assoc, List.append_assoc, List.append_assoc]
      exact endsToken_separator indent (level + 1) _

theorem numeral_cons {text : List Char} (h : IsNumeral text) :
    ∃ c s, text = c :: s ∧ ¬isStop c := by
  cases text with
  | nil => exact absurd h (by decide)
  | cons c s =>
      refine ⟨c, s, rfl, fun hc => ?_⟩
      have hscan : numeral.scan (c :: s) = some (c :: s, []) := h
      rw [numeral_stop hc] at hscan
      cases hscan

/-- A written value starts with a character of its own. -/
theorem dump_cons (indent : Option ℕ) (level : ℕ) {v : Json} (hv : v.WellFormed) :
    ∃ c s, dump indent level v = c :: s ∧ ¬isStop c := by
  rcases v with - | b | text | s | items | members
  · exact ⟨_, _, by rw [dump], by decide⟩
  · cases b <;> exact ⟨_, _, by rw [dump], by decide⟩
  · obtain ⟨c, s, rfl, hc⟩ := numeral_cons (by rwa [WellFormed] at hv)
    exact ⟨c, s, by rw [dump], hc⟩
  · exact ⟨_, _, by rw [dump], by decide⟩
  · cases items with
    | nil => exact ⟨_, _, by rw [dump], by decide⟩
    | cons v vs => exact ⟨_, _, by rw [dump, List.cons_append, List.cons_append], by decide⟩
  · rcases members with - | ⟨⟨key, v⟩, ms⟩
    · exact ⟨_, _, by rw [dump], by decide⟩
    · exact ⟨_, _, by rw [dump, List.cons_append, List.cons_append, List.cons_append], by decide⟩

/-! ### Sizes -/

mutual

/-- A bound on the recursion depth a value needs. -/
def size : Json → ℕ
  | .array items => 1 + sizeItems items
  | .object members => 1 + sizeMembers members
  | .null | .bool _ | .number _ | .string _ => 1

def sizeItems : List Json → ℕ
  | [] => 0
  | v :: vs => 1 + v.size + sizeItems vs

def sizeMembers : List (String × Json) → ℕ
  | [] => 0
  | (_, v) :: ms => 1 + v.size + sizeMembers ms

end

mutual

theorem size_le_dump (indent : Option ℕ) : ∀ (level : ℕ) {v : Json}, v.WellFormed →
    v.size ≤ (dump indent level v).length
  | _, .null, _ => by simp [size, dump]
  | _, .bool true, _ => by simp [size, dump]
  | _, .bool false, _ => by simp [size, dump]
  | level, .number text, h => by
      obtain ⟨c, s, rfl, -⟩ := numeral_cons (by rwa [WellFormed] at h)
      simp [size, dump]
  | _, .string s, _ => by simp [size, dump]
  | _, .array [], _ => by simp [size, sizeItems, dump]
  | level, .array (v :: vs), h => by
      rw [WellFormed, WellFormedItems] at h
      have hv := size_le_dump indent (level + 1) h.1
      have hvs := sizeItems_le_dump indent level h.2
      simp only [size, sizeItems, dump, List.length_append, List.length_cons]
      omega
  | _, .object [], _ => by simp [size, sizeMembers, dump]
  | level, .object ((key, v) :: ms), h => by
      rw [WellFormed, WellFormedMembers] at h
      have hv := size_le_dump indent (level + 1) h.1
      have hms := sizeMembers_le_dump indent level h.2
      simp only [size, sizeMembers, dump, List.length_append, List.length_cons]
      omega

theorem sizeItems_le_dump (indent : Option ℕ) : ∀ (level : ℕ) {vs : List Json},
    WellFormedItems vs → sizeItems vs + 1 ≤ (dumpItems indent level vs).length
  | _, [], _ => by simp [sizeItems, dumpItems]
  | level, v :: vs, h => by
      rw [WellFormedItems] at h
      have hv := size_le_dump indent (level + 1) h.1
      have hvs := sizeItems_le_dump indent level h.2
      have hsep : 1 ≤ (itemSeparator indent (level + 1)).length := by
        unfold itemSeparator
        split <;> simp
      simp only [sizeItems, dumpItems, List.length_append]
      omega

theorem sizeMembers_le_dump (indent : Option ℕ) : ∀ (level : ℕ) {ms : List (String × Json)},
    WellFormedMembers ms → sizeMembers ms + 1 ≤ (dumpMembers indent level ms).length
  | _, [], _ => by simp [sizeMembers, dumpMembers]
  | level, (key, v) :: ms, h => by
      rw [WellFormedMembers] at h
      have hv := size_le_dump indent (level + 1) h.1
      have hms := sizeMembers_le_dump indent level h.2
      have hsep : 1 ≤ (itemSeparator indent (level + 1)).length := by
        unfold itemSeparator
        split <;> simp
      simp only [sizeMembers, dumpMembers, List.length_append]
      omega

end

/-! ### The round trip -/

theorem skipSpace_dump (indent : Option ℕ) (level : ℕ) {v : Json} (hv : v.WellFormed)
    (s : List Char) : skipSpace (dump indent level v ++ s) = dump indent level v ++ s := by
  obtain ⟨c, t, hdump, hc⟩ := dump_cons indent level hv
  have hspace : ¬isSpace c := fun h => hc (by
    unfold isSpace at h
    simp only [decide_eq_true_eq] at h
    rcases h with rfl | rfl | rfl | rfl <;> decide)
  rw [hdump, List.cons_append, skipSpace, if_neg hspace]

theorem skipSpace_separator (indent : Option ℕ) (level : ℕ) (s : List Char) :
    ∃ t, itemSeparator indent level ++ s = ',' :: t ∧ skipSpace t = skipSpace s := by
  unfold itemSeparator
  split
  · exact ⟨' ' :: s, rfl, rfl⟩
  · exact ⟨_, rfl, skipSpace_gap ..⟩

theorem scanString_text (s : String) (rest : List Char) {n : ℕ} :
    scanValue (n + 1) ('"' :: escape s.toList ++ rest) = some (.string s, rest) := by
  rw [List.cons_append, scanValue, scanString_escape]
  rfl

theorem scanValue_numeral {n : ℕ} {text rest : List Char} (h : IsNumeral text)
    (hrest : EndsToken rest) : scanValue (n + 1) (text ++ rest) = some (.number text, rest) := by
  have hscan : numeral.scan (text ++ rest) = some (text, rest) := by
    cases rest with
    | nil => rwa [List.append_nil]
    | cons c s => exact numeral.stopped h (hrest c s rfl) s
  obtain ⟨c, s, rfl, -⟩ := numeral_cons h
  rw [List.cons_append] at hscan ⊢
  have hhead := numeral_head hscan
  rw [scanValue_atom (fun hc => hhead (by
    simp only [List.mem_cons, List.not_mem_nil, or_false] at hc ⊢
    tauto)), scanAtom_numeral hscan]

mutual

/-- A written value reads back in front of any text that ends a token. -/
theorem scanValue_dump (indent : Option ℕ) : ∀ (n level : ℕ) (v : Json) (rest : List Char),
    v.WellFormed → v.size ≤ n → EndsToken rest →
    scanValue n (dump indent level v ++ rest) = some (v, rest)
  | 0, _, v, _, _, hn, _ => by cases v <;> simp [size] at hn
  | n + 1, _, .null, rest, _, _, _ => by rw [dump]; rfl
  | n + 1, _, .bool true, rest, _, _, _ => by rw [dump]; rfl
  | n + 1, _, .bool false, rest, _, _, _ => by rw [dump]; rfl
  | n + 1, level, .number text, rest, hv, _, hrest => by
      rw [WellFormed] at hv
      rw [dump]
      exact scanValue_numeral hv hrest
  | n + 1, _, .string s, rest, _, _, _ => by
      rw [dump]
      exact scanString_text s rest
  | n + 1, _, .array [], rest, _, _, _ => by rw [dump]; rfl
  | n + 1, level, .array (v :: vs), rest, hv, hn, _ => by
      rw [WellFormed, WellFormedItems] at hv
      rw [size] at hn
      obtain ⟨c, t, hdump, hc⟩ := dump_cons indent (level + 1) hv.1
      have hskip := skipSpace_dump indent (level + 1) hv.1 (dumpItems indent level vs ++ rest)
      have hitems := scanItems_dump indent n level v vs rest hv.1 hv.2 (by omega)
      rw [← skipSpace_gap indent (level + 1)] at hskip
      rw [hdump, List.cons_append] at hskip hitems
      have hclose : c ≠ ']' := by
        rintro rfl
        exact hc (by decide)
      rw [dump, hdump]
      simp only [List.cons_append, List.append_assoc]
      rw [scanValue_array hskip hclose, hitems]
      rfl
  | n + 1, _, .object [], rest, _, _, _ => by rw [dump]; rfl
  | n + 1, level, .object ((key, v) :: ms), rest, hv, hn, _ => by
      rw [WellFormed, WellFormedMembers] at hv
      rw [size] at hn
      have hmembers := scanMembers_dump indent n level key v ms rest hv.1 hv.2 (by omega)
      have hskip : skipSpace (gap indent (level + 1) ++ (keyText key ++ (dump indent (level + 1) v
          ++ (dumpMembers indent level ms ++ rest))))
          = keyText key ++ (dump indent (level + 1) v ++ (dumpMembers indent level ms ++ rest)) :=
        skipSpace_gap ..
      rw [dump]
      simp only [List.cons_append, List.append_assoc]
      rw [scanValue_object hskip (by decide)]
      exact congrArg (Option.map _) hmembers

theorem scanItems_dump (indent : Option ℕ) : ∀ (n level : ℕ) (v : Json) (vs : List Json)
    (rest : List Char), v.WellFormed → WellFormedItems vs → sizeItems (v :: vs) ≤ n →
    scanItems n (dump indent (level + 1) v ++ (dumpItems indent level vs ++ rest))
      = some (v :: vs, rest)
  | 0, _, v, _, _, _, _, hn => by simp [sizeItems] at hn
  | n + 1, level, v, vs, rest, hv, hvs, hn => by
      rw [sizeItems] at hn
      have hvalue := scanValue_dump indent n (level + 1) v (dumpItems indent level vs ++ rest) hv
        (by omega) (endsToken_items indent level vs rest)
      rw [scanItems, hvalue]
      cases vs with
      | nil =>
          have hclose : skipSpace (dumpItems indent level [] ++ rest) = ']' :: rest := by
            rw [dumpItems, List.append_assoc, skipSpace_gap]
            rfl
          simp only [Option.bind_eq_bind, Option.bind_some, hclose]
      | cons w ws =>
          rw [WellFormedItems] at hvs
          have hitems := scanItems_dump indent n level w ws rest hvs.1 hvs.2 (by omega)
          obtain ⟨t, hcomma, ht⟩ := skipSpace_separator indent (level + 1)
            (dump indent (level + 1) w ++ (dumpItems indent level ws ++ rest))
          rw [skipSpace_dump indent (level + 1) hvs.1] at ht
          have hnext : skipSpace (dumpItems indent level (w :: ws) ++ rest) = ',' :: t := by
            rw [dumpItems, List.append_assoc, List.append_assoc, hcomma]
            rfl
          simp only [Option.bind_eq_bind, Option.bind_some, hnext, ht, hitems]

theorem scanMembers_dump (indent : Option ℕ) : ∀ (n level : ℕ) (key : String) (v : Json)
    (ms : List (String × Json)) (rest : List Char), v.WellFormed → WellFormedMembers ms →
    sizeMembers ((key, v) :: ms) ≤ n →
    scanMembers n (keyText key ++ (dump indent (level + 1) v ++
      (dumpMembers indent level ms ++ rest)))
      = some ((key, v) :: ms, rest)
  | 0, _, _, v, _, _, _, _, hn => by simp [sizeMembers] at hn
  | n + 1, level, key, v, ms, rest, hv, hms, hn => by
      rw [sizeMembers] at hn
      have hvalue := scanValue_dump indent n (level + 1) v (dumpMembers indent level ms ++ rest) hv
        (by omega) (endsToken_members indent level ms rest)
      have hskip := skipSpace_dump indent (level + 1) hv (dumpMembers indent level ms ++ rest)
      have hcolon : skipSpace ([':', ' '] ++ (dump indent (level + 1) v
          ++ (dumpMembers indent level ms ++ rest)))
          = ':' :: ' ' :: (dump indent (level + 1) v ++
            (dumpMembers indent level ms ++ rest)) := rfl
      have hspace : skipSpace (' ' :: (dump indent (level + 1) v
          ++ (dumpMembers indent level ms ++ rest)))
          = dump indent (level + 1) v ++ (dumpMembers indent level ms ++ rest) := hskip
      rw [keyText, List.cons_append, List.cons_append, List.append_assoc, scanMembers,
        scanString_escape]
      simp only [Option.bind_eq_bind, Option.bind_some, hcolon, hspace, hvalue]
      rcases ms with - | ⟨⟨key', w⟩, ms⟩
      · have hclose : skipSpace (dumpMembers indent level [] ++ rest) = '}' :: rest := by
          rw [dumpMembers, List.append_assoc, skipSpace_gap]
          rfl
        simp only [hclose]
      · rw [WellFormedMembers] at hms
        have hmembers := scanMembers_dump indent n level key' w ms rest hms.1 hms.2 (by omega)
        obtain ⟨t, hcomma, ht⟩ := skipSpace_separator indent (level + 1)
          (keyText key' ++ (dump indent (level + 1) w ++ (dumpMembers indent level ms ++ rest)))
        have hkey : skipSpace (keyText key' ++ (dump indent (level + 1) w
            ++ (dumpMembers indent level ms ++ rest)))
            = keyText key' ++ (dump indent (level + 1) w
            ++ (dumpMembers indent level ms ++ rest)) := rfl
        rw [hkey] at ht
        have hnext : skipSpace (dumpMembers indent level ((key', w) :: ms) ++ rest) = ',' :: t := by
          rw [dumpMembers, List.append_assoc, List.append_assoc, List.append_assoc, hcomma]
          rfl
        simp only [hnext, ht, hmembers, Option.bind_some]

end

/-- What was written reads back. -/
theorem loads_dumps (indent : Option ℕ) {v : Json} (hv : v.WellFormed) :
    loads (dumps indent v) = some v := by
  have hsize := size_le_dump indent 0 hv
  have hskip := skipSpace_dump indent 0 hv []
  have hscan := scanValue_dump indent ((dumps indent v).length + 1) 0 v [] hv
    (by rw [dumps]; omega) (fun c s h => by cases h)
  rw [List.append_nil] at hskip hscan
  rw [loads, dumps, hskip]
  rw [dumps] at hscan
  rw [hscan]
  rfl

example : loads (dumps (some 2) (.object [("a", .array [.null, .number ['-', '1', '.', '5']])]))
    = some (.object [("a", .array [.null, .number ['-', '1', '.', '5']])]) := by rfl

/-! ## More text -/

/-- White space up to a stop character starts with one. -/
theorem stop_of_skipSpace {s rest : List Char} {c : Char} (h : skipSpace s = c :: rest)
    (hc : isStop c) : ∃ d t, s = d :: t ∧ isStop d := by
  cases s with
  | nil => cases h
  | cons d t =>
      refine ⟨d, t, rfl, ?_⟩
      rw [skipSpace] at h
      split at h
      · rename_i hspace
        simp only [isSpace, decide_eq_true_eq] at hspace
        rcases hspace with rfl | rfl | rfl | rfl <;> decide
      · rwa [(List.cons.inj h).1]

theorem scanAtom_closes (s : List Char) {c : Char} (hc : isStop c) (rest : List Char) :
    scanAtom (s ++ c :: rest) = (scanAtom s).map fun p => (p.1, p.2 ++ c :: rest) := by
  unfold scanAtom
  rw [nullWord.closes s c rest hc, trueWord.closes s c rest hc, falseWord.closes s c rest hc,
    numeral.closes s c rest hc]
  cases nullWord.scan s <;> cases trueWord.scan s <;> cases falseWord.scan s <;>
    cases numeral.scan s <;> rfl

theorem scanAtom_splits {s rest : List Char} {v : Json} (h : scanAtom s = some (v, rest)) :
    ∃ taken, s = taken ++ rest := by
  have hword : ∀ {a : Scanner isStop} {p w : _}, a.scan s = some p →
      some (w, p.2) = some (v, rest) → ∃ taken, s = taken ++ rest := by
    rintro a p w hp h
    obtain ⟨-, rfl⟩ := Prod.mk.injEq .. |>.mp (Option.some.inj h)
    exact ⟨p.1, a.splits _ _ _ hp⟩
  unfold scanAtom at h
  cases hn : nullWord.scan s with
  | some p => exact hword hn (by simpa only [hn] using h)
  | none =>
      cases ht : trueWord.scan s with
      | some p => exact hword ht (by simpa only [hn, ht] using h)
      | none =>
          cases hf : falseWord.scan s with
          | some p => exact hword hf (by simpa only [hn, ht, hf] using h)
          | none =>
              cases hp : numeral.scan s with
              | some p => exact hword hp (by simpa only [hn, ht, hf, hp] using h)
              | none => simp only [hn, ht, hf, hp, reduceCtorEq] at h

theorem scanAtom_more {s rest : List Char} {v : Json} {c : Char}
    (h : scanAtom s = some (v, c :: rest)) (hc : isStop c) (more : List Char) :
    scanAtom (s ++ more) = some (v, c :: rest ++ more) := by
  obtain ⟨taken, rfl⟩ := scanAtom_splits h
  rw [scanAtom_closes taken hc] at h
  obtain ⟨p, hp, h⟩ := Option.map_eq_some_iff.mp h
  obtain ⟨rfl, hrest⟩ := Prod.mk.injEq .. |>.mp h
  have hnil : p.2 = [] := by simpa using hrest
  rw [List.append_assoc, List.cons_append, scanAtom_closes taken hc, hp, Option.map_some, hnil]
  rfl

/-- With recursion depth `n`, what is read in front of a stop character, or up
to the bracket that closes it, is read the same way when more text follows
and the depth is larger. -/
structure MoreText (n : ℕ) : Prop where
  value : ∀ {s rest v c}, scanValue n s = some (v, c :: rest) → isStop c →
    ∀ {m}, n ≤ m → ∀ more, scanValue m (s ++ more) = some (v, c :: rest ++ more)
  items : ∀ {s rest vs}, scanItems n s = some (vs, rest) →
    ∀ {m}, n ≤ m → ∀ more, scanItems m (s ++ more) = some (vs, rest ++ more)
  members : ∀ {s rest ms}, scanMembers n s = some (ms, rest) →
    ∀ {m}, n ≤ m → ∀ more, scanMembers m (s ++ more) = some (ms, rest ++ more)

theorem scanValue_nil (n : ℕ) : scanValue n [] = none := by
  cases n <;> rfl

theorem scanItems_nil (n : ℕ) : scanItems n [] = none := by
  cases n with
  | zero => rfl
  | succ n => rw [scanItems, scanValue_nil]; rfl

theorem scanMembers_nil (n : ℕ) : scanMembers n [] = none := by
  cases n <;> rfl

namespace MoreText

variable {n : ℕ}

theorem array (h : MoreText n) {s rest : List Char} {v : Json}
    (hv : scanValue (n + 1) ('[' :: s) = some (v, rest)) {m : ℕ} (hm : n ≤ m)
    (more : List Char) : scanValue (m + 1) ('[' :: s ++ more) = some (v, rest ++ more) := by
  cases hskip : skipSpace s with
  | nil =>
      simp only [scanValue, hskip, scanItems_nil] at hv
      cases hv
  | cons c t =>
      have hmore := skipSpace_more hskip more
      by_cases hc : c = ']'
      · subst hc
        simp only [scanValue, hskip] at hv
        obtain ⟨rfl, rfl⟩ := Prod.mk.injEq .. |>.mp (Option.some.inj hv)
        simp only [List.cons_append, scanValue, hmore]
      · rw [scanValue_array hskip hc] at hv
        obtain ⟨p, hp, hv⟩ := Option.map_eq_some_iff.mp hv
        obtain ⟨rfl, rfl⟩ := Prod.mk.injEq .. |>.mp hv
        have hitems := h.items hp hm more
        rw [List.cons_append] at hmore hitems ⊢
        rw [scanValue_array hmore hc, hitems]
        rfl

theorem object (h : MoreText n) {s rest : List Char} {v : Json}
    (hv : scanValue (n + 1) ('{' :: s) = some (v, rest)) {m : ℕ} (hm : n ≤ m)
    (more : List Char) : scanValue (m + 1) ('{' :: s ++ more) = some (v, rest ++ more) := by
  cases hskip : skipSpace s with
  | nil =>
      simp only [scanValue, hskip, scanMembers_nil] at hv
      cases hv
  | cons c t =>
      have hmore := skipSpace_more hskip more
      by_cases hc : c = '}'
      · subst hc
        simp only [scanValue, hskip] at hv
        obtain ⟨rfl, rfl⟩ := Prod.mk.injEq .. |>.mp (Option.some.inj hv)
        simp only [List.cons_append, scanValue, hmore]
      · rw [scanValue_object hskip hc] at hv
        obtain ⟨p, hp, hv⟩ := Option.map_eq_some_iff.mp hv
        obtain ⟨rfl, rfl⟩ := Prod.mk.injEq .. |>.mp hv
        have hmembers := h.members hp hm more
        rw [List.cons_append] at hmore hmembers ⊢
        rw [scanValue_object hmore hc, hmembers]
        rfl

theorem value_succ (h : MoreText n) {s rest : List Char} {v : Json} {c : Char}
    (hv : scanValue (n + 1) s = some (v, c :: rest)) (hc : isStop c) {m : ℕ} (hm : n ≤ m)
    (more : List Char) : scanValue (m + 1) (s ++ more) = some (v, c :: rest ++ more) := by
  cases s with
  | nil =>
      rw [scanValue_nil] at hv
      cases hv
  | cons d s =>
      by_cases hd : d ∈ ['"', '[', '{']
      · simp only [List.mem_cons, List.not_mem_nil, or_false] at hd
        rcases hd with rfl | rfl | rfl
        · rw [scanValue] at hv
          obtain ⟨p, hp, hv⟩ := Option.map_eq_some_iff.mp hv
          obtain ⟨rfl, hrest⟩ := Prod.mk.injEq .. |>.mp hv
          rw [List.cons_append, scanValue, scanString_more hp more, hrest]
          rfl
        · exact h.array hv hm more
        · exact h.object hv hm more
      · rw [scanValue_atom hd] at hv
        rw [List.cons_append, scanValue_atom hd, ← List.cons_append, scanAtom_more hv hc]

theorem items_succ (h : MoreText n) {s rest : List Char} {vs : List Json}
    (hvs : scanItems (n + 1) s = some (vs, rest)) {m : ℕ} (hm : n ≤ m)
    (more : List Char) : scanItems (m + 1) (s ++ more) = some (vs, rest ++ more) := by
  rw [scanItems] at hvs ⊢
  obtain ⟨⟨v, rest'⟩, hvalue, hvs⟩ := Option.bind_eq_some_iff.mp hvs
  simp only at hvs
  split at hvs
  · rename_i t hskip
    obtain ⟨rfl, rfl⟩ := Prod.mk.injEq .. |>.mp (Option.some.inj hvs)
    obtain ⟨d, u, rfl, hd⟩ := stop_of_skipSpace hskip (by decide)
    have hmore := skipSpace_more hskip more
    rw [h.value hvalue hd hm more]
    simp only [List.cons_append] at hmore ⊢
    simp only [Option.bind_eq_bind, Option.bind_some, hmore]
  · rename_i t hskip
    obtain ⟨⟨ws, rest''⟩, hitems, hvs⟩ := Option.bind_eq_some_iff.mp hvs
    obtain ⟨rfl, rfl⟩ := Prod.mk.injEq .. |>.mp (Option.some.inj hvs)
    obtain ⟨d, u, rfl, hd⟩ := stop_of_skipSpace hskip (by decide)
    have hmore := skipSpace_more hskip more
    rw [h.value hvalue hd hm more]
    cases hnext : skipSpace t with
    | nil =>
        rw [hnext, scanItems_nil] at hitems
        cases hitems
    | cons c t' =>
        rw [hnext] at hitems
        have hitems := h.items hitems hm more
        have hnext := skipSpace_more hnext more
        simp only [List.cons_append] at hmore hnext hitems ⊢
        simp only [Option.bind_eq_bind, Option.bind_some, hmore, hnext, hitems]
  · cases hvs

theorem members_succ (h : MoreText n) {s rest : List Char} {ms : List (String × Json)}
    (hms : scanMembers (n + 1) s = some (ms, rest)) {m : ℕ} (hm : n ≤ m)
    (more : List Char) : scanMembers (m + 1) (s ++ more) = some (ms, rest ++ more) := by
  rcases s with - | ⟨c, s⟩
  · rw [scanMembers_nil] at hms
    cases hms
  by_cases hc : c = '"'
  swap
  · rw [scanMembers] at hms
    · cases hms
    · exact fun n' s' _ heq => hc (List.cons.inj heq).1
  subst hc
  rw [scanMembers] at hms
  rw [List.cons_append, scanMembers]
  obtain ⟨⟨key, rest₁⟩, hkey, hms⟩ := Option.bind_eq_some_iff.mp hms
  rw [scanString_more hkey more]
  simp only at hms
  split at hms
  · rename_i t hcolon
    have hcolon := skipSpace_more hcolon more
    obtain ⟨⟨v, rest₂⟩, hvalue, hms⟩ := Option.bind_eq_some_iff.mp hms
    simp only at hms
    cases hskip : skipSpace t with
    | nil =>
        rw [hskip, scanValue_nil] at hvalue
        cases hvalue
    | cons c t' =>
        rw [hskip] at hvalue
        have hskip := skipSpace_more hskip more
        split at hms
        · rename_i u hclose
          obtain ⟨rfl, rfl⟩ := Prod.mk.injEq .. |>.mp (Option.some.inj hms)
          obtain ⟨d, w, rfl, hd⟩ := stop_of_skipSpace hclose (by decide)
          have hvalue := h.value hvalue hd hm more
          have hclose := skipSpace_more hclose more
          simp only [List.cons_append] at hcolon hskip hvalue hclose ⊢
          simp only [Option.bind_eq_bind, Option.bind_some, hcolon, hskip, hvalue, hclose]
        · rename_i u hcomma
          obtain ⟨⟨ms', rest₃⟩, hmembers, hms⟩ := Option.bind_eq_some_iff.mp hms
          obtain ⟨rfl, rfl⟩ := Prod.mk.injEq .. |>.mp (Option.some.inj hms)
          obtain ⟨d, w, rfl, hd⟩ := stop_of_skipSpace hcomma (by decide)
          have hvalue := h.value hvalue hd hm more
          have hcomma := skipSpace_more hcomma more
          cases hnext : skipSpace u with
          | nil =>
              rw [hnext, scanMembers_nil] at hmembers
              cases hmembers
          | cons e u' =>
              rw [hnext] at hmembers
              have hmembers := h.members hmembers hm more
              have hnext := skipSpace_more hnext more
              simp only [List.cons_append] at hcolon hskip hvalue hcomma hnext hmembers ⊢
              simp only [Option.bind_eq_bind, Option.bind_some, hcolon, hskip, hvalue, hcomma,
                hnext, hmembers]
        · cases hms
  · cases hms

end MoreText

theorem moreText (n : ℕ) : MoreText n := by
  induction n with
  | zero =>
      refine ⟨fun h => ?_, fun h => ?_, fun h => ?_⟩
      · rw [scanValue] at h
        cases h
      · rw [scanItems] at h
        cases h
      · rw [scanMembers] at h
        · cases h
        · exact fun n s h => by cases h
  | succ n ih =>
      refine ⟨fun {s rest v c} h hc m hm more => ?_, fun {s rest vs} h m hm more => ?_,
        fun {s rest ms} h m hm more => ?_⟩ <;> obtain - | m := m
      · omega
      · exact ih.value_succ h hc (by omega) more
      · omega
      · exact ih.items_succ h (by omega) more
      · omega
      · exact ih.members_succ h (by omega) more

theorem dumps_object (indent : Option ℕ) (ms : List (String × Json)) :
    ∃ s, dumps indent (.object ms) = '{' :: s := by
  rcases ms with - | ⟨⟨key, v⟩, ms⟩
  · exact ⟨['}'], by rw [dumps, dump]⟩
  · exact ⟨_, by rw [dumps, dump, List.cons_append, List.cons_append, List.cons_append]⟩

/-- A written object that was cut short does not read. -/
theorem loads_cut (indent : Option ℕ) {ms : List (String × Json)} {cut : List Char}
    (hms : WellFormedMembers ms) (hcut : cut <+: dumps indent (.object ms))
    (hne : cut ≠ dumps indent (.object ms)) : loads cut = none := by
  obtain ⟨more, hmore⟩ := hcut
  obtain ⟨s, hs⟩ := dumps_object indent ms
  rcases cut with - | ⟨c, cut⟩
  · rfl
  rw [hs, List.cons_append] at hmore
  obtain ⟨rfl, hrest⟩ := List.cons.inj hmore
  have hwhole : scanValue (('{' :: s).length + 1) ('{' :: s) = some (.object ms, []) := by
    have hwf : (Json.object ms).WellFormed := by rwa [WellFormed]
    have hsize := size_le_dump indent 0 hwf
    have hscan := scanValue_dump indent (('{' :: s).length + 1) 0 (.object ms) [] hwf
    rw [← dumps, hs] at hsize hscan
    rw [List.append_nil] at hscan
    exact hscan (by omega) fun c t h => by cases h
  have hskip : skipSpace ('{' :: cut) = '{' :: cut := rfl
  rw [loads, hskip]
  cases hscan : scanValue (('{' :: cut).length + 1) ('{' :: cut) with
  | none => rfl
  | some p =>
      -- The object that was read would end at the same place in the whole text.
      exfalso
      obtain ⟨v, rest⟩ := p
      have hlen : ('{' :: cut).length ≤ ('{' :: s).length := by
        rw [← hrest]
        simp only [List.length_cons, List.length_append]
        omega
      have hmore := (moreText _).object hscan hlen more
      rw [List.cons_append, hrest, hwhole] at hmore
      obtain ⟨-, hnil⟩ := Prod.mk.injEq .. |>.mp (Option.some.inj hmore)
      have hnil := (List.append_eq_nil_iff.mp hnil.symm).2
      rw [hnil, List.append_nil] at hrest
      exact hne (by rw [hs, hrest])

/-! ## Line ends

Of the line ends only `'\n'` is written, so reading a text in text mode
leaves it as it is. -/

theorem return_hexDigit : ∀ d < 16, '\r' ≠ hexDigit d := by decide

theorem return_escapeUnit (n : ℕ) : '\r' ∉ escapeUnit n := by
  have hdigit : ∀ m : ℕ, '\r' ≠ hexDigit (m % 16) := fun m =>
    return_hexDigit _ (Nat.mod_lt _ (by decide))
  simp [escapeUnit, hdigit]

theorem return_escapeChar (c : Char) : '\r' ∉ escapeChar c := by
  unfold escapeChar
  repeat' split
  any_goals decide
  · rename_i hreturn _ _ _ _
    intro h
    exact hreturn (List.mem_singleton.mp h).symm
  · exact return_escapeUnit _
  · intro h
    rcases List.mem_append.mp h with h | h
    · exact return_escapeUnit _ h
    · exact return_escapeUnit _ h

theorem return_escape (s : List Char) : '\r' ∉ escape s := by
  intro h
  rcases List.mem_append.mp h with h | h
  · obtain ⟨c, -, hc⟩ := List.mem_flatMap.mp h
    exact return_escapeChar c hc
  · exact absurd h (by decide)

theorem return_gap (indent : Option ℕ) (level : ℕ) : '\r' ∉ gap indent level := by
  unfold gap
  split <;> simp

theorem return_separator (indent : Option ℕ) (level : ℕ) : '\r' ∉ itemSeparator indent level := by
  unfold itemSeparator
  split
  · decide
  · simp [return_gap]

theorem return_keyText (key : String) : '\r' ∉ keyText key := by
  simp [keyText, return_escape]

mutual

theorem return_dump (indent : Option ℕ) : ∀ (level : ℕ) {v : Json}, v.WellFormed →
    '\r' ∉ dump indent level v
  | _, .null, _ => by simp [dump]
  | _, .bool true, _ => by simp [dump]
  | _, .bool false, _ => by simp [dump]
  | _, .number text, h => by
      rw [WellFormed] at h
      rw [dump]
      exact numeral.unstopped h (by decide)
  | _, .string s, _ => by simp [dump, return_escape]
  | _, .array [], _ => by simp [dump]
  | level, .array (v :: vs), h => by
      rw [WellFormed, WellFormedItems] at h
      have hv := return_dump indent (level + 1) h.1
      have hvs := return_dumpItems indent level h.2
      simp [dump, return_gap, hv, hvs]
  | _, .object [], _ => by simp [dump]
  | level, .object ((key, v) :: ms), h => by
      rw [WellFormed, WellFormedMembers] at h
      have hv := return_dump indent (level + 1) h.1
      have hms := return_dumpMembers indent level h.2
      simp [dump, return_gap, return_keyText, hv, hms]

theorem return_dumpItems (indent : Option ℕ) : ∀ (level : ℕ) {vs : List Json},
    WellFormedItems vs → '\r' ∉ dumpItems indent level vs
  | _, [], _ => by simp [dumpItems, return_gap]
  | level, v :: vs, h => by
      rw [WellFormedItems] at h
      have hv := return_dump indent (level + 1) h.1
      have hvs := return_dumpItems indent level h.2
      simp [dumpItems, return_separator, hv, hvs]

theorem return_dumpMembers (indent : Option ℕ) : ∀ (level : ℕ) {ms : List (String × Json)},
    WellFormedMembers ms → '\r' ∉ dumpMembers indent level ms
  | _, [], _ => by simp [dumpMembers, return_gap]
  | level, (key, v) :: ms, h => by
      rw [WellFormedMembers] at h
      have hv := return_dump indent (level + 1) h.1
      have hms := return_dumpMembers indent level h.2
      simp [dumpMembers, return_separator, return_keyText, hv, hms]

end

theorem return_dumps (indent : Option ℕ) {v : Json} (h : v.WellFormed) : '\r' ∉ dumps indent v :=
  return_dump indent 0 h

end Json

end AgentBenchX
