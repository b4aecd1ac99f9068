import AgentBenchX.Lib.Url
import AgentBenchX.Lib.Utf16
import AgentBenchX.Plain

/-!
# Documents with a DTD

`parse_junit` looks for declarations in the bytes, the parser in the text
they stand for. In UTF-8 that is the same, since the bytes of a declaration
are its characters (`marked_of_declares`). In UTF-16 a declaration is seen
only by accident, and never in text of plain characters
(`unmarked_utf16`). So `parse_junit` refuses the documents with a DTD
exactly if they are not announced as UTF-16 (`doctype_refused_iff`).
-/

namespace AgentBenchX

/-! ## The text of a document -/

namespace Xml

inductive Encoding where
  | utf8
  | utf16 (order : Utf16.ByteOrder)
deriving DecidableEq

/-- The encoding the first bytes announce, and the bytes after the mark. -/
def encoding (data : Bytes) : Encoding × Bytes :=
  if [0xFF, 0xFE] <+: data then (.utf16 .little, data.drop 2)
  else if [0xFE, 0xFF] <+: data then (.utf16 .big, data.drop 2)
  else if [0xEF, 0xBB, 0xBF] <+: data then (.utf8, data.drop 3)
  else (.utf8, data)

def decode (data : Bytes) : Option String :=
  match encoding data with
  | (.utf8, body) => Utf8.decode body
  | (.utf16 order, body) => Utf16.decode order body

/-- There is a DOCTYPE or ENTITY declaration, in any letter case. -/
def Declares (text : String) : Prop :=
  ∃ word ∈ ["<!DOCTYPE", "<!ENTITY"], word.toList <:+: text.toList.map Char.toUpper

/-- A mark of UTF-16 stands in front. -/
def IsUtf16 (data : Bytes) : Prop := [0xFF, 0xFE] <+: data ∨ [0xFE, 0xFF] <+: data

instance (data : Bytes) : Decidable (IsUtf16 data) := inferInstanceAs (Decidable (_ ∨ _))

theorem encoding_utf8 {data : Bytes} (h : ¬IsUtf16 data) :
    ∃ body, encoding data = (.utf8, body) ∧ body <:+ data := by
  unfold encoding
  rw [if_neg fun hlittle => h (Or.inl hlittle), if_neg fun hbig => h (Or.inr hbig)]
  split
  · exact ⟨_, rfl, List.drop_suffix 3 data⟩
  · exact ⟨_, rfl, List.suffix_refl data⟩

end Xml

/-! ## What the guard sees -/

/-- The bytes of a declaration, in any letter case. -/
def Marked (data : Bytes) : Prop :=
  ∃ word ∈ ["<!DOCTYPE", "<!ENTITY"], ascii word <:+: upper data

theorem Marked.mono {data data' : Bytes} (hdata : data <:+: data') (h : Marked data) :
    Marked data' := by
  obtain ⟨word, hword, hinfix⟩ := h
  exact ⟨word, hword, hinfix.trans (hdata.map _)⟩

theorem upper_append (a b : Bytes) : upper (a ++ b) = upper a ++ upper b := List.map_append

/-- A character with an upper case in ASCII is a single byte. -/
theorem upper_encodeChar {c : Char} (h : c.toUpper.toNat < 128) :
    upper (Utf8.encodeChar c) = [UInt8.ofNat c.toUpper.toNat] := by
  have hall : ∀ n < 128, upper [UInt8.ofNat n] = [UInt8.ofNat (Char.ofNat n).toUpper.toNat] := by
    decide +kernel
  have hascii : c.toNat < 128 := by
    by_contra hlarge
    have hsame : c.toUpper = c := by
      refine dif_neg fun hletter => hlarge ?_
      exact (UInt32.le_iff_toNat_le.mp hletter.2).trans_lt (by decide)
    exact hlarge (hsame ▸ h)
  rw [Utf8.encodeChar, if_pos hascii, hall _ hascii, Char.ofNat_toNat]

theorem upper_encode {cs : List Char} (h : ∀ c ∈ cs, c.toUpper.toNat < 128) :
    upper (Utf8.encode cs) = (cs.map Char.toUpper).map fun c => UInt8.ofNat c.toNat := by
  induction cs with
  | nil => rfl
  | cons c cs ih =>
      obtain ⟨hc, hcs⟩ := List.forall_mem_cons.mp h
      rw [Utf8.encode, List.flatMap_cons, ← Utf8.encode, upper_append, upper_encodeChar hc, ih hcs]
      rfl

/-- **In UTF-8 the guard sees every declaration.** -/
theorem marked_of_declares {body : Bytes} {text : String} (htext : Utf8.decode body = some text)
    (h : Xml.Declares text) : Marked body := by
  have hall : ∀ word ∈ ["<!DOCTYPE", "<!ENTITY"], ∀ c ∈ word.toList, c.toNat < 128 := by
    intro word hword
    rcases List.mem_pair.mp hword with rfl | rfl <;> exact forall_of_text (by decide)
  obtain ⟨word, hword, before, after, hinfix⟩ := h
  obtain ⟨front, back, hsplit, hfront, -⟩ := List.map_eq_append_iff.mp hinfix.symm
  obtain ⟨start, middle, rfl, -, hmiddle⟩ := List.map_eq_append_iff.mp hfront
  have hascii : ∀ c ∈ middle, c.toUpper.toNat < 128 := fun c hc =>
    hall word hword _ (hmiddle ▸ List.mem_map_of_mem hc)
  refine ⟨word, hword, upper (Utf8.encode start), upper (Utf8.encode back), ?_⟩
  rw [← Utf8.encode_decode htext, hsplit, Utf8.encode_append, Utf8.encode_append, upper_append,
    upper_append, upper_encode hascii, hmiddle]
  rfl

/-- A declaration has two printable bytes in a row. -/
theorem unmarked_of_separated {data : Bytes} (h : Utf16.Separated data) : ¬Marked data := by
  have hgraphic : ∀ x : UInt8, Utf16.IsGraphic (if 97 ≤ x ∧ x ≤ 122 then x - 32 else x) →
      Utf16.IsGraphic x := by
    have hall : ∀ n < 256, Utf16.IsGraphic (if 97 ≤ UInt8.ofNat n ∧ UInt8.ofNat n ≤ 122
        then UInt8.ofNat n - 32 else UInt8.ofNat n) → Utf16.IsGraphic (UInt8.ofNat n) := by
      decide +kernel
    intro x
    have hx := hall x.toNat x.toNat_lt
    rwa [UInt8.ofNat_toNat] at hx
  have hupper : (upper data).IsChain fun x y => ¬(Utf16.IsGraphic x ∧ Utf16.IsGraphic y) :=
    List.isChain_map _ |>.mpr (h.imp fun x y hxy hboth =>
      hxy ⟨hgraphic x hboth.1, hgraphic y hboth.2⟩)
  have hwords : ∀ word ∈ ["<!DOCTYPE", "<!ENTITY"], ∃ rest,
      ascii word = 60 :: 33 :: rest := by
    intro word hword
    rcases List.mem_pair.mp hword with rfl | rfl <;> exact ⟨_, rfl⟩
  rintro ⟨word, hword, hinfix⟩
  obtain ⟨rest, hrest⟩ := hwords word hword
  have hchain := hupper.infix hinfix
  rw [hrest] at hchain
  exact (List.isChain_cons_cons.mp hchain).1 (by decide)

/-- **In UTF-16 the guard sees no declaration among plain characters.** -/
theorem unmarked_utf16 {text : List Char} (h : ∀ c ∈ text, c.toNat < 8448) :
    ¬Marked ([0xFF, 0xFE] ++ Utf16.encode .little text)
      ∧ ¬Marked ([0xFE, 0xFF] ++ Utf16.encode .big text) := by
  refine ⟨unmarked_of_separated ?_, unmarked_of_separated ?_⟩
  · exact .cons_cons (by decide) (Utf16.separated_encode h fun _ => by decide)
  · exact .cons_cons (by decide) (Utf16.separated_encode h fun _ => by decide)

/-! ## The refusal -/

/-- `parse_junit` raises before the parser, whichever it is, has run. -/
def Unparsed (data : Bytes) : Prop :=
  ∀ lib, parseJunit lib data = valueError "Missing, oversized or unsafe JUnit XML"

theorem parseJunit_unguarded {lib : Libraries} {data : Bytes} (hne : data ≠ [])
    (hsize : data.length ≤ 5000000) (hmarked : ¬Marked data) : parseJunit lib data = (do
      let root ← lib.fromstring data
      let tests ← (root.iter "testcase").mapM (parseCase lib)
      if tests = [] ∨ 10000 < tests.length then
        valueError "Verifier did not provide a supported set of JUnit test cases"
      else return tests) := by
  refine if_neg ?_
  rintro (h | h | h | h)
  · exact hne h
  · omega
  · exact hmarked ⟨_, List.mem_cons_self .., h⟩
  · exact hmarked ⟨_, List.mem_pair.mpr (Or.inr rfl), h⟩

theorem unparsed_iff {data : Bytes} :
    Unparsed data ↔ data = [] ∨ 5000000 < data.length ∨ Marked data := by
  constructor
  · intro h
    by_contra hnot
    obtain ⟨hne, hsize, hmarked⟩ := by simpa only [not_or] using hnot
    have hparsed := h (.plain (.error (.raised .parseError "syntax error")) (.ok 0))
    rw [parseJunit_unguarded hne (not_lt.mp hsize) hmarked] at hparsed
    cases hparsed
  · rintro h lib
    refine if_pos ?_
    rcases h with h | h | ⟨word, hword, h⟩
    · exact Or.inl h
    · exact Or.inr (Or.inl h)
    · rcases List.mem_pair.mp hword with rfl | rfl
      · exact Or.inr (Or.inr (Or.inl h))
      · exact Or.inr (Or.inr (Or.inr h))

/-- What is announced as UTF-16 is its text, encoded. -/
theorem unmarked_of_plain {data : Bytes} {text : String} (htext : Xml.decode data = some text)
    (h : Xml.IsUtf16 data) (hplain : ∀ c ∈ text.toList, c.toNat < 8448) : ¬Marked data := by
  by_cases hlittle : [0xFF, 0xFE] <+: data
  · obtain ⟨body, rfl⟩ := hlittle
    have hencoding : Xml.encoding ([0xFF, 0xFE] ++ body) = (.utf16 .little, body) :=
      if_pos (List.prefix_append _ _)
    rw [Xml.decode, hencoding] at htext
    rw [← Utf16.encode_decode htext]
    exact (unmarked_utf16 hplain).1
  · obtain ⟨body, rfl⟩ := h.resolve_left hlittle
    have hencoding : Xml.encoding ([0xFE, 0xFF] ++ body) = (.utf16 .big, body) :=
      (if_neg hlittle).trans (if_pos (List.prefix_append _ _))
    rw [Xml.decode, hencoding] at htext
    rw [← Utf16.encode_decode htext]
    exact (unmarked_utf16 hplain).2

/-- **Documents with a DTD.** `parse_junit` refuses a document that declares one
exactly if it is not announced as UTF-16, unless it is too large or the
bytes of its characters look like a declaration; those below U+2100 never
do. -/
theorem doctype_refused_iff {data : Bytes} {text : String}
    (htext : Xml.decode data = some text) (hdeclares : Xml.Declares text) :
    (Unparsed data ↔ ¬Xml.IsUtf16 data ∨ 5000000 < data.length ∨ Marked data)
      ∧ ((∀ c ∈ text.toList, c.toNat < 8448) →
        (Unparsed data ↔ ¬Xml.IsUtf16 data ∨ 5000000 < data.length)) := by
  have hiff : Unparsed data ↔ ¬Xml.IsUtf16 data ∨ 5000000 < data.length ∨ Marked data := by
    rw [unparsed_iff]
    constructor
    · rintro (rfl | h)
      · exact Or.inl (by decide)
      · exact Or.inr h
    · rintro (h | h)
      · obtain ⟨body, hencoding, hbody⟩ := Xml.encoding_utf8 h
        rw [Xml.decode, hencoding] at htext
        exact Or.inr (Or.inr ((marked_of_declares htext hdeclares).mono hbody.isInfix))
      · exact Or.inr h
  refine ⟨hiff, fun hplain => hiff.trans ?_⟩
  by_cases hutf16 : Xml.IsUtf16 data
  · rw [or_iff_left (unmarked_of_plain htext hutf16 hplain)]
  · exact iff_of_true (Or.inl hutf16) (Or.inl hutf16)

/-! ### A document in UTF-16 -/

namespace Sample

def document : String :=
  "<!DOCTYPE s [<!ENTITY x \"a\">]><s><testcase name=\"&x;\"/></s>"

def declared : Bytes := [0xFF, 0xFE] ++ Utf16.encode .little document.toList

/-- A parser that reads the document. -/
def expat : Libraries :=
  .plain (.ok (.node "s" [] none [.node "testcase" [("name", "a")] none []])) (.ok 0)

theorem document_declares : Xml.Declares document :=
  ⟨"<!DOCTYPE", by decide, by decide +kernel⟩

theorem declared_text : Xml.decode declared = some document := by
  rw [Xml.decode, show Xml.encoding declared =
    (.utf16 .little, Utf16.encode .little document.toList)
    from by rfl]
  exact (Utf16.decode_encode _ _).trans (by rw [String.ofList_toList])

theorem plain_declared : Xml.decode (ascii document) = some document := by
  rw [Xml.decode, show Xml.encoding (ascii document) = (.utf8, ascii document) from by rfl]
  exact (Utf8.decode_ascii (forall_of_text (by decide))).trans (by rw [String.ofList_toList])

end Sample

theorem doctype_refused_declared : Unparsed (ascii Sample.document) ∧ ¬Unparsed Sample.declared :=
  ⟨((doctype_refused_iff Sample.plain_declared Sample.document_declares).1).mpr
      (Or.inl (by decide)),
    fun h => absurd (((doctype_refused_iff Sample.declared_text Sample.document_declares).2
      (forall_of_text (by decide))).mp h) (by decide +kernel)⟩

/-- A document with a DTD that is parsed. -/
theorem doctype_parsed : ∃ data text lib tests, Xml.decode data = some text ∧ Xml.Declares text
    ∧ lib.fromstring data = .ok (.node "s" [] none [.node "testcase" [("name", "a")] none []])
    ∧ parseJunit lib data = .ok tests ∧ ¬Unparsed data := by
  have hparsed : parseJunit Sample.expat Sample.declared
      = .ok [⟨"::a", .passed, 0, ""⟩] := by
    decide +kernel
  refine ⟨_, _, _, _, Sample.declared_text, Sample.document_declares, by rfl, hparsed, fun h => ?_⟩
  rw [h Sample.expat] at hparsed
  cases hparsed

end AgentBenchX
