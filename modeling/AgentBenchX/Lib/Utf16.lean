import AgentBenchX.Lib.Utf8

/-!
# Decoding UTF-16

Two bytes make a unit, in either order, and a unit is a character or half
of one. What a text is encoded to decodes to it (`decode_encode`). Text of
plain characters looks like noise to a reader of single bytes: no two
bytes in a row are printable ASCII (`separated_encode`).
-/

namespace AgentBenchX

namespace Utf16

inductive ByteOrder where
  | little | big
deriving DecidableEq, Repr

/-- The unit of two bytes. -/
def unit : ByteOrder → UInt8 → UInt8 → ℕ
  | .little, x, y => x.toNat + 256 * y.toNat
  | .big, x, y => 256 * x.toNat + y.toNat

def units (order : ByteOrder) : Bytes → Option (List ℕ)
  | [] => some []
  | [_] => none
  | x :: y :: rest => (units order rest).map (unit order x y :: ·)

/-- The characters of the units that follow the first half of a pair, if there is one. -/
def chars : Option ℕ → List ℕ → Option (List Char)
  | none, [] => some []
  | some _, [] => none
  | none, u :: rest =>
      if u < 55296 ∨ 57343 < u then (chars none rest).map (Char.ofNat u :: ·)
      else if u < 56320 then chars (some u) rest
      else none
  | some u, v :: rest =>
      if 56320 ≤ v ∧ v ≤ 57343 then
        (chars none rest).map (Char.ofNat (65536 + (u - 55296) * 1024 + (v - 56320)) :: ·)
      else none

def decode (order : ByteOrder) (b : Bytes) : Option String :=
  ((units order b).bind (chars none)).map String.ofList

/-! ## Encoding -/

def bytes : ByteOrder → ℕ → Bytes
  | .little, u => [UInt8.ofNat (u % 256), UInt8.ofNat (u / 256)]
  | .big, u => [UInt8.ofNat (u / 256), UInt8.ofNat (u % 256)]

def unitsOf (c : Char) : List ℕ :=
  let n := c.toNat
  if n < 65536 then [n] else [55296 + (n - 65536) / 1024, 56320 + (n - 65536) % 1024]

/-- `text.encode("utf-16-le")`, or `"utf-16-be"`. -/
def encode (order : ByteOrder) (cs : List Char) : Bytes :=
  (cs.flatMap unitsOf).flatMap (bytes order)

variable {order : ByteOrder}

theorem unitsOf_lt (c : Char) : ∀ u ∈ unitsOf c, u < 65536 := by
  have hvalid := Utf8.toNat_valid c
  intro u hu
  unfold unitsOf at hu
  dsimp only at hu
  split_ifs at hu with hn
  · rw [List.mem_singleton.mp hu]
    exact hn
  · rw [List.mem_cons, List.mem_singleton] at hu
    omega

theorem unit_bytes {u : ℕ} (h : u < 65536) (rest : Bytes) :
    units order (bytes order u ++ rest) = (units order rest).map (u :: ·) := by
  have hlow := Utf8.toNat_ofNat_byte (show u % 256 < 256 by omega)
  have hhigh := Utf8.toNat_ofNat_byte (show u / 256 < 256 by omega)
  cases order with
  | little =>
      have hunit : unit .little (UInt8.ofNat (u % 256)) (UInt8.ofNat (u / 256)) = u := by
        rw [unit, hlow, hhigh]
        omega
      rw [bytes, List.cons_append, List.singleton_append, units, hunit]
  | big =>
      have hunit : unit .big (UInt8.ofNat (u / 256)) (UInt8.ofNat (u % 256)) = u := by
        rw [unit, hlow, hhigh]
        omega
      rw [bytes, List.cons_append, List.singleton_append, units, hunit]

theorem units_bytes {us : List ℕ} (h : ∀ u ∈ us, u < 65536) :
    units order (us.flatMap (bytes order)) = some us := by
  induction us with
  | nil => rfl
  | cons u us ih =>
      obtain ⟨hu, hus⟩ := List.forall_mem_cons.mp h
      rw [List.flatMap_cons, unit_bytes hu, ih hus]
      rfl

theorem chars_unitsOf (c : Char) (rest : List ℕ) :
    chars none (unitsOf c ++ rest) = (chars none rest).map (c :: ·) := by
  have hvalid := Utf8.toNat_valid c
  have hchar : Char.ofNat c.toNat = c := Char.ofNat_toNat c
  unfold unitsOf
  dsimp only
  generalize c.toNat = n at hvalid hchar
  split_ifs with hn
  · rw [List.singleton_append, chars, if_pos (by omega), hchar]
  · have hvalue : 65536 + (55296 + (n - 65536) / 1024 - 55296) * 1024
        + (56320 + (n - 65536) % 1024 - 56320) = n := by omega
    rw [List.cons_append, List.singleton_append, chars, if_neg (by omega), if_pos (by omega),
      chars, if_pos (by omega), hvalue, hchar]

theorem chars_flatMap (cs : List Char) : chars none (cs.flatMap unitsOf) = some cs := by
  induction cs with
  | nil => rfl
  | cons c cs ih =>
      rw [List.flatMap_cons, chars_unitsOf, ih]
      rfl

/-- **Round trip.** -/
theorem decode_encode (order : ByteOrder) (cs : List Char) :
    decode order (encode order cs) = some (String.ofList cs) := by
  have hunits : ∀ u ∈ cs.flatMap unitsOf, u < 65536 := by
    intro u hu
    obtain ⟨c, -, hc⟩ := List.mem_flatMap.mp hu
    exact unitsOf_lt c u hc
  rw [decode, encode, units_bytes hunits, Option.bind_some, chars_flatMap]
  rfl

/-! ## Decoding is injective -/

theorem bytes_unit (order : ByteOrder) (x y : UInt8) : bytes order (unit order x y) = [x, y] := by
  have hx := x.toNat_lt
  have hy := y.toNat_lt
  cases order with
  | little =>
      rw [bytes, unit, show (x.toNat + 256 * y.toNat) % 256 = x.toNat by omega,
        show (x.toNat + 256 * y.toNat) / 256 = y.toNat by omega, UInt8.ofNat_toNat,
        UInt8.ofNat_toNat]
  | big =>
      rw [bytes, unit, show (256 * x.toNat + y.toNat) % 256 = y.toNat by omega,
        show (256 * x.toNat + y.toNat) / 256 = x.toNat by omega, UInt8.ofNat_toNat,
        UInt8.ofNat_toNat]

theorem unit_lt (order : ByteOrder) (x y : UInt8) : unit order x y < 65536 := by
  have hx := x.toNat_lt
  have hy := y.toNat_lt
  cases order <;> rw [unit] <;> omega

theorem units_ok : ∀ {b : Bytes} {us : List ℕ}, units order b = some us →
    us.flatMap (bytes order) = b ∧ ∀ u ∈ us, u < 65536
  | [], us, h => by
      obtain rfl : [] = us := Option.some.inj h
      exact ⟨rfl, nofun⟩
  | [_], us, h => by cases h
  | x :: y :: rest, us, h => by
      obtain ⟨us, hus, rfl⟩ := Option.map_eq_some_iff.mp h
      obtain ⟨hrest, hlt⟩ := units_ok hus
      refine ⟨?_, List.forall_mem_cons.mpr ⟨unit_lt order x y, hlt⟩⟩
      rw [List.flatMap_cons, hrest, bytes_unit]
      rfl

theorem chars_ok {half : Option ℕ} {us : List ℕ} {cs : List Char}
    (hhalf : ∀ u ∈ half, 55296 ≤ u ∧ u < 56320) (hlt : ∀ u ∈ us, u < 65536)
    (h : chars half us = some cs) : cs.flatMap unitsOf = half.toList ++ us := by
  induction us generalizing half cs with
  | nil =>
      cases half with
      | none =>
          obtain rfl : [] = cs := Option.some.inj h
          rfl
      | some u => cases h
  | cons v us ih =>
      obtain ⟨hv, hus⟩ := List.forall_mem_cons.mp hlt
      cases half with
      | none =>
          rw [chars] at h
          split_ifs at h with hsingle hfirst
          · obtain ⟨cs, hcs, rfl⟩ := Option.map_eq_some_iff.mp h
            have hunits : unitsOf (Char.ofNat v) = [v] := by
              rw [unitsOf, Utf8.toNat_ofNat (by omega), if_pos hv]
            rw [List.flatMap_cons, hunits, ih (by simp) hus hcs]
            rfl
          · exact ih (by simp; omega) hus h
      | some u =>
          obtain ⟨hlow, hhigh⟩ := hhalf u rfl
          rw [chars] at h
          split_ifs at h with hsecond
          obtain ⟨cs, hcs, rfl⟩ := Option.map_eq_some_iff.mp h
          have hunits : unitsOf (Char.ofNat (65536 + (u - 55296) * 1024 + (v - 56320)))
              = [u, v] := by
            rw [unitsOf, Utf8.toNat_ofNat (by omega), if_neg (by omega),
              show 55296 + (65536 + (u - 55296) * 1024 + (v - 56320) - 65536) / 1024 = u by omega,
              show 56320 + (65536 + (u - 55296) * 1024 + (v - 56320) - 65536) % 1024 = v by omega]
          rw [List.flatMap_cons, hunits, ih (by simp) hus hcs]
          rfl

/-- What decodes to a text is the text, encoded. -/
theorem encode_decode {b : Bytes} {s : String} (h : decode order b = some s) :
    encode order s.toList = b := by
  obtain ⟨cs, hcs, rfl⟩ := Option.map_eq_some_iff.mp h
  obtain ⟨us, hus, hcs⟩ := Option.bind_eq_some_iff.mp hcs
  obtain ⟨hb, hlt⟩ := units_ok hus
  rw [String.toList_ofList, encode, chars_ok (by simp) hlt hcs, Option.toList_none,
    List.nil_append, hb]

/-! ## Reading single bytes -/

/-- A printable character of ASCII other than a blank. -/
def IsGraphic (b : UInt8) : Prop := 33 ≤ b.toNat ∧ b.toNat < 127

instance : DecidablePred IsGraphic := fun _ => inferInstanceAs (Decidable (_ ∧ _))

/-- No two in a row. -/
def Separated (b : Bytes) : Prop := b.IsChain fun x y => ¬(IsGraphic x ∧ IsGraphic y)

theorem unitsOf_plain {c : Char} (h : c.toNat < 8448) : unitsOf c = [c.toNat] := by
  rw [unitsOf, if_pos (by omega)]

/-- In text without characters from U+2100 on, every other byte is below the
printable ones. -/
theorem separated_encode {cs : List Char} (h : ∀ c ∈ cs, c.toNat < 8448) {x : UInt8}
    (hx : order = .little → ¬IsGraphic x) : Separated (x :: encode order cs) := by
  have hhigh : ∀ c : Char, c.toNat < 8448 → ¬IsGraphic (UInt8.ofNat (c.toNat / 256)) := by
    intro c hc hgraphic
    rw [IsGraphic, Utf8.toNat_ofNat_byte (by omega)] at hgraphic
    omega
  induction cs generalizing x with
  | nil => exact .singleton x
  | cons c cs ih =>
      obtain ⟨hc, hcs⟩ := List.forall_mem_cons.mp h
      rw [encode, List.flatMap_cons, unitsOf_plain hc, List.singleton_append, List.flatMap_cons]
      cases order with
      | little =>
          exact .cons_cons (fun hboth => hx rfl hboth.1)
            (.cons_cons (fun hboth => hhigh c hc hboth.2) (ih hcs fun _ => hhigh c hc))
      | big =>
          exact .cons_cons (fun hboth => hhigh c hc hboth.2)
            (.cons_cons (fun hboth => hhigh c hc hboth.1) (ih hcs fun h => (by cases h)))

end Utf16

end AgentBenchX
