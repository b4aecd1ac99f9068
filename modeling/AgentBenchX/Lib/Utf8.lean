import Mathlib.Data.List.Basic

/-!
# Decoding UTF-8

One scan of the bytes yields the decoded characters, with `none` for each
maximal piece that is not well formed. The strict decoder refuses such
pieces, the lenient one puts U+FFFD in their place. Either way a text has
at most as many characters as bytes were read, and the bytes a text is
encoded to decode to it (`decode_encode`).
-/

namespace AgentBenchX

abbrev Bytes := List UInt8

namespace Utf8

/-- The bytes a sequence that was started still needs. -/
structure Pending where
  /-- Continuation bytes after the next one. -/
  more : ℕ
  /-- The range of the next byte. -/
  low : ℕ
  high : ℕ
  /-- The bits read so far. -/
  value : ℕ

/-- What a first byte says about its sequence. -/
inductive Lead where
  | char (c : Char)
  | sequence (p : Pending)
  | malformed

def lead (b : UInt8) : Lead :=
  let n := b.toNat
  if n < 128 then .char (Char.ofNat n)
  else if n < 194 then .malformed
  else if n < 224 then .sequence ⟨0, 128, 191, n - 192⟩
  -- Longer encodings of short code points, and of surrogates, are excluded.
  else if n = 224 then .sequence ⟨1, 160, 191, 0⟩
  else if n = 237 then .sequence ⟨1, 128, 159, 13⟩
  else if n < 240 then .sequence ⟨1, 128, 191, n - 224⟩
  else if n = 240 then .sequence ⟨2, 144, 191, 0⟩
  else if n < 244 then .sequence ⟨2, 128, 191, n - 240⟩
  else if n = 244 then .sequence ⟨2, 128, 143, 4⟩
  else .malformed

/-- The decoded pieces of the bytes that follow a sequence that was started. -/
def scan : Option Pending → Bytes → List (Option Char)
  | none, [] => []
  | some _, [] => [none]
  | none, b :: rest =>
      match lead b with
      | .char c => some c :: scan none rest
      | .sequence p => scan (some p) rest
      | .malformed => none :: scan none rest
  | some p, b :: rest =>
      let n := b.toNat
      if p.low ≤ n ∧ n ≤ p.high then
        let value := p.value * 64 + (n - 128)
        match p.more with
        | 0 => some (Char.ofNat value) :: scan none rest
        | more + 1 => scan (some ⟨more, 128, 191, value⟩) rest
      else
        -- The sequence ends here, and the byte starts anew.
        none :: match lead b with
        | .char c => some c :: scan none rest
        | .sequence p => scan (some p) rest
        | .malformed => none :: scan none rest

theorem length_scan : ∀ (state : Option Pending) (b : Bytes),
    (scan state b).length ≤ b.length + state.toList.length
  | none, [] => by simp [scan]
  | some _, [] => by simp [scan]
  | none, b :: rest => by
      have hnone := length_scan none rest
      rw [scan]
      split
      · simp only [List.length_cons, Option.toList_none, List.length_nil] at hnone ⊢
        omega
      · rename_i p _
        have hsome := length_scan (some p) rest
        simp only [Option.toList_some, Option.toList_none, List.length_cons,
          List.length_nil] at hsome ⊢
        omega
      · simp only [List.length_cons, Option.toList_none, List.length_nil] at hnone ⊢
        omega
  | some p, b :: rest => by
      have hnone := length_scan none rest
      simp only [Option.toList_none, List.length_nil] at hnone
      rw [scan]
      simp only [Option.toList_some, List.length_cons, List.length_nil]
      split
      · split
        · simp only [List.length_cons]
          omega
        · rename_i more _
          have hsome := length_scan
            (some ⟨more, 128, 191, p.value * 64 + (b.toNat - 128)⟩) rest
          simp only [Option.toList_some, List.length_cons, List.length_nil] at hsome
          omega
      · rw [List.length_cons]
        split
        · simp only [List.length_cons]
          omega
        · rename_i q _
          have hsome := length_scan (some q) rest
          simp only [Option.toList_some, List.length_cons, List.length_nil] at hsome
          omega
        · simp only [List.length_cons]
          omega

/-- `data.decode("utf-8")`, or `none` where it raises. -/
def decode (b : Bytes) : Option String := ((scan none b).mapM id).map String.ofList

/-- `data.decode("utf-8", errors="replace")`. -/
def decodeReplace (b : Bytes) : String :=
  String.ofList ((scan none b).map fun c => c.getD (Char.ofNat 65533))

theorem length_decodeReplace (b : Bytes) : (decodeReplace b).length ≤ b.length := by
  have := length_scan none b
  simpa [decodeReplace] using this

theorem eq_map_some : ∀ {l : List (Option Char)} {cs : List Char},
    l.mapM id = some cs → l = cs.map some
  | [], cs, h => by
      obtain rfl : [] = cs := Option.some.inj h
      rfl
  | c :: l, cs, h => by
      rw [List.mapM_cons] at h
      obtain ⟨c', hc, h⟩ := Option.bind_eq_some_iff.mp h
      obtain ⟨cs', hcs', h⟩ := Option.bind_eq_some_iff.mp h
      obtain rfl : c' :: cs' = cs := Option.some.inj h
      rw [List.map_cons, ← eq_map_some hcs', ← show c = some c' from hc]

theorem length_of_decode {b : Bytes} {s : String} (h : decode b = some s) :
    s.length ≤ b.length := by
  obtain ⟨cs, hcs, rfl⟩ := Option.map_eq_some_iff.mp h
  have := length_scan none b
  rw [String.length_ofList, ← List.length_map (f := some), ← eq_map_some hcs]
  simpa using this

/-! ## Encoding -/

def encodeChar (c : Char) : Bytes :=
  let n := c.toNat
  if n < 128 then [UInt8.ofNat n]
  else if n < 2048 then [UInt8.ofNat (192 + n / 64), UInt8.ofNat (128 + n % 64)]
  else if n < 65536 then
    [UInt8.ofNat (224 + n / 4096), UInt8.ofNat (128 + n / 64 % 64), UInt8.ofNat (128 + n % 64)]
  else
    [UInt8.ofNat (240 + n / 262144), UInt8.ofNat (128 + n / 4096 % 64),
      UInt8.ofNat (128 + n / 64 % 64), UInt8.ofNat (128 + n % 64)]

/-- `text.encode("utf-8")`. -/
def encode (cs : List Char) : Bytes := cs.flatMap encodeChar

theorem encode_append (a b : List Char) : encode (a ++ b) = encode a ++ encode b :=
  List.flatMap_append

theorem toNat_ofNat_byte {n : ℕ} (h : n < 256) : (UInt8.ofNat n).toNat = n := by
  rw [UInt8.toNat_ofNat', Nat.mod_eq_of_lt h]

/-- The last byte of a sequence. -/
theorem scan_last {low high value n : ℕ} {rest : Bytes} (h : n < 64)
    (hlow : low ≤ 128 + n) (hhigh : 128 + n ≤ high) :
    scan (some ⟨0, low, high, value⟩) (UInt8.ofNat (128 + n) :: rest)
      = some (Char.ofNat (value * 64 + n)) :: scan none rest := by
  have hbyte := toNat_ofNat_byte (show 128 + n < 256 by omega)
  rw [scan]
  dsimp only
  rw [hbyte, if_pos ⟨hlow, hhigh⟩, Nat.add_sub_cancel_left]

/-- Another byte of a sequence. -/
theorem scan_more {more low high value n : ℕ} {rest : Bytes} (h : n < 64)
    (hlow : low ≤ 128 + n) (hhigh : 128 + n ≤ high) :
    scan (some ⟨more + 1, low, high, value⟩) (UInt8.ofNat (128 + n) :: rest)
      = scan (some ⟨more, 128, 191, value * 64 + n⟩) rest := by
  have hbyte := toNat_ofNat_byte (show 128 + n < 256 by omega)
  rw [scan]
  dsimp only
  rw [hbyte, if_pos ⟨hlow, hhigh⟩, Nat.add_sub_cancel_left]

theorem scan_lead {b : UInt8} {p : Pending} {rest : Bytes} (h : lead b = .sequence p) :
    scan none (b :: rest) = scan (some p) rest := by
  rw [scan, h]

/-- Code points are not surrogates. -/
theorem toNat_valid (c : Char) : c.toNat < 55296 ∨ 57343 < c.toNat ∧ c.toNat < 1114112 := c.valid

theorem lead_two {k : ℕ} (hlow : 2 ≤ k) (hhigh : k < 32) :
    lead (UInt8.ofNat (192 + k)) = .sequence ⟨0, 128, 191, k⟩ := by
  have hbyte := toNat_ofNat_byte (show 192 + k < 256 by omega)
  rw [lead, hbyte]
  rw [if_neg (by omega), if_neg (by omega), if_pos (by omega), Nat.add_sub_cancel_left]

theorem lead_three {k : ℕ} (h : k < 16) :
    lead (UInt8.ofNat (224 + k))
      = .sequence ⟨1, if k = 0 then 160 else 128, if k = 13 then 159 else 191, k⟩ := by
  have hbyte := toNat_ofNat_byte (show 224 + k < 256 by omega)
  rw [lead, hbyte]
  rw [if_neg (by omega), if_neg (by omega), if_neg (by omega)]
  by_cases hzero : k = 0
  · subst hzero
    rfl
  · by_cases hsurrogate : k = 13
    · subst hsurrogate
      rfl
    · rw [if_neg (by omega), if_neg (by omega), if_pos (by omega), if_neg hzero,
        if_neg hsurrogate, Nat.add_sub_cancel_left]

theorem lead_four {k : ℕ} (h : k < 5) :
    lead (UInt8.ofNat (240 + k))
      = .sequence ⟨2, if k = 0 then 144 else 128, if k = 4 then 143 else 191, k⟩ := by
  obtain rfl | rfl | rfl | rfl | rfl : k = 0 ∨ k = 1 ∨ k = 2 ∨ k = 3 ∨ k = 4 := by omega
  all_goals rfl

/-- The bytes of a character decode to it. -/
theorem scan_encodeChar (c : Char) (rest : Bytes) :
    scan none (encodeChar c ++ rest) = some c :: scan none rest := by
  have hvalid := toNat_valid c
  have hchar : Char.ofNat c.toNat = c := Char.ofNat_toNat c
  unfold encodeChar
  dsimp only
  generalize c.toNat = n at hvalid hchar
  split_ifs with hone htwo hthree
  · have hlead : lead (UInt8.ofNat n) = .char c := by
      rw [lead, toNat_ofNat_byte (by omega), if_pos hone, hchar]
    rw [List.singleton_append, scan, hlead]
  · have hvalue : n / 64 * 64 + n % 64 = n := by omega
    rw [List.cons_append, scan_lead (lead_two (by omega) (by omega)), List.singleton_append,
      scan_last (by omega) (by omega) (by omega), hvalue, hchar]
  · have hvalue : (n / 4096 * 64 + n / 64 % 64) * 64 + n % 64 = n := by omega
    rw [List.cons_append, scan_lead (lead_three (by omega)), List.cons_append,
      scan_more (by omega) (by split_ifs <;> omega) (by split_ifs <;> omega),
      List.singleton_append, scan_last (by omega) (by omega) (by omega), hvalue, hchar]
  · have hvalue : ((n / 262144 * 64 + n / 4096 % 64) * 64 + n / 64 % 64) * 64 + n % 64 = n := by
      omega
    rw [List.cons_append, scan_lead (lead_four (by omega)), List.cons_append,
      scan_more (by omega) (by split_ifs <;> omega) (by split_ifs <;> omega), List.cons_append,
      scan_more (by omega) (by omega) (by omega), List.singleton_append,
      scan_last (by omega) (by omega) (by omega), hvalue, hchar]

theorem scan_encode (cs : List Char) : scan none (encode cs) = cs.map some := by
  induction cs with
  | nil => rfl
  | cons c cs ih => rw [encode, List.flatMap_cons, scan_encodeChar, ← encode, ih, List.map_cons]

theorem mapM_some (cs : List Char) : (cs.map some).mapM id = some cs := by
  induction cs with
  | nil => rfl
  | cons c cs ih => rw [List.map_cons, List.mapM_cons, ih]; rfl

/-- **Round trip.** -/
theorem decode_encode (cs : List Char) : decode (encode cs) = some (String.ofList cs) := by
  rw [decode, scan_encode, mapM_some]
  rfl

/-- The lenient decoder, too, gives back what was encoded. -/
theorem decodeReplace_encode (cs : List Char) : decodeReplace (encode cs) = String.ofList cs := by
  rw [decodeReplace, scan_encode, List.map_map]
  exact congrArg String.ofList (List.map_id cs)

theorem length_encode_le (cs : List Char) : (encode cs).length ≤ 4 * cs.length := by
  induction cs with
  | nil => exact Nat.zero_le _
  | cons c cs ih =>
      have hchar : (encodeChar c).length ≤ 4 := by
        unfold encodeChar
        dsimp only
        split_ifs <;> simp
      rw [encode, List.flatMap_cons, ← encode, List.length_append, List.length_cons]
      omega

theorem encode_ascii {cs : List Char} (h : ∀ c ∈ cs, c.toNat < 128) :
    encode cs = cs.map fun c => UInt8.ofNat c.toNat := by
  induction cs with
  | nil => rfl
  | cons c cs ih =>
      obtain ⟨hc, hcs⟩ := List.forall_mem_cons.mp h
      rw [encode, List.flatMap_cons, ← encode, ih hcs, encodeChar, if_pos hc]
      rfl

/-- The bytes of ASCII characters decode to the characters. -/
theorem decode_ascii {cs : List Char} (h : ∀ c ∈ cs, c.toNat < 128) :
    decode (cs.map fun c => UInt8.ofNat c.toNat) = some (String.ofList cs) := by
  rw [← encode_ascii h, decode_encode]

/-! ## Decoding is injective -/

theorem scan_pending_last {p : Pending} {b : Bytes} {c : Char} {l : List (Option Char)}
    (hmore : p.more = 0) (h : scan (some p) b = some c :: l) :
    ∃ n rest, b = UInt8.ofNat n :: rest ∧ p.low ≤ n ∧ n ≤ p.high
      ∧ c = Char.ofNat (p.value * 64 + (n - 128)) ∧ l = scan none rest := by
  cases b with
  | nil => cases h
  | cons x rest =>
      rw [scan] at h
      dsimp only at h
      split at h
      · rename_i hrange
        rw [hmore] at h
        obtain ⟨hc, hl⟩ := List.cons.inj h
        exact ⟨x.toNat, rest, by rw [UInt8.ofNat_toNat], hrange.1, hrange.2,
          (Option.some.inj hc).symm, hl.symm⟩
      · cases h

theorem scan_pending_more {p : Pending} {b : Bytes} {c : Char} {l : List (Option Char)} {more : ℕ}
    (hmore : p.more = more + 1) (h : scan (some p) b = some c :: l) :
    ∃ n rest, b = UInt8.ofNat n :: rest ∧ p.low ≤ n ∧ n ≤ p.high
      ∧ scan (some ⟨more, 128, 191, p.value * 64 + (n - 128)⟩) rest = some c :: l := by
  cases b with
  | nil => cases h
  | cons x rest =>
      rw [scan] at h
      dsimp only at h
      split at h
      · rename_i hrange
        rw [hmore] at h
        exact ⟨x.toNat, rest, by rw [UInt8.ofNat_toNat], hrange.1, hrange.2, h⟩
      · cases h

theorem scan_some_ne_nil (p : Pending) (b : Bytes) : scan (some p) b ≠ [] := by
  induction b generalizing p with
  | nil => exact List.cons_ne_nil _ _
  | cons x b ih =>
      rw [scan]
      dsimp only
      split
      · split
        · exact List.cons_ne_nil _ _
        · exact ih _
      · exact List.cons_ne_nil _ _

theorem scan_ne_nil (x : UInt8) (b : Bytes) : scan none (x :: b) ≠ [] := by
  rw [scan]
  split
  · exact List.cons_ne_nil _ _
  · exact scan_some_ne_nil _ _
  · exact List.cons_ne_nil _ _

theorem lead_char {b : UInt8} {c : Char} (h : lead b = .char c) :
    b.toNat < 128 ∧ c = Char.ofNat b.toNat := by
  unfold lead at h
  dsimp only at h
  split_ifs at h with hascii
  exact ⟨hascii, (Lead.char.inj h).symm⟩

/-- The first bytes of sequences. -/
theorem lead_sequence {b : UInt8} {p : Pending} (h : lead b = .sequence p) :
    (∃ k, 2 ≤ k ∧ k < 32 ∧ b = UInt8.ofNat (192 + k) ∧ p = ⟨0, 128, 191, k⟩)
      ∨ (∃ k, k < 16 ∧ b = UInt8.ofNat (224 + k)
        ∧ p = ⟨1, if k = 0 then 160 else 128, if k = 13 then 159 else 191, k⟩)
      ∨ ∃ k, k < 5 ∧ b = UInt8.ofNat (240 + k)
        ∧ p = ⟨2, if k = 0 then 144 else 128, if k = 4 then 143 else 191, k⟩ := by
  have hb : b = UInt8.ofNat b.toNat := by rw [UInt8.ofNat_toNat]
  have hsize : b.toNat < 256 := b.toNat_lt
  by_cases hascii : b.toNat < 128
  · rw [lead, if_pos hascii] at h
    cases h
  by_cases hstart : b.toNat < 194
  · rw [lead, if_neg hascii, if_pos hstart] at h
    cases h
  by_cases htwo : b.toNat < 224
  · obtain ⟨k, hk⟩ := Nat.exists_eq_add_of_le (show 192 ≤ b.toNat by omega)
    rw [hb, hk, lead_two (by omega) (by omega)] at h
    exact Or.inl ⟨k, by omega, by omega, hk ▸ hb, (Lead.sequence.inj h).symm⟩
  by_cases hthree : b.toNat < 240
  · obtain ⟨k, hk⟩ := Nat.exists_eq_add_of_le (show 224 ≤ b.toNat by omega)
    rw [hb, hk, lead_three (by omega)] at h
    exact Or.inr (Or.inl ⟨k, by omega, hk ▸ hb, (Lead.sequence.inj h).symm⟩)
  by_cases hfour : b.toNat < 245
  · obtain ⟨k, hk⟩ := Nat.exists_eq_add_of_le (show 240 ≤ b.toNat by omega)
    rw [hb, hk, lead_four (by omega)] at h
    exact Or.inr (Or.inr ⟨k, by omega, hk ▸ hb, (Lead.sequence.inj h).symm⟩)
  · rw [lead, if_neg hascii, if_neg hstart, if_neg htwo, if_neg (by omega), if_neg (by omega),
      if_neg hthree, if_neg (by omega), if_neg (by omega), if_neg (by omega)] at h
    cases h

theorem toNat_ofNat {n : ℕ} (h : n < 55296 ∨ 57343 < n ∧ n < 1114112) :
    (Char.ofNat n).toNat = n := by
  rw [Char.ofNat, dif_pos h]
  rfl

theorem encodeChar_two {k n : ℕ} (hlow : 2 ≤ k) (hhigh : k < 32) (hn : n < 64) :
    encodeChar (Char.ofNat (k * 64 + n)) = [UInt8.ofNat (192 + k), UInt8.ofNat (128 + n)] := by
  rw [encodeChar, toNat_ofNat (by omega)]
  rw [if_neg (by omega), if_pos (by omega), show (k * 64 + n) / 64 = k by omega,
    show (k * 64 + n) % 64 = n by omega]

theorem encodeChar_three {k m n : ℕ} (hk : k < 16) (hlow : k = 0 → 32 ≤ m) (hhigh : k = 13 → m < 32)
    (hm : m < 64) (hn : n < 64) : encodeChar (Char.ofNat ((k * 64 + m) * 64 + n))
      = [UInt8.ofNat (224 + k), UInt8.ofNat (128 + m), UInt8.ofNat (128 + n)] := by
  rw [encodeChar, toNat_ofNat (by omega)]
  rw [if_neg (by omega), if_neg (by omega), if_pos (by omega),
    show ((k * 64 + m) * 64 + n) / 4096 = k by omega,
    show ((k * 64 + m) * 64 + n) / 64 % 64 = m by omega,
    show ((k * 64 + m) * 64 + n) % 64 = n by omega]

theorem encodeChar_four {k l m n : ℕ} (hk : k < 5) (hlow : k = 0 → 16 ≤ l)
    (hhigh : k = 4 → l < 16) (hl : l < 64) (hm : m < 64) (hn : n < 64) :
    encodeChar (Char.ofNat (((k * 64 + l) * 64 + m) * 64 + n)) = [UInt8.ofNat (240 + k),
      UInt8.ofNat (128 + l), UInt8.ofNat (128 + m), UInt8.ofNat (128 + n)] := by
  rw [encodeChar, toNat_ofNat (by omega)]
  rw [if_neg (by omega), if_neg (by omega), if_neg (by omega),
    show (((k * 64 + l) * 64 + m) * 64 + n) / 262144 = k by omega,
    show (((k * 64 + l) * 64 + m) * 64 + n) / 4096 % 64 = l by omega,
    show (((k * 64 + l) * 64 + m) * 64 + n) / 64 % 64 = m by omega,
    show (((k * 64 + l) * 64 + m) * 64 + n) % 64 = n by omega]

/-- A character is decoded from its own bytes only. -/
theorem scan_cons {b : Bytes} {c : Char} {cs : List (Option Char)}
    (h : scan none b = some c :: cs) : ∃ rest, b = encodeChar c ++ rest ∧ cs = scan none rest := by
  cases b with
  | nil => cases h
  | cons x b =>
      cases hlead : lead x with
      | char d =>
          rw [scan, hlead] at h
          obtain ⟨hd, hcs⟩ := List.cons.inj h
          obtain ⟨hx, rfl⟩ := lead_char hlead
          refine ⟨b, ?_, hcs.symm⟩
          rw [← Option.some.inj hd, encodeChar, toNat_ofNat (by omega)]
          rw [if_pos hx, UInt8.ofNat_toNat]
          rfl
      | malformed =>
          rw [scan, hlead] at h
          cases h
      | sequence p =>
          rw [scan_lead hlead] at h
          rcases lead_sequence hlead with ⟨k, hk, hk', hx, hp⟩ | ⟨k, hk, hx, hp⟩
            | ⟨k, hk, hx, hp⟩ <;>
            subst hx hp
          · obtain ⟨n, rest, hb, hn, hn', hc, hcs⟩ := scan_pending_last rfl h
            dsimp only at hn hn' hc
            refine ⟨rest, ?_, hcs⟩
            rw [hc, encodeChar_two hk hk' (by omega), hb, Nat.add_sub_cancel' hn]
            rfl
          · obtain ⟨m, b', hb, hm, hm', h⟩ := scan_pending_more rfl h
            obtain ⟨n, rest, hb', hn, hn', hc, hcs⟩ := scan_pending_last rfl h
            dsimp only at hm hm' hn hn' hc
            have hm₀ : 128 ≤ m := by split_ifs at hm <;> omega
            have hm₁ : m < 192 := by split_ifs at hm' <;> omega
            refine ⟨rest, ?_, hcs⟩
            rw [hc, encodeChar_three hk _ _ (by omega) (by omega), hb, hb', Nat.add_sub_cancel' hn,
              Nat.add_sub_cancel' hm₀]
            · rfl
            · intro hzero
              rw [if_pos hzero] at hm
              omega
            · intro hsurrogate
              rw [if_pos hsurrogate] at hm'
              omega
          · obtain ⟨l, b₁, hb₁, hl, hl', h⟩ := scan_pending_more rfl h
            obtain ⟨m, b₂, hb₂, hm, hm', h⟩ := scan_pending_more rfl h
            obtain ⟨n, rest, hb₃, hn, hn', hc, hcs⟩ := scan_pending_last rfl h
            dsimp only at hl hl' hm hm' hn hn' hc
            have hl₀ : 128 ≤ l := by split_ifs at hl <;> omega
            have hl₁ : l < 192 := by split_ifs at hl' <;> omega
            refine ⟨rest, ?_, hcs⟩
            rw [hc, encodeChar_four hk _ _ (by omega) (by omega) (by omega), hb₁, hb₂, hb₃,
              Nat.add_sub_cancel' hn, Nat.add_sub_cancel' hm, Nat.add_sub_cancel' hl₀]
            · rfl
            · intro hzero
              rw [if_pos hzero] at hl
              omega
            · intro hlast
              rw [if_pos hlast] at hl'
              omega

theorem encode_scan {b : Bytes} {cs : List Char} (h : scan none b = cs.map some) :
    encode cs = b := by
  induction cs generalizing b with
  | nil =>
      cases b with
      | nil => rfl
      | cons x b => exact absurd h (scan_ne_nil x b)
  | cons c cs ih =>
      obtain ⟨rest, rfl, hrest⟩ := scan_cons h
      rw [encode, List.flatMap_cons, ← encode, ih hrest.symm]

/-- What decodes to a text is the text, encoded. -/
theorem encode_decode {b : Bytes} {s : String} (h : decode b = some s) : encode s.toList = b := by
  obtain ⟨cs, hcs, rfl⟩ := Option.map_eq_some_iff.mp h
  rw [String.toList_ofList]
  exact encode_scan (eq_map_some hcs)

-- A two-byte character, a truncated sequence, and a byte that starts nothing.
example : scan none [0xC3, 0xA9, 0xE2, 0x82, 0x41, 0xFF] = [some 'é', none, some 'A', none] := by
  decide

end Utf8

end AgentBenchX
