import Mathlib.Data.List.TakeWhile

/-!
# Scanners

Scanners take a token off the front of a text. Every scanner here is
built from single characters by sequence, choice and repetition, and
carries the two facts a parser relies on: what it took is a prefix of the
text, and a *stop* character ends the token wherever the text goes on
(`closes`). A token that is followed by a stop character is therefore
read the same way whatever comes after it (`more`), and a token that is
a whole text is read back in front of any stop character (`stopped`).
-/

namespace AgentBenchX

structure Scanner (stop : Char → Bool) where
  scan : List Char → Option (List Char × List Char)
  splits : ∀ s taken rest, scan s = some (taken, rest) → s = taken ++ rest
  closes : ∀ s c rest, stop c → scan (s ++ c :: rest)
    = (scan s).map fun p => (p.1, p.2 ++ c :: rest)

namespace Scanner

variable {stop : Char → Bool}

/-! ## Building scanners -/

/-- No character. -/
def empty : Scanner stop where
  scan s := some ([], s)
  splits s taken rest h := by
    obtain ⟨rfl, rfl⟩ := Prod.mk.injEq .. |>.mp (Option.some.inj h)
    rfl
  closes _ _ _ _ := rfl

/-- One character that satisfies `p`. -/
def one (p : Char → Bool) (hp : ∀ c, stop c → p c = false) : Scanner stop where
  scan
    | [] => none
    | c :: rest => if p c then some ([c], rest) else none
  splits s taken rest h := by
    cases s with
    | nil => cases h
    | cons c s =>
        simp only at h
        split at h
        · obtain ⟨rfl, rfl⟩ := Prod.mk.injEq .. |>.mp (Option.some.inj h)
          rfl
        · cases h
  closes s c rest hc := by
    cases s with
    | nil => simp [hp c hc]
    | cons d s =>
        simp only [List.cons_append]
        split <;> rfl

/-- As many characters as satisfy `p`. -/
def many (p : Char → Bool) (hp : ∀ c, stop c → p c = false) : Scanner stop where
  scan s := some (s.takeWhile p, s.dropWhile p)
  splits s taken rest h := by
    obtain ⟨rfl, rfl⟩ := Prod.mk.injEq .. |>.mp (Option.some.inj h)
    exact List.takeWhile_append_dropWhile.symm
  closes s c rest hc := by
    have hpc := hp c hc
    induction s with
    | nil => simp [hpc]
    | cons d s ih =>
        simp only [List.cons_append, List.takeWhile_cons, List.dropWhile_cons]
        split
        · have ih := Prod.mk.injEq .. |>.mp (Option.some.inj ih)
          rw [ih.1, ih.2]
          rfl
        · rfl

def andThen (a b : Scanner stop) : Scanner stop where
  scan s := (a.scan s).bind fun p => (b.scan p.2).map fun q => (p.1 ++ q.1, q.2)
  splits s taken rest h := by
    obtain ⟨p, hp, h⟩ := Option.bind_eq_some_iff.mp h
    obtain ⟨q, hq, h⟩ := Option.map_eq_some_iff.mp h
    obtain ⟨rfl, rfl⟩ := Prod.mk.injEq .. |>.mp h
    rw [a.splits s p.1 p.2 hp, b.splits p.2 q.1 q.2 hq, List.append_assoc]
  closes s c rest hc := by
    rw [a.closes s c rest hc]
    cases a.scan s with
    | none => rfl
    | some p =>
        simp only [Option.map_some, Option.bind_some, b.closes p.2 c rest hc]
        cases b.scan p.2 <;> rfl

/-- The token of `a` if there is one. -/
def optional (a : Scanner stop) : Scanner stop where
  scan s := some ((a.scan s).getD ([], s))
  splits s taken rest h := by
    cases ha : a.scan s with
    | none =>
        rw [ha] at h
        obtain ⟨rfl, rfl⟩ := Prod.mk.injEq .. |>.mp (Option.some.inj h)
        rfl
    | some p =>
        rw [ha] at h
        obtain rfl := Option.some.inj h
        exact a.splits s _ _ ha
  closes s c rest hc := by
    rw [a.closes s c rest hc]
    cases a.scan s <;> rfl

def orElse (a b : Scanner stop) : Scanner stop where
  scan s := (a.scan s).or (b.scan s)
  splits s taken rest h := by
    cases ha : a.scan s with
    | none => exact b.splits s taken rest (by simpa [ha] using h)
    | some p =>
        obtain rfl : p = (taken, rest) := by simpa [ha] using h
        exact a.splits s _ _ ha
  closes s c rest hc := by
    rw [a.closes s c rest hc, b.closes s c rest hc]
    cases a.scan s <;> rfl

/-- Form for evaluation of the condition on words and stop characters. -/
theorem forall_of_all {p : Char → Bool} {w : List Char} (h : (w.all fun c => !p c) = true) :
    ∀ c ∈ w, p c = false := by
  intro c hc
  have hp := List.all_eq_true.mp h c hc
  rwa [Bool.not_eq_true'] at hp

/-- Exactly the characters of `w`. -/
def word : (w : List Char) → (∀ c ∈ w, stop c = false) → Scanner stop
  | [], _ => empty
  | c :: w, hw =>
      (one (fun d => d == c) fun d hd => by
        rw [beq_eq_false_iff_ne]
        rintro rfl
        rw [hw d (List.mem_cons_self ..)] at hd
        cases hd).andThen
      (word w fun d hd => hw d (List.mem_cons_of_mem _ hd))

theorem word_ne {c d : Char} {w : List Char} (hw : ∀ e ∈ d :: w, stop e = false) (h : c ≠ d)
    (s : List Char) : (word (d :: w) hw).scan (c :: s) = none := by
  simp [word, andThen, one, h]

/-! ## Tokens in front of a stop character -/

variable (a : Scanner stop) {s rest : List Char} {taken : List Char} {c : Char}

/-- A token that is a whole text is read in front of a stop character. -/
theorem stopped (h : a.scan taken = some (taken, [])) (hc : stop c) (rest : List Char) :
    a.scan (taken ++ c :: rest) = some (taken, c :: rest) := by
  rw [a.closes taken c rest hc, h]
  rfl

/-- A token that is a whole text has no stop character. -/
theorem unstopped (h : a.scan taken = some (taken, [])) (hc : stop c) : c ∉ taken := by
  intro hmem
  obtain ⟨before, after, rfl⟩ := List.append_of_mem hmem
  rw [a.closes before c after hc] at h
  obtain ⟨p, -, hp⟩ := Option.map_eq_some_iff.mp h
  have hnil : p.2 ++ c :: after = [] := (Prod.mk.injEq .. |>.mp hp).2
  exact absurd hnil (by simp)

/-- A token in front of a stop character does not depend on what comes later. -/
theorem more (h : a.scan s = some (taken, c :: rest)) (hc : stop c) (more : List Char) :
    a.scan (s ++ more) = some (taken, c :: rest ++ more) := by
  obtain rfl := a.splits _ _ _ h
  rw [a.closes taken c rest hc] at h
  obtain ⟨p, hp, h⟩ := Option.map_eq_some_iff.mp h
  obtain ⟨htaken, hrest⟩ := Prod.mk.injEq .. |>.mp h
  rw [List.append_assoc, List.cons_append, a.closes taken c _ hc, hp, Option.map_some, htaken]
  have hnil : p.2 = [] := by simpa using hrest
  rw [hnil]
  rfl

end Scanner

end AgentBenchX
