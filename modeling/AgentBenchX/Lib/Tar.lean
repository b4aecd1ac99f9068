import Mathlib.Algebra.BigOperators.Group.List.Basic
import Mathlib.Algebra.GroupWithZero.Nat
import AgentBenchX.Lib.Utf8

/-!
# Archives of one file

A tar archive with one regular file, as it goes through a pipe: a header of
512 bytes with the size and a checksum in octal, the content filled up to whole
blocks, and two empty blocks. `openFile` reads such archives and no others; what
was packed is what is read (`openFile_archive`).
-/

namespace AgentBenchX

namespace Tar

/-! ## Writing -/

/-- `n` in octal with `width` digits. -/
def octal : ℕ → ℕ → Bytes
  | 0, _ => []
  | width + 1, n => octal width (n / 8) ++ [UInt8.ofNat (48 + n % 8)]

def zeros (n : ℕ) : Bytes := List.replicate n 0

/-- A text at the start of a field. -/
def field (width : ℕ) (text : Bytes) : Bytes := text ++ zeros (width - text.length)

/-- The header in front of the checksum: name, mode, owner, size and time. -/
def front (name : Bytes) (size : ℕ) : Bytes :=
  field 100 name ++ (field 8 (octal 7 420) ++ (field 8 (octal 7 0) ++ (field 8 (octal 7 0)
    ++ (octal 11 size ++ (zeros 1 ++ field 12 (octal 11 0))))))

/-- The header behind the checksum: a regular file and the magic of the format. -/
def back : Bytes :=
  [48] ++ (zeros 100 ++ (([117, 115, 116, 97, 114, 0] ++ [48, 48]) ++ (zeros 64
    ++ (field 8 (octal 7 0) ++ (field 8 (octal 7 0) ++ zeros 167)))))

/-- The sum of the bytes, with blanks for the checksum. -/
def checksum (name : Bytes) (size : ℕ) : ℕ :=
  ((front name size ++ (List.replicate 8 32 ++ back)).map UInt8.toNat).sum

def header (name : Bytes) (size : ℕ) : Bytes :=
  front name size ++ (octal 6 (checksum name size) ++ ([0, 32] ++ back))

def padding (size : ℕ) : ℕ := (512 - size % 512) % 512

def archive (name content : Bytes) : Bytes :=
  header name content.length ++ (content ++ zeros (padding content.length + 1024))

/-- A name that fits into its field and has an end there. -/
structure IsName (name : Bytes) : Prop where
  length : name.length ≤ 100
  nonzero : ∀ b ∈ name, b ≠ 0

/-! ## Reading -/

def ofOctal (digits : Bytes) : ℕ := digits.foldl (fun n d => 8 * n + (d.toNat - 48)) 0

def nameOf (data : Bytes) : Bytes := (data.take 100).takeWhile (· != 0)

def sizeOf (data : Bytes) : ℕ := ofOctal ((data.drop 124).take 11)

def contentOf (data : Bytes) : Bytes := (data.drop 512).take (sizeOf data)

/-- The content of the file in an archive. -/
def openFile (data : Bytes) : Option Bytes :=
  if data = archive (nameOf data) (contentOf data) then some (contentOf data) else none

/-! ## Reading what was written -/

theorem length_octal (width n : ℕ) : (octal width n).length = width := by
  induction width generalizing n with
  | zero => rfl
  | succ width ih => rw [octal, List.length_append, ih, List.length_singleton]

theorem ofOctal_octal (width n : ℕ) : ofOctal (octal width n) = n % 8 ^ width := by
  induction width generalizing n with
  | zero => exact (Nat.mod_one n).symm
  | succ width ih =>
      have hdigit : ∀ d < 8, (UInt8.ofNat (48 + d)).toNat - 48 = d := by decide
      have hlast : (UInt8.ofNat (48 + n % 8)).toNat - 48 = n % 8 :=
        hdigit _ (Nat.mod_lt _ (by decide))
      have hinit : (octal width (n / 8)).foldl (fun n d => 8 * n + (d.toNat - 48)) 0
          = n / 8 % 8 ^ width := ih _
      rw [ofOctal, octal, List.foldl_append, List.foldl_cons, List.foldl_nil, hinit, hlast,
        pow_succ', Nat.mod_mul, add_comm]

theorem length_zeros (n : ℕ) : (zeros n).length = n := List.length_replicate

theorem length_field {width : ℕ} {text : Bytes} (h : text.length ≤ width) :
    (field width text).length = width := by
  rw [field, List.length_append, length_zeros, Nat.add_sub_cancel' h]

theorem length_number (width n : ℕ) : (field (width + 1) (octal width n)).length = width + 1 :=
  length_field (by rw [length_octal]; exact Nat.le_succ width)

theorem length_header {name : Bytes} (h : name.length ≤ 100) (size : ℕ) :
    (header name size).length = 512 := by
  simp only [header, front, back, List.length_append, length_field h, length_number, length_octal,
    length_zeros, List.length_cons, List.length_nil]

section Archive

variable {name content : Bytes}

theorem nameOf_archive (h : IsName name) : nameOf (archive name content) = name := by
  have htake : (archive name content).take 100 = field 100 name := by
    rw [archive, header, front, List.append_assoc, List.append_assoc]
    exact List.take_left' (length_field h.length)
  have hzeros : (zeros (100 - name.length)).takeWhile (· != 0) = [] := by
    cases 100 - name.length with
    | zero => rfl
    | succ n => rfl
  rw [nameOf, htake, field, List.takeWhile_append_of_pos (by simpa using h.nonzero), hzeros,
    List.append_nil]

theorem sizeOf_archive (h : IsName name) (hsize : content.length < 8 ^ 11) :
    sizeOf (archive name content) = content.length := by
  have hfront : ∃ rest, archive name content = (field 100 name ++ (field 8 (octal 7 420)
      ++ (field 8 (octal 7 0) ++ field 8 (octal 7 0)))) ++ (octal 11 content.length ++ rest) := by
    simp only [archive, header, front, List.append_assoc]
    exact ⟨_, rfl⟩
  obtain ⟨rest, hrest⟩ := hfront
  rw [sizeOf, hrest, List.drop_left' (by
      simp only [List.length_append, length_field h.length, length_number]),
    List.take_left' (length_octal 11 _), ofOctal_octal, Nat.mod_eq_of_lt hsize]

theorem contentOf_archive (h : IsName name) (hsize : content.length < 8 ^ 11) :
    contentOf (archive name content) = content := by
  rw [contentOf, sizeOf_archive h hsize, archive, List.drop_left' (length_header h.length _)]
  exact List.take_left' rfl

/-- What was packed is read back. -/
theorem openFile_archive (h : IsName name) (hsize : content.length < 8 ^ 11) :
    openFile (archive name content) = some content := by
  rw [openFile, nameOf_archive h, contentOf_archive h hsize, if_pos rfl]

theorem length_archive (h : IsName name) (content : Bytes) :
    content.length < (archive name content).length
      ∧ (archive name content).length < content.length + 2048 := by
  have hpadding : padding content.length < 512 := Nat.mod_lt _ (by decide)
  rw [archive, List.length_append, length_header h.length, List.length_append, length_zeros]
  omega

end Archive

end Tar

end AgentBenchX
