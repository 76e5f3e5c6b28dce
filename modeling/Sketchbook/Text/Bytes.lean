/-! Byte strings carry file contents and file names. A text is written as UTF-8; bytes are
read back either strictly or with U+FFFD in place of every ill-formed run, where a run is
the longest start of a character that the bytes hold. -/
namespace Sketchbook.Text

abbrev Bytes := List UInt8

def encode (s : String) : Bytes := s.toUTF8.data.toList

def decode? (b : Bytes) : Option String := String.fromUTF8? ⟨b.toArray⟩

@[simp] theorem decode?_encode (s : String) : decode? (encode s) = some s := by
  have h : (⟨(encode s).toArray⟩ : ByteArray) = s.toUTF8 := by simp [encode]
  rw [decode?, h]
  exact dif_pos s.isValidUTF8

theorem encode_of_decode? {b : Bytes} {s : String} (h : decode? b = some s) : encode s = b := by
  unfold decode? String.fromUTF8? at h
  split at h
  · cases h
    simp [encode, String.fromUTF8]
  · contradiction

/-- Reads `owed` continuation bytes, the first of them within `low` and `high`. An unfit
byte ends the run and is not consumed. -/
def continuation : (owed low high value : Nat) → Bytes → Option Char × Bytes
  | 0, _, _, value, bytes => (some (Char.ofNat value), bytes)
  | _ + 1, _, _, _, [] => (none, [])
  | owed + 1, low, high, value, b :: bytes =>
    if low ≤ b.toNat ∧ b.toNat ≤ high then
      continuation owed 0x80 0xBF (value * 64 + (b.toNat - 0x80)) bytes
    else (none, b :: bytes)

def decodeStep (b : UInt8) (bytes : Bytes) : Option Char × Bytes :=
  let n := b.toNat
  if n < 0x80 then (some (Char.ofNat n), bytes)
  else if 0xC2 ≤ n ∧ n ≤ 0xDF then continuation 1 0x80 0xBF (n - 0xC0) bytes
  else if n = 0xE0 then continuation 2 0xA0 0xBF (n - 0xE0) bytes
  else if n = 0xED then continuation 2 0x80 0x9F (n - 0xE0) bytes
  else if 0xE1 ≤ n ∧ n ≤ 0xEF then continuation 2 0x80 0xBF (n - 0xE0) bytes
  else if n = 0xF0 then continuation 3 0x90 0xBF (n - 0xF0) bytes
  else if 0xF1 ≤ n ∧ n ≤ 0xF3 then continuation 3 0x80 0xBF (n - 0xF0) bytes
  else if n = 0xF4 then continuation 3 0x80 0x8F (n - 0xF0) bytes
  else (none, bytes)

theorem continuation_length_le (owed low high value : Nat) (bytes : Bytes) :
    (continuation owed low high value bytes).2.length ≤ bytes.length := by
  fun_induction continuation owed low high value bytes with
  | case1 => exact Nat.le_refl _
  | case2 => exact Nat.le_refl _
  | case3 _ _ _ _ _ _ _ ih => exact Nat.le_succ_of_le ih
  | case4 => exact Nat.le_refl _

theorem decodeStep_length_le (b : UInt8) (bytes : Bytes) :
    (decodeStep b bytes).2.length ≤ bytes.length := by
  fun_cases decodeStep b bytes with
  | case1 => exact Nat.le_refl _
  | case2 | case3 | case4 | case5 | case6 | case7 | case8 =>
    exact continuation_length_le _ _ _ _ _
  | case9 => exact Nat.le_refl _

def decodeRuns : Bytes → List (Option Char)
  | [] => []
  | b :: bytes => (decodeStep b bytes).1 :: decodeRuns (decodeStep b bytes).2
termination_by bytes => bytes.length
decreasing_by exact Nat.lt_succ_of_le (decodeStep_length_le b bytes)

def decodeLossy (b : Bytes) : String :=
  (decode? b).getD (String.ofList ((decodeRuns b).map (·.getD '\uFFFD')))

@[simp] theorem decodeLossy_encode (s : String) : decodeLossy (encode s) = s := by
  simp [decodeLossy]

def dropReturn : Bytes → Bytes
  | 13 :: line => line
  | line => line

def cutLines (line : Bytes) : Bytes → List Bytes
  | [] => if line.isEmpty then [] else [line.reverse]
  | 10 :: bytes => (dropReturn line).reverse :: cutLines [] bytes
  | b :: bytes => cutLines (b :: line) bytes

/-- The lines of a file. A line feed ends a line and is dropped with one carriage return
before it; bytes after the last line feed form a line of their own. -/
def lines (bytes : Bytes) : List Bytes := cutLines [] bytes

end Sketchbook.Text
