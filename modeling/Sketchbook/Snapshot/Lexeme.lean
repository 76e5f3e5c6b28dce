import Sketchbook.Snapshot.Fault

/-! The smallest parts of a record's text: blanks, words, strings and numbers. Every reader
takes what it wants from the front of the text and hands on the rest. -/
namespace Sketchbook.Snapshot
open Number

abbrev Reader (α : Type) := List Char → Except Fault (α × List Char)

def isSpace (c : Char) : Bool := c == ' ' || c == '\t' || c == '\n' || c == '\r'

def skipSpace (cs : List Char) : List Char := cs.dropWhile isSpace

def isDigit (c : Char) : Bool := '0' ≤ c && c ≤ '9'

def word : List Char → List Char → Except Fault (List Char)
  | [], cs => .ok cs
  | _ :: _, [] => .error (.unfinished .value)
  | letter :: more, c :: cs =>
    if c = letter then word more cs else .error (.malformed .expectedWord)

/-! ### Strings -/

def hexDigit? (c : Char) : Option Nat :=
  if isDigit c then some (c.toNat - 48)
  else if 'a' ≤ c ∧ c ≤ 'f' then some (c.toNat - 87)
  else if 'A' ≤ c ∧ c ≤ 'F' then some (c.toNat - 55)
  else none

/-- Four hexadecimal digits. The text has ended if it holds fewer than four bytes. -/
def hexEscape : Reader Nat
  | a :: b :: c :: d :: rest =>
    match hexDigit? a, hexDigit? b, hexDigit? c, hexDigit? d with
    | some a, some b, some c, some d => .ok (((a * 16 + b) * 16 + c) * 16 + d, rest)
    | _, _, _, _ => .error (.malformed .invalidEscape)
  | cs =>
    if (String.ofList cs).utf8ByteSize < 4 then .error (.unfinished .string)
    else .error (.malformed .invalidEscape)

def isLeadingSurrogate (n : Nat) : Bool := 0xD800 ≤ n && n ≤ 0xDBFF

def isTrailingSurrogate (n : Nat) : Bool := 0xDC00 ≤ n && n ≤ 0xDFFF

def trailingEscape : Reader Nat
  | [] => .error (.unfinished .string)
  | ['\\'] => .error (.unfinished .string)
  | '\\' :: 'u' :: rest => do
    let (n, rest) ← hexEscape rest
    if isTrailingSurrogate n then .ok (n, rest) else .error (.malformed .loneSurrogate)
  | _ => .error (.malformed .unpairedEscape)

def numberEscape : Reader Char := fun cs => do
  let (n, rest) ← hexEscape cs
  if isTrailingSurrogate n then .error (.malformed .loneSurrogate)
  else if isLeadingSurrogate n then do
    let (m, rest) ← trailingEscape rest
    .ok (Char.ofNat (0x10000 + (n - 0xD800) * 0x400 + (m - 0xDC00)), rest)
  else .ok (Char.ofNat n, rest)

def shortEscape? (c : Char) : Option Char :=
  if c = '"' ∨ c = '\\' ∨ c = '/' then some c
  else if c = 'b' then some '\x08'
  else if c = 'f' then some '\x0c'
  else if c = 'n' then some '\n'
  else if c = 'r' then some '\r'
  else if c = 't' then some '\t'
  else none

def escape : Reader Char
  | [] => .error (.unfinished .string)
  | 'u' :: rest => numberEscape rest
  | c :: rest =>
    match shortEscape? c with
    | some d => .ok (d, rest)
    | none => .error (.malformed .invalidEscape)

def skipEscape : List Char → Except Fault (List Char)
  | [] => .error (.unfinished .string)
  | 'u' :: rest => (hexEscape rest).map Prod.snd
  | c :: rest => if (shortEscape? c).isSome then .ok rest else .error (.malformed .invalidEscape)

theorem hexEscape_length {cs rest : List Char} {n : Nat} (h : hexEscape cs = .ok (n, rest)) :
    rest.length < cs.length := by
  unfold hexEscape at h
  split at h
  · split at h
    · cases h
      simp only [List.length_cons]
      omega
    · contradiction
  · split at h <;> contradiction

theorem trailingEscape_length {cs rest : List Char} {n : Nat}
    (h : trailingEscape cs = .ok (n, rest)) : rest.length < cs.length := by
  unfold trailingEscape at h
  split at h
  · contradiction
  · contradiction
  · next tail =>
    cases hx : hexEscape tail with
    | error e => simp [hx, bind, Except.bind] at h
    | ok r =>
      obtain ⟨m, after⟩ := r
      simp only [hx, bind, Except.bind] at h
      split at h
      · cases h
        have := hexEscape_length hx
        simp only [List.length_cons]
        omega
      · contradiction
  · contradiction

theorem numberEscape_length {cs rest : List Char} {c : Char}
    (h : numberEscape cs = .ok (c, rest)) : rest.length < cs.length := by
  unfold numberEscape at h
  cases hx : hexEscape cs with
  | error e => simp [hx, bind, Except.bind] at h
  | ok r =>
    obtain ⟨n, after⟩ := r
    have hlt := hexEscape_length hx
    simp only [hx, bind, Except.bind] at h
    split at h
    · contradiction
    split at h
    · cases ht : trailingEscape after with
      | error e => simp [ht] at h
      | ok r =>
        obtain ⟨m, last⟩ := r
        simp only [ht, Except.ok.injEq, Prod.mk.injEq] at h
        have := trailingEscape_length ht
        rw [← h.2]
        omega
    · simp only [Except.ok.injEq, Prod.mk.injEq] at h
      rw [← h.2]
      exact hlt

theorem escape_length {cs rest : List Char} {c : Char} (h : escape cs = .ok (c, rest)) :
    rest.length < cs.length := by
  unfold escape at h
  split at h
  · contradiction
  · exact Nat.lt_succ_of_lt (numberEscape_length h)
  · split at h
    · cases h
      simp
    · contradiction

theorem skipEscape_length {cs rest : List Char} (h : skipEscape cs = .ok rest) :
    rest.length < cs.length := by
  unfold skipEscape at h
  split at h
  · contradiction
  · next tail =>
    cases hx : hexEscape tail with
    | error e => simp [hx, Except.map] at h
    | ok r =>
      simp only [hx, Except.map] at h
      cases h
      exact Nat.lt_succ_of_lt (hexEscape_length hx)
  · split at h
    · cases h
      simp
    · contradiction

def stringBody (cs : List Char) : Except Fault (List Char × List Char) :=
  match cs with
  | [] => .error (.unfinished .string)
  | c :: rest =>
    if c = '"' then .ok ([], rest)
    else if c = '\\' then
      match _h : escape rest with
      | .error fault => .error fault
      | .ok (d, after) => (stringBody after).map fun (inner, last) => (d :: inner, last)
    else if c.toNat < 0x20 then .error (.malformed .controlCharacter)
    else (stringBody rest).map fun (inner, last) => (c :: inner, last)
termination_by cs.length
decreasing_by
  · have := escape_length _h
    simp only [List.length_cons]
    omega
  · simp

def skipStringBody (cs : List Char) : Except Fault (List Char) :=
  match cs with
  | [] => .error (.unfinished .string)
  | c :: rest =>
    if c = '"' then .ok rest
    else if c = '\\' then
      match _h : skipEscape rest with
      | .error fault => .error fault
      | .ok after => skipStringBody after
    else if c.toNat < 0x20 then .error (.malformed .controlCharacter)
    else skipStringBody rest
termination_by cs.length
decreasing_by
  · have := skipEscape_length _h
    simp only [List.length_cons]
    omega
  · simp

/-! ### Numbers -/

/-- Digits gathered into a number below a limit. Digits from the first that does not fit on
are only counted. -/
def gather (limit : Nat) (value : Nat) : List Char → Nat × Nat
  | [] => (value, 0)
  | c :: rest =>
    let next := value * 10 + (c.toNat - 48)
    if next < limit then gather limit next rest else (value, rest.length + 1)

def wholeDigits (atEnd : Fault) : Reader (List Char)
  | [] => .error atEnd
  | c :: rest =>
    if !isDigit c then .error (.malformed .invalidNumber)
    else if c = '0' then
      match rest with
      | d :: _ => if isDigit d then .error (.malformed .invalidNumber) else .ok (['0'], rest)
      | [] => .ok (['0'], [])
    else .ok (c :: rest.takeWhile isDigit, rest.dropWhile isDigit)

def someDigits (atEnd : Fault) (cs : List Char) : Except Fault (List Char × List Char) :=
  match cs.takeWhile isDigit, cs.dropWhile isDigit with
  | [], [] => .error atEnd
  | [], _ :: _ => .error (.malformed .invalidNumber)
  | digits, rest => .ok (digits, rest)

structure Numeral where
  whole : List Char
  fraction : Option (List Char)
  exponent : Option (Bool × List Char)
  deriving DecidableEq, Repr

def exponentSign : List Char → Bool × List Char
  | '+' :: rest => (false, rest)
  | '-' :: rest => (true, rest)
  | rest => (false, rest)

def numeral (atEnd : Fault) : Reader Numeral := fun cs => do
  let (whole, rest) ← wholeDigits atEnd cs
  let (fraction, rest) ← match rest with
    | '.' :: rest => (someDigits atEnd rest).map fun (digits, rest) => (some digits, rest)
    | rest => pure (none, rest)
  match rest with
  | c :: tail =>
    if c = 'e' ∨ c = 'E' then
      let (negative, tail) := exponentSign tail
      (someDigits atEnd tail).map fun (digits, rest) =>
        (⟨whole, fraction, some (negative, digits)⟩, rest)
    else .ok (⟨whole, fraction, none⟩, rest)
  | [] => .ok (⟨whole, fraction, none⟩, [])

def floatShape (negative : Bool) (digits : Nat) (places : Int) : Except Fault Shape :=
  match Binary64.ofDecimal digits places with
  | some magnitude => .ok (.floating negative magnitude)
  | none => .error (.malformed .numberOutOfRange)

def limit64 : Nat := 0x10000000000000000

def limit63 : Nat := 0x8000000000000000

def limit31 : Nat := 0x80000000

/-- The value of a number. It is an integer if it is written as one and fits into 64 bits,
and a float otherwise; minus zero is a float too. -/
def Numeral.shape (n : Numeral) (negative : Bool) : Except Fault Shape :=
  let (digits, dropped) := gather limit64 0 n.whole
  match n.fraction, n.exponent with
  | none, none =>
    if dropped ≠ 0 then floatShape negative digits dropped
    else if !negative then .ok (.integer digits)
    else if 0 < digits ∧ digits ≤ limit63 then .ok (.integer (-digits))
    else floatShape true digits 0
  | fraction, exponent =>
    let fractionDigits := fraction.getD []
    let (digits, unread) := gather limit64 digits fractionDigits
    let places : Int := (dropped : Int) - ((fractionDigits.length - unread : Nat) : Int)
    match exponent with
    | none => floatShape negative digits places
    | some (down, exponentDigits) =>
      match gather limit31 0 exponentDigits with
      | (power, 0) =>
        floatShape negative digits (if down then places - (power : Int) else places + power)
      | (_, _ + 1) =>
        if digits ≠ 0 ∧ !down then .error (.malformed .numberOutOfRange)
        else .ok (.floating negative .zero)

end Sketchbook.Snapshot
