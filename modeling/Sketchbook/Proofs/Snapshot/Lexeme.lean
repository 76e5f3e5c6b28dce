import Sketchbook.Proofs.Snapshot.Spelling
import Sketchbook.Snapshot.Record

/-! Strings and numbers are read however they are spelled, whatever follows them in the text. -/
namespace Sketchbook.Snapshot

theorem stringBody_escape {cs after : List Char} {c : Char} (h : escape cs = .ok (c, after)) :
    stringBody ('\\' :: cs) = (stringBody after).map fun (inner, last) => (c :: inner, last) := by
  rw [stringBody]
  simp only [Char.reduceEq, if_false, if_true]
  split
  · next hescape => rw [h] at hescape; contradiction
  · next hescape =>
    rw [h] at hescape
    cases hescape
    rfl

theorem skipStringBody_escape {cs after : List Char} (h : skipEscape cs = .ok after) :
    skipStringBody ('\\' :: cs) = skipStringBody after := by
  rw [skipStringBody]
  simp only [Char.reduceEq, if_false, if_true]
  split
  · next hescape => rw [h] at hescape; contradiction
  · next hescape =>
    rw [h] at hescape
    cases hescape
    rfl

theorem hexDigit?_hexDigit :
    ∀ n, n < 16 → hexDigit? (hexDigit n) = some n ∧ hexDigit? (hexDigit n).toUpper = some n := by
  decide

theorem IsHexDigit.hexDigit?_eq {n : Nat} {c : Char} (h : IsHexDigit n c) :
    hexDigit? c = some n := by
  obtain ⟨hn, rfl | rfl⟩ := h
  · exact (hexDigit?_hexDigit n hn).1
  · exact (hexDigit?_hexDigit n hn).2

theorem SpellsNumber.hexEscape_eq {n : Nat} {digits : List Char} (h : SpellsNumber n digits)
    (rest : List Char) : hexEscape (digits ++ rest) = .ok (n, rest) := by
  obtain ⟨h₁, h₂, h₃, h₄⟩ := h
  simp [hexEscape, h₁.hexDigit?_eq, h₂.hexDigit?_eq, h₃.hexDigit?_eq, h₄.hexDigit?_eq]

/-- No character has the number of a surrogate. -/
theorem not_surrogate (c : Char) :
    isTrailingSurrogate c.toNat = false ∧ isLeadingSurrogate c.toNat = false := by
  have hvalid : c.toNat < 0xD800 ∨ 0xDFFF < c.toNat ∧ c.toNat < 0x110000 := c.valid
  simp only [isTrailingSurrogate, isLeadingSurrogate, Bool.and_eq_false_iff,
    decide_eq_false_iff_not]
  omega

theorem escape_number {c : Char} {digits : List Char} (h : SpellsNumber c.toNat digits)
    (rest : List Char) : escape ('u' :: (digits ++ rest)) = .ok (c, rest) := by
  obtain ⟨htrailing, hleading⟩ := not_surrogate c
  simp [escape, numberEscape, h.hexEscape_eq, htrailing, hleading, bind, Except.bind]

theorem trailingEscape_eq {n : Nat} {digits : List Char} (h : SpellsNumber n digits)
    (hn : isTrailingSurrogate n = true) (rest : List Char) :
    trailingEscape ('\\' :: 'u' :: (digits ++ rest)) = .ok (n, rest) := by
  simp [trailingEscape, h.hexEscape_eq, hn, bind, Except.bind]

theorem escape_surrogates {c : Char} {high low : List Char} (hbeyond : 0x10000 ≤ c.toNat)
    (hhigh : SpellsNumber (0xD800 + (c.toNat - 0x10000) / 0x400) high)
    (hlow : SpellsNumber (0xDC00 + (c.toNat - 0x10000) % 0x400) low) (rest : List Char) :
    escape ('u' :: (high ++ '\\' :: 'u' :: (low ++ rest))) = .ok (c, rest) := by
  have hvalid : c.toNat < 0xD800 ∨ 0xDFFF < c.toNat ∧ c.toNat < 0x110000 := c.valid
  generalize hfirst : 0xD800 + (c.toNat - 0x10000) / 0x400 = first at hhigh
  generalize hsecond : 0xDC00 + (c.toNat - 0x10000) % 0x400 = second at hlow
  have hleading : isLeadingSurrogate first = true := by
    simp only [isLeadingSurrogate, Bool.and_eq_true, decide_eq_true_eq]
    omega
  have hnot : isTrailingSurrogate first = false := by
    simp only [isTrailingSurrogate, Bool.and_eq_false_iff, decide_eq_false_iff_not]
    omega
  have htrailing : isTrailingSurrogate second = true := by
    simp only [isTrailingSurrogate, Bool.and_eq_true, decide_eq_true_eq]
    omega
  have hvalue : 0x10000 + (first - 0xD800) * 0x400 + (second - 0xDC00) = c.toNat := by omega
  simp [escape, numberEscape, hhigh.hexEscape_eq, hnot, hleading, trailingEscape_eq hlow htrailing,
    hvalue, bind, Except.bind]

theorem shortEscape?_eq :
    ∀ form ∈ shortForms, form.1 ≠ 'u' ∧ shortEscape? form.1 = some form.2 := by decide

/-- Whatever stands for a character is read as that character. -/
theorem SpellsChar.stringBody_eq {c : Char} {part : List Char} (h : SpellsChar c part)
    (rest : List Char) : stringBody (part ++ rest) =
      (stringBody rest).map fun (inner, last) => (c :: inner, last) := by
  cases h with
  | plain hquote hbackslash hcontrol =>
    rw [List.singleton_append, stringBody]
    simp [hquote, hbackslash, Nat.not_lt_of_le hcontrol]
  | short hletter =>
    obtain ⟨hu, hshort⟩ := shortEscape?_eq _ hletter
    exact stringBody_escape (by simp [escape.eq_def, hshort])
  | number hdigits => exact stringBody_escape (escape_number hdigits rest)
  | surrogates hbeyond hhigh hlow =>
    rw [List.cons_append, List.cons_append, List.append_assoc]
    exact stringBody_escape (escape_surrogates hbeyond hhigh hlow rest)

/-- Whatever stands for a character is passed over. -/
theorem SpellsChar.skipStringBody_eq {c : Char} {part : List Char} (h : SpellsChar c part)
    (rest : List Char) : skipStringBody (part ++ rest) = skipStringBody rest := by
  have hnumber {n : Nat} {digits : List Char} (hdigits : SpellsNumber n digits)
      (more : List Char) :
      skipStringBody ('\\' :: 'u' :: (digits ++ more)) = skipStringBody more :=
    skipStringBody_escape (by simp [skipEscape, hdigits.hexEscape_eq, Except.map])
  cases h with
  | plain hquote hbackslash hcontrol =>
    rw [List.singleton_append, skipStringBody]
    simp [hquote, hbackslash, Nat.not_lt_of_le hcontrol]
  | short hletter =>
    obtain ⟨hu, hshort⟩ := shortEscape?_eq _ hletter
    exact skipStringBody_escape (by simp [skipEscape.eq_def, hshort])
  | number hdigits => exact hnumber hdigits rest
  | surrogates _ hhigh hlow =>
    -- a value that is not wanted has its surrogates passed over one by one
    rw [List.cons_append, List.cons_append, List.append_assoc, hnumber hhigh]
    exact hnumber hlow rest

theorem SpellsBody.stringBody_eq {cs body : List Char} (h : SpellsBody cs body)
    (rest : List Char) : stringBody (body ++ '"' :: rest) = .ok (cs, rest) := by
  induction h with
  | nil => simp [stringBody]
  | cons hpart _ ih =>
    rw [List.append_assoc, hpart.stringBody_eq, ih]
    rfl

theorem SpellsBody.skipStringBody_eq {cs body : List Char} (h : SpellsBody cs body)
    (rest : List Char) : skipStringBody (body ++ '"' :: rest) = .ok rest := by
  induction h with
  | nil => simp [skipStringBody]
  | cons hpart _ ih => rw [List.append_assoc, hpart.skipStringBody_eq, ih]

/-! ### Numbers -/

theorem isDigit_of_mem_toDigits {c : Char} {n : Nat} (h : c ∈ Nat.toDigits 10 n) :
    isDigit c = true :=
  Nat.isDigit_of_mem_toDigits (by decide) (by decide) h

theorem digitChar_ne_zero : ∀ n, n < 10 → 0 < n → n.digitChar ≠ '0' := by decide

/-- Only zero starts with a zero. -/
theorem head?_toDigits_ne {n : Nat} (h : 0 < n) : (Nat.toDigits 10 n).head? ≠ some '0' := by
  induction n using Nat.strongRecOn with
  | ind n ih =>
    by_cases hless : n < 10
    · rw [Nat.toDigits_of_lt_base hless]
      simpa using digitChar_ne_zero n hless h
    · rw [Nat.toDigits_of_base_le (by decide) (by omega), List.head?_append]
      have hfirst := ih (n / 10) (by omega) (by omega)
      cases hdigits : Nat.toDigits 10 (n / 10) with
      | nil => exact absurd hdigits Nat.toDigits_ne_nil
      | cons c rest =>
        rw [hdigits] at hfirst
        simpa using hfirst

def EndsNumber (rest : List Char) : Prop :=
  ∀ c ∈ rest.head?, isDigit c = false ∧ c ≠ '.' ∧ c ≠ 'e' ∧ c ≠ 'E'

theorem EndsNumber.takeWhile_append {digits rest : List Char}
    (hdigits : ∀ c ∈ digits, isDigit c = true) (hrest : EndsNumber rest) :
    (digits ++ rest).takeWhile isDigit = digits ∧ (digits ++ rest).dropWhile isDigit = rest := by
  rw [List.takeWhile_append_of_pos hdigits, List.dropWhile_append_of_pos hdigits]
  cases rest with
  | nil => simp
  | cons c rest => simp [(hrest c rfl).1]

theorem wholeDigits_toDigits {atEnd : Fault} {n : Nat} {rest : List Char}
    (hrest : EndsNumber rest) :
    wholeDigits atEnd (Nat.toDigits 10 n ++ rest) = .ok (Nat.toDigits 10 n, rest) := by
  cases Nat.eq_zero_or_pos n with
  | inl hzero =>
    subst hzero
    cases rest with
    | nil => rfl
    | cons c rest => simp [wholeDigits, (hrest c rfl).1, show isDigit '0' = true from rfl]
  | inr hpos =>
    have hdigits (c : Char) (hc : c ∈ Nat.toDigits 10 n) := isDigit_of_mem_toDigits hc
    have hfirst := head?_toDigits_ne hpos
    cases htext : Nat.toDigits 10 n with
    | nil => exact absurd htext Nat.toDigits_ne_nil
    | cons c more =>
      rw [htext] at hdigits hfirst
      obtain ⟨hc, hmore⟩ := List.forall_mem_cons.mp hdigits
      obtain ⟨htake, hdrop⟩ := hrest.takeWhile_append hmore
      have hne : c ≠ '0' := by simpa using hfirst
      simp [wholeDigits.eq_def, hc, hne, htake, hdrop]

theorem numeral_toDigits {atEnd : Fault} {n : Nat} {rest : List Char} (hrest : EndsNumber rest) :
    numeral atEnd (Nat.toDigits 10 n ++ rest) = .ok (⟨Nat.toDigits 10 n, none, none⟩, rest) := by
  rw [numeral, wholeDigits_toDigits hrest]
  cases rest with
  | nil => rfl
  | cons c rest =>
    obtain ⟨-, hpoint, hlower, hupper⟩ := hrest c rfl
    simp [bind, Except.bind, pure, Except.pure, hpoint, hlower, hupper]

theorem le_ofDigitChars (digits : List Char) (value : Nat) :
    value ≤ Nat.ofDigitChars 10 digits value := by
  induction digits generalizing value with
  | nil => simp
  | cons c rest ih =>
    rw [Nat.ofDigitChars_cons]
    have := ih (10 * value + (c.toNat - '0'.toNat))
    omega

/-- Digits of a number below the limit are gathered without a rest. -/
theorem gather_eq {limit value : Nat} {digits : List Char}
    (h : Nat.ofDigitChars 10 digits value < limit) :
    gather limit value digits = (Nat.ofDigitChars 10 digits value, 0) := by
  induction digits generalizing value with
  | nil => simp [gather]
  | cons c rest ih =>
    rw [Nat.ofDigitChars_cons] at h ⊢
    have hnext : value * 10 + (c.toNat - 48) = 10 * value + (c.toNat - '0'.toNat) := by
      rw [Nat.mul_comm]
      rfl
    have hfits := Nat.lt_of_le_of_lt (le_ofDigitChars rest _) h
    rw [gather, hnext, if_pos hfits, ih h]

theorem shape_toDigits {n : Nat} (h : n < limit64) :
    Numeral.shape ⟨Nat.toDigits 10 n, none, none⟩ false = .ok (.integer n) := by
  have hvalue : Nat.ofDigitChars 10 (Nat.toDigits 10 n) 0 = n := Nat.ofDigitChars_ten_toDigits
  rw [Numeral.shape, gather_eq (hvalue.symm ▸ h), hvalue]
  rfl

theorem ne_of_isDigit {c d : Char} (hc : isDigit c = true) (hd : isDigit d = false) : c ≠ d := by
  rintro rfl
  rw [hc] at hd
  contradiction

theorem skipSpace_cons {c : Char} (h : isSpace c = false) (rest : List Char) :
    skipSpace (c :: rest) = c :: rest := by
  simp [skipSpace, h]

theorem isSpace_of_isDigit {c : Char} (hc : isDigit c = true) : isSpace c = false := by
  simp [isSpace, ne_of_isDigit hc (d := ' ') rfl, ne_of_isDigit hc (d := '\t') rfl,
    ne_of_isDigit hc (d := '\n') rfl, ne_of_isDigit hc (d := '\r') rfl]

theorem scalar_of_isDigit {c : Char} (hc : isDigit c = true) (rest : List Char) :
    scalar c rest = scalar.number false (c :: rest) := by
  simp [scalar, hc, ne_of_isDigit hc (d := 'n') rfl, ne_of_isDigit hc (d := 't') rfl,
    ne_of_isDigit hc (d := 'f') rfl, ne_of_isDigit hc (d := '"') rfl,
    ne_of_isDigit hc (d := '-') rfl]

theorem shapeAt_toDigits {n : Nat} (h : n < limit64) {rest : List Char}
    (hrest : EndsNumber rest) :
    shapeAt (Nat.toDigits 10 n ++ rest) = .ok (.integer n, rest) := by
  have hnumber : scalar.number false (Nat.toDigits 10 n ++ rest) = .ok (.integer n, rest) := by
    rw [scalar.number, numeral_toDigits hrest]
    simp [bind, Except.bind, shape_toDigits h]
  have hdigits (c : Char) (hc : c ∈ Nat.toDigits 10 n) := isDigit_of_mem_toDigits hc
  cases htext : Nat.toDigits 10 n with
  | nil => exact absurd htext Nat.toDigits_ne_nil
  | cons c more =>
    rw [htext] at hdigits hnumber
    have hc := hdigits c List.mem_cons_self
    rw [List.cons_append] at hnumber ⊢
    rw [shapeAt, skipSpace_cons (isSpace_of_isDigit hc)]
    simp only [ne_of_isDigit hc (d := '[') rfl, ne_of_isDigit hc (d := '\x7b') rfl, if_false]
    rw [scalar_of_isDigit hc, hnumber]

theorem lineNumber_integer {cs rest : List Char} {value : Int}
    (h : shapeAt cs = .ok (.integer value, rest)) (hrange : 0 ≤ value ∧ value < 4294967296) :
    lineNumber cs = .ok (UInt32.ofNat value.toNat, rest) := by
  rw [lineNumber, h]
  simp only [bind, Except.bind]
  rw [if_pos hrange]

theorem IsPadding.skipSpace_append {pad : List Char} (h : IsPadding pad) (cs : List Char) :
    skipSpace (pad ++ cs) = skipSpace cs := by
  refine List.dropWhile_append_of_pos fun c hc => ?_
  rcases h c hc with rfl | rfl <;> rfl

theorem IsPadding.skipSpace_cons {pad : List Char} (h : IsPadding pad) {c : Char}
    (hc : isSpace c = false) (rest : List Char) : skipSpace (pad ++ c :: rest) = c :: rest := by
  rw [h.skipSpace_append, Snapshot.skipSpace_cons hc]

/-- A line number is read where its digits end. -/
theorem lineNumber_toDigits (line : LineNumber) {pad rest : List Char} (hpad : IsPadding pad)
    (hrest : EndsNumber rest) :
    lineNumber (pad ++ (Nat.toDigits 10 line.toNat ++ rest)) = .ok (line, rest) := by
  have hline : line.toNat < 4294967296 := line.toNat_lt
  have hfits : line.toNat < limit64 := Nat.lt_trans hline (by simp [limit64])
  have hshape : shapeAt (pad ++ (Nat.toDigits 10 line.toNat ++ rest)) =
      .ok (.integer line.toNat, rest) := by
    simpa only [shapeAt, hpad.skipSpace_append] using shapeAt_toDigits hfits hrest
  rw [lineNumber_integer hshape ⟨Int.natCast_nonneg _, Int.ofNat_lt.mpr hline⟩,
    Int.toNat_natCast, UInt32.ofNat_toNat]

end Sketchbook.Snapshot
