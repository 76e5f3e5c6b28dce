import Sketchbook.Source.Body
import Sketchbook.Text.Blank

/-! Reading source text character by character. At every place the text is code, inside a
literal or inside a block comment, by the rules that cut it into pieces. -/
namespace Sketchbook.Source

/-- What the next character stands in. `slash` is code right behind a slash, `escape` a literal
right behind a backslash, `star` a block comment right behind a star. -/
inductive Mode where
  | code
  | slash
  | literal (quote : Char)
  | escape (quote : Char)
  | comment
  | star
  deriving DecidableEq, Repr

def Mode.isOutside : Mode → Bool
  | .code | .slash => true
  | _ => false

def codeStep (c : Char) : Mode :=
  if isQuote c then .literal c else if c = '/' then .slash else .code

def Mode.step : Mode → Char → Mode
  | .code, c => codeStep c
  | .slash, c => if c = '*' then .comment else codeStep c
  | .literal quote, c =>
    if c = '\\' then .escape quote else if c = quote then .code else .literal quote
  | .escape quote, _ => .literal quote
  | .comment, c => if c = '*' then .star else .comment
  | .star, c => if c = '/' then .code else if c = '*' then .star else .comment

def scan (mode : Mode) (cs : List Char) : Mode := cs.foldl Mode.step mode

@[simp] theorem scan_nil (mode : Mode) : scan mode [] = mode := rfl

@[simp] theorem scan_cons (mode : Mode) (c : Char) (cs : List Char) :
    scan mode (c :: cs) = scan (mode.step c) cs := rfl

theorem scan_append (mode : Mode) (cs ds : List Char) :
    scan mode (cs ++ ds) = scan (scan mode cs) ds := List.foldl_append

/-- Whatever stands behind the text is read as if it stood alone. -/
def EndsInCode (cs : List Char) : Prop := ∀ rest, scan .code (cs ++ rest) = scan .code rest

theorem endsInCode_iff (cs : List Char) : EndsInCode cs ↔ scan .code cs = .code := by
  constructor
  · intro h
    simpa using h []
  · intro h rest
    rw [scan_append, h]

theorem ne_of_isQuote {c d : Char} (h : isQuote c = true) (hd : isQuote d = false) : c ≠ d := by
  intro hc
  rw [hc, hd] at h
  contradiction

theorem ne_backslash {c : Char} {rest : List Char} (hend : c = '\\' → rest = [] → False)
    (hescape : ∀ d tail, c = '\\' → rest = d :: tail → False) : c ≠ '\\' := by
  intro hc
  cases rest with
  | nil => exact hend hc rfl
  | cons d tail => exact hescape d tail hc rfl

/-- Behind a slash only a star makes a difference. -/
theorem scan_slash {cs : List Char} (hne : cs ≠ []) (h : cs.head? ≠ some '*') :
    scan .slash cs = scan .code cs := by
  cases cs with
  | nil => contradiction
  | cons c cs =>
    have hc : c ≠ '*' := by simpa using h
    simp [Mode.step, hc]

/-- A closed literal leads back to code. -/
theorem scan_literal_of_close {quote : Char} {cs inner after : List Char}
    (h : closeLiteral quote cs = some (inner, after)) :
    scan (.literal quote) cs = scan .code after := by
  fun_induction closeLiteral quote cs generalizing inner after with
  | case1 => contradiction
  | case2 => contradiction
  | case3 c rest ih =>
    obtain ⟨⟨i, a⟩, hi, hs⟩ := Option.map_eq_some_iff.mp h
    cases hs
    simpa [Mode.step] using ih hi
  | case4 rest hend hescape =>
    have hc := ne_backslash hend hescape
    cases h
    simp [Mode.step, hc]
  | case5 c rest hend hescape hquote ih =>
    have hc := ne_backslash hend hescape
    obtain ⟨⟨i, a⟩, hi, hs⟩ := Option.map_eq_some_iff.mp h
    cases hs
    simpa [Mode.step, hc, hquote] using ih hi

def Mode.IsProper : Mode → Prop
  | .literal quote | .escape quote => isQuote quote = true
  | _ => True

theorem isProper_codeStep (c : Char) : (codeStep c).IsProper := by
  unfold codeStep
  split
  · assumption
  · split <;> trivial

theorem Mode.IsProper.step {mode : Mode} (h : mode.IsProper) (c : Char) :
    (mode.step c).IsProper := by
  cases mode with
  | code => exact isProper_codeStep c
  | slash =>
    simp only [Mode.step]
    split
    · trivial
    · exact isProper_codeStep c
  | literal quote =>
    simp only [Mode.step]
    split
    · exact h
    · split
      · trivial
      · exact h
  | escape quote => exact h
  | comment =>
    simp only [Mode.step]
    split <;> trivial
  | star =>
    simp only [Mode.step]
    split
    · trivial
    · split <;> trivial

theorem Mode.IsProper.scan {mode : Mode} (h : mode.IsProper) (cs : List Char) :
    (scan mode cs).IsProper := by
  induction cs generalizing mode with
  | nil => exact h
  | cons c cs ih => exact ih (h.step c)

theorem isProper_scan_code (cs : List Char) : (scan .code cs).IsProper := by
  have hcode : Mode.code.IsProper := trivial
  exact hcode.scan cs

theorem isPlain_of_isBlank {c : Char} (h : Text.isBlank c = true) :
    isQuote c = false ∧ c ≠ '/' ∧ c ≠ '*' ∧ c ≠ '\\' := by
  have hne (d : Char) (hd : Text.isBlank d = false) : c ≠ d := by
    intro hc
    rw [hc, hd] at h
    contradiction
  refine ⟨?_, hne _ rfl, hne _ rfl, hne _ rfl⟩
  simp [isQuote, hne '"' rfl, hne '\'' rfl]

theorem isOutside_step_blank {mode : Mode} (hm : mode.IsProper) {c : Char}
    (h : Text.isBlank c = true) : (mode.step c).isOutside = mode.isOutside := by
  obtain ⟨hquote, hslash, hstar, hback⟩ := isPlain_of_isBlank h
  have hcode : codeStep c = .code := by simp [codeStep, hquote, hslash]
  cases mode with
  | code | slash => simp [Mode.step, hcode, hstar, Mode.isOutside]
  | literal quote =>
    have hne : c ≠ quote := (ne_of_isQuote hm hquote).symm
    simp [Mode.step, hback, hne, Mode.isOutside]
  | escape | comment | star => simp [Mode.step, hslash, hstar, Mode.isOutside]

/-- Blanks at the end close nothing and open nothing. -/
theorem isOutside_scan_blanks {mode : Mode} (hm : mode.IsProper) {blanks : List Char}
    (h : ∀ c ∈ blanks, Text.isBlank c = true) :
    (scan mode blanks).isOutside = mode.isOutside := by
  induction blanks generalizing mode with
  | nil => rfl
  | cons c blanks ih =>
    rw [scan_cons, ih (hm.step c) fun d hd => h d (List.mem_cons_of_mem c hd)]
    exact isOutside_step_blank hm (h c List.mem_cons_self)

/-- Taking blanks off both ends of a text changes nothing in how it ends. -/
theorem isOutside_scan_trim (cs : List Char) :
    (scan .code (Text.trim cs)).isOutside = (scan .code cs).isOutside := by
  have hfront : scan .code cs = scan .code (cs.dropWhile Text.isBlank) := by
    induction cs with
    | nil => rfl
    | cons c cs ih =>
      rw [List.dropWhile_cons]
      split
      · next hc =>
        obtain ⟨hquote, hslash, -, -⟩ := isPlain_of_isBlank hc
        simpa [Mode.step, codeStep, hquote, hslash] using ih
      · rfl
  obtain ⟨tail, htail, hblank⟩ :=
    Text.dropRightWhile_append Text.isBlank (cs.dropWhile Text.isBlank)
  have hsplit := congrArg (scan .code) htail
  rw [scan_append] at hsplit
  rw [hfront, hsplit]
  exact (isOutside_scan_blanks (isProper_scan_code _) hblank).symm

/-- A semicolon behind code is code, and one inside a literal or comment closes nothing. -/
theorem scan_append_semicolon (cs : List Char) :
    scan .code (cs ++ [';']) = .code ↔ (scan .code cs).isOutside = true := by
  have hproper := isProper_scan_code cs
  rw [scan_append, scan_cons, scan_nil]
  generalize scan .code cs = mode at hproper
  cases mode with
  | code | slash => decide
  | literal quote =>
    have hne : ';' ≠ quote := (ne_of_isQuote hproper rfl).symm
    simp [Mode.step, hne, Mode.isOutside]
  | escape | comment | star => simp [Mode.step, Mode.isOutside]

end Sketchbook.Source
