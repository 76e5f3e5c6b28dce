import Mathlib.Data.List.TakeWhile
import Sketchbook.Proofs.Source.Position
import Sketchbook.Proofs.Source.Scan

/-! Literals and comments are scanned by the positions of their bytes. A backslash takes the byte
behind it along, which may be no more than the start of a character. Every step leads on, whatever
the bytes are, and in a text the scan ends where the characters say, so that line comments are
taken out of it without a fault. -/
namespace Sketchbook.Position
open Text Source

variable {s : String} {bytes : Bytes} {i j : Nat} {c quote : Char} {cs rest : List Char}

/-! ### Literals -/

def nextQuote? (bytes : Bytes) (quote : UInt8) (i : Nat) : Except Fault (Option Nat) := do
  if i < bytes.length then
    let b ← byteAt bytes i
    if b = '\\'.toUInt8 then
      checkPosition (i + 2)
      nextQuote? bytes quote (i + 2)
    else if b = quote then return some i
    else
      checkPosition (i + 1)
      nextQuote? bytes quote (i + 1)
  else return none
termination_by bytes.length - i

def closingQuote? (bytes : Bytes) (start : Nat) : Except Fault (Option Nat) := do
  let quote ← byteAt bytes start
  checkPosition (start + 1)
  nextQuote? bytes quote (start + 1)

def isQuoteByte (b : UInt8) : Bool := b == '"'.toUInt8 || b == '\''.toUInt8

theorem le_of_nextQuote? {quote : UInt8}
    (h : nextQuote? bytes quote i = .ok (some j)) : i ≤ j := by
  fun_induction nextQuote? bytes quote i with
  | case1 i hi ihEscape ihPlain =>
    obtain ⟨b, -, h⟩ := exists_of_bind h
    split at h
    · obtain ⟨-, -, h⟩ := exists_of_bind h
      exact Nat.le_of_add_right_le (ihEscape h)
    split at h
    · cases h
      exact Nat.le_refl _
    · obtain ⟨-, -, h⟩ := exists_of_bind h
      exact Nat.le_of_add_right_le (ihPlain h)
  | case2 i hi => cases h

theorem lt_of_closingQuote? (h : closingQuote? bytes i = .ok (some j)) : i < j := by
  obtain ⟨quote, -, h⟩ := exists_of_bind h
  obtain ⟨-, -, h⟩ := exists_of_bind h
  exact le_of_nextQuote? h

theorem nextQuote?_escape (hs : (encode s).length < 2 ^ 31) {quote : UInt8}
    (hbyte : (encode s)[i]? = some '\\'.toUInt8) :
    nextQuote? (encode s) quote i = nextQuote? (encode s) quote (i + 2) := by
  have hi : i < (encode s).length := (List.getElem?_eq_some_iff.mp hbyte).1
  rw [nextQuote?, if_pos hi, byteAt_eq_ok_iff.mpr hbyte, ok_bind, if_pos rfl,
    checkPosition_eq (by omega), ok_bind]

theorem nextQuote?_step (hs : (encode s).length < 2 ^ 31) {quote b : UInt8}
    (hbyte : (encode s)[i]? = some b) (hback : b ≠ '\\'.toUInt8) (hquote : b ≠ quote) :
    nextQuote? (encode s) quote i = nextQuote? (encode s) quote (i + 1) := by
  have hi : i < (encode s).length := (List.getElem?_eq_some_iff.mp hbyte).1
  rw [nextQuote?, if_pos hi, byteAt_eq_ok_iff.mpr hbyte, ok_bind, if_neg hback, if_neg hquote,
    checkPosition_eq (by omega), ok_bind]

theorem nextQuote?_quote {quote : UInt8} (hbyte : (encode s)[i]? = some quote)
    (hback : quote ≠ '\\'.toUInt8) : nextQuote? (encode s) quote i = .ok (some i) := by
  have hi : i < (encode s).length := (List.getElem?_eq_some_iff.mp hbyte).1
  rw [nextQuote?, if_pos hi, byteAt_eq_ok_iff.mpr hbyte, ok_bind, if_neg hback, if_pos rfl]
  rfl

theorem nextQuote?_end {quote : UInt8} (hi : (encode s).length ≤ i) :
    nextQuote? (encode s) quote i = .ok none := by
  rw [nextQuote?, if_neg (Nat.not_lt.mpr hi)]
  rfl

def Finds (s : String) : Option Nat → Option (List Char) → Prop :=
  Option.Rel fun j after => IsAt s (j + 1) after

theorem toNat_of_isQuote (h : isQuote quote = true) : quote.toNat < 0x80 := by
  have hquote : quote = '"' ∨ quote = '\'' := by simpa [isQuote] using h
  rcases hquote with rfl | rfl <;> decide

/-- Behind an opening quote, the closing one is found where the literal is closed. -/
theorem finds_nextQuote? (hs : (encode s).length < 2 ^ 31) (hquote : isQuote quote = true)
    (h : IsAt s i cs) : ∃ found, nextQuote? (encode s) quote.toUInt8 i = .ok found ∧
      Finds s found ((closeLiteral quote cs).map Prod.snd) := by
  have hsmall := toNat_of_isQuote hquote
  have hpass {j : Nat} {b : UInt8} (hbyte : (encode s)[j]? = some b) (hb : 0x80 ≤ b.toNat) :
      nextQuote? (encode s) quote.toUInt8 j = nextQuote? (encode s) quote.toUInt8 (j + 1) :=
    nextQuote?_step hs hbyte (ne_sign hb (by decide)) (ne_sign hb hsmall)
  fun_induction closeLiteral quote cs generalizing i with
  | case1 => exact ⟨none, nextQuote?_end h.eq_length.ge, .none⟩
  | case2 =>
    have hbyte := (h.getElem?_eq_some_iff (by decide)).mpr rfl
    have hend := (h.sign (by decide)).eq_length
    refine ⟨none, ?_, .none⟩
    rw [nextQuote?_escape hs hbyte, nextQuote?_end (by omega)]
  | case3 c rest ih =>
    have hbyte := (h.getElem?_eq_some_iff (by decide)).mpr rfl
    have hbehind := h.sign (by decide)
    obtain ⟨found, hfound, hfinds⟩ := ih hbehind.cons
    refine ⟨found, ?_, by rw [Option.map_map]; exact hfinds⟩
    rw [nextQuote?_escape hs hbyte, ← hfound]
    -- the jump may end inside the character behind the backslash; its other bytes are no signs
    exact hbehind.pass _ fun j b => hpass
  | case4 rest hend hescape =>
    have hbyte := (h.getElem?_eq_some_iff hsmall).mpr rfl
    have hback : quote.toUInt8 ≠ '\\'.toUInt8 := by
      rw [← (firstByte_eq_iff hsmall).mpr rfl]
      exact mt (firstByte_eq_iff (by decide)).mp (ne_of_isQuote hquote rfl)
    exact ⟨some i, nextQuote?_quote hbyte hback, .some (h.sign hsmall)⟩
  | case5 c rest hend hescape hne ih =>
    have hc := ne_backslash hend hescape
    obtain ⟨found, hfound, hfinds⟩ := ih h.cons
    refine ⟨found, ?_, by rw [Option.map_map]; exact hfinds⟩
    have hback : firstByte c ≠ '\\'.toUInt8 := mt (firstByte_eq_iff (by decide)).mp hc
    have hother : firstByte c ≠ quote.toUInt8 := mt (firstByte_eq_iff hsmall).mp hne
    rw [nextQuote?_step hs h.getElem? hback hother, ← hfound]
    exact h.pass _ fun j b => hpass

/-- The closing quote of a literal is found where the literal is closed. -/
theorem finds_closingQuote? (hs : (encode s).length < 2 ^ 31) (hquote : isQuote quote = true)
    (h : IsAt s i (quote :: cs)) : ∃ found, closingQuote? (encode s) i = .ok found ∧
      Finds s found ((closeLiteral quote cs).map Prod.snd) := by
  have hsmall := toNat_of_isQuote hquote
  have hi := h.lt_length
  have hfirst : firstByte quote = quote.toUInt8 := (firstByte_eq_iff hsmall).mpr rfl
  obtain ⟨found, hfound, hfinds⟩ := finds_nextQuote? hs hquote (h.sign hsmall)
  refine ⟨found, ?_, hfinds⟩
  rw [closingQuote?, h.byteAt, ok_bind, checkPosition_eq (by omega), ok_bind, hfirst, hfound]

theorem isQuoteByte_firstByte (c : Char) : isQuoteByte (firstByte c) = isQuote c := by
  have hdouble : firstByte c = '"'.toUInt8 ↔ c = '"' := firstByte_eq_iff (by decide)
  have hsingle : firstByte c = '\''.toUInt8 ↔ c = '\'' := firstByte_eq_iff (by decide)
  rw [Bool.eq_iff_iff]
  simp [isQuoteByte, isQuote, hdouble, hsingle]

theorem isQuoteByte_of_le {b : UInt8} (hb : 0x80 ≤ b.toNat) : isQuoteByte b = false := by
  simp [isQuoteByte, ne_sign hb (show '"'.toNat < 0x80 by decide),
    ne_sign hb (show '\''.toNat < 0x80 by decide)]

/-! ### Block comments -/

def closesComment (bytes : Bytes) (i : Nat) : Except Fault Bool := do
  if (← byteAt bytes i) = '*'.toUInt8 then return (← byteAt bytes (i + 1)) = '/'.toUInt8
  else return false

def commentEnd (bytes : Bytes) (i : Nat) : Except Fault Nat := do
  checkPosition (i + 1)
  if i + 1 < bytes.length then
    if ← closesComment bytes i then
      checkPosition (i + 2)
      return i + 2
    else commentEnd bytes (i + 1)
  else return bytes.length
termination_by bytes.length - i

def afterComment (bytes : Bytes) (start : Nat) : Except Fault Nat := do
  checkPosition (start + 2)
  commentEnd bytes (start + 2)

theorem le_of_commentEnd (h : commentEnd bytes i = .ok j) :
    i ≤ j ∨ j = bytes.length := by
  fun_induction commentEnd bytes i with
  | case1 i ih =>
    obtain ⟨-, -, h⟩ := exists_of_bind h
    split at h
    · obtain ⟨closes, -, h⟩ := exists_of_bind h
      split at h
      · obtain ⟨-, -, h⟩ := exists_of_bind h
        cases h
        exact .inl (Nat.le_add_right i 2)
      · cases ih ‹_› h with
        | inl hle => exact .inl (Nat.le_of_succ_le hle)
        | inr hend => exact .inr hend
    · cases h
      exact .inr rfl

theorem lt_of_afterComment (hi : i < bytes.length) (h : afterComment bytes i = .ok j) : i < j := by
  obtain ⟨-, -, h⟩ := exists_of_bind h
  cases le_of_commentEnd h with
  | inl hle => omega
  | inr hend => omega

theorem closesComment_eq (hi : i + 1 < bytes.length) :
    closesComment bytes i = .ok (decide (IsPair bytes i '*' '/')) := by
  have hfirst := List.getElem?_eq_getElem (Nat.lt_of_succ_lt hi)
  have hsecond := List.getElem?_eq_getElem hi
  rw [closesComment, byteAt_eq_ok_iff.mpr hfirst, byteAt_eq_ok_iff.mpr hsecond, ok_bind, ok_bind]
  by_cases hstar : bytes[i] = '*'.toUInt8 <;> simp [IsPair, hfirst, hsecond, hstar] <;> rfl

theorem commentEnd_step (hs : (encode s).length < 2 ^ 31) (hi : i < (encode s).length)
    (hopen : ¬ IsPair (encode s) i '*' '/') :
    commentEnd (encode s) i = commentEnd (encode s) (i + 1) := by
  rw [commentEnd, checkPosition_eq (by omega), ok_bind]
  split
  · next hnext => rw [closesComment_eq hnext, ok_bind, decide_eq_false hopen, if_neg (by decide)]
  · next hnext =>
    rw [commentEnd, checkPosition_eq (by omega), ok_bind, if_neg (by omega)]

theorem commentEnd_length (hs : (encode s).length < 2 ^ 31) :
    commentEnd (encode s) (encode s).length = .ok (encode s).length := by
  rw [commentEnd, checkPosition_eq (by omega), ok_bind, if_neg (by omega)]
  rfl

/-- The end of a block comment is found where the comment is closed. -/
theorem commentEnd_eq (hs : (encode s).length < 2 ^ 31) (h : IsAt s i cs) :
    ∃ stop, commentEnd (encode s) i = .ok stop ∧ IsAt s stop (closeComment cs).2 := by
  fun_induction closeComment cs generalizing i with
  | case1 =>
    obtain rfl := h.eq_length
    exact ⟨_, commentEnd_length hs, h⟩
  | case2 rest =>
    have hslash := h.sign (by decide)
    have hend := hslash.sign (by decide)
    have hclosed : IsPair (encode s) i '*' '/' :=
      (h.isPair_iff (by decide) (by decide)).mpr ⟨rfl, rest, rfl⟩
    refine ⟨i + 2, ?_, hend⟩
    have hi := hslash.lt_length
    rw [commentEnd, checkPosition_eq (by omega), ok_bind, if_pos hi, closesComment_eq hi, ok_bind,
      decide_eq_true hclosed, if_pos rfl, checkPosition_eq (by omega), ok_bind]
    rfl
  | case3 c rest hopen ih =>
    obtain ⟨stop, hstop, hat⟩ := ih h.cons
    refine ⟨stop, ?_, hat⟩
    have hmarks : ¬ IsPair (encode s) i '*' '/' := by
      rw [h.isPair_iff (by decide) (by decide)]
      rintro ⟨hc, tail, htail⟩
      exact hopen tail hc htail
    rw [commentEnd_step hs h.lt_length hmarks, ← hstop]
    exact h.pass _ fun j b hbyte hb => commentEnd_step hs (List.getElem?_eq_some_iff.mp hbyte).1
      (not_isPair hb hbyte (by decide))

theorem afterComment_eq (hs : (encode s).length < 2 ^ 31)
    (h : IsAt s i ('/' :: '*' :: cs)) :
    ∃ stop, afterComment (encode s) i = .ok stop ∧ IsAt s stop (closeComment cs).2 := by
  have hstar := h.sign (by decide)
  have hi := hstar.lt_length
  obtain ⟨stop, hstop, hat⟩ := commentEnd_eq hs (hstar.sign (by decide))
  exact ⟨stop, by rw [afterComment, checkPosition_eq (by omega), ok_bind, hstop], hat⟩

/-! ### Line comments -/

def lineEnd (s : String) (i : Nat) : Except Fault Nat := do
  let rest ← slice s i (encode s).length
  match first? '\n' rest.toList with
  | some n =>
    checkPosition (i + n)
    return i + n
  | none => return (encode s).length

/-- A text on the way to have its line comments taken out. What stands before `copied` has been
written to `out`, and what stands before `next` has been looked at. -/
structure Stripping where
  out : String := ""
  copied : Nat := 0
  next : Nat := 0
  deriving DecidableEq, Repr

def Stripping.step (s : String) (state : Stripping) : Except Fault Stripping := do
  let bytes := encode s
  let b ← byteAt bytes state.next
  if isQuoteByte b then
    match ← closingQuote? bytes state.next with
    | some j =>
      checkPosition (j + 1)
      return { state with next := j + 1 }
    | none => return { state with next := bytes.length }
  else
    checkPosition (state.next + 1)
    if IsPair bytes state.next '/' '*' then
      return { state with next := ← afterComment bytes state.next }
    else if IsPair bytes state.next '/' '/' then
      let kept ← slice s state.copied state.next
      let stop ← lineEnd s state.next
      return { out := state.out ++ kept ++ " ", copied := stop, next := stop }
    else return { state with next := state.next + 1 }

/-- A line end is not where a slash is. -/
theorem lt_of_lineEnd (hi : i < (encode s).length)
    (hslash : (encode s)[i]? = some '/'.toUInt8) (h : lineEnd s i = .ok j) : i < j := by
  obtain ⟨rest, hrest, h⟩ := exists_of_bind h
  obtain ⟨after, hat⟩ := exists_of_slice hrest
  split at h
  · next n hfirst =>
    obtain ⟨-, -, h⟩ := exists_of_bind h
    cases h
    -- what is cut out starts with the slash, so the first line end in it is further on
    have hne : n ≠ 0 := by
      rintro rfl
      have hhead : (rest.toList ++ after).head? = some '/' :=
        (hat.getElem?_eq_some_iff (by decide)).mp hslash
      rw [List.head?_append, head?_of_first? hfirst, Option.some_or] at hhead
      exact absurd (Option.some.inj hhead) (by decide)
    omega
  · cases h
    exact hi

/-- Every step of the search for line comments leads on. -/
theorem Stripping.lt_next {state further : Stripping}
    (hnext : state.next < (encode s).length) (h : state.step s = .ok further) :
    state.next < further.next := by
  obtain ⟨b, -, h⟩ := exists_of_bind h
  split at h
  · obtain ⟨found, hfound, h⟩ := exists_of_bind h
    split at h
    · obtain ⟨-, -, h⟩ := exists_of_bind h
      cases h
      exact Nat.lt_succ_of_lt (lt_of_closingQuote? hfound)
    · cases h
      exact hnext
  obtain ⟨-, -, h⟩ := exists_of_bind h
  split at h
  · obtain ⟨stop, hstop, h⟩ := exists_of_bind h
    cases h
    exact lt_of_afterComment hnext hstop
  split at h
  · next hslash =>
    obtain ⟨kept, -, h⟩ := exists_of_bind h
    obtain ⟨stop, hstop, h⟩ := exists_of_bind h
    cases h
    exact lt_of_lineEnd hnext hslash.1 hstop
  · cases h
    exact Nat.lt_succ_self state.next

def Stripping.run (s : String) (state : Stripping) : Except Fault Stripping :=
  if _ : state.next < (encode s).length then
    match _ : state.step s with
    | .ok further => further.run s
    | .error fault => .error fault
  else .ok state
termination_by (encode s).length - state.next
decreasing_by
  have hfurther : state.next < further.next := Stripping.lt_next ‹_› ‹_›
  omega

def stripLineComments (s : String) : Except Fault String := do
  let state ← Stripping.run s {}
  let rest ← slice s state.copied (encode s).length
  return state.out ++ rest

/-- The rest of a text can be cut out where a character starts. -/
theorem slice_rest (h : IsAt s i cs) : slice s i (encode s).length = .ok (String.ofList cs) := by
  have hwhole : IsAt s i (cs ++ []) := by rwa [List.append_nil]
  rw [← h.add_utf8Len, hwhole.slice_eq]

theorem lineEnd_eq (hs : (encode s).length < 2 ^ 31) (h : IsAt s i cs) :
    ∃ stop, lineEnd s i = .ok stop ∧ IsAt s stop (cs.dropWhile (· ≠ '\n')) := by
  rw [lineEnd, slice_rest h, ok_bind, String.toList_ofList]
  cases hfirst : first? '\n' cs with
  | none =>
    have hnone : cs.dropWhile (· ≠ '\n') = [] :=
      List.dropWhile_eq_nil_iff.mpr fun c hc =>
        decide_eq_true fun heq => not_mem_of_first? hfirst (heq ▸ hc)
    exact ⟨_, rfl, hnone ▸ isAt_length s⟩
  | some n =>
    have hstop := (h.first? hfirst).2
    have hbound := hstop.le_length
    refine ⟨_, ?_, hstop⟩
    simp only [checkPosition_eq (show i + n < 2 ^ 32 by omega), ok_bind]
    rfl

namespace Stripping

variable {state further : Stripping} {written : List Char}

theorem run_eq (hnext : state.next < (encode s).length) (h : state.step s = .ok further) :
    state.run s = further.run s := by
  rw [run, dif_pos hnext]
  split
  · next hstep => rw [Except.ok.inj (h.symm.trans hstep)]
  · next hstep => rw [h] at hstep; contradiction

theorem run_plain (hs : (encode s).length < 2 ^ 31) {b : UInt8}
    (hbyte : (encode s)[state.next]? = some b) (hquote : isQuoteByte b = false)
    (hblock : ¬ IsPair (encode s) state.next '/' '*')
    (hline : ¬ IsPair (encode s) state.next '/' '/') :
    state.run s = { state with next := state.next + 1 }.run s := by
  have hnext : state.next < (encode s).length := (List.getElem?_eq_some_iff.mp hbyte).1
  refine run_eq hnext ?_
  rw [step, byteAt_eq_ok_iff.mpr hbyte, ok_bind, if_neg (by simp [hquote]),
    checkPosition_eq (by omega), ok_bind, if_neg hblock, if_neg hline]
  rfl

def Holds (s : String) (state : Stripping) (written back : List Char) : Prop :=
  ∃ kept, IsAt s state.copied (kept ++ back) ∧
    state.next = state.copied + String.utf8Len kept ∧ state.out.toList ++ kept = written

theorem Holds.isAt {back : List Char} (h : Holds s state written back) :
    IsAt s state.next back := by
  obtain ⟨kept, hat, hnext, -⟩ := h
  exact hnext ▸ hat.append

/-- What is passed over is left to copy. -/
theorem Holds.skip {after : List Char} (h : Holds s state written (cs ++ after)) {stop : Nat}
    (hstop : IsAt s stop after) :
    Holds s { state with next := stop } (written ++ cs) after := by
  obtain ⟨kept, hat, -, rfl⟩ := h
  rw [← List.append_assoc] at hat
  have hlength := hat.append.add_utf8Len
  have hsame := hstop.add_utf8Len
  exact ⟨kept ++ cs, hat, by simp only; omega, (List.append_assoc _ _ _).symm⟩

/-- A literal that is closed. -/
theorem Holds.literal (hs : (encode s).length < 2 ^ 31) (h : Holds s state written (quote :: rest))
    (hquote : isQuote quote = true) {inner after : List Char}
    (hclose : closeLiteral quote rest = some (inner, after)) : ∃ further : Stripping,
    state.run s = further.run s ∧ further.Holds s (written ++ quote :: inner) after := by
  have hat := h.isAt
  obtain ⟨found, hfound, hfinds⟩ := finds_closingQuote? hs hquote hat
  rw [hclose] at hfinds
  obtain ⟨j, rfl, hbehind⟩ : ∃ j, found = some j ∧ IsAt s (j + 1) after := by
    cases hfinds with
    | some hbehind => exact ⟨_, rfl, hbehind⟩
  have hbound := hbehind.le_length
  have hstep : state.step s = .ok { state with next := j + 1 } := by
    rw [step, hat.byteAt, ok_bind, isQuoteByte_firstByte, if_pos hquote, hfound, ok_bind]
    simp only [checkPosition_eq (show j + 1 < 2 ^ 32 by omega), ok_bind]
    rfl
  rw [closeLiteral_eq_append hclose, ← List.cons_append] at h
  exact ⟨_, run_eq hat.lt_length hstep, h.skip hbehind⟩

/-- A literal that is never closed reaches to the end of the text. -/
theorem Holds.openLiteral (hs : (encode s).length < 2 ^ 31)
    (h : Holds s state written (quote :: rest)) (hquote : isQuote quote = true)
    (hopen : closeLiteral quote rest = none) : ∃ further : Stripping,
    state.run s = further.run s ∧ further.Holds s (written ++ quote :: rest) [] := by
  have hat := h.isAt
  obtain ⟨found, hfound, hfinds⟩ := finds_closingQuote? hs hquote hat
  rw [hopen] at hfinds
  cases hfinds
  have hstep : state.step s = .ok { state with next := (encode s).length } := by
    rw [step, hat.byteAt, ok_bind, isQuoteByte_firstByte, if_pos hquote, hfound, ok_bind]
    rfl
  rw [← List.append_nil (quote :: rest)] at h
  exact ⟨_, run_eq hat.lt_length hstep, h.skip (isAt_length s)⟩

theorem Holds.blockComment (hs : (encode s).length < 2 ^ 31)
    (h : Holds s state written ('/' :: '*' :: rest)) : ∃ further : Stripping,
    state.run s = further.run s ∧ further.Holds s
      (written ++ '/' :: '*' :: (closeComment rest).1) (closeComment rest).2 := by
  have hat := h.isAt
  have hnext := hat.lt_length
  have hopens : IsPair (encode s) state.next '/' '*' :=
    (hat.isPair_iff (by decide) (by decide)).mpr ⟨rfl, rest, rfl⟩
  obtain ⟨stop, hstop, hbehind⟩ := afterComment_eq hs hat
  have hstep : state.step s = .ok { state with next := stop } := by
    rw [step, hat.byteAt, ok_bind, if_neg (by decide), checkPosition_eq (by omega), ok_bind,
      if_pos hopens, hstop, ok_bind]
    rfl
  rw [← closeComment_append rest, ← List.cons_append, ← List.cons_append] at h
  exact ⟨_, run_eq hnext hstep, h.skip hbehind⟩

/-- What is left to copy before a line comment is written out, and then a space. -/
theorem Holds.lineComment (hs : (encode s).length < 2 ^ 31)
    (h : Holds s state written ('/' :: '/' :: rest)) : ∃ further : Stripping,
    state.run s = further.run s ∧ further.Holds s (written ++ [' '])
      (rest.dropWhile (· ≠ '\n')) := by
  have hat := h.isAt
  have hnext := hat.lt_length
  have hopens : IsPair (encode s) state.next '/' '/' :=
    (hat.isPair_iff (by decide) (by decide)).mpr ⟨rfl, rest, rfl⟩
  have hblock : ¬ IsPair (encode s) state.next '/' '*' := by
    rw [hat.isPair_iff (by decide) (by decide)]
    simp
  obtain ⟨kept, hcopied, hkept, rfl⟩ := h
  obtain ⟨stop, hstop, hbehind⟩ := lineEnd_eq hs hat
  have hslice : slice s state.copied state.next = .ok (String.ofList kept) :=
    hkept ▸ hcopied.slice_eq
  have hstep : state.step s =
      .ok { out := state.out ++ String.ofList kept ++ " ", copied := stop, next := stop } := by
    rw [step, hat.byteAt, ok_bind, if_neg (by decide), checkPosition_eq (by omega), ok_bind,
      if_neg hblock, if_pos hopens, hslice, ok_bind, hstop, ok_bind]
    rfl
  refine ⟨_, run_eq hnext hstep, [], ?_, rfl, ?_⟩
  · simpa using hbehind
  · simp

/-- A character of code, all its bytes. -/
theorem Holds.code (hs : (encode s).length < 2 ^ 31) (h : Holds s state written (c :: rest))
    (hquote : isQuote c ≠ true) (hblock : ∀ tail, c = '/' → rest = '*' :: tail → False)
    (hline : ∀ tail, c = '/' → rest = '/' :: tail → False) : ∃ further : Stripping,
    state.run s = further.run s ∧ further.Holds s (written ++ [c]) rest := by
  have hat := h.isAt
  have hpair (sign : Char) (hsign : sign.toNat < 0x80)
      (hnot : ∀ tail, c = '/' → rest = sign :: tail → False) :
      ¬ IsPair (encode s) state.next '/' sign := by
    rw [hat.isPair_iff (by decide) hsign]
    rintro ⟨hc, tail, htail⟩
    exact hnot tail hc htail
  have hplain := (isQuoteByte_firstByte c).trans (Bool.eq_false_iff.mpr hquote)
  have hone : Holds s state written ([c] ++ rest) := h
  refine ⟨{ state with next := state.next + c.utf8Size }, ?_, hone.skip hat.cons⟩
  rw [run_plain hs hat.getElem? hplain (hpair '*' (by decide) hblock)
    (hpair '/' (by decide) hline)]
  exact hat.pass (fun j => run s { state with next := j }) fun j b hbyte hb =>
    run_plain hs hbyte (isQuoteByte_of_le hb) (not_isPair hb hbyte (by decide))
      (not_isPair hb hbyte (by decide))

/-- One piece of the text. -/
theorem Holds.piece (hs : (encode s).length < 2 ^ 31) (h : Holds s state written (c :: rest)) :
    ∃ further : Stripping, state.run s = further.run s ∧ further.Holds s
      (written ++ (firstPiece c rest).1.withoutLineComment) (firstPiece c rest).2 := by
  fun_cases firstPiece c rest with
  | case1 _ _ hquote inner after hclose => exact h.literal hs hquote hclose
  | case2 _ _ hquote hopen => exact h.openLiteral hs hquote hopen
  | case3 rest hquote => exact h.blockComment hs
  | case4 rest hquote => exact h.lineComment hs
  | case5 _ _ hblock hline hquote => exact h.code hs hquote hblock hline

/-- The whole text behind. -/
theorem Holds.run (hs : (encode s).length < 2 ^ 31) {back : List Char}
    (h : Holds s state written back) : ∃ final : Stripping,
    state.run s = .ok final ∧ final.Holds s (written ++ Source.stripLineComments back) [] := by
  rw [Source.stripLineComments]
  fun_induction pieces back generalizing state written with
  | case1 =>
    have hend := h.isAt.eq_length
    refine ⟨state, ?_, ?_⟩
    · rw [Stripping.run, dif_neg (by omega)]
    · simpa using h
  | case2 c rest ih =>
    obtain ⟨further, hrun, hfurther⟩ := h.piece hs
    obtain ⟨final, hfinal, hholds⟩ := ih hfurther
    refine ⟨final, hrun.trans hfinal, ?_⟩
    rwa [List.flatMap_cons, ← List.append_assoc]

end Stripping

/-- Line comments are taken out of a text as they are taken out of its characters. -/
theorem stripLineComments_eq (hs : (encode s).length < 2 ^ 31) :
    stripLineComments s = .ok (String.ofList (Source.stripLineComments s.toList)) := by
  have hstart : Stripping.Holds s {} [] s.toList := ⟨[], isAt_zero s, rfl, rfl⟩
  obtain ⟨final, hrun, kept, hcopied, -, hwritten⟩ := hstart.run hs
  rw [List.append_nil] at hcopied
  rw [stripLineComments, hrun, ok_bind, slice_rest hcopied, ok_bind,
    ← String.ofList_toList (s := final.out), ← String.ofList_append, hwritten, List.nil_append]
  rfl

end Sketchbook.Position
