import Sketchbook.Proofs.Source.ByPosition
import Sketchbook.Proofs.Prototype.Line

/-! A prototype is found by the positions of bytes. The brace that closes the body is found where
the characters close it, with room for every depth on the way, so the body and the comments are
cut out without a fault and what is left is the prototype. -/
namespace Sketchbook.Position
open Text Source

variable {s : String} {bytes : Bytes} {i : Nat} {c quote : Char} {cs rest : List Char}

/-! ### Braces -/

structure Matching where
  depth : Int
  next : Nat
  deriving DecidableEq, Repr

inductive Matching.Stride where
  | found (i : Nat)
  | further (state : Matching)

def Matching.step (bytes : Bytes) (opening closing : UInt8) (state : Matching) :
    Except Fault Matching.Stride := do
  let b ← byteAt bytes state.next
  if b = opening then
    checkDepth (state.depth + 1)
    checkPosition (state.next + 1)
    return .further ⟨state.depth + 1, state.next + 1⟩
  else if b = closing then
    checkDepth (state.depth - 1)
    if state.depth - 1 = 0 then return .found state.next
    else
      checkPosition (state.next + 1)
      return .further ⟨state.depth - 1, state.next + 1⟩
  else if isQuoteByte b then
    match ← closingQuote? bytes state.next with
    | some j =>
      checkPosition (j + 1)
      return .further { state with next := j + 1 }
    | none =>
      checkPosition (state.next + 1)
      return .further { state with next := state.next + 1 }
  else
    checkPosition (state.next + 1)
    if IsPair bytes state.next '/' '*' then
      return .further { state with next := ← afterComment bytes state.next }
    else return .further { state with next := state.next + 1 }

/-- Every step of the search for a matching brace leads on. -/
theorem Matching.lt_next {opening closing : UInt8} {state further : Matching}
    (hnext : state.next < bytes.length)
    (h : state.step bytes opening closing = .ok (.further further)) :
    state.next < further.next := by
  obtain ⟨b, -, h⟩ := exists_of_bind h
  split at h
  · obtain ⟨-, -, h⟩ := exists_of_bind h
    obtain ⟨-, -, h⟩ := exists_of_bind h
    cases h
    exact Nat.lt_succ_self state.next
  split at h
  · obtain ⟨-, -, h⟩ := exists_of_bind h
    split at h
    · cases h
    · obtain ⟨-, -, h⟩ := exists_of_bind h
      cases h
      exact Nat.lt_succ_self state.next
  split at h
  · obtain ⟨found, hfound, h⟩ := exists_of_bind h
    split at h
    · obtain ⟨-, -, h⟩ := exists_of_bind h
      cases h
      exact Nat.lt_succ_of_lt (lt_of_closingQuote? hfound)
    · obtain ⟨-, -, h⟩ := exists_of_bind h
      cases h
      exact Nat.lt_succ_self state.next
  obtain ⟨-, -, h⟩ := exists_of_bind h
  split at h
  · obtain ⟨stop, hstop, h⟩ := exists_of_bind h
    cases h
    exact lt_of_afterComment hnext hstop
  · cases h
    exact Nat.lt_succ_self state.next

def Matching.run (bytes : Bytes) (opening closing : UInt8) (state : Matching) :
    Except Fault (Option Nat) :=
  if _ : state.next < bytes.length then
    match _ : state.step bytes opening closing with
    | .ok (.found i) => .ok (some i)
    | .ok (.further further) => further.run bytes opening closing
    | .error fault => .error fault
  else .ok none
termination_by bytes.length - state.next
decreasing_by
  have hfurther : state.next < further.next := Matching.lt_next ‹_› ‹_›
  omega

def matching? (bytes : Bytes) (start : Nat) (opening closing : UInt8) :
    Except Fault (Option Nat) := do
  if bytes.length ≤ start then return none
  else if (← byteAt bytes start) ≠ opening then return none
  else Matching.run bytes opening closing ⟨0, start⟩

def cutOut (s : String) (start stop : Nat) : Except Fault String := do
  let before ← slice s 0 start
  checkPosition (stop + 1)
  let behind ← slice s (stop + 1) (encode s).length
  return before ++ behind

def stripBody (s : String) : Except Fault String := do
  match first? openBrace s.toList with
  | none => return s
  | some start =>
    let found ← matching? (encode s) start openBrace.toUInt8 closeBrace.toUInt8
    match found.or ((last? closeBrace s.toList).filter (start < ·)) with
    | none => return s
    | some stop => cutOut s start stop

/-! ### The body in a text -/

namespace Matching

variable {state further : Matching} {opening closing : UInt8}

theorem run_eq (hnext : state.next < (encode s).length)
    (h : state.step (encode s) opening closing = .ok (.further further)) :
    state.run (encode s) opening closing = further.run (encode s) opening closing := by
  rw [run, dif_pos hnext]
  split
  · next hstep => rw [h] at hstep; cases hstep
  · next hstep => rw [h] at hstep; cases hstep; rfl
  · next hstep => rw [h] at hstep; cases hstep

theorem run_found (hnext : state.next < (encode s).length)
    (h : state.step (encode s) opening closing = .ok (.found i)) :
    state.run (encode s) opening closing = .ok (some i) := by
  rw [run, dif_pos hnext]
  split
  · next hstep => rw [h] at hstep; cases hstep; rfl
  · next hstep => rw [h] at hstep; cases hstep
  · next hstep => rw [h] at hstep; cases hstep

theorem run_plain (hs : (encode s).length < 2 ^ 31) {b : UInt8}
    (hbyte : (encode s)[state.next]? = some b) (hopening : b ≠ opening) (hclosing : b ≠ closing)
    (hquote : isQuoteByte b = false)
    (hblock : ¬ IsPair (encode s) state.next '/' '*') :
    state.run (encode s) opening closing =
      { state with next := state.next + 1 }.run (encode s) opening closing := by
  have hnext : state.next < (encode s).length := (List.getElem?_eq_some_iff.mp hbyte).1
  refine run_eq hnext ?_
  rw [step, byteAt_eq_ok_iff.mpr hbyte, ok_bind, if_neg hopening, if_neg hclosing,
    if_neg (by simp [hquote]), checkPosition_eq (by omega), ok_bind, if_neg hblock]
  rfl

theorem step_opening (hs : (encode s).length < 2 ^ 31)
    (h : IsAt s state.next (openBrace :: rest))
    (hdepth : 0 ≤ state.depth ∧ state.depth + 1 < 2 ^ 31) :
    state.step (encode s) openBrace.toUInt8 closing =
      .ok (.further ⟨state.depth + 1, state.next + 1⟩) := by
  have hnext := h.lt_length
  rw [step, h.byteAt, ok_bind, if_pos (by decide), checkDepth_eq (by omega), ok_bind,
    checkPosition_eq (by omega)]
  rfl

theorem step_last (h : IsAt s state.next (closeBrace :: rest)) (hdepth : state.depth = 1) :
    state.step (encode s) openBrace.toUInt8 closeBrace.toUInt8 = .ok (.found state.next) := by
  rw [step, h.byteAt, ok_bind, if_neg (by decide), if_pos (by decide), checkDepth_eq (by omega),
    ok_bind, if_pos (by omega)]
  rfl

theorem step_closing (hs : (encode s).length < 2 ^ 31)
    (h : IsAt s state.next (closeBrace :: rest))
    (hdepth : 1 < state.depth ∧ state.depth < 2 ^ 31) :
    state.step (encode s) openBrace.toUInt8 closeBrace.toUInt8 =
      .ok (.further ⟨state.depth - 1, state.next + 1⟩) := by
  have hnext := h.lt_length
  rw [step, h.byteAt, ok_bind, if_neg (by decide), if_pos (by decide), checkDepth_eq (by omega),
    ok_bind, if_neg (by omega), checkPosition_eq (by omega)]
  rfl

/-- A literal is passed over if it is closed, and else its quote alone. -/
theorem step_quote (hs : (encode s).length < 2 ^ 31)
    (h : IsAt s state.next (quote :: rest)) (hquote : isQuote quote = true) :
    ∃ stop, state.step (encode s) openBrace.toUInt8 closeBrace.toUInt8 =
      .ok (.further { state with next := stop }) ∧ IsAt s stop (afterLiteral quote rest) := by
  have hnext := h.lt_length
  have hopening := mt (firstByte_eq_iff (by decide)).mp (ne_of_isQuote (d := openBrace) hquote rfl)
  have hclosing := mt (firstByte_eq_iff (by decide)).mp (ne_of_isQuote (d := closeBrace) hquote rfl)
  obtain ⟨found, hfound, hfinds⟩ := finds_closingQuote? hs hquote h
  rw [step, h.byteAt, ok_bind, if_neg hopening, if_neg hclosing, isQuoteByte_firstByte,
    if_pos hquote, hfound, ok_bind]
  unfold afterLiteral
  cases hclose : closeLiteral quote rest with
  | none =>
    rw [hclose] at hfinds
    cases hfinds
    refine ⟨state.next + 1, ?_, h.sign (toNat_of_isQuote hquote)⟩
    simp only [checkPosition_eq (show state.next + 1 < 2 ^ 32 by omega), ok_bind]
    rfl
  | some literal =>
    rw [hclose] at hfinds
    cases hfinds with
    | @some j _ hbehind =>
      have hbound := hbehind.le_length
      refine ⟨j + 1, ?_, hbehind⟩
      simp only [checkPosition_eq (show j + 1 < 2 ^ 32 by omega), ok_bind]
      rfl

theorem step_comment (hs : (encode s).length < 2 ^ 31)
    (h : IsAt s state.next ('/' :: '*' :: rest)) :
    ∃ stop, state.step (encode s) openBrace.toUInt8 closeBrace.toUInt8 =
      .ok (.further { state with next := stop }) ∧ IsAt s stop (closeComment rest).2 := by
  have hnext := h.lt_length
  have hopens : IsPair (encode s) state.next '/' '*' :=
    (h.isPair_iff (by decide) (by decide)).mpr ⟨rfl, rest, rfl⟩
  obtain ⟨stop, hstop, hbehind⟩ := afterComment_eq hs h
  refine ⟨stop, ?_, hbehind⟩
  rw [step, h.byteAt, ok_bind, if_neg (by decide), if_neg (by decide), if_neg (by decide),
    checkPosition_eq (by omega), ok_bind, if_pos hopens, hstop, ok_bind]
  rfl

/-- A character that counts for nothing is passed over with all its bytes. -/
theorem run_character (hs : (encode s).length < 2 ^ 31) (h : IsAt s state.next (c :: rest))
    (hopening : c ≠ openBrace) (hclosing : c ≠ closeBrace) (hquote : isQuote c ≠ true)
    (hblock : ∀ tail, c = '/' → rest = '*' :: tail → False) :
    state.run (encode s) openBrace.toUInt8 closeBrace.toUInt8 =
      { state with next := state.next + c.utf8Size }.run (encode s) openBrace.toUInt8
        closeBrace.toUInt8 := by
  have hpair : ¬ IsPair (encode s) state.next '/' '*' := by
    rw [h.isPair_iff (by decide) (by decide)]
    rintro ⟨hc, tail, htail⟩
    exact hblock tail hc htail
  have hplain := (isQuoteByte_firstByte c).trans (Bool.eq_false_iff.mpr hquote)
  rw [run_plain hs h.getElem? (mt (firstByte_eq_iff (by decide)).mp hopening)
    (mt (firstByte_eq_iff (by decide)).mp hclosing) hplain hpair]
  exact h.pass (fun j => { state with next := j }.run (encode s) openBrace.toUInt8
    closeBrace.toUInt8) fun j b hbyte hb => run_plain hs hbyte (ne_sign hb (by decide))
      (ne_sign hb (by decide)) (isQuoteByte_of_le hb) (not_isPair hb hbyte (by decide))

/-- The brace that brings the open braces down to none is found where it closes the text. -/
theorem finds_run (hs : (encode s).length < 2 ^ 31) (state : Matching) {depth : Nat}
    (hstate : state.depth = depth) (hdepth : 1 ≤ depth) (h : IsAt s state.next cs)
    (hbound : depth + String.utf8Len cs < 2 ^ 31) :
    ∃ found, state.run (encode s) openBrace.toUInt8 closeBrace.toUInt8 = .ok found ∧
      Finds s found (afterMatch depth cs) := by
  -- a brace that raises the depth leaves one byte less behind it, so the bound carries over
  fun_induction afterMatch depth cs generalizing state with
  | case1 depth =>
    have hend := h.eq_length
    exact ⟨none, by rw [run, dif_neg (by omega)], .none⟩
  | case2 depth rest ih =>
    rw [String.utf8Len_cons, utf8Size_of_lt (by decide)] at hbound
    have hstep : state.step (encode s) openBrace.toUInt8 closeBrace.toUInt8 = _ :=
      step_opening hs h (by omega)
    have hmore : state.depth + 1 = (depth + 1 : Nat) := by omega
    rw [run_eq h.lt_length hstep]
    exact ih _ hmore (by omega) (h.sign (by decide)) (by omega)
  | case3 depth rest hlast hne =>
    have hstep := step_last h (by omega)
    exact ⟨some state.next, run_found h.lt_length hstep, .some (h.sign (by decide))⟩
  | case4 depth rest hlast hne ih =>
    rw [String.utf8Len_cons, utf8Size_of_lt (by decide)] at hbound
    have hstep := step_closing hs h (by omega)
    have hless : state.depth - 1 = (depth - 1 : Nat) := by omega
    rw [run_eq h.lt_length hstep]
    exact ih _ hless (by omega) (h.sign (by decide)) (by omega)
  | case5 depth c rest hopening hclosing hquote ih =>
    obtain ⟨stop, hstep, hbehind⟩ := step_quote hs h hquote
    have hfurther : state.next < stop := lt_next h.lt_length hstep
    have hle := h.utf8Len_le hbehind hfurther.le
    rw [run_eq h.lt_length hstep]
    exact ih _ hstate hdepth hbehind (by omega)
  | case6 depth rest _ _ _ ih =>
    obtain ⟨stop, hstep, hbehind⟩ := step_comment hs h
    have hfurther : state.next < stop := lt_next h.lt_length hstep
    have hle := h.utf8Len_le hbehind hfurther.le
    rw [run_eq h.lt_length hstep]
    exact ih _ hstate hdepth hbehind (by omega)
  | case7 depth c hopening hclosing hquote rest hblock ih =>
    have hsize := c.utf8Size_pos
    rw [String.utf8Len_cons] at hbound
    rw [run_character hs h hopening hclosing hquote hblock]
    exact ih _ hstate hdepth h.cons (by omega)

end Matching

theorem finds_matching? (hs : (encode s).length < 2 ^ 31) (h : IsAt s i (openBrace :: rest)) :
    ∃ found, matching? (encode s) i openBrace.toUInt8 closeBrace.toUInt8 = .ok found ∧
      Finds s found (afterMatch 1 rest) := by
  have hlength := h.add_utf8Len
  rw [String.utf8Len_cons, utf8Size_of_lt (by decide)] at hlength
  have hstep : Matching.step (encode s) openBrace.toUInt8 closeBrace.toUInt8 ⟨0, i⟩ =
      .ok (.further ⟨1, i + 1⟩) := Matching.step_opening hs h (by simp)
  obtain ⟨found, hfound, hfinds⟩ : ∃ found,
      Matching.run (encode s) openBrace.toUInt8 closeBrace.toUInt8 ⟨1, i + 1⟩ = .ok found ∧
        Finds s found (afterMatch 1 rest) :=
    Matching.finds_run hs _ rfl (Nat.le_refl 1) (h.sign (by decide)) (by omega)
  refine ⟨found, ?_, hfinds⟩
  rw [matching?, if_neg (by omega), h.byteAt, ok_bind, if_neg (by decide), ← hfound]
  exact Matching.run_eq h.lt_length hstep

theorem Finds.or {found more : Option Nat} {after? others? : Option (List Char)}
    (h : Finds s found after?) (hmore : Finds s more others?) :
    Finds s (found.or more) (after?.or others?) := by
  cases h with
  | some hat => exact .some hat
  | none => exact hmore

/-- The last closing brace is found right before the text behind it. -/
theorem finds_last? (h : IsAt s i cs) :
    Finds s ((last? closeBrace cs).map (i + ·)) (afterLastBrace cs) := by
  induction cs generalizing i with
  | nil => exact .none
  | cons c rest ih =>
    have hbehind := ih h.cons
    have hhere : Finds s ((if c = closeBrace then some 0 else none).map (i + ·))
        (if c = closeBrace then some rest else none) := by
      split
      · next hc => exact .some ((hc ▸ h).sign (by decide))
      · exact .none
    have hshift : ((last? closeBrace rest).map (c.utf8Size + ·)).map (i + ·) =
        (last? closeBrace rest).map (i + c.utf8Size + ·) := by
      rw [Option.map_map]
      exact congrArg (Option.map · _) (funext fun n => (Nat.add_assoc i c.utf8Size n).symm)
    rw [last?, afterLastBrace, Option.map_or, hshift]
    exact hbehind.or hhere

/-- The closing brace of the body is found behind the first open brace of the text. -/
theorem finds_body (hs : (encode s).length < 2 ^ 31) {front inner : List Char}
    (hsplit : s.toList = front ++ openBrace :: inner) : ∃ found,
      matching? (encode s) (String.utf8Len front) openBrace.toUInt8 closeBrace.toUInt8 =
        .ok found ∧
      Finds s (found.or ((last? closeBrace s.toList).filter (String.utf8Len front < ·)))
        ((afterMatch 1 inner).or (afterLastBrace inner)) := by
  have hopen : IsAt s (String.utf8Len front) (openBrace :: inner) := ⟨front, hsplit, rfl⟩
  obtain ⟨found, hfound, hfinds⟩ := finds_matching? hs hopen
  refine ⟨found, hfound, hfinds.or ?_⟩
  rw [hsplit, filter_last? (by decide)]
  exact finds_last? hopen.cons

theorem cutOut_eq (hs : (encode s).length < 2 ^ 31) {front after : List Char} {stop : Nat}
    (hfront : IsAt s 0 (front ++ rest)) (hstop : IsAt s (stop + 1) after) :
    cutOut s (String.utf8Len front) stop = .ok (String.ofList (front ++ after)) := by
  have hbound := hstop.le_length
  have hbefore := hfront.slice_eq
  rw [Nat.zero_add] at hbefore
  rw [cutOut, hbefore, ok_bind, checkPosition_eq (by omega), ok_bind, slice_rest hstop, ok_bind,
    String.ofList_append]
  rfl

/-- The body is taken out of a text as it is taken out of its characters. -/
theorem stripBody_eq (hs : (encode s).length < 2 ^ 31) :
    stripBody s = .ok (String.ofList (Source.stripBody s.toList)) := by
  have hjoin := List.takeWhile_append_dropWhile (p := (· ≠ openBrace)) (l := s.toList)
  have hhead := List.head?_dropWhile_not (· ≠ openBrace) s.toList
  rw [stripBody, Source.stripBody, first?_eq]
  cases hdrop : s.toList.dropWhile (· ≠ openBrace) with
  | nil =>
    have hnone : openBrace ∉ s.toList := fun hmem =>
      of_decide_eq_true (List.dropWhile_eq_nil_iff.mp hdrop openBrace hmem) rfl
    rw [if_neg hnone, String.ofList_toList]
    rfl
  | cons brace inner =>
    rw [hdrop] at hjoin hhead
    obtain rfl : brace = openBrace := by simpa using hhead
    obtain ⟨found, hfound, hfinds⟩ := finds_body hs hjoin.symm
    have hmem : openBrace ∈ s.toList := hjoin ▸ by simp
    simp only [if_pos hmem, hfound, ok_bind]
    generalize found.or _ = stop? at hfinds ⊢
    generalize (afterMatch 1 inner).or (afterLastBrace inner) = after? at hfinds ⊢
    cases hfinds with
    | none =>
      rw [String.ofList_toList]
      rfl
    | some hbehind => exact cutOut_eq hs ⟨[], hjoin.symm, rfl⟩ hbehind

/-! ### Prototypes -/

def prototype? (definition : String) : Except Fault (Option String) := do
  let text ← stripLineComments (String.ofList (Prototype.unifyLineEnds definition.toList))
  let text ← stripBody (String.ofList (Prototype.flatten text.toList))
  let signature := trim text.toList
  return if Prototype.isDeclarable signature then some (String.ofList (signature ++ [';']))
    else none

theorem utf8Len_unifyLineEnds (cs : List Char) :
    String.utf8Len (Prototype.unifyLineEnds cs) ≤ String.utf8Len cs := by
  fun_induction Prototype.unifyLineEnds cs with
  | case1 => exact Nat.le_refl _
  | case2 rest ih =>
    simp only [String.utf8Len_cons]
    omega
  | case3 rest _ ih =>
    have hsame : '\n'.utf8Size = '\r'.utf8Size := rfl
    simp only [String.utf8Len_cons]
    omega
  | case4 c rest _ _ ih =>
    simp only [String.utf8Len_cons]
    omega

theorem utf8Len_withoutLineComment (c : Char) (rest : List Char) :
    String.utf8Len (firstPiece c rest).1.withoutLineComment ≤
      String.utf8Len (firstPiece c rest).1.text := by
  fun_cases firstPiece c rest with
  | case4 rest hquote =>
    have hspace : ' '.utf8Size = '/'.utf8Size := rfl
    simp only [Piece.withoutLineComment, Piece.text, String.utf8Len_cons, String.utf8Len_nil]
    omega
  | _ => exact Nat.le_refl _

theorem utf8Len_stripLineComments (cs : List Char) :
    String.utf8Len (Source.stripLineComments cs) ≤ String.utf8Len cs := by
  rw [Source.stripLineComments]
  fun_induction pieces cs with
  | case1 => exact Nat.le_refl _
  | case2 c rest ih =>
    have hpiece := utf8Len_withoutLineComment c rest
    rw [List.flatMap_cons, String.utf8Len_append, ← firstPiece_text_append c rest,
      String.utf8Len_append]
    omega

theorem utf8Len_flatten (cs : List Char) :
    String.utf8Len (Prototype.flatten cs) = String.utf8Len cs := by
  induction cs with
  | nil => rfl
  | cons c cs ih =>
    have hsize : (if c = '\n' then ' ' else c).utf8Size = c.utf8Size := by
      split
      · next hc => rw [hc]; rfl
      · rfl
    rw [Prototype.flatten_cons, String.utf8Len_cons, String.utf8Len_cons, ih, hsize]

/-- Of any definition that is short enough to be counted through, the prototype is made without a
fault by the positions of bytes, and it is the one that its characters have. -/
theorem prototype?_eq_ofDefinition? {definition : String}
    (h : (encode definition).length < 2 ^ 31) :
    prototype? definition = .ok (Prototype.ofDefinition? definition) := by
  have hunified := utf8Len_unifyLineEnds definition.toList
  have hstripped := utf8Len_stripLineComments (Prototype.unifyLineEnds definition.toList)
  have hflat := utf8Len_flatten
    (Source.stripLineComments (Prototype.unifyLineEnds definition.toList))
  rw [length_encode] at h
  rw [prototype?, stripLineComments_eq (by rw [length_encode, String.toList_ofList]; omega),
    ok_bind, String.toList_ofList, String.toList_ofList,
    stripBody_eq (by rw [length_encode, String.toList_ofList]; omega), ok_bind,
    String.toList_ofList, String.toList_ofList]
  rfl

def brokenDefinition : String := "char *f() \x7b return \"\\é\x7d\"; // é\n \x7d /* \\ü"

theorem prototype?_brokenDefinition : (encode brokenDefinition).length < 2 ^ 31 ∧
    prototype? brokenDefinition = .ok (some "char *f()  /* \\ü;") := by
  have hlength : (encode brokenDefinition).length < 2 ^ 31 := by decide
  have hprototype : Prototype.ofDefinition? brokenDefinition = some "char *f()  /* \\ü;" := by
    decide +kernel
  exact ⟨hlength, hprototype ▸ prototype?_eq_ofDefinition? hlength⟩

end Sketchbook.Position
