import Sketchbook.Proofs.Prototype.OneLine

/-! A prototype does not depend on how the lines of its definition end. Line ends are unified as if
in two passes, and these give back the line feeds that were written in another way, wherever they
stand and however many follow each other. -/
namespace Sketchbook.Prototype

variable {cs : List Char}

/-! ### The two passes -/

def joinReturns : List Char → List Char
  | [] => []
  | '\r' :: '\n' :: rest => '\n' :: joinReturns rest
  | c :: rest => c :: joinReturns rest

def feedReturns (cs : List Char) : List Char := cs.map fun c => if c = '\r' then '\n' else c

theorem joinReturns_cons {c : Char} (h : c ≠ '\r') (cs : List Char) :
    joinReturns (c :: cs) = c :: joinReturns cs :=
  joinReturns.eq_3 c cs fun _ hc => absurd hc h

theorem joinReturns_return (h : cs.head? ≠ some '\n') :
    joinReturns ('\r' :: cs) = '\r' :: joinReturns cs :=
  joinReturns.eq_3 '\r' cs fun _ _ htail => h (congrArg List.head? htail)

theorem joinReturns_of_not_mem (h : '\n' ∉ cs) : joinReturns cs = cs := by
  induction cs with
  | nil => rfl
  | cons c rest ih =>
    rw [List.mem_cons, not_or] at h
    rw [joinReturns.eq_3, ih h.2]
    rintro tail - rfl
    exact h.2 List.mem_cons_self

theorem feedReturns_cons {c : Char} (h : c ≠ '\r') (cs : List Char) :
    feedReturns (c :: cs) = c :: feedReturns cs := by
  rw [feedReturns, List.map_cons, if_neg h]
  rfl

/-- First the pairs are joined, then the carriage returns that are left become line feeds. -/
theorem unifyLineEnds_eq (cs : List Char) : unifyLineEnds cs = feedReturns (joinReturns cs) := by
  induction cs with
  | nil => rfl
  | cons c rest ih =>
    by_cases hc : c = '\r'
    · subst hc
      rw [unifyLineEnds_return, ih]
      split
      · next hfeed =>
        obtain ⟨tail, rfl⟩ := List.head?_eq_some_iff.mp hfeed
        rw [joinReturns, joinReturns_cons (by decide)]
      · next hfeed =>
        rw [joinReturns_return hfeed]
        rfl
    · rw [unifyLineEnds_cons hc, joinReturns_cons hc, feedReturns_cons hc, ih]

theorem feedReturns_of_not_mem (h : '\r' ∉ cs) : feedReturns cs = cs := by
  induction cs with
  | nil => rfl
  | cons c rest ih =>
    rw [List.mem_cons, not_or] at h
    rw [feedReturns_cons (Ne.symm h.1), ih h.2]

/-! ### Other line ends -/

def endLines (mark cs : List Char) : List Char := cs.flatMap fun c => if c = '\n' then mark else [c]

theorem endLines_cons (mark : List Char) {c : Char} (h : c ≠ '\n') (cs : List Char) :
    endLines mark (c :: cs) = c :: endLines mark cs := by
  rw [endLines, List.flatMap_cons, if_neg h]
  rfl

theorem lineFeed_not_mem_endLines (cs : List Char) : '\n' ∉ endLines ['\r'] cs := by
  intro hmem
  obtain ⟨c, -, hc⟩ := List.mem_flatMap.mp hmem
  split at hc
  · exact absurd (List.mem_singleton.mp hc) (by decide)
  · next hne => exact hne (List.mem_singleton.mp hc).symm

theorem joinReturns_endLines (h : '\r' ∉ cs) : joinReturns (endLines ['\r', '\n'] cs) = cs := by
  induction cs with
  | nil => rfl
  | cons c rest ih =>
    rw [List.mem_cons, not_or] at h
    by_cases hc : c = '\n'
    · subst hc
      exact congrArg _ (ih h.2)
    · rw [endLines_cons _ hc, joinReturns_cons (Ne.symm h.1), ih h.2]

theorem feedReturns_endLines (h : '\r' ∉ cs) : feedReturns (endLines ['\r'] cs) = cs := by
  induction cs with
  | nil => rfl
  | cons c rest ih =>
    rw [List.mem_cons, not_or] at h
    by_cases hc : c = '\n'
    · subst hc
      exact congrArg _ (ih h.2)
    · rw [endLines_cons _ hc, feedReturns_cons (Ne.symm h.1), ih h.2]

theorem unifyLineEnds_of_not_mem (h : '\r' ∉ cs) : unifyLineEnds cs = cs := by
  have hwhole := unifyLineEnds_append_of_not_mem h []
  rwa [List.append_nil, unifyLineEnds, List.append_nil] at hwhole

/-- The first pass gives back the line feeds that were written with a carriage return before them,
and the second finds nothing left to do. -/
theorem unifyLineEnds_returnFeeds (h : '\r' ∉ cs) :
    unifyLineEnds (endLines ['\r', '\n'] cs) = cs := by
  rw [unifyLineEnds_eq, joinReturns_endLines h, feedReturns_of_not_mem h]

/-- The first pass finds no line feed to join, and the second gives back those that were written as
carriage returns. -/
theorem unifyLineEnds_returns (h : '\r' ∉ cs) : unifyLineEnds (endLines ['\r'] cs) = cs := by
  rw [unifyLineEnds_eq, joinReturns_of_not_mem (lineFeed_not_mem_endLines cs),
    feedReturns_endLines h]

/-! ### Definitions -/

/-- Definitions that are alike once their line ends are unified have the same prototype. -/
theorem ofDefinition?_congr {s t : String} (h : unifyLineEnds s.toList = unifyLineEnds t.toList) :
    ofDefinition? s = ofDefinition? t := by
  have hsignature : signature s.toList = signature t.toList := by rw [signature, h, signature]
  rw [ofDefinition?, ofDefinition?, hsignature]

def withLineEnds (mark : List Char) (s : String) : String := String.ofList (endLines mark s.toList)

/-- A definition has the same prototype, or none, whether its lines end in line feeds, in carriage
returns and line feeds or in carriage returns. -/
theorem ofDefinition?_withLineEnds {s : String} (h : '\r' ∉ s.toList) :
    ofDefinition? (withLineEnds ['\r', '\n'] s) = ofDefinition? s ∧
      ofDefinition? (withLineEnds ['\r'] s) = ofDefinition? s := by
  constructor
  · apply ofDefinition?_congr
    rw [withLineEnds, String.toList_ofList, unifyLineEnds_returnFeeds h, unifyLineEnds_of_not_mem h]
  · apply ofDefinition?_congr
    rw [withLineEnds, String.toList_ofList, unifyLineEnds_returns h, unifyLineEnds_of_not_mem h]

def brokenLines : String :=
  "int tick(int a, // \x7b\n\n /* \n // */ char b)\n\x7b return '\\\n\x7b'; \x7d\n"

/-- The line comment ends where its line does, whatever ends the line. -/
theorem ofDefinition?_brokenLines :
    '\r' ∉ brokenLines.toList ∧
    ofDefinition? (withLineEnds ['\r', '\n'] brokenLines) = ofDefinition? brokenLines ∧
    ofDefinition? (withLineEnds ['\r'] brokenLines) = ofDefinition? brokenLines ∧
    ofDefinition? brokenLines = some "int tick(int a,     /*   // */ char b);" := by
  have hreturn : '\r' ∉ brokenLines.toList := by decide +kernel
  obtain ⟨hboth, hreturns⟩ := ofDefinition?_withLineEnds hreturn
  exact ⟨hreturn, hboth, hreturns, by decide +kernel⟩

end Sketchbook.Prototype
