import Sketchbook.Proofs.Document.Segments
import Sketchbook.Proofs.Prototype.OfSignature
import Sketchbook.Proofs.Text.Lines

/-! Writing prototypes behind a text. Whatever the definitions look like, only whole lines are
written, and every line is one prototype that can stand alone. -/
namespace Sketchbook
open Source Text

theorem Text.isBlank_getLast_trim {cs : List Char} {c : Char} (h : (trim cs).getLast? = some c) :
    isBlank c = false := by
  rw [trim, trimRight, dropRightWhile, List.getLast?_reverse] at h
  have hhead := List.head?_dropWhile_not isBlank (cs.dropWhile isBlank).reverse
  rwa [h] at hhead

/-- Only spaces come in where line comments go. -/
theorem Source.not_mem_stripLineComments {c : Char} (hc : c ≠ ' ') {cs : List Char} (h : c ∉ cs) :
    c ∉ stripLineComments cs := by
  intro hmem
  obtain ⟨piece, hpiece, hmem⟩ := List.mem_flatMap.mp hmem
  cases piece with
  | lineComment text => exact hc (List.mem_singleton.mp hmem)
  | code | literal | blockComment =>
    rw [← flatMap_text_pieces cs] at h
    exact h (List.mem_flatMap.mpr ⟨_, hpiece, hmem⟩)

namespace Prototype

theorem noBreak_signature (definition : List Char) : NoBreak (signature definition) := by
  have hreturn : '\r' ∉ signature definition := by
    intro hmem
    have hline := stripBody_subset _ (trim_subset _ hmem)
    exact not_mem_flatten (by decide)
      (not_mem_stripLineComments (by decide) (not_mem_unifyLineEnds definition)) hline
  intro c hc
  constructor
  · exact fun hfeed => lineFeed_not_mem_signature definition (hfeed ▸ hc)
  · exact fun heq => hreturn (heq ▸ hc)

structure IsPrototypeLine (line : String) : Prop where
  noBreak : NoBreak line.toList
  closed : ∃ before c, line.toList = before ++ [c, ';'] ∧ isBlank c = false
  noAssignment : '=' ∉ line.toList
  noScope : ¬ [':', ':'] <:+: line.toList

/-- The signature of a definition with a prototype can stand alone. -/
theorem marks_of_ofDefinition? {definition prototype : String}
    (h : ofDefinition? definition = some prototype) :
    signature definition.toList ≠ [] ∧ '=' ∉ signature definition.toList ∧
      ¬ [':', ':'] <:+: signature definition.toList := by
  have hdeclarable : isDeclarable (signature definition.toList) ≠ false := by
    intro hfalse
    simp [ofDefinition?, hfalse] at h
  simpa only [not_or] using mt (isDeclarable_eq_false_iff _).mpr hdeclarable

theorem isPrototypeLine_of_ofDefinition? {definition prototype : String}
    (h : ofDefinition? definition = some prototype) : IsPrototypeLine prototype := by
  have htext := toList_of_ofDefinition? h
  obtain ⟨hne, hassign, hscope⟩ := marks_of_ofDefinition? h
  constructor
  case noBreak =>
    rw [htext]
    exact (noBreak_signature _).append (by decide)
  case closed =>
    obtain ⟨before, last, hlast⟩ := (List.eq_nil_or_concat _).resolve_left hne
    have hend : (signature definition.toList).getLast? = some last := by simp [hlast]
    rw [signature_eq] at hend
    exact ⟨before, last, by simp [htext, hlast], isBlank_getLast_trim hend⟩
  case noAssignment => simp [htext, hassign]
  case noScope =>
    rw [htext, List.infix_concat_iff]
    intro h
    cases h with
    | inl h => exact absurd (h.getLast (by simp)) (by simp)
    | inr h => exact hscope h

structure Extraction where
  text : String
  added : Nat
  deriving DecidableEq, Repr

def Extraction.add (extraction : Extraction) (declaration : Declaration) : Extraction :=
  if declaration.kind = .functionDefinition then
    match ofDefinition? declaration.raw with
    | some prototype => ⟨extraction.text ++ prototype ++ "\n", extraction.added + 1⟩
    | none => extraction
  else extraction

def extract (text : String) (declarations : List Declaration) : Extraction :=
  declarations.foldl Extraction.add ⟨text, 0⟩

theorem all_append (declarations more : List Declaration) :
    all (declarations ++ more) = all declarations ++ all more := by
  rw [all, List.filter_append, List.filterMap_append]
  rfl

/-- One declaration adds its prototype, and as many lines as prototypes. -/
theorem Extraction.add_eq (extraction : Extraction) (declaration : Declaration) :
    extraction.add declaration = ⟨extraction.text ++ inLines (all [declaration]),
      extraction.added + (all [declaration]).length⟩ := by
  unfold Extraction.add
  by_cases hkind : declaration.kind = .functionDefinition
  · cases hprototype : ofDefinition? declaration.raw with
    | none => simp [all, hkind, hprototype, inLines]
    | some prototype => simp [all, hkind, hprototype, inLines, String.append_assoc]
  · simp [all, hkind, inLines]

theorem Extraction.foldl_add (extraction : Extraction) (declarations : List Declaration) :
    declarations.foldl Extraction.add extraction =
      ⟨extraction.text ++ inLines (all declarations),
        extraction.added + (all declarations).length⟩ := by
  induction declarations generalizing extraction with
  | nil => simp [all, inLines]
  | cons declaration rest ih =>
    have hall := all_append [declaration] rest
    rw [List.singleton_append] at hall
    rw [List.foldl_cons, ih, Extraction.add_eq, hall, inLines_append, List.length_append]
    simp only [String.append_assoc, Nat.add_assoc]

theorem extract_eq (text : String) (declarations : List Declaration) :
    extract text declarations =
      ⟨text ++ inLines (all declarations), (all declarations).length⟩ := by
  rw [extract, Extraction.foldl_add, Nat.zero_add]

/-- Behind the text stand as many lines as are counted, one for each function definition with a
prototype and in their order, and each of them is a line that declares something. -/
theorem extract_lines (text : String) (declarations : List Declaration) :
    ∃ lines, (extract text declarations).text = text ++ inLines lines ∧
      (extract text declarations).added = lines.length ∧
      lines = (declarations.filter (·.kind = .functionDefinition)).filterMap
        (ofDefinition? ·.raw) ∧
      (∀ line ∈ lines, IsPrototypeLine line) ∧
      Text.lines (encode (inLines lines)) = lines.map encode ∧
      extend text declarations = text ++ inLines lines := by
  have hlines : ∀ line ∈ all declarations, IsPrototypeLine line := by
    intro line hline
    obtain ⟨declaration, -, hprototype⟩ := List.mem_filterMap.mp hline
    exact isPrototypeLine_of_ofDefinition? hprototype
  refine ⟨all declarations, by rw [extract_eq], by rw [extract_eq], rfl, hlines, ?_,
    extend_eq text declarations⟩
  have hcut := lines_join_append (fun line hline => (hlines line hline).noBreak) []
  simpa [Text.lines, cutLines, inLines] using hcut

end Prototype

end Sketchbook
