import Sketchbook.Proofs.Document.Segments

/-! The includes and macros of one file as rows. A macro has a slot if its line lies behind line
zero, is no include's and comes before some include's. The rows are the includes and the macros
with a slot, and their lines alone settle which row stands where. -/
namespace Sketchbook

namespace Header

inductive Row where
  | definition (directive : Directive)
  | inclusion (directive : Directive)
  deriving DecidableEq, Repr

namespace Row

def definition? : Row → Option Directive
  | definition directive => some directive
  | inclusion _ => none

def inclusion? : Row → Option Directive
  | definition _ => none
  | inclusion directive => some directive

theorem definition?_eq_some_iff {row : Row} {directive : Directive} :
    row.definition? = some directive ↔ row = definition directive := by
  cases row <;> simp [definition?]

theorem inclusion?_eq_some_iff {row : Row} {directive : Directive} :
    row.inclusion? = some directive ↔ row = inclusion directive := by
  cases row <;> simp [inclusion?]

def Before : Row → Row → Prop
  | definition directive, inclusion next => directive.line < next.line
  | inclusion directive, definition next => directive.line < next.line
  | _, _ => True

end Row

/-- Behind the line `previous`, on the line of no include, and before some include. -/
def HasSlot (previous : LineNumber) (includes : List Directive) (directive : Directive) : Prop :=
  previous < directive.line ∧ (∀ i ∈ includes, i.line ≠ directive.line) ∧
    ∃ i ∈ includes, directive.line < i.line

instance (previous : LineNumber) (includes : List Directive) (directive : Directive) :
    Decidable (HasSlot previous includes directive) :=
  inferInstanceAs (Decidable (_ ∧ (∀ i ∈ includes, _) ∧ ∃ i ∈ includes, _))

/-- The rows are all includes and all macros with a slot, each once, and every macro stands behind
the includes on smaller lines and before those on greater ones. -/
structure IsInterleaved (includes macros : List Directive) (rows : List Row) : Prop where
  inclusions : IsSortedByLine includes (rows.filterMap Row.inclusion?)
  definitions : IsSortedByLine (macros.filter (HasSlot 0 includes ·))
    (rows.filterMap Row.definition?)
  order : rows.Pairwise Row.Before

theorem mem_filterMap_inclusion? {rows : List Row} {directive : Directive} :
    directive ∈ rows.filterMap Row.inclusion? ↔ .inclusion directive ∈ rows := by
  simp only [List.mem_filterMap, Row.inclusion?_eq_some_iff, exists_eq_right]

theorem mem_filterMap_definition? {rows : List Row} {directive : Directive} :
    directive ∈ rows.filterMap Row.definition? ↔ .definition directive ∈ rows := by
  simp only [List.mem_filterMap, Row.definition?_eq_some_iff, exists_eq_right]

/-- Of a macro and an include only one can stand first. -/
theorem not_pairwise_before {rows other : List Row} {directive next : Directive}
    (hinclusions : (.definition directive :: rows).filterMap Row.inclusion? =
      (.inclusion next :: other).filterMap Row.inclusion?)
    (hdefinitions : (.definition directive :: rows).filterMap Row.definition? =
      (.inclusion next :: other).filterMap Row.definition?)
    (hrows : (.definition directive :: rows).Pairwise Row.Before) :
    ¬ (.inclusion next :: other).Pairwise Row.Before := by
  intro hother
  have hnext : .inclusion next ∈ Row.definition directive :: rows := by
    rw [← mem_filterMap_inclusion?, hinclusions, mem_filterMap_inclusion?]
    exact List.mem_cons_self
  have hdirective : .definition directive ∈ Row.inclusion next :: other := by
    rw [← mem_filterMap_definition?, ← hdefinitions, mem_filterMap_definition?]
    exact List.mem_cons_self
  have hlt : directive.line < next.line :=
    (List.pairwise_cons.mp hrows).1 _ (List.mem_of_ne_of_mem (by simp) hnext)
  have hgt : next.line < directive.line :=
    (List.pairwise_cons.mp hother).1 _ (List.mem_of_ne_of_mem (by simp) hdirective)
  exact UInt32.lt_asymm hlt hgt

/-- Rows of both kinds can be put together in one order only. -/
theorem eq_of_pairwise_before {rows other : List Row} (hrows : rows.Pairwise Row.Before)
    (hother : other.Pairwise Row.Before)
    (hinclusions : rows.filterMap Row.inclusion? = other.filterMap Row.inclusion?)
    (hdefinitions : rows.filterMap Row.definition? = other.filterMap Row.definition?) :
    rows = other := by
  induction rows generalizing other with
  | nil =>
    cases other with
    | nil => rfl
    | cons row other => cases row <;> simp [Row.definition?, Row.inclusion?] at *
  | cons row rows ih =>
    cases other with
    | nil => cases row <;> simp [Row.definition?, Row.inclusion?] at *
    | cons row' other =>
      cases row with
      | definition directive =>
        cases row' with
        | definition next =>
          obtain ⟨rfl, htail⟩ := List.cons.inj hdefinitions
          exact congrArg _ (ih hrows.of_cons hother.of_cons hinclusions htail)
        | inclusion next =>
          exact absurd hother (not_pairwise_before hinclusions hdefinitions hrows)
      | inclusion directive =>
        cases row' with
        | definition next =>
          exact absurd hrows (not_pairwise_before hinclusions.symm hdefinitions.symm hother)
        | inclusion next =>
          obtain ⟨rfl, htail⟩ := List.cons.inj hinclusions
          exact congrArg _ (ih hrows.of_cons hother.of_cons htail hdefinitions)

def rows (macros : List Directive) (previous : LineNumber) : List Directive → List Row
  | [] => []
  | directive :: rest =>
    (between previous directive.line macros).map .definition ++
      .inclusion directive :: rows macros directive.line rest

variable {macros includes : List Directive} {previous : LineNumber}

theorem filterMap_inclusion?_rows (macros : List Directive) (previous : LineNumber)
    (includes : List Directive) :
    (rows macros previous includes).filterMap Row.inclusion? = includes := by
  induction includes generalizing previous with
  | nil => rfl
  | cons directive rest ih =>
    have hnone : ((between previous directive.line macros).map Row.definition).filterMap
        Row.inclusion? = [] := by
      simp [List.filterMap_map, Function.comp_def, Row.inclusion?]
    rw [rows, List.filterMap_append, hnone, List.filterMap_cons, ih]
    rfl

/-- Of directives in line order, some that all come first and some that all come later. -/
theorem filter_append_filter {p q : Directive → Bool} (hmacros : macros.Pairwise (·.line ≤ ·.line))
    (hapart : ∀ a b, p a = true → q b = true → a.line < b.line) :
    macros.filter p ++ macros.filter q = macros.filter fun m => p m || q m := by
  induction macros with
  | nil => rfl
  | cons m macros ih =>
    obtain ⟨hfirst, hrest⟩ := List.pairwise_cons.mp hmacros
    rw [List.filter_cons, List.filter_cons, List.filter_cons, ← ih hrest]
    cases hp : p m with
    | true =>
      have hq : q m = false :=
        Bool.eq_false_iff.mpr fun hq => UInt32.lt_irrefl _ (hapart m m hp hq)
      simp [hq]
    | false =>
      cases hq : q m with
      | false => simp
      | true =>
        have hnone : macros.filter p = [] := List.filter_eq_nil_iff.mpr fun a ha hpa =>
          UInt32.not_lt.mpr (hfirst a ha) (hapart a m hpa hq)
        simp [hnone]

/-- Before the first of some includes in line order, or in a slot among the others. -/
theorem hasSlot_cons_iff {directive m : Directive} {rest : List Directive}
    (hprevious : previous ≤ directive.line)
    (hincludes : (directive :: rest).Pairwise (·.line ≤ ·.line)) :
    HasSlot previous (directive :: rest) m ↔
      (previous < m.line ∧ m.line < directive.line) ∨ HasSlot directive.line rest m := by
  have hfirst := (List.pairwise_cons.mp hincludes).1
  constructor
  · intro h
    obtain ⟨hlower, hne, i, hi, hupper⟩ := h
    obtain ⟨hown, hne⟩ := List.forall_mem_cons.mp hne
    by_cases hlt : m.line < directive.line
    · exact .inl ⟨hlower, hlt⟩
    · have hbehind : directive.line < m.line :=
        UInt32.lt_of_le_of_ne (UInt32.not_lt.mp hlt) hown
      refine .inr ⟨hbehind, hne, i, ?_, hupper⟩
      cases List.mem_cons.mp hi with
      | inl hi => exact absurd (hi ▸ hupper) hlt
      | inr hi => exact hi
  · intro h
    cases h with
    | inl h =>
      refine ⟨h.1, fun i hi => ?_, directive, List.mem_cons_self, h.2⟩
      exact (UInt32.ne_of_lt (UInt32.lt_of_lt_of_le h.2 (line_le_of_mem hincludes hi))).symm
    | inr h =>
      obtain ⟨hlower, hne, i, hi, hupper⟩ := h
      exact ⟨UInt32.lt_of_le_of_lt hprevious hlower,
        List.forall_mem_cons.mpr ⟨UInt32.ne_of_lt hlower, hne⟩, i,
        List.mem_cons_of_mem _ hi, hupper⟩

theorem filterMap_definition?_rows (hmacros : macros.Pairwise (·.line ≤ ·.line))
    (hprevious : ∀ i ∈ includes, previous ≤ i.line)
    (hincludes : includes.Pairwise (·.line ≤ ·.line)) :
    (rows macros previous includes).filterMap Row.definition? =
      macros.filter (HasSlot previous includes ·) := by
  induction includes generalizing previous with
  | nil => simp [rows, HasSlot]
  | cons directive rest ih =>
    obtain ⟨hfirst, hrest⟩ := List.pairwise_cons.mp hincludes
    have hsome : ((between previous directive.line macros).map Row.definition).filterMap
        Row.definition? = between previous directive.line macros := by
      simp [List.filterMap_map, Function.comp_def, Row.definition?]
    rw [rows, List.filterMap_append, hsome, List.filterMap_cons, ih hfirst hrest, between]
    dsimp only [Row.definition?]
    rw [filter_append_filter hmacros]
    · refine List.filter_congr fun m _ => ?_
      have hslot := @hasSlot_cons_iff _ _ m _ (hprevious directive List.mem_cons_self) hincludes
      simp [hslot]
    · intro a b ha hb
      simp only [Bool.and_eq_true, decide_eq_true_eq] at ha hb
      exact UInt32.lt_trans ha.2 hb.1

theorem pairwise_before_rows (hmacros : macros.Pairwise (·.line ≤ ·.line))
    (hprevious : ∀ i ∈ includes, previous ≤ i.line)
    (hincludes : includes.Pairwise (·.line ≤ ·.line)) :
    (rows macros previous includes).Pairwise Row.Before := by
  induction includes generalizing previous with
  | nil => exact .nil
  | cons directive rest ih =>
    obtain ⟨hfirst, hrest⟩ := List.pairwise_cons.mp hincludes
    have hbehind : ∀ row ∈ rows macros directive.line rest, (Row.inclusion directive).Before row := by
      intro row hrow
      cases row with
      | definition m =>
        rw [← mem_filterMap_definition?, filterMap_definition?_rows hmacros hfirst hrest] at hrow
        exact (of_decide_eq_true (List.mem_filter.mp hrow).2).1
      | inclusion i => trivial
    have hfront : ∀ m ∈ between previous directive.line macros,
        ∀ row ∈ Row.inclusion directive :: rows macros directive.line rest,
          (Row.definition m).Before row := by
      intro m hm row hrow
      have hupper : m.line < directive.line := by
        have h := (List.mem_filter.mp hm).2
        simp only [Bool.and_eq_true, decide_eq_true_eq] at h
        exact h.2
      cases row with
      | definition next => trivial
      | inclusion i =>
        have hi : i ∈ directive :: rest := by
          rw [← mem_filterMap_inclusion?, List.filterMap_cons, filterMap_inclusion?_rows] at hrow
          exact hrow
        exact UInt32.lt_of_lt_of_le hupper (line_le_of_mem hincludes hi)
    refine List.pairwise_append.mpr ⟨?_, List.pairwise_cons.mpr ⟨hbehind, ih hfirst hrest⟩, ?_⟩
    · exact List.pairwise_map.mpr (List.pairwise_of_forall fun _ _ => trivial)
    · intro row hrow
      obtain ⟨m, hm, rfl⟩ := List.mem_map.mp hrow
      exact hfront m hm

def rowsOf (includes macros : List Directive) : List Row :=
  rows (sortByLine macros) 0 (sortByLine includes)

theorem isInterleaved_rowsOf (includes macros : List Directive) :
    IsInterleaved includes macros (rowsOf includes macros) := by
  have hincludes := isSortedByLine_sortByLine includes
  have hmacros := isSortedByLine_sortByLine macros
  have hstart : ∀ i ∈ sortByLine includes, 0 ≤ i.line := fun _ _ => UInt32.zero_le
  have hslot (m : Directive) : HasSlot 0 (sortByLine includes) m ↔ HasSlot 0 includes m := by
    simp only [HasSlot, hincludes.perm.mem_iff]
  constructor
  case inclusions =>
    rw [rowsOf, filterMap_inclusion?_rows]
    exact hincludes
  case definitions =>
    rw [rowsOf, filterMap_definition?_rows hmacros.ascending hstart hincludes.ascending]
    simp only [hslot]
    exact hmacros.filter _
  case order => exact pairwise_before_rows hmacros.ascending hstart hincludes.ascending

theorem IsInterleaved.unique {rows other : List Row} (h : IsInterleaved includes macros rows)
    (hother : IsInterleaved includes macros other) : rows = other :=
  eq_of_pairwise_before h.order hother.order (h.inclusions.unique hother.inclusions)
    (h.definitions.unique hother.definitions)

def Row.text (file : String) (declarations : List Declaration) : Row → String
  | definition directive => directive.raw
  | inclusion directive =>
    if IsInC file declarations directive.line then
      "extern \"C\" \x7b\n" ++ directive.raw ++ "\n\x7d"
    else directive.raw

theorem entries_eq_map_rows (file : String) (declarations : List Declaration)
    (macros : List Directive) (previous : LineNumber) (includes : List Directive) :
    entries (cLinkageRanges file declarations) macros previous includes =
      (rows macros previous includes).map (Row.text file declarations) := by
  induction includes generalizing previous with
  | nil => rfl
  | cons directive rest ih =>
    have htext : includeText (cLinkageRanges file declarations) directive =
        Row.text file declarations (.inclusion directive) := by
      simp only [includeText, Row.text, isLinked_cLinkageRanges_iff]
    rw [entries, ih, htext, rows, List.map_append, List.map_map]
    rfl

/-- Includes and macros are written behind a text as the one list of rows that is interleaved:
includes in line order, macros in their slots, and an include within a C linkage block of its own
exactly if a C linkage block of the file reaches over its line. -/
theorem extend_interleaved (file : String) (declarations : List Declaration)
    (includes macros : List Directive) :
    ∃ rows, IsInterleaved includes macros rows ∧
      (∀ other, IsInterleaved includes macros other → other = rows) ∧
      fragment includes macros (cLinkageRanges file declarations) =
        inLines (rows.map (Row.text file declarations)) ∧
      ∀ text, extend (cLinkageRanges file declarations) (sortByLine macros) 0 text
          (sortByLine includes) =
        text ++ inLines (rows.map (Row.text file declarations)) := by
  have hrows := isInterleaved_rowsOf includes macros
  refine ⟨rowsOf includes macros, hrows, fun other hother => hother.unique hrows, ?_, fun text => ?_⟩
  · rw [fragment, entries_eq_map_rows]
    rfl
  · rw [extend_eq, entries_eq_map_rows]
    rfl

/-- Macros on line zero, on the line of an include and behind the last include have no slot. -/
example : rowsOf [⟨"b", 20⟩, ⟨"a", 10⟩] [⟨"D", 10⟩, ⟨"C", 21⟩, ⟨"B", 15⟩, ⟨"A", 0⟩] =
    [.inclusion ⟨"a", 10⟩, .definition ⟨"B", 15⟩, .inclusion ⟨"b", 20⟩] := by cbv

end Header

end Sketchbook
