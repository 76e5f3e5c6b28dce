import Mathlib.Data.List.Basic
import Sketchbook.Proofs.CommandLine.Reading

/-! Arguments that have been written out. Whatever is to be said to the command that generates can
be put into words in any order, lists in one word or in several, and reading the words gives back
what was said, with the environment and the defaults in place of what was not. -/
namespace Sketchbook.CommandLine
open Text

/-- What is said about a run. Every part of it may be left unsaid. -/
structure Said where
  directory : Option Bytes := none
  name : Option String := none
  sourceExtensions : Option (List String) := none
  index : Option Bytes := none
  artifact : Option String := none
  sentinel : Option String := none
  frameworkInclude : Option String := none
  sketchExtensions : Option (List String) := none
  toOutput : Bool := false
  deriving DecidableEq, Repr

def Said.arguments (said : Said) (environment : Environment) : GenerateArguments where
  project :=
    { directory := said.directory.getD currentDirectory
      name := said.name
      sourceExtensions := said.sourceExtensions }
  index := said.index
  artifact := (said.artifact.or environment.artifact).getD defaultArtifactName
  sentinel := (said.sentinel.or environment.sentinel).getD defaultSentinel
  frameworkInclude := said.frameworkInclude.getD defaultFrameworkInclude
  sketchExtensions := said.sketchExtensions
  toOutput := said.toOutput

def Said.all (arguments : GenerateArguments) : Said where
  directory := some arguments.project.directory
  name := arguments.project.name
  sourceExtensions := arguments.project.sourceExtensions
  index := arguments.index
  artifact := some arguments.artifact
  sentinel := some arguments.sentinel
  frameworkInclude := some arguments.frameworkInclude
  sketchExtensions := arguments.sketchExtensions
  toOutput := arguments.toOutput

theorem arguments_all (arguments : GenerateArguments) (environment : Environment) :
    (Said.all arguments).arguments environment = arguments := rfl

def IsListable (pieces : List String) : Prop := pieces ≠ [] ∧ ∀ piece ∈ pieces, ',' ∉ piece.toList

instance (pieces : List String) : Decidable (IsListable pieces) :=
  inferInstanceAs (Decidable (pieces ≠ [] ∧ ∀ piece ∈ pieces, ',' ∉ piece.toList))

structure Said.IsSayable (said : Said) : Prop where
  directory : ∀ path ∈ said.directory, path ≠ [] ∧ path.head? ≠ some 45
  index : ∀ path ∈ said.index, path ≠ []
  sourceExtensions : ∀ pieces ∈ said.sourceExtensions, IsListable pieces
  sketchExtensions : ∀ pieces ∈ said.sketchExtensions, IsListable pieces

/-- Each value holds the next of the pieces, one at least, with commas between them. -/
def IsSpread (pieces values : List String) : Prop :=
  ∃ groups : List (List String), (∀ group ∈ groups, group ≠ []) ∧ groups.flatten = pieces ∧
    values = groups.map (String.intercalate ",")

/-- The words say this and nothing else. They may stand in any order, but the values of one option
keep theirs. -/
structure Said.IsPutInto (said : Said) (words : List Word) : Prop where
  directory : directoriesOf words = said.directory.toList
  name : valuesOf .name words = said.name.toList
  sourceExtensions :
    IsSpread (said.sourceExtensions.getD []) (valuesOf .sourceExtensions words)
  index : indexesOf words = said.index.toList
  artifact : valuesOf .artifact words = said.artifact.toList
  sentinel : valuesOf .sentinel words = said.sentinel.toList
  frameworkInclude : valuesOf .frameworkInclude words = said.frameworkInclude.toList
  sketchExtensions :
    IsSpread (said.sketchExtensions.getD []) (valuesOf .sketchExtensions words)
  toOutput : words.count .toOutput = said.toOutput.toNat

theorem splitCommas_of_not_mem {cs : List Char} (h : ',' ∉ cs) : splitCommas cs = [cs] := by
  induction cs with
  | nil => rfl
  | cons c rest ih =>
    have hc : c ≠ ',' := (List.ne_of_not_mem_cons h).symm
    rw [splitCommas, if_neg hc, ih (List.not_mem_of_not_mem_cons h)]

theorem splitCommas_append {cs : List Char} (h : ',' ∉ cs) (rest : List Char) :
    splitCommas (cs ++ ',' :: rest) = cs :: splitCommas rest := by
  induction cs with
  | nil => simp [splitCommas]
  | cons c cs ih =>
    have hc : c ≠ ',' := (List.ne_of_not_mem_cons h).symm
    rw [List.cons_append, splitCommas, if_neg hc, ih (List.not_mem_of_not_mem_cons h)]

/-- Pieces joined by commas are taken apart again. -/
theorem piecesOf_intercalate {pieces : List String} (h : IsListable pieces) :
    piecesOf (String.intercalate "," pieces) = pieces := by
  obtain ⟨hne, hcommas⟩ := h
  induction pieces with
  | nil => contradiction
  | cons piece rest ih =>
    obtain ⟨hpiece, hrest⟩ := List.forall_mem_cons.mp hcommas
    cases rest with
    | nil =>
      rw [String.intercalate_singleton, piecesOf, splitCommas_of_not_mem hpiece]
      simp
    | cons next rest =>
      have hcut : (piece ++ "," ++ String.intercalate "," (next :: rest)).toList =
          piece.toList ++ ',' :: (String.intercalate "," (next :: rest)).toList := by simp
      rw [String.intercalate_cons_cons, piecesOf, hcut, splitCommas_append hpiece, List.map_cons,
        String.ofList_toList]
      exact congrArg _ (ih (List.cons_ne_nil next rest) hrest)

/-- A list is read back from the values over which it is spread. -/
theorem IsSpread.flatMap_piecesOf {pieces values : List String} (h : IsSpread pieces values)
    (hcommas : ∀ piece ∈ pieces, ',' ∉ piece.toList) : values.flatMap piecesOf = pieces := by
  obtain ⟨groups, hgroups, rfl, rfl⟩ := h
  induction groups with
  | nil => rfl
  | cons group groups ih =>
    obtain ⟨hgroup, hrest⟩ := List.forall_mem_cons.mp hgroups
    rw [List.flatten_cons] at hcommas ⊢
    obtain ⟨hfirst, hbehind⟩ := List.forall_mem_append.mp hcommas
    rw [List.map_cons, List.flatMap_cons, piecesOf_intercalate ⟨hgroup, hfirst⟩, ih hrest hbehind]

theorem IsSpread.eq_nil_iff {pieces values : List String} (h : IsSpread pieces values) :
    values = [] ↔ pieces = [] := by
  obtain ⟨groups, hgroups, rfl, rfl⟩ := h
  cases groups with
  | nil => simp
  | cons group groups => simp [(List.forall_mem_cons.mp hgroups).1]

section

variable {said : Said} {words : List Word}

/-- What can be said can be taken in, whatever the order of the words. -/
theorem Said.IsPutInto.isTakable (hwords : said.IsPutInto words) (h : said.IsSayable) :
    IsTakable words where
  once choice hform := by
    cases choice with
    | name => exact hwords.name ▸ said.name.length_toList_le
    | artifact => exact hwords.artifact ▸ said.artifact.length_toList_le
    | sentinel => exact hwords.sentinel ▸ said.sentinel.length_toList_le
    | frameworkInclude => exact hwords.frameworkInclude ▸ said.frameworkInclude.length_toList_le
    | sourceExtensions => contradiction
    | sketchExtensions => contradiction
  directory := hwords.directory ▸ said.directory.length_toList_le
  named path hmem := h.directory path (Option.mem_toList.mp (hwords.directory ▸ hmem))
  index := hwords.index ▸ said.index.length_toList_le
  indexed path hmem := h.index path (Option.mem_toList.mp (hwords.index ▸ hmem))
  toOutput := hwords.toOutput ▸ Bool.toNat_le said.toOutput

/-- An option that gives a list. -/
theorem gathered_pieces {pieces? : Option (List String)} {values : List String}
    (hlist : ∀ pieces ∈ pieces?, IsListable pieces) (hvalues : IsSpread (pieces?.getD []) values) :
    gathered .pieces values = pieces? := by
  cases pieces? with
  | none => rw [gathered, if_pos (hvalues.eq_nil_iff.mpr rfl)]
  | some pieces =>
    obtain ⟨hne, hcommas⟩ := hlist pieces rfl
    rw [gathered, if_neg (mt hvalues.eq_nil_iff.mp hne)]
    exact congrArg some (hvalues.flatMap_piecesOf hcommas)

namespace Reading.Holds

variable {reading : Reading}

theorem text?_eq (h : reading.Holds words) (choice : Choice) (hform : choice.spec.form ≠ .pieces)
    {value? : Option String} (hvalue : valuesOf choice words = value?.toList) :
    reading.text? choice.spec.name = value? := by
  rw [text?, h.values, hvalue, gathered_toList hform]

theorem index_eq (h : reading.Holds words) (hindex : indexesOf words = said.index.toList) :
    reading.paths.lookup "index" = said.index := by
  rw [h.paths, hindex]
  cases said.index <;> rfl

theorem pieces_eq (h : reading.Holds words) (choice : Choice) (hform : choice.spec.form = .pieces)
    {pieces? : Option (List String)} (hlist : ∀ pieces ∈ pieces?, IsListable pieces)
    (hvalues : IsSpread (pieces?.getD []) (valuesOf choice words)) :
    reading.values? choice.spec.name = pieces? := by
  rw [h.values, hform, gathered_pieces hlist hvalues]

theorem stdout_eq (h : reading.Holds words) (hwords : said.IsPutInto words) :
    (reading.values? "stdout").isSome = said.toOutput := by
  have hcount := hwords.toOutput
  rw [h.toOutput]
  cases hsaid : said.toOutput with
  | false => simp_all [List.count_eq_zero]
  | true =>
    have hmem : Word.toOutput ∈ words := by
      rw [← List.count_pos_iff, hcount, hsaid]
      exact Nat.one_pos
    rw [if_pos hmem]
    rfl

/-- What was said is what is read, with the environment and the defaults for the rest. -/
theorem generateArguments_eq (h : reading.Holds words)
    (hdirectory : reading.directory = (directoriesOf words).head?) (hwords : said.IsPutInto words)
    (hsaid : said.IsSayable) (environment : Environment) :
    reading.generateArguments environment = said.arguments environment := by
  have hpath : reading.directory = said.directory := by
    rw [hdirectory, hwords.directory, Option.head?_toList]
  have hname : reading.text? "name" = said.name := h.text?_eq .name (by decide) hwords.name
  have hindex : reading.paths.lookup "index" = said.index := h.index_eq hwords.index
  have hartifact : reading.text? "artifact" = said.artifact :=
    h.text?_eq .artifact (by decide) hwords.artifact
  have hsentinel : reading.text? "sentinel" = said.sentinel :=
    h.text?_eq .sentinel (by decide) hwords.sentinel
  have hinclude : reading.text? "framework-include" = said.frameworkInclude :=
    h.text?_eq .frameworkInclude (by decide) hwords.frameworkInclude
  have hsource : reading.values? "source-ext" = said.sourceExtensions :=
    h.pieces_eq .sourceExtensions rfl hsaid.sourceExtensions hwords.sourceExtensions
  have hsketch : reading.values? "sketch-ext" = said.sketchExtensions :=
    h.pieces_eq .sketchExtensions rfl hsaid.sketchExtensions hwords.sketchExtensions
  rw [generateArguments, projectArguments, hpath, hname, hindex, hartifact, hsentinel, hinclude,
    hsource, hsketch, h.stdout_eq hwords, Said.arguments]

end Reading.Holds

/-- Words that say something are read as what they say. -/
theorem Said.IsPutInto.parse_eq (hwords : said.IsPutInto words) (h : said.IsSayable)
    (environment : Environment) : parse environment (encode "generate" :: words.map Word.argument) =
      .ok (.generate (said.arguments environment)) := by
  obtain ⟨reading, hread, hholds, hdirectory⟩ := Reading.takeAll_eq (hwords.isTakable h)
  rw [← hholds.generateArguments_eq hdirectory hwords h environment, parse, decode?_encode]
  simp only [hread]
  rfl

end

/-! ### Words for everything that can be said -/

def Said.words (said : Said) : List Word :=
  said.directory.toList.map .directory ++
  said.name.toList.map (.option .name) ++
  (said.sourceExtensions.map (String.intercalate ",")).toList.map (.option .sourceExtensions) ++
  said.index.toList.map .index ++
  said.artifact.toList.map (.option .artifact) ++
  said.sentinel.toList.map (.option .sentinel) ++
  said.frameworkInclude.toList.map (.option .frameworkInclude) ++
  (said.sketchExtensions.map (String.intercalate ",")).toList.map (.option .sketchExtensions) ++
  List.replicate said.toOutput.toNat .toOutput

theorem Said.directoriesOf_words (said : Said) :
    directoriesOf said.words = said.directory.toList := by
  simp [Said.words, directoriesOf, Function.comp_def, Word.directory?]

theorem Said.indexesOf_words (said : Said) : indexesOf said.words = said.index.toList := by
  simp [Said.words, indexesOf, Function.comp_def, Word.index?]

theorem Said.valuesOf_words (said : Said) (choice : Choice) : valuesOf choice said.words =
    match choice with
    | .name => said.name.toList
    | .sourceExtensions => (said.sourceExtensions.map (String.intercalate ",")).toList
    | .artifact => said.artifact.toList
    | .sentinel => said.sentinel.toList
    | .frameworkInclude => said.frameworkInclude.toList
    | .sketchExtensions => (said.sketchExtensions.map (String.intercalate ",")).toList := by
  cases choice <;>
    simp [Said.words, valuesOf, Function.comp_def, Word.value?]

theorem isSpread_toList {pieces? : Option (List String)}
    (hlist : ∀ pieces ∈ pieces?, IsListable pieces) :
    IsSpread (pieces?.getD []) (pieces?.map (String.intercalate ",")).toList := by
  cases pieces? with
  | none => exact ⟨[], by simp⟩
  | some pieces => exact ⟨[pieces], by simp [(hlist pieces rfl).1]⟩

/-- Whatever can be said can be put into words. -/
theorem Said.IsSayable.isPutInto_words {said : Said} (h : said.IsSayable) :
    said.IsPutInto said.words where
  directory := said.directoriesOf_words
  name := said.valuesOf_words .name
  sourceExtensions := by
    rw [said.valuesOf_words .sourceExtensions]
    exact isSpread_toList h.sourceExtensions
  index := said.indexesOf_words
  artifact := said.valuesOf_words .artifact
  sentinel := said.valuesOf_words .sentinel
  frameworkInclude := said.valuesOf_words .frameworkInclude
  sketchExtensions := by
    rw [said.valuesOf_words .sketchExtensions]
    exact isSpread_toList h.sketchExtensions
  toOutput := by
    have hnone {α : Type} (xs : List α) (f : α → Word) (hf : ∀ x, f x ≠ .toOutput) :
        (xs.map f).count .toOutput = 0 := by
      refine List.count_eq_zero.mpr fun hmem => ?_
      obtain ⟨x, -, hx⟩ := List.mem_map.mp hmem
      exact hf x hx
    simp [Said.words, List.count_append, hnone]

/-- What is said is read back from the words for it. -/
theorem parse_said_words {said : Said} (h : said.IsSayable) (environment : Environment) :
    parse environment (encode "generate" :: said.words.map Word.argument) =
      .ok (.generate (said.arguments environment)) :=
  h.isPutInto_words.parse_eq h environment

/-- Arguments that are written out, in any order and with their lists in one word or in several,
are read back from the words. Of what is left out, the directory is the current one, the artifact
and the sentinel come from the environment, even if they are empty there, and the rest is what it
is by default. -/
theorem parse_words (environment : Environment) :
    (∀ arguments words, (Said.all arguments).IsSayable → (Said.all arguments).IsPutInto words →
      parse environment (encode "generate" :: words.map Word.argument) =
        .ok (.generate arguments)) ∧
    ∀ (said : Said) words, said.IsSayable → said.IsPutInto words →
      parse environment (encode "generate" :: words.map Word.argument) =
        .ok (.generate (said.arguments environment)) := by
  refine ⟨fun arguments words h hwords => ?_, fun said words h hwords =>
    hwords.parse_eq h environment⟩
  rw [hwords.parse_eq h environment, arguments_all]

def spreadArguments : GenerateArguments where
  project := { directory := encode "sketches/Blink", sourceExtensions := some ["c", "", "h"] }
  artifact := "out=put"
  sentinel := ""
  sketchExtensions := some ["ino", "pde"]
  toOutput := true

def spreadWords : List Word :=
  [.option .sketchExtensions "ino", .toOutput, .option .artifact "out=put",
    .option .frameworkInclude defaultFrameworkInclude, .directory (encode "sketches/Blink"),
    .option .sourceExtensions "c,,h", .option .sentinel "", .option .sketchExtensions "pde"]

def sparseSaid : Said where
  sourceExtensions := some [""]
  index := some [45, 255]

def sparseWords : List Word := [.index [45, 255], .option .sourceExtensions ""]

theorem parse_words_spread :
    (Said.all spreadArguments).IsSayable ∧ (Said.all spreadArguments).IsPutInto spreadWords ∧
      parse {} (encode "generate" :: spreadWords.map Word.argument) =
        .ok (.generate spreadArguments) ∧
      sparseSaid.IsSayable ∧ sparseSaid.IsPutInto sparseWords ∧
      parse { artifact := some "" } (encode "generate" :: sparseWords.map Word.argument) =
        .ok (.generate
          { project := { sourceExtensions := some [""] }, index := some [45, 255],
            artifact := "" }) := by
  have hsayable : (Said.all spreadArguments).IsSayable :=
    ⟨by decide, by decide, by decide, by decide⟩
  have hwords : (Said.all spreadArguments).IsPutInto spreadWords :=
    ⟨rfl, rfl, ⟨[["c", "", "h"]], by decide⟩, rfl, rfl, rfl, rfl, ⟨[["ino"], ["pde"]], by decide⟩,
      rfl⟩
  have hsayableSparse : sparseSaid.IsSayable := ⟨by decide, by decide, by decide, by decide⟩
  have hwordsSparse : sparseSaid.IsPutInto sparseWords :=
    ⟨rfl, rfl, ⟨[[""]], by decide⟩, rfl, rfl, rfl, rfl, ⟨[], by decide⟩, rfl⟩
  exact ⟨hsayable, hwords, (parse_words {}).1 spreadArguments spreadWords hsayable hwords,
    hsayableSparse, hwordsSparse, (parse_words _).2 sparseSaid sparseWords hsayableSparse
      hwordsSparse⟩

end Sketchbook.CommandLine
