import Mathlib.Data.List.Induction
import Mathlib.Data.List.TakeWhile
import Sketchbook.Proofs.CommandLine.Noting
import Sketchbook.Proofs.Text.Lines

/-! Reading words for the command that generates. Words that give what may be given once no more
than once are taken in one after the other, in whatever order they stand, and what has been read
is what they say. -/
namespace Sketchbook.CommandLine
open Text

inductive Choice where
  | name | sourceExtensions | artifact | sentinel | frameworkInclude | sketchExtensions
  deriving DecidableEq, Repr

def Choice.spec : Choice → OptionSpec
  | .name => ⟨"name", .text⟩
  | .sourceExtensions => ⟨"source-ext", .pieces⟩
  | .artifact => ⟨"artifact", .text⟩
  | .sentinel => ⟨"sentinel", .text⟩
  | .frameworkInclude => ⟨"framework-include", .text⟩
  | .sketchExtensions => ⟨"sketch-ext", .pieces⟩

inductive Word where
  | directory (path : Bytes)
  | index (path : Bytes)
  | option (choice : Choice) (value : String)
  | toOutput
  deriving DecidableEq, Repr

def Word.argument : Word → Bytes
  | .directory path => path
  | .index path => encode "--index=" ++ path
  | .option choice value => encode ("--" ++ choice.spec.name ++ "=" ++ value)
  | .toOutput => encode "--stdout"

def Word.directory? : Word → Option Bytes
  | .directory path => some path
  | _ => none

def Word.index? : Word → Option Bytes
  | .index path => some path
  | _ => none

def Word.value? (choice : Choice) : Word → Option String
  | .option other value => if other = choice then some value else none
  | _ => none

def directoriesOf (words : List Word) : List Bytes := words.filterMap Word.directory?

def indexesOf (words : List Word) : List Bytes := words.filterMap Word.index?

def valuesOf (choice : Choice) (words : List Word) : List String :=
  words.filterMap (Word.value? choice)

/-- The words can be taken in: what may be given once is given once, no path is empty, and the
directory is not taken for an option. -/
structure IsTakable (words : List Word) : Prop where
  once : ∀ choice, choice.spec.form = .text → (valuesOf choice words).length ≤ 1
  directory : (directoriesOf words).length ≤ 1
  named : ∀ path ∈ directoriesOf words, path ≠ [] ∧ path.head? ≠ some 45
  index : (indexesOf words).length ≤ 1
  indexed : ∀ path ∈ indexesOf words, path ≠ []
  toOutput : words.count .toOutput ≤ 1

section

variable {words : List Word} {word : Word}

theorem directoriesOf_concat (h : word.directory? = none) :
    directoriesOf (words ++ [word]) = directoriesOf words := by
  simp [directoriesOf, h]

theorem indexesOf_concat (h : word.index? = none) :
    indexesOf (words ++ [word]) = indexesOf words := by
  simp [indexesOf, h]

theorem valuesOf_concat {choice : Choice} (h : word.value? choice = none) :
    valuesOf choice (words ++ [word]) = valuesOf choice words := by
  simp [valuesOf, h]

end

theorem valuesOf_append (choice : Choice) (words more : List Word) :
    valuesOf choice (words ++ more) = valuesOf choice words ++ valuesOf choice more :=
  List.filterMap_append

theorem directoriesOf_append (words more : List Word) :
    directoriesOf (words ++ more) = directoriesOf words ++ directoriesOf more :=
  List.filterMap_append

theorem indexesOf_append (words more : List Word) :
    indexesOf (words ++ more) = indexesOf words ++ indexesOf more :=
  List.filterMap_append

theorem IsTakable.of_append {words more : List Word} (h : IsTakable (words ++ more)) :
    IsTakable words where
  once choice hform := by
    have honce := h.once choice hform
    rw [valuesOf_append, List.length_append] at honce
    omega
  directory := by
    have hdirectory := h.directory
    rw [directoriesOf_append, List.length_append] at hdirectory
    omega
  named path hmem := h.named path (by rw [directoriesOf_append]; exact List.mem_append_left _ hmem)
  index := by
    have hindex := h.index
    rw [indexesOf_append, List.length_append] at hindex
    omega
  indexed path hmem := h.indexed path (by rw [indexesOf_append]; exact List.mem_append_left _ hmem)
  toOutput := by
    have htoOutput := h.toOutput
    rw [List.count_append] at htoOutput
    omega

namespace Choice

theorem eq_of_name_eq {choice other : Choice} (h : choice.spec.name = other.spec.name) :
    choice = other := by
  cases choice <;> cases other <;> first | rfl | exact absurd h (by decide)

theorem name_ne_stdout (choice : Choice) : "stdout" ≠ choice.spec.name := by
  cases choice <;> decide

theorem form_ne_path (choice : Choice) : choice.spec.form ≠ .path := by
  cases choice <;> decide

theorem find?_spec (choice : Choice) :
    generateSpec.options.find? (·.name == choice.spec.name) = some choice.spec := by
  cases choice <;> rfl

theorem equals_not_mem_name (choice : Choice) : 61 ∉ encode choice.spec.name := by
  cases choice <;> decide

end Choice

namespace Reading

variable {reading : Reading} {words : List Word} {choice : Choice} {value : String}
  {path : Bytes}

structure Holds (reading : Reading) (words : List Word) : Prop where
  onlyValues : reading.onlyValues = false
  values : ∀ choice, reading.values? choice.spec.name =
    gathered choice.spec.form (valuesOf choice words)
  toOutput : reading.values? "stdout" = if .toOutput ∈ words then some ["true"] else none
  paths : reading.paths = (indexesOf words).map ("index", ·)
  given : reading.directoryGiven = (directoriesOf words).head?.isSome
  directory : reading.pending = .nothing ∧ reading.directory = (directoriesOf words).head? ∨
    ∃ path, path ≠ [] ∧ reading.pending = .directory path ∧ directoriesOf words = [path]

theorem holds_nil : Holds {} [] where
  onlyValues := rfl
  values _ := rfl
  toOutput := rfl
  paths := rfl
  given := rfl
  directory := .inl ⟨rfl, rfl⟩

def settled (reading : Reading) (words : List Word) : Reading :=
  { reading with directory := (directoriesOf words).head?, pending := .nothing }

theorem Holds.settle_eq (h : reading.Holds words) :
    reading.settle = .ok (reading.settled words) := by
  cases h.directory with
  | inl hsettled =>
    obtain ⟨hpending, hdirectory⟩ := hsettled
    simp only [settle, hpending, settled, ← hdirectory]
  | inr hpending =>
    obtain ⟨path, hpath, hpending, hwords⟩ := hpending
    have hnonempty : path.isEmpty = false := by simpa using hpath
    simp [settle, hpending, hnonempty, settled, hwords]

theorem Holds.settled (h : reading.Holds words) : (reading.settled words).Holds words where
  onlyValues := h.onlyValues
  values := h.values
  toOutput := h.toOutput
  paths := h.paths
  given := h.given
  directory := .inl ⟨rfl, rfl⟩

theorem nameOf?_encode {name : String} (hname : 61 ∉ encode name) :
    nameOf? (encode name) = some name := by
  have hkept : ∀ b ∈ encode name, decide (b ≠ 61) = true := fun b hb =>
    decide_eq_true fun heq => hname (heq ▸ hb)
  rw [nameOf?, List.takeWhile_eq_self_iff.mpr hkept, decode?_encode]

theorem take_dashes (spec : CommandSpec) (hvalues : reading.onlyValues = false) {name : String}
    {rest : Bytes} (hname : nameOf? rest = some name) (hrest : rest ≠ []) :
    take spec reading (45 :: 45 :: rest) = reading.long spec name (attached? rest) := by
  obtain ⟨b, rest, rfl⟩ := List.exists_cons_of_ne_nil hrest
  simp [take, hvalues, hname]

/-- An argument that gives a value to a name. -/
theorem take_named (spec : CommandSpec) (hvalues : reading.onlyValues = false) {name : String}
    (hname : 61 ∉ encode name) (value : Bytes) :
    take spec reading (encode "--" ++ encode name ++ encode "=" ++ value) =
      reading.long spec name (some value) := by
  have hkept : ∀ b ∈ encode name, decide (b ≠ 61) = true := fun b hb =>
    decide_eq_true fun heq => hname (heq ▸ hb)
  have hbefore : nameOf? (encode name ++ 61 :: value) = some name := by
    rw [nameOf?, List.takeWhile_append_of_pos hkept]
    simp
  have hattached : attached? (encode name ++ 61 :: value) = some value := by
    rw [attached?, List.dropWhile_append_of_pos hkept]
    simp
  have hargument : encode "--" ++ encode name ++ encode "=" ++ value =
      45 :: 45 :: (encode name ++ 61 :: value) := by
    have hdashes : encode "--" = [45, 45] := rfl
    have hequals : encode "=" = [61] := rfl
    simp [hdashes, hequals]
  rw [hargument, take_dashes spec hvalues hbefore (by simp), hattached]

theorem take_option_eq (hvalues : reading.onlyValues = false) (choice : Choice)
    (value : String) : take generateSpec reading (Word.option choice value).argument =
      reading.settle.bind (·.noteOption choice.spec (encode value)) := by
  rw [Word.argument, encode_append, encode_append, encode_append,
    take_named _ hvalues choice.equals_not_mem_name]
  simp only [long, choice.find?_spec]
  rfl

/-- A further value of an option. -/
theorem Holds.take_option (h : reading.Holds words)
    (hfirst : choice.spec.form = .text → valuesOf choice words = []) (value : String) :
    ∃ next, take generateSpec reading (Word.option choice value).argument = .ok next ∧
      next.Holds (words ++ [.option choice value]) := by
  have hsettled := h.settled
  have hunused : choice.spec.form = .text →
      (reading.settled words).values? choice.spec.name = none := fun hform => by
    rw [hsettled.values, hfirst hform]
    rfl
  obtain ⟨values, hnoted, hvalues⟩ := noteOption_ok choice.form_ne_path value hunused
  have hdirectories : directoriesOf (words ++ [.option choice value]) = directoriesOf words :=
    directoriesOf_concat rfl
  have hindexes : indexesOf (words ++ [.option choice value]) = indexesOf words :=
    indexesOf_concat rfl
  refine ⟨{ reading.settled words with values }, ?_, hsettled.onlyValues, fun other => ?_, ?_,
    hindexes ▸ hsettled.paths, hdirectories ▸ hsettled.given, .inl ⟨rfl, by rw [hdirectories]; rfl⟩⟩
  · rw [take_option_eq h.onlyValues, h.settle_eq]
    exact hnoted
  · by_cases hother : choice = other
    · subst hother
      have hown : valuesOf choice [.option choice value] = [value] := by
        simp [valuesOf, Word.value?]
      rw [valuesOf_append, hown, gathered_append, ← hsettled.values]
      exact (hvalues _).trans (if_pos rfl)
    · have hnone : Word.value? other (.option choice value) = none := if_neg hother
      rw [valuesOf_concat hnone, ← hsettled.values]
      exact (hvalues _).trans (if_neg fun hname => hother (Choice.eq_of_name_eq hname).symm)
  · have hmem : Word.toOutput ∈ words ++ [.option choice value] ↔ Word.toOutput ∈ words := by simp
    rw [if_congr hmem rfl rfl, ← hsettled.toOutput]
    exact (hvalues _).trans (if_neg choice.name_ne_stdout)

theorem take_index_eq (hvalues : reading.onlyValues = false) (path : Bytes) :
    take generateSpec reading (Word.index path).argument =
      reading.settle.bind (·.notePath "index" path) := by
  have hargument : (Word.index path).argument =
      encode "--" ++ encode "index" ++ encode "=" ++ path := rfl
  rw [hargument, take_named _ hvalues (by decide)]
  rfl

/-- The index, if it has not been met before. -/
theorem Holds.take_index (h : reading.Holds words) (hfirst : indexesOf words = [])
    (hpath : path ≠ []) :
    ∃ next, take generateSpec reading (Word.index path).argument = .ok next ∧
      next.Holds (words ++ [.index path]) := by
  have hsettled := h.settled
  have hunused : (reading.settled words).paths = [] := by
    rw [hsettled.paths, hfirst]
    rfl
  have hdirectories : directoriesOf (words ++ [.index path]) = directoriesOf words :=
    directoriesOf_concat rfl
  have hindexes : indexesOf (words ++ [.index path]) = [path] := by
    rw [indexesOf_append, hfirst]
    rfl
  refine ⟨{ reading.settled words with paths := [("index", path)] }, ?_, hsettled.onlyValues,
    fun other => ?_, ?_, ?_, hdirectories ▸ hsettled.given,
    .inl ⟨rfl, by rw [hdirectories]; rfl⟩⟩
  · rw [take_index_eq h.onlyValues, h.settle_eq]
    exact notePath_ok hunused hpath
  · rw [valuesOf_concat rfl]
    exact hsettled.values other
  · have hmem : Word.toOutput ∈ words ++ [.index path] ↔ Word.toOutput ∈ words := by simp
    rw [if_congr hmem rfl rfl]
    exact hsettled.toOutput
  · rw [hindexes]
    rfl

theorem take_toOutput_eq (hvalues : reading.onlyValues = false) :
    take generateSpec reading Word.toOutput.argument =
      reading.settle.bind (·.noteOnce "stdout" ["true"]) := by
  have hargument : Word.toOutput.argument = 45 :: 45 :: encode "stdout" := rfl
  have hname : nameOf? (encode "stdout") = some "stdout" := nameOf?_encode (by decide)
  have hattached : attached? (encode "stdout") = none := by decide
  rw [hargument, take_dashes _ hvalues hname (by decide), hattached]
  rfl

/-- The switch, if it has not been met before. -/
theorem Holds.take_toOutput (h : reading.Holds words) (hfirst : .toOutput ∉ words) :
    ∃ next, take generateSpec reading Word.toOutput.argument = .ok next ∧
      next.Holds (words ++ [.toOutput]) := by
  have hsettled := h.settled
  have hunused : (reading.settled words).values? "stdout" = none := by
    rw [hsettled.toOutput, if_neg hfirst]
  obtain ⟨values, hnoted, hvalues⟩ := noteOnce_ok hunused ["true"]
  have hdirectories : directoriesOf (words ++ [.toOutput]) = directoriesOf words :=
    directoriesOf_concat rfl
  have hindexes : indexesOf (words ++ [.toOutput]) = indexesOf words :=
    indexesOf_concat rfl
  refine ⟨{ reading.settled words with values }, ?_, hsettled.onlyValues, fun other => ?_, ?_,
    hindexes ▸ hsettled.paths, hdirectories ▸ hsettled.given, .inl ⟨rfl, by rw [hdirectories]; rfl⟩⟩
  · rw [take_toOutput_eq h.onlyValues, h.settle_eq]
    exact hnoted
  · rw [valuesOf_concat rfl, ← hsettled.values]
    exact (hvalues _).trans (if_neg other.name_ne_stdout.symm)
  · rw [if_pos (by simp)]
    have hown := hvalues "stdout"
    rw [hunused] at hown
    exact hown

theorem take_directory_eq (hvalues : reading.onlyValues = false) (hpath : path ≠ [])
    (hdash : path.head? ≠ some 45) :
    take generateSpec reading (Word.directory path).argument = reading.value path := by
  obtain ⟨b, rest, rfl⟩ := List.exists_cons_of_ne_nil hpath
  have hb : b ≠ 45 := by simpa using hdash
  simp [take, hvalues, Word.argument, hb]

/-- The directory, if it has not been met before. -/
theorem Holds.take_directory (h : reading.Holds words) (hfirst : directoriesOf words = [])
    (hpath : path ≠ []) (hdash : path.head? ≠ some 45) :
    ∃ next, take generateSpec reading (Word.directory path).argument = .ok next ∧
      next.Holds (words ++ [.directory path]) := by
  have hsettled := h.settled
  have hgiven : reading.directoryGiven = false := by rw [h.given, hfirst]; rfl
  have hdirectories : directoriesOf (words ++ [.directory path]) = [path] := by
    rw [directoriesOf_append, hfirst]
    rfl
  have hindexes : indexesOf (words ++ [.directory path]) = indexesOf words :=
    indexesOf_concat rfl
  have hposition : reading.value path = reading.position path := by
    rcases h.directory with ⟨hpending, -⟩ | ⟨other, -, hpending, -⟩ <;> simp [value, hpending]
  refine ⟨{ reading.settled words with directoryGiven := true, pending := .directory path }, ?_,
    hsettled.onlyValues, fun other => ?_, ?_, hindexes ▸ hsettled.paths, ?_,
    .inr ⟨path, hpath, rfl, hdirectories⟩⟩
  · rw [take_directory_eq h.onlyValues hpath hdash, hposition, position, hgiven, h.settle_eq]
    rfl
  · rw [valuesOf_concat rfl]
    exact hsettled.values other
  · have hmem : Word.toOutput ∈ words ++ [.directory path] ↔ Word.toOutput ∈ words := by simp
    rw [if_congr hmem rfl rfl]
    exact hsettled.toOutput
  · rw [hdirectories]
    rfl

/-- One word more. -/
theorem Holds.take (h : reading.Holds words) {word : Word} (hwords : IsTakable (words ++ [word])) :
    ∃ next, Reading.take generateSpec reading word.argument = .ok next ∧
      next.Holds (words ++ [word]) := by
  cases word with
  | directory path =>
    have hfirst : directoriesOf words = [] := by
      have hdirectory := hwords.directory
      rw [directoriesOf_append, List.length_append] at hdirectory
      exact List.eq_nil_of_length_eq_zero
        (by simpa [directoriesOf, Word.directory?] using hdirectory)
    obtain ⟨hpath, hdash⟩ := hwords.named path (by simp [directoriesOf, Word.directory?])
    exact h.take_directory hfirst hpath hdash
  | index path =>
    have hfirst : indexesOf words = [] := by
      have hindex := hwords.index
      rw [indexesOf_append, List.length_append] at hindex
      exact List.eq_nil_of_length_eq_zero (by simpa [indexesOf, Word.index?] using hindex)
    exact h.take_index hfirst (hwords.indexed path (by simp [indexesOf, Word.index?]))
  | option choice value =>
    refine h.take_option (fun hform => ?_) value
    have honce := hwords.once choice hform
    rw [valuesOf_append, List.length_append] at honce
    exact List.eq_nil_of_length_eq_zero (by simpa [valuesOf, Word.value?] using honce)
  | toOutput =>
    refine h.take_toOutput fun hmem => ?_
    have htoOutput := hwords.toOutput
    have hbefore := List.count_pos_iff.mpr hmem
    simp only [List.count_append, List.count_singleton_self] at htoOutput
    omega

/-- All words, taken in one after the other. -/
theorem exists_holds {words : List Word} (hwords : IsTakable words) :
    ∃ reading, (words.map Word.argument).foldlM (Reading.take generateSpec) {} = .ok reading ∧
      reading.Holds words := by
  induction words using List.reverseRecOn with
  | nil => exact ⟨{}, rfl, holds_nil⟩
  | append_singleton words word ih =>
    obtain ⟨reading, hread, hholds⟩ := ih hwords.of_append
    obtain ⟨next, hnext, hmore⟩ := hholds.take hwords
    refine ⟨next, ?_, hmore⟩
    rw [List.map_append, List.foldlM_append, hread]
    change (Reading.take generateSpec reading word.argument).bind .ok = .ok next
    rw [hnext]
    rfl

theorem takeAll_eq {words : List Word} (hwords : IsTakable words) :
    ∃ reading, takeAll generateSpec (words.map Word.argument) = .ok reading ∧
      reading.Holds words ∧ reading.directory = (directoriesOf words).head? := by
  obtain ⟨reading, hread, hholds⟩ := exists_holds hwords
  refine ⟨reading.settled words, ?_, hholds.settled, rfl⟩
  rw [takeAll, hread]
  exact hholds.settle_eq

end Reading

end Sketchbook.CommandLine
