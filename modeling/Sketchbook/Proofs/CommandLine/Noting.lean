import Sketchbook.CommandLine.Parser

/-! What is noted about an option. A value that may be given once is noted if it is the first, and
the pieces of a list are noted behind those noted before. What is noted under other names stays. -/
namespace Sketchbook.CommandLine
open Text

def OptionForm.read : OptionForm → String → List String
  | .pieces, value => piecesOf value
  | _, value => [value]

def gathered (form : OptionForm) (values : List String) : Option (List String) :=
  if values = [] then none else some (values.flatMap form.read)

theorem gathered_append (form : OptionForm) (values : List String) (value : String) :
    gathered form (values ++ [value]) =
      some ((gathered form values).getD [] ++ form.read value) := by
  by_cases hvalues : values = [] <;> simp [gathered, hvalues]

/-- An option that is given once at most. -/
theorem gathered_toList {form : OptionForm} (hform : form ≠ .pieces) (value? : Option String) :
    (gathered form value?.toList).bind List.head? = value? := by
  cases value? with
  | none => rfl
  | some value => cases form <;> first | rfl | contradiction

namespace Reading

variable {reading : Reading} {name : String}

def IsNoted (reading : Reading) (name : String) (added : List String)
    (values : List (String × List String)) : Prop :=
  ∀ other, values.lookup other =
    if other = name then some ((reading.values? name).getD [] ++ added) else reading.values? other

theorem isNoted_append (hfirst : reading.values? name = none) (added : List String) :
    reading.IsNoted name added (reading.values ++ [(name, added)]) := by
  intro other
  rw [List.lookup_append]
  by_cases hother : other = name
  · have hnone : reading.values.lookup name = none := hfirst
    simp [hother, hnone, hfirst]
  · have hbeq : (other == name) = false := beq_eq_false_iff_ne.mpr hother
    simp [hother, List.lookup_cons, hbeq, values?]

theorem noteOnce_ok (hfirst : reading.values? name = none) (added : List String) :
    ∃ values, reading.noteOnce name added = .ok { reading with values } ∧
      reading.IsNoted name added values :=
  ⟨_, by rw [noteOnce, hfirst], isNoted_append hfirst added⟩

theorem lookup_map_append (values : List (String × List String)) (name other : String)
    (added : List String) :
    (values.map fun (n, old) => (n, if n = name then old ++ added else old)).lookup other =
      (values.lookup other).map fun old => if other = name then old ++ added else old := by
  induction values with
  | nil => rfl
  | cons entry values ih =>
    obtain ⟨n, old⟩ := entry
    by_cases hn : other = n
    · simp [hn]
    · have hbeq : (other == n) = false := beq_eq_false_iff_ne.mpr hn
      simpa [List.lookup_cons, hbeq] using ih

theorem noteMore_ok (reading : Reading) (name : String) (added : List String) :
    ∃ values, reading.noteMore name added = { reading with values } ∧
      reading.IsNoted name added values := by
  unfold noteMore
  cases hold : reading.values? name with
  | none => exact ⟨_, rfl, isNoted_append hold added⟩
  | some old =>
    refine ⟨_, rfl, fun other => ?_⟩
    rw [lookup_map_append]
    by_cases hother : other = name
    · have hsome : reading.values.lookup name = some old := hold
      simp [hother, hsome, hold]
    · simp [hother, values?]

/-- A text is noted if it is the first of its option or belongs to a list. -/
theorem noteOption_ok {spec : OptionSpec} (hspec : spec.form ≠ .path) (value : String)
    (hfirst : spec.form = .text → reading.values? spec.name = none) :
    ∃ values, reading.noteOption spec (encode value) = .ok { reading with values } ∧
      reading.IsNoted spec.name (spec.form.read value) values := by
  unfold noteOption
  rw [decode?_encode]
  cases hform : spec.form with
  | text => exact noteOnce_ok (hfirst hform) [value]
  | path => exact absurd hform hspec
  | pieces =>
    obtain ⟨values, hnoted, hvalues⟩ := noteMore_ok reading spec.name (piecesOf value)
    exact ⟨values, by simp [hnoted], hvalues⟩

/-- A path is noted if it is the first of its option and not empty. -/
theorem notePath_ok {path : Bytes} (hfirst : reading.paths = []) (hpath : path ≠ []) :
    reading.notePath name path = .ok { reading with paths := [(name, path)] } := by
  have hnonempty : path.isEmpty = false := by simpa using hpath
  simp [notePath, hfirst, hnonempty]

end Reading

end Sketchbook.CommandLine
