import Sketchbook.Snapshot.Value
import Sketchbook.Unit

/-! Reading a source unit from the text of a record. Fields may come in any order, unknown
fields are passed over, and the first fault from left to right is reported. A unit and a
directive may also be written as lists of their fields. -/
namespace Sketchbook.Snapshot

/-! ### Lists and objects -/

section Containers
variable {α σ : Type}

def nextElement (item : Reader α) (first : Bool) (cs : List Char) :
    Except Fault (Option α × List Char) :=
  match skipSpace cs with
  | [] => .error (.unfinished .list)
  | ']' :: rest => .ok (none, ']' :: rest)
  | c :: rest =>
    if first then (item (c :: rest)).map fun (a, rest) => (some a, rest)
    else if c = ',' then
      match skipSpace rest with
      | [] => .error (.unfinished .value)
      | ']' :: _ => .error (.malformed .trailingComma)
      | rest => (item rest).map fun (a, rest) => (some a, rest)
    else .error (.malformed .expectedListEnd)

def closeList (cs : List Char) : Except Fault (List Char) :=
  match skipSpace cs with
  | [] => .error (.unfinished .list)
  | ']' :: rest => .ok rest
  | ',' :: rest =>
    match skipSpace rest with
    | ']' :: _ => .error (.malformed .trailingComma)
    | _ => .error (.malformed .trailingCharacters)
  | _ => .error (.malformed .trailingCharacters)

def elements (item : Reader α) : (fuel : Nat) → (first : Bool) → List Char →
    Except Fault (List α × List Char)
  | 0, _, _ => .error (.unfinished .list)
  | fuel + 1, first, cs => do
    match ← nextElement item first cs with
    | (none, rest) => .ok ([], ← closeList rest)
    | (some a, rest) =>
      let (more, rest) ← elements item fuel false rest
      .ok (a :: more, rest)

def list (item : Reader α) : Reader (List α) := fun cs =>
  match skipSpace cs with
  | '[' :: rest => elements item (rest.length + 1) true rest
  | rest => mismatch .sequence rest

def member (field : σ → String → Except Fault (Reader σ)) (state : σ) :
    List Char → Except Fault (σ × List Char)
  | '"' :: rest => do
    let (key, rest) ← stringBody rest
    let value ← field state (String.ofList key)
    value (← colon rest)
  | _ => .error (.malformed .keyMustBeString)

def members (field : σ → String → Except Fault (Reader σ)) :
    (fuel : Nat) → (first : Bool) → σ → List Char → Except Fault (σ × List Char)
  | 0, _, _, _ => .error (.unfinished .object)
  | fuel + 1, first, state, cs =>
    match skipSpace cs with
    | [] => .error (.unfinished .object)
    | '\x7d' :: rest => .ok (state, rest)
    | c :: rest =>
      if first then do
        let (state, rest) ← member field state (c :: rest)
        members field fuel false state rest
      else if c = ',' then
        match skipSpace rest with
        | [] => .error (.unfinished .value)
        | '\x7d' :: _ => .error (.malformed .trailingComma)
        | rest => do
          let (state, rest) ← member field state rest
          members field fuel false state rest
      else .error (.malformed .expectedObjectEnd)

def object (field : σ → String → Except Fault (Reader σ)) (start : σ)
    (finish : σ → Except Fault α) : Reader α := fun cs => do
  let (state, rest) ← members field (cs.length + 1) true start cs
  .ok (← finish state, rest)

def once (name : String) (old : Option α) (reader : Reader α) (store : α → σ) :
    Except Fault (Reader σ) :=
  match old with
  | some _ => .error (.duplicateField name)
  | none => .ok fun cs => (reader cs).map fun (a, rest) => (store a, rest)

def unknown (state : σ) : Except Fault (Reader σ) :=
  .ok fun cs => (skipValue cs).map fun rest => (state, rest)

def required (name : String) : Option α → Except Fault α
  | some a => .ok a
  | none => .error (.missingField name)

end Containers

/-! ### Fields -/

def text : Reader String := fun cs =>
  match skipSpace cs with
  | '"' :: rest => (stringBody rest).map fun (inner, rest) => (String.ofList inner, rest)
  | rest => mismatch .string rest

def lineNumber : Reader LineNumber := fun cs => do
  match ← shapeAt cs with
  | (.integer value, rest) =>
    if 0 ≤ value ∧ value < 4294967296 then .ok (UInt32.ofNat value.toNat, rest)
    else .error (.wrongValue value .lineNumber)
  | (shape, _) => .error (.wrongShape shape .lineNumber)

/-! ### Directives -/

structure DirectiveFields where
  raw : Option String := none
  line : Option LineNumber := none

def DirectiveFields.field (fields : DirectiveFields) (key : String) :
    Except Fault (Reader DirectiveFields) :=
  match key with
  | "raw" => once key fields.raw text fun raw => { fields with raw := some raw }
  | "line" => once key fields.line lineNumber fun line => { fields with line := some line }
  | _ => unknown fields

def DirectiveFields.finish (fields : DirectiveFields) : Except Fault Directive := do
  let raw ← required "raw" fields.raw
  let line ← required "line" fields.line
  .ok ⟨raw, line⟩

def directiveList (wanted : Wanted) : Reader Directive := fun cs => do
  let (raw, rest) ← nextElement text true cs
  let some raw := raw | .error (.wrongLength 0 wanted 2)
  let (line, rest) ← nextElement lineNumber false rest
  let some line := line | .error (.wrongLength 1 wanted 2)
  .ok (⟨raw, line⟩, ← closeList rest)

def directive (wanted : Wanted) : Reader Directive := fun cs =>
  match skipSpace cs with
  | '[' :: rest => directiveList wanted rest
  | '\x7b' :: rest => object DirectiveFields.field {} DirectiveFields.finish rest
  | rest => mismatch wanted rest

/-! ### Declarations -/

/-- Fields met so far. The kind and its literal are collected with the unknown fields and
read when the object is complete. -/
structure DeclarationFields where
  raw : Option String := none
  startLine : Option LineNumber := none
  endLine : Option LineNumber := none
  containingFile : Option String := none
  collected : List (String × Shape) := []

/-- The containers that a collected value may still open: a record may open 127, and the
unit, its declarations and the declaration are open already. -/
def collectedDepth : Nat := 124

def DeclarationFields.field (fields : DeclarationFields) (key : String) :
    Except Fault (Reader DeclarationFields) :=
  match key with
  | "raw" => once key fields.raw text fun raw => { fields with raw := some raw }
  | "start_line" =>
    once key fields.startLine lineNumber fun line => { fields with startLine := some line }
  | "end_line" =>
    once key fields.endLine lineNumber fun line => { fields with endLine := some line }
  | "containing_file" =>
    once key fields.containingFile text fun file =>
      { fields with containingFile := some file }
  | _ => .ok fun cs => (shape collectedDepth cs).map fun (shape, rest) =>
      ({ fields with collected := fields.collected ++ [(key, shape)] }, rest)

inductive Variant where
  | functionDefinition | linkageSpecification | other
  deriving DecidableEq, Repr

def variant : Shape → Except Fault Variant
  | .string name =>
    match name with
    | "function_definition" => .ok .functionDefinition
    | "linkage_specification" => .ok .linkageSpecification
    | "other" => .ok .other
    | _ => .error (.unknownVariant name)
  | .integer value =>
    if value = 0 then .ok .functionDefinition
    else if value = 1 then .ok .linkageSpecification
    else if value = 2 then .ok .other
    else if value < 0 then .error (.wrongShape (.integer value) .variant)
    else .error (.wrongValue value .variantIndex)
  | shape => .error (.wrongShape shape .variant)

def textShape : Shape → Except Fault String
  | .string value => .ok value
  | shape => .error (.wrongShape shape .string)

def soleField {α : Type} (name : String) (read : Shape → Except Fault α)
    (collected : List (String × Shape)) : Except Fault α :=
  match collected.filter (·.1 == name) with
  | [] => .error (.missingField name)
  | (_, shape) :: more => do
    let value ← read shape
    if more.isEmpty then .ok value else .error (.duplicateField name)

def DeclarationFields.finish (fields : DeclarationFields) : Except Fault Declaration := do
  let raw ← required "raw" fields.raw
  let startLine ← required "start_line" fields.startLine
  let endLine ← required "end_line" fields.endLine
  let containingFile ← required "containing_file" fields.containingFile
  let kind ← match ← soleField "kind" variant fields.collected with
    | .functionDefinition => pure .functionDefinition
    | .other => pure .other
    | .linkageSpecification =>
      (soleField "literal" textShape fields.collected).map .linkageSpecification
  .ok { kind, raw, startLine, endLine, containingFile }

def declaration : Reader Declaration := fun cs =>
  match skipSpace cs with
  | '\x7b' :: rest => object DeclarationFields.field {} DeclarationFields.finish rest
  | rest => mismatch .declaration rest

/-! ### Units -/

structure UnitFields where
  file : Option String := none
  declarations : Option (List Declaration) := none
  includes : Option (List Directive) := none
  macros : Option (List Directive) := none

def declarationList : Reader (List Declaration) := list declaration
def includeList : Reader (List Directive) := list (directive .inclusion)
def macroList : Reader (List Directive) := list (directive .macroDefinition)

def UnitFields.field (fields : UnitFields) (key : String) :
    Except Fault (Reader UnitFields) :=
  match key with
  | "file" => once key fields.file text fun file => { fields with file := some file }
  | "declarations" =>
    once key fields.declarations declarationList fun declarations =>
      { fields with declarations := some declarations }
  | "includes" =>
    once key fields.includes includeList fun includes =>
      { fields with includes := some includes }
  | "macros" =>
    once key fields.macros macroList fun macros => { fields with macros := some macros }
  | _ => unknown fields

def UnitFields.finish (fields : UnitFields) : Except Fault SourceUnit := do
  let file ← required "file" fields.file
  .ok ⟨file, fields.declarations.getD [], fields.includes.getD [], fields.macros.getD []⟩

/-- A unit written as a list, behind the opening bracket. It may stop after any field. -/
def unitList : Reader SourceUnit := fun cs => do
  let (file, rest) ← nextElement text true cs
  let some file := file | .error (.wrongLength 0 .unit 4)
  let (declarations, rest) ← nextElement declarationList false rest
  let (includes, rest) ← nextElement includeList false rest
  let (macros, rest) ← nextElement macroList false rest
  .ok (⟨file, declarations.getD [], includes.getD [], macros.getD []⟩, ← closeList rest)

def unit : Reader SourceUnit := fun cs =>
  match skipSpace cs with
  | '[' :: rest => unitList rest
  | '\x7b' :: rest => object UnitFields.field {} UnitFields.finish rest
  | rest => mismatch .unit rest

def readRecord (record : String) : Except Fault SourceUnit := do
  let (unit, rest) ← unit record.toList
  match skipSpace rest with
  | [] => .ok unit
  | _ => .error (.malformed .trailingCharacters)

end Sketchbook.Snapshot
