import Sketchbook.Unit

/-! Writing source units as records: one object a line, its fields in a fixed order and
without blanks. -/
namespace Sketchbook.Snapshot

def hexDigit (n : Nat) : Char := Char.ofNat (if n < 10 then 48 + n else 87 + n)

def escapedChar (c : Char) : List Char :=
  if c = '"' then ['\\', '"']
  else if c = '\\' then ['\\', '\\']
  else if c = '\x08' then ['\\', 'b']
  else if c = '\x0c' then ['\\', 'f']
  else if c = '\n' then ['\\', 'n']
  else if c = '\r' then ['\\', 'r']
  else if c = '\t' then ['\\', 't']
  else if c.toNat < 0x20 then
    ['\\', 'u', '0', '0', hexDigit (c.toNat / 16), hexDigit (c.toNat % 16)]
  else [c]

def writeText (s : String) : List Char := '"' :: s.toList.flatMap escapedChar ++ ['"']

def writeLine (line : LineNumber) : List Char := Nat.toDigits 10 line.toNat

def commaJoin : List (List Char) → List Char
  | [] => []
  | [part] => part
  | part :: more => part ++ ',' :: commaJoin more

def writeList (items : List (List Char)) : List Char := '[' :: commaJoin items ++ [']']

def writeMember (key : String) (value : List Char) : List Char := writeText key ++ ':' :: value

def writeObject (members : List (List Char)) : List Char :=
  '\x7b' :: commaJoin members ++ ['\x7d']

def writeDirective (directive : Directive) : List Char :=
  writeObject
    [writeMember "raw" (writeText directive.raw),
     writeMember "line" (writeLine directive.line)]

def kindMembers : DeclarationKind → List (List Char)
  | .functionDefinition => [writeMember "kind" (writeText "function_definition")]
  | .linkageSpecification literal =>
    [writeMember "kind" (writeText "linkage_specification"),
     writeMember "literal" (writeText literal)]
  | .other => [writeMember "kind" (writeText "other")]

def writeDeclaration (declaration : Declaration) : List Char :=
  writeObject (kindMembers declaration.kind ++
    [writeMember "raw" (writeText declaration.raw),
     writeMember "start_line" (writeLine declaration.startLine),
     writeMember "end_line" (writeLine declaration.endLine),
     writeMember "containing_file" (writeText declaration.containingFile)])

def writeUnit (unit : SourceUnit) : List Char :=
  writeObject
    [writeMember "file" (writeText unit.file),
     writeMember "declarations" (writeList (unit.declarations.map writeDeclaration)),
     writeMember "includes" (writeList (unit.includes.map writeDirective)),
     writeMember "macros" (writeList (unit.macros.map writeDirective))]

def writeRecord (unit : SourceUnit) : String := String.ofList (writeUnit unit)

def sortByFile (units : List SourceUnit) : List SourceUnit :=
  units.mergeSort fun a b => decide (a.file ≤ b.file)

def render (units : List SourceUnit) : String :=
  String.join ((sortByFile units).map fun unit => writeRecord unit ++ "\n")

end Sketchbook.Snapshot
