import Sketchbook.Number.Text
import Sketchbook.Text.Quoted

/-! What can be wrong with a snapshot record. Either the text ends too early, or it is not
well formed, or it is well formed but does not have the shape of a record. -/
namespace Sketchbook.Snapshot
open Number

inductive Unfinished where
  | list | object | string | value
  deriving DecidableEq, Repr

inductive Flaw where
  | expectedColon
  | expectedListEnd
  | expectedObjectEnd
  | expectedWord
  | expectedValue
  | invalidEscape
  | invalidNumber
  | numberOutOfRange
  | controlCharacter
  | keyMustBeString
  | loneSurrogate
  | unpairedEscape
  | trailingComma
  | trailingCharacters
  | nestedTooDeep
  deriving DecidableEq, Repr

inductive Shape where
  | null
  | boolean (value : Bool)
  | integer (value : Int)
  | floating (negative : Bool) (magnitude : Binary64)
  | string (value : String)
  | sequence
  | map
  deriving DecidableEq, Repr

inductive Wanted where
  | string
  | sequence
  | lineNumber
  | unit
  | inclusion
  | macroDefinition
  | declaration
  | variant
  | variantIndex
  deriving DecidableEq, Repr

inductive Fault where
  | unfinished (place : Unfinished)
  | malformed (flaw : Flaw)
  | wrongShape (got : Shape) (wanted : Wanted)
  | wrongValue (got : Int) (wanted : Wanted)
  | wrongLength (length : Nat) (wanted : Wanted) (full : Nat)
  | unknownVariant (name : String)
  | missingField (name : String)
  | duplicateField (name : String)
  deriving DecidableEq, Repr

inductive Category where
  | eof | malformed | data
  deriving DecidableEq, Repr

def Fault.category : Fault → Category
  | .unfinished _ => .eof
  | .malformed _ => .malformed
  | _ => .data

def Unfinished.message : Unfinished → String
  | .list => "EOF while parsing a list"
  | .object => "EOF while parsing an object"
  | .string => "EOF while parsing a string"
  | .value => "EOF while parsing a value"

def Flaw.message : Flaw → String
  | .expectedColon => "expected `:`"
  | .expectedListEnd => "expected `,` or `]`"
  | .expectedObjectEnd => "expected `,` or `\x7d`"
  | .expectedWord => "expected ident"
  | .expectedValue => "expected value"
  | .invalidEscape => "invalid escape"
  | .invalidNumber => "invalid number"
  | .numberOutOfRange => "number out of range"
  | .controlCharacter => "control character (\\u0000-\\u001F) found while parsing a string"
  | .keyMustBeString => "key must be a string"
  | .loneSurrogate => "lone leading surrogate in hex escape"
  | .unpairedEscape => "unexpected end of hex escape"
  | .trailingComma => "trailing comma"
  | .trailingCharacters => "trailing characters"
  | .nestedTooDeep => "recursion limit exceeded"

def integerText (value : Int) : String :=
  if value < 0 then "-" ++ Nat.repr value.natAbs else Nat.repr value.toNat

def Shape.text : Shape → String
  | .null => "null"
  | .boolean value => "boolean `" ++ (if value then "true" else "false") ++ "`"
  | .integer value => "integer `" ++ integerText value ++ "`"
  | .floating negative magnitude =>
    "floating point `" ++ floatText negative magnitude ++ "`"
  | .string value => "string " ++ Text.quoted value
  | .sequence => "sequence"
  | .map => "map"

def Wanted.text : Wanted → String
  | .string => "a string"
  | .sequence => "a sequence"
  | .lineNumber => "u32"
  | .unit => "struct TranslationUnit"
  | .inclusion => "struct IncludeDirective"
  | .macroDefinition => "struct MacroDefinition"
  | .declaration => "struct DeclarationNode"
  | .variant => "variant identifier"
  | .variantIndex => "variant index 0 <= i < 3"

def Fault.message : Fault → String
  | .unfinished place => place.message
  | .malformed flaw => flaw.message
  | .wrongShape got wanted => "invalid type: " ++ got.text ++ ", expected " ++ wanted.text
  | .wrongValue got wanted =>
    "invalid value: integer `" ++ integerText got ++ "`, expected " ++ wanted.text
  | .wrongLength length wanted full =>
    "invalid length " ++ Nat.repr length ++ ", expected " ++ wanted.text ++ " with " ++
      Nat.repr full ++ " elements"
  | .unknownVariant name =>
    "unknown variant `" ++ name ++
      "`, expected one of `function_definition`, `linkage_specification`, `other`"
  | .missingField name => "missing field `" ++ name ++ "`"
  | .duplicateField name => "duplicate field `" ++ name ++ "`"

end Sketchbook.Snapshot
