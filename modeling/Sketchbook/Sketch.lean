import Sketchbook.Path

/-! Sketches are the members of a project with one of the extensions that mark them. The
primary sketch is named after the project. -/
namespace Sketchbook
open Text

def defaultArtifactName : String := ".ino.cpp"

def defaultSentinel : String := "__IN_ECLIPSE__"

def defaultFrameworkInclude : String := "#include \"Arduino.h\""

def defaultSketchExtensions : List String := ["ino", "pde"]

def defaultSourceExtensions : List String :=
  ["ino", "pde", "c", "cc", "cpp", "cxx", "h", "hh", "hpp", "hxx"]

structure Settings where
  artifactName : String := defaultArtifactName
  /-- The macro that must be defined for the unified source to say anything. -/
  sentinel : String := defaultSentinel
  /-- The first line of the include part. -/
  frameworkInclude : String := defaultFrameworkInclude
  sketchExtensions : List String := defaultSketchExtensions
  deriving DecidableEq, Repr

def Settings.isSketchExtension (settings : Settings) (extension : String) : Bool :=
  settings.sketchExtensions.contains extension

def asciiLower (c : Char) : Char :=
  if 'A' ≤ c ∧ c ≤ 'Z' then Char.ofNat (c.toNat + 32) else c

def equalIgnoringCase (s t : String) : Bool :=
  s.toList.map asciiLower == t.toList.map asciiLower

def isSourceExtension (extensions : List String) (extension : String) : Bool :=
  extensions.any (equalIgnoringCase · extension)

structure Member where
  name : String
  path : Bytes
  linkTarget : Option Bytes := none
  deriving DecidableEq, Repr

def Member.extension? (m : Member) : Option String :=
  (Path.extension? m.name.toList).map String.ofList

structure Sketch where
  name : String
  isPrimary : Bool
  linkTarget : Option Bytes := none
  deriving DecidableEq, Repr

/-- The line that pulls the sketch into the unified source: by its name, or by the place a
link leads to. -/
def Sketch.selfInclude (sketch : Sketch) : String :=
  "#include \"" ++ (match sketch.linkTarget with
    | some target => Path.includeText target
    | none => sketch.name) ++ "\""

def Member.sketch? (project : String) (settings : Settings) (m : Member) : Option Sketch :=
  match m.extension? with
  | some extension =>
    if settings.isSketchExtension extension then
      some ⟨m.name, m.name == project ++ "." ++ extension, m.linkTarget⟩
    else none
  | none => none

def sketchesAmong (project : String) (members : List Member) (settings : Settings) :
    List Sketch :=
  members.filterMap (Member.sketch? project settings)

end Sketchbook
