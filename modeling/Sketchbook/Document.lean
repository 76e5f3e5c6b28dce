import Sketchbook.Calendar
import Sketchbook.Header
import Sketchbook.Index
import Sketchbook.Prototype
import Sketchbook.Sketch

/-! The unified source of a project: a banner, the includes and macros of its sketches, their
prototypes, and an include of every sketch with the primary one first. Each sketch adds to the
include part and to the prototypes by itself. -/
namespace Sketchbook

structure Document where
  banner : String
  includePart : String
  body : String
  selfIncludes : List String
  deriving DecidableEq, Repr

namespace Document

def bannerText (generatedAt : String) : String :=
  "//This is an automatically generated file\n" ++
  "//Please do not modify this file\n" ++
  "//If you touch this file your change will be overwritten during the next build\n" ++
  "//This file has been generated on " ++ generatedAt ++ "\n\n"

def missingBlock (name : String) : String :=
  "\n#error the file: " ++ name ++
  " is not found in the indexer though it exists on the file system.\n" ++
  "#error this is probably due to a bad configuration: " ++
  "ino and pde are not marked as C++ source files.\n" ++
  "#error please check that *.ino and *.pde are associated with C++ source code " ++
  "in the indexer's file types.\n" ++
  "#error no forward declarations were generated for " ++ name ++ ".\n"

def fragment (index : Index) (name : String) : String :=
  match index.resolve name with
  | some unit =>
    Header.fragment unit.includes unit.macros (cLinkageRanges name unit.declarations)
  | none => ""

def block (index : Index) (name : String) : String :=
  match index.resolve name with
  | some unit => String.join ((Prototype.all unit.declarations).map (· ++ "\n"))
  | none => missingBlock name

/-- Primary sketches come first, the last of them at the front; the others follow in their
order. -/
def selfIncludesOf (sketches : List Sketch) : List String :=
  ((sketches.filter (·.isPrimary)).reverse ++ sketches.filter (!·.isPrimary)).map
    Sketch.selfInclude

def assemble (settings : Settings) (sketches : List Sketch) (index : Index)
    (instant : Calendar.Instant) : Option Document :=
  if sketches.isEmpty then none
  else some {
    banner := bannerText instant.render
    includePart := settings.frameworkInclude ++ "\n" ++
      String.join (sketches.map (fragment index ·.name))
    body := String.join (sketches.map (block index ·.name))
    selfIncludes := selfIncludesOf sketches }

def sketchRecords (index : Index) (name : String) : List LogRecord :=
  match index.resolve name with
  | none => [⟨.warn, name ++ " exists but is not in the source index"⟩]
  | some unit =>
    Prototype.allRecords unit.declarations ++
    [⟨.debug, name ++ ": " ++ Nat.repr (Prototype.all unit.declarations).length ++
      " declarations, " ++ Nat.repr unit.includes.length ++ " includes, " ++
      Nat.repr (cLinkageRanges name unit.declarations).length ++ " C linkage blocks"⟩]

def records (sketches : List Sketch) (index : Index) : List LogRecord :=
  sketches.flatMap (sketchRecords index ·.name)

def render (document : Document) (sentinel : String) : String :=
  "#ifdef " ++ sentinel ++ "\n" ++ document.banner ++ document.includePart ++ document.body ++
    "\n" ++ String.join (document.selfIncludes.map (· ++ "\n")) ++ "\n#endif\n"

end Document

end Sketchbook
