import Sketchbook.Linkage

/-! The include and macro part that one source file adds to the unified source. Each macro
stands right before the first include below it, so that it configures that include; macros
below the last include are left out. -/
namespace Sketchbook.Header

def includeText (ranges : List LineRange) (directive : Directive) : String :=
  if isLinked ranges directive.line then
    "extern \"C\" \x7b\n" ++ directive.raw ++ "\n\x7d"
  else directive.raw

def between (lower upper : LineNumber) (macros : List Directive) : List Directive :=
  macros.filter fun m => lower < m.line && m.line < upper

/-- The entries for includes and macros already in line order. `previous` is the line of the
include before, zero at the start. -/
def entries (ranges : List LineRange) (macros : List Directive) (previous : LineNumber) :
    List Directive → List String
  | [] => []
  | directive :: rest =>
    (between previous directive.line macros).map (·.raw) ++
      includeText ranges directive :: entries ranges macros directive.line rest

def fragment (includes macros : List Directive) (ranges : List LineRange) : String :=
  String.join ((entries ranges (sortByLine macros) 0 (sortByLine includes)).map (· ++ "\n"))

end Sketchbook.Header
