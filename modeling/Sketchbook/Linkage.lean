import Sketchbook.Unit

/-! C linkage blocks as ranges of lines. Only blocks of the file itself count; a block whose
text stands in another file is left out. -/
namespace Sketchbook

/-- The lines from `first` to `last`, both included; none if `last` comes before `first`. -/
structure LineRange where
  first : LineNumber
  last : LineNumber
  deriving DecidableEq, Repr

def LineRange.contains (range : LineRange) (line : LineNumber) : Bool :=
  range.first ≤ line && line ≤ range.last

def cLinkageRanges (file : String) (declarations : List Declaration) : List LineRange :=
  (declarations.filter fun d =>
    d.kind == .linkageSpecification "C" && d.containingFile == file).map
    fun d => ⟨d.startLine, d.endLine⟩

def isLinked (ranges : List LineRange) (line : LineNumber) : Bool :=
  ranges.any (·.contains line)

end Sketchbook
