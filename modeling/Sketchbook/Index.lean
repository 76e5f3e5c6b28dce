import Sketchbook.Log
import Sketchbook.Unit

/-! An index of source units by file name, kept in the order of the names. A unit replaces
the one that was filed under its name before. -/
namespace Sketchbook

structure Index where
  units : List SourceUnit := []
  deriving DecidableEq, Repr

namespace Index

def empty : Index := {}

def resolve (index : Index) (file : String) : Option SourceUnit :=
  index.units.find? (·.file == file)

def insertUnit (unit : SourceUnit) : List SourceUnit → List SourceUnit
  | [] => [unit]
  | u :: rest =>
    if unit.file < u.file then unit :: u :: rest
    else if unit.file = u.file then unit :: rest
    else u :: insertUnit unit rest

def insert (index : Index) (unit : SourceUnit) : Index := ⟨insertUnit unit index.units⟩

def insertAll (index : Index) (units : List SourceUnit) : Index := units.foldl insert index

def ofUnits (units : List SourceUnit) : Index := empty.insertAll units

def size (index : Index) : Nat := index.units.length

def isEmpty (index : Index) : Bool := index.units.isEmpty

def insertRecords (index : Index) : List SourceUnit → List LogRecord
  | [] => []
  | unit :: rest =>
    (match index.resolve unit.file with
      | some old => [⟨.debug, "snapshot holds " ++ old.file ++
          " twice; keeping the later record"⟩]
      | none => []) ++ (index.insert unit).insertRecords rest

end Index

end Sketchbook
