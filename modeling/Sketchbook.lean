import Sketchbook.Main
import Sketchbook.Proofs.CommandLine.Modes
import Sketchbook.Proofs.Prototype.EndsInCode
import Sketchbook.Proofs.Prototype.OfSignature
import Sketchbook.Proofs.Project.Generate
import Sketchbook.Proofs.Project.Indexed
import Sketchbook.Proofs.FileTree.Alike
import Sketchbook.Proofs.FileTree.Names
import Sketchbook.Proofs.FileTree.Entry
import Sketchbook.Proofs.Project.Members
import Sketchbook.Proofs.Project.Primary
import Sketchbook.Proofs.Project.Overwrite
import Sketchbook.Proofs.Project.ErrorBlocks
import Sketchbook.Proofs.Project.Alike
import Sketchbook.Proofs.Project.History
import Sketchbook.Proofs.Project.SelfInclude
import Sketchbook.Proofs.Snapshot.Foreign
import Sketchbook.Proofs.Header.Interleaving
import Sketchbook.Proofs.Prototype.Extraction
import Sketchbook.Proofs.Document.SelfIncludes
import Sketchbook.Proofs.Project.Sketches
import Sketchbook.Proofs.Snapshot.FirstFault
import Sketchbook.Proofs.FileTree.Leads
import Sketchbook.Proofs.Project.Listing
import Sketchbook.Proofs.CommandLine.Written
import Sketchbook.Proofs.Source.ByPosition
import Sketchbook.Proofs.Prototype.ByPosition
import Sketchbook.Proofs.Source.Reading
import Sketchbook.Proofs.Index.Filing
import Sketchbook.Proofs.Prototype.LineEnds
