import SolidScript.Files.Tree
import SolidScript.Main
import SolidScript.Proofs.Evaluation.Interleaving
import SolidScript.Proofs.Geometry.Padding
import SolidScript.Proofs.Geometry.Smoothing
import SolidScript.Proofs.Machine.Accounting
import SolidScript.Proofs.Machine.Bodies
import SolidScript.Proofs.Machine.Limit
import SolidScript.Proofs.Machine.Places
import SolidScript.Proofs.Machine.Planarity
import SolidScript.Proofs.Machine.Purity
import SolidScript.Proofs.Machine.Reuse
import SolidScript.Proofs.Machine.Wrapping
import SolidScript.Proofs.Mesh.Decoding
import SolidScript.Proofs.Mesh.Enclosure
import SolidScript.Proofs.Mesh.Orientation
import SolidScript.Proofs.Program.Answers
import SolidScript.Proofs.Program.Layout
import SolidScript.Proofs.Program.Ordering
import SolidScript.Proofs.Program.Pruning
import SolidScript.Proofs.Program.RoundTrip
import SolidScript.Proofs.Scope.Lifetimes
import SolidScript.Proofs.Value.Elements
import SolidScript.Proofs.Value.Forms
import SolidScript.Proofs.Value.Text
