import AnnotationGraph.Command.FileTree
import AnnotationGraph.Main
import AnnotationGraph.Program.Writer
import AnnotationGraph.Proofs.Resolution
import AnnotationGraph.Proofs.Growth
import AnnotationGraph.Proofs.Descriptor
import AnnotationGraph.Proofs.StandInNames
import AnnotationGraph.Proofs.Selection
import AnnotationGraph.Proofs.Visibility
import AnnotationGraph.Proofs.BodyContent
import AnnotationGraph.Proofs.BodyKey
import AnnotationGraph.Proofs.Exploration
import AnnotationGraph.Proofs.Analysis
import AnnotationGraph.Proofs.Trace
import AnnotationGraph.Proofs.Reports
import AnnotationGraph.Proofs.Calls
import AnnotationGraph.Proofs.Counts
import AnnotationGraph.Proofs.Description
import AnnotationGraph.Proofs.Indifference
import AnnotationGraph.Proofs.Acceptance
import AnnotationGraph.Proofs.Programs
import AnnotationGraph.Proofs.Lockstep
import AnnotationGraph.Proofs.Frame
import AnnotationGraph.Proofs.KeptBodies
import AnnotationGraph.Proofs.FlowGraph
import AnnotationGraph.Proofs.SingleAssignment
import AnnotationGraph.Proofs.Faults
import AnnotationGraph.Proofs.GraphHistory
import AnnotationGraph.Proofs.FileTree
import AnnotationGraph.Proofs.Decimals
import AnnotationGraph.Proofs.FiniteNumbers
import AnnotationGraph.Proofs.JsonText
import AnnotationGraph.Proofs.ManifestText
