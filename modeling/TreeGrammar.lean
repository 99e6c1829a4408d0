import TreeGrammar.Main
import TreeGrammar.Proofs.Acceptance
import TreeGrammar.Proofs.Backtracking
import TreeGrammar.Proofs.Balance
import TreeGrammar.Proofs.Calls
import TreeGrammar.Proofs.Circularity
import TreeGrammar.Proofs.Closure
import TreeGrammar.Proofs.Drawings
import TreeGrammar.Proofs.Emission
import TreeGrammar.Proofs.Frontier
import TreeGrammar.Proofs.Generation
import TreeGrammar.Proofs.Headers
import TreeGrammar.Proofs.Heads
import TreeGrammar.Proofs.Hygiene
import TreeGrammar.Proofs.Inlining
import TreeGrammar.Proofs.Journals
import TreeGrammar.Proofs.Outlines
import TreeGrammar.Proofs.Outputs
import TreeGrammar.Proofs.Padding
import TreeGrammar.Proofs.Placement
import TreeGrammar.Proofs.Renaming
import TreeGrammar.Proofs.Reporting
import TreeGrammar.Proofs.Shapes
import TreeGrammar.Proofs.Stripping
import TreeGrammar.Proofs.Termination
import TreeGrammar.Proofs.Unambiguity
import TreeGrammar.Proofs.Wrapping
import TreeGrammar.Tree.Outline
