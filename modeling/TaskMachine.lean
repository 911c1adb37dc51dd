import TaskMachine.CommandLine.Folder
import TaskMachine.Machine.Stored
import TaskMachine.Machine.Transitions
import TaskMachine.Main
import TaskMachine.Proofs.Expansion.Ensures
import TaskMachine.Proofs.Expansion.Growth
import TaskMachine.Proofs.Declaration.Places
import TaskMachine.Proofs.Expansion.Correspondence
import TaskMachine.Proofs.Compilation.Agreement
import TaskMachine.Proofs.Compilation.Acceptance
import TaskMachine.Proofs.Compilation.Connection
import TaskMachine.Proofs.Compilation.Rendered
import TaskMachine.Proofs.Expansion.OwnNames
import TaskMachine.Proofs.Compilation.Ownership
import TaskMachine.Proofs.Compilation.Independence
import TaskMachine.Proofs.Compute.Interleaving
import TaskMachine.Proofs.Expansion.Collisions
import TaskMachine.Proofs.Declaration.RoundTrip
import TaskMachine.Proofs.Machine.RoundTrip
import TaskMachine.Proofs.Machine.Resolution
import TaskMachine.Proofs.Compilation.Planning
import TaskMachine.Proofs.CommandLine.Agreement
import TaskMachine.Proofs.Compilation.Inertness
import TaskMachine.Proofs.Compilation.Reordering
import TaskMachine.Proofs.Compilation.Bindings
import TaskMachine.Proofs.Declaration.Translation
import TaskMachine.Proofs.Machine.Violations
import TaskMachine.Proofs.Machine.Adjacency
import TaskMachine.Proofs.Declaration.Typing
import TaskMachine.Proofs.Compilation.Endings
import TaskMachine.Proofs.Compilation.FunctionOrder
import TaskMachine.Proofs.Compute.Variables
import TaskMachine.Proofs.Expansion.Recorded
import TaskMachine.Proofs.Compilation.Registration
import TaskMachine.Proofs.Expansion.Issued
import TaskMachine.Proofs.Compilation.Notices
