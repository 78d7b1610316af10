import Lockstep.Builder
import Lockstep.Catalog
import Lockstep.Command.Arguments
import Lockstep.Decode.Records
import Lockstep.Dominance
import Lockstep.Main
import Lockstep.Report
import Lockstep.Proofs.Names
import Lockstep.Proofs.Table
import Lockstep.Proofs.Odometer
import Lockstep.Proofs.Reachability
import Lockstep.Proofs.Records
import Lockstep.Proofs.Search
import Lockstep.Proofs.Exploration
import Lockstep.Proofs.Building
import Lockstep.Proofs.Deadlock
import Lockstep.Proofs.Priority
import Lockstep.Proofs.Cursors
import Lockstep.Proofs.LeastWords
import Lockstep.Proofs.Finality
import Lockstep.Proofs.Bisimulation
import Lockstep.Proofs.Effect
import Lockstep.Proofs.Noninterference
import Lockstep.Proofs.Reordering
import Lockstep.Proofs.Restriction
import Lockstep.Proofs.Interpreter
import Lockstep.Proofs.Lookups
import Lockstep.Proofs.Histories
import Lockstep.Proofs.Tokens
import Lockstep.Proofs.Layouts
import Lockstep.Proofs.Decoding
import Lockstep.Proofs.Reports
import Lockstep.Proofs.Exports
import Lockstep.Proofs.Agreement
import Lockstep.Proofs.Tallies
import Lockstep.Proofs.Dominance
import Lockstep.Proofs.MixedRadix
import Lockstep.Proofs.FirstFaults
import Lockstep.Proofs.ClosedForm
import Lockstep.Proofs.Saturation
import Lockstep.Proofs.Defects
import Lockstep.Proofs.Renumbering
import Lockstep.Proofs.Introspection
import Lockstep.Proofs.Listing
import Lockstep.Proofs.Worklist
import Lockstep.Proofs.Shadowing
