import Lineage.LogFilter
import Lineage.Settings.Document
import Lineage.Workbench.Experiment
import Lineage.Workbench.Rehearsal
import Lineage.Workbench.Sets
import Lineage.Proofs.Outcome
import Lineage.Proofs.Record
import Lineage.Proofs.Shadow
import Lineage.Proofs.Accesses
import Lineage.Proofs.History
import Lineage.Proofs.Graph
import Lineage.Proofs.Reaching
import Lineage.Proofs.Ownership
import Lineage.Proofs.Handles
import Lineage.Proofs.Listening
import Lineage.Proofs.Sweep
import Lineage.Proofs.Steady
import Lineage.Proofs.Refusals
import Lineage.Proofs.Marks
import Lineage.Proofs.Neighbours
import Lineage.Proofs.Footprint
import Lineage.Proofs.Histories
import Lineage.Proofs.PlainMap
import Lineage.Proofs.Expiry
import Lineage.Proofs.Pipelines
import Lineage.Proofs.Capabilities
import Lineage.Proofs.Documents
import Lineage.Proofs.Node.Snapshots
import Lineage.Proofs.Node.Outlines
import Lineage.Proofs.Node.Limits
import Lineage.Proofs.Toy.Checkpoints
import Lineage.Proofs.Toy.Tags
import Lineage.Proofs.Toy.Variables
import Lineage.Proofs.Toy.Books
import Lineage.Proofs.Toy.Bookkeeping
import Lineage.Proofs.Toy.Follows
import Lineage.Proofs.Toy.Invocation
import Lineage.Proofs.Toy.Simulation
import Lineage.Proofs.Toy.Situations
import Lineage.Proofs.Toy.StackDiscipline
import Lineage.Proofs.Toy.Arguments
import Lineage.Proofs.Toy.Transparency
import Lineage.Proofs.Toy.Collector
import Lineage.Proofs.Toy.Slicing
import Lineage.Proofs.Toy.Waiting
import Lineage.Proofs.Toy.Balance
import Lineage.Proofs.Toy.Stores
import Lineage.Proofs.Toy.Stream
import Lineage.Proofs.Toy.Abort
import Lineage.Proofs.Toy.Accounting
import Lineage.Proofs.Toy.SiteNumbers
import Lineage.Proofs.Toy.Returns
