import Beads.Blocked.Subtree
import Beads.Blocked.Termination
import Beads.Create.ChildIds
import Beads.Create.Search
import Beads.Formula.References
import Beads.Formula.Resolve
import Beads.Formula.VarRefs
import Beads.Graph.Segments
import Beads.Journal.Retention
import Beads.Json.Agreement
import Beads.Ledger.Covers
import Beads.Lifecycle.Claims
import Beads.Lifecycle.ClosedAt
import Beads.Lifecycle.Leases
import Beads.Merge.Guarantees
import Beads.Merge.Recompute
import Beads.Merge.Restored
import Beads.Pagination.Keyset
import Beads.Pagination.Walks
import Beads.Query.Directions
import Beads.Query.RoundTrip
import Beads.Ready.Agreement
import Beads.Recheck.Settling
import Beads.Resolve.Choice
import Beads.Scheduling.Hierarchy
import Beads.Search.Labels
import Beads.Store.ContentHash
import Beads.Store.NaturalOrder
import Beads.Sweep.Protections
import Beads.Tracker.LostUpdates
import Beads.Tree.Prune
