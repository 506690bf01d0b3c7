import RowStore.Main
import RowStore.Proofs.Database.Durability
import RowStore.Proofs.Database.Failure
import RowStore.Proofs.Database.Pinning
import RowStore.Proofs.Lru.Lookup
import RowStore.Proofs.Page.NormalForm
import RowStore.Proofs.Page.Slots
import RowStore.Proofs.Plan.Memory
import RowStore.Proofs.Plan.Exhaustion
import RowStore.Proofs.Plan.Retrying
import RowStore.Proofs.Plan.Typing
import RowStore.Proofs.Stream.Limits
import RowStore.Proofs.Page.BeforeImage
import RowStore.Proofs.Database.Undoing
import RowStore.Proofs.Stream.Summaries
import RowStore.Proofs.Database.WholeFiles
import RowStore.Proofs.Database.Written
import RowStore.Proofs.Database.StoreLaw
import RowStore.Proofs.Histogram.Laws
import RowStore.Proofs.Page.Geometry
import RowStore.Proofs.Row.Framing
import RowStore.Proofs.Statistics.Tables
import RowStore.Proofs.Lru.Nodes
import RowStore.Proofs.Join.Indices
import RowStore.Proofs.Database.Numbering
