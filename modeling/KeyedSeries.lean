import KeyedSeries.Engine
import KeyedSeries.Plan.Builder
import KeyedSeries.Optimize.Fixpoint
import KeyedSeries.Store.Directory
import KeyedSeries.Proofs.Plan.Traversal
import KeyedSeries.Proofs.Optimize.Runs
import KeyedSeries.Proofs.Optimize.NormalForm
import KeyedSeries.Proofs.Engine.Action
import KeyedSeries.Proofs.Engine.KeyPushDown
import KeyedSeries.Proofs.Optimize.Meaning
import KeyedSeries.Proofs.Catalog
import KeyedSeries.Proofs.DataView
import KeyedSeries.Proofs.Engine.Answers
import KeyedSeries.Proofs.Engine.Stored
import KeyedSeries.Proofs.Optimize.Settled
import KeyedSeries.Proofs.Optimize.FreshIds
import KeyedSeries.Proofs.Optimize.RunTags
import KeyedSeries.Proofs.DataView.Transposed
import KeyedSeries.Proofs.Engine.LastCells
import KeyedSeries.Proofs.Engine.KeyDeletion
import KeyedSeries.Proofs.Engine.History
import KeyedSeries.Proofs.Engine.Addressing
import KeyedSeries.Proofs.Engine.OwnPath
import KeyedSeries.Proofs.Engine.Locks
import KeyedSeries.Proofs.DataView.FirstColumns
import KeyedSeries.Proofs.Engine.FailedInsert
import KeyedSeries.Proofs.Engine.Bounds
import KeyedSeries.Proofs.Store.Units
import KeyedSeries.Proofs.Engine.EmptiedUnits
import KeyedSeries.Proofs.Join
import KeyedSeries.Proofs.Value.Numbers
import KeyedSeries.Proofs.Optimize.Ending
import KeyedSeries.Proofs.Series.Location
import KeyedSeries.Proofs.Store.Content
import KeyedSeries.Proofs.Filter.WholeText
import KeyedSeries.Proofs.Store.Documents
import KeyedSeries.Proofs.Series.Glob
import KeyedSeries.Proofs.Rows.Scattered
import KeyedSeries.Proofs.DataView.Dense
import KeyedSeries.Proofs.Optimize.ProgressCheck
import KeyedSeries.Proofs.Config.Separate
import KeyedSeries.Proofs.Engine.TypeClash
import KeyedSeries.Proofs.Plan.Walk
import KeyedSeries.Proofs.Optimize.Matching
