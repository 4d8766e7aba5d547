import KeyedSeries.FilePath
import KeyedSeries.KeyRange
import KeyedSeries.Tag
import KeyedSeries.Value

/-!
# Series, records and tables

A series has a path, a type that all of its values share, and tags. What is
stored of it are records, values by key; a table holds the records that were
read from one file.
-/

namespace KeyedSeries

/-- What is said of a series besides its records. -/
structure SeriesInfo where
  /-- The path of the series. -/
  path : String
  /-- The type of its values. -/
  dataType : DataType
  /-- Its tags. -/
  tags : Tags
  deriving DecidableEq

/-- A value under a key, with the type that was declared for it. -/
structure Record where
  /-- The key. -/
  key : Key
  /-- The declared type. -/
  dataType : DataType
  /-- The value. -/
  value : Value
  deriving DecidableEq, Repr

/-- The records that were read from a file. -/
structure Table where
  /-- The file. -/
  file : FilePath
  /-- The type of the series. -/
  dataType : DataType
  /-- The tags of the series. -/
  tags : Tags
  /-- The records. -/
  records : List Record
  deriving DecidableEq

end KeyedSeries
