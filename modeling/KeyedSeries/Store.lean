import KeyedSeries.Failure
import KeyedSeries.Series.Table

/-!
# What a store can do

An engine never looks into files. It leaves that to a store, which reads,
writes, trims, lists and removes the files that the engine names. A store acts
on a state of its own; what it did before a failure stays done.
-/

namespace KeyedSeries

/-- What is said in a series file about the series. -/
structure SeriesMeta where
  /-- The type of the values. -/
  dataType : DataType
  /-- The tags. -/
  tags : Tags
  deriving DecidableEq

/-- A store over a state. -/
structure Store (σ : Type) where
  /-- The records of a file whose keys lie in the ranges; none at all if the tags
  of the series are not accepted. History files are read as chunks. -/
  read : (file : FilePath) → (filter : Option TagFilter) → (ranges : List KeyRange) →
    (isHistory : Bool) → Action σ (List Table)
  /-- Adds records to files, one list to each, and replaces the tags. -/
  write : (files : List FilePath) → (records : List (List Record)) → (tagSets : List Tags) →
    Action σ Unit
  /-- Removes a file, or a directory with everything below it. -/
  remove : (file : FilePath) → Action σ Unit
  /-- Removes the files whose tags are accepted; directories stay. -/
  removeSeries : (files : List FilePath) → (filter : Option TagFilter) → Action σ Unit
  /-- Removes the records in a range from the files whose tags are accepted. -/
  trim : (files : List FilePath) → (filter : Option TagFilter) → (range : KeyRange) →
    Action σ Unit
  /-- The files in a directory, or below it, in order. -/
  list : (dir : FilePath) → (recursive : Bool) → Action σ (List FilePath)
  /-- What is said of the series of a file, if that can be told. -/
  describe : (file : FilePath) → Action σ (Option SeriesMeta)
  /-- The first and the last file below a directory. -/
  bounds : (dir : FilePath) → Action σ (Option (FilePath × FilePath))
  /-- Ends the work of the store; later calls fail. -/
  close : Action σ Unit

end KeyedSeries
