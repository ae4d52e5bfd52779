import FilteredChunks.Datatype
import FilteredChunks.FilterPipeline

/-!
# Creation lists

The properties a dataset is created with, as far as filters are concerned.
-/

namespace FilteredChunks

/-- How the elements of a dataset are laid out. -/
inductive Layout
  | contiguous
  | compact
  | chunked (dims : List UInt64)
  deriving DecidableEq

/-- Creation properties of a dataset. -/
structure DatasetCreation where
  isDefault : Bool
  layout : Layout
  pipeline : FilterPipeline
  deriving DecidableEq

namespace DatasetCreation

/-- The default list, which never carries filters. -/
def default : DatasetCreation := ⟨true, .contiguous, .empty⟩

/-- A list of one's own with a layout and no filters. -/
def ofLayout (layout : Layout) : DatasetCreation := ⟨false, layout, .empty⟩

/-- A list of one's own for chunks of the given shape. -/
def chunked (dims : List UInt64) : DatasetCreation := ofLayout (.chunked dims)

def withPipeline (list : DatasetCreation) (pipeline : FilterPipeline) : DatasetCreation :=
  { list with pipeline := pipeline }

/-- The shape of a chunk, if the layout has chunks. -/
def chunkDims (list : DatasetCreation) : Option (List UInt64) :=
  match list.layout with
  | .chunked dims => some dims
  | _ => none

end DatasetCreation

end FilteredChunks
