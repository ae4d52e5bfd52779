import FilteredChunks.Filter.Deflate
import FilteredChunks.Filter.Fletcher32
import FilteredChunks.Filter.Shuffle

/-!
# Filters that are always there
-/

namespace FilteredChunks.Builtin

/-- The built-in classes in the order of their numbers. -/
def classes [Compression] : List FilterClass :=
  [DeflateFilter.filterClass, Shuffle.filterClass, Fletcher32.filterClass]

/-- The built-in class with a number. -/
def find? [Compression] (id : FilterId) : Option FilterClass := classes.find? fun c => c.id == id

end FilteredChunks.Builtin
