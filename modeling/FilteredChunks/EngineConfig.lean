import FilteredChunks.Text.PathName

/-!
# Configuration

The number of workers and the directories searched for plugins, as two environment variables give
them.
-/

namespace FilteredChunks

/-- Settings taken from the environment. -/
structure EngineConfig where
  /-- Number of workers. -/
  threads : Nat
  /-- A directory, or several with colons between them. -/
  pluginDir : String
  deriving DecidableEq

namespace EngineConfig

def threadVariable : String := "H5_NTHREADS"

def pathVariable : String := "HDF5_PLUGIN_PATH"

def defaultDir : String := "/usr/local/hdf5/lib/plugin"

def default : EngineConfig := ⟨1, defaultDir⟩

/-- The number that decimal digits stand for. -/
def decimalValue (digits : List Char) : Nat :=
  digits.foldl (fun n c => 10 * n + (c.toNat - '0'.toNat)) 0

/-- Reads a number of threads: decimal digits only, for a number below 2^64.  No digits stand for
zero, and zero for one. -/
def parseThreads (raw : String) : Option Nat :=
  let digits := raw.toList
  if digits.all Char.isDigit && decide (decimalValue digits < UInt64.size) then
    some (max (decimalValue digits) 1)
  else none

/-- The configuration that variables give.  A number of threads that cannot be read counts as one; an
empty path counts as not given. -/
def ofLookup (lookup : String → Option String) : EngineConfig where
  threads := ((lookup threadVariable).bind parseThreads).getD 1
  pluginDir := ((lookup pathVariable).filter (· ≠ "")).getD defaultDir

def withThreads (config : EngineConfig) (threads : Nat) : EngineConfig :=
  { config with threads := max threads 1 }

def withPluginDir (config : EngineConfig) (dir : String) : EngineConfig :=
  { config with pluginDir := dir }

/-- The directories to search, in order. -/
def searchDirs (config : EngineConfig) : List String :=
  ((PathName.splitBy ':' config.pluginDir.toList).filter (· ≠ [])).map String.ofList

end EngineConfig

end FilteredChunks
