import FilteredChunks.Plugin.Library
import FilteredChunks.Text.PathName

/-!
# Searching for plugins

A loader looks through directories in order, and through the libraries of a directory in the order of
their names, for the first one that describes a filter with the number sought.  Directories that
cannot be read and libraries that are no such plugin are passed over.
-/

namespace FilteredChunks.Plugin

/-- `pattern` occurs in the characters. -/
def occursIn (pattern : List Char) : List Char → Bool
  | [] => pattern.isEmpty
  | c :: cs => pattern.isPrefixOf (c :: cs) || occursIn pattern cs

/-- A file name that a shared library has: one ending in `.so`, `.dylib` or `.dll`, or with a
version after `.so`. -/
def isLibraryName (name : String) : Bool :=
  let cs := name.toList
  ".so".toList.isSuffixOf cs || occursIn ".so.".toList cs || ".dylib".toList.isSuffixOf cs ||
    ".dll".toList.isSuffixOf cs

/-- The path is that of a file with the name of a shared library. -/
def isLibraryPath (path : String) : Bool := ((PathName.fileName? path).map isLibraryName).getD false

/-- Directories searched for plugins, and what is in them. -/
structure Loader where
  dirs : List String
  tree : LibraryTree

/-- The files of a directory that may be plugins, in the order of their names. -/
def candidates (files : List LibraryFile) : List LibraryFile :=
  (files.filter fun file => isLibraryName file.name).mergeSort fun a b => decide (a.name ≤ b.name)

/-- The class with a number that a library file describes, if it is a filter plugin for it. -/
def probe (dir : String) (id : FilterId) (file : LibraryFile) :
    Except FilterError (Option FilterClass) :=
  let path := PathName.join dir file.name
  match file.library with
  | none => .error (.pluginLoad path)
  | some library =>
    match library.pluginType with
    | none => .error (.pluginSymbol path "H5PLget_plugin_type")
    | some type =>
      if type ≠ filterType then .ok none
      else
        match library.info with
        | none => .error (.pluginSymbol path "H5PLget_plugin_info")
        | some descriptor =>
          (classOf path descriptor).map fun c => if c.id = id then some c else none

/-- The class that probing a file finds, if any; failures are passed over. -/
def probed? (dir : String) (id : FilterId) (file : LibraryFile) : Option FilterClass :=
  match probe dir id file with
  | .ok found => found
  | .error _ => none

namespace Loader

/-- The class that the first suitable plugin describes. -/
def load (loader : Loader) (id : FilterId) : Option FilterClass :=
  loader.dirs.findSome? fun dir =>
    match loader.tree dir with
    | some files => (candidates files).findSome? (probed? dir id)
    | none => none

end Loader

/-! ### Well-known plugins -/

/-- A plugin whose library and descriptor have fixed names. -/
structure KnownPlugin where
  id : FilterId
  library : String
  symbol : String
  deriving DecidableEq

def knownPlugins : List KnownPlugin :=
  [⟨.lz4, "libh5lz4.so.0", "H5Z_LZ4"⟩, ⟨.zstd, "libh5zstd.so.0", "H5Z_ZSTD"⟩]

/-- The well-known plugin for a number. -/
def knownPlugin? (id : FilterId) : Option KnownPlugin := knownPlugins.find? fun p => p.id == id

/-- The class of a well-known plugin in the library of that name in one directory. -/
def KnownPlugin.load (plugin : KnownPlugin) (dir : String) (tree : LibraryTree) :
    Except FilterError FilterClass :=
  let path := PathName.join dir plugin.library
  let file := (tree dir).bind fun files => files.find? fun file => file.name == plugin.library
  match file.bind (·.library) with
  | none => .error (.pluginLoad path)
  | some library =>
    match library.symbols.lookup plugin.symbol with
    | none => .error (.pluginSymbol path plugin.symbol)
    | some descriptor =>
      match classOf path (some descriptor) with
      | .error error => .error error
      | .ok c => if c.id = plugin.id then .ok c else .error (.invalidPlugin path .wrongFilter)

end FilteredChunks.Plugin
