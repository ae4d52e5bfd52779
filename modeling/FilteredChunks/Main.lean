import FilteredChunks.Command.Run

/-!
# The program

Takes in the part of the file system that a request is about, runs the command on it, puts what
changed back into the file system, and prints.  Plugin libraries cannot be opened from here, so a
directory is searched as if every file in it failed to open.
-/

namespace FilteredChunks.Program

/-- The names of the files that a request reads or makes. -/
def filesOf : Option Command.Request → List String
  | some (.write request) => [request.output]
  | some (.inspect input) => [input]
  | _ => []

def nameOf (place : Place) : String := "/" ++ "/".intercalate place

/-- What the file system has at a place, if it can be read. -/
def readNode (place : Place) : IO (Option FileNode) := do
  try
    let path ← IO.FS.realPath (nameOf place)
    if ← path.isDir then return some (.directory [])
    return some (.file (← IO.FS.readBinFile path).toList)
  catch _ => return none

/-- Takes in what the parts of a path lead through, and tells where they lead. -/
def readAlong (tree : FileTree) (place : Place) :
    List String → IO (FileTree × Place)
  | [] => return (tree, place)
  | part :: parts => do
    let next := FileTree.follow place part
    match tree.node? next with
    | some _ => readAlong tree next parts
    | none =>
      match ← readNode next with
      | some node => readAlong (tree.put next node) next parts
      | none => readAlong tree next parts

/-- Takes in what is in a directory. -/
def readChildren (tree : FileTree) (place : Place) : IO FileTree := do
  try
    let path ← IO.FS.realPath (nameOf place)
    return (← path.readDir).foldl (fun t child =>
      let place := place ++ [child.fileName]
      if (t.node? place).isSome then t else t.put place (.file [])) tree
  catch _ => return tree

/-- Takes in what some files and directories are to a command that runs in a directory. -/
def readTree (here : String) (files directories : List String) : IO FileTree := do
  let (tree, _) ← readAlong (.ofDevices (PathName.parts here)) [] (PathName.parts here)
  let tree ← files.foldlM (fun t path => do
    return (← readAlong t (t.base path) (PathName.parts path)).1) tree
  directories.foldlM (fun t path => do
    let (t, place) ← readAlong t (t.base path) (PathName.parts path)
    readChildren t place) tree

mutual

/-- A node and everything below it, with the places. -/
def listing (place : Place) : FileNode → List (Place × FileNode)
  | .directory entries => (place, .directory entries) :: listingAll place entries
  | node => [(place, node)]

def listingAll (place : Place) : List (String × FileNode) → List (Place × FileNode)
  | [] => []
  | (name, node) :: entries => listing (place ++ [name]) node ++ listingAll place entries

end

/-- Puts into the file system what is new in a tree. -/
def writeTree (before after : FileTree) : IO Unit :=
  (listing [] after.root).forM fun (place, node) =>
    match before.node? place, node with
    | none, .directory _ => IO.FS.createDirAll (nameOf place)
    | some (.file old), .file new =>
      if old = new then pure () else IO.FS.writeBinFile (nameOf place) ⟨new.toArray⟩
    | none, .file new => IO.FS.writeBinFile (nameOf place) ⟨new.toArray⟩
    | _, _ => pure ()

/-- Runs the command in the directory `here`. -/
def run (here : String) (lookup : String → Option String) (arguments : List String) :
    IO UInt32 := do
  let tree ← readTree here (filesOf (Command.readArguments arguments))
    (EngineConfig.ofLookup lookup).searchDirs
  let started ← IO.monoNanosNow
  let finished ← IO.lazyPure fun _ => Command.run ⟨lookup, tree⟩ arguments
  writeTree tree finished.tree
  let nanoseconds := (← IO.monoNanosNow) - started
  let stdout ← IO.getStdout
  finished.lines.forM fun line => stdout.putStrLn (line.render nanoseconds)
  match finished.error with
  | some text => (← IO.getStderr).putStrLn ("error: " ++ text)
  | none => pure ()
  return finished.status.toUInt32

end FilteredChunks.Program

/-- The program, with its arguments. -/
def main (arguments : List String) : IO UInt32 := do
  let threads ← IO.getEnv FilteredChunks.EngineConfig.threadVariable
  let path ← IO.getEnv FilteredChunks.EngineConfig.pathVariable
  let lookup (name : String) : Option String :=
    if name = FilteredChunks.EngineConfig.threadVariable then threads
    else if name = FilteredChunks.EngineConfig.pathVariable then path
    else none
  FilteredChunks.Program.run (← IO.currentDir).toString lookup arguments
