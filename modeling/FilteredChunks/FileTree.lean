import FilteredChunks.FilterError
import FilteredChunks.Plugin.Library
import FilteredChunks.Text.PathName

/-!
# Trees of files

The part of a file system that a command works on: directories, files with their bytes, plugin
libraries and devices.  A place is the list of names that lead to it from the root.  What is put at a
place is found there again.
-/

namespace FilteredChunks

/-- What is at a place. -/
inductive FileNode
  | directory (entries : List (String × FileNode))
  | file (content : Bytes)
  | library (library : Plugin.Library)
  /-- A device: it reads the same whatever is written to it, which it refuses if it is full. -/
  | device (content : Bytes) (full : Bool)

/-- The names that lead to a place. -/
abbrev Place := List String

namespace FileNode

/-- What a directory holds, by name. -/
def entries : FileNode → List (String × FileNode)
  | directory entries => entries
  | _ => []

/-- Entries with one more, which replaces that of the same name. -/
def setEntry (name : String) (node : FileNode) : List (String × FileNode) → List (String × FileNode)
  | [] => [(name, node)]
  | (name', node') :: rest =>
    if name == name' then (name, node) :: rest else (name', node') :: setEntry name node rest

/-- What is at a place below a node. -/
def at? : Place → FileNode → Option FileNode
  | [], node => some node
  | name :: place, node => (node.entries.lookup name).bind (at? place)

/-- Puts a new node at a place below a node.  Directories on the way are made where there are none. -/
def put (node : FileNode) (place : Place) (new : FileNode) : FileNode :=
  match place with
  | [] => new
  | name :: place =>
    let below := (node.entries.lookup name).getD (directory [])
    directory (setEntry name (below.put place new) node.entries)

theorem lookup_setEntry (name : String) (node : FileNode) (entries : List (String × FileNode)) :
    (setEntry name node entries).lookup name = some node := by
  induction entries with
  | nil => simp [setEntry]
  | cons entry rest ih =>
    obtain ⟨name', node'⟩ := entry
    simp only [setEntry]
    split
    · exact List.lookup_cons_self
    · next h => rw [List.lookup_cons, Bool.eq_false_iff.mpr h, ih]

/-- What is put at a place is there. -/
theorem at?_put (node : FileNode) (place : Place) (new : FileNode) :
    (node.put place new).at? place = some new := by
  induction place generalizing node with
  | nil => rfl
  | cons name place ih => simp [at?, put, entries, lookup_setEntry, ih]

end FileNode

/-- Everything there is, and the place that relative names start from. -/
structure FileTree where
  root : FileNode
  here : Place

namespace FileTree

/-- The devices that every tree has.  Of what the last two give it matters only that it is no chunk
file. -/
def devices : List (String × FileNode) :=
  let zeros := List.replicate 64 0
  [("null", .device [] false), ("zero", .device zeros false), ("full", .device zeros true),
    ("random", .device zeros false), ("urandom", .device zeros false)]

/-- A tree with nothing but the devices. -/
def ofDevices (here : Place) : FileTree := ⟨.directory [("dev", .directory devices)], here⟩

def node? (t : FileTree) (place : Place) : Option FileNode := t.root.at? place

def put (t : FileTree) (place : Place) (node : FileNode) : FileTree :=
  { t with root := t.root.put place node }

/-- A tree with the devices and one directory, from which relative names start. -/
def ofDirectory (name : String) : FileTree := (ofDevices [name]).put [name] (.directory [])

/-- Where a part leads from a directory. -/
def follow (place : Place) (part : String) : Place :=
  if part = ".." then place.dropLast else if part = "." then place else place ++ [part]

/-- Bytes of the longest name in a directory. -/
def maxNameBytes : Nat := 255

/-- Bytes of the longest path. -/
def maxPathBytes : Nat := 4095

/-- Follows parts from a place.  Every place with a further part must be a directory; the last one
need not exist. -/
def walk (t : FileTree) (place : Place) : List String → Except FileFault Place
  | [] => .ok place
  | part :: parts =>
    match t.node? place with
    | none => .error .notFound
    | some (.directory _) =>
      if maxNameBytes < part.utf8ByteSize then .error .nameTooLong
      else t.walk (follow place part) parts
    | some _ => .error .notDirectory

/-- Where names of the kind of `path` start. -/
def base (t : FileTree) (path : String) : Place := if PathName.isAbsolute path then [] else t.here

/-- Follows the steps to which a path has been taken apart. -/
def walkPath (t : FileTree) (path : String) (steps : List String) : Except FileFault Place :=
  if maxPathBytes < path.utf8ByteSize then .error .nameTooLong else t.walk (t.base path) steps

/-- The place of a path. -/
def locate (t : FileTree) (path : String) : Except FileFault Place :=
  t.walkPath path (PathName.steps path)

/-- Finds the directory that a path is in. -/
def locateParent (t : FileTree) (path : String) : Except FileFault Place :=
  t.walkPath path ((PathName.steps path).dropLast ++ ["."])

/-- The directories of a tree as a plugin loader sees them. -/
def libraries (t : FileTree) : Plugin.LibraryTree := fun path =>
  match (t.locate path).toOption.bind t.node? with
  | some (.directory entries) =>
    some (entries.map fun (name, node) =>
      match node with
      | .library library => ⟨name, some library⟩
      | _ => ⟨name, none⟩)
  | _ => none

/-- The bytes of a library file as far as other programs are concerned. -/
def libraryBytes : Bytes := 0x7f :: ("ELF".toList.map fun c => UInt8.ofNat c.toNat) ++ List.replicate 60 0

/-- The bytes of an existing file.  After the name of a file there is no slash. -/
def read (t : FileTree) (path : String) : Except FileFault Bytes :=
  match t.locate path with
  | .error fault => .error fault
  | .ok place =>
    match t.node? place with
    | none => .error .notFound
    | some (.directory _) => .error .isDirectory
    | some node =>
      if PathName.endsInSlash path then .error .notDirectory
      else
        match node with
        | .file content | .device content _ => .ok content
        | _ => .ok libraryBytes

/-- The tree with new bytes in a file, which is made if it does not exist.  A name with a slash after
it is that of a directory, whether there is one or not. -/
def write (t : FileTree) (path : String) (content : Bytes) : Except FileFault FileTree :=
  if PathName.endsInSlash path then
    match t.locateParent path with
    | .error fault => .error fault
    | .ok _ => .error .isDirectory
  else
    match t.locate path with
    | .error fault => .error fault
    | .ok place =>
      match t.node? place with
      | some (.directory _) => .error .isDirectory
      | some (.device _ full) => if full then .error .noSpace else .ok t
      | _ => .ok (t.put place (.file content))

/-- Makes sure that what was written to a file is kept, which no device does. -/
def sync (t : FileTree) (path : String) : Except FileFault Unit :=
  match t.locate path with
  | .error fault => .error fault
  | .ok place =>
    match t.node? place with
    | none => .error .notFound
    | some (.device ..) => .error .invalidArgument
    | some _ => .ok ()

/-- What became of a change of several steps: the tree holds those that were made before one failed,
if one did. -/
structure Change where
  result : Except FileFault Unit
  tree : FileTree

/-- Makes the directories that parts lead to from a directory, as far as they are missing; some may
have been `made` already.  What is no directory stops this: as something that exists if it is in the
last place or if any directory was made, or else as no directory. -/
def makeBelow (t : FileTree) (made : Bool) (place : Place) : List String → Change
  | [] => ⟨.ok (), t⟩
  | part :: parts =>
    if maxNameBytes < part.utf8ByteSize then ⟨.error .nameTooLong, t⟩
    else
      let next := follow place part
      match t.node? next with
      | none => (t.put next (.directory [])).makeBelow true next parts
      | some (.directory _) => t.makeBelow made next parts
      | some _ => ⟨.error (if made || parts.isEmpty then .alreadyExists else .notDirectory), t⟩

/-- Makes a directory with those above it where they are missing. -/
def makeDirectories (t : FileTree) (start : Place) (parts : List String) : Change :=
  t.makeBelow false start parts

/-- Makes the directory that a path is in. -/
def makeParent (t : FileTree) (path : String) : Change :=
  if maxPathBytes < PathName.parentBytes path then ⟨.error .nameTooLong, t⟩
  else t.makeDirectories (t.base path) (PathName.parts path).dropLast

end FileTree

end FilteredChunks
