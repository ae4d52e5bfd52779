/-!
# Path names

A path name is a sequence of parts with slashes between them.  Empty parts and single dots mean
nothing, except that a name may start with a slash or with a dot.
-/

namespace FilteredChunks.PathName

/-- The pieces between separators; there is always one. -/
def splitBy (separator : Char) : List Char → List (List Char)
  | [] => [[]]
  | c :: cs =>
    if c = separator then [] :: splitBy separator cs
    else
      match splitBy separator cs with
      | [] => [[c]]
      | piece :: pieces => (c :: piece) :: pieces

/-- The parts that mean something, in order. -/
def parts (path : String) : List String :=
  ((splitBy '/' path.toList).filter fun part => part ≠ [] ∧ part ≠ ['.']).map String.ofList

def isAbsolute (path : String) : Bool := path.toList.head? == some '/'

/-- The name of the file: the last part, unless it leads upwards. -/
def fileName? (path : String) : Option String :=
  match (parts path).getLast? with
  | some ".." => none
  | last => last

/-- A name below a directory, unless it is absolute. -/
def join (dir name : String) : String :=
  if isAbsolute name then name
  else if dir = "" ∨ dir.toList.getLast? = some '/' then dir ++ name
  else dir ++ "/" ++ name

/-- The name ends in a slash, so that it can only be that of a directory. -/
def endsInSlash (path : String) : Bool := path.toList.getLast? == some '/'

/-- The last piece, no matter how many slashes follow, is a dot. -/
def endsInDot (path : String) : Bool :=
  ((splitBy '/' path.toList).filter (· ≠ [])).getLast? == some ['.']

/-- The parts that lead to a place one after the other.  A dot at the end is a part: what is before it
must be a directory. -/
def steps (path : String) : List String := parts path ++ if endsInDot path then ["."] else []

/-- For each part of a path whose pieces from byte `start` on are given, the number of bytes of the
path up to its end. -/
def partEnds : (start : Nat) → List (List Char) → List Nat
  | _, [] => []
  | start, piece :: pieces =>
    let stop := start + (String.ofList piece).utf8ByteSize
    let further := partEnds (stop + 1) pieces
    if piece = [] ∨ piece = ['.'] then further else stop :: further

/-- Number of bytes of the name of the directory that a path is in. -/
def parentBytes (path : String) : Nat :=
  ((partEnds 0 (splitBy '/' path.toList)).dropLast.getLast?).getD 0

end FilteredChunks.PathName
