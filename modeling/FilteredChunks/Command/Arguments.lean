import FilteredChunks.FilterId

/-!
# Arguments of the command

A command is named by the first argument; its options follow, by their long names or by a letter, with
a value after an equals sign or in the next argument.  A value that starts with a dash needs the
equals sign.  Two dashes end the options.  Asking for help ends the arguments.
-/

namespace FilteredChunks.Command

/-- An option of a command. -/
structure OptionSpec where
  name : String
  letter : Option Char
  hasValue : Bool
  repeatable : Bool

/-- How the arguments end. -/
inductive Ending
  | complete
  | help
  | fault
  deriving DecidableEq

/-- The options given, with their values, in order; what is no option is given under no name. -/
structure Scanned where
  items : List (Option String × String)
  ending : Ending

namespace Scanned

/-- Puts an item in front. -/
def after (item : Option String × String) (s : Scanned) : Scanned := { s with items := item :: s.items }

def stop (ending : Ending) : Scanned := ⟨[], ending⟩

end Scanned

/-- The text is an option, not a value. -/
def looksLikeOption (text : String) : Bool :=
  match text.toList with
  | '-' :: _ :: _ => true
  | _ => false

/-- A name and, after an equals sign, a value. -/
def splitValue (cs : List Char) : String × Option String :=
  let name := String.ofList (cs.takeWhile (· ≠ '='))
  match cs.dropWhile (· ≠ '=') with
  | _ :: value => (name, some (String.ofList value))
  | [] => (name, none)

/-- An option as it is given: its name and the value given with it, unless it asks for help or there
is no such option. -/
inductive Named
  | option (spec : OptionSpec) (value : Option String)
  | help
  | unknown

/-- Finds a long option. -/
def namedLong (specs : List OptionSpec) (cs : List Char) : Named :=
  let (name, value) := splitValue cs
  if name = "help" then if value.isNone then .help else .unknown
  else
    match specs.find? fun spec => spec.name == name with
    | some spec => .option spec value
    | none => .unknown

/-- Finds an option by its letter; what follows the letter is its value, with or without an equals
sign. -/
def namedShort (specs : List OptionSpec) (letter : Char) (cs : List Char) : Named :=
  if letter = 'h' then .help
  else
    match specs.find? fun spec => spec.letter == some letter with
    | none => .unknown
    | some spec =>
      match cs with
      | [] => .option spec none
      | '=' :: value => .option spec (some (String.ofList value))
      | value => .option spec (some (String.ofList value))

/-- The option an argument is, if it is one. -/
def named? (specs : List OptionSpec) (argument : String) : Option Named :=
  match argument.toList with
  | '-' :: '-' :: cs => some (namedLong specs cs)
  | '-' :: letter :: cs => some (namedShort specs letter cs)
  | _ => none

/-- Goes through arguments. -/
def scan (specs : List OptionSpec) : List String → Scanned
  | [] => .stop .complete
  | argument :: rest =>
    if argument = "--" then ⟨rest.map fun text => (none, text), .complete⟩
    else
      match named? specs argument with
      | none => (scan specs rest).after (none, argument)
      | some .help => .stop .help
      | some .unknown => .stop .fault
      | some (.option spec value) =>
        match spec.hasValue, value with
        | true, some value => (scan specs rest).after (some spec.name, value)
        | true, none =>
          match rest with
          | value :: rest =>
            if looksLikeOption value then .stop .fault
            else (scan specs rest).after (some spec.name, value)
          | [] => .stop .fault
        | false, none => (scan specs rest).after (some spec.name, "")
        | false, some _ => .stop .fault

/-! ### Numbers -/

/-- The number that decimal digits stand for, of which there is at least one. -/
def digits? (cs : List Char) : Option Nat :=
  if cs.isEmpty || !cs.all Char.isDigit then none
  else some (cs.foldl (fun n c => 10 * n + (c.toNat - '0'.toNat)) 0)

/-- A number below 2^64, with or without a plus sign. -/
def natural? (text : String) : Option Nat :=
  let digits := match text.toList with
    | '+' :: digits => digits
    | digits => digits
  (digits? digits).filter (· < UInt64.size)

/-- A whole number from `low` to `high`, with or without a sign. -/
def integer? (low high : Int) (text : String) : Option Int :=
  let value : Option Int := match text.toList with
    | '-' :: digits => (digits? digits).map fun n => -(n : Int)
    | '+' :: digits => (digits? digits).map fun n => (n : Int)
    | digits => (digits? digits).map fun n => (n : Int)
  value.filter fun n => decide (low ≤ n ∧ n ≤ high)

/-- A 32-bit word. -/
def word? (text : String) : Option UInt32 :=
  (integer? 0 (UInt32.size - 1) text).map fun n => UInt32.ofNat n.toNat

/-! ### Requests -/

/-- A filter that can be asked for by name. -/
inductive FilterChoice
  | shuffle
  | deflate
  | fletcher32
  | lz4
  | zstd
  deriving DecidableEq

namespace FilterChoice

def ofName? : String → Option FilterChoice
  | "shuffle" => some shuffle
  | "deflate" => some deflate
  | "fletcher32" => some fletcher32
  | "lz4" => some lz4
  | "zstd" => some zstd
  | _ => none

def id : FilterChoice → FilterId
  | shuffle => .shuffle
  | deflate => .deflate
  | fletcher32 => .fletcher32
  | lz4 => .lz4
  | zstd => .zstd

/-- The filter comes from a plugin. -/
def isPlugin (c : FilterChoice) : Bool := c == lz4 || c == zstd

end FilterChoice

/-- What to write, and how. -/
structure WriteRequest where
  output : String
  rows : Nat
  cols : Nat
  chunkRows : Nat
  chunkCols : Nat
  filters : List FilterChoice
  threads : Option Nat
  deflateLevel : UInt32
  lz4Block : UInt32
  zstdLevel : UInt32
  verify : Bool

/-- What the command is to do. -/
inductive Request
  | write (request : WriteRequest)
  | filters (id : Option FilterId)
  | inspect (input : String)
  | version
  | help

/-- The names of filters between commas. -/
def filterChoices? (text : String) : Option (List FilterChoice) :=
  (text.splitOn ",").mapM FilterChoice.ofName?

/-- A path, which must not be empty. -/
def path? (text : String) : Option String := if text = "" then none else some text

def writeOptions : List OptionSpec :=
  [⟨"output", some 'o', true, false⟩, ⟨"rows", none, true, false⟩, ⟨"cols", none, true, false⟩,
    ⟨"chunk-rows", none, true, false⟩, ⟨"chunk-cols", none, true, false⟩,
    ⟨"filters", none, true, true⟩, ⟨"threads", none, true, false⟩,
    ⟨"deflate-level", none, true, false⟩, ⟨"lz4-block", none, true, false⟩,
    ⟨"zstd-level", none, true, false⟩, ⟨"verify", none, false, false⟩]

def filtersOptions : List OptionSpec := [⟨"id", none, true, false⟩]

/-- What is written if nothing else is asked for. -/
def defaultWrite : WriteRequest where
  output := "Outfile.h5fc"
  rows := 16384
  cols := 4096
  chunkRows := 4096
  chunkCols := 1024
  filters := []
  threads := none
  deflateLevel := 6
  lz4Block := 8192
  zstdLevel := 3
  verify := false

/-- Takes over one option of a write. -/
def applyWrite (r : WriteRequest) : Option String × String → Option WriteRequest
  | (some "output", v) => (path? v).map fun p => { r with output := p }
  | (some "rows", v) => (natural? v).map fun n => { r with rows := n }
  | (some "cols", v) => (natural? v).map fun n => { r with cols := n }
  | (some "chunk-rows", v) => (natural? v).map fun n => { r with chunkRows := n }
  | (some "chunk-cols", v) => (natural? v).map fun n => { r with chunkCols := n }
  | (some "filters", v) => (filterChoices? v).map fun f => { r with filters := r.filters ++ f }
  | (some "threads", v) => (natural? v).map fun n => { r with threads := some n }
  | (some "deflate-level", v) => (word? v).map fun w => { r with deflateLevel := w }
  | (some "lz4-block", v) => (word? v).map fun w => { r with lz4Block := w }
  | (some "zstd-level", v) => (word? v).map fun w => { r with zstdLevel := w }
  | (some "verify", _) => some { r with verify := true }
  | _ => none

/-- Takes over items in order. -/
def applyAll {α : Type} (apply : α → Option String × String → Option α) :
    α → List (Option String × String) → Option α
  | r, [] => some r
  | r, item :: items => (apply r item).bind fun r => applyAll apply r items

/-- No option that is not repeatable is given twice. -/
def givenOnce (specs : List OptionSpec) (items : List (Option String × String)) : Bool :=
  specs.all fun spec =>
    spec.repeatable || decide (items.countP (fun item => item.1 == some spec.name) ≤ 1)

/-- The request that the arguments of a command make, by taking over each item into `start` and then
`finish`ing it.  There is none if the arguments are at fault. -/
def readItems {α : Type} (specs : List OptionSpec) (arguments : List String) (start : α)
    (apply : α → Option String × String → Option α) (finish : α → Option Request) :
    Option Request :=
  let scanned := scan specs arguments
  if !givenOnce specs scanned.items then none
  else
    (applyAll apply start scanned.items).bind fun r =>
      match scanned.ending with
      | .complete => finish r
      | .help => some .help
      | .fault => none

def readWrite (arguments : List String) : Option Request :=
  readItems writeOptions arguments defaultWrite applyWrite fun r =>
    some (.write (if r.filters.isEmpty then { r with filters := [.lz4] } else r))

def readFilters (arguments : List String) : Option Request :=
  readItems filtersOptions arguments none
    (fun _ item => match item with
      | (some _, v) => (integer? Int32.minValue.toInt Int32.maxValue.toInt v).map some
      | (none, _) => none)
    fun id => some (.filters id)

def readInspect (arguments : List String) : Option Request :=
  readItems [] arguments none
    (fun given item => match given, item with
      | none, (none, v) => (path? v).map some
      | _, _ => none)
    fun input => input.map .inspect

/-- The names of the commands. -/
def commandNames : List String := ["write", "filters", "inspect", "help"]

/-- The argument is an option of one dash with this letter first; more may follow. -/
def startsWithLetter (letter : Char) (argument : String) : Bool :=
  ['-', letter].isPrefixOf argument.toList

/-- The request that all arguments make; there is none if they are at fault. -/
def readArguments : List String → Option Request
  | [] => none
  | "write" :: rest => readWrite rest
  | "filters" :: rest => readFilters rest
  | "inspect" :: rest => readInspect rest
  | ["help"] => some .help
  | ["help", command] => if commandNames.contains command then some .help else none
  | argument :: _ =>
    if argument = "--version" || startsWithLetter 'V' argument then some .version
    else if argument = "--help" || startsWithLetter 'h' argument then some .help
    else none

end FilteredChunks.Command
