import FilteredChunks.Json.Token

/-!
# Reading JSON values

Tokens are read by a stack of the arrays and objects that are still open.  Objects keep their fields
in order, with repeated keys.
-/

namespace FilteredChunks.Json

/-- A JSON value. -/
inductive Value
  | null
  | bool (value : Bool)
  /-- A number by its characters. -/
  | number (text : List Char)
  /-- A string; one that is no text has none. -/
  | string (text : Option String)
  | array (items : List Value)
  | object (fields : List (Option String × Value))

/-- An open array or object, its contents last first.  An object may wait for the value of a key. -/
inductive Frame
  | array (items : List Value)
  | object (fields : List (Option String × Value)) (key : Option String)

/-- What may come next. -/
inductive Expected
  | value
  | valueOrClose
  | key
  | keyOrClose
  | colon
  | commaOrClose
  /-- Nothing: the value is complete. -/
  | done (value : Value)

/-- The state after a value is complete. -/
def complete (value : Value) : List Frame → List Frame × Expected
  | [] => ([], .done value)
  | .array items :: frames => (.array (value :: items) :: frames, .commaOrClose)
  | .object fields key :: frames => (.object ((key, value) :: fields) none :: frames, .commaOrClose)

/-- The value a token is by itself. -/
def Token.value? : Token → Option Value
  | .null => some .null
  | .bool b => some (.bool b)
  | .number text => some (.number text)
  | .string text => some (.string text)
  | _ => none

/-- Reads a token where a value is expected. -/
def readValue (frames : List Frame) (token : Token) : Option (List Frame × Expected) :=
  match token with
  | .openArray => some (.array [] :: frames, .valueOrClose)
  | .openObject => some (.object [] none :: frames, .keyOrClose)
  | token => token.value?.map fun value => complete value frames

/-- Reads a token where a key is expected. -/
def readKey (frames : List Frame) (token : Token) : Option (List Frame × Expected) :=
  match frames, token with
  | .object fields _ :: frames, .string key => some (.object fields key :: frames, .colon)
  | _, _ => none

/-- Reads the end of an array or object. -/
def readClose (frames : List Frame) (token : Token) : Option (List Frame × Expected) :=
  match frames, token with
  | .array items :: frames, .closeArray => some (complete (.array items.reverse) frames)
  | .object fields _ :: frames, .closeObject => some (complete (.object fields.reverse) frames)
  | _, _ => none

/-- Reads one token. -/
def readToken (frames : List Frame) (expected : Expected) (token : Token) :
    Option (List Frame × Expected) :=
  match expected with
  | .value => readValue frames token
  | .valueOrClose => if token = .closeArray then readClose frames token else readValue frames token
  | .key => readKey frames token
  | .keyOrClose => if token = .closeObject then readClose frames token else readKey frames token
  | .colon => if token = .colon then some (frames, .value) else none
  | .commaOrClose =>
    if token = .comma then
      match frames with
      | .array _ :: _ => some (frames, .value)
      | _ => some (frames, .key)
    else readClose frames token
  | .done _ => none

/-- Reads the tokens that follow. -/
def readTokens (frames : List Frame) (expected : Expected) : List Token → Option Value
  | [] =>
    match expected with
    | .done value => some value
    | _ => none
  | token :: tokens =>
    match readToken frames expected token with
    | none => none
    | some (frames, expected) => readTokens frames expected tokens

/-- The value that a text is. -/
def parse? (text : String) : Option Value := (tokens? text).bind (readTokens [] .value)

/-! ### Taking values apart -/

namespace Value

/-- A number without sign, places and exponent, below a limit. -/
def nat? (limit : Nat) : Value → Option Nat
  | number text =>
    if text.all Char.isDigit then
      let n := text.foldl (fun n c => 10 * n + (c.toNat - '0'.toNat)) 0
      if n < limit then some n else none
    else none
  | _ => none

/-- A whole number from `low` to `high`; minus zero is none. -/
def int? (low high : Int) : Value → Option Int
  | number ('-' :: digits) =>
    match nat? UInt64.size (.number digits) with
    | some (n + 1) => if low ≤ -(n + 1 : Int) then some (-(n + 1 : Int)) else none
    | _ => none
  | value =>
    match value.nat? UInt64.size with
    | some n => if (n : Int) ≤ high then some n else none
    | none => none

def text? : Value → Option String
  | string text => text
  | _ => none

/-- An array each of whose items can be read. -/
def list? {α : Type} (read : Value → Option α) : Value → Option (List α)
  | array items => items.mapM read
  | _ => none

/-- The values of the named fields of an object, or of an array with just as many items, in the order
of the names.  A name must not occur twice; other fields are ignored. -/
def fields? (names : List String) : Value → Option (List (Option Value))
  | array items => if items.length = names.length then some (items.map some) else none
  | object fields =>
    if fields.all fun field => field.1.isSome then
      names.mapM fun name =>
        match fields.filter fun field => field.1 == some name with
        | [] => some none
        | [field] => some (some field.2)
        | _ => none
    else none
  | _ => none

/-- One of several alternatives by its name, with what it carries. -/
def variant? : Value → Option (String × Option Value)
  | string (some name) => some (name, none)
  | object [(some name, payload)] => some (name, some payload)
  | _ => none

/-- There is nothing to an alternative but its name. -/
def isBare : Option Value → Bool
  | none => true
  | some null => true
  | some _ => false

end Value

end FilteredChunks.Json
