/-!
# Tokens of JSON text

Text is cut into tokens character by character.  A string whose escapes name half a surrogate pair has
no text, though it is well formed.
-/

namespace FilteredChunks.Json

/-- A token. -/
inductive Token
  | openArray
  | closeArray
  | openObject
  | closeObject
  | comma
  | colon
  | null
  | bool (value : Bool)
  /-- A number by its characters. -/
  | number (text : List Char)
  | string (text : Option String)
  deriving DecidableEq

/-- A piece of a string: a character, or a code unit that is half a pair. -/
inductive Piece
  | char (c : Char)
  | half (unit : Nat)
  deriving DecidableEq

/-- What a scanner is in the middle of; pieces and characters read so far are held last first. -/
inductive Scan
  | between
  | word (read : List Char)
  | string (read : List Piece)
  /-- After a backslash. -/
  | escape (read : List Piece)
  /-- In a hexadecimal escape of which `left` digits are missing. -/
  | hex (read : List Piece) (left value : Nat)

/-- The text of a string, joining pairs of halves. -/
def joinPieces : List Piece → Option (List Char)
  | [] => some []
  | .char c :: rest => (joinPieces rest).map (c :: ·)
  | .half high :: .half low :: rest =>
    if high < 0xdc00 ∧ 0xdc00 ≤ low then
      (joinPieces rest).map (Char.ofNat (0x10000 + (high - 0xd800) * 1024 + (low - 0xdc00)) :: ·)
    else none
  | .half _ :: _ => none

/-- The piece that a code unit is. -/
def pieceOf (unit : Nat) : Piece :=
  if 0xd800 ≤ unit ∧ unit < 0xe000 then .half unit else .char (Char.ofNat unit)

def hexDigit? (c : Char) : Option Nat :=
  if c.isDigit then some (c.toNat - '0'.toNat)
  else if 'a' ≤ c ∧ c ≤ 'f' then some (c.toNat - 'a'.toNat + 10)
  else if 'A' ≤ c ∧ c ≤ 'F' then some (c.toNat - 'A'.toNat + 10)
  else none

/-- The character that a letter after a backslash stands for. -/
def escaped? : Char → Option Char
  | '"' => some '"'
  | '\\' => some '\\'
  | '/' => some '/'
  | 'b' => some '\x08'
  | 'f' => some '\x0c'
  | 'n' => some '\n'
  | 'r' => some '\r'
  | 't' => some '\t'
  | _ => none

/-- Digits from the front on, and the rest. -/
def spanDigits (cs : List Char) : List Char × List Char :=
  (cs.takeWhile Char.isDigit, cs.dropWhile Char.isDigit)

/-- Digits of which there is at least one; the rest. -/
def someDigits? (cs : List Char) : Option (List Char) :=
  match spanDigits cs with
  | ([], _) => none
  | (_, rest) => some rest

/-- The whole part of a number: zero, or digits that do not start with zero. -/
def wholePart? : List Char → Option (List Char)
  | '0' :: rest => some rest
  | cs => someDigits? cs

/-- What follows the whole part, without the decimal places. -/
def afterPlaces? : List Char → Option (List Char)
  | '.' :: rest => someDigits? rest
  | cs => some cs

/-- There is nothing left but an exponent, or nothing at all. -/
def isExponent : List Char → Bool
  | [] => true
  | e :: rest =>
    if e = 'e' ∨ e = 'E' then
      let digits := match rest with
        | '+' :: digits => digits
        | '-' :: digits => digits
        | digits => digits
      someDigits? digits == some []
    else false

/-- The characters make a number. -/
def isNumber (cs : List Char) : Bool :=
  let unsigned := match cs with
    | '-' :: rest => rest
    | cs => cs
  match (wholePart? unsigned).bind afterPlaces? with
  | some rest => isExponent rest
  | none => false

/-- The token a word is. -/
def wordToken? (word : List Char) : Option Token :=
  if word = "null".toList then some .null
  else if word = "true".toList then some (.bool true)
  else if word = "false".toList then some (.bool false)
  else if isNumber word then some (.number word)
  else none

/-- A character that is a token of its own. -/
def punctuation? : Char → Option Token
  | '[' => some .openArray
  | ']' => some .closeArray
  | '{' => some .openObject
  | '}' => some .closeObject
  | ',' => some .comma
  | ':' => some .colon
  | _ => none

def isBlank (c : Char) : Bool := c == ' ' || c == '\t' || c == '\n' || c == '\r'

/-- A character between tokens. -/
def scanBetween (c : Char) : List Token × Scan :=
  if isBlank c then ([], .between)
  else if c = '"' then ([], .string [])
  else
    match punctuation? c with
    | some token => ([token], .between)
    | none => ([], .word [c])

/-- One more character: the tokens it completes and what the scanner is in the middle of. -/
def scanChar (state : Scan) (c : Char) : Option (List Token × Scan) :=
  match state with
  | .between => some (scanBetween c)
  | .word read =>
    if isBlank c || c == '"' || (punctuation? c).isSome then
      (wordToken? read.reverse).map fun token =>
        let (tokens, state) := scanBetween c
        (token :: tokens, state)
    else some ([], .word (c :: read))
  | .string read =>
    if c = '"' then
      some ([.string ((joinPieces read.reverse).map String.ofList)], .between)
    else if c = '\\' then some ([], .escape read)
    else if c.toNat < 0x20 then none
    else some ([], .string (.char c :: read))
  | .escape read =>
    if c = 'u' then some ([], .hex read 4 0)
    else (escaped? c).map fun e => ([], .string (.char e :: read))
  | .hex read left value =>
    (hexDigit? c).map fun digit =>
      let value := value * 16 + digit
      if left ≤ 1 then ([], .string (pieceOf value :: read)) else ([], .hex read (left - 1) value)

/-- The tokens of the characters that follow. -/
def scanFrom : Scan → List Char → Option (List Token)
  | .between, [] => some []
  | .word read, [] => (wordToken? read.reverse).map fun token => [token]
  | _, [] => none
  | state, c :: cs =>
    match scanChar state c with
    | none => none
    | some (tokens, state) => (scanFrom state cs).map (tokens ++ ·)

/-- The tokens of a text. -/
def tokens? (text : String) : Option (List Token) := scanFrom .between text.toList

end FilteredChunks.Json
