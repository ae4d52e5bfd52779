/-!
# Writing JSON text

Values are written without blanks.  Control characters are escaped in strings, everything else stands
for itself.
-/

namespace FilteredChunks.Json

/-- A character inside a string. -/
def escapeChar (c : Char) : List Char :=
  match c with
  | '"' => ['\\', '"']
  | '\\' => ['\\', '\\']
  | '\x08' => ['\\', 'b']
  | '\x0c' => ['\\', 'f']
  | '\n' => ['\\', 'n']
  | '\r' => ['\\', 'r']
  | '\t' => ['\\', 't']
  | c =>
    if c.toNat < 0x20 then
      ['\\', 'u', '0', '0', Nat.digitChar (c.toNat / 16), Nat.digitChar (c.toNat % 16)]
    else [c]

def stringText (s : String) : String :=
  "\"" ++ String.ofList (s.toList.flatMap escapeChar) ++ "\""

/-- An array of values already written. -/
def arrayText (items : List String) : String := "[" ++ ",".intercalate items ++ "]"

/-- An object of values already written. -/
def objectText (fields : List (String × String)) : String :=
  "\x7b" ++ ",".intercalate (fields.map fun (key, value) => stringText key ++ ":" ++ value) ++ "\x7d"

end FilteredChunks.Json
