import FilteredChunks.Json.Reader
import FilteredChunks.Json.Writer

/-!
# JSON values as text

A value is written without blanks.  A number keeps its characters; one without places and exponent
that is no 64-bit integer, minus zero included, is marked as a floating-point number.
-/

namespace FilteredChunks.Json.Value

/-- The value of the first field with a name. -/
def field? (name : String) : Value → Option Value
  | object fields => (fields.find? fun field => field.1 == some name).map (·.2)
  | _ => none

/-- The characters of a number. -/
def numberText (digits : List Char) : String :=
  let text := String.ofList digits
  let isWhole := digits.all fun c => c.isDigit || c == '-'
  if isWhole && ((number digits).int? Int64.minValue.toInt (UInt64.size - 1)).isNone then text ++ ".0"
  else text

mutual

/-- The text of a value. -/
def render : Value → String
  | null => "null"
  | bool b => toString b
  | number digits => numberText digits
  | string text => stringText (text.getD "")
  | array items => arrayText (renderItems items)
  | object fields => objectText (renderFields fields)

def renderItems : List Value → List String
  | [] => []
  | item :: items => render item :: renderItems items

def renderFields : List (Option String × Value) → List (String × String)
  | [] => []
  | (key, value) :: fields => (key.getD "", render value) :: renderFields fields

end

end FilteredChunks.Json.Value
