import FilteredChunks.DatasetCreation
import FilteredChunks.EngineConfig
import FilteredChunks.FilterMask
import FilteredChunks.Json.Reader
import FilteredChunks.Json.Writer

/-!
# The library's types as JSON

Records are objects with their fields in a fixed order, alternatives are named, by a string if they
carry nothing and else by an object with one field.  A record may also be given as an array of its
fields.
-/

namespace FilteredChunks.Json

def natText (n : Nat) : String := toString n

def wordsText (words : List UInt32) : String := arrayText (words.map fun w => natText w.toNat)

def dimsText (dims : List UInt64) : String := arrayText (dims.map fun d => natText d.toNat)

def word? (value : Value) : Option UInt32 := (value.nat? UInt32.size).map UInt32.ofNat

def dims? (value : Value) : Option (List UInt64) :=
  value.list? fun item => (item.nat? UInt64.size).map UInt64.ofNat

/-! ### Masks and flags -/

def maskText (mask : FilterMask) : String := natText mask.bits.toNat

def mask? (value : Value) : Option FilterMask :=
  (value.nat? UInt32.size).map fun n => ⟨BitVec.ofNat 32 n⟩

def flagsText (flags : FilterFlags) : String := natText flags.bits.toNat

def flags? (value : Value) : Option FilterFlags :=
  (value.nat? UInt32.size).map fun n => ⟨BitVec.ofNat 32 n⟩

/-! ### Shapes, layouts and element types -/

def dataspaceText : Dataspace → String
  | .null => stringText "Null"
  | .scalar => stringText "Scalar"
  | .simple dims => objectText [("Simple", dimsText dims)]

def dataspace? (value : Value) : Option Dataspace :=
  match value.variant? with
  | some ("Null", payload) => if Value.isBare payload then some .null else none
  | some ("Scalar", payload) => if Value.isBare payload then some .scalar else none
  | some ("Simple", some dims) => (dims? dims).map .simple
  | _ => none

def layoutText : Layout → String
  | .contiguous => stringText "Contiguous"
  | .compact => stringText "Compact"
  | .chunked dims => objectText [("Chunked", dimsText dims)]

def layout? (value : Value) : Option Layout :=
  match value.variant? with
  | some ("Contiguous", payload) => if Value.isBare payload then some .contiguous else none
  | some ("Compact", payload) => if Value.isBare payload then some .compact else none
  | some ("Chunked", some dims) => (dims? dims).map .chunked
  | _ => none

/-- The names of the kinds of element types. -/
def typeClassNames : List (String × TypeClass) :=
  [("Integer", .integer), ("Float", .float), ("FixedString", .fixedString),
    ("VariableString", .variableString), ("Sequence", .sequence), ("Opaque", .untyped),
    ("Compound", .compound)]

def typeClassName (c : TypeClass) : String :=
  ((typeClassNames.find? fun entry => entry.2 == c).map (·.1)).getD ""

def typeClass? (value : Value) : Option TypeClass :=
  match value.variant? with
  | some (name, payload) => if Value.isBare payload then typeClassNames.lookup name else none
  | none => none

def datatypeText (t : Datatype) : String :=
  objectText [("class", stringText (typeClassName t.typeClass)), ("size", natText t.size)]

def datatype? (value : Value) : Option Datatype :=
  match value.fields? ["class", "size"] with
  | some [some c, some size] =>
    match typeClass? c, size.nat? UInt64.size with
    | some c, some size => some ⟨c, size⟩
    | _, _ => none
  | _ => none

/-! ### Steps -/

def clientDataText : ClientData → String
  | .inline count slots =>
    objectText [("Inline", objectText [("len", natText count.toNat),
      ("values", wordsText slots.toList)])]
  | .separate words => objectText [("Heap", wordsText words)]

def inlineData? (value : Value) : Option ClientData :=
  match value.fields? ["len", "values"] with
  | some [some count, some slots] =>
    match count.nat? 256, slots.list? word? with
    | some count, some [a, b, c, d] => some (.inline (UInt8.ofNat count) #v[a, b, c, d])
    | _, _ => none
  | _ => none

def clientData? (value : Value) : Option ClientData :=
  match value.variant? with
  | some ("Inline", some payload) => inlineData? payload
  | some ("Heap", some words) => (words.list? word?).map .separate
  | _ => none

def stepText (step : FilterStep) : String :=
  objectText [("id", toString step.id), ("flags", flagsText step.flags),
    ("name", (step.name.map stringText).getD "null"),
    ("client_data", clientDataText step.data)]

/-- A name, which may be null or missing. -/
def name? : Option Value → Option (Option String)
  | none => some none
  | some .null => some none
  | some value => value.text?.map some

def step? (value : Value) : Option FilterStep :=
  match value.fields? ["id", "flags", "name", "client_data"] with
  | some [some id, some flags, name, some data] =>
    match id.int? Int32.minValue.toInt Int32.maxValue.toInt, flags? flags, name? name, clientData? data with
    | some id, some flags, some name, some data => some ⟨id, flags, name, data⟩
    | _, _, _, _ => none
  | _ => none

/-! ### Configuration -/

def configText (config : EngineConfig) : String :=
  objectText [("thread_count", natText config.threads), ("plugin_dir", stringText config.pluginDir)]

def config? (value : Value) : Option EngineConfig :=
  match value.fields? ["thread_count", "plugin_dir"] with
  | some [some threads, some dir] =>
    match threads.nat? UInt64.size, dir.text? with
    | some threads, some dir => some ⟨threads, dir⟩
    | _, _ => none
  | _ => none

/-! ### By name -/

/-- Reads a text as a record of the named type and writes the record in its compact form. -/
def normalize? (typeName text : String) : Option String :=
  (parse? text).bind fun value =>
    match typeName with
    | "FilterMask" => (mask? value).map maskText
    | "FilterFlags" => (flags? value).map flagsText
    | "Dataspace" => (dataspace? value).map dataspaceText
    | "Layout" => (layout? value).map layoutText
    | "Datatype" => (datatype? value).map datatypeText
    | "FilterStep" => (step? value).map stepText
    | "ClientData" => (clientData? value).map clientDataText
    | "EngineConfig" => (config? value).map configText
    | _ => none

end FilteredChunks.Json
