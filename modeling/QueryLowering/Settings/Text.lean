import QueryLowering.Json.Printer
import QueryLowering.Json.Reader
import QueryLowering.Settings.Basic
import QueryLowering.Yaml.Reader

/-! Settings as JSON and as YAML. Both are mappings from field names; a missing field has its
default, an unknown one is ignored, and a repeated one is refused. An operator that is named twice
has its last name. -/
namespace QueryLowering

/-- Why a text holds no settings. -/
inductive SettingsError where
  | yaml (detail : String)
  | json (detail : String)
  deriving DecidableEq, Repr

namespace SettingsError

/-- The message without its detail. -/
def summary : SettingsError → String
  | yaml _ => "Invalid YAML configuration"
  | json _ => "Invalid JSON configuration"

def detail : SettingsError → String
  | yaml detail | json detail => detail

def message (e : SettingsError) : String := e.summary ++ ": " ++ e.detail

def name : SettingsError → String
  | yaml _ => "Yaml"
  | json _ => "Json"

def toJson (e : SettingsError) : Json := .tagged e.name (.object [("message", .string e.detail)])

end SettingsError

namespace Settings

def fieldNames : List String := ["operator_names", "max_set_operation_rights", "max_depth"]

/-- The value of a field that occurs at most once. -/
def field? {α β : Type} (fields : List (String × α)) (name : String) (default : β)
    (read : α → Option β) : Option β :=
  match fields.filter fun f => f.1 == name with
  | [] => some default
  | [(_, value)] => read value
  | _ => none

/-- Settings from named fields, given how the values of fields are read. -/
def ofFields? {α : Type} (names : α → Option OperatorNames) (size : α → Option Nat)
    (fields : List (String × α)) : Option Settings := do
  let default : Settings := {}
  return ⟨← field? fields "operator_names" default.operatorNames names,
    ← field? fields "max_set_operation_rights" default.maxRights size,
    ← field? fields "max_depth" default.maxDepth size⟩

end Settings

def OperatorNames.ofEntries? {α : Type} (text : α → Option String) (entries : List (String × α)) :
    Option OperatorNames :=
  entries.foldlM (fun names (key, value) => do
    return names.insert (← Operator.ofKey? key) (← text value)) .empty

def OperatorNames.toJson (names : OperatorNames) : Json :=
  .object (names.toList.map fun (op, name) => (op.key, .string name))

def OperatorNames.ofJson? (j : Json) : Option OperatorNames :=
  j.object?.bind (OperatorNames.ofEntries? Json.string?)

/-- The entries of a mapping whose keys are scalars. -/
def Yaml.fields? (y : Yaml) : Option (List (String × Yaml)) := do
  (← y.entries?).mapM fun (key, value) => do return (← key.string?, value)

def OperatorNames.ofYaml? (y : Yaml) : Option OperatorNames :=
  y.fields?.bind (OperatorNames.ofEntries? Yaml.string?)

namespace Settings

/-- The values by the names of their fields. -/
def fields (s : Settings) : List (String × Json) :=
  [("operator_names", s.operatorNames.toJson), ("max_set_operation_rights", .nat s.maxRights),
    ("max_depth", .nat s.maxDepth)]

def toJson (s : Settings) : Json := .object s.fields

def toJsonText (s : Settings) : String := s.toJson.render

/-- An array gives the fields in order, and may end early. -/
def ofJson? : Json → Option Settings
  | .object members => ofFields? OperatorNames.ofJson? Json.size? members
  | .array items =>
    if items.length ≤ fieldNames.length then
      ofFields? OperatorNames.ofJson? Json.size? (fieldNames.zip items)
    else none
  | _ => none

def ofJsonText (text : String) : Except SettingsError Settings :=
  match Json.Source.read? text with
  | none => .error (.json "not a JSON value")
  | some source =>
    match (source.valueOf? fieldNames).bind ofJson? with
    | none => .error (.json "not a value of settings")
    | some s => .ok s

def ofYamlText (text : String) : Except SettingsError Settings :=
  match Yaml.read? text with
  | none => .error (.yaml "not a YAML document")
  | some y =>
    match y.fields?.bind (ofFields? OperatorNames.ofYaml? Yaml.size?) with
    | none => .error (.yaml "not a value of settings")
    | some s => .ok s

end Settings

end QueryLowering
