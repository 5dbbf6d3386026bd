import QueryLowering.Json.Shape

/-! Variables of queries. The name of a variable begins with a `$` that is not part of what its
author wrote. -/
namespace QueryLowering

structure Identifier where
  name : String
  /-- The name is that of a field of the current row. -/
  isNamedValue : Bool := false
  deriving DecidableEq, Repr

namespace Identifier

def toJson (i : Identifier) : Json :=
  .object [("value", .string i.name), ("named_value_access", .bool i.isNamedValue)]

def ofJson? (j : Json) : Option Identifier := do
  let members ← j.record? ["value", "named_value_access"]
  return ⟨← Json.required members "value" Json.string?,
    ← Json.required members "named_value_access" Json.bool?⟩

end Identifier

structure Variable where
  identifier : Identifier
  /-- The occurrence binds the variable. -/
  isNew : Bool := false
  deriving DecidableEq, Repr

namespace Variable

def ofName (name : String) : Variable := ⟨⟨name, false⟩, false⟩

def name (v : Variable) : String := v.identifier.name

def asNew (v : Variable) : Variable := { v with isNew := true }

/-- The name without its mark; a second mark belongs to the name. -/
def unmark (name : String) : String :=
  match name.toList with
  | '$' :: rest => String.ofList rest
  | _ => name

def plainName (v : Variable) : String := unmark v.name

def toJson (v : Variable) : Json :=
  .object [("var", v.identifier.toJson), ("is_new_var", .bool v.isNew)]

def ofJson? (j : Json) : Option Variable := do
  let members ← j.record? ["var", "is_new_var"]
  return ⟨← Json.required members "var" Identifier.ofJson?,
    ← Json.required members "is_new_var" Json.bool?⟩

end Variable

end QueryLowering
