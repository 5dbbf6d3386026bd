import QueryLowering.Json.Value
import QueryLowering.Text.Character

/-! JSON as it is written. The escapes of a string denote UTF-16 units, which need not be text, and a
number may be too large; so a well-formed document may have no value. -/
namespace QueryLowering.Json

inductive Source where
  | null
  | bool (value : Bool)
  | number (value : Number)
  | string (units : List Nat)
  | array (items : List Source)
  | object (members : List (List Nat × Source))

namespace Source

def text? (units : List Nat) : Option String := (Text.ofUnits16? units).map String.ofList

mutual
def value? : Source → Option Json
  | null => some .null
  | bool value => some (.bool value)
  | number value => if value.isFinite then some (.number value) else none
  | string units => (text? units).map .string
  | array items => (values? items).map .array
  | object members => (memberValues? members).map .object
def values? : List Source → Option (List Json)
  | [] => some []
  | s :: rest => do return (← value? s) :: (← values? rest)
def memberValues? : List (List Nat × Source) → Option (List (String × Json))
  | [] => some []
  | (key, s) :: rest => do return (← text? key, ← value? s) :: (← memberValues? rest)
end

/-- The value, without the members of an object that are not wanted. Of these only the keys have to
be text. -/
def valueOf? (wanted : List String) : Source → Option Json
  | object members => do
    let named ← members.mapM fun (key, s) => do return (← text? key, s)
    let kept ← (named.filter fun m => wanted.contains m.1).mapM fun (key, s) => do
      return (key, ← value? s)
    return .object kept
  | s => s.value?

end Source

end QueryLowering.Json
