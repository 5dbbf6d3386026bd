import QueryLowering.Json.Value

/-! The shapes that typed values take in JSON. A record is an object or the array of its fields in
order; a tagged value is an object with one member, or its bare tag where it has no content. -/
namespace QueryLowering.Json

def tagged (tag : String) (content : Json) : Json := .object [(tag, content)]

def pair (a b : Json) : Json := .array [a, b]

def ofList {α : Type} (f : α → Json) (items : List α) : Json := .array (items.map f)

def object? : Json → Option (List (String × Json))
  | object members => some members
  | _ => none

/-- The members of a record with these fields. -/
def record? (fields : List String) : Json → Option (List (String × Json))
  | object members => some members
  | array items => if items.length = fields.length then some (fields.zip items) else none
  | _ => none

/-- A tag and its content. -/
def tagged? : Json → Option (String × Json)
  | string tag => some (tag, null)
  | object [(tag, content)] => some (tag, content)
  | _ => none

def null? : Json → Option Unit
  | null => some ()
  | _ => none

/-- A tag without content. -/
def bareTag? (j : Json) : Option String := do
  let (tag, content) ← j.tagged?
  content.null?
  return tag

/-- The value of an enumeration with this name. -/
def choice? {α : Type} (all : List α) (name : α → String) (j : Json) : Option α :=
  j.bareTag?.bind fun tag => all.find? fun a => name a == tag

def bool? : Json → Option Bool
  | bool value => some value
  | _ => none

def string? : Json → Option String
  | string value => some value
  | _ => none

def int? : Json → Option Int
  | number (.whole value) => some value
  | _ => none

def int32? (j : Json) : Option Int32 := do
  let n ← j.int?
  if Int32.minValue.toInt ≤ n ∧ n ≤ Int32.maxValue.toInt then some (Int32.ofInt n) else none

def int64? (j : Json) : Option Int64 := do
  let n ← j.int?
  if Int64.minValue.toInt ≤ n ∧ n ≤ Int64.maxValue.toInt then some (Int64.ofInt n) else none

/-- A size is a natural number below `2 ^ 64`. -/
def size? (j : Json) : Option Nat := do
  let n ← j.int?
  if 0 ≤ n ∧ n < UInt64.size then some n.toNat else none

def float? : Json → Option Float
  | number n => some n.toFloat
  | _ => none

def float32? : Json → Option Float32
  | number n => some n.toFloat32
  | _ => none

def list? {α : Type} (f : Json → Option α) : Json → Option (List α)
  | array items => items.mapM f
  | _ => none

def pair? {α β : Type} (f : Json → Option α) (g : Json → Option β) : Json → Option (α × β)
  | array [a, b] => do return (← f a, ← g b)
  | _ => none

def triple? {α β γ : Type} (f : Json → Option α) (g : Json → Option β) (h : Json → Option γ) :
    Json → Option (α × β × γ)
  | array [a, b, c] => do return (← f a, ← g b, ← h c)
  | _ => none

/-- The first member with this key. -/
def get? (members : List (String × Json)) (key : String) : Option Json := members.lookup key

def required {α : Type} (members : List (String × Json)) (key : String) (f : Json → Option α) :
    Option α :=
  (get? members key).bind f

/-- A member that may be missing or `null`. -/
def optional {α : Type} (members : List (String × Json)) (key : String) (f : Json → Option α) :
    Option (Option α) :=
  match get? members key with
  | none | some null => some none
  | some j => (f j).map some

end QueryLowering.Json
