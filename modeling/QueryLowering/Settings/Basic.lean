import QueryLowering.Query.Operator

/-! What an encoding may be told: the names of operators and two limits. -/
namespace QueryLowering

/-- The operators that have a name. -/
structure OperatorNames where
  name? : Operator → Option String

namespace OperatorNames

def empty : OperatorNames := ⟨fun _ => none⟩

/-- A second name for an operator replaces the first. -/
def insert (names : OperatorNames) (op : Operator) (name : String) : OperatorNames :=
  ⟨fun o => if o = op then some name else names.name? o⟩

def contains (names : OperatorNames) (op : Operator) : Bool := (names.name? op).isSome

/-- The named operators in their order. -/
def toList (names : OperatorNames) : List (Operator × String) :=
  Operator.all.filterMap fun op => (names.name? op).map fun name => (op, name)

def ofList (entries : List (Operator × String)) : OperatorNames :=
  entries.foldl (fun names (op, name) => names.insert op name) empty

def size (names : OperatorNames) : Nat := names.toList.length

theorem ext_all {a b : OperatorNames} (h : ∀ op ∈ Operator.all, a.name? op = b.name? op) :
    a = b := by
  have same : a.name? = b.name? := funext fun op => h op (Operator.mem_all op)
  cases a
  cases b
  simp_all

instance : DecidableEq OperatorNames := fun a b =>
  if h : ∀ op ∈ Operator.all, a.name? op = b.name? op then isTrue (ext_all h)
  else isFalse fun same => h fun _ _ => by rw [same]

/-- Comparison for order and for equality. -/
def standard : OperatorNames := (empty.insert .gt "greater_than").insert .eq "equal"

theorem name?_insert_self (names : OperatorNames) (op : Operator) (name : String) :
    (names.insert op name).name? op = some name := by
  simp [insert]

theorem name?_insert_other (names : OperatorNames) {op other : Operator} (name : String)
    (h : other ≠ op) : (names.insert op name).name? other = names.name? other := by
  simp [insert, h]

end OperatorNames

structure Settings where
  operatorNames : OperatorNames := .standard
  /-- The most right operands that a set operation may have. -/
  maxRights : Nat := 1
  /-- The most levels of nodes inside each other. -/
  maxDepth : Nat := 256
  deriving DecidableEq

end QueryLowering
