import QueryLowering.Sexpr.Reader

/-! The tags in a tree, and expectations on text that should read as a given tree, or as a tree of a
given shape. -/
namespace QueryLowering.Sexpr

def childTags (t : Sexpr) : List String := t.args.filterMap tag?

mutual
def containsTag (tag : String) : Sexpr → Bool
  | node t args => t == tag || anyContainsTag tag args
  | atom _ | string _ => false
def anyContainsTag (tag : String) : List Sexpr → Bool
  | [] => false
  | t :: ts => containsTag tag t || anyContainsTag tag ts
end

mutual
/-- The number of nodes, atoms and strings apart. -/
def nodeCount : Sexpr → Nat
  | node _ args => 1 + nodeCounts args
  | atom _ | string _ => 0
def nodeCounts : List Sexpr → Nat
  | [] => 0
  | t :: ts => nodeCount t + nodeCounts ts
end

mutual
def countTag (tag : String) : Sexpr → Nat
  | node t args => (if t = tag then 1 else 0) + countTags tag args
  | atom _ | string _ => 0
def countTags (tag : String) : List Sexpr → Nat
  | [] => 0
  | t :: ts => countTag tag t + countTags tag ts
end

inductive Unmet where
  | notWellFormed (error : ReadError) (text : String)
  | mismatch
  deriving DecidableEq, Repr

/-- A mismatch has no message of its own. -/
def Unmet.message? : Unmet → Option String
  | notWellFormed error text =>
    some ("Expected a well-formed S-expression, got " ++ error.message ++ ": " ++ text)
  | mismatch => none

def expectWellFormed (text : String) : Except Unmet Sexpr :=
  match read text with
  | .ok t => .ok t
  | .error e => .error (.notWellFormed e text)

def expectTree (text : String) (expected : Sexpr) : Except Unmet Unit :=
  (expectWellFormed text).bind fun t => if t = expected then .ok () else .error .mismatch

def expectTag (text tag : String) : Except Unmet Sexpr :=
  (expectWellFormed text).bind fun t =>
    if t.tag? = some tag then .ok t else .error .mismatch

def expectChildTags (t : Sexpr) (tags : List String) : Except Unmet Unit :=
  if t.childTags = tags then .ok () else .error .mismatch

end QueryLowering.Sexpr
