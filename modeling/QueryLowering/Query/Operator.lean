import QueryLowering.Json.Shape

/-! The operators and keywords of queries. -/
namespace QueryLowering

/-- Operators between two operands, in their fixed order. -/
inductive Operator where
  | or
  | and
  | lt
  | gt
  | le
  | ge
  | eq
  | neq
  | plus
  | minus
  | mul
  | div
  | mod
  | caret
  | idiv
  | concat
  | fuzzyEq
  | like
  | notLike
  | isIn
  | notIn
  | between
  | notBetween
  deriving DecidableEq, Ord, Repr

namespace Operator

def all : List Operator :=
  [or, and, lt, gt, le, ge, eq, neq, plus, minus, mul, div, mod, caret, idiv, concat, fuzzyEq, like,
    notLike, isIn, notIn, between, notBetween]

theorem mem_all (op : Operator) : op ∈ all := by cases op <;> decide

/-- The spelling in a query. -/
def symbol : Operator → String
  | or => "or"
  | and => "and"
  | lt => "<"
  | gt => ">"
  | le => "<="
  | ge => ">="
  | eq => "="
  | neq => "!="
  | plus => "+"
  | minus => "-"
  | mul => "*"
  | div => "/"
  | mod => "%"
  | caret => "^"
  | idiv => "div"
  | concat => "||"
  | fuzzyEq => "~="
  | like => "like"
  | notLike => "not like"
  | isIn => "in"
  | notIn => "not in"
  | between => "between"
  | notBetween => "not between"

/-- The name in messages. -/
def name : Operator → String
  | or => "Or"
  | and => "And"
  | lt => "Lt"
  | gt => "Gt"
  | le => "Le"
  | ge => "Ge"
  | eq => "Eq"
  | neq => "Neq"
  | plus => "Plus"
  | minus => "Minus"
  | mul => "Mul"
  | div => "Div"
  | mod => "Mod"
  | caret => "Caret"
  | idiv => "Idiv"
  | concat => "Concat"
  | fuzzyEq => "FuzzyEq"
  | like => "Like"
  | notLike => "NotLike"
  | isIn => "In"
  | notIn => "NotIn"
  | between => "Between"
  | notBetween => "NotBetween"

/-- The name in JSON and in settings. -/
def key : Operator → String
  | or => "or"
  | and => "and"
  | lt => "lt"
  | gt => "gt"
  | le => "le"
  | ge => "ge"
  | eq => "eq"
  | neq => "neq"
  | plus => "plus"
  | minus => "minus"
  | mul => "mul"
  | div => "div"
  | mod => "mod"
  | caret => "caret"
  | idiv => "idiv"
  | concat => "concat"
  | fuzzyEq => "fuzzy_eq"
  | like => "like"
  | notLike => "not_like"
  | isIn => "in"
  | notIn => "not_in"
  | between => "between"
  | notBetween => "not_between"

def ofKey? (key : String) : Option Operator := all.find? fun op => op.key == key

theorem ofKey?_key (op : Operator) : ofKey? op.key = some op := by cases op <;> decide

def toJson (op : Operator) : Json := .string op.key

def ofJson? (j : Json) : Option Operator := j.choice? all key

end Operator

/-- Operators in front of one operand. -/
inductive PrefixOperator where
  | positive
  | negative
  | not
  | exists
  | notExists
  deriving DecidableEq, Repr

namespace PrefixOperator

def name : PrefixOperator → String
  | positive => "Positive"
  | negative => "Negative"
  | not => "Not"
  | .exists => "Exists"
  | notExists => "NotExists"

def all : List PrefixOperator := [positive, negative, not, .exists, notExists]

def toJson (op : PrefixOperator) : Json := .string op.name

def ofJson? (j : Json) : Option PrefixOperator := j.choice? all name

end PrefixOperator

inductive Quantifier where
  | some
  | every
  deriving DecidableEq, Repr

namespace Quantifier

def name : Quantifier → String
  | .some => "Some"
  | every => "Every"

def all : List Quantifier := [.some, every]

def toJson (q : Quantifier) : Json := .string q.name

def ofJson? (j : Json) : Option Quantifier := j.choice? all name

end Quantifier

inductive SetOperator where
  | union
  | intersect
  | except
  deriving DecidableEq, Repr

namespace SetOperator

def name : SetOperator → String
  | union => "Union"
  | intersect => "Intersect"
  | except => "Except"

def all : List SetOperator := [union, intersect, except]

def toJson (op : SetOperator) : Json := .string op.name

def ofJson? (j : Json) : Option SetOperator := j.choice? all name

end SetOperator

inductive JoinKind where
  | inner
  | leftOuter
  deriving DecidableEq, Repr

namespace JoinKind

def name : JoinKind → String
  | inner => "Inner"
  | leftOuter => "LeftOuter"

def all : List JoinKind := [inner, leftOuter]

def toJson (kind : JoinKind) : Json := .string kind.name

def ofJson? (j : Json) : Option JoinKind := j.choice? all name

end JoinKind

inductive Direction where
  | ascending
  | descending
  deriving DecidableEq, Repr

namespace Direction

def name : Direction → String
  | ascending => "Asc"
  | descending => "Desc"

def all : List Direction := [ascending, descending]

def toJson (d : Direction) : Json := .string d.name

def ofJson? (j : Json) : Option Direction := j.choice? all name

end Direction

end QueryLowering
