import QueryLowering.Json.Shape
import QueryLowering.Sexpr.Writer

/-! The operators that patterns apply to data. -/
namespace QueryLowering

inductive UnaryOperator where
  | identity
  | neg
  | bag
  | count
  | flatten
  | distinct
  | sum
  | left
  | right
  | asString
  | record (name : String)
  | dot (name : String)
  | remove (name : String)
  | project (names : List String)
  deriving DecidableEq, Repr

namespace UnaryOperator

def tag : UnaryOperator → String
  | identity => "OpIdentity"
  | neg => "OpNeg"
  | bag => "OpBag"
  | count => "OpCount"
  | flatten => "OpFlatten"
  | distinct => "OpDistinct"
  | sum => "OpSum"
  | left => "OpLeft"
  | right => "OpRight"
  | asString => "OpToString"
  | record _ => "OpRec"
  | dot _ => "OpDot"
  | remove _ => "OpRecRemove"
  | project _ => "OpRecProject"

/-- The operators without a parameter. -/
def plain : List UnaryOperator :=
  [identity, neg, bag, count, flatten, distinct, sum, left, right, asString]

/-- The names that an operator carries. -/
def names : UnaryOperator → List String
  | record name | dot name | remove name => [name]
  | project names => names
  | _ => []

def toSexpr (op : UnaryOperator) : Sexpr := .node op.tag (op.names.map .string)

/-- The steps in which a writer takes the operator. -/
def steps (op : UnaryOperator) : List Sexpr.Writer.Step :=
  .openNode op.tag :: (op.names.map .string ++ [.closeNode])

def render (op : UnaryOperator) : String := Sexpr.Writer.textAfter op.steps

def toJson (op : UnaryOperator) : Json :=
  match op with
  | record name | dot name | remove name => .tagged op.tag (.string name)
  | project names => .tagged op.tag (Json.ofList .string names)
  | _ => .string op.tag

def ofJson? (j : Json) : Option UnaryOperator := do
  let (tag, content) ← j.tagged?
  match tag with
  | "OpRec" => content.string?.map record
  | "OpDot" => content.string?.map dot
  | "OpRecRemove" => content.string?.map remove
  | "OpRecProject" => (content.list? Json.string?).map project
  | _ => content.null?.bind fun _ => plain.find? fun op => op.tag == tag

end UnaryOperator

inductive BinaryOperator where
  | equal
  | lt
  | le
  | and
  | or
  | recordConcat
  | recordMerge
  | union
  | minus
  | min
  | max
  | contains
  | stringConcat
  deriving DecidableEq, Repr

namespace BinaryOperator

def tag : BinaryOperator → String
  | equal => "OpEqual"
  | lt => "OpLt"
  | le => "OpLe"
  | and => "OpAnd"
  | or => "OpOr"
  | recordConcat => "OpRecConcat"
  | recordMerge => "OpRecMerge"
  | union => "OpUnion"
  | minus => "OpMinus"
  | min => "OpMin"
  | max => "OpMax"
  | contains => "OpContains"
  | stringConcat => "OpStringConcat"

def all : List BinaryOperator :=
  [equal, lt, le, and, or, recordConcat, recordMerge, union, minus, min, max, contains, stringConcat]

def toSexpr (op : BinaryOperator) : Sexpr := .node op.tag []

def steps (op : BinaryOperator) : List Sexpr.Writer.Step := [.emptyNode op.tag]

def render (op : BinaryOperator) : String := Sexpr.Writer.textAfter op.steps

def toJson (op : BinaryOperator) : Json := .string op.tag

def ofJson? (j : Json) : Option BinaryOperator := j.choice? all tag

end BinaryOperator

end QueryLowering
