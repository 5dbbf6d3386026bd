import QueryLowering.Pattern.Datum
import QueryLowering.Pattern.Operator

/-! Patterns over a current datum `it` and an environment `env`. -/
namespace QueryLowering

inductive Pattern where
  | const (value : Datum)
  | unary (op : UnaryOperator) (arg : Pattern)
  | binary (op : BinaryOperator) (left right : Pattern)
  | map (body : Pattern)
  | assert (body : Pattern)
  | orElse (first fallback : Pattern)
  | it
  | letIt (value body : Pattern)
  | constant (name : String)
  | env
  | letEnv (value body : Pattern)
  | left
  | right
  deriving DecidableEq

namespace Pattern

def tag : Pattern → String
  | const _ => "pconst"
  | unary _ _ => "punop"
  | binary _ _ _ => "pbinop"
  | map _ => "pmap"
  | assert _ => "passert"
  | orElse _ _ => "porElse"
  | it => "pit"
  | letIt _ _ => "pletIt"
  | constant _ => "pgetConstant"
  | env => "penv"
  | letEnv _ _ => "pletEnv"
  | left => "pleft"
  | right => "pright"

/-- The number of patterns in a pattern, itself included. -/
def size : Pattern → Nat
  | unary _ p | map p | assert p => 1 + p.size
  | binary _ p q | orElse p q | letIt p q | letEnv p q => 1 + (p.size + q.size)
  | const _ | it | constant _ | env | left | right => 1

def toSexpr : Pattern → Sexpr
  | const value => .node "pconst" [value.toSexpr]
  | unary op p => .node "punop" [op.toSexpr, p.toSexpr]
  | binary op p q => .node "pbinop" [op.toSexpr, p.toSexpr, q.toSexpr]
  | map p => .node "pmap" [p.toSexpr]
  | assert p => .node "passert" [p.toSexpr]
  | orElse p q => .node "porElse" [p.toSexpr, q.toSexpr]
  | it => .node "pit" []
  | letIt p q => .node "pletIt" [p.toSexpr, q.toSexpr]
  | constant name => .node "pgetConstant" [.string name]
  | env => .node "penv" []
  | letEnv p q => .node "pletEnv" [p.toSexpr, q.toSexpr]
  | left => .node "pleft" []
  | right => .node "pright" []

theorem tag?_toSexpr (p : Pattern) : p.toSexpr.tag? = some p.tag := by
  cases p <;> rfl

/-- The steps in which a writer takes a pattern: all that is inside, between the brackets of its
tag. -/
def steps (p : Pattern) : List Sexpr.Writer.Step :=
  let inner :=
    match p with
    | const value => value.steps
    | unary op p => op.steps ++ p.steps
    | binary op p q => op.steps ++ (p.steps ++ q.steps)
    | map p | assert p => p.steps
    | orElse p q | letIt p q | letEnv p q => p.steps ++ q.steps
    | constant name => [.string name]
    | it | env | left | right => []
  .openNode p.tag :: (inner ++ [.closeNode])

def render (p : Pattern) : String := Sexpr.Writer.textAfter p.steps

/-- Matches `p` against every datum of the world. -/
def iterateGlobally (p : Pattern) : Pattern := letIt (constant "WORLD") p

def singleton (p : Pattern) : Pattern := unary .bag p

def flatten (p : Pattern) : Pattern := unary .flatten p

/-- The value of a variable in the environment. -/
def lookup (name : String) : Pattern := unary (.dot name) env

/-- An environment that binds a variable to the current datum. -/
def bind (name : String) : Pattern := unary (.record name) it

def toJson : Pattern → Json
  | const value => .tagged "Const" value.toJson
  | unary op p => .tagged "Unary" (.array [op.toJson, p.toJson])
  | binary op p q => .tagged "Binary" (.array [op.toJson, p.toJson, q.toJson])
  | map p => .tagged "Map" p.toJson
  | assert p => .tagged "Assert" p.toJson
  | orElse p q => .tagged "OrElse" (.array [p.toJson, q.toJson])
  | it => .string "It"
  | letIt p q => .tagged "LetIt" (.array [p.toJson, q.toJson])
  | constant name => .tagged "GetConstant" (.string name)
  | env => .string "Env"
  | letEnv p q => .tagged "LetEnv" (.array [p.toJson, q.toJson])
  | left => .string "Left"
  | right => .string "Right"

/-- Reads a pattern whose JSON form has fewer than `fuel` levels. -/
def ofJsonWithin? : Nat → Json → Option Pattern
  | 0, _ => none
  | fuel + 1, j => do
    let (tag, content) ← j.tagged?
    match tag with
    | "Const" => (Datum.ofJson? content).map const
    | "Unary" =>
      (content.pair? UnaryOperator.ofJson? (ofJsonWithin? fuel)).map fun (op, p) => unary op p
    | "Binary" =>
      (content.triple? BinaryOperator.ofJson? (ofJsonWithin? fuel) (ofJsonWithin? fuel)).map
        fun (op, p, q) => binary op p q
    | "Map" => (ofJsonWithin? fuel content).map map
    | "Assert" => (ofJsonWithin? fuel content).map assert
    | "OrElse" =>
      (content.pair? (ofJsonWithin? fuel) (ofJsonWithin? fuel)).map fun (p, q) => orElse p q
    | "It" => content.null?.map fun _ => it
    | "LetIt" =>
      (content.pair? (ofJsonWithin? fuel) (ofJsonWithin? fuel)).map fun (p, q) => letIt p q
    | "GetConstant" => content.string?.map constant
    | "Env" => content.null?.map fun _ => env
    | "LetEnv" =>
      (content.pair? (ofJsonWithin? fuel) (ofJsonWithin? fuel)).map fun (p, q) => letEnv p q
    | "Left" => content.null?.map fun _ => left
    | "Right" => content.null?.map fun _ => right
    | _ => none

def ofJson? (j : Json) : Option Pattern := ofJsonWithin? (j.height + 1) j

end Pattern

end QueryLowering
