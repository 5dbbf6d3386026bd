import QueryLowering.Query.Literal
import QueryLowering.Query.Operator
import QueryLowering.Query.Variable

/-! Query trees. Expressions and SELECT expressions contain each other, so they are one family. -/
namespace QueryLowering

mutual

inductive Expr where
  | literal (value : Literal)
  | var (value : Variable)
  /-- A flat chain: between two operands stands an operator. Nothing forces the counts to agree. -/
  | operator (operands : List Expr) (operators : List Operator)
  | field (base : Expr) (name : String)
  /-- Without a position, any element. -/
  | index (base : Expr) (position : Option Expr)
  | call (function : String) (args : List Expr)
  | caseOf (subject : Expr) (whens thens : List Expr) (otherwise : Option Expr)
  | cond (test yes no : Expr)
  | list (ordered : Bool) (items : List Expr)
  | record (fields : List (Expr × Expr))
  | quantified (quantifier : Quantifier) (bindings : List (Variable × Expr)) (satisfies : Expr)
  | unary (op : PrefixOperator) (operand : Expr)
  | select (query : Select)
  | subquery (body : Expr)

/-- A SELECT expression: LET bindings, a set operation, ORDER BY and LIMIT. -/
structure Select where
  lets : List (Variable × Expr)
  body : SetOperation
  orderBy : Option (List (Expr × Direction))
  limit : Option Limit
  isSubquery : Bool

structure Limit where
  count : Expr
  offset : Option Expr

/-- The right operands are combined with the left one in order, from left to right. -/
structure SetOperation where
  left : Operand
  rights : List RightOperand

inductive Operand where
  | block (value : Block)
  | subquery (query : Select)

structure RightOperand where
  op : SetOperator
  distinct : Bool
  input : Operand

/-- SELECT ... FROM ... WHERE ... GROUP BY ... HAVING ... -/
structure Block where
  clause : SelectClause
  fromTerms : Option (List FromTerm)
  whereTest : Option Expr
  groupBy : Option Grouping
  havingTest : Option Expr

structure SelectClause where
  distinct : Bool
  body : SelectBody

inductive SelectBody where
  | element (value : Expr)
  | regular (projections : List Projection)

/-- An expression with an optional name, or a star. Nothing forces one of the two. -/
structure Projection where
  expr : Option Expr
  name : Option String
  star : Bool

structure FromTerm where
  source : Expr
  binding : Variable
  position : Option Variable
  correlates : List Correlate

inductive Correlate where
  | join (kind : JoinKind) (source : Expr) (binding : Variable) (condition : Expr)
  | nest (kind : JoinKind) (source : Expr) (binding : Variable) (condition : Expr)
  | unnest (kind : JoinKind) (source : Expr) (binding : Variable)

structure Grouping where
  keys : List GroupKey
  groupVariable : Option Variable

structure GroupKey where
  expr : Expr
  binding : Option Variable

end

/-- A query as a statement, or inside one. -/
structure Query where
  body : Expr
  topLevel : Bool

inductive Statement where
  | query (query : Query)
  | insert (dataset : String) (query : Query)
  | delete (dataset : String) (binding : Option Variable) (condition : Option Expr)
  | update (target : Expr) (assignments : List (Expr × Expr)) (condition : Option Expr)
  | load (dataset adapter : String)
  | assign (name value : String)
  | declareDataverse (name : String)
  | declareDataset (name itemType : String)
  | declareType (name : String)
  | declareFunction (name : String) (params : List Variable) (body : Expr)

end QueryLowering
