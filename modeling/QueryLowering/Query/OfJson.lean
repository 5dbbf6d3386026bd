import QueryLowering.Query.ToJson

/-! Reading query trees from their JSON form. A record may also be the array of its fields, except
where it is the content of a tag; a member whose value may be absent may be left out.

Every reader takes the readers of the expressions and SELECT expressions inside; these are closed
over the number of levels of the JSON value. -/
namespace QueryLowering

open Json (required optional)

/-- A record with the one field `expr`. -/
def Expr.wrappedOfJsonWith? (expr : Json → Option Expr) (j : Json) : Option Expr := do
  required (← j.record? ["expr"]) "expr" expr

def Projection.ofJsonWith? (expr : Json → Option Expr) (j : Json) : Option Projection := do
  let members ← j.record? ["expr", "name", "star"]
  return ⟨← optional members "expr" expr, ← optional members "name" Json.string?,
    ← required members "star" Json.bool?⟩

def Projection.listOfJsonWith? (expr : Json → Option Expr) (j : Json) :
    Option (List Projection) := do
  required (← j.record? ["projections"]) "projections" (Json.list? (Projection.ofJsonWith? expr))

def SelectBody.ofJsonWith? (expr : Json → Option Expr) (j : Json) : Option SelectBody := do
  let (tag, content) ← j.tagged?
  match tag with
  | "Element" => (Expr.wrappedOfJsonWith? expr content).map element
  | "Regular" => (Projection.listOfJsonWith? expr content).map regular
  | _ => none

def SelectClause.ofJsonWith? (expr : Json → Option Expr) (j : Json) : Option SelectClause := do
  let members ← j.record? ["distinct", "body"]
  return ⟨← required members "distinct" Json.bool?,
    ← required members "body" (SelectBody.ofJsonWith? expr)⟩

def Correlate.ofJsonWith? (expr : Json → Option Expr) (j : Json) : Option Correlate := do
  let (tag, content) ← j.tagged?
  match tag with
  | "Join" => do
    let members ← content.record? ["join_type", "right_expr", "right_var", "condition"]
    return join (← required members "join_type" JoinKind.ofJson?)
      (← required members "right_expr" expr) (← required members "right_var" Variable.ofJson?)
      (← required members "condition" expr)
  | "Nest" => do
    let members ← content.record? ["join_type", "right_expr", "right_var", "condition"]
    return nest (← required members "join_type" JoinKind.ofJson?)
      (← required members "right_expr" expr) (← required members "right_var" Variable.ofJson?)
      (← required members "condition" expr)
  | "Unnest" => do
    let members ← content.record? ["join_type", "right_expr", "right_var"]
    return unnest (← required members "join_type" JoinKind.ofJson?)
      (← required members "right_expr" expr) (← required members "right_var" Variable.ofJson?)
  | _ => none

def FromTerm.ofJsonWith? (expr : Json → Option Expr) (j : Json) : Option FromTerm := do
  let members ← j.record? ["left_expr", "left_var", "positional_var", "correlate_clauses"]
  return ⟨← required members "left_expr" expr, ← required members "left_var" Variable.ofJson?,
    ← optional members "positional_var" Variable.ofJson?,
    ← required members "correlate_clauses" (Json.list? (Correlate.ofJsonWith? expr))⟩

def FromTerm.listOfJsonWith? (expr : Json → Option Expr) (j : Json) : Option (List FromTerm) := do
  required (← j.record? ["terms"]) "terms" (Json.list? (FromTerm.ofJsonWith? expr))

def GroupKey.ofJsonWith? (expr : Json → Option Expr) (j : Json) : Option GroupKey := do
  let members ← j.record? ["expr", "var"]
  return ⟨← required members "expr" expr, ← optional members "var" Variable.ofJson?⟩

def Grouping.ofJsonWith? (expr : Json → Option Expr) (j : Json) : Option Grouping := do
  let members ← j.record? ["keys", "group_var"]
  return ⟨← required members "keys" (Json.list? (GroupKey.ofJsonWith? expr)),
    ← optional members "group_var" Variable.ofJson?⟩

def Limit.ofJsonWith? (expr : Json → Option Expr) (j : Json) : Option Limit := do
  let members ← j.record? ["limit", "offset"]
  return ⟨← required members "limit" expr, ← optional members "offset" expr⟩

def Block.ofJsonWith? (expr : Json → Option Expr) (j : Json) : Option Block := do
  let members ← j.record? ["select_clause", "from", "where_clause", "group_by", "having"]
  return ⟨← required members "select_clause" (SelectClause.ofJsonWith? expr),
    ← optional members "from" (FromTerm.listOfJsonWith? expr),
    ← optional members "where_clause" (Expr.wrappedOfJsonWith? expr),
    ← optional members "group_by" (Grouping.ofJsonWith? expr),
    ← optional members "having" (Expr.wrappedOfJsonWith? expr)⟩

def Operand.ofJsonWith? (expr : Json → Option Expr) (select : Json → Option Select) (j : Json) :
    Option Operand := do
  let (tag, content) ← j.tagged?
  match tag with
  | "Select" => (Block.ofJsonWith? expr content).map block
  | "Subquery" => (select content).map subquery
  | _ => none

def RightOperand.ofJsonWith? (expr : Json → Option Expr) (select : Json → Option Select)
    (j : Json) : Option RightOperand := do
  let members ← j.record? ["op_type", "set_semantics", "input"]
  return ⟨← required members "op_type" SetOperator.ofJson?,
    ← required members "set_semantics" Json.bool?,
    ← required members "input" (Operand.ofJsonWith? expr select)⟩

def SetOperation.ofJsonWith? (expr : Json → Option Expr) (select : Json → Option Select)
    (j : Json) : Option SetOperation := do
  let members ← j.record? ["left", "rights"]
  return ⟨← required members "left" (Operand.ofJsonWith? expr select),
    ← required members "rights" (Json.list? (RightOperand.ofJsonWith? expr select))⟩

def Select.letOfJsonWith? (expr : Json → Option Expr) (j : Json) : Option (Variable × Expr) := do
  let members ← j.record? ["var", "expr"]
  return (← required members "var" Variable.ofJson?, ← required members "expr" expr)

def Select.orderOfJsonWith? (expr : Json → Option Expr) (j : Json) :
    Option (List (Expr × Direction)) := do
  required (← j.record? ["items"]) "items" (Json.list? (Json.pair? expr Direction.ofJson?))

def Select.ofJsonWith? (expr : Json → Option Expr) (select : Json → Option Select) (j : Json) :
    Option Select := do
  let members ← j.record? ["let_list", "select_set_operation", "order_by", "limit", "subquery"]
  return ⟨← required members "let_list" (Json.list? (Select.letOfJsonWith? expr)),
    ← required members "select_set_operation" (SetOperation.ofJsonWith? expr select),
    ← optional members "order_by" (Select.orderOfJsonWith? expr),
    ← optional members "limit" (Limit.ofJsonWith? expr),
    ← required members "subquery" Json.bool?⟩

/-- The operands and operators of a chain. -/
def Expr.operatorOfJsonWith? (expr : Json → Option Expr) (j : Json) :
    Option (List Expr × List Operator) := do
  let members ← j.record? ["exprs", "ops"]
  return (← required members "exprs" (Json.list? expr),
    ← required members "ops" (Json.list? Operator.ofJson?))

def Expr.ofJsonWith? (expr : Json → Option Expr) (select : Json → Option Select) (j : Json) :
    Option Expr := do
  let (tag, content) ← j.tagged?
  match tag with
  | "Literal" => (Literal.ofJson? content).map literal
  | "Variable" => (Variable.ofJson? content).map var
  | "Operator" => (Expr.operatorOfJsonWith? expr content).map fun (es, ops) => operator es ops
  | "FieldAccessor" => do
    let members ← content.object?
    return field (← required members "expr" expr) (← required members "field" Json.string?)
  | "IndexAccessor" => do
    let members ← content.object?
    return index (← required members "expr" expr) (← optional members "index" expr)
  | "Call" => do
    let members ← content.object?
    return call (← required members "function" Json.string?)
      (← required members "args" (Json.list? expr))
  | "Case" => do
    let members ← content.object?
    return caseOf (← required members "condition" expr)
      (← required members "when_exprs" (Json.list? expr))
      (← required members "then_exprs" (Json.list? expr)) (← optional members "else_expr" expr)
  | "If" => do
    let members ← content.object?
    return cond (← required members "condition" expr) (← required members "then_expr" expr)
      (← required members "else_expr" expr)
  | "ListConstructor" => do
    let members ← content.object?
    return list (← required members "ordered" Json.bool?)
      (← required members "items" (Json.list? expr))
  | "RecordConstructor" => (content.list? (Json.pair? expr expr)).map record
  | "Quantified" => do
    let members ← content.object?
    return quantified (← required members "quantifier" Quantifier.ofJson?)
      (← required members "bindings" (Json.list? (Json.pair? Variable.ofJson? expr)))
      (← required members "satisfies" expr)
  | "Unary" => do
    let members ← content.object?
    return unary (← required members "op" PrefixOperator.ofJson?) (← required members "expr" expr)
  | "Select" => (select content).map Expr.select
  | "IndependentSubquery" => (expr content).map subquery
  | _ => none

def Query.ofJsonWith? (expr : Json → Option Expr) (j : Json) : Option Query := do
  let members ← j.record? ["body", "top_level"]
  return ⟨← required members "body" expr, ← required members "top_level" Json.bool?⟩

def Statement.ofJsonWith? (expr : Json → Option Expr) (j : Json) : Option Statement := do
  let (tag, content) ← j.tagged?
  match tag with
  | "Query" => (Query.ofJsonWith? expr content).map query
  | "Insert" => do
    let members ← content.object?
    return insert (← required members "dataset" Json.string?)
      (← required members "query" (Query.ofJsonWith? expr))
  | "Delete" => do
    let members ← content.object?
    return delete (← required members "dataset" Json.string?)
      (← optional members "var" Variable.ofJson?) (← optional members "condition" expr)
  | "Update" => do
    let members ← content.object?
    return update (← required members "target" expr)
      (← required members "assignments" (Json.list? (Json.pair? expr expr)))
      (← optional members "condition" expr)
  | "Load" => do
    let members ← content.object?
    return load (← required members "dataset" Json.string?)
      (← required members "adapter" Json.string?)
  | "Set" => do
    let members ← content.object?
    return assign (← required members "name" Json.string?) (← required members "value" Json.string?)
  | "DataverseDecl" => do
    let members ← content.object?
    return declareDataverse (← required members "name" Json.string?)
  | "DatasetDecl" => do
    let members ← content.object?
    return declareDataset (← required members "name" Json.string?)
      (← required members "item_type" Json.string?)
  | "TypeDecl" => do
    let members ← content.object?
    return declareType (← required members "name" Json.string?)
  | "FunctionDecl" => do
    let members ← content.object?
    return declareFunction (← required members "name" Json.string?)
      (← required members "params" (Json.list? Variable.ofJson?))
      (← required members "body" expr)
  | _ => none

/-- The types of nodes, by their names. -/
inductive NodeType where
  | statement
  | query
  | expr
  | literal
  | var
  | operator
  | select
  | setOperation
  | block
  | selectClause
  | selectElement
  | selectRegular
  | projection
  | fromClause
  | fromTerm
  | correlate
  | whereClause
  | groupBy
  | havingClause
  | orderBy
  | limit
  | letClause
  deriving DecidableEq, Repr

namespace NodeType

def all : List NodeType :=
  [statement, query, expr, literal, var, operator, select, setOperation, block, selectClause,
    selectElement, selectRegular, projection, fromClause, fromTerm, correlate, whereClause, groupBy,
    havingClause, orderBy, limit, letClause]

def name : NodeType → String
  | statement => "Statement"
  | query => "Query"
  | expr => "Expr"
  | literal => "Literal"
  | var => "VariableExpr"
  | operator => "OperatorExpr"
  | select => "SelectExpression"
  | setOperation => "SelectSetOperation"
  | block => "SelectBlock"
  | selectClause => "SelectClause"
  | selectElement => "SelectElement"
  | selectRegular => "SelectRegular"
  | projection => "Projection"
  | fromClause => "FromClause"
  | fromTerm => "FromTerm"
  | correlate => "CorrelateClause"
  | whereClause => "WhereClause"
  | groupBy => "GroupbyClause"
  | havingClause => "HavingClause"
  | orderBy => "OrderbyClause"
  | limit => "LimitClause"
  | letClause => "LetClause"

def ofName? (name : String) : Option NodeType := all.find? fun t => t.name == name

end NodeType

def Node.ofJsonWith? (expr : Json → Option Expr) (select : Json → Option Select) (type : NodeType)
    (j : Json) : Option Node :=
  match type with
  | .statement => (Statement.ofJsonWith? expr j).map statement
  | .query => (Query.ofJsonWith? expr j).map query
  | .expr => (expr j).map Node.expr
  | .literal => (Literal.ofJson? j).map literal
  | .var => (Variable.ofJson? j).map var
  | .operator => (Expr.operatorOfJsonWith? expr j).map fun (es, ops) => operator es ops
  | .select => (select j).map Node.select
  | .setOperation => (SetOperation.ofJsonWith? expr select j).map setOperation
  | .block => (Block.ofJsonWith? expr j).map block
  | .selectClause => (SelectClause.ofJsonWith? expr j).map selectClause
  | .selectElement => (Expr.wrappedOfJsonWith? expr j).map selectElement
  | .selectRegular => (Projection.listOfJsonWith? expr j).map selectRegular
  | .projection => (Projection.ofJsonWith? expr j).map projection
  | .fromClause => (FromTerm.listOfJsonWith? expr j).map fromClause
  | .fromTerm => (FromTerm.ofJsonWith? expr j).map fromTerm
  | .correlate => (Correlate.ofJsonWith? expr j).map correlate
  | .whereClause => (Expr.wrappedOfJsonWith? expr j).map whereClause
  | .groupBy => (Grouping.ofJsonWith? expr j).map groupBy
  | .havingClause => (Expr.wrappedOfJsonWith? expr j).map havingClause
  | .orderBy => (Select.orderOfJsonWith? expr j).map orderBy
  | .limit => (Limit.ofJsonWith? expr j).map limit
  | .letClause => (Select.letOfJsonWith? expr j).map fun (v, e) => letClause v e

mutual
/-- Reads an expression whose JSON form has fewer than `fuel` levels. -/
def Expr.ofJsonWithin? : Nat → Json → Option Expr
  | 0, _ => none
  | fuel + 1, j => Expr.ofJsonWith? (Expr.ofJsonWithin? fuel) (Select.ofJsonWithin? fuel) j
def Select.ofJsonWithin? : Nat → Json → Option Select
  | 0, _ => none
  | fuel + 1, j => Select.ofJsonWith? (Expr.ofJsonWithin? fuel) (Select.ofJsonWithin? fuel) j
end

def Expr.ofJson? (j : Json) : Option Expr := Expr.ofJsonWithin? (j.height + 1) j

def Select.ofJson? (j : Json) : Option Select := Select.ofJsonWithin? (j.height + 1) j

def Statement.ofJson? (j : Json) : Option Statement := Statement.ofJsonWith? Expr.ofJson? j

def Node.ofJson? (type : NodeType) (j : Json) : Option Node :=
  Node.ofJsonWith? Expr.ofJson? Select.ofJson? type j

end QueryLowering
