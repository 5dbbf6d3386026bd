import QueryLowering.Query.Expr

/-! A uniform view of the nodes of query trees, and the names of their kinds. -/
namespace QueryLowering

inductive NodeKind where
  | query
  | insertStatement
  | deleteStatement
  | updateStatement
  | loadStatement
  | setStatement
  | dataverseDecl
  | datasetDecl
  | typeDecl
  | functionDecl
  | literalExpr
  | variableExpr
  | operatorExpr
  | fieldAccessor
  | indexAccessor
  | callExpr
  | caseExpression
  | ifExpr
  | listConstructor
  | recordConstructor
  | quantifiedExpression
  | unaryExpr
  | independentSubquery
  | selectExpression
  | selectSetOperation
  | selectBlock
  | selectClause
  | selectElement
  | selectRegular
  | projection
  | fromClause
  | fromTerm
  | joinClause
  | nestClause
  | unnestClause
  | whereClause
  | groupbyClause
  | havingClause
  | orderbyClause
  | limitClause
  | letClause
  deriving DecidableEq, Repr

namespace NodeKind

def all : List NodeKind :=
  [query, insertStatement, deleteStatement, updateStatement, loadStatement, setStatement,
    dataverseDecl, datasetDecl, typeDecl, functionDecl, literalExpr, variableExpr, operatorExpr,
    fieldAccessor, indexAccessor, callExpr, caseExpression, ifExpr, listConstructor,
    recordConstructor, quantifiedExpression, unaryExpr, independentSubquery, selectExpression,
    selectSetOperation, selectBlock, selectClause, selectElement, selectRegular, projection,
    fromClause, fromTerm, joinClause, nestClause, unnestClause, whereClause, groupbyClause,
    havingClause, orderbyClause, limitClause, letClause]

def name : NodeKind → String
  | query => "Query"
  | insertStatement => "InsertStatement"
  | deleteStatement => "DeleteStatement"
  | updateStatement => "UpdateStatement"
  | loadStatement => "LoadStatement"
  | setStatement => "SetStatement"
  | dataverseDecl => "DataverseDecl"
  | datasetDecl => "DatasetDecl"
  | typeDecl => "TypeDecl"
  | functionDecl => "FunctionDecl"
  | literalExpr => "LiteralExpr"
  | variableExpr => "VariableExpr"
  | operatorExpr => "OperatorExpr"
  | fieldAccessor => "FieldAccessor"
  | indexAccessor => "IndexAccessor"
  | callExpr => "CallExpr"
  | caseExpression => "CaseExpression"
  | ifExpr => "IfExpr"
  | listConstructor => "ListConstructor"
  | recordConstructor => "RecordConstructor"
  | quantifiedExpression => "QuantifiedExpression"
  | unaryExpr => "UnaryExpr"
  | independentSubquery => "IndependentSubquery"
  | selectExpression => "SelectExpression"
  | selectSetOperation => "SelectSetOperation"
  | selectBlock => "SelectBlock"
  | selectClause => "SelectClause"
  | selectElement => "SelectElement"
  | selectRegular => "SelectRegular"
  | projection => "Projection"
  | fromClause => "FromClause"
  | fromTerm => "FromTerm"
  | joinClause => "JoinClause"
  | nestClause => "NestClause"
  | unnestClause => "UnnestClause"
  | whereClause => "WhereClause"
  | groupbyClause => "GroupbyClause"
  | havingClause => "HavingClause"
  | orderbyClause => "OrderbyClause"
  | limitClause => "LimitClause"
  | letClause => "LetClause"

def toJson (kind : NodeKind) : Json := .string kind.name

def ofJson? (j : Json) : Option NodeKind := j.choice? all name

end NodeKind

def Expr.kind : Expr → NodeKind
  | literal _ => .literalExpr
  | var _ => .variableExpr
  | operator _ _ => .operatorExpr
  | field _ _ => .fieldAccessor
  | index _ _ => .indexAccessor
  | call _ _ => .callExpr
  | caseOf _ _ _ _ => .caseExpression
  | cond _ _ _ => .ifExpr
  | list _ _ => .listConstructor
  | record _ => .recordConstructor
  | quantified _ _ _ => .quantifiedExpression
  | unary _ _ => .unaryExpr
  | select _ => .selectExpression
  | subquery _ => .independentSubquery

def Correlate.kind : Correlate → NodeKind
  | join _ _ _ _ => .joinClause
  | nest _ _ _ _ => .nestClause
  | unnest _ _ _ => .unnestClause

def Statement.kind : Statement → NodeKind
  | query _ => .query
  | insert _ _ => .insertStatement
  | delete _ _ _ => .deleteStatement
  | update _ _ _ => .updateStatement
  | load _ _ => .loadStatement
  | assign _ _ => .setStatement
  | declareDataverse _ => .dataverseDecl
  | declareDataset _ _ => .datasetDecl
  | declareType _ => .typeDecl
  | declareFunction _ _ _ => .functionDecl

/-- Any node of a query tree that can be looked at by itself. -/
inductive Node where
  | statement (value : Statement)
  | query (value : Query)
  | expr (value : Expr)
  | literal (value : Literal)
  | var (value : Variable)
  | operator (operands : List Expr) (operators : List Operator)
  | select (value : Select)
  | setOperation (value : SetOperation)
  | block (value : Block)
  | selectClause (value : SelectClause)
  | selectElement (value : Expr)
  | selectRegular (projections : List Projection)
  | projection (value : Projection)
  | fromClause (terms : List FromTerm)
  | fromTerm (value : FromTerm)
  | correlate (value : Correlate)
  | whereClause (test : Expr)
  | groupBy (value : Grouping)
  | havingClause (test : Expr)
  | orderBy (items : List (Expr × Direction))
  | limit (value : Limit)
  | letClause (binding : Variable) (value : Expr)

def Node.kind : Node → NodeKind
  | statement s => s.kind
  | query _ => .query
  | expr e => e.kind
  | literal _ => .literalExpr
  | var _ => .variableExpr
  | operator _ _ => .operatorExpr
  | select _ => .selectExpression
  | setOperation _ => .selectSetOperation
  | block _ => .selectBlock
  | selectClause _ => .selectClause
  | selectElement _ => .selectElement
  | selectRegular _ => .selectRegular
  | projection _ => .projection
  | fromClause _ => .fromClause
  | fromTerm _ => .fromTerm
  | correlate c => c.kind
  | whereClause _ => .whereClause
  | groupBy _ => .groupbyClause
  | havingClause _ => .havingClause
  | orderBy _ => .orderbyClause
  | limit _ => .limitClause
  | letClause _ _ => .letClause

end QueryLowering
