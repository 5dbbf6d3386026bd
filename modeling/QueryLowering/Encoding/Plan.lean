import QueryLowering.Encoding.Script
import QueryLowering.Query.Build
import QueryLowering.Settings.Basic

/-! The script of each node of a query tree.

| node | written |
|---|---|
| block | `(query (select ...) (from ...) (where ...) (groupBy ...) (having ...))` |
| right operand | `(query (union (distinct) left right))` |
| FROM term | `(table "t")`, or its source, inside `(aliasAs "x" ...)` when the name differs |
| projection, group key | its expression, behind `(as "y")` when the name differs |
| variable, field | `(ref "x")`, `(dot "f" ...)` |
| operator | the name of the operator around both operands |
| literal | an atom or a string |

Aliases that say nothing new are left out: `x AS x` is `x`. -/
namespace QueryLowering

open Sexpr (emptyNodeTokens stringNodeTokens)

/-- Whether `name` differs from the name that `e` has anyway. Only a plain occurrence of a variable
has a name, and only with its mark. -/
def Expr.isDistinctFrom (e : Expr) (name : String) : Bool :=
  match e.asVariable? with
  | none => true
  | some v => v.isNew || v.identifier.isNamedValue || v.name != "$" ++ name

def Variable.isDistinctFrom (binding : Variable) (source : Expr) : Bool :=
  binding.identifier.isNamedValue || source.isDistinctFrom binding.plainName

/-- The alias of a projection or a group key, if it has to be written. -/
def Expr.writtenAlias (e : Expr) (name : Option String) : Option String :=
  name.filter e.isDistinctFrom

namespace Script

def unsupported (kind : NodeKind) (detail : String) : Script := [.reject (.unsupported kind detail)]

def malformed (kind : NodeKind) (detail : String) : Script := [.reject (.malformed kind detail)]

def node (tag : String) (body : Script) : Script :=
  .write (.opening tag) :: (body ++ [.write .closing])

def emptyNode (tag : String) : Script := write (emptyNodeTokens tag)

def stringNode (tag text : String) : Script := write (stringNodeTokens tag text)

def distinctMark (distinct : Bool) : Script := if distinct then emptyNode "distinct" else []

def aliasMark : Option String → Script
  | none => []
  | some name => stringNode "as" name

end Script

def Literal.script (l : Literal) : Script :=
  match l with
  | integer _ | long _ | .true | .false => .write [.atom l.text]
  | string value => .write [.string value]
  | double _ | float _ | null | missing =>
    .unsupported .literalExpr ("literals of type " ++ l.type.display)

def Variable.script (v : Variable) : Script := .stringNode "ref" v.plainName

def Select.letScript : Script := .unsupported .letClause "LET"

def Select.orderByScript : Script := .unsupported .orderbyClause "ORDER BY"

def Select.limitScript : Script := .unsupported .limitClause "LIMIT"

def SelectBody.elementScript : Script := .unsupported .selectElement "SELECT VALUE"

def SetOperator.tag? : SetOperator → Option String
  | union => some "union"
  | intersect => some "intersect"
  | except => none

/-- What stands in front of the left side of a set operation, for one of its right operands. -/
def RightOperand.opening? (r : RightOperand) : Option Script :=
  r.op.tag?.map fun tag => .write [.opening "query", .opening tag] ++ Script.distinctMark r.distinct

/-- The openings of all right operands, the last one outermost. -/
def SetOperation.openings? (rights : List RightOperand) : Option Script :=
  (rights.mapM RightOperand.opening?).map fun openings => openings.reverse.flatten

mutual
def Expr.script (s : Settings) : Expr → Script
  | .literal value => value.script
  | .var value => value.script
  | .operator [left, right] [op] =>
    match s.operatorNames.name? op with
    | some name => .node name [.level (left.script s), .level (right.script s)]
    | none =>
      .unsupported .operatorExpr ("binary operator " ++ op.name ++ " (" ++ op.symbol ++ ")")
  | .operator operands operators =>
    .malformed .operatorExpr
      s!"expected a binary expression, found {operands.length} operands and {operators.length} operators"
  | .field base name => .node "dot" [.write (.string name), .level (base.script s)]
  | .select query => query.script s
  | .index _ _ => .unsupported .indexAccessor "no encoding for this expression"
  | .call _ _ => .unsupported .callExpr "no encoding for this expression"
  | .caseOf _ _ _ _ => .unsupported .caseExpression "no encoding for this expression"
  | .cond _ _ _ => .unsupported .ifExpr "no encoding for this expression"
  | .list _ _ => .unsupported .listConstructor "no encoding for this expression"
  | .record _ => .unsupported .recordConstructor "no encoding for this expression"
  | .quantified _ _ _ => .unsupported .quantifiedExpression "no encoding for this expression"
  | .unary _ _ => .unsupported .unaryExpr "no encoding for this expression"
  | .subquery _ => .unsupported .independentSubquery "no encoding for this expression"
def Select.script (s : Settings) : Select → Script
  | ⟨_ :: _, _, _, _, _⟩ => [.level Select.letScript]
  | ⟨[], body, orderBy, limit, _⟩ =>
    .level (body.script s) ::
      ((match orderBy with
        | none => []
        | some _ => [.level Select.orderByScript]) ++
      (match limit with
        | none => []
        | some _ => [.level Select.limitScript]))
def SetOperation.script (s : Settings) : SetOperation → Script
  | ⟨left, rights⟩ =>
    if s.maxRights < rights.length then
      .malformed .selectSetOperation
        s!"{rights.length} right inputs, at most {s.maxRights} supported"
    else
      match SetOperation.openings? rights with
      | none => .unsupported .selectSetOperation "EXCEPT"
      | some openings => openings ++ (left.script s ++ RightOperand.scripts s rights)
def Operand.script (s : Settings) : Operand → Script
  | .block value => [.level (value.script s)]
  | .subquery query => [.level (query.script s)]
def RightOperand.scripts (s : Settings) : List RightOperand → Script
  | [] => []
  | ⟨_, _, input⟩ :: rest =>
    input.script s ++ (.write [.closing, .closing] ++ RightOperand.scripts s rest)
def Block.script (s : Settings) : Block → Script
  | ⟨_, none, _, _, _⟩ => .malformed .selectBlock "missing FROM clause"
  | ⟨clause, some terms, whereTest, groupBy, havingTest⟩ =>
    .node "query"
      (Script.node "select" [.level (clause.script s)] ++
      (.level (Script.node "from" (FromTerm.scripts s terms)) ::
      ((match whereTest with
        | none => []
        | some test => [.level (Script.node "where" [.level (test.script s)])]) ++
      ((match groupBy with
        | none => []
        | some grouping => [.level (grouping.script s)]) ++
      (match havingTest with
        | none => []
        | some test => [.level (Script.node "having" [.level (test.script s)])])))))
def SelectClause.script (s : Settings) : SelectClause → Script
  | ⟨distinct, .element _⟩ => Script.distinctMark distinct ++ [.level SelectBody.elementScript]
  | ⟨distinct, .regular projections⟩ =>
    Script.distinctMark distinct ++ [.level (Projection.scripts s projections)]
def Projection.scripts (s : Settings) : List Projection → Script
  | [] => []
  | p :: rest => .level (p.script s) :: Projection.scripts s rest
def Projection.script (s : Settings) : Projection → Script
  | ⟨some e, name, _⟩ => Script.aliasMark (e.writtenAlias name) ++ [.level (e.script s)]
  | ⟨none, _, true⟩ => .emptyNode "all"
  | ⟨none, _, false⟩ =>
    .malformed .projection "projection has neither an expression nor a star"
def FromTerm.scripts (s : Settings) : List FromTerm → Script
  | [] => []
  | t :: rest => .level (t.script s) :: FromTerm.scripts s rest
def FromTerm.script (s : Settings) : FromTerm → Script
  | ⟨_, _, _, c :: _⟩ => .unsupported c.kind "correlated clauses in a FROM term"
  | ⟨_, _, some _, []⟩ => .unsupported .fromTerm "positional variables in a FROM term"
  | ⟨source, binding, none, []⟩ =>
    let inner : Script :=
      match source.asVariable? with
      | some v => .stringNode "table" v.plainName
      | none => [.level (source.script s)]
    if binding.isDistinctFrom source then
      .node "aliasAs" (.write (.string binding.plainName) :: inner)
    else inner
def Grouping.script (s : Settings) : Grouping → Script
  | ⟨_, some _⟩ => .unsupported .groupbyClause "GROUP AS"
  | ⟨keys, none⟩ => .node "groupBy" (GroupKey.scripts s keys)
def GroupKey.scripts (s : Settings) : List GroupKey → Script
  | [] => []
  | ⟨e, binding⟩ :: rest =>
    Script.aliasMark (e.writtenAlias (binding.map Variable.plainName)) ++
      (.level (e.script s) :: GroupKey.scripts s rest)
end

def Query.script (s : Settings) (q : Query) : Script :=
  match q.body with
  | .select query => [.level (query.script s)]
  | body => .unsupported body.kind "query body must be a select expression"

def Statement.script (s : Settings) (t : Statement) : Script :=
  match t with
  | query q => q.script s
  | _ => .unsupported t.kind "only query statements can be encoded"

/-- What is done at a node, the step down to it apart. -/
def Node.script (s : Settings) : Node → Script
  | statement value => value.script s
  | query value => value.script s
  | expr value => value.script s
  | literal value => value.script
  | var value => value.script
  | operator operands operators => (Expr.operator operands operators).script s
  | select value => value.script s
  | setOperation value => value.script s
  | block value => value.script s
  | selectClause value => value.script s
  | selectElement _ => SelectBody.elementScript
  | selectRegular projections => Projection.scripts s projections
  | projection value => value.script s
  | fromClause terms => .node "from" (FromTerm.scripts s terms)
  | fromTerm value => value.script s
  | correlate value => .unsupported value.kind "correlated clauses"
  | whereClause test => .node "where" [.level (test.script s)]
  | groupBy value => value.script s
  | havingClause test => .node "having" [.level (test.script s)]
  | orderBy _ => Select.orderByScript
  | limit _ => Select.limitScript
  | letClause _ _ => Select.letScript

/-- Encodes a node into a context. -/
def Node.encode (s : Settings) (n : Node) (c : Context) : Outcome :=
  (Action.level (n.script s)).run c

/-- A context without text, under the limit of the settings. -/
def Settings.context (s : Settings) : Context := { limit := s.maxDepth }

/-- The text of a node by itself. -/
def Node.encoded (s : Settings) (n : Node) : Except Stop String :=
  match n.encode s s.context with
  | ⟨c, none⟩ => .ok c.finish
  | ⟨_, some stop⟩ => .error stop

/-- What was written before the encoding of a node by itself ended. -/
def Node.written (s : Settings) (n : Node) : String := (n.encode s s.context).context.writer.text

end QueryLowering
