import QueryLowering.Query.Kind

/-! The JSON form of query trees. Every node is a record or a tagged value, and an absent one is
`null`. -/
namespace QueryLowering

mutual
def Expr.toJson : Expr → Json
  | .literal value => .tagged "Literal" value.toJson
  | .var value => .tagged "Variable" value.toJson
  | .operator operands operators =>
    .tagged "Operator" (.object [("exprs", .array (Expr.toJsons operands)),
      ("ops", Json.ofList Operator.toJson operators)])
  | .field base name =>
    .tagged "FieldAccessor" (.object [("expr", base.toJson), ("field", .string name)])
  | .index base position =>
    .tagged "IndexAccessor" (.object [("expr", base.toJson), ("index", Expr.optionToJson position)])
  | .call function args =>
    .tagged "Call" (.object [("function", .string function), ("args", .array (Expr.toJsons args))])
  | .caseOf subject whens thens otherwise =>
    .tagged "Case" (.object [("condition", subject.toJson),
      ("when_exprs", .array (Expr.toJsons whens)), ("then_exprs", .array (Expr.toJsons thens)),
      ("else_expr", Expr.optionToJson otherwise)])
  | .cond test yes no =>
    .tagged "If" (.object [("condition", test.toJson), ("then_expr", yes.toJson),
      ("else_expr", no.toJson)])
  | .list ordered items =>
    .tagged "ListConstructor" (.object [("ordered", .bool ordered),
      ("items", .array (Expr.toJsons items))])
  | .record fields => .tagged "RecordConstructor" (.array (Expr.pairsToJson fields))
  | .quantified quantifier bindings satisfies =>
    .tagged "Quantified" (.object [("quantifier", quantifier.toJson),
      ("bindings", .array (Expr.bindingsToJson bindings)), ("satisfies", satisfies.toJson)])
  | .unary op operand =>
    .tagged "Unary" (.object [("op", op.toJson), ("expr", operand.toJson)])
  | .select query => .tagged "Select" query.toJson
  | .subquery body => .tagged "IndependentSubquery" body.toJson
def Expr.toJsons : List Expr → List Json
  | [] => []
  | e :: es => e.toJson :: Expr.toJsons es
def Expr.optionToJson : Option Expr → Json
  | none => .null
  | some e => e.toJson
def Expr.pairsToJson : List (Expr × Expr) → List Json
  | [] => []
  | (a, b) :: rest => .pair a.toJson b.toJson :: Expr.pairsToJson rest
def Expr.bindingsToJson : List (Variable × Expr) → List Json
  | [] => []
  | (v, e) :: rest => .pair v.toJson e.toJson :: Expr.bindingsToJson rest
def Select.letsToJson : List (Variable × Expr) → List Json
  | [] => []
  | (v, e) :: rest =>
    .object [("var", v.toJson), ("expr", e.toJson)] :: Select.letsToJson rest
def Select.orderToJson : List (Expr × Direction) → List Json
  | [] => []
  | (e, d) :: rest => .pair e.toJson d.toJson :: Select.orderToJson rest
def Select.toJson : Select → Json
  | ⟨lets, body, orderBy, limit, isSubquery⟩ =>
    .object [("let_list", .array (Select.letsToJson lets)), ("select_set_operation", body.toJson),
      ("order_by", match orderBy with
        | none => .null
        | some items => .object [("items", .array (Select.orderToJson items))]),
      ("limit", match limit with
        | none => .null
        | some limit => limit.toJson),
      ("subquery", .bool isSubquery)]
def Limit.toJson : Limit → Json
  | ⟨count, offset⟩ => .object [("limit", count.toJson), ("offset", Expr.optionToJson offset)]
def SetOperation.toJson : SetOperation → Json
  | ⟨left, rights⟩ =>
    .object [("left", left.toJson), ("rights", .array (RightOperand.toJsons rights))]
def Operand.toJson : Operand → Json
  | .block value => .tagged "Select" value.toJson
  | .subquery query => .tagged "Subquery" query.toJson
def RightOperand.toJsons : List RightOperand → List Json
  | [] => []
  | ⟨op, distinct, input⟩ :: rest =>
    .object [("op_type", op.toJson), ("set_semantics", .bool distinct), ("input", input.toJson)] ::
      RightOperand.toJsons rest
def Block.toJson : Block → Json
  | ⟨clause, fromTerms, whereTest, groupBy, havingTest⟩ =>
    .object [("select_clause", clause.toJson),
      ("from", match fromTerms with
        | none => .null
        | some terms => .object [("terms", .array (FromTerm.toJsons terms))]),
      ("where_clause", match whereTest with
        | none => .null
        | some test => .object [("expr", test.toJson)]),
      ("group_by", match groupBy with
        | none => .null
        | some grouping => grouping.toJson),
      ("having", match havingTest with
        | none => .null
        | some test => .object [("expr", test.toJson)])]
def SelectClause.toJson : SelectClause → Json
  | ⟨distinct, body⟩ => .object [("distinct", .bool distinct), ("body", body.toJson)]
def SelectBody.toJson : SelectBody → Json
  | .element value => .tagged "Element" (.object [("expr", value.toJson)])
  | .regular projections =>
    .tagged "Regular" (.object [("projections", .array (Projection.toJsons projections))])
def Projection.toJson : Projection → Json
  | ⟨expr, name, star⟩ =>
    .object [("expr", Expr.optionToJson expr), ("name", Json.ofOption .string name),
      ("star", .bool star)]
def Projection.toJsons : List Projection → List Json
  | [] => []
  | p :: ps => p.toJson :: Projection.toJsons ps
def FromTerm.toJson : FromTerm → Json
  | ⟨source, binding, position, correlates⟩ =>
    .object [("left_expr", source.toJson), ("left_var", binding.toJson),
      ("positional_var", Json.ofOption Variable.toJson position),
      ("correlate_clauses", .array (Correlate.toJsons correlates))]
def FromTerm.toJsons : List FromTerm → List Json
  | [] => []
  | t :: ts => t.toJson :: FromTerm.toJsons ts
def Correlate.toJson : Correlate → Json
  | .join kind source binding condition =>
    .tagged "Join" (.object [("join_type", kind.toJson), ("right_expr", source.toJson),
      ("right_var", binding.toJson), ("condition", condition.toJson)])
  | .nest kind source binding condition =>
    .tagged "Nest" (.object [("join_type", kind.toJson), ("right_expr", source.toJson),
      ("right_var", binding.toJson), ("condition", condition.toJson)])
  | .unnest kind source binding =>
    .tagged "Unnest" (.object [("join_type", kind.toJson), ("right_expr", source.toJson),
      ("right_var", binding.toJson)])
def Correlate.toJsons : List Correlate → List Json
  | [] => []
  | c :: cs => c.toJson :: Correlate.toJsons cs
def Grouping.toJson : Grouping → Json
  | ⟨keys, groupVariable⟩ =>
    .object [("keys", .array (GroupKey.toJsons keys)),
      ("group_var", Json.ofOption Variable.toJson groupVariable)]
def GroupKey.toJsons : List GroupKey → List Json
  | [] => []
  | ⟨expr, binding⟩ :: rest =>
    .object [("expr", expr.toJson), ("var", Json.ofOption Variable.toJson binding)] ::
      GroupKey.toJsons rest
end

def Query.toJson (q : Query) : Json :=
  .object [("body", q.body.toJson), ("top_level", .bool q.topLevel)]

def Statement.toJson : Statement → Json
  | query q => .tagged "Query" q.toJson
  | insert dataset q =>
    .tagged "Insert" (.object [("dataset", .string dataset), ("query", q.toJson)])
  | delete dataset binding condition =>
    .tagged "Delete" (.object [("dataset", .string dataset),
      ("var", Json.ofOption Variable.toJson binding), ("condition", Expr.optionToJson condition)])
  | update target assignments condition =>
    .tagged "Update" (.object [("target", target.toJson),
      ("assignments", .array (Expr.pairsToJson assignments)),
      ("condition", Expr.optionToJson condition)])
  | load dataset adapter =>
    .tagged "Load" (.object [("dataset", .string dataset), ("adapter", .string adapter)])
  | assign name value => .tagged "Set" (.object [("name", .string name), ("value", .string value)])
  | declareDataverse name => .tagged "DataverseDecl" (.object [("name", .string name)])
  | declareDataset name itemType =>
    .tagged "DatasetDecl" (.object [("name", .string name), ("item_type", .string itemType)])
  | declareType name => .tagged "TypeDecl" (.object [("name", .string name)])
  | declareFunction name params body =>
    .tagged "FunctionDecl" (.object [("name", .string name),
      ("params", Json.ofList Variable.toJson params), ("body", body.toJson)])

def Node.toJson : Node → Json
  | statement value => value.toJson
  | query value => value.toJson
  | expr value => value.toJson
  | literal value => value.toJson
  | var value => value.toJson
  | operator operands operators =>
    .object [("exprs", .array (Expr.toJsons operands)),
      ("ops", Json.ofList Operator.toJson operators)]
  | select value => value.toJson
  | setOperation value => value.toJson
  | block value => value.toJson
  | selectClause value => value.toJson
  | selectElement value => .object [("expr", value.toJson)]
  | selectRegular projections => .object [("projections", .array (Projection.toJsons projections))]
  | projection value => value.toJson
  | fromClause terms => .object [("terms", .array (FromTerm.toJsons terms))]
  | fromTerm value => value.toJson
  | correlate value => value.toJson
  | whereClause test => .object [("expr", test.toJson)]
  | groupBy value => value.toJson
  | havingClause test => .object [("expr", test.toJson)]
  | orderBy items => .object [("items", .array (Select.orderToJson items))]
  | limit value => value.toJson
  | letClause binding value => .object [("var", binding.toJson), ("expr", value.toJson)]

end QueryLowering
