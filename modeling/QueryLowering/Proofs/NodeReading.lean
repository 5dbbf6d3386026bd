import QueryLowering.Proofs.PlainValues

/-! Reading a node whose parts are read back. A reader takes the readers of the expressions and SELECT
expressions inside; if these read the parts of a node up to some number of levels then it reads the
node up to so many levels, and one level more. -/
namespace QueryLowering

open Json (Reads)

theorem Expr.toJsons_eq : ∀ es, Expr.toJsons es = es.map Expr.toJson :=
  eq_map_of_cons rfl fun _ _ => rfl

theorem Expr.optionToJson_eq : ∀ e, Expr.optionToJson e = Json.ofOption Expr.toJson e
  | none | some _ => rfl

theorem Expr.pairsToJson_eq :
    ∀ pairs, Expr.pairsToJson pairs = pairs.map fun p => .pair p.1.toJson p.2.toJson :=
  eq_map_of_cons rfl fun _ _ => rfl

theorem Expr.bindingsToJson_eq :
    ∀ bindings, Expr.bindingsToJson bindings = bindings.map fun b => .pair b.1.toJson b.2.toJson :=
  eq_map_of_cons rfl fun _ _ => rfl

theorem Select.letsToJson_eq :
    ∀ lets, Select.letsToJson lets = lets.map fun l => (Node.letClause l.1 l.2).toJson :=
  eq_map_of_cons rfl fun _ _ => rfl

theorem Select.orderToJson_eq :
    ∀ items, Select.orderToJson items = items.map fun i => .pair i.1.toJson i.2.toJson :=
  eq_map_of_cons rfl fun _ _ => rfl

def RightOperand.toJson (right : RightOperand) : Json :=
  .object [("op_type", right.op.toJson), ("set_semantics", .bool right.distinct),
    ("input", right.input.toJson)]

theorem RightOperand.toJsons_eq :
    ∀ rights, RightOperand.toJsons rights = rights.map RightOperand.toJson :=
  eq_map_of_cons rfl fun ⟨_, _, _⟩ _ => rfl

theorem Projection.toJsons_eq : ∀ ps, Projection.toJsons ps = ps.map Projection.toJson :=
  eq_map_of_cons rfl fun _ _ => rfl

theorem FromTerm.toJsons_eq : ∀ terms, FromTerm.toJsons terms = terms.map FromTerm.toJson :=
  eq_map_of_cons rfl fun _ _ => rfl

theorem Correlate.toJsons_eq : ∀ cs, Correlate.toJsons cs = cs.map Correlate.toJson :=
  eq_map_of_cons rfl fun _ _ => rfl

def GroupKey.toJson (key : GroupKey) : Json :=
  .object [("expr", key.expr.toJson), ("var", Json.ofOption Variable.toJson key.binding)]

theorem GroupKey.toJsons_eq : ∀ keys, GroupKey.toJsons keys = keys.map GroupKey.toJson :=
  eq_map_of_cons rfl fun ⟨_, _⟩ _ => rfl

theorem Select.toJson_eq (q : Select) :
    q.toJson = .object [("let_list", .array (q.lets.map fun l => (Node.letClause l.1 l.2).toJson)),
      ("select_set_operation", q.body.toJson),
      ("order_by", Json.ofOption (fun items => (Node.orderBy items).toJson) q.orderBy),
      ("limit", Json.ofOption Limit.toJson q.limit), ("subquery", .bool q.isSubquery)] := by
  obtain ⟨lets, body, orderBy, limit, isSubquery⟩ := q
  rw [← Select.letsToJson_eq]
  cases orderBy <;> cases limit <;> rfl

theorem Block.toJson_eq (b : Block) :
    b.toJson = .object [("select_clause", b.clause.toJson),
      ("from", Json.ofOption (fun terms => (Node.fromClause terms).toJson) b.fromTerms),
      ("where_clause", Json.ofOption (fun test => (Node.whereClause test).toJson) b.whereTest),
      ("group_by", Json.ofOption Grouping.toJson b.groupBy),
      ("having", Json.ofOption (fun test => (Node.havingClause test).toJson) b.havingTest)] := by
  obtain ⟨clause, fromTerms, whereTest, groupBy, havingTest⟩ := b
  cases fromTerms <;> cases whereTest <;> cases groupBy <;> cases havingTest <;> rfl

/-- Readers of expressions and SELECT expressions. -/
structure Readers where
  expr : Json → Option Expr
  select : Json → Option Select

namespace Readers

/-- What reads one level with the given readers for the next. -/
def next (r : Readers) : Readers :=
  ⟨Expr.ofJsonWith? r.expr r.select, Select.ofJsonWith? r.expr r.select⟩

def within (fuel : Nat) : Readers := ⟨Expr.ofJsonWithin? fuel, Select.ofJsonWithin? fuel⟩

def full : Readers := ⟨Expr.ofJson?, Select.ofJson?⟩

end Readers

/-- A node is read from every loosened form of it that has fewer levels than `bound`. -/
def Node.ReadsBack (r : Readers) (bound : Nat) : Node → Prop
  | statement value =>
    Reads (Statement.ofJsonWith? r.expr) (.node .statement) value.toJson value bound
  | query value => Reads (Query.ofJsonWith? r.expr) (.node .query) value.toJson value bound
  | expr value => Reads r.expr (.node .expr) value.toJson value bound
  | literal value => Reads Literal.ofJson? (.node .literal) value.toJson value bound
  | var value => Reads Variable.ofJson? (.node .var) value.toJson value bound
  | operator operands operators =>
    Reads (Expr.operatorOfJsonWith? r.expr) (.node .operator)
      (Node.operator operands operators).toJson (operands, operators) bound
  | select value => Reads r.select (.node .select) value.toJson value bound
  | setOperation value =>
    Reads (SetOperation.ofJsonWith? r.expr r.select) (.node .setOperation) value.toJson value bound
  | block value => Reads (Block.ofJsonWith? r.expr) (.node .block) value.toJson value bound
  | selectClause value =>
    Reads (SelectClause.ofJsonWith? r.expr) (.node .selectClause) value.toJson value bound
  | selectElement value =>
    Reads (Expr.wrappedOfJsonWith? r.expr) (.node .selectElement)
      (Node.selectElement value).toJson value bound
  | selectRegular projections =>
    Reads (Projection.listOfJsonWith? r.expr) (.node .selectRegular)
      (Node.selectRegular projections).toJson projections bound
  | projection value =>
    Reads (Projection.ofJsonWith? r.expr) (.node .projection) value.toJson value bound
  | fromClause terms =>
    Reads (FromTerm.listOfJsonWith? r.expr) (.node .fromClause)
      (Node.fromClause terms).toJson terms bound
  | fromTerm value => Reads (FromTerm.ofJsonWith? r.expr) (.node .fromTerm) value.toJson value bound
  | correlate value =>
    Reads (Correlate.ofJsonWith? r.expr) (.node .correlate) value.toJson value bound
  | whereClause test =>
    Reads (Expr.wrappedOfJsonWith? r.expr) (.node .whereClause)
      (Node.whereClause test).toJson test bound
  | groupBy value => Reads (Grouping.ofJsonWith? r.expr) (.node .groupBy) value.toJson value bound
  | havingClause test =>
    Reads (Expr.wrappedOfJsonWith? r.expr) (.node .havingClause)
      (Node.havingClause test).toJson test bound
  | orderBy items =>
    Reads (Select.orderOfJsonWith? r.expr) (.node .orderBy) (Node.orderBy items).toJson items bound
  | limit value => Reads (Limit.ofJsonWith? r.expr) (.node .limit) value.toJson value bound
  | letClause binding value =>
    Reads (Select.letOfJsonWith? r.expr) (.node .letClause)
      (Node.letClause binding value).toJson (binding, value) bound

variable {r : Readers} {bound : Nat}

theorem Identifier.reads (i : Identifier) :
    Reads Identifier.ofJson? .identifier i.toJson i bound := by
  refine Reads.mono ?_ (Nat.le_succ bound)
  refine .record (by simp) fun members kept => ?_
  have name := (kept "value" _ _ rfl rfl).required (.string i.name)
  have isNamed := (kept "named_value_access" _ _ rfl rfl).required (.bool i.isNamedValue)
  simp [Identifier.ofJson?,name,isNamed]

theorem Variable.reads (v : Variable) : Reads Variable.ofJson? .var v.toJson v bound := by
  refine Reads.mono ?_ (Nat.le_succ bound)
  refine .record (by simp) fun members kept => ?_
  have identifier := (kept "var" _ _ rfl rfl).required v.identifier.reads
  have isNew := (kept "is_new_var" _ _ rfl rfl).required (.bool v.isNew)
  simp [Variable.ofJson?,identifier,isNew]

theorem Expr.wrapped_reads {e : Expr} (inner : Reads r.expr .expr e.toJson e bound) :
    Reads (Expr.wrappedOfJsonWith? r.expr) .wrapped (.object [("expr", e.toJson)]) e bound := by
  refine Reads.mono ?_ (Nat.le_succ bound)
  refine .record (by simp) fun members kept => ?_
  have expr := (kept "expr" _ _ rfl rfl).required inner
  simp [Expr.wrappedOfJsonWith?,expr]

/-- The tag of an expression is a level of its own. -/
theorem Expr.reads {e : Expr} (parts : ∀ part ∈ e.parts, part.ReadsBack r bound) :
    (Node.expr e).ReadsBack r.next (bound + 1) := by
  have expr (e' : Expr) (member : Node.expr e' ∈ e.parts) :
      Reads r.expr .expr e'.toJson e' bound := parts _ member
  refine .node ?_
  cases e with
  | literal value =>
    have inner : Reads _ _ _ value bound := parts (.literal value) (by simp [Expr.parts])
    exact .tagged rfl (inner.map Expr.literal)
  | var value => exact .tagged rfl ((Reads.node value.reads).map Expr.var)
  | operator operands operators =>
    have inner : Reads _ _ _ (operands, operators) bound :=
      parts (.operator operands operators) (by simp [Expr.parts])
    exact .tagged rfl (inner.map fun chain => Expr.operator chain.1 chain.2)
  | select query =>
    have inner : Reads _ _ _ query bound := parts (.select query) (by simp [Expr.parts])
    exact .tagged rfl (inner.map Expr.select)
  | subquery body => exact .tagged rfl ((expr body (by simp [Expr.parts])).map Expr.subquery)
  | record fields =>
    rw [Expr.toJson,Expr.pairsToJson_eq]
    have each (f : Expr × Expr) (member : f ∈ fields) :
        Reads (Json.pair? r.expr r.expr) (.pair .expr .expr) (.pair f.1.toJson f.2.toJson) f bound :=
      .pair (expr f.1 (List.mem_flatMap.mpr ⟨f, member, by simp⟩))
        (expr f.2 (List.mem_flatMap.mpr ⟨f, member, by simp⟩))
    exact .tagged rfl ((Reads.list each).map Expr.record)
  | field base name =>
    refine .variant rfl (by simp) fun members kept => ?_
    have base := (kept "expr" _ _ rfl rfl).required (expr base (by simp [Expr.parts]))
    have name := (kept "field" _ _ rfl rfl).required (.string name)
    simp [Readers.next,Expr.ofJsonWith?,base,name]
  | index base position =>
    rw [Expr.toJson,Expr.optionToJson_eq]
    refine .variant rfl (by simp) fun members kept => ?_
    have base := (kept "expr" _ _ rfl rfl).required (expr base (by simp [Expr.parts]))
    have position := (kept "index" _ _ rfl rfl).optional fun e member =>
      expr e (by simp_all [Expr.parts])
    simp [Readers.next,Expr.ofJsonWith?,base,position]
  | call function args =>
    rw [Expr.toJson,Expr.toJsons_eq]
    refine .variant rfl (by simp) fun members kept => ?_
    have function := (kept "function" _ _ rfl rfl).required (.string function)
    have args := (kept "args" _ _ rfl rfl).required
      (.list fun e member => expr e (by simp [Expr.parts,member]))
    simp [Readers.next,Expr.ofJsonWith?,function,args]
  | caseOf subject whens thens otherwise =>
    rw [Expr.toJson,Expr.toJsons_eq,Expr.toJsons_eq,Expr.optionToJson_eq]
    refine .variant rfl (by simp) fun members kept => ?_
    have subject := (kept "condition" _ _ rfl rfl).required (expr subject (by simp [Expr.parts]))
    have whens := (kept "when_exprs" _ _ rfl rfl).required
      (.list fun e member => expr e (by simp [Expr.parts,member]))
    have thens := (kept "then_exprs" _ _ rfl rfl).required
      (.list fun e member => expr e (by simp [Expr.parts,member]))
    have otherwise := (kept "else_expr" _ _ rfl rfl).optional fun e member =>
      expr e (by simp_all [Expr.parts])
    simp [Readers.next,Expr.ofJsonWith?,subject,whens,thens,otherwise]
  | cond test yes no =>
    refine .variant rfl (by simp) fun members kept => ?_
    have test := (kept "condition" _ _ rfl rfl).required (expr test (by simp [Expr.parts]))
    have yes := (kept "then_expr" _ _ rfl rfl).required (expr yes (by simp [Expr.parts]))
    have no := (kept "else_expr" _ _ rfl rfl).required (expr no (by simp [Expr.parts]))
    simp [Readers.next,Expr.ofJsonWith?,test,yes,no]
  | list ordered items =>
    rw [Expr.toJson,Expr.toJsons_eq]
    refine .variant rfl (by simp) fun members kept => ?_
    have ordered := (kept "ordered" _ _ rfl rfl).required (.bool ordered)
    have items := (kept "items" _ _ rfl rfl).required
      (.list fun e member => expr e (by simp [Expr.parts,member]))
    simp [Readers.next,Expr.ofJsonWith?,ordered,items]
  | quantified quantifier bindings satisfies =>
    rw [Expr.toJson,Expr.bindingsToJson_eq]
    refine .variant rfl (by simp) fun members kept => ?_
    have each (b : Variable × Expr) (member : b ∈ bindings) :
        Reads (Json.pair? Variable.ofJson? r.expr) (.pair .var .expr)
          (.pair b.1.toJson b.2.toJson) b bound :=
      .pair b.1.reads (expr b.2 (List.mem_cons_of_mem _ (List.mem_map.mpr ⟨b, member, rfl⟩)))
    have quantifier := (kept "quantifier" _ _ rfl rfl).required (.name quantifier.ofJson?_toJson)
    have bindings := (kept "bindings" _ _ rfl rfl).required (.list each)
    have satisfies := (kept "satisfies" _ _ rfl rfl).required
      (expr satisfies (by simp [Expr.parts]))
    simp [Readers.next,Expr.ofJsonWith?,quantifier,bindings,satisfies]
  | unary op operand =>
    refine .variant rfl (by simp) fun members kept => ?_
    have op := (kept "op" _ _ rfl rfl).required (.name op.ofJson?_toJson)
    have operand := (kept "expr" _ _ rfl rfl).required (expr operand (by simp [Expr.parts]))
    simp [Readers.next,Expr.ofJsonWith?,op,operand]

theorem Expr.chain_reads {operands : List Expr} {operators : List Operator}
    (parts : ∀ part ∈ (Node.operator operands operators).parts, part.ReadsBack r bound) :
    (Node.operator operands operators).ReadsBack r (bound + 1) := by
  refine .node ?_
  rw [Node.toJson,Expr.toJsons_eq]
  refine .record (by simp) fun members kept => ?_
  have operands := (kept "exprs" _ _ rfl rfl).required
    (.list fun e member => parts (.expr e) (by simp [Node.parts,member]))
  have operators := (kept "ops" _ _ rfl rfl).required
    (.plain (by simp [Json.ofList]) (Json.list?_map fun op _ => op.ofJson?_toJson))
  simp [Expr.operatorOfJsonWith?,operands,operators]

theorem Select.let_reads {binding : Variable} {value : Expr}
    (parts : ∀ part ∈ (Node.letClause binding value).parts, part.ReadsBack r bound) :
    (Node.letClause binding value).ReadsBack r (bound + 1) := by
  refine .node (.record (by simp) fun members kept => ?_)
  have binding := (kept "var" _ _ rfl rfl).required binding.reads
  have value := (kept "expr" _ _ rfl rfl).required (parts (.expr value) (by simp [Node.parts]))
  simp [Select.letOfJsonWith?,binding,value]

theorem Select.order_reads {items : List (Expr × Direction)}
    (parts : ∀ part ∈ (Node.orderBy items).parts, part.ReadsBack r bound) :
    (Node.orderBy items).ReadsBack r (bound + 1) := by
  refine .node ?_
  rw [Node.toJson,Select.orderToJson_eq]
  refine .record (by simp) fun members kept => ?_
  have each (i : Expr × Direction) (member : i ∈ items) :
      Reads (Json.pair? r.expr Direction.ofJson?) (.pair .expr .plain)
        (.pair i.1.toJson i.2.toJson) i bound :=
    .pair (parts (.expr i.1) (List.mem_map.mpr ⟨i, member, rfl⟩)) (.name i.2.ofJson?_toJson)
  have items := (kept "items" _ _ rfl rfl).required (.list each)
  simp [Select.orderOfJsonWith?,items]

theorem Limit.reads {limit : Limit}
    (parts : ∀ part ∈ (Node.limit limit).parts, part.ReadsBack r bound) :
    (Node.limit limit).ReadsBack r (bound + 1) := by
  obtain ⟨count, offset⟩ := limit
  refine .node ?_
  rw [Limit.toJson,Expr.optionToJson_eq]
  refine .record (by simp) fun members kept => ?_
  have count := (kept "limit" _ _ rfl rfl).required (parts (.expr count) (by simp [Node.parts]))
  have offset := (kept "offset" _ _ rfl rfl).optional fun e member =>
    parts (.expr e) (by simp_all [Node.parts])
  simp [Limit.ofJsonWith?,count,offset]

theorem Select.reads {q : Select} (parts : ∀ part ∈ q.parts, part.ReadsBack r bound) :
    (Node.select q).ReadsBack r.next (bound + 1) := by
  obtain ⟨lets, body, orderBy, limit, isSubquery⟩ := q
  refine .node ?_
  rw [Select.toJson_eq]
  refine .record (by simp) fun members kept => ?_
  have lets := (kept "let_list" _ _ rfl rfl).required (.list fun l member =>
    parts (.letClause l.1 l.2)
      (List.mem_cons_of_mem _ (List.mem_append_left _ (List.mem_map.mpr ⟨l, member, rfl⟩))))
  have body := (kept "select_set_operation" _ _ rfl rfl).required
    (parts (.setOperation body) (by simp [Select.parts]))
  have orderBy := (kept "order_by" _ _ rfl rfl).optional fun items member =>
    parts (.orderBy items) (by simp_all [Select.parts])
  have limit := (kept "limit" _ _ rfl rfl).optional fun value member =>
    parts (.limit value) (by simp_all [Select.parts])
  have isSubquery := (kept "subquery" _ _ rfl rfl).required (.bool isSubquery)
  simp [Readers.next,Select.ofJsonWith?,lets,body,orderBy,limit,isSubquery]

theorem Operand.reads {o : Operand} (part : o.node.ReadsBack r bound) :
    Reads (Operand.ofJsonWith? r.expr r.select) .operand o.toJson o bound := by
  refine Reads.mono ?_ (Nat.le_succ bound)
  cases o with
  | block value =>
    have inner : Reads _ _ _ value bound := part
    exact .tagged rfl (inner.map Operand.block)
  | subquery query =>
    have inner : Reads _ _ _ query bound := part
    exact .tagged rfl (inner.map Operand.subquery)

theorem RightOperand.reads {right : RightOperand} (part : right.input.node.ReadsBack r bound) :
    Reads (RightOperand.ofJsonWith? r.expr r.select) .rightOperand right.toJson right bound := by
  obtain ⟨op, distinct, input⟩ := right
  refine Reads.mono ?_ (Nat.le_succ bound)
  refine .record (by simp) fun members kept => ?_
  have op := (kept "op_type" _ _ rfl rfl).required (.name op.ofJson?_toJson)
  have distinct := (kept "set_semantics" _ _ rfl rfl).required (.bool distinct)
  have input := (kept "input" _ _ rfl rfl).required (Operand.reads part)
  simp [RightOperand.ofJsonWith?,op,distinct,input]

theorem SetOperation.reads {o : SetOperation}
    (parts : ∀ part ∈ (Node.setOperation o).parts, part.ReadsBack r bound) :
    (Node.setOperation o).ReadsBack r (bound + 1) := by
  obtain ⟨left, rights⟩ := o
  refine .node ?_
  rw [SetOperation.toJson,RightOperand.toJsons_eq]
  refine .record (by simp) fun members kept => ?_
  have left := (kept "left" _ _ rfl rfl).required
    (Operand.reads (parts left.node (by simp [Node.parts,SetOperation.children])))
  have rights := (kept "rights" _ _ rfl rfl).required (.list fun right member =>
    RightOperand.reads (parts right.input.node
      (List.mem_cons_of_mem _ (List.mem_map.mpr ⟨right, member, rfl⟩))))
  simp [SetOperation.ofJsonWith?,left,rights]

theorem Block.reads {b : Block} (parts : ∀ part ∈ (Node.block b).parts, part.ReadsBack r bound) :
    (Node.block b).ReadsBack r (bound + 1) := by
  obtain ⟨clause, fromTerms, whereTest, groupBy, havingTest⟩ := b
  refine .node ?_
  rw [Block.toJson_eq]
  refine .record (by simp) fun members kept => ?_
  have clause := (kept "select_clause" _ _ rfl rfl).required
    (parts (.selectClause clause) (by simp [Node.parts,Block.children]))
  have fromTerms := (kept "from" _ _ rfl rfl).optional fun terms member =>
    parts (.fromClause terms) (by simp_all [Node.parts,Block.children])
  have whereTest := (kept "where_clause" _ _ rfl rfl).optional fun test member =>
    parts (.whereClause test) (by simp_all [Node.parts,Block.children])
  have groupBy := (kept "group_by" _ _ rfl rfl).optional fun value member =>
    parts (.groupBy value) (by simp_all [Node.parts,Block.children])
  have havingTest := (kept "having" _ _ rfl rfl).optional fun test member =>
    parts (.havingClause test) (by simp_all [Node.parts,Block.children])
  simp [Block.ofJsonWith?,clause,fromTerms,whereTest,groupBy,havingTest]

theorem SelectClause.reads {c : SelectClause}
    (parts : ∀ part ∈ (Node.selectClause c).parts, part.ReadsBack r bound) :
    (Node.selectClause c).ReadsBack r (bound + 1) := by
  obtain ⟨distinct, body⟩ := c
  have body : Reads (SelectBody.ofJsonWith? r.expr)
      (.choice [("Element", .node .selectElement), ("Regular", .node .selectRegular)])
      body.toJson body bound := by
    refine Reads.mono ?_ (Nat.le_succ bound)
    have part := parts body.node (by simp [Node.parts])
    cases body with
    | element value =>
      have inner : Reads _ _ _ value bound := part
      exact .tagged rfl (inner.map SelectBody.element)
    | regular projections =>
      have inner : Reads _ _ _ projections bound := part
      exact .tagged rfl (inner.map SelectBody.regular)
  refine .node (.record (by simp) fun members kept => ?_)
  have distinct := (kept "distinct" _ _ rfl rfl).required (.bool distinct)
  have body := (kept "body" _ _ rfl rfl).required body
  simp [SelectClause.ofJsonWith?,distinct,body]

theorem Projection.list_reads {projections : List Projection}
    (parts : ∀ part ∈ (Node.selectRegular projections).parts, part.ReadsBack r bound) :
    (Node.selectRegular projections).ReadsBack r (bound + 1) := by
  refine .node ?_
  rw [Node.toJson,Projection.toJsons_eq]
  refine .record (by simp) fun members kept => ?_
  have projections := (kept "projections" _ _ rfl rfl).required
    (.list fun p member => parts (.projection p) (by simp [Node.parts,member]))
  simp [Projection.listOfJsonWith?,projections]

theorem Projection.reads {p : Projection}
    (parts : ∀ part ∈ (Node.projection p).parts, part.ReadsBack r bound) :
    (Node.projection p).ReadsBack r (bound + 1) := by
  obtain ⟨expr, name, star⟩ := p
  refine .node ?_
  rw [Projection.toJson,Expr.optionToJson_eq]
  refine .record (by simp) fun members kept => ?_
  have expr := (kept "expr" _ _ rfl rfl).optional fun e member =>
    parts (.expr e) (by simp_all [Node.parts])
  have name := (kept "name" _ _ rfl rfl).optional fun s _ => .string s
  have star := (kept "star" _ _ rfl rfl).required (.bool star)
  simp [Projection.ofJsonWith?,expr,name,star]

theorem FromTerm.list_reads {terms : List FromTerm}
    (parts : ∀ part ∈ (Node.fromClause terms).parts, part.ReadsBack r bound) :
    (Node.fromClause terms).ReadsBack r (bound + 1) := by
  refine .node ?_
  rw [Node.toJson,FromTerm.toJsons_eq]
  refine .record (by simp) fun members kept => ?_
  have terms := (kept "terms" _ _ rfl rfl).required
    (.list fun t member => parts (.fromTerm t) (by simp [Node.parts,member]))
  simp [FromTerm.listOfJsonWith?,terms]

theorem FromTerm.reads {t : FromTerm}
    (parts : ∀ part ∈ (Node.fromTerm t).parts, part.ReadsBack r bound) :
    (Node.fromTerm t).ReadsBack r (bound + 1) := by
  obtain ⟨source, binding, position, correlates⟩ := t
  refine .node ?_
  rw [FromTerm.toJson,Correlate.toJsons_eq]
  refine .record (by simp) fun members kept => ?_
  have source := (kept "left_expr" _ _ rfl rfl).required
    (parts (.expr source) (by simp [Node.parts]))
  have binding := (kept "left_var" _ _ rfl rfl).required binding.reads
  have position := (kept "positional_var" _ _ rfl rfl).optional fun v _ => v.reads
  have correlates := (kept "correlate_clauses" _ _ rfl rfl).required
    (.list fun c member => parts (.correlate c) (by simp [Node.parts,member]))
  simp [FromTerm.ofJsonWith?,source,binding,position,correlates]

theorem Correlate.reads {c : Correlate}
    (parts : ∀ part ∈ (Node.correlate c).parts, part.ReadsBack r bound) :
    (Node.correlate c).ReadsBack r (bound + 1) := by
  refine .node ?_
  cases c with
  | join kind source binding condition | nest kind source binding condition =>
    refine .variant rfl (by simp) fun members kept => ?_
    have kind := (kept "join_type" _ _ rfl rfl).required (.name kind.ofJson?_toJson)
    have source := (kept "right_expr" _ _ rfl rfl).required
      (parts (.expr source) (by simp [Node.parts,Correlate.parts]))
    have binding := (kept "right_var" _ _ rfl rfl).required binding.reads
    have condition := (kept "condition" _ _ rfl rfl).required
      (parts (.expr condition) (by simp [Node.parts,Correlate.parts]))
    simp [Correlate.ofJsonWith?,kind,source,binding,condition]
  | unnest kind source binding =>
    refine .variant rfl (by simp) fun members kept => ?_
    have kind := (kept "join_type" _ _ rfl rfl).required (.name kind.ofJson?_toJson)
    have source := (kept "right_expr" _ _ rfl rfl).required
      (parts (.expr source) (by simp [Node.parts,Correlate.parts]))
    have binding := (kept "right_var" _ _ rfl rfl).required binding.reads
    simp [Correlate.ofJsonWith?,kind,source,binding]

theorem Grouping.reads {g : Grouping}
    (parts : ∀ part ∈ (Node.groupBy g).parts, part.ReadsBack r bound) :
    (Node.groupBy g).ReadsBack r (bound + 1) := by
  obtain ⟨keys, groupVariable⟩ := g
  have each (key : GroupKey) (member : key ∈ keys) :
      Reads (GroupKey.ofJsonWith? r.expr) .groupKey key.toJson key bound := by
    obtain ⟨expr, binding⟩ := key
    refine Reads.mono ?_ (Nat.le_succ bound)
    refine .record (by simp) fun members kept => ?_
    have expr := (kept "expr" _ _ rfl rfl).required
      (parts (.expr expr) (List.mem_map.mpr ⟨_, member, rfl⟩))
    have binding := (kept "var" _ _ rfl rfl).optional fun v _ => v.reads
    simp [GroupKey.ofJsonWith?,expr,binding]
  refine .node ?_
  rw [Grouping.toJson,GroupKey.toJsons_eq]
  refine .record (by simp) fun members kept => ?_
  have keys := (kept "keys" _ _ rfl rfl).required (.list each)
  have groupVariable := (kept "group_var" _ _ rfl rfl).optional fun v _ => v.reads
  simp [Grouping.ofJsonWith?,keys,groupVariable]

theorem Query.reads {q : Query} (parts : ∀ part ∈ (Node.query q).parts, part.ReadsBack r bound) :
    (Node.query q).ReadsBack r (bound + 1) := by
  refine .node (.record (by simp) fun members kept => ?_)
  have body := (kept "body" _ _ rfl rfl).required (parts (.expr q.body) (by simp [Node.parts]))
  have topLevel := (kept "top_level" _ _ rfl rfl).required (.bool q.topLevel)
  simp [Query.ofJsonWith?,body,topLevel]

theorem Statement.reads {q : Statement}
    (parts : ∀ part ∈ q.parts, part.ReadsBack r bound) :
    (Node.statement q).ReadsBack r (bound + 1) := by
  have expr (e : Expr) (member : Node.expr e ∈ q.parts) :
      Reads r.expr .expr e.toJson e bound := parts _ member
  have query (value : Query) (member : Node.query value ∈ q.parts) :
      Reads (Query.ofJsonWith? r.expr) (.node .query) value.toJson value bound := parts _ member
  refine .node ?_
  cases q with
  | query value => exact .tagged rfl ((query value (by simp [Statement.parts])).map Statement.query)
  | insert dataset value =>
    refine .variant rfl (by simp) fun members kept => ?_
    have dataset := (kept "dataset" _ _ rfl rfl).required (.string dataset)
    have value := (kept "query" _ _ rfl rfl).required (query value (by simp [Statement.parts]))
    simp [Statement.ofJsonWith?,dataset,value]
  | delete dataset binding condition =>
    rw [Statement.toJson,Expr.optionToJson_eq]
    refine .variant rfl (by simp) fun members kept => ?_
    have dataset := (kept "dataset" _ _ rfl rfl).required (.string dataset)
    have binding := (kept "var" _ _ rfl rfl).optional fun v _ => v.reads
    have condition := (kept "condition" _ _ rfl rfl).optional fun e member =>
      expr e (by simp_all [Statement.parts])
    simp [Statement.ofJsonWith?,dataset,binding,condition]
  | update target assignments condition =>
    rw [Statement.toJson,Expr.pairsToJson_eq,Expr.optionToJson_eq]
    refine .variant rfl (by simp) fun members kept => ?_
    have inside (a : Expr × Expr) (member : a ∈ assignments) {part : Node}
        (one : part ∈ [Node.expr a.1, .expr a.2]) :
        part ∈ (Statement.update target assignments condition).parts :=
      List.mem_cons_of_mem _ (List.mem_append_left _ (List.mem_flatMap.mpr ⟨a, member, one⟩))
    have target := (kept "target" _ _ rfl rfl).required (expr target (by simp [Statement.parts]))
    have assignments := (kept "assignments" _ _ rfl rfl).required (.list fun a member =>
      .pair (expr a.1 (inside a member (by simp))) (expr a.2 (inside a member (by simp))))
    have condition := (kept "condition" _ _ rfl rfl).optional fun e member =>
      expr e (by simp_all [Statement.parts])
    simp [Statement.ofJsonWith?,target,assignments,condition]
  | load dataset adapter =>
    refine .variant rfl (by simp) fun members kept => ?_
    have dataset := (kept "dataset" _ _ rfl rfl).required (.string dataset)
    have adapter := (kept "adapter" _ _ rfl rfl).required (.string adapter)
    simp [Statement.ofJsonWith?,dataset,adapter]
  | assign name value =>
    refine .variant rfl (by simp) fun members kept => ?_
    have name := (kept "name" _ _ rfl rfl).required (.string name)
    have value := (kept "value" _ _ rfl rfl).required (.string value)
    simp [Statement.ofJsonWith?,name,value]
  | declareDataverse name | declareType name =>
    refine .variant rfl (by simp) fun members kept => ?_
    have name := (kept "name" _ _ rfl rfl).required (.string name)
    simp [Statement.ofJsonWith?,name]
  | declareDataset name itemType =>
    refine .variant rfl (by simp) fun members kept => ?_
    have name := (kept "name" _ _ rfl rfl).required (.string name)
    have itemType := (kept "item_type" _ _ rfl rfl).required (.string itemType)
    simp [Statement.ofJsonWith?,name,itemType]
  | declareFunction name params body =>
    refine .variant rfl (by simp) fun members kept => ?_
    have name := (kept "name" _ _ rfl rfl).required (.string name)
    have params := (kept "params" _ _ rfl rfl).required (.list fun v _ => v.reads)
    have body := (kept "body" _ _ rfl rfl).required (expr body (by simp [Statement.parts]))
    simp [Statement.ofJsonWith?,name,params,body]

theorem Node.ReadsBack.mono {n : Node} (back : n.ReadsBack r bound) {lower : Nat}
    (le : lower ≤ bound) : n.ReadsBack r lower := by
  cases n <;> exact Reads.mono back le

/-- What is left to show of a node that is not read by the readers themselves. -/
theorem Node.readsBack_of_parts {n : Node} (free : n.FloatFree)
    (parts : ∀ part ∈ n.parts, part.ReadsBack r bound)
    (expr : ∀ e, n = .expr e → (Node.expr e).ReadsBack r bound)
    (select : ∀ q, n = .select q → (Node.select q).ReadsBack r bound) : n.ReadsBack r bound := by
  have single (e : Expr) (member : .expr e ∈ n.parts) :
      Reads (Expr.wrappedOfJsonWith? r.expr) .wrapped (.object [("expr", e.toJson)]) e bound := by
    have inner : Reads r.expr .expr e.toJson e bound := parts _ member
    exact Expr.wrapped_reads inner
  have lower (back : n.ReadsBack r (bound + 1)) : n.ReadsBack r bound := back.mono (Nat.le_succ _)
  cases n with
  | expr e => exact expr e rfl
  | select q => exact select q rfl
  | literal l => exact .node (.plain (by cases l <;> nofun) (Literal.ofJson?_toJson (free l .here)))
  | var v => exact .node v.reads
  | operator => exact lower (Expr.chain_reads parts)
  | selectElement e => exact .node (single e (by simp [Node.parts]))
  | whereClause e => exact .node (single e (by simp [Node.parts]))
  | havingClause e => exact .node (single e (by simp [Node.parts]))
  | statement => exact lower (Statement.reads parts)
  | query => exact lower (Query.reads parts)
  | setOperation => exact lower (SetOperation.reads parts)
  | block => exact lower (Block.reads parts)
  | selectClause => exact lower (SelectClause.reads parts)
  | selectRegular => exact lower (Projection.list_reads parts)
  | projection => exact lower (Projection.reads parts)
  | fromClause => exact lower (FromTerm.list_reads parts)
  | fromTerm => exact lower (FromTerm.reads parts)
  | correlate => exact lower (Correlate.reads parts)
  | groupBy => exact lower (Grouping.reads parts)
  | orderBy => exact lower (Select.order_reads parts)
  | limit => exact lower (Limit.reads parts)
  | letClause => exact lower (Select.let_reads parts)

end QueryLowering
