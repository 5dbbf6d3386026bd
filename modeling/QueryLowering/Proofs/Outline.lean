import QueryLowering.Proofs.Canonical
import QueryLowering.Proofs.PlainValues
import QueryLowering.Proofs.ReadBack

/-! Encodings of queries that differ only in what stands in strings. The outline of a query is the
query without the contents of its string literals and of the names of fields; the outline of a tree is
the tree without the contents of its strings. The outline of a query decides whether it has an
encoding, and the outline of the tree that is read from it. -/
namespace QueryLowering

def Literal.outline : Literal → Literal
  | string _ => string ""
  | l => l

mutual
def Expr.outline : Expr → Expr
  | .literal value => .literal value.outline
  | .var value => .var value
  | .operator operands operators => .operator (Expr.outlines operands) operators
  | .field base _ => .field base.outline ""
  | .index base position => .index base.outline (Expr.outlineOf position)
  | .call function args => .call function (Expr.outlines args)
  | .caseOf subject whens thens otherwise =>
    .caseOf subject.outline (Expr.outlines whens) (Expr.outlines thens) (Expr.outlineOf otherwise)
  | .cond test yes no => .cond test.outline yes.outline no.outline
  | .list ordered items => .list ordered (Expr.outlines items)
  | .record fields => .record (Expr.pairOutlines fields)
  | .quantified quantifier bindings satisfies =>
    .quantified quantifier (Expr.bindingOutlines bindings) satisfies.outline
  | .unary op operand => .unary op operand.outline
  | .select query => .select query.outline
  | .subquery body => .subquery body.outline
def Expr.outlines : List Expr → List Expr
  | [] => []
  | e :: rest => e.outline :: Expr.outlines rest
def Expr.outlineOf : Option Expr → Option Expr
  | none => none
  | some e => some e.outline
def Expr.pairOutlines : List (Expr × Expr) → List (Expr × Expr)
  | [] => []
  | (a, b) :: rest => (a.outline, b.outline) :: Expr.pairOutlines rest
def Expr.bindingOutlines : List (Variable × Expr) → List (Variable × Expr)
  | [] => []
  | (v, e) :: rest => (v, e.outline) :: Expr.bindingOutlines rest
def Expr.orderOutlines : List (Expr × Direction) → List (Expr × Direction)
  | [] => []
  | (e, direction) :: rest => (e.outline, direction) :: Expr.orderOutlines rest
def Select.outline : Select → Select
  | ⟨lets, body, orderBy, limit, isSubquery⟩ =>
    ⟨Expr.bindingOutlines lets, body.outline, Select.orderOutline orderBy,
      Limit.outlineOf limit, isSubquery⟩
def Select.orderOutline : Option (List (Expr × Direction)) → Option (List (Expr × Direction))
  | none => none
  | some items => some (Expr.orderOutlines items)
def Limit.outlineOf : Option Limit → Option Limit
  | none => none
  | some value => some value.outline
def Limit.outline : Limit → Limit
  | ⟨count, offset⟩ => ⟨count.outline, Expr.outlineOf offset⟩
def SetOperation.outline : SetOperation → SetOperation
  | ⟨left, rights⟩ => ⟨left.outline, RightOperand.outlines rights⟩
def Operand.outline : Operand → Operand
  | .block value => .block value.outline
  | .subquery query => .subquery query.outline
def RightOperand.outlines : List RightOperand → List RightOperand
  | [] => []
  | ⟨op, distinct, input⟩ :: rest => ⟨op, distinct, input.outline⟩ :: RightOperand.outlines rest
def Block.outline : Block → Block
  | ⟨clause, fromTerms, whereTest, groupBy, havingTest⟩ =>
    ⟨clause.outline, FromTerm.outlinesOf fromTerms, Expr.outlineOf whereTest,
      Grouping.outlineOf groupBy, Expr.outlineOf havingTest⟩
def SelectClause.outline : SelectClause → SelectClause
  | ⟨distinct, body⟩ => ⟨distinct, body.outline⟩
def SelectBody.outline : SelectBody → SelectBody
  | .element value => .element value.outline
  | .regular projections => .regular (Projection.outlines projections)
def Projection.outlines : List Projection → List Projection
  | [] => []
  | p :: rest => p.outline :: Projection.outlines rest
def Projection.outline : Projection → Projection
  | ⟨expr, name, star⟩ => ⟨Expr.outlineOf expr, name, star⟩
def FromTerm.outlinesOf : Option (List FromTerm) → Option (List FromTerm)
  | none => none
  | some terms => some (FromTerm.outlines terms)
def FromTerm.outlines : List FromTerm → List FromTerm
  | [] => []
  | t :: rest => t.outline :: FromTerm.outlines rest
def FromTerm.outline : FromTerm → FromTerm
  | ⟨source, binding, position, correlates⟩ =>
    ⟨source.outline, binding, position, Correlate.outlines correlates⟩
def Correlate.outlines : List Correlate → List Correlate
  | [] => []
  | c :: rest => c.outline :: Correlate.outlines rest
def Correlate.outline : Correlate → Correlate
  | .join kind source binding condition => .join kind source.outline binding condition.outline
  | .nest kind source binding condition => .nest kind source.outline binding condition.outline
  | .unnest kind source binding => .unnest kind source.outline binding
def Grouping.outlineOf : Option Grouping → Option Grouping
  | none => none
  | some grouping => some grouping.outline
def Grouping.outline : Grouping → Grouping
  | ⟨keys, groupVariable⟩ => ⟨GroupKey.outlines keys, groupVariable⟩
def GroupKey.outlines : List GroupKey → List GroupKey
  | [] => []
  | ⟨e, binding⟩ :: rest => ⟨e.outline, binding⟩ :: GroupKey.outlines rest
end

def Query.outline (q : Query) : Query := ⟨q.body.outline, q.topLevel⟩

def Statement.outline : Statement → Statement
  | query q => query q.outline
  | insert dataset q => insert dataset q.outline
  | delete dataset binding condition => delete dataset binding (Expr.outlineOf condition)
  | update target assignments condition =>
    update target.outline (Expr.pairOutlines assignments) (Expr.outlineOf condition)
  | declareFunction name params body => declareFunction name params body.outline
  | t => t

def Node.outline : Node → Node
  | statement value => statement value.outline
  | query value => query value.outline
  | expr value => expr value.outline
  | literal value => literal value.outline
  | var value => var value
  | operator operands operators => operator (Expr.outlines operands) operators
  | select value => select value.outline
  | setOperation value => setOperation value.outline
  | block value => block value.outline
  | selectClause value => selectClause value.outline
  | selectElement value => selectElement value.outline
  | selectRegular projections => selectRegular (Projection.outlines projections)
  | projection value => projection value.outline
  | fromClause terms => fromClause (FromTerm.outlines terms)
  | fromTerm value => fromTerm value.outline
  | correlate value => correlate value.outline
  | whereClause test => whereClause test.outline
  | groupBy value => groupBy value.outline
  | havingClause test => havingClause test.outline
  | orderBy items => orderBy (Expr.orderOutlines items)
  | limit value => limit value.outline
  | letClause binding value => letClause binding value.outline

namespace Sexpr

mutual
def outline : Sexpr → Sexpr
  | node tag args => node tag (outlines args)
  | atom text => atom text
  | string _ => string ""
def outlines : List Sexpr → List Sexpr
  | [] => []
  | t :: ts => t.outline :: outlines ts
end

def Token.outline : Token → Token
  | string _ => string ""
  | token => token

theorem outlines_eq : ∀ ts, outlines ts = ts.map outline :=
  eq_map_of_cons rfl fun _ _ => rfl

theorem tokensOf_outlines {ts : List Sexpr}
    (each : ∀ t ∈ ts, t.outline.tokens = t.tokens.map Token.outline) :
    tokensOf (outlines ts) = (tokensOf ts).map Token.outline := by
  induction ts with
  | nil => simp [outlines]
  | cons t ts ih =>
    rw [outlines,tokensOf_cons,tokensOf_cons,List.map_append,each t (by simp),
      ih fun u member => each u (by simp [member])]

theorem tokens_outline (t : Sexpr) : t.outline.tokens = t.tokens.map Token.outline := by
  induction t using Sexpr.induction with
  | node tag args ih =>
    rw [outline,tokens,tokens,tokensOf_outlines ih,List.map_cons,List.map_append]
    rfl
  | atom text => rfl
  | string text => rfl

theorem WellFormed.outline {t : Sexpr} (wellFormed : t.WellFormed) : t.outline.WellFormed := by
  induction t using Sexpr.induction with
  | node tag args ih =>
    obtain ⟨tagToken, argsWellFormed⟩ := wellFormed
    rw [allWellFormed_iff] at argsWellFormed
    refine ⟨tagToken, allWellFormed_iff.mpr ?_⟩
    rw [outlines_eq]
    intro u member
    obtain ⟨t, inside, rfl⟩ := List.mem_map.mp member
    exact ih t inside (argsWellFormed t inside)
  | atom text => exact wellFormed
  | string text => trivial

/-- The tokens of a tree tell its outline, whatever stands in their strings. -/
theorem outline_eq_of_tokens {t u : Sexpr} (left : t.WellFormed) (right : u.WellFormed)
    (same : t.tokens.map Token.outline = u.tokens.map Token.outline) : t.outline = u.outline := by
  apply (render_inj left.outline right.outline).mp
  rw [render,render,tokens_outline,tokens_outline,same]

end Sexpr

/-- The trace without the contents of strings. -/
def Trace.outline (trace : Trace) : Trace := ⟨trace.tokens.map Sexpr.Token.outline, trace.stop⟩

theorem Trace.outline_andThen (a b : Trace) :
    (a.andThen b).outline = a.outline.andThen b.outline := by
  obtain ⟨tokens, _ | reason⟩ := a
  · simp [andThen,outline]
  · rfl

mutual
def Action.outline : Action → Action
  | .write token => .write token.outline
  | .reject reason => .reject reason
  | .level body => .level (Script.outline body)
def Script.outline : List Action → List Action
  | [] => []
  | a :: rest => a.outline :: Script.outline rest
end

mutual
theorem Action.trace_outline (limit depth : Nat) :
    (a : Action) → a.outline.trace limit depth = (a.trace limit depth).outline
  | .write token => by
    simp only [Action.outline,Action.trace]
    rfl
  | .reject reason => by
    simp only [Action.outline,Action.trace]
    rfl
  | .level body => by
    simp only [Action.outline,Action.trace]
    by_cases deep : limit ≤ depth
    · rw [if_pos deep,if_pos deep]
      rfl
    · rw [if_neg deep,if_neg deep]
      exact Script.trace_outline limit (depth + 1) body
/-- What stands in strings has no influence on what a script does. -/
theorem Script.trace_outline (limit depth : Nat) : (script : List Action) →
    Script.trace limit depth (Script.outline script) = (Script.trace limit depth script).outline
  | [] => by
    simp only [Script.outline,Script.trace_nil]
    rfl
  | a :: rest => by
    rw [Script.outline,Script.trace_cons,Script.trace_cons,Trace.outline_andThen,
      Action.trace_outline limit depth a,Script.trace_outline limit depth rest]
end

theorem Script.outline_eq : ∀ script, Script.outline script = script.map Action.outline :=
  eq_map_of_cons rfl fun _ _ => rfl

/-- Two scripts that differ only in what stands in strings. -/
def Script.Alike (a b : Script) : Prop := Script.outline a = Script.outline b

namespace Script.Alike

theorem refl (script : Script) : Alike script script := rfl

theorem string (text other : String) : Alike [.write (.string text)] [.write (.string other)] := rfl

theorem level {body other : Script} (inner : Alike body other) :
    Alike [.level body] [.level other] := by
  simp only [Alike,Script.outline,Action.outline]
  rw [inner]

theorem append {first first' second second' : Script} (onFirst : Alike first first')
    (onSecond : Alike second second') : Alike (first ++ second) (first' ++ second') := by
  simp only [Alike,Script.outline_eq,List.map_append] at onFirst onSecond ⊢
  rw [onFirst,onSecond]

theorem cons {a a' : Action} {rest rest' : Script} (head : Alike [a] [a'])
    (tail : Alike rest rest') : Alike (a :: rest) (a' :: rest') :=
  head.append tail

theorem node (tag : String) {body other : Script} (inner : Alike body other) :
    Alike (Script.node tag body) (Script.node tag other) :=
  .cons (.refl _) (.append inner (.refl _))

theorem actions {s : Settings} {nodes : List Node}
    (each : ∀ n ∈ nodes, Alike (n.outline.script s) (n.script s)) :
    Alike ((nodes.map Node.outline).map (Node.action s)) (nodes.map (Node.action s)) := by
  induction nodes with
  | nil => exact .refl _
  | cons n rest ih =>
    exact .cons (.level (each n (by simp))) (ih fun m member => each m (by simp [member]))

theorem trace {a b : Script} (alike : Alike a b) (limit depth : Nat) :
    (Script.trace limit depth a).outline = (Script.trace limit depth b).outline := by
  rw [← Script.trace_outline,← Script.trace_outline,alike]

end Script.Alike

section

open Script (Alike)

variable {s : Settings}

theorem Expr.outlines_eq : ∀ es, Expr.outlines es = es.map Expr.outline :=
  eq_map_of_cons rfl fun _ _ => rfl

theorem Projection.outlines_eq : ∀ ps, Projection.outlines ps = ps.map Projection.outline :=
  eq_map_of_cons rfl fun _ _ => rfl

theorem FromTerm.outlines_eq : ∀ terms, FromTerm.outlines terms = terms.map FromTerm.outline :=
  eq_map_of_cons rfl fun _ _ => rfl

theorem Expr.outline_kind (e : Expr) : e.outline.kind = e.kind := by
  cases e <;> rfl

theorem Correlate.outline_kind (c : Correlate) : c.outline.kind = c.kind := by
  cases c <;> rfl

theorem Expr.outline_asVariable? (e : Expr) : e.outline.asVariable? = e.asVariable? := by
  cases e <;> rfl

theorem Expr.outline_isDistinctFrom (e : Expr) : e.outline.isDistinctFrom = e.isDistinctFrom := by
  funext name
  rw [Expr.isDistinctFrom,Expr.isDistinctFrom,Expr.outline_asVariable?]

theorem Expr.outline_writtenAlias (e : Expr) (name : Option String) :
    e.outline.writtenAlias name = e.writtenAlias name := by
  rw [Expr.writtenAlias,Expr.writtenAlias,Expr.outline_isDistinctFrom]

theorem Variable.isDistinctFrom_outline (binding : Variable) (source : Expr) :
    binding.isDistinctFrom source.outline = binding.isDistinctFrom source := by
  rw [Variable.isDistinctFrom,Variable.isDistinctFrom,Expr.outline_isDistinctFrom]

theorem Operand.node_outline (o : Operand) : o.outline.node = o.node.outline := by
  cases o <;> rfl

theorem SelectBody.node_outline (body : SelectBody) : body.outline.node = body.node.outline := by
  cases body <;> rfl

theorem Select.children_outline (q : Select) :
    q.outline.children = q.children.map Node.outline := by
  obtain ⟨_ | ⟨⟨binding, value⟩, lets⟩, body, orderBy, limit, isSubquery⟩ := q
  · cases orderBy <;> cases limit <;> rfl
  · rfl

theorem Block.children_outline (b : Block) : b.outline.children = b.children.map Node.outline := by
  obtain ⟨clause, fromTerms, whereTest, groupBy, havingTest⟩ := b
  cases fromTerms <;> cases whereTest <;> cases groupBy <;> cases havingTest <;> rfl

theorem Literal.script_alike (l : Literal) : Alike l.outline.script l.script := by
  cases l with
  | string value => exact .string _ _
  | _ => exact .refl _

theorem Operator.script_refused {operands : List Expr} {operators : List Operator}
    (other : ¬(operands.length = 2 ∧ operators.length = 1)) :
    (Expr.operator operands operators).script s = .malformed .operatorExpr
      s!"expected a binary expression, found {operands.length} operands and {operators.length} operators" := by
  rw [Expr.script]
  rintro left right op rfl rfl
  exact other ⟨rfl, rfl⟩

theorem Operator.script_alike {operands : List Expr} {operators : List Operator}
    (children : ∀ n ∈ (Expr.operator operands operators).children,
      Alike (n.outline.script s) (n.script s)) :
    Alike ((Expr.operator (Expr.outlines operands) operators).script s)
      ((Expr.operator operands operators).script s) := by
  by_cases binary : operands.length = 2 ∧ operators.length = 1
  · obtain ⟨left, right, rfl⟩ := List.length_eq_two.mp binary.1
    obtain ⟨op, rfl⟩ := List.length_eq_one_iff.mp binary.2
    have onLeft := children (.expr left) (by simp [Expr.children])
    have onRight := children (.expr right) (by simp [Expr.children])
    simp only [Expr.outlines,Expr.script]
    cases s.operatorNames.name? op with
    | none => exact .refl _
    | some name => exact .node _ (.cons (.level onLeft) (.level onRight))
  · -- Of the operands and operators only their numbers show in what is refused.
    have length : (Expr.outlines operands).length = operands.length := by
      rw [Expr.outlines_eq,List.length_map]
    rw [Operator.script_refused binary,Operator.script_refused (by rwa [length]),length]
    exact .refl _

theorem Select.script_alike {q : Select}
    (children : ∀ n ∈ q.children, Alike (n.outline.script s) (n.script s)) :
    Alike (q.outline.script s) (q.script s) := by
  rw [Select.script_eq,Select.script_eq,Select.children_outline]
  exact .actions children

theorem Expr.script_alike {e : Expr}
    (children : ∀ n ∈ e.children, Alike (n.outline.script s) (n.script s)) :
    Alike (e.outline.script s) (e.script s) := by
  cases e with
  | literal value =>
    simp only [Expr.outline,Expr.script]
    exact value.script_alike
  | operator operands operators => exact Operator.script_alike children
  | field base name =>
    simp only [Expr.outline,Expr.script]
    exact .node _ (.cons (.string _ _) (.level (children (.expr base) (by simp [Expr.children]))))
  | select query =>
    simp only [Expr.outline,Expr.script]
    exact Select.script_alike children
  | _ =>
    simp only [Expr.outline,Expr.script]
    exact .refl _

theorem RightOperand.openings?_outlines (rights : List RightOperand) :
    SetOperation.openings? (RightOperand.outlines rights) = SetOperation.openings? rights := by
  induction rights with
  | nil => rfl
  | cons r rest ih =>
    obtain ⟨op, distinct, input⟩ := r
    rw [RightOperand.outlines,SetOperation.openings?_cons,SetOperation.openings?_cons,ih]
    rfl

theorem RightOperand.length_outlines (rights : List RightOperand) :
    (RightOperand.outlines rights).length = rights.length := by
  induction rights with
  | nil => rfl
  | cons r rest ih =>
    obtain ⟨op, distinct, input⟩ := r
    rw [RightOperand.outlines,List.length_cons,List.length_cons,ih]

theorem RightOperand.scripts_alike {rights : List RightOperand}
    (each : ∀ r ∈ rights, Alike (r.input.outline.script s) (r.input.script s)) :
    Alike (RightOperand.scripts s (RightOperand.outlines rights))
      (RightOperand.scripts s rights) := by
  induction rights with
  | nil => exact .refl _
  | cons r rest ih =>
    obtain ⟨op, distinct, input⟩ := r
    simp only [RightOperand.outlines,RightOperand.scripts]
    exact .append (each ⟨op, distinct, input⟩ (by simp))
      (.append (.refl _) (ih fun r member => each r (by simp [member])))

theorem SetOperation.script_alike {o : SetOperation}
    (children : ∀ n ∈ o.children, Alike (n.outline.script s) (n.script s)) :
    Alike (o.outline.script s) (o.script s) := by
  obtain ⟨left, rights⟩ := o
  have input (i : Operand) (child : i.node ∈ (SetOperation.mk left rights).children) :
      Alike (i.outline.script s) (i.script s) := by
    rw [Operand.script_eq,Operand.script_eq,Operand.node_outline]
    exact .level (children _ child)
  simp only [SetOperation.outline,SetOperation.script,RightOperand.length_outlines,
    RightOperand.openings?_outlines]
  split
  · exact .refl _
  · split
    · exact .refl _
    · refine .append (.refl _) (.append (input left ?_) (RightOperand.scripts_alike ?_))
      · simp [SetOperation.children]
      · intro r member
        apply input
        simp only [SetOperation.children,List.mem_cons,List.mem_map]
        exact .inr ⟨r, member, rfl⟩

theorem Block.script_alike {b : Block}
    (children : ∀ n ∈ b.children, Alike (n.outline.script s) (n.script s)) :
    Alike (b.outline.script s) (b.script s) := by
  obtain ⟨clause, _ | terms, whereTest, groupBy, havingTest⟩ := b
  · simp only [Block.outline,FromTerm.outlinesOf,Block.script]
    exact .refl _
  · have clauses := (Block.mk clause (some terms) whereTest groupBy havingTest).children_outline
    have onSelect := children (.selectClause clause) (by simp [Block.children])
    rw [Block.outline,FromTerm.outlinesOf] at clauses ⊢
    rw [Block.script_eq,Block.script_eq,clauses,← List.map_tail]
    exact .node _ (.append (.node _ (.level onSelect))
      (.actions fun n member => children n (List.mem_of_mem_tail member)))

theorem FromTerm.script_alike {t : FromTerm}
    (children : ∀ n ∈ t.children, Alike (n.outline.script s) (n.script s)) :
    Alike (t.outline.script s) (t.script s) := by
  obtain ⟨source, binding, position, _ | ⟨c, correlates⟩⟩ := t
  · cases position with
    | none =>
      have inner : Alike (source.outline.sourceScript s) (source.sourceScript s) := by
        unfold Expr.sourceScript
        rw [Expr.outline_asVariable?]
        cases named : source.asVariable? with
        | none => exact .level (children (.expr source) (by simp [FromTerm.children,named]))
        | some v => exact .refl _
      simp only [FromTerm.outline,Correlate.outlines,FromTerm.script_eq,
        Variable.isDistinctFrom_outline]
      split
      · exact .node _ (.cons (.refl _) inner)
      · exact inner
    | some v =>
      simp only [FromTerm.outline,Correlate.outlines,FromTerm.script]
      exact .refl _
  · simp only [FromTerm.outline,Correlate.outlines,FromTerm.script,Correlate.outline_kind]
    exact .refl _

theorem GroupKey.scripts_alike {keys : List GroupKey}
    (each : ∀ key ∈ keys, Alike (key.expr.outline.script s) (key.expr.script s)) :
    Alike (GroupKey.scripts s (GroupKey.outlines keys)) (GroupKey.scripts s keys) := by
  induction keys with
  | nil => exact .refl _
  | cons key rest ih =>
    obtain ⟨e, binding⟩ := key
    simp only [GroupKey.outlines,GroupKey.scripts,Expr.outline_writtenAlias]
    exact .append (.refl _) (.cons (.level (each ⟨e, binding⟩ (by simp)))
      (ih fun key member => each key (by simp [member])))

theorem Query.script_alike {q : Query}
    (children : ∀ n ∈ q.children, Alike (n.outline.script s) (n.script s)) :
    Alike (q.outline.script s) (q.script s) := by
  obtain ⟨body, topLevel⟩ := q
  cases body with
  | select query =>
    simp only [Query.outline,Expr.outline,Query.script_eq]
    exact .level (children (.select query) (by simp [Query.children]))
  | _ => exact .refl _

/-- The scripts of a node and of its outline differ only in what stands in strings. -/
theorem Node.script_alike (n : Node) : Alike (n.outline.script s) (n.script s) := by
  induction n using Node.induction with
  | step n children =>
  cases n with
  | statement value =>
    cases value with
    | query value => exact Query.script_alike children
    | _ => exact .refl _
  | query value => exact Query.script_alike children
  | expr value => exact Expr.script_alike children
  | literal value => exact value.script_alike
  | operator operands operators => exact Operator.script_alike children
  | select value => exact Select.script_alike children
  | setOperation value => exact SetOperation.script_alike children
  | block value => exact Block.script_alike children
  | selectClause value =>
    obtain ⟨distinct, body⟩ := value
    simp only [Node.outline,SelectClause.outline,Node.script,SelectClause.script_eq,
      SelectBody.node_outline]
    exact .append (.refl _) (.level (children _ (by simp [Node.children])))
  | selectRegular projections =>
    simp only [Node.outline,Node.script,Projection.scripts_eq,Projection.outlines_eq]
    have nodes : (projections.map Projection.outline).map Node.projection =
        (projections.map Node.projection).map Node.outline := by
      simp [Node.outline]
    rw [nodes]
    exact .actions children
  | projection value =>
    obtain ⟨_ | e, name, star⟩ := value
    · cases star <;> exact .refl _
    · simp only [Node.outline,Projection.outline,Expr.outlineOf,Node.script,Projection.script,
        Expr.outline_writtenAlias]
      exact .append (.refl _) (.level (children (.expr e) (by simp [Node.children])))
  | fromClause terms =>
    simp only [Node.outline,Node.script,FromTerm.scripts_eq,FromTerm.outlines_eq]
    have nodes : (terms.map FromTerm.outline).map Node.fromTerm =
        (terms.map Node.fromTerm).map Node.outline := by
      simp [Node.outline]
    rw [nodes]
    exact .node _ (.actions children)
  | fromTerm value => exact FromTerm.script_alike children
  | correlate value =>
    simp only [Node.outline,Node.script,Correlate.outline_kind]
    exact .refl _
  | whereClause test | havingClause test =>
    exact .node _ (.level (children (.expr test) (by simp [Node.children])))
  | groupBy value =>
    obtain ⟨keys, _ | groupVariable⟩ := value
    · simp only [Node.outline,Grouping.outline,Node.script,Grouping.script]
      exact .node _ (GroupKey.scripts_alike fun key member =>
        children (.expr key.expr) (List.mem_map.mpr ⟨key, member, rfl⟩))
    · exact .refl _
  | var | selectElement | orderBy | limit | letClause => exact .refl _

theorem Node.trace_outline_eq {n m : Node} (same : n.outline = m.outline) (limit depth : Nat) :
    ((n.action s).trace limit depth).outline = ((m.action s).trace limit depth).outline := by
  have outlined (k : Node) : ((k.outline.action s).trace limit depth).outline =
      ((k.action s).trace limit depth).outline := by
    have alike := (Alike.level (k.script_alike (s := s))).trace limit depth
    rwa [Script.trace_singleton,Script.trace_singleton] at alike
  rw [← outlined n,← outlined m,same]

theorem Node.tokens_of_encoded {n : Node} {text : String} (encoded : n.encoded s = .ok text) :
    ((n.action s).trace s.maxDepth 0).tokens = Sexpr.tokensOf (n.forest s) := by
  rw [Node.encoded_eq] at encoded
  split at encoded
  next finished => exact (Node.Encodable.of_stop finished).action_tokens finished
  next => cases encoded

end

/-- Two queries that differ only in what stands in string literals and in the names of fields are
refused alike, and are encoded by trees that differ only in what stands in strings. -/
theorem Query.encoding_keeps_outline (s : Settings) (names : s.HasTokenNames) (q r : Query)
    (same : q.outline = r.outline) :
    (∀ stop, (Node.query q).encoded s = .error stop ↔ (Node.query r).encoded s = .error stop) ∧
    ∀ text other, (Node.query q).encoded s = .ok text → (Node.query r).encoded s = .ok other →
      ∃ t u, Sexpr.read text = .ok t ∧ Sexpr.read other = .ok u ∧ t.outline = u.outline := by
  have nodes : (Node.query q).outline = (Node.query r).outline := congrArg Node.query same
  have traces := Node.trace_outline_eq (s := s) nodes s.maxDepth 0
  constructor
  · intro stop
    have stops := congrArg Trace.stop traces
    simp only [Trace.outline] at stops
    rw [Node.encoded_eq,Node.encoded_eq,stops]
    cases (((Node.query r).action s).trace s.maxDepth 0).stop <;> simp
  · intro text other encoded otherEncoded
    obtain ⟨t, wellFormed, single, read⟩ := Query.read_of_encoded names encoded
    obtain ⟨u, otherWellFormed, otherSingle, otherRead⟩ :=
      Query.read_of_encoded names otherEncoded
    refine ⟨t, u, read, otherRead, Sexpr.outline_eq_of_tokens wellFormed otherWellFormed ?_⟩
    have tokens := congrArg Trace.tokens traces
    simp only [Trace.outline,Node.tokens_of_encoded encoded,Node.tokens_of_encoded otherEncoded,
      Node.forest,single,otherSingle] at tokens
    simpa using tokens

/-- SELECT "text".name FROM t -/
def Query.Sample.selectFieldOf (text name : String) : Query :=
  .ofBlock (.of (.regular [.unnamed (.field (.text text) name)]) [.table "$t" "$t"])

/-- A name that could close nodes and a text that could hide the end of its string. -/
theorem Query.encoding_keeps_outline_hostile :
    let q := Sample.selectFieldOf "a" "b"
    let r := Sample.selectFieldOf "\\" "\" ) ("
    let text := "(query (select (dot \"b\" \"a\" ) ) (from (table \"t\" ) ) )"
    let other := "(query (select (dot \"\\\" ) (\" \"\\\\\" ) ) (from (table \"t\" ) ) )"
    ({} : Settings).HasTokenNames ∧ q.outline = r.outline ∧
    (Node.query q).encoded {} = .ok text ∧ (Node.query r).encoded {} = .ok other ∧
    (∃ t u, Sexpr.read text = .ok t ∧ Sexpr.read other = .ok u ∧ t.outline = u.outline) ∧
    (Node.query q).encoded { maxDepth := 3 } = .error (.rejected (.tooDeep 4 3)) ∧
    (Node.query r).encoded { maxDepth := 3 } = .error (.rejected (.tooDeep 4 3)) := by
  intro q r text other
  have names : ({} : Settings).HasTokenNames := by decide
  have same : q.outline = r.outline := rfl
  have encoded : (Node.query q).encoded {} = .ok text := by decide +kernel
  have otherEncoded : (Node.query r).encoded {} = .ok other := by decide +kernel
  have refused : (Node.query q).encoded { maxDepth := 3 } = .error (.rejected (.tooDeep 4 3)) := by
    decide +kernel
  have trees := (Query.encoding_keeps_outline {} names q r same).2 text other encoded otherEncoded
  have alike := (Query.encoding_keeps_outline { maxDepth := 3 } names q r same).1
  exact ⟨names, same, encoded, otherEncoded, trees, refused, (alike _).mp refused⟩

end QueryLowering
