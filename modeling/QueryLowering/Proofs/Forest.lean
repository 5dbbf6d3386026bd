import QueryLowering.Proofs.Walk
import QueryLowering.Query.Sample

/-! The trees that a query tree stands for, one after the other, and that an encoding writes them.

| node | trees |
|---|---|
| block | `query` around `select`, `from` and, if they are there, `where`, `groupBy` and `having` |
| set operation | its right operands from left to right, each around all that is to its left |
| FROM term | `table` or the trees of its source, inside `aliasAs` when the name differs |
| projection, group key | the trees of its expression, behind `as` when the name differs |

What has no encoding stands for no tree. Which names are written is specified here too, and not taken
from the encoding. -/
namespace QueryLowering

open Sexpr (Token textOf tokensOf)

namespace Sexpr

def distinctMark (distinct : Bool) : List Sexpr :=
  if distinct then [.node "distinct" []] else []

def aliasMark : Option String → List Sexpr
  | none => []
  | some name => [.node "as" [.string name]]

def aliasAround (inner : List Sexpr) : Option String → List Sexpr
  | none => inner
  | some name => [.node "aliasAs" (.string name :: inner)]

end Sexpr

/-- The name as the author of the query wrote it: without the `$` in front, if there is one. -/
def Variable.bareName (v : Variable) : String :=
  if v.name.toList.head? = some '$' then String.ofList v.name.toList.tail else v.name

/-- The expression is an occurrence of the variable with this bare name, and nothing else about the
variable has to be told. -/
def Expr.HasName (e : Expr) (name : String) : Prop := e = .var (.ofName ("$" ++ name))

instance (e : Expr) (name : String) : Decidable (e.HasName name) :=
  decidable_of_iff (e.asVariable? = some (.ofName ("$" ++ name)))
    (by cases e <;> simp [Expr.asVariable?,Expr.HasName])

/-- The name of a column or a key, unless the expression has it anyway. -/
def Expr.neededName (e : Expr) : Option String → Option String
  | none => none
  | some name => if e.HasName name then none else some name

/-- The name that a source is bound to, unless the source has it anyway. A binding that is the name of
a field is told in any case. -/
def Variable.neededName (binding : Variable) (source : Expr) : Option String :=
  if binding.identifier.isNamedValue = false ∧ source.HasName binding.bareName then none
  else some binding.bareName

section Names

variable (e : Expr) (v : Variable)

/-- The encoding takes off the mark, and only that. -/
theorem Variable.plainName_eq_bareName : v.plainName = v.bareName := by
  rw [plainName,unmark,bareName]
  cases chars : v.name.toList with
  | nil => rfl
  | cons c rest =>
    by_cases mark : c = '$' <;> simp [mark]

theorem Variable.bareName_ofName (name : String) :
    (Variable.ofName ("$" ++ name)).bareName = name := by
  simp [bareName,Variable.name,ofName]

theorem Expr.isDistinctFrom_eq_false_iff (name : String) :
    e.isDistinctFrom name = false ↔ e.HasName name := by
  cases e with
  | var v =>
    obtain ⟨⟨own, isNamedValue⟩, isNew⟩ := v
    simp only [isDistinctFrom,asVariable?,HasName,Variable.name,Variable.ofName,
      Bool.or_eq_false_iff,bne_eq_false_iff_eq,Expr.var.injEq,Variable.mk.injEq,Identifier.mk.injEq]
    tauto
  | _ => simp [isDistinctFrom,asVariable?,HasName]

/-- The encoding leaves out just the names that say nothing new. -/
theorem Expr.writtenAlias_eq_neededName (name : Option String) :
    e.writtenAlias name = e.neededName name := by
  cases name with
  | none => rfl
  | some name =>
    rw [writtenAlias,neededName,Option.filter_some]
    by_cases has : e.HasName name
    · rw [(e.isDistinctFrom_eq_false_iff name).mpr has,if_pos has]
      rfl
    · rw [if_neg has,if_pos]
      rwa [← e.isDistinctFrom_eq_false_iff,Bool.not_eq_false] at has

theorem Variable.neededName_eq (binding : Variable) (source : Expr) :
    binding.neededName source =
      if binding.isDistinctFrom source then some binding.plainName else none := by
  have omitted : binding.isDistinctFrom source = false ↔
      binding.identifier.isNamedValue = false ∧ source.HasName binding.bareName := by
    rw [isDistinctFrom,Bool.or_eq_false_iff,Expr.isDistinctFrom_eq_false_iff,plainName_eq_bareName]
  rw [neededName,plainName_eq_bareName]
  by_cases told : binding.isDistinctFrom source = true
  · rw [if_pos told,if_neg]
    rw [← omitted,told]
    exact Bool.noConfusion
  · rw [if_neg told,if_pos (omitted.mp (Bool.eq_false_iff.mpr told))]

end Names

def Literal.forest : Literal → List Sexpr
  | integer value => [.atom (toString value.toInt)]
  | long value => [.atom (toString value.toInt)]
  | string value => [.string value]
  | .true => [.atom "true"]
  | .false => [.atom "false"]
  | double _ | float _ | null | missing => []

def Variable.forest (v : Variable) : List Sexpr := [.node "ref" [.string v.bareName]]

/-- The trees of both sides under the operator, behind its mark. -/
def SetOperator.joined (op : SetOperator) (distinct : Bool) (left right : List Sexpr) :
    List Sexpr :=
  match op.tag? with
  | some tag => [.node "query" [.node tag (Sexpr.distinctMark distinct ++ (left ++ right))]]
  | none => []

mutual
def Expr.forest (s : Settings) : Expr → List Sexpr
  | .literal value => value.forest
  | .var value => value.forest
  | .operator [left, right] [op] =>
    match s.operatorNames.name? op with
    | some name => [.node name (left.forest s ++ right.forest s)]
    | none => []
  | .field base name => [.node "dot" (.string name :: base.forest s)]
  | .select query => query.forest s
  | _ => []
def Select.forest (s : Settings) : Select → List Sexpr
  | ⟨_, body, _, _, _⟩ => body.forest s
def SetOperation.forest (s : Settings) : SetOperation → List Sexpr
  | ⟨left, rights⟩ => RightOperand.forest s (left.forest s) rights
def Operand.forest (s : Settings) : Operand → List Sexpr
  | .block value => value.forest s
  | .subquery query => query.forest s
/-- All right operands, when `left` is what stands to the left of the first one. -/
def RightOperand.forest (s : Settings) (left : List Sexpr) : List RightOperand → List Sexpr
  | [] => left
  | ⟨op, distinct, input⟩ :: rest =>
    RightOperand.forest s (op.joined distinct left (input.forest s)) rest
def Block.forest (s : Settings) : Block → List Sexpr
  | ⟨_, none, _, _, _⟩ => []
  | ⟨clause, some terms, whereTest, groupBy, havingTest⟩ =>
    [.node "query" (.node "select" (clause.forest s) :: .node "from" (FromTerm.forests s terms) ::
      (Expr.clauseForest s "where" whereTest ++ (Grouping.clauseForest s groupBy ++
        Expr.clauseForest s "having" havingTest)))]
def Expr.clauseForest (s : Settings) (tag : String) : Option Expr → List Sexpr
  | none => []
  | some test => [.node tag (test.forest s)]
def Grouping.clauseForest (s : Settings) : Option Grouping → List Sexpr
  | none => []
  | some grouping => grouping.forest s
def SelectClause.forest (s : Settings) : SelectClause → List Sexpr
  | ⟨_, .element _⟩ => []
  | ⟨distinct, .regular projections⟩ =>
    Sexpr.distinctMark distinct ++ Projection.forests s projections
def Projection.forests (s : Settings) : List Projection → List Sexpr
  | [] => []
  | p :: rest => p.forest s ++ Projection.forests s rest
def Projection.forest (s : Settings) : Projection → List Sexpr
  | ⟨some e, name, _⟩ => Sexpr.aliasMark (e.neededName name) ++ e.forest s
  | ⟨none, _, true⟩ => [.node "all" []]
  | ⟨none, _, false⟩ => []
def FromTerm.forests (s : Settings) : List FromTerm → List Sexpr
  | [] => []
  | t :: rest => t.forest s ++ FromTerm.forests s rest
def FromTerm.forest (s : Settings) : FromTerm → List Sexpr
  | ⟨source, binding, _, _⟩ =>
    let inner : List Sexpr :=
      match source.asVariable? with
      | some v => [.node "table" [.string v.bareName]]
      | none => source.forest s
    Sexpr.aliasAround inner (binding.neededName source)
def Grouping.forest (s : Settings) : Grouping → List Sexpr
  | ⟨keys, _⟩ => [.node "groupBy" (GroupKey.forests s keys)]
def GroupKey.forests (s : Settings) : List GroupKey → List Sexpr
  | [] => []
  | ⟨e, binding⟩ :: rest =>
    Sexpr.aliasMark (e.neededName (binding.map Variable.bareName)) ++
      (e.forest s ++ GroupKey.forests s rest)
end

def Query.forest (s : Settings) (q : Query) : List Sexpr :=
  match q.body with
  | .select query => query.forest s
  | _ => []

def Statement.forest (s : Settings) : Statement → List Sexpr
  | query q => q.forest s
  | _ => []

def Node.forest (s : Settings) : Node → List Sexpr
  | statement value => value.forest s
  | query value => value.forest s
  | expr value => value.forest s
  | literal value => value.forest
  | var value => value.forest
  | operator operands operators => (Expr.operator operands operators).forest s
  | select value => value.forest s
  | setOperation value => value.forest s
  | block value => value.forest s
  | selectClause value => value.forest s
  | selectRegular projections => Projection.forests s projections
  | projection value => value.forest s
  | fromClause terms => [.node "from" (FromTerm.forests s terms)]
  | fromTerm value => value.forest s
  | whereClause test => [.node "where" (test.forest s)]
  | groupBy value => value.forest s
  | havingClause test => [.node "having" (test.forest s)]
  | selectElement _ | correlate _ | orderBy _ | limit _ | letClause _ _ => []

/-- Every operator name is a token. -/
def Settings.HasTokenNames (s : Settings) : Prop :=
  ∀ op name, s.operatorNames.name? op = some name → Sexpr.IsToken name

instance (s : Settings) : Decidable s.HasTokenNames :=
  decidable_of_iff (∀ op ∈ Operator.all, ∀ name ∈ s.operatorNames.name? op, Sexpr.IsToken name)
    ⟨fun each op name named => each op op.mem_all name named,
      fun each op _ name named => each op name named⟩

theorem Settings.HasTokenNames.isToken {s : Settings} (names : s.HasTokenNames) {tag : String}
    (allowed : s.IsTag tag) : Sexpr.IsToken tag := by
  rcases allowed with fixed | ⟨op, named⟩
  · have words : ∀ word ∈ Sexpr.fixedTags, Sexpr.IsToken word := by decide
    exact words tag fixed
  · exact names op tag named

/-- A script that writes these trees, one after the other. -/
inductive Script.Writes (s : Settings) : Script → List Sexpr → Prop
  | nil : Writes s [] []
  | atom {text : String} (token : Sexpr.IsToken text) :
      Writes s [.write (.atom text)] [.atom text]
  | string (text : String) : Writes s [.write (.string text)] [.string text]
  | node {tag : String} {body : Script} {trees : List Sexpr} (allowed : s.IsTag tag)
      (inner : Writes s body trees) : Writes s (Script.node tag body) [.node tag trees]
  | level {body : Script} {trees : List Sexpr} (inner : Writes s body trees) :
      Writes s [.level body] trees
  | append {first second : Script} {left right : List Sexpr} (onLeft : Writes s first left)
      (onRight : Writes s second right) : Writes s (first ++ second) (left ++ right)

theorem Projection.forests_eq (s : Settings) (projections : List Projection) :
    Projection.forests s projections = (projections.map .projection).flatMap (Node.forest s) := by
  induction projections with
  | nil => simp [Projection.forests]
  | cons p rest ih =>
    rw [Projection.forests,ih]
    rfl

theorem FromTerm.forests_eq (s : Settings) (terms : List FromTerm) :
    FromTerm.forests s terms = (terms.map .fromTerm).flatMap (Node.forest s) := by
  induction terms with
  | nil => simp [FromTerm.forests]
  | cons t rest ih =>
    rw [FromTerm.forests,ih]
    rfl

theorem Operand.forest_eq (s : Settings) (o : Operand) : o.forest s = o.node.forest s := by
  cases o <;> simp [Operand.forest,Operand.node,Node.forest]

/-- The right operands are taken in from left to right. -/
theorem RightOperand.forest_eq (s : Settings) (left : List Sexpr) (rights : List RightOperand) :
    RightOperand.forest s left rights =
      rights.foldl (fun left r => r.op.joined r.distinct left (r.input.node.forest s)) left := by
  induction rights generalizing left with
  | nil => simp [RightOperand.forest]
  | cons r rest ih =>
    obtain ⟨op, distinct, input⟩ := r
    rw [RightOperand.forest,ih,List.foldl_cons,Operand.forest_eq]

theorem SetOperation.forest_eq (s : Settings) (o : SetOperation) :
    o.forest s = RightOperand.forest s (o.left.node.forest s) o.rights := by
  obtain ⟨left, rights⟩ := o
  rw [SetOperation.forest,Operand.forest_eq]

theorem Block.forest_eq (s : Settings) (clause : SelectClause) (terms : List FromTerm)
    (whereTest : Option Expr) (groupBy : Option Grouping) (havingTest : Option Expr) :
    Block.forest s ⟨clause, some terms, whereTest, groupBy, havingTest⟩ =
      [.node "query" (.node "select" (clause.forest s) ::
        (Block.mk clause (some terms) whereTest groupBy havingTest).children.tail.flatMap
          (Node.forest s))] := by
  rw [Block.forest]
  cases whereTest <;> cases groupBy <;> cases havingTest <;>
    simp [Expr.clauseForest,Grouping.clauseForest,Block.children,Node.forest]

/-- The trees of the source of a FROM term, without the name it is bound to. -/
def Expr.sourceForest (s : Settings) (source : Expr) : List Sexpr :=
  match source.asVariable? with
  | some v => [.node "table" [.string v.bareName]]
  | none => source.forest s

theorem FromTerm.forest_eq (s : Settings) (t : FromTerm) :
    t.forest s =
      Sexpr.aliasAround (t.source.sourceForest s) (t.binding.neededName t.source) := by
  obtain ⟨source, binding, position, correlates⟩ := t
  rw [FromTerm.forest]
  rfl

namespace Script.Writes

variable {s : Settings}

theorem cons {a : Action} {rest : Script} {left right : List Sexpr} (first : Writes s [a] left)
    (others : Writes s rest right) : Writes s (a :: rest) (left ++ right) :=
  first.append others

theorem fixed {tag : String} {body : Script} {trees : List Sexpr}
    (member : tag ∈ Sexpr.fixedTags) (inner : Writes s body trees) :
    Writes s (Script.node tag body) [.node tag trees] :=
  .node (.inl member) inner

theorem distinctMark (distinct : Bool) :
    Writes s (Script.distinctMark distinct) (Sexpr.distinctMark distinct) := by
  cases distinct
  · exact .nil
  · exact .fixed (by decide) .nil

theorem aliasMark (e : Expr) (name : Option String) :
    Writes s (Script.aliasMark (e.writtenAlias name)) (Sexpr.aliasMark (e.neededName name)) := by
  rw [e.writtenAlias_eq_neededName]
  cases e.neededName name
  · exact .nil
  · exact .fixed (by decide) (.string _)

theorem actions {nodes : List Node} (each : ∀ n ∈ nodes, Writes s (n.script s) (n.forest s)) :
    Writes s (nodes.map (Node.action s)) (nodes.flatMap (Node.forest s)) := by
  induction nodes with
  | nil => exact .nil
  | cons n rest ih =>
    exact .cons (.level (each n (by simp))) (ih fun m member => each m (by simp [member]))

/-- A script that writes trees writes all their tokens unless it stops. -/
theorem tokens {script : Script} {trees : List Sexpr} (writes : Writes s script trees)
    {limit depth : Nat} (finished : (Script.trace limit depth script).stop = none) :
    (Script.trace limit depth script).tokens = tokensOf trees := by
  induction writes generalizing depth with
  | nil => simp
  | atom token => simp [Action.trace,Sexpr.tokens]
  | string text => simp [Action.trace,Sexpr.tokens]
  | node allowed _ ih =>
    rw [Script.node_stop] at finished
    simp [Script.node,Action.trace,Trace.andThen,finished,ih finished,Sexpr.tokens]
  | level _ ih =>
    rw [Script.trace_singleton,Action.trace] at finished ⊢
    split at finished
    · cases finished
    next shallow =>
      rw [if_neg shallow]
      exact ih finished
  | append _ _ ihLeft ihRight =>
    rw [Script.trace_append,Trace.andThen_stop,Option.or_eq_none_iff] at finished
    rw [Script.trace_append,Trace.andThen_of_stop_none _ finished.1,Sexpr.tokensOf_append,
      ihLeft finished.1,ihRight finished.2]

/-- Trees that a script writes are well formed if all operators have tokens for names. -/
theorem wellFormed {script : Script} {trees : List Sexpr} (writes : Writes s script trees)
    (names : s.HasTokenNames) : ∀ t ∈ trees, t.WellFormed := by
  induction writes with
  | nil => simp
  | atom token => simpa [Sexpr.WellFormed] using token
  | string text => simp [Sexpr.WellFormed]
  | node allowed _ ih => simpa [Sexpr.WellFormed] using ⟨names.isToken allowed, ih⟩
  | level _ ih => exact ih
  | append _ _ ihLeft ihRight =>
    intro t member
    rcases List.mem_append.mp member with onLeft | onRight
    · exact ihLeft t onLeft
    · exact ihRight t onRight

end Script.Writes

section

open Script (Writes)

variable {s : Settings}

theorem Literal.script_writes {l : Literal} (passed : l.fault? = none) :
    Writes s l.script l.forest := by
  cases l with
  | integer value => exact .atom (Sexpr.isToken_toString _)
  | long value => exact .atom (Sexpr.isToken_toString _)
  | string value => exact .string value
  | «true» => exact .atom (by decide)
  | «false» => exact .atom (by decide)
  | _ => cases passed

theorem Variable.script_writes (v : Variable) : Writes s v.script v.forest := by
  rw [Variable.script,Variable.plainName_eq_bareName]
  exact .fixed (by decide) (.string _)

theorem Operator.script_writes {operands : List Expr} {operators : List Operator}
    (passed : Operator.fault? s operands operators = none)
    (children : ∀ n ∈ (Expr.operator operands operators).children,
      Writes s (n.script s) (n.forest s)) :
    Writes s ((Expr.operator operands operators).script s)
      ((Expr.operator operands operators).forest s) := by
  obtain ⟨left, right, op, name, rfl, rfl, named⟩ := Operator.of_passed passed
  have onLeft := children (.expr left) (by simp [Expr.children])
  have onRight := children (.expr right) (by simp [Expr.children])
  simp only [Expr.script,Expr.forest,named]
  exact .node (.inr ⟨op, named⟩) (.cons (.level onLeft) (.level onRight))

theorem Select.script_writes {q : Select} (encodable : ∀ n ∈ q.children, n.Encodable s)
    (children : ∀ n ∈ q.children, Writes s (n.script s) (n.forest s)) :
    Writes s (q.script s) (q.forest s) := by
  have written := Writes.actions children
  rw [← Select.script_eq] at written
  rw [Select.eq_of_encodable encodable] at written ⊢
  simpa [Select.children,Select.forest,Node.forest] using written

theorem Expr.script_writes {e : Expr} (passed : e.fault? s = none)
    (encodable : ∀ n ∈ e.children, n.Encodable s)
    (children : ∀ n ∈ e.children, Writes s (n.script s) (n.forest s)) :
    Writes s (e.script s) (e.forest s) := by
  cases e with
  | literal value =>
    rw [Expr.script,Expr.forest]
    exact Literal.script_writes passed
  | var value =>
    rw [Expr.script,Expr.forest]
    exact value.script_writes
  | operator operands operators => exact Operator.script_writes passed children
  | field base name =>
    rw [Expr.script,Expr.forest]
    exact .fixed (by decide)
      (.cons (.string name) (.level (children (.expr base) (by simp [Expr.children]))))
  | select query =>
    rw [Expr.script,Expr.forest]
    exact Select.script_writes encodable children
  | _ => cases passed

theorem RightOperand.around_writes {r : RightOperand} {left : Script} {trees : List Sexpr}
    (onLeft : Writes s left trees)
    (onRight : Writes s (r.input.node.script s) (r.input.node.forest s)) :
    Writes s (r.around s left) (r.op.joined r.distinct trees (r.input.node.forest s)) := by
  unfold RightOperand.around SetOperator.joined
  cases tagged : r.op.tag? with
  | none => exact .nil
  | some tag =>
    rw [Operand.script_eq]
    exact .fixed (by decide) (.fixed (SetOperator.tag?_fixed tagged)
      (.append (.distinctMark _) (.append onLeft (.level onRight))))

/-- Right operands close around what is to their left in the order in which trees take them in. -/
theorem RightOperand.foldl_around_writes {rights : List RightOperand} {left : Script}
    {trees : List Sexpr} (onLeft : Writes s left trees)
    (onRights : ∀ r ∈ rights, Writes s (r.input.node.script s) (r.input.node.forest s)) :
    Writes s (rights.foldl (RightOperand.around s) left) (RightOperand.forest s trees rights) := by
  rw [RightOperand.forest_eq]
  -- Both folds take the first right operand in first, so what is to the left varies together.
  induction rights generalizing left trees with
  | nil => exact onLeft
  | cons r rest ih =>
    exact ih (RightOperand.around_writes onLeft (onRights r (by simp)))
      fun r member => onRights r (by simp [member])

theorem SetOperation.script_writes {o : SetOperation} (passed : o.fault? s = none)
    (children : ∀ n ∈ o.children, Writes s (n.script s) (n.forest s)) :
    Writes s (o.script s) (o.forest s) := by
  rw [SetOperation.script_of_passed passed,SetOperation.forest_eq]
  apply RightOperand.foldl_around_writes
  · exact .level (children o.left.node (by simp [SetOperation.children]))
  · intro r member
    apply children
    simp only [SetOperation.children,List.mem_cons,List.mem_map]
    exact .inr ⟨r, member, rfl⟩

theorem Block.script_writes {b : Block} (passed : (Node.block b).fault? s = none)
    (children : ∀ n ∈ b.children, Writes s (n.script s) (n.forest s)) :
    Writes s (b.script s) (b.forest s) := by
  obtain ⟨clause, _ | terms, whereTest, groupBy, havingTest⟩ := b
  · cases passed
  · rw [Block.script_eq,Block.forest_eq]
    have onSelect := children (.selectClause clause) (by simp [Block.children])
    exact .fixed (by decide) (.append (.fixed (by decide) (.level onSelect))
      (.actions fun n member => children n (List.mem_of_mem_tail member)))

theorem FromTerm.script_writes {t : FromTerm} (passed : t.fault? = none)
    (children : ∀ n ∈ t.children, Writes s (n.script s) (n.forest s)) :
    Writes s (t.script s) (t.forest s) := by
  obtain ⟨source, binding, _ | position, _ | ⟨c, correlates⟩⟩ := t
  · have inner : Writes s (source.sourceScript s) (source.sourceForest s) := by
      unfold Expr.sourceScript Expr.sourceForest
      cases named : source.asVariable? with
      | none => exact .level (children (.expr source) (by simp [FromTerm.children,named]))
      | some v =>
        simp only [Variable.plainName_eq_bareName]
        exact .fixed (by decide) (.string _)
    rw [FromTerm.script_eq,FromTerm.forest_eq,Variable.neededName_eq]
    by_cases told : binding.isDistinctFrom source = true
    · rw [if_pos told,if_pos told]
      exact .fixed (by decide) (.cons (.string _) inner)
    · rw [if_neg told,if_neg told]
      exact inner
  all_goals cases passed

theorem GroupKey.scripts_writes {keys : List GroupKey}
    (each : ∀ key ∈ keys, Writes s (key.expr.script s) (key.expr.forest s)) :
    Writes s (GroupKey.scripts s keys) (GroupKey.forests s keys) := by
  induction keys with
  | nil =>
    rw [GroupKey.scripts,GroupKey.forests]
    exact .nil
  | cons key rest ih =>
    obtain ⟨e, binding⟩ := key
    rw [GroupKey.scripts,GroupKey.forests,← funext Variable.plainName_eq_bareName]
    exact .append (.aliasMark e _) (.cons (.level (each ⟨e, binding⟩ (by simp)))
      (ih fun key member => each key (by simp [member])))

theorem Query.script_writes {q : Query} (passed : q.fault? = none)
    (children : ∀ n ∈ q.children, Writes s (n.script s) (n.forest s)) :
    Writes s (q.script s) (q.forest s) := by
  obtain ⟨body, topLevel⟩ := q
  cases body with
  | select query =>
    rw [Query.script_eq]
    exact .level (children (.select query) (by simp [Query.children]))
  | _ => cases passed

/-- The script of a node that can be encoded writes the trees of the node. -/
theorem Node.Encodable.script_writes {n : Node} (encodable : n.Encodable s) :
    Writes s (n.script s) (n.forest s) := by
  induction encodable with
  | @intro n passed below children =>
  cases n with
  | statement value =>
    cases value with
    | query value => exact Query.script_writes passed children
    | _ => cases passed
  | query value => exact Query.script_writes passed children
  | expr value => exact Expr.script_writes passed below children
  | literal value => exact Literal.script_writes passed
  | var value => exact value.script_writes
  | operator operands operators => exact Operator.script_writes passed children
  | select value => exact Select.script_writes below children
  | setOperation value => exact SetOperation.script_writes passed children
  | block value => exact Block.script_writes passed children
  | selectClause value =>
    obtain ⟨distinct, value | projections⟩ := value
    · cases (below (.selectElement value) (by simp [Node.children,SelectBody.node])).passed
    · simp only [Node.script,SelectClause.script,Node.forest,SelectClause.forest]
      exact .append (.distinctMark _) (.level
        (children (.selectRegular projections) (by simp [Node.children,SelectBody.node])))
  | selectRegular projections =>
    simp only [Node.script,Projection.scripts_eq,Node.forest,Projection.forests_eq]
    exact .actions children
  | projection value =>
    obtain ⟨_ | e, name, star⟩ := value
    · cases star with
      | false => cases passed
      | true => exact .fixed (by decide) .nil
    · simp only [Node.script,Projection.script,Node.forest,Projection.forest]
      exact .append (.aliasMark e _) (.level (children (.expr e) (by simp [Node.children])))
  | fromClause terms =>
    simp only [Node.script,FromTerm.scripts_eq,Node.forest,FromTerm.forests_eq]
    exact .fixed (by decide) (.actions children)
  | fromTerm value => exact FromTerm.script_writes passed children
  | whereClause test | havingClause test =>
    exact .fixed (by decide) (.level (children (.expr test) (by simp [Node.children])))
  | groupBy value =>
    obtain ⟨keys, _ | groupVariable⟩ := value
    · simp only [Node.script,Grouping.script,Node.forest,Grouping.forest]
      exact .fixed (by decide) (GroupKey.scripts_writes fun key member =>
        children (.expr key.expr) (List.mem_map.mpr ⟨key, member, rfl⟩))
    · cases passed
  | selectElement | correlate | orderBy | limit | letClause => cases passed

end

theorem Node.Encodable.action_tokens {s : Settings} {n : Node} (encodable : n.Encodable s)
    {limit depth : Nat} (finished : ((n.action s).trace limit depth).stop = none) :
    ((n.action s).trace limit depth).tokens = tokensOf (n.forest s) := by
  rw [← Script.trace_singleton] at finished ⊢
  exact (Script.Writes.level encodable.script_writes).tokens finished

/-- A node that is encoded into a context adds the text of its trees to what was written there, just
as writing the trees would, and nothing else of the context changes. -/
theorem Node.encode_writes_forest (s : Settings) (n : Node) (c : Context)
    (succeeded : (n.encode s c).stop = none) :
    (n.encode s c).context = { c with writer :=
      { c.writer with text := c.writer.text ++ textOf (tokensOf (n.forest s)) } } ∧
    c.writer.writeAll? (tokensOf (n.forest s)) = some (n.encode s c).context.writer := by
  obtain ⟨opened, encoded, closed⟩ := n.encode_eq s c
  rw [encoded,Context.after_stop,Option.map_eq_none_iff] at succeeded
  have encodable : n.Encodable s := .of_stop succeeded
  have written : ((n.action s).trace c.limit c.depth).tokens = tokensOf (n.forest s) :=
    encodable.action_tokens succeeded
  rw [encoded,closed succeeded,Sexpr.Writer.writeAll?_tokensOf]
  simp [Context.after,written]

/-- A query with two right operands, encoded inside a node that is open already. -/
theorem Node.encode_writes_forest_twoRights :
    ((Node.query Query.Sample.twoRights).encode { maxRights := 2 }
      { writer := ⟨"(outer ", 1⟩, depth := 3 }).stop = none ∧
    ((Node.query Query.Sample.twoRights).encode { maxRights := 2 }
      { writer := ⟨"(outer ", 1⟩, depth := 3 }).context.writer =
      ⟨"(outer " ++ textOf (tokensOf ((Node.query Query.Sample.twoRights).forest
        { maxRights := 2 })), 1⟩ := by
  have succeeded : ((Node.query Query.Sample.twoRights).encode { maxRights := 2 }
      { writer := ⟨"(outer ", 1⟩, depth := 3 }).stop = none := by decide +kernel
  exact ⟨succeeded, by rw [(Node.encode_writes_forest _ _ _ succeeded).1]⟩

end QueryLowering
