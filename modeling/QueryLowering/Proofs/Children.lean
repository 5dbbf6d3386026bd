import QueryLowering.Encoding.Plan

/-! The nodes that the encoding of a node goes on to, in order, and induction along them. -/
namespace QueryLowering

def Operand.node : Operand → Node
  | block value => .block value
  | subquery query => .select query

def SelectBody.node : SelectBody → Node
  | element value => .selectElement value
  | regular projections => .selectRegular projections

/-- Of LET bindings only the first is ever looked at. -/
def Select.children : Select → List Node
  | ⟨(binding, value) :: _, _, _, _, _⟩ => [.letClause binding value]
  | ⟨[], body, orderBy, limit, _⟩ =>
    .setOperation body :: (orderBy.toList.map .orderBy ++ limit.toList.map .limit)

def Expr.children : Expr → List Node
  | .operator [left, right] [_] => [.expr left, .expr right]
  | .field base _ => [.expr base]
  | .select query => query.children
  | _ => []

def SetOperation.children (o : SetOperation) : List Node :=
  o.left.node :: o.rights.map fun r => r.input.node

def Block.children (b : Block) : List Node :=
  .selectClause b.clause :: (b.fromTerms.toList.map .fromClause ++
    (b.whereTest.toList.map .whereClause ++
    (b.groupBy.toList.map .groupBy ++ b.havingTest.toList.map .havingClause)))

/-- A source that is a variable names a table and is no node of its own. -/
def FromTerm.children (t : FromTerm) : List Node :=
  match t.source.asVariable? with
  | some _ => []
  | none => [.expr t.source]

def Query.children (q : Query) : List Node :=
  match q.body with
  | .select query => [.select query]
  | _ => []

def Node.children : Node → List Node
  | statement (.query value) => value.children
  | statement _ => []
  | query value => value.children
  | expr value => value.children
  | literal _ => []
  | var _ => []
  | operator operands operators => (Expr.operator operands operators).children
  | select value => value.children
  | setOperation value => value.children
  | block value => value.children
  | selectClause value => [value.body.node]
  | selectElement _ => []
  | selectRegular projections => projections.map .projection
  | projection value => value.expr.toList.map .expr
  | fromClause terms => terms.map .fromTerm
  | fromTerm value => value.children
  | correlate _ => []
  | whereClause test => [.expr test]
  | groupBy value => value.keys.map fun key => .expr key.expr
  | havingClause test => [.expr test]
  | orderBy _ => []
  | limit _ => []
  | letClause _ _ => []

/-- A bound on the number of steps down from a node. A test counts for more than its expression. -/
noncomputable def Node.rank : Node → Nat
  | statement value => 2 * sizeOf value
  | query value => 2 * sizeOf value
  | expr value => 2 * sizeOf value
  | operator operands operators => 2 * sizeOf (Expr.operator operands operators)
  | select value => 2 * sizeOf value
  | setOperation value => 2 * sizeOf value
  | block value => 2 * sizeOf value
  | selectClause value => 2 * sizeOf value
  | selectRegular projections => 2 * sizeOf projections
  | projection value => 2 * sizeOf value
  | fromClause terms => 2 * sizeOf terms
  | fromTerm value => 2 * sizeOf value
  | whereClause test => 2 * sizeOf test + 1
  | groupBy value => 2 * sizeOf value
  | havingClause test => 2 * sizeOf test + 1
  | literal _ | var _ | correlate _ | selectElement _ | orderBy _ | limit _ | letClause _ _ => 0

theorem Select.rank_children (q : Select) {child : Node} (member : child ∈ q.children) :
    child.rank < 2 * sizeOf q := by
  obtain ⟨_ | ⟨⟨binding, value⟩, lets⟩, body, orderBy, limit, isSubquery⟩ := q
  · simp only [Select.children,List.mem_cons,List.mem_append,List.mem_map] at member
    rcases member with rfl | ⟨items, _, rfl⟩ | ⟨value, _, rfl⟩ <;> simp [Node.rank]
    omega
  · simp only [Select.children,List.mem_singleton] at member
    subst member
    simp [Node.rank]

theorem Expr.rank_children (e : Expr) {child : Node} (member : child ∈ e.children) :
    child.rank < 2 * sizeOf e := by
  unfold Expr.children at member
  split at member
  next left right op =>
    simp only [List.mem_cons,List.not_mem_nil,or_false] at member
    rcases member with rfl | rfl <;> simp [Node.rank] <;> omega
  next base name =>
    simp only [List.mem_singleton] at member
    subst member
    simp [Node.rank]
    omega
  next query =>
    have := query.rank_children member
    simp
    omega
  next => cases member

theorem Operand.rank_node (o : Operand) : o.node.rank < 2 * sizeOf o := by
  cases o <;> simp [Operand.node,Node.rank]

theorem SetOperation.rank_children (o : SetOperation) {child : Node}
    (member : child ∈ o.children) : child.rank < 2 * sizeOf o := by
  obtain ⟨left, rights⟩ := o
  simp only [SetOperation.children,List.mem_cons,List.mem_map] at member
  rcases member with rfl | ⟨⟨op, distinct, input⟩, member, rfl⟩
  · have := left.rank_node
    simp
    omega
  · have := input.rank_node
    have := List.sizeOf_lt_of_mem member
    simp at this ⊢
    omega

theorem Block.rank_children (b : Block) {child : Node} (member : child ∈ b.children) :
    child.rank < 2 * sizeOf b := by
  obtain ⟨clause, fromTerms, whereTest, groupBy, havingTest⟩ := b
  simp only [Block.children,List.mem_cons,List.mem_append,List.mem_map,
    Option.mem_toList] at member
  rcases member with rfl | ⟨value, rfl, rfl⟩ | ⟨value, rfl, rfl⟩ | ⟨value, rfl, rfl⟩ |
    ⟨value, rfl, rfl⟩ <;> simp [Node.rank] <;> omega

theorem Query.rank_children (q : Query) {child : Node} (member : child ∈ q.children) :
    child.rank < 2 * sizeOf q := by
  obtain ⟨body, topLevel⟩ := q
  unfold Query.children at member
  split at member
  next query same =>
    simp only [List.mem_singleton] at member
    subst member
    simp at same
    simp [Node.rank,same]
    omega
  next => cases member

theorem Node.rank_children (n : Node) {child : Node} (member : child ∈ n.children) :
    child.rank < n.rank := by
  cases n with
  | statement value =>
    cases value with
    | query value =>
      have below : child.rank < 2 * sizeOf value := value.rank_children member
      have inside : sizeOf value < sizeOf (Statement.query value) := by simp
      exact Nat.lt_trans below (Nat.mul_lt_mul_of_pos_left inside Nat.two_pos)
    | _ => cases member
  | query value => exact value.rank_children member
  | expr value => exact value.rank_children member
  | operator operands operators => exact (Expr.operator operands operators).rank_children member
  | select value => exact value.rank_children member
  | setOperation value => exact value.rank_children member
  | block value => exact value.rank_children member
  | selectClause value =>
    obtain ⟨distinct, body⟩ := value
    simp only [Node.children,List.mem_singleton] at member
    subst member
    cases body
    all_goals
      simp only [SelectBody.node,Node.rank,SelectClause.mk.sizeOf_spec,
        SelectBody.element.sizeOf_spec,SelectBody.regular.sizeOf_spec]
      omega
  | selectRegular projections =>
    obtain ⟨p, inside, rfl⟩ := List.mem_map.mp member
    have := List.sizeOf_lt_of_mem inside
    simp [Node.rank]
    omega
  | projection value =>
    obtain ⟨expr, name, star⟩ := value
    obtain ⟨e, inside, rfl⟩ := List.mem_map.mp member
    simp only [Option.mem_toList] at inside
    subst inside
    simp [Node.rank]
    omega
  | fromClause terms =>
    obtain ⟨t, inside, rfl⟩ := List.mem_map.mp member
    have := List.sizeOf_lt_of_mem inside
    simp [Node.rank]
    omega
  | fromTerm value =>
    obtain ⟨source, binding, position, correlates⟩ := value
    simp only [Node.children,FromTerm.children] at member
    split at member
    · cases member
    · simp only [List.mem_singleton] at member
      subst member
      simp [Node.rank]
      omega
  | whereClause test | havingClause test =>
    simp only [Node.children,List.mem_singleton] at member
    subst member
    simp [Node.rank]
  | groupBy value =>
    obtain ⟨keys, groupVariable⟩ := value
    obtain ⟨⟨e, binding⟩, inside, rfl⟩ := List.mem_map.mp member
    have := List.sizeOf_lt_of_mem inside
    simp [Node.rank] at this ⊢
    omega
  | literal | var | selectElement | correlate | orderBy | limit | letClause => cases member

/-- Induction along the steps down from a node. -/
@[elab_as_elim]
theorem Node.induction {motive : Node → Prop}
    (step : ∀ n : Node, (∀ child ∈ n.children, motive child) → motive n) (n : Node) : motive n :=
  step n fun child _ => Node.induction step child
termination_by n.rank
decreasing_by exact n.rank_children ‹_›

/-- What the encoding of a node does when it comes to this one. -/
def Node.action (s : Settings) (n : Node) : Action := .level (n.script s)

theorem Select.script_eq (s : Settings) (q : Select) :
    q.script s = q.children.map (Node.action s) := by
  obtain ⟨_ | ⟨⟨binding, value⟩, lets⟩, body, orderBy, limit, isSubquery⟩ := q
  · cases orderBy <;> cases limit <;>
      simp [Select.script,Select.children,Node.action,Node.script]
  · simp [Select.script,Select.children,Node.action,Node.script]

theorem Operand.script_eq (s : Settings) (o : Operand) : o.script s = [o.node.action s] := by
  cases o <;> simp [Operand.script,Operand.node,Node.action,Node.script]

theorem Projection.scripts_eq (s : Settings) (projections : List Projection) :
    Projection.scripts s projections = (projections.map .projection).map (Node.action s) := by
  induction projections with
  | nil => simp [Projection.scripts]
  | cons p rest ih =>
    rw [Projection.scripts,ih]
    rfl

theorem FromTerm.scripts_eq (s : Settings) (terms : List FromTerm) :
    FromTerm.scripts s terms = (terms.map .fromTerm).map (Node.action s) := by
  induction terms with
  | nil => simp [FromTerm.scripts]
  | cons t rest ih =>
    rw [FromTerm.scripts,ih]
    rfl

/-- The clauses behind the SELECT clause are those that are there, in their order. -/
theorem Block.script_eq (s : Settings) (clause : SelectClause) (terms : List FromTerm)
    (whereTest : Option Expr) (groupBy : Option Grouping) (havingTest : Option Expr) :
    Block.script s ⟨clause, some terms, whereTest, groupBy, havingTest⟩ =
      .node "query" (Script.node "select" [(Node.selectClause clause).action s] ++
        (Block.mk clause (some terms) whereTest groupBy havingTest).children.tail.map
          (Node.action s)) := by
  cases whereTest <;> cases groupBy <;> cases havingTest <;>
    simp [Block.script,Block.children,Node.action,Node.script]

/-- The source of a FROM term, without the name it is bound to. -/
def Expr.sourceScript (s : Settings) (source : Expr) : Script :=
  match source.asVariable? with
  | some v => .stringNode "table" v.plainName
  | none => [(Node.expr source).action s]

theorem FromTerm.script_eq (s : Settings) (source : Expr) (binding : Variable) :
    FromTerm.script s ⟨source, binding, none, []⟩ =
      if binding.isDistinctFrom source then
        .node "aliasAs" (.write (.string binding.plainName) :: source.sourceScript s)
      else source.sourceScript s := by
  cases named : source.asVariable? <;>
    simp [FromTerm.script,Expr.sourceScript,Node.action,Node.script,named]

theorem GroupKey.scripts_eq (s : Settings) (keys : List GroupKey) :
    GroupKey.scripts s keys = keys.flatMap fun key =>
      Script.aliasMark (key.expr.writtenAlias (key.binding.map Variable.plainName)) ++
        [(Node.expr key.expr).action s] := by
  induction keys with
  | nil => simp [GroupKey.scripts]
  | cons key rest ih =>
    obtain ⟨e, binding⟩ := key
    simp [GroupKey.scripts,Node.action,Node.script,ih]

theorem SelectClause.script_eq (s : Settings) (c : SelectClause) :
    c.script s = Script.distinctMark c.distinct ++ [c.body.node.action s] := by
  obtain ⟨distinct, _ | projections⟩ := c <;>
    simp [SelectClause.script,SelectBody.node,Node.action,Node.script]

theorem Query.script_eq (s : Settings) (q : Select) (topLevel : Bool) :
    Query.script s ⟨.select q, topLevel⟩ = [(Node.select q).action s] := by
  simp [Query.script,Node.action,Node.script]

end QueryLowering
