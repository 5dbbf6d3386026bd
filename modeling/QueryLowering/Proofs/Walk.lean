import QueryLowering.Proofs.Balance

/-! Which node an encoding fails at. The nodes are visited in pre-order; each is tested for its depth
first and then by the checks of its own kind, and the first test that fails is the answer. -/
namespace QueryLowering

def Literal.fault? (l : Literal) : Option Rejection :=
  match l with
  | double _ | float _ | null | missing =>
    some (.unsupported .literalExpr ("literals of type " ++ l.type.display))
  | _ => none

/-- The counts are checked before the name is looked up. -/
def Operator.fault? (s : Settings) (operands : List Expr) (operators : List Operator) :
    Option Rejection :=
  match operands, operators with
  | [_, _], [op] =>
    if s.operatorNames.contains op then none
    else some (.unsupported .operatorExpr ("binary operator " ++ op.name ++ " (" ++ op.symbol ++ ")"))
  | _, _ =>
    some (.malformed .operatorExpr
      s!"expected a binary expression, found {operands.length} operands and {operators.length} operators")

def Expr.fault? (s : Settings) (e : Expr) : Option Rejection :=
  match e with
  | .literal value => value.fault?
  | .operator operands operators => Operator.fault? s operands operators
  | .var _ | .field _ _ | .select _ => none
  | _ => some (.unsupported e.kind "no encoding for this expression")

def SetOperation.fault? (s : Settings) (o : SetOperation) : Option Rejection :=
  if s.maxRights < o.rights.length then
    some (.malformed .selectSetOperation
      s!"{o.rights.length} right inputs, at most {s.maxRights} supported")
  else if o.rights.any fun r => r.op = .except then
    some (.unsupported .selectSetOperation "EXCEPT")
  else none

def Projection.fault? (p : Projection) : Option Rejection :=
  if p.expr.isNone && !p.star then
    some (.malformed .projection "projection has neither an expression nor a star")
  else none

/-- Only the first correlated clause is named. -/
def FromTerm.fault? (t : FromTerm) : Option Rejection :=
  match t.correlates, t.position with
  | c :: _, _ => some (.unsupported c.kind "correlated clauses in a FROM term")
  | [], some _ => some (.unsupported .fromTerm "positional variables in a FROM term")
  | [], none => none

def Query.fault? (q : Query) : Option Rejection :=
  match q.body with
  | .select _ => none
  | body => some (.unsupported body.kind "query body must be a select expression")

/-- The check of a node, its depth and the nodes below it apart. -/
def Node.fault? (s : Settings) : Node → Option Rejection
  | statement (.query value) => value.fault?
  | statement value => some (.unsupported value.kind "only query statements can be encoded")
  | query value => value.fault?
  | expr value => value.fault? s
  | literal value => value.fault?
  | var _ => none
  | operator operands operators => Operator.fault? s operands operators
  | select _ => none
  | setOperation value => value.fault? s
  | block value =>
    if value.fromTerms.isNone then some (.malformed .selectBlock "missing FROM clause") else none
  | selectClause _ => none
  | selectElement _ => some (.unsupported .selectElement "SELECT VALUE")
  | selectRegular _ => none
  | projection value => value.fault?
  | fromClause _ => none
  | fromTerm value => value.fault?
  | correlate value => some (.unsupported value.kind "correlated clauses")
  | whereClause _ => none
  | groupBy value =>
    if value.groupVariable.isSome then some (.unsupported .groupbyClause "GROUP AS") else none
  | havingClause _ => none
  | orderBy _ => some (.unsupported .orderbyClause "ORDER BY")
  | limit _ => some (.unsupported .limitClause "LIMIT")
  | letClause _ _ => some (.unsupported .letClause "LET")

/-- A node and the number of nodes on the way down to it, itself included. -/
structure Visit where
  depth : Nat
  node : Node

/-- A node is tested for its depth before anything else. -/
def Visit.fault? (s : Settings) (v : Visit) : Option Rejection :=
  if s.maxDepth < v.depth then some (.tooDeep v.depth s.maxDepth) else v.node.fault? s

/-- All nodes from this one down, in pre-order. -/
def Node.visits (depth : Nat) (n : Node) : List Visit :=
  ⟨depth, n⟩ :: n.children.attach.flatMap fun ⟨child, _⟩ => child.visits (depth + 1)
termination_by n.rank
decreasing_by exact n.rank_children ‹_›

theorem Node.visits_eq (depth : Nat) (n : Node) :
    n.visits depth = ⟨depth, n⟩ :: n.children.flatMap (Node.visits (depth + 1)) := by
  rw [Node.visits]
  simp [List.flatMap_subtype]

section

variable {s : Settings} {limit depth : Nat}

namespace Script

@[simp] theorem node_stop (tag : String) (body : Script) :
    (Script.trace limit depth (Script.node tag body)).stop =
      (Script.trace limit depth body).stop := by
  simp [Script.node,Action.trace]

@[simp] theorem stringNode_stop (tag text : String) :
    (Script.trace limit depth (Script.stringNode tag text)).stop = none := by
  simp [Script.stringNode,Script.write,Sexpr.stringNodeTokens,Action.trace]

@[simp] theorem distinctMark_stop (distinct : Bool) :
    (Script.trace limit depth (Script.distinctMark distinct)).stop = none := by
  cases distinct <;>
    simp [Script.distinctMark,Script.emptyNode,Script.write,Sexpr.emptyNodeTokens,Action.trace]

@[simp] theorem aliasMark_stop (name : Option String) :
    (Script.trace limit depth (Script.aliasMark name)).stop = none := by
  cases name <;> simp [Script.aliasMark]

@[simp] theorem unsupported_stop (kind : NodeKind) (detail : String) :
    (Script.trace limit depth (Script.unsupported kind detail)).stop =
      some (.unsupported kind detail) := by
  simp [Script.unsupported,Action.trace]

@[simp] theorem malformed_stop (kind : NodeKind) (detail : String) :
    (Script.trace limit depth (Script.malformed kind detail)).stop =
      some (.malformed kind detail) := by
  simp [Script.malformed,Action.trace]

end Script

/-- The first of the nodes that the encoding goes on to and does not come back from. -/
def Node.firstStop (s : Settings) (limit depth : Nat) (nodes : List Node) : Option Rejection :=
  nodes.findSome? fun n => ((n.action s).trace limit depth).stop

@[simp] theorem Node.firstStop_nil : Node.firstStop s limit depth [] = none := rfl

@[simp] theorem Node.firstStop_cons (n : Node) (rest : List Node) :
    Node.firstStop s limit depth (n :: rest) =
      ((n.action s).trace limit depth).stop.or (Node.firstStop s limit depth rest) := by
  rw [Node.firstStop,List.findSome?_cons]
  cases ((n.action s).trace limit depth).stop <;> rfl

@[simp] theorem Script.actions_stop (nodes : List Node) :
    (Script.trace limit depth (nodes.map (Node.action s))).stop =
      Node.firstStop s limit depth nodes := by
  simp [Script.trace_stop,Node.firstStop,List.findSome?_map,Function.comp_def]

theorem Literal.script_stop (l : Literal) :
    (Script.trace limit depth l.script).stop = l.fault? := by
  cases l <;> simp [Literal.script,Literal.fault?,Script.write,Action.trace]

theorem Operator.script_stop (operands : List Expr) (operators : List Operator) :
    (Script.trace limit depth ((Expr.operator operands operators).script s)).stop =
      (Operator.fault? s operands operators).or
        (Node.firstStop s limit depth (Expr.operator operands operators).children) := by
  unfold Operator.fault?
  split
  next left right op =>
    cases named : s.operatorNames.name? op <;>
      simp [Expr.script,Expr.children,OperatorNames.contains,named,Node.action,Node.script]
  next binary =>
    rw [Expr.script]
    · simp
    · exact binary

theorem Expr.script_stop (e : Expr) :
    (Script.trace limit depth (e.script s)).stop =
      (e.fault? s).or (Node.firstStop s limit depth e.children) := by
  cases e with
  | literal value => simpa [Expr.script,Expr.fault?,Expr.children] using value.script_stop
  | operator operands operators => exact Operator.script_stop operands operators
  | select query => simp [Expr.script,Expr.fault?,Expr.children,Select.script_eq]
  | field base name =>
    simp [Expr.script,Expr.fault?,Expr.children,Action.trace,Node.action,Node.script]
  | _ => simp [Expr.script,Expr.fault?,Expr.children,Expr.kind,Variable.script]

theorem RightOperand.around_stop (left : Script) (r : RightOperand) (combined : r.op ≠ .except) :
    (Script.trace limit depth (r.around s left)).stop =
      (Script.trace limit depth left).stop.or
        ((r.input.node.action s).trace limit depth).stop := by
  obtain ⟨op, distinct, input⟩ := r
  cases op with
  | except => exact absurd rfl combined
  | _ => simp [RightOperand.around,SetOperator.tag?,Operand.script_eq]

theorem RightOperand.foldl_around_stop (rights : List RightOperand) (left : Script)
    (combined : ∀ r ∈ rights, r.op ≠ .except) :
    (Script.trace limit depth (rights.foldl (RightOperand.around s) left)).stop =
      (Script.trace limit depth left).stop.or
        (Node.firstStop s limit depth (rights.map fun r => r.input.node)) := by
  induction rights generalizing left with
  | nil => simp
  | cons r rest ih =>
    rw [List.foldl_cons,ih _ fun r member => combined r (by simp [member]),
      RightOperand.around_stop left r (combined r (by simp))]
    simp [Option.or_assoc]

theorem SetOperation.combined_of_passed {o : SetOperation} (passed : o.fault? s = none) :
    ∀ r ∈ o.rights, r.op ≠ .except := by
  unfold SetOperation.fault? at passed
  split at passed
  · cases passed
  split at passed
  · cases passed
  next none => simpa using none

theorem SetOperation.script_of_passed {o : SetOperation} (passed : o.fault? s = none) :
    o.script s = o.rights.foldl (RightOperand.around s) [o.left.node.action s] := by
  have combined := SetOperation.combined_of_passed passed
  obtain ⟨left, rights⟩ := o
  have few : ¬s.maxRights < rights.length := by
    intro many
    simp [SetOperation.fault?,many] at passed
  cases opened : SetOperation.openings? rights with
  | none =>
    obtain ⟨r, member, excepted⟩ := SetOperation.openings?_eq_none.mp opened
    exact absurd excepted (combined r member)
  | some openings =>
    rw [SetOperation.script,if_neg few,opened,← Operand.script_eq]
    exact SetOperation.script_eq s rights opened _

theorem SetOperation.script_stop (o : SetOperation) :
    (Script.trace limit depth (o.script s)).stop =
      (o.fault? s).or (Node.firstStop s limit depth o.children) := by
  cases passed : o.fault? s with
  | none =>
    rw [SetOperation.script_of_passed passed,
      RightOperand.foldl_around_stop _ _ (SetOperation.combined_of_passed passed)]
    simp [SetOperation.children]
  | some reason =>
    obtain ⟨left, rights⟩ := o
    rw [SetOperation.script]
    unfold SetOperation.fault? at passed
    split at passed
    next many => simp [many,← passed]
    next few =>
      split at passed
      next excepted =>
        have unopened : SetOperation.openings? rights = none :=
          SetOperation.openings?_eq_none.mpr (by simpa using excepted)
        simp [few,unopened,← passed]
      next => cases passed

theorem Block.script_stop (b : Block) :
    (Script.trace limit depth (b.script s)).stop =
      ((Node.block b).fault? s).or (Node.firstStop s limit depth b.children) := by
  obtain ⟨clause, _ | terms, whereTest, groupBy, havingTest⟩ := b
  · simp [Block.script,Node.fault?]
  · have clauses : (Block.mk clause (some terms) whereTest groupBy havingTest).children =
        .selectClause clause ::
          (Block.mk clause (some terms) whereTest groupBy havingTest).children.tail := rfl
    rw [clauses,Block.script_eq]
    simp [Node.fault?,-List.map_tail]

theorem FromTerm.script_stop (t : FromTerm) :
    (Script.trace limit depth (t.script s)).stop =
      t.fault?.or (Node.firstStop s limit depth t.children) := by
  obtain ⟨source, binding, _ | position, _ | ⟨c, correlates⟩⟩ := t
  · have inner : (Script.trace limit depth (source.sourceScript s)).stop =
        Node.firstStop s limit depth (FromTerm.mk source binding none []).children := by
      cases named : source.asVariable? <;>
        simp [Expr.sourceScript,FromTerm.children,named]
    rw [FromTerm.script_eq]
    split <;> simp [FromTerm.fault?,Action.trace,inner]
  all_goals simp [FromTerm.script,FromTerm.fault?]

theorem Query.script_stop (q : Query) :
    (Script.trace limit depth (q.script s)).stop =
      q.fault?.or (Node.firstStop s limit depth q.children) := by
  obtain ⟨body, topLevel⟩ := q
  cases body with
  | select query => simp [Query.script_eq,Query.fault?,Query.children]
  | _ => simp [Query.script,Query.fault?,Query.children]

theorem GroupKey.scripts_stop (keys : List GroupKey) :
    (Script.trace limit depth (GroupKey.scripts s keys)).stop =
      Node.firstStop s limit depth (keys.map fun key => .expr key.expr) := by
  rw [GroupKey.scripts_eq]
  induction keys with
  | nil => simp
  | cons key rest ih => simp [ih]

theorem Node.script_stop (n : Node) :
    (Script.trace limit depth (n.script s)).stop =
      (n.fault? s).or (Node.firstStop s limit depth n.children) := by
  cases n with
  | statement value =>
    cases value with
    | query value => exact value.script_stop
    | _ => simp [Node.script,Statement.script,Node.fault?,Node.children]
  | query value => exact value.script_stop
  | expr value => exact value.script_stop
  | literal value => simpa [Node.script,Node.fault?,Node.children] using value.script_stop
  | operator operands operators => exact Operator.script_stop operands operators
  | select value => simp [Node.script,Node.fault?,Node.children,Select.script_eq]
  | setOperation value => exact value.script_stop
  | block value => exact value.script_stop
  | selectClause value => simp [Node.script,Node.fault?,Node.children,SelectClause.script_eq]
  | projection value =>
    obtain ⟨_ | e, name, _ | _⟩ := value <;>
      simp [Node.script,Projection.script,Node.fault?,Projection.fault?,Node.children,Node.action,
        Script.emptyNode,Script.write,Sexpr.emptyNodeTokens,Action.trace]
  | fromTerm value => exact value.script_stop
  | groupBy value =>
    obtain ⟨keys, _ | groupVariable⟩ := value <;>
      simp [Node.script,Grouping.script,Node.fault?,Node.children,GroupKey.scripts_stop]
  | selectRegular projections =>
    rw [Node.script,Projection.scripts_eq,Script.actions_stop]
    rfl
  | fromClause terms =>
    rw [Node.script,Script.node_stop,FromTerm.scripts_eq,Script.actions_stop]
    rfl
  | whereClause test | havingClause test => simp [Node.script,Node.fault?,Node.children,Node.action]
  | var | selectElement | correlate | orderBy | limit | letClause =>
    simp [Node.script,Node.fault?,Node.children,Variable.script,SelectBody.elementScript,
      Select.orderByScript,Select.limitScript,Select.letScript]

end

/-- Neither the node nor any node below it fails a check of its own kind. -/
inductive Node.Encodable (s : Settings) : Node → Prop
  | intro {n : Node} (passed : n.fault? s = none)
      (children : ∀ child ∈ n.children, Encodable s child) : Encodable s n

theorem Node.Encodable.passed {s : Settings} {n : Node} (encodable : n.Encodable s) :
    n.fault? s = none := by
  cases encodable
  assumption

/-- Only a named operator between two operands passes its check. -/
theorem Operator.of_passed {s : Settings} {operands : List Expr} {operators : List Operator}
    (passed : Operator.fault? s operands operators = none) : ∃ left right op name,
      operands = [left, right] ∧ operators = [op] ∧ s.operatorNames.name? op = some name := by
  unfold Operator.fault? at passed
  split at passed
  next left right op =>
    cases named : s.operatorNames.name? op with
    | none => simp [OperatorNames.contains,named] at passed
    | some name => exact ⟨left, right, op, name, rfl, rfl, named⟩
  next => cases passed

/-- The clauses around a set operation are nodes that always fail. -/
theorem Select.eq_of_encodable {s : Settings} {q : Select}
    (encodable : ∀ n ∈ q.children, n.Encodable s) :
    q = ⟨[], q.body, none, none, q.isSubquery⟩ := by
  obtain ⟨_ | ⟨⟨binding, value⟩, lets⟩, body, orderBy, limit, isSubquery⟩ := q
  · cases orderBy with
    | some items => cases (encodable (.orderBy items) (by simp [Select.children])).passed
    | none =>
      cases limit with
      | some value => cases (encodable (.limit value) (by simp [Select.children])).passed
      | none => rfl
  · cases (encodable (.letClause binding value) (by simp [Select.children])).passed

/-- A trace that does not stop has met no node that fails. -/
theorem Node.Encodable.of_stop {s : Settings} {n : Node} {limit depth : Nat}
    (finished : ((n.action s).trace limit depth).stop = none) : n.Encodable s := by
  induction n using Node.induction generalizing depth with
  | step n children =>
    rw [Node.action,Action.trace] at finished
    split at finished
    · cases finished
    · rw [Node.script_stop,Option.or_eq_none_iff] at finished
      obtain ⟨passed, below⟩ := finished
      exact .intro passed fun child member =>
        children child member (List.findSome?_eq_none_iff.mp below child member)

theorem Node.firstStop_eq {s : Settings} {depth : Nat} {nodes : List Node}
    (each : ∀ n ∈ nodes, ((n.action s).trace s.maxDepth depth).stop =
      (n.visits (depth + 1)).findSome? (Visit.fault? s)) :
    Node.firstStop s s.maxDepth depth nodes =
      (nodes.flatMap (Node.visits (depth + 1))).findSome? (Visit.fault? s) := by
  induction nodes with
  | nil => rfl
  | cons n rest ih =>
    rw [Node.firstStop_cons,each n (by simp),ih fun m member => each m (by simp [member]),
      List.flatMap_cons,List.findSome?_append]

/-- The encoding of a node stops for the first test that fails on the walk down from it. -/
theorem Node.trace_stop (s : Settings) (n : Node) (depth : Nat) :
    ((n.action s).trace s.maxDepth depth).stop =
      (n.visits (depth + 1)).findSome? (Visit.fault? s) := by
  induction n using Node.induction generalizing depth with
  | step n children =>
    rw [Node.visits_eq,List.findSome?_cons,Visit.fault?,Node.action,Action.trace]
    -- The depth is tested on the way into a node, so before the checks of its kind.
    by_cases deep : s.maxDepth ≤ depth
    · simp [deep,Nat.lt_succ_of_le deep]
    · have shallow : ¬s.maxDepth < depth + 1 := by omega
      rw [if_neg deep,if_neg shallow,Node.script_stop,
        Node.firstStop_eq fun child member => children child member (depth + 1)]
      cases n.fault? s <;> rfl

/-- A node has an encoding exactly when no node visited on the walk down from it fails its test, and
otherwise the first one that does is the reason given. -/
theorem Node.encoded_fails_first (s : Settings) (n : Node) :
    ((∃ text, n.encoded s = .ok text) ↔ ∀ v ∈ n.visits 1, v.fault? s = none) ∧
    ∀ stop, n.encoded s = .error stop ↔ ∃ before v after reason,
      n.visits 1 = before ++ v :: after ∧ (∀ u ∈ before, u.fault? s = none) ∧
      v.fault? s = some reason ∧ stop = .rejected reason := by
  rw [Node.encoded_eq,Node.trace_stop,Nat.zero_add]
  cases walk : (n.visits 1).findSome? (Visit.fault? s) with
  | none =>
    have passed := List.findSome?_eq_none_iff.mp walk
    refine ⟨⟨fun _ => passed, fun _ => ⟨_, rfl⟩⟩, ?_⟩
    intro stop
    refine ⟨nofun, ?_⟩
    rintro ⟨before, v, after, reason, visits, -, failed, -⟩
    rw [passed v (by simp [visits])] at failed
    cases failed
  | some reason =>
    obtain ⟨before, v, after, visits, failed, passed⟩ := List.findSome?_eq_some_iff.mp walk
    refine ⟨⟨nofun, ?_⟩, ?_⟩
    · intro passed
      rw [passed v (by simp [visits])] at failed
      cases failed
    · intro stop
      constructor
      · intro same
        cases same
        exact ⟨before, v, after, reason, visits, passed, failed, rfl⟩
      · rintro ⟨before, v, after, other, visits, passed, failed, rfl⟩
        have first := List.findSome?_eq_some_iff.mpr ⟨before, v, after, visits, failed, passed⟩
        rw [walk] at first
        cases first
        rfl

end QueryLowering
