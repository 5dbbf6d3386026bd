import QueryLowering.Proofs.Children

/-! All nodes inside a node, those that no encoding looks at included, and the literals among them. -/
namespace QueryLowering

def Expr.parts : Expr → List Node
  | .literal value => [.literal value]
  | .var value => [.var value]
  | .operator operands operators => [.operator operands operators]
  | .field base _ => [.expr base]
  | .index base position => .expr base :: position.toList.map .expr
  | .call _ args => args.map .expr
  | .caseOf subject whens thens otherwise =>
    .expr subject :: (whens.map .expr ++ (thens.map .expr ++ otherwise.toList.map .expr))
  | .cond test yes no => [.expr test, .expr yes, .expr no]
  | .list _ items => items.map .expr
  | .record fields => fields.flatMap fun f => [.expr f.1, .expr f.2]
  | .quantified _ bindings satisfies => .expr satisfies :: bindings.map fun b => .expr b.2
  | .unary _ operand => [.expr operand]
  | .select query => [.select query]
  | .subquery body => [.expr body]

def Select.parts (q : Select) : List Node :=
  .setOperation q.body :: (q.lets.map (fun l => .letClause l.1 l.2) ++
    (q.orderBy.toList.map .orderBy ++ q.limit.toList.map .limit))

def Correlate.parts : Correlate → List Node
  | .join _ source _ condition | .nest _ source _ condition => [.expr source, .expr condition]
  | .unnest _ source _ => [.expr source]

def Statement.parts : Statement → List Node
  | query value | insert _ value => [.query value]
  | delete _ _ condition => condition.toList.map .expr
  | update target assignments condition =>
    .expr target :: (assignments.flatMap (fun a => [.expr a.1, .expr a.2]) ++
      condition.toList.map .expr)
  | declareFunction _ _ body => [.expr body]
  | load _ _ | assign _ _ | declareDataverse _ | declareDataset _ _ | declareType _ => []

/-- The nodes directly inside a node, but for the variables that it binds. -/
def Node.parts : Node → List Node
  | statement value => value.parts
  | query value => [.expr value.body]
  | expr value => value.parts
  | literal _ | var _ => []
  | operator operands _ => operands.map .expr
  | select value => value.parts
  | setOperation value => value.children
  | block value => value.children
  | selectClause value => [value.body.node]
  | selectElement value => [.expr value]
  | selectRegular projections => projections.map .projection
  | projection value => value.expr.toList.map .expr
  | fromClause terms => terms.map .fromTerm
  | fromTerm value => .expr value.source :: value.correlates.map .correlate
  | correlate value => value.parts
  | whereClause test | havingClause test => [.expr test]
  | groupBy value => value.keys.map fun key => .expr key.expr
  | orderBy items => items.map fun item => .expr item.1
  | limit value => .expr value.count :: value.offset.toList.map .expr
  | letClause _ value => [.expr value]

/-- A bound on the number of nodes inside each other. A node around one expression counts for more
than the expression. -/
noncomputable def Node.weight : Node → Nat
  | whereClause test | havingClause test => sizeOf test + 2
  | selectElement value => sizeOf value + 2
  | n => sizeOf n

theorem Expr.weight_parts (e : Expr) {part : Node} (member : part ∈ e.parts) :
    part.weight < 1 + sizeOf e := by
  cases e with
  | literal | var | operator | field | unary | select | subquery =>
    simp only [Expr.parts,List.mem_singleton] at member
    subst member
    simp [Node.weight] <;> omega
  | cond test yes no =>
    simp only [Expr.parts,List.mem_cons,List.not_mem_nil,or_false] at member
    rcases member with rfl | rfl | rfl <;> simp [Node.weight] <;> omega
  | index base position =>
    simp only [Expr.parts,List.mem_cons,List.mem_map,Option.mem_toList] at member
    rcases member with rfl | ⟨e, rfl, rfl⟩ <;> simp [Node.weight] <;> omega
  | call function args | list ordered args =>
    obtain ⟨e, inside, rfl⟩ := List.mem_map.mp member
    have := List.sizeOf_lt_of_mem inside
    simp [Node.weight]
    omega
  | caseOf subject whens thens otherwise =>
    simp only [Expr.parts,List.mem_cons,List.mem_append,List.mem_map,Option.mem_toList] at member
    rcases member with rfl | ⟨e, inside, rfl⟩ | ⟨e, inside, rfl⟩ | ⟨e, rfl, rfl⟩
    · simp [Node.weight]
      omega
    · have := List.sizeOf_lt_of_mem inside
      simp [Node.weight]
      omega
    · have := List.sizeOf_lt_of_mem inside
      simp [Node.weight]
      omega
    · simp [Node.weight]
      omega
  | record fields =>
    simp only [Expr.parts,List.mem_flatMap,List.mem_cons,List.not_mem_nil,or_false] at member
    obtain ⟨⟨name, value⟩, inside, rfl | rfl⟩ := member <;>
      have := List.sizeOf_lt_of_mem inside <;> simp [Node.weight] at this ⊢ <;> omega
  | quantified quantifier bindings satisfies =>
    simp only [Expr.parts,List.mem_cons,List.mem_map] at member
    rcases member with rfl | ⟨⟨v, e⟩, inside, rfl⟩
    · simp only [Node.weight,Node.expr.sizeOf_spec,Expr.quantified.sizeOf_spec]
      omega
    · have := List.sizeOf_lt_of_mem inside
      simp [Node.weight] at this ⊢
      omega

theorem Select.weight_parts (q : Select) {part : Node} (member : part ∈ q.parts) :
    part.weight < 1 + sizeOf q := by
  obtain ⟨lets, body, orderBy, limit, isSubquery⟩ := q
  simp only [Select.parts,List.mem_cons,List.mem_append,List.mem_map,Option.mem_toList] at member
  rcases member with rfl | ⟨⟨v, e⟩, inside, rfl⟩ | ⟨items, rfl, rfl⟩ | ⟨value, rfl, rfl⟩
  · simp [Node.weight]
    omega
  · have := List.sizeOf_lt_of_mem inside
    simp [Node.weight] at this ⊢
    omega
  · simp [Node.weight]
    omega
  · simp [Node.weight]
    omega

theorem Operand.weight_node (o : Operand) : o.node.weight ≤ sizeOf o := by
  cases o <;> simp [Operand.node,Node.weight]

theorem SetOperation.weight_children (o : SetOperation) {part : Node} (member : part ∈ o.children) :
    part.weight < 1 + sizeOf o := by
  obtain ⟨left, rights⟩ := o
  simp only [SetOperation.children,List.mem_cons,List.mem_map] at member
  rcases member with rfl | ⟨⟨op, distinct, input⟩, inside, rfl⟩
  · have := left.weight_node
    simp
    omega
  · have := input.weight_node
    have := List.sizeOf_lt_of_mem inside
    simp at this ⊢
    omega

theorem Block.weight_children (b : Block) {part : Node} (member : part ∈ b.children) :
    part.weight < 1 + sizeOf b := by
  obtain ⟨clause, fromTerms, whereTest, groupBy, havingTest⟩ := b
  simp only [Block.children,List.mem_cons,List.mem_append,List.mem_map,
    Option.mem_toList] at member
  rcases member with rfl | ⟨value, rfl, rfl⟩ | ⟨value, rfl, rfl⟩ | ⟨value, rfl, rfl⟩ |
    ⟨value, rfl, rfl⟩ <;> simp [Node.weight] <;> omega

theorem Correlate.weight_parts (c : Correlate) {part : Node} (member : part ∈ c.parts) :
    part.weight < 1 + sizeOf c := by
  cases c with
  | join | nest =>
    simp only [Correlate.parts,List.mem_cons,List.not_mem_nil,or_false] at member
    rcases member with rfl | rfl
    all_goals
      simp only [Node.weight,Node.expr.sizeOf_spec,Correlate.join.sizeOf_spec,
        Correlate.nest.sizeOf_spec]
      omega
  | unnest =>
    simp only [Correlate.parts,List.mem_singleton] at member
    subst member
    simp [Node.weight]
    omega

theorem Statement.weight_parts (q : Statement) {part : Node} (member : part ∈ q.parts) :
    part.weight < 1 + sizeOf q := by
  cases q with
  | query | insert | declareFunction =>
    simp only [Statement.parts,List.mem_singleton] at member
    subst member
    simp only [Node.weight,Node.query.sizeOf_spec,Node.expr.sizeOf_spec,Statement.query.sizeOf_spec,
      Statement.insert.sizeOf_spec,Statement.declareFunction.sizeOf_spec]
    omega
  | delete dataset binding condition =>
    simp only [Statement.parts,List.mem_map,Option.mem_toList] at member
    obtain ⟨e, rfl, rfl⟩ := member
    simp [Node.weight]
    omega
  | update target assignments condition =>
    simp only [Statement.parts,List.mem_cons,List.mem_append,List.mem_flatMap,List.mem_map,
      List.not_mem_nil,or_false,Option.mem_toList] at member
    rcases member with rfl | ⟨⟨place, value⟩, inside, rfl | rfl⟩ | ⟨e, rfl, rfl⟩
    · simp [Node.weight]
      omega
    · have := List.sizeOf_lt_of_mem inside
      simp [Node.weight] at this ⊢
      omega
    · have := List.sizeOf_lt_of_mem inside
      simp [Node.weight] at this ⊢
      omega
    · simp [Node.weight]
      omega
  | load | assign | declareDataverse | declareDataset | declareType => cases member

theorem Node.weight_parts (n : Node) {part : Node} (member : part ∈ n.parts) :
    part.weight < n.weight := by
  cases n with
  | statement value | expr value | select value | correlate value => exact value.weight_parts member
  | setOperation value | block value => exact value.weight_children member
  | query value =>
    obtain ⟨body, topLevel⟩ := value
    simp only [Node.parts,List.mem_singleton] at member
    subst member
    simp only [Node.weight,Node.expr.sizeOf_spec,Node.query.sizeOf_spec,Query.mk.sizeOf_spec]
    omega
  | selectClause value =>
    obtain ⟨distinct, body⟩ := value
    simp only [Node.parts,List.mem_singleton] at member
    subst member
    cases body <;> simp [SelectBody.node,Node.weight] <;> omega
  | selectElement | whereClause | havingClause =>
    simp only [Node.parts,List.mem_singleton] at member
    subst member
    simp [Node.weight]
    omega
  | letClause binding value =>
    obtain ⟨identifier, isNew⟩ := binding
    simp only [Node.parts,List.mem_singleton] at member
    subst member
    simp [Node.weight]
  | operator operands | selectRegular operands | fromClause operands =>
    obtain ⟨operand, inside, rfl⟩ := List.mem_map.mp member
    have := List.sizeOf_lt_of_mem inside
    simp [Node.weight]
    omega
  | projection value =>
    obtain ⟨expr, name, star⟩ := value
    simp only [Node.parts,List.mem_map,Option.mem_toList] at member
    obtain ⟨e, rfl, rfl⟩ := member
    simp [Node.weight]
    omega
  | fromTerm value =>
    obtain ⟨source, binding, position, correlates⟩ := value
    simp only [Node.parts,List.mem_cons,List.mem_map] at member
    rcases member with rfl | ⟨c, inside, rfl⟩
    · simp [Node.weight]
      omega
    · have := List.sizeOf_lt_of_mem inside
      simp [Node.weight]
      omega
  | groupBy value =>
    obtain ⟨keys, groupVariable⟩ := value
    obtain ⟨⟨e, binding⟩, inside, rfl⟩ := List.mem_map.mp member
    have := List.sizeOf_lt_of_mem inside
    simp [Node.weight] at this ⊢
    omega
  | orderBy items =>
    obtain ⟨⟨e, direction⟩, inside, rfl⟩ := List.mem_map.mp member
    have := List.sizeOf_lt_of_mem inside
    simp [Node.weight] at this ⊢
    omega
  | limit value =>
    obtain ⟨count, offset⟩ := value
    simp only [Node.parts,List.mem_cons,List.mem_map,Option.mem_toList] at member
    rcases member with rfl | ⟨e, rfl, rfl⟩ <;> simp [Node.weight] <;> omega
  | literal | var => cases member

/-- Induction along the nodes inside a node. -/
@[elab_as_elim]
theorem Node.partsInduction {motive : Node → Prop}
    (step : ∀ n : Node, (∀ part ∈ n.parts, motive part) → motive n) (n : Node) : motive n :=
  step n fun part _ => Node.partsInduction step part
termination_by n.weight
decreasing_by exact n.weight_parts ‹_›

/-- A literal occurs in a node. -/
inductive Node.HasLiteral (l : Literal) : Node → Prop
  | here : HasLiteral l (.literal l)
  | inside {n part : Node} (member : part ∈ n.parts) (occurs : HasLiteral l part) : HasLiteral l n

def Literal.isFloating : Literal → Bool
  | double _ | float _ => Bool.true
  | _ => Bool.false

/-- No literal of a node is a floating-point number. -/
def Node.FloatFree (n : Node) : Prop := ∀ l, n.HasLiteral l → l.isFloating = false

theorem Node.FloatFree.literal {l : Literal} (whole : l.isFloating = false) :
    (Node.literal l).FloatFree := by
  intro other occurs
  cases occurs with
  | here => exact whole
  | inside member => cases member

theorem Node.FloatFree.of_parts {n : Node} (composed : ∀ l, n ≠ .literal l)
    (parts : ∀ part ∈ n.parts, part.FloatFree) : n.FloatFree := by
  intro l occurs
  cases occurs with
  | here => exact absurd rfl (composed l)
  | inside member occurs => exact parts _ member l occurs

theorem Node.FloatFree.part {n part : Node} (free : n.FloatFree) (member : part ∈ n.parts) :
    part.FloatFree :=
  fun l occurs => free l (.inside member occurs)

end QueryLowering
