import QueryLowering.Proofs.Faithful
import QueryLowering.Proofs.Parts

/-! The SELECT blocks of a query, at any depth. They stand in its trees one by one and in the same
order, and nothing else in the trees looks like a block. -/
namespace QueryLowering

namespace Sexpr

/-- A query that begins with its columns, and is no combination of others. -/
def isBlock : Sexpr → Bool
  | .node tag (.node inner _ :: _) => tag == "query" && inner == "select"
  | _ => false

mutual
/-- All blocks in a tree, in the order in which they begin. -/
def blocks : Sexpr → List Sexpr
  | .node tag args =>
    if (Sexpr.node tag args).isBlock then .node tag args :: blocksOf args else blocksOf args
  | .atom _ | .string _ => []
def blocksOf : List Sexpr → List Sexpr
  | [] => []
  | t :: rest => t.blocks ++ blocksOf rest
end

theorem blocksOf_append (first second : List Sexpr) :
    blocksOf (first ++ second) = blocksOf first ++ blocksOf second := by
  induction first with
  | nil => rw [blocksOf,List.nil_append,List.nil_append]
  | cons t rest ih => rw [List.cons_append,blocksOf,ih,blocksOf,List.append_assoc]

theorem blocksOf_flatMap {α : Type} (items : List α) (trees : α → List Sexpr) :
    blocksOf (items.flatMap trees) = items.flatMap fun a => blocksOf (trees a) := by
  induction items with
  | nil => simp [blocksOf]
  | cons a rest ih => rw [List.flatMap_cons,List.flatMap_cons,blocksOf_append,ih]

@[simp] theorem blocksOf_singleton (t : Sexpr) : blocksOf [t] = t.blocks := by
  rw [blocksOf,blocksOf,List.append_nil]

theorem blocks_node {tag : String} (other : tag ≠ "query") (args : List Sexpr) :
    (Sexpr.node tag args).blocks = blocksOf args := by
  have noBlock : (Sexpr.node tag args).isBlock = false := by
    unfold isBlock
    split
    next same => simp_all
    next => rfl
  rw [blocks,noBlock]
  rfl

/-- A combination of queries is no block itself. -/
theorem blocks_combination {tag : String} (other : tag ≠ "select") (args : List Sexpr) :
    (Sexpr.node "query" [.node tag args]).blocks = (Sexpr.node tag args).blocks := by
  rw [blocks,if_neg (by simp [isBlock,other]),blocksOf_singleton]

theorem blocks_block (columns clauses : List Sexpr) :
    (Sexpr.node "query" (.node "select" columns :: clauses)).blocks =
      .node "query" (.node "select" columns :: clauses) ::
        (blocksOf columns ++ blocksOf clauses) := by
  rw [blocks,if_pos (by simp [isBlock]),blocksOf,blocks_node (by decide)]

@[simp] theorem blocksOf_distinctMark (distinct : Bool) : blocksOf (distinctMark distinct) = [] := by
  cases distinct <;> decide

@[simp] theorem blocksOf_aliasMark (name : Option String) : blocksOf (aliasMark name) = [] := by
  cases name <;> simp [aliasMark,blocks,blocksOf,isBlock]

end Sexpr

def Node.asBlock? : Node → Option Block
  | block value => some value
  | _ => none

/-- All blocks in a node, itself included. Those that no encoding looks at are among them. -/
def Node.blocks (n : Node) : List Block :=
  n.asBlock?.toList ++ n.parts.attach.flatMap fun part => part.1.blocks
termination_by n.weight
decreasing_by exact n.weight_parts part.2

theorem Node.blocks_eq (n : Node) :
    n.blocks = n.asBlock?.toList ++ n.parts.flatMap Node.blocks := by
  rw [Node.blocks]
  simp

/-- The tree of a block that can be encoded. -/
def Block.tree (s : Settings) (b : Block) : Sexpr :=
  .node "query" (.node "select" (b.clause.forest s) :: b.children.tail.flatMap (Node.forest s))

section

variable {s : Settings}

theorem Literal.blocksOf_forest (l : Literal) : Sexpr.blocksOf l.forest = [] := by
  cases l <;> simp [Literal.forest,Sexpr.blocks,Sexpr.blocksOf]

theorem Variable.blocksOf_forest (v : Variable) : Sexpr.blocksOf v.forest = [] := by
  rw [Variable.forest,Sexpr.blocksOf_singleton,Sexpr.blocks_node (by decide)]
  simp [Sexpr.blocks]

theorem SetOperator.blocksOf_joined {op : SetOperator} (supported : op ≠ .except) (distinct : Bool)
    (left right : List Sexpr) :
    Sexpr.blocksOf (op.joined distinct left right) =
      Sexpr.blocksOf left ++ Sexpr.blocksOf right := by
  cases op with
  | except => exact absurd rfl supported
  | union | intersect =>
    simp only [SetOperator.joined,SetOperator.tag?,Sexpr.blocksOf_singleton]
    rw [Sexpr.blocks_combination (by decide),Sexpr.blocks_node (by decide)]
    simp [Sexpr.blocksOf_append]

theorem RightOperand.blocksOf_forest {rights : List RightOperand}
    (combined : ∀ r ∈ rights, r.op ≠ .except) (left : List Sexpr) :
    Sexpr.blocksOf (RightOperand.forest s left rights) = Sexpr.blocksOf left ++
      (rights.map fun r => r.input.node).flatMap fun n => Sexpr.blocksOf (n.forest s) := by
  induction rights generalizing left with
  | nil => simp [RightOperand.forest]
  | cons r rest ih =>
    have supported := combined r (by simp)
    obtain ⟨op, distinct, input⟩ := r
    rw [RightOperand.forest,ih (fun r member => combined r (by simp [member])),
      SetOperator.blocksOf_joined supported,Operand.forest_eq,List.append_assoc,List.map_cons,
      List.flatMap_cons]

theorem Operator.blocksOf_forest (free : s.HasFreeNames) {operands : List Expr}
    {operators : List Operator} (passed : Operator.fault? s operands operators = none) :
    Sexpr.blocksOf ((Expr.operator operands operators).forest s) =
      (Expr.operator operands operators).children.flatMap
        fun n => Sexpr.blocksOf (n.forest s) := by
  obtain ⟨left, right, op, name, rfl, rfl, named⟩ := Operator.of_passed passed
  have other : name ≠ "query" := by
    rintro rfl
    exact free op _ named (by decide)
  rw [Expr.forest,named]
  simp [Sexpr.blocks_node other,Sexpr.blocksOf_append,Expr.children,Node.forest]

theorem Select.blocksOf_forest {q : Select} (encodable : ∀ n ∈ q.children, n.Encodable s) :
    Sexpr.blocksOf (q.forest s) = q.children.flatMap fun n => Sexpr.blocksOf (n.forest s) := by
  rw [Select.eq_of_encodable encodable]
  simp [Select.forest,Select.children,Node.forest]

theorem Expr.blocksOf_forest (free : s.HasFreeNames) {e : Expr} (passed : e.fault? s = none)
    (encodable : ∀ n ∈ e.children, n.Encodable s) :
    Sexpr.blocksOf (e.forest s) = e.children.flatMap fun n => Sexpr.blocksOf (n.forest s) := by
  cases e with
  | literal value =>
    rw [Expr.forest,value.blocksOf_forest]
    rfl
  | var value =>
    rw [Expr.forest,value.blocksOf_forest]
    rfl
  | operator operands operators => exact Operator.blocksOf_forest free passed
  | field base name =>
    rw [Expr.forest,Sexpr.blocksOf_singleton,Sexpr.blocks_node (by decide)]
    simp [Sexpr.blocksOf,Sexpr.blocks,Expr.children,Node.forest]
  | select query =>
    rw [Expr.forest]
    exact Select.blocksOf_forest encodable
  | _ => cases passed

theorem Query.blocksOf_forest {q : Query} (passed : q.fault? = none) :
    Sexpr.blocksOf (q.forest s) = q.children.flatMap fun n => Sexpr.blocksOf (n.forest s) := by
  obtain ⟨body, topLevel⟩ := q
  cases body with
  | select query => simp [Query.forest,Query.children,Node.forest]
  | _ => cases passed

theorem FromTerm.blocksOf_forest (t : FromTerm) :
    Sexpr.blocksOf (t.forest s) = t.children.flatMap fun n => Sexpr.blocksOf (n.forest s) := by
  have inner : Sexpr.blocksOf (t.source.sourceForest s) =
      t.children.flatMap fun n => Sexpr.blocksOf (n.forest s) := by
    unfold Expr.sourceForest FromTerm.children
    cases t.source.asVariable? with
    | none => simp [Node.forest]
    | some v =>
      rw [Sexpr.blocksOf_singleton,Sexpr.blocks_node (by decide)]
      simp [Sexpr.blocks]
  rw [FromTerm.forest_eq]
  cases t.binding.neededName t.source with
  | none => exact inner
  | some name =>
    rw [Sexpr.aliasAround,Sexpr.blocksOf_singleton,Sexpr.blocks_node (by decide),Sexpr.blocksOf,inner,
      Sexpr.blocks,List.nil_append]

theorem GroupKey.blocksOf_forests (keys : List GroupKey) :
    Sexpr.blocksOf (GroupKey.forests s keys) =
      (keys.map fun key => Node.expr key.expr).flatMap fun n => Sexpr.blocksOf (n.forest s) := by
  induction keys with
  | nil => simp [GroupKey.forests,Sexpr.blocksOf]
  | cons key rest ih =>
    obtain ⟨e, binding⟩ := key
    simp [GroupKey.forests,Sexpr.blocksOf_append,ih,Node.forest]

theorem Block.forest_eq_tree {b : Block} (passed : (Node.block b).fault? s = none) :
    b.forest s = [b.tree s] := by
  obtain ⟨clause, _ | terms, whereTest, groupBy, havingTest⟩ := b
  · cases passed
  · exact Block.forest_eq s clause terms whereTest groupBy havingTest

theorem Block.blocks_tree (b : Block) :
    (b.tree s).blocks =
      b.tree s :: b.children.flatMap fun n => Sexpr.blocksOf (n.forest s) := by
  rw [Block.tree,Sexpr.blocks_block,Sexpr.blocksOf_flatMap]
  rfl

/-- The blocks in the trees of a node: its own tree if it is a block, and the blocks in the trees of
the nodes below it. -/
theorem Node.Encodable.blocksOf_forest_step (free : s.HasFreeNames) {n : Node}
    (encodable : n.Encodable s) :
    Sexpr.blocksOf (n.forest s) = n.asBlock?.toList.map (Block.tree s) ++
      n.children.flatMap fun child => Sexpr.blocksOf (child.forest s) := by
  obtain ⟨passed, below⟩ := encodable
  cases n with
  | block value =>
    rw [Node.forest,Block.forest_eq_tree passed,Sexpr.blocksOf_singleton,Block.blocks_tree]
    rfl
  | statement value =>
    cases value with
    | query value => exact Query.blocksOf_forest passed
    | _ => cases passed
  | query value => exact Query.blocksOf_forest passed
  | expr value => exact Expr.blocksOf_forest free passed below
  | literal value => exact value.blocksOf_forest
  | var value => exact value.blocksOf_forest
  | operator operands operators => exact Operator.blocksOf_forest free passed
  | select value => exact Select.blocksOf_forest below
  | setOperation value =>
    -- The right operands are outside in the tree, but they stand behind what is to their left.
    rw [Node.forest,SetOperation.forest_eq,
      RightOperand.blocksOf_forest (SetOperation.combined_of_passed passed)]
    rfl
  | selectClause value =>
    obtain ⟨distinct, value | projections⟩ := value <;>
      simp [Node.forest,SelectClause.forest,Node.children,SelectBody.node,Node.asBlock?,
        Sexpr.blocksOf_append,Sexpr.blocksOf]
  | selectRegular projections =>
    rw [Node.forest,Projection.forests_eq,Sexpr.blocksOf_flatMap]
    rfl
  | projection value =>
    obtain ⟨_ | e, name, _ | _⟩ := value <;>
      simp [Node.forest,Projection.forest,Node.children,Node.asBlock?,Sexpr.blocksOf_append,
        Sexpr.blocksOf,Sexpr.blocks_node]
  | fromClause terms =>
    rw [Node.forest,Sexpr.blocksOf_singleton,Sexpr.blocks_node (by decide),FromTerm.forests_eq,
      Sexpr.blocksOf_flatMap]
    rfl
  | fromTerm value => exact value.blocksOf_forest
  | whereClause test | havingClause test =>
    simp [Node.forest,Sexpr.blocks_node,Node.children,Node.asBlock?]
  | groupBy value =>
    obtain ⟨keys, groupVariable⟩ := value
    rw [Node.forest,Grouping.forest,Sexpr.blocksOf_singleton,Sexpr.blocks_node (by decide),
      GroupKey.blocksOf_forests]
    rfl
  | selectElement | correlate | orderBy | limit | letClause => cases passed

theorem Operator.flatMap_operands {operands : List Expr} {operators : List Operator}
    (passed : Operator.fault? s operands operators = none) :
    (operands.map Node.expr).flatMap Node.blocks =
      (Expr.operator operands operators).children.flatMap Node.blocks := by
  obtain ⟨left, right, op, name, rfl, rfl, named⟩ := Operator.of_passed passed
  rfl

theorem Select.flatMap_parts {q : Select} (encodable : ∀ n ∈ q.children, n.Encodable s) :
    q.parts.flatMap Node.blocks = q.children.flatMap Node.blocks := by
  rw [Select.eq_of_encodable encodable]
  rfl

theorem Expr.flatMap_parts {e : Expr} (passed : e.fault? s = none)
    (encodable : ∀ n ∈ e.children, n.Encodable s) :
    e.parts.flatMap Node.blocks = e.children.flatMap Node.blocks := by
  cases e with
  | literal | var =>
    simp [Expr.parts,Expr.children,Node.blocks_eq,Node.asBlock?,Node.parts]
  | operator operands operators =>
    rw [← Operator.flatMap_operands passed]
    simp [Expr.parts,Node.blocks_eq (.operator _ _),Node.asBlock?,Node.parts]
  | field => rfl
  | select query =>
    rw [Expr.children,← Select.flatMap_parts encodable]
    simp [Expr.parts,Node.blocks_eq (.select _),Node.asBlock?,Node.parts]
  | _ => cases passed

theorem Query.blocks_body {q : Query} (passed : q.fault? = none) :
    (Node.expr q.body).blocks = q.children.flatMap Node.blocks := by
  obtain ⟨body, topLevel⟩ := q
  cases body with
  | select query =>
    rw [Node.blocks_eq]
    rfl
  | _ => cases passed

theorem FromTerm.flatMap_parts {t : FromTerm} (passed : t.fault? = none) :
    (Node.fromTerm t).parts.flatMap Node.blocks = t.children.flatMap Node.blocks := by
  obtain ⟨source, binding, _ | position, _ | ⟨c, correlates⟩⟩ := t
  · cases source with
    | var v =>
      simp [Node.parts,FromTerm.children,Expr.asVariable?,Node.blocks_eq,Node.asBlock?,Expr.parts]
    | _ => rfl
  all_goals cases passed

/-- No block is inside a node that can be encoded but in those that its encoding goes on to. -/
theorem Node.Encodable.blocks_eq {n : Node} (encodable : n.Encodable s) :
    n.blocks = n.asBlock?.toList ++ n.children.flatMap Node.blocks := by
  obtain ⟨passed, below⟩ := encodable
  rw [Node.blocks_eq]
  congr 1
  cases n with
  | statement value =>
    cases value with
    | query value =>
      have inner := Query.blocks_body passed
      simpa [Node.parts,Statement.parts,Node.children,Node.blocks_eq (.query _),Node.asBlock?]
        using inner
    | _ => cases passed
  | query value =>
    have inner := Query.blocks_body passed
    simpa [Node.parts,Node.children] using inner
  | expr value => exact Expr.flatMap_parts passed below
  | operator operands operators => exact Operator.flatMap_operands passed
  | select value => exact Select.flatMap_parts below
  | fromTerm value => exact FromTerm.flatMap_parts passed
  | selectElement | correlate | orderBy | limit | letClause => cases passed
  | _ => rfl

/-- The blocks in the trees of a node are those of the node, in the same order. -/
theorem Node.Encodable.blocksOf_forest (free : s.HasFreeNames) {n : Node}
    (encodable : n.Encodable s) : Sexpr.blocksOf (n.forest s) = n.blocks.map (Block.tree s) := by
  induction encodable with
  | @intro n passed below children =>
    have encodable : n.Encodable s := .intro passed below
    rw [encodable.blocksOf_forest_step free,encodable.blocks_eq,List.map_append,List.map_flatMap,
      List.flatMap_congr children]

theorem Node.Encodable.of_mem_blocks {n : Node} (encodable : n.Encodable s) {b : Block}
    (member : b ∈ n.blocks) : (Node.block b).Encodable s := by
  induction encodable with
  | @intro n passed below children =>
    have encodable : n.Encodable s := .intro passed below
    rw [encodable.blocks_eq,List.mem_append,List.mem_flatMap] at member
    rcases member with own | ⟨child, inside, member⟩
    · cases n with
      | block value =>
        simp only [Node.asBlock?,Option.toList_some,List.mem_singleton] at own
        rw [own]
        exact encodable
      | _ => cases own
    · exact children child inside member

end

end QueryLowering
