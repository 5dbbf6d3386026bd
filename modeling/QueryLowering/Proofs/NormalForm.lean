import QueryLowering.Proofs.Forest

/-! What an encoding keeps of a query. Two queries with one normal form differ only in how a number
is stored, in marks of variables, in names that say nothing new and in how their right operands are
nested. -/
namespace QueryLowering

/-- A source, and the name it is bound to. -/
def Sexpr.bound (source : Sexpr) : Option String → Sexpr
  | none => source
  | some name => .node "aliasAs" [.string name, source]

mutual

inductive NormalForm where
  | number (value : Int)
  | truth (value : Bool)
  | text (value : String)
  | ref (name : String)
  | table (name : String)
  | star
  | binary (op : Operator) (left right : NormalForm)
  | field (base : NormalForm) (name : String)
  | block (distinct : Bool) (columns sources : List NamedForm) (whereTest : Option NormalForm)
    (keys : Option (List NamedForm)) (havingTest : Option NormalForm)
  | combined (op : SetOperator) (distinct : Bool) (left right : NormalForm)
  /-- What has no encoding, as it is. -/
  | kept (n : Node)

/-- A column, a source or a key, with the name it has to be given. -/
structure NamedForm where
  name : Option String
  body : NormalForm

end

def Literal.norm : Literal → NormalForm
  | integer value => .number value.toInt
  | long value => .number value.toInt
  | string value => .text value
  | .true => .truth .true
  | .false => .truth .false
  | l => .kept (.literal l)

mutual
def Expr.norm : Expr → NormalForm
  | .literal value => value.norm
  | .var value => .ref value.bareName
  | .operator [left, right] [op] => .binary op left.norm right.norm
  | .field base name => .field base.norm name
  | .select query => query.norm
  | e => .kept (.expr e)
def Select.norm : Select → NormalForm
  | ⟨[], body, none, none, _⟩ => body.norm
  | q => .kept (.select q)
def SetOperation.norm : SetOperation → NormalForm
  | ⟨left, rights⟩ => RightOperand.norm left.norm rights
def Operand.norm : Operand → NormalForm
  | .block value => value.norm
  | .subquery query => query.norm
/-- All right operands, when `left` is the normal form of what stands to the left of them. -/
def RightOperand.norm (left : NormalForm) : List RightOperand → NormalForm
  | [] => left
  | ⟨op, distinct, input⟩ :: rest => RightOperand.norm (.combined op distinct left input.norm) rest
def Block.norm : Block → NormalForm
  | ⟨⟨distinct, .regular projections⟩, some terms, whereTest, none, havingTest⟩ =>
    .block distinct (Projection.norms projections) (FromTerm.norms terms) (Expr.normOf whereTest)
      none (Expr.normOf havingTest)
  | ⟨⟨distinct, .regular projections⟩, some terms, whereTest, some ⟨keys, none⟩, havingTest⟩ =>
    .block distinct (Projection.norms projections) (FromTerm.norms terms) (Expr.normOf whereTest)
      (some (GroupKey.norms keys)) (Expr.normOf havingTest)
  | b => .kept (.block b)
def Expr.normOf : Option Expr → Option NormalForm
  | none => none
  | some e => some e.norm
def Projection.norms : List Projection → List NamedForm
  | [] => []
  | ⟨some e, name, _⟩ :: rest => ⟨e.neededName name, e.norm⟩ :: Projection.norms rest
  | ⟨none, _, _⟩ :: rest => ⟨none, .star⟩ :: Projection.norms rest
def FromTerm.norms : List FromTerm → List NamedForm
  | [] => []
  | t :: rest => t.norm :: FromTerm.norms rest
def FromTerm.norm : FromTerm → NamedForm
  | ⟨.var v, binding, none, []⟩ => ⟨binding.neededName (.var v), .table v.bareName⟩
  | ⟨source, binding, none, []⟩ => ⟨binding.neededName source, source.norm⟩
  | t => ⟨none, .kept (.fromTerm t)⟩
def GroupKey.norms : List GroupKey → List NamedForm
  | [] => []
  | ⟨e, binding⟩ :: rest =>
    ⟨e.neededName (binding.map Variable.bareName), e.norm⟩ :: GroupKey.norms rest
end

/-- Whether the query stands alone or inside a statement is not kept. -/
def Query.norm (q : Query) : NormalForm := q.body.norm

namespace NormalForm

/-- The normal forms directly inside this one. -/
def parts : NormalForm → List NormalForm
  | binary _ left right => [left, right]
  | field base _ => [base]
  | block _ columns sources whereTest keys havingTest =>
    columns.map NamedForm.body ++ (sources.map NamedForm.body ++ (whereTest.toList ++
      ((keys.getD []).map NamedForm.body ++ havingTest.toList)))
  | combined _ _ left right => [left, right]
  | _ => []

theorem sizeOf_body {items : List NamedForm} {item : NamedForm} (member : item ∈ items) :
    sizeOf item.body < sizeOf items := by
  have smaller := List.sizeOf_lt_of_mem member
  obtain ⟨name, body⟩ := item
  simp only [NamedForm.mk.sizeOf_spec] at smaller
  show sizeOf body < sizeOf items
  omega

theorem sizeOf_parts {a part : NormalForm} (member : part ∈ a.parts) : sizeOf part < sizeOf a := by
  cases a with
  | binary op left right | combined op distinct left right =>
    simp only [parts,List.mem_cons,List.not_mem_nil,or_false] at member
    rcases member with rfl | rfl
    all_goals
      simp only [binary.sizeOf_spec,combined.sizeOf_spec]
      omega
  | field base name =>
    simp only [parts,List.mem_singleton] at member
    subst member
    simp only [field.sizeOf_spec]
    omega
  | block distinct columns sources whereTest keys havingTest =>
    simp only [parts,List.mem_append,List.mem_map,Option.mem_toList] at member
    rcases member with ⟨item, inside, rfl⟩ | ⟨item, inside, rfl⟩ | rfl | ⟨item, inside, rfl⟩ | rfl
    all_goals simp only [block.sizeOf_spec,Option.some.sizeOf_spec]
    · have smaller := sizeOf_body inside
      omega
    · have smaller := sizeOf_body inside
      omega
    · omega
    · cases keys with
      | none => cases inside
      | some keys =>
        have smaller : sizeOf item.body < sizeOf keys := sizeOf_body inside
        simp only [Option.some.sizeOf_spec]
        omega
    · omega
  | _ => cases member

@[elab_as_elim]
theorem induction {motive : NormalForm → Prop}
    (step : ∀ a : NormalForm, (∀ part ∈ a.parts, motive part) → motive a) (a : NormalForm) :
    motive a :=
  step a fun part _ => induction step part
termination_by sizeOf a
decreasing_by exact sizeOf_parts ‹_›

/-- There is a tag for it, whatever is inside. -/
def isWritten (s : Settings) : NormalForm → Bool
  | binary op _ _ => s.operatorNames.contains op
  | combined op _ _ _ => op.tag?.isSome
  | kept _ => false
  | _ => true

/-- All of it can be written. -/
inductive Plain (s : Settings) : NormalForm → Prop
  | intro {a : NormalForm} (written : a.isWritten s = true)
      (parts : ∀ part ∈ a.parts, Plain s part) : Plain s a

theorem plain_iff {s : Settings} {a : NormalForm} :
    a.Plain s ↔ a.isWritten s = true ∧ ∀ part ∈ a.parts, part.Plain s := by
  constructor
  · rintro ⟨written, parts⟩
    exact ⟨written, parts⟩
  · rintro ⟨written, parts⟩
    exact .intro written parts

section

variable {s : Settings}

@[simp] theorem plain_binary {op : Operator} {left right : NormalForm} :
    (binary op left right).Plain s ↔
      s.operatorNames.contains op = true ∧ left.Plain s ∧ right.Plain s := by
  rw [plain_iff]
  simp [isWritten,parts]

@[simp] theorem plain_field {base : NormalForm} {name : String} :
    (field base name).Plain s ↔ base.Plain s := by
  rw [plain_iff]
  simp [isWritten,parts]

@[simp] theorem plain_combined {op : SetOperator} {distinct : Bool} {left right : NormalForm} :
    (combined op distinct left right).Plain s ↔
      op.tag?.isSome = true ∧ left.Plain s ∧ right.Plain s := by
  rw [plain_iff]
  simp [isWritten,parts]

@[simp] theorem plain_block {distinct : Bool} {columns sources : List NamedForm}
    {whereTest havingTest : Option NormalForm} {keys : Option (List NamedForm)} :
    (block distinct columns sources whereTest keys havingTest).Plain s ↔
      (∀ item ∈ columns, item.body.Plain s) ∧ (∀ item ∈ sources, item.body.Plain s) ∧
      (∀ test ∈ whereTest, test.Plain s) ∧ (∀ item ∈ keys.getD [], item.body.Plain s) ∧
      ∀ test ∈ havingTest, test.Plain s := by
  rw [plain_iff]
  simp [isWritten,parts,or_imp,forall_and]

theorem not_plain_kept {n : Node} : ¬(kept n).Plain s := by
  rw [plain_iff]
  simp [isWritten]

theorem Plain.of_parts_nil {a : NormalForm} (written : a.isWritten s = true) (none : a.parts = []) :
    a.Plain s :=
  .intro written (by simp [none])

end

end NormalForm

mutual
/-- The tree of a normal form all of which can be written. -/
def NormalForm.tree (s : Settings) : NormalForm → Sexpr
  | .number value => .atom (toString value)
  | .truth value => .atom (if value then "true" else "false")
  | .text value => .string value
  | .ref name => .node "ref" [.string name]
  | .table name => .node "table" [.string name]
  | .star => .node "all" []
  | .binary op left right =>
    .node ((s.operatorNames.name? op).getD "") [left.tree s, right.tree s]
  | .field base name => .node "dot" [.string name, base.tree s]
  | .block distinct columns sources whereTest keys havingTest =>
    .node "query"
      (.node "select" (Sexpr.distinctMark distinct ++ NamedForm.columnTrees s columns) ::
        .node "from" (NamedForm.sourceTrees s sources) ::
        (NormalForm.clauseTrees s "where" whereTest ++
          (NamedForm.keyTrees s keys ++ NormalForm.clauseTrees s "having" havingTest)))
  | .combined op distinct left right =>
    .node "query"
      [.node (op.tag?.getD "") (Sexpr.distinctMark distinct ++ [left.tree s, right.tree s])]
  | .kept _ => .node "" []
def NormalForm.clauseTrees (s : Settings) (tag : String) : Option NormalForm → List Sexpr
  | none => []
  | some test => [.node tag [test.tree s]]
/-- The trees of columns and of keys. -/
def NamedForm.columnTrees (s : Settings) : List NamedForm → List Sexpr
  | [] => []
  | ⟨name, body⟩ :: rest => Sexpr.aliasMark name ++ (body.tree s :: NamedForm.columnTrees s rest)
def NamedForm.keyTrees (s : Settings) : Option (List NamedForm) → List Sexpr
  | none => []
  | some keys => [.node "groupBy" (NamedForm.columnTrees s keys)]
def NamedForm.sourceTrees (s : Settings) : List NamedForm → List Sexpr
  | [] => []
  | ⟨name, body⟩ :: rest => (body.tree s).bound name :: NamedForm.sourceTrees s rest
end

theorem NamedForm.columnTrees_cons (s : Settings) (item : NamedForm) (rest : List NamedForm) :
    NamedForm.columnTrees s (item :: rest) =
      Sexpr.aliasMark item.name ++ (item.body.tree s :: NamedForm.columnTrees s rest) := by
  obtain ⟨name, body⟩ := item
  rw [NamedForm.columnTrees]

theorem NamedForm.sourceTrees_cons (s : Settings) (item : NamedForm) (rest : List NamedForm) :
    NamedForm.sourceTrees s (item :: rest) =
      (item.body.tree s).bound item.name :: NamedForm.sourceTrees s rest := by
  obtain ⟨name, body⟩ := item
  rw [NamedForm.sourceTrees]

/-- A normal form that can be written, and its tree. -/
structure NormalForm.Stands (s : Settings) (a : NormalForm) (trees : List Sexpr) : Prop where
  plain : a.Plain s
  trees_eq : trees = [a.tree s]

section

variable {s : Settings}

open NormalForm (Stands)

theorem Literal.norm_stands {l : Literal} (passed : l.fault? = none) :
    l.norm.Stands s l.forest := by
  cases l with
  | integer | long | string | «true» | «false» =>
    exact ⟨.of_parts_nil rfl rfl, by simp [Literal.forest,Literal.norm,NormalForm.tree]⟩
  | _ => cases passed

theorem Operator.norm_stands {operands : List Expr} {operators : List Operator}
    (passed : Operator.fault? s operands operators = none)
    (children : ∀ e, .expr e ∈ (Expr.operator operands operators).children →
      e.norm.Stands s (e.forest s)) :
    (Expr.operator operands operators).norm.Stands s
      ((Expr.operator operands operators).forest s) := by
  obtain ⟨left, right, op, name, rfl, rfl, named⟩ := Operator.of_passed passed
  have onLeft := children left (by simp [Expr.children])
  have onRight := children right (by simp [Expr.children])
  constructor
  · simp [Expr.norm,OperatorNames.contains,named,onLeft.plain,onRight.plain]
  · simp [Expr.forest,Expr.norm,NormalForm.tree,named,onLeft.trees_eq,onRight.trees_eq]

theorem SetOperator.joined_stands {op : SetOperator} (supported : op ≠ .except) (distinct : Bool)
    {a b : NormalForm} {left right : List Sexpr} (onLeft : a.Stands s left)
    (onRight : b.Stands s right) :
    (NormalForm.combined op distinct a b).Stands s (op.joined distinct left right) := by
  cases op with
  | except => exact absurd rfl supported
  | union | intersect =>
    constructor
    · simp [SetOperator.tag?,onLeft.plain,onRight.plain]
    · simp [SetOperator.joined,SetOperator.tag?,NormalForm.tree,onLeft.trees_eq,onRight.trees_eq]

theorem RightOperand.norm_stands {rights : List RightOperand} {a : NormalForm} {left : List Sexpr}
    (combined : ∀ r ∈ rights, r.op ≠ .except) (onLeft : a.Stands s left)
    (onRights : ∀ r ∈ rights, r.input.norm.Stands s (r.input.forest s)) :
    (RightOperand.norm a rights).Stands s (RightOperand.forest s left rights) := by
  induction rights generalizing a left with
  | nil =>
    rw [RightOperand.norm,RightOperand.forest]
    exact onLeft
  | cons r rest ih =>
    obtain ⟨op, distinct, input⟩ := r
    rw [RightOperand.norm,RightOperand.forest]
    have joined := SetOperator.joined_stands (combined ⟨op, distinct, input⟩ (by simp)) distinct
      onLeft (onRights ⟨op, distinct, input⟩ (by simp))
    exact ih (fun r member => combined r (by simp [member])) joined
      fun r member => onRights r (by simp [member])

/-- A column with an expression that stands for its tree, or a star. -/
def Projection.Agrees (s : Settings) : Projection → Prop
  | ⟨some e, _, _⟩ => e.norm.Stands s (e.forest s)
  | ⟨none, _, star⟩ => star = true

theorem Projection.norms_stand {projections : List Projection}
    (each : ∀ p ∈ projections, p.Agrees s) :
    (∀ item ∈ Projection.norms projections, item.body.Plain s) ∧
      Projection.forests s projections =
        NamedForm.columnTrees s (Projection.norms projections) := by
  induction projections with
  | nil => simp [Projection.norms,Projection.forests,NamedForm.columnTrees]
  | cons p rest ih =>
    obtain ⟨plain, trees⟩ := ih fun p member => each p (by simp [member])
    have first := each p (by simp)
    obtain ⟨_ | e, name, star⟩ := p
    · cases first
      have starPlain : NormalForm.star.Plain s := .of_parts_nil rfl rfl
      simp only [Projection.norms,Projection.forests,Projection.forest,NamedForm.columnTrees,trees,
        List.forall_mem_cons]
      exact ⟨⟨starPlain, plain⟩, rfl⟩
    · simp only [Projection.norms,Projection.forests,Projection.forest,NamedForm.columnTrees,trees,
        List.forall_mem_cons]
      exact ⟨⟨first.plain, plain⟩, by simp [first.trees_eq]⟩

theorem GroupKey.norms_stand {keys : List GroupKey}
    (each : ∀ key ∈ keys, key.expr.norm.Stands s (key.expr.forest s)) :
    (∀ item ∈ GroupKey.norms keys, item.body.Plain s) ∧
      GroupKey.forests s keys = NamedForm.columnTrees s (GroupKey.norms keys) := by
  induction keys with
  | nil => simp [GroupKey.norms,GroupKey.forests,NamedForm.columnTrees]
  | cons key rest ih =>
    obtain ⟨plain, trees⟩ := ih fun key member => each key (by simp [member])
    have first := each key (by simp)
    obtain ⟨e, binding⟩ := key
    simp only [GroupKey.norms,GroupKey.forests,NamedForm.columnTrees,trees,List.forall_mem_cons]
    exact ⟨⟨first.plain, plain⟩, by simp [first.trees_eq]⟩

/-- A source that stands for its tree under the name it is bound to. -/
def FromTerm.Agrees (s : Settings) (t : FromTerm) : Prop :=
  t.norm.body.Plain s ∧ t.forest s = [(t.norm.body.tree s).bound t.norm.name]

theorem FromTerm.norms_stand {terms : List FromTerm} (each : ∀ t ∈ terms, t.Agrees s) :
    (∀ item ∈ FromTerm.norms terms, item.body.Plain s) ∧
      FromTerm.forests s terms = NamedForm.sourceTrees s (FromTerm.norms terms) := by
  induction terms with
  | nil => simp [FromTerm.norms,FromTerm.forests,NamedForm.sourceTrees]
  | cons t rest ih =>
    obtain ⟨plain, trees⟩ := ih fun t member => each t (by simp [member])
    obtain ⟨firstPlain, first⟩ := each t (by simp)
    simp only [FromTerm.norms,FromTerm.forests,NamedForm.sourceTrees_cons,trees,first,
      List.forall_mem_cons]
    exact ⟨⟨firstPlain, plain⟩, rfl⟩

theorem FromTerm.norm_eq (source : Expr) (binding : Variable) :
    (FromTerm.mk source binding none []).norm =
      ⟨binding.neededName source, match source.asVariable? with
        | some v => .table v.bareName
        | none => source.norm⟩ := by
  cases source <;> simp [FromTerm.norm,Expr.asVariable?]

theorem FromTerm.agrees {t : FromTerm} (passed : t.fault? = none)
    (children : ∀ e, .expr e ∈ t.children → e.norm.Stands s (e.forest s)) : t.Agrees s := by
  obtain ⟨source, binding, _ | position, _ | ⟨c, correlates⟩⟩ := t
  · have inner : (FromTerm.mk source binding none []).norm.body.Stands s
        (source.sourceForest s) := by
      rw [FromTerm.norm_eq]
      unfold Expr.sourceForest
      cases named : source.asVariable? with
      | none => exact children source (by simp [FromTerm.children,named])
      | some v => exact ⟨.of_parts_nil rfl rfl, by rw [NormalForm.tree]⟩
    refine ⟨inner.plain, ?_⟩
    rw [FromTerm.forest_eq,inner.trees_eq,FromTerm.norm_eq]
    cases binding.neededName source <;> rfl
  all_goals cases passed

/-- What holds of a node of each kind whose encoding is that of its normal form. -/
def Node.Agrees (s : Settings) : Node → Prop
  | query value => value.norm.Stands s (value.forest s)
  | expr value => value.norm.Stands s (value.forest s)
  | select value => value.norm.Stands s (value.forest s)
  | setOperation value => value.norm.Stands s (value.forest s)
  | block value => value.norm.Stands s (value.forest s)
  | selectClause ⟨_, body⟩ => ∃ projections, body = .regular projections ∧
    ∀ p ∈ projections, p.Agrees s
  | selectRegular projections => ∀ p ∈ projections, p.Agrees s
  | projection value => value.Agrees s
  | fromClause terms => ∀ t ∈ terms, t.Agrees s
  | fromTerm value => value.Agrees s
  | whereClause test | havingClause test => test.norm.Stands s (test.forest s)
  | groupBy ⟨keys, groupVariable⟩ => groupVariable = none ∧
    ∀ key ∈ keys, key.expr.norm.Stands s (key.expr.forest s)
  | _ => True

theorem Operand.norm_stands {o : Operand} (agrees : o.node.Agrees s) :
    o.norm.Stands s (o.forest s) := by
  cases o <;> rw [Operand.norm,Operand.forest] <;> exact agrees

theorem Select.norm_stands {q : Select} (encodable : ∀ n ∈ q.children, n.Encodable s)
    (children : ∀ n ∈ q.children, n.Agrees s) : q.norm.Stands s (q.forest s) := by
  rw [Select.eq_of_encodable encodable] at children ⊢
  have body := children (.setOperation q.body) (by simp [Select.children])
  rw [Select.norm,Select.forest]
  exact body

theorem Expr.norm_stands {e : Expr} (passed : e.fault? s = none)
    (encodable : ∀ n ∈ e.children, n.Encodable s) (children : ∀ n ∈ e.children, n.Agrees s) :
    e.norm.Stands s (e.forest s) := by
  cases e with
  | literal value =>
    rw [Expr.norm,Expr.forest]
    exact Literal.norm_stands passed
  | var value =>
    rw [Expr.norm,Expr.forest]
    exact ⟨.of_parts_nil rfl rfl, by rw [Variable.forest,NormalForm.tree]⟩
  | operator operands operators =>
    exact Operator.norm_stands passed fun e member => children (.expr e) member
  | field base name =>
    have inner : base.norm.Stands s (base.forest s) :=
      children (.expr base) (by simp [Expr.children])
    exact ⟨by simpa [Expr.norm] using inner.plain,
      by simp [Expr.norm,Expr.forest,NormalForm.tree,inner.trees_eq]⟩
  | select query =>
    rw [Expr.norm,Expr.forest]
    exact Select.norm_stands encodable children
  | _ => cases passed

theorem SetOperation.norm_stands {o : SetOperation} (passed : o.fault? s = none)
    (children : ∀ n ∈ o.children, n.Agrees s) : o.norm.Stands s (o.forest s) := by
  obtain ⟨left, rights⟩ := o
  rw [SetOperation.norm,SetOperation.forest]
  apply RightOperand.norm_stands (SetOperation.combined_of_passed passed)
  · exact Operand.norm_stands (children left.node (by simp [SetOperation.children]))
  · intro r member
    apply Operand.norm_stands
    apply children
    simp only [SetOperation.children,List.mem_cons,List.mem_map]
    exact .inr ⟨r, member, rfl⟩

theorem Expr.normOf_stands (tag : String) (test : Option Expr)
    (each : ∀ e ∈ test, e.norm.Stands s (e.forest s)) :
    (∀ a ∈ Expr.normOf test, a.Plain s) ∧
      Expr.clauseForest s tag test = NormalForm.clauseTrees s tag (Expr.normOf test) := by
  cases test with
  | none => simp [Expr.normOf,Expr.clauseForest,NormalForm.clauseTrees]
  | some e =>
    have stands := each e rfl
    simp [Expr.normOf,Expr.clauseForest,NormalForm.clauseTrees,stands.plain,stands.trees_eq]

theorem Block.norm_stands {b : Block} (passed : (Node.block b).fault? s = none)
    (children : ∀ n ∈ b.children, n.Agrees s) : b.norm.Stands s (b.forest s) := by
  obtain ⟨⟨distinct, body⟩, _ | terms, whereTest, groupBy, havingTest⟩ := b
  · cases passed
  · obtain ⟨projections, rfl, columns⟩ :=
      children (.selectClause ⟨distinct, body⟩) (by simp [Block.children])
    have sources := children (.fromClause terms) (by simp [Block.children])
    obtain ⟨columnsPlain, columnTrees⟩ := Projection.norms_stand columns
    obtain ⟨sourcesPlain, sourceTrees⟩ := FromTerm.norms_stand sources
    obtain ⟨wherePlain, whereTrees⟩ := Expr.normOf_stands "where" whereTest fun e member =>
      children (.whereClause e) (by simp [Block.children,Option.mem_def.mp member])
    obtain ⟨havingPlain, havingTrees⟩ := Expr.normOf_stands "having" havingTest fun e member =>
      children (.havingClause e) (by simp [Block.children,Option.mem_def.mp member])
    cases groupBy with
    | none =>
      rw [Block.norm,Block.forest]
      constructor
      · simp only [NormalForm.plain_block]
        exact ⟨columnsPlain, sourcesPlain, wherePlain, by simp, havingPlain⟩
      · rw [NormalForm.tree,SelectClause.forest,columnTrees,sourceTrees,whereTrees,havingTrees,
          Grouping.clauseForest,NamedForm.keyTrees]
    | some grouping =>
      obtain ⟨keys, groupVariable⟩ := grouping
      obtain ⟨rfl, keysStand⟩ :=
        children (.groupBy ⟨keys, groupVariable⟩) (by simp [Block.children])
      obtain ⟨keysPlain, keyTrees⟩ := GroupKey.norms_stand keysStand
      rw [Block.norm,Block.forest]
      constructor
      · simp only [NormalForm.plain_block]
        exact ⟨columnsPlain, sourcesPlain, wherePlain, keysPlain, havingPlain⟩
      · rw [NormalForm.tree,SelectClause.forest,columnTrees,sourceTrees,whereTrees,havingTrees,
          Grouping.clauseForest,Grouping.forest,keyTrees,NamedForm.keyTrees]

/-- The trees of a node that can be encoded are those of its normal form. -/
theorem Node.Encodable.agrees {n : Node} (encodable : n.Encodable s) : n.Agrees s := by
  induction encodable with
  | @intro n passed below children =>
  cases n with
  | query value =>
    obtain ⟨body, topLevel⟩ := value
    cases body with
    | select query =>
      have inner := children (.select query) (by simp [Node.children,Query.children])
      simpa [Node.Agrees,Query.norm,Query.forest,Expr.norm] using inner
    | _ => cases passed
  | expr value => exact Expr.norm_stands passed below children
  | select value => exact Select.norm_stands below children
  | setOperation value => exact SetOperation.norm_stands passed children
  | block value => exact Block.norm_stands passed children
  | selectClause value =>
    obtain ⟨distinct, value | projections⟩ := value
    · cases (below (.selectElement value) (by simp [Node.children,SelectBody.node])).passed
    · exact ⟨projections, rfl,
        children (.selectRegular projections) (by simp [Node.children,SelectBody.node])⟩
  | selectRegular projections =>
    exact fun p member => children (.projection p) (by simpa [Node.children] using member)
  | projection value =>
    obtain ⟨_ | e, name, star⟩ := value
    · cases star with
      | false => cases passed
      | true => rfl
    · exact children (.expr e) (by simp [Node.children])
  | fromClause terms =>
    exact fun t member => children (.fromTerm t) (by simpa [Node.children] using member)
  | fromTerm value => exact FromTerm.agrees passed fun e member => children (.expr e) member
  | whereClause test | havingClause test => exact children (.expr test) (by simp [Node.children])
  | groupBy value =>
    obtain ⟨keys, _ | groupVariable⟩ := value
    · refine ⟨rfl, fun key member => children (.expr key.expr) ?_⟩
      exact List.mem_map.mpr ⟨key, member, rfl⟩
    · cases passed
  | _ => trivial

end

end QueryLowering
