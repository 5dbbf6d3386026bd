import QueryLowering.Proofs.Blocks
import QueryLowering.Proofs.Faithful

/-! Names of columns, keys and sources. An alias that says nothing new is left out of an encoding, but
no name is lost with it: a column without an alias is a reference of that name, and a source without
one is a table of that name. -/
namespace QueryLowering

namespace Sexpr

/-- The name in a node with this tag and a name as its only argument. -/
def label? (tag : String) : Sexpr → Option String
  | .node t [.string name] => if t = tag then some name else none
  | _ => none

/-- An item of a list, and what it is called. -/
structure Entry where
  name : Option String
  body : Sexpr
  deriving DecidableEq

/-- The items from left to right. A node `as` names what stands behind it; without one a reference is
called what it refers to. -/
def entries : List Sexpr → List Entry
  | [] => []
  | [t] => [⟨t.label? "ref", t⟩]
  | t :: u :: rest =>
    match t.label? "as" with
    | some name => ⟨some name, u⟩ :: entries rest
    | none => ⟨t.label? "ref", t⟩ :: entries (u :: rest)

/-- What stands behind the mark of distinct rows, if there is one. -/
def withoutDistinct : List Sexpr → List Sexpr
  | [] => []
  | t :: rest => if t = .node "distinct" [] then rest else t :: rest

/-- What a source is called: the name it is bound to or, without one, the name of the table. -/
def sourceName? : Sexpr → Option String
  | .node tag (.string name :: inner) =>
    if tag = "aliasAs" ∨ tag = "table" ∧ inner = [] then some name else none
  | _ => none

/-- A tree that is no `as` node is an item of its own. -/
theorem entries_cons {t : Sexpr} (rest : List Sexpr) (unmarked : t.label? "as" = none) :
    entries (t :: rest) = ⟨t.label? "ref", t⟩ :: entries rest := by
  cases rest with
  | nil => rw [entries,entries]
  | cons u rest => rw [entries,unmarked]

theorem entries_aliased (name : String) (t : Sexpr) (rest : List Sexpr) :
    entries (.node "as" [.string name] :: t :: rest) = ⟨some name, t⟩ :: entries rest := by
  rw [entries,label?,if_pos rfl]

theorem withoutDistinct_distinctMark {trees : List Sexpr} (free : ¬LedBy "distinct" trees)
    (distinct : Bool) : withoutDistinct (distinctMark distinct ++ trees) = trees := by
  cases distinct with
  | true => simp [distinctMark,withoutDistinct]
  | false =>
    cases trees with
    | nil => rfl
    | cons t rest =>
      have first : t ≠ .node "distinct" [] := by
        rintro rfl
        exact free ⟨[], rest, rfl⟩
      simp [distinctMark,withoutDistinct,first]

end Sexpr

/-- How an item with this normal form is found again. -/
def NamedForm.entry (s : Settings) (item : NamedForm) : Sexpr.Entry :=
  ⟨item.name.or ((item.body.tree s).label? "ref"), item.body.tree s⟩

section

variable {s : Settings}

theorem NormalForm.Plain.not_as {a : NormalForm} (plain : a.Plain s) (free : s.HasFreeNames) :
    (a.tree s).label? "as" = none := by
  unfold Sexpr.label?
  split
  next tag name same =>
    rw [if_neg]
    rintro rfl
    exact plain.tree_ne_mark free (by decide) _ same
  next => rfl

theorem NamedForm.entries_columnTrees (free : s.HasFreeNames) {items : List NamedForm}
    (plain : ∀ item ∈ items, item.body.Plain s) :
    Sexpr.entries (NamedForm.columnTrees s items) = items.map (NamedForm.entry s) := by
  induction items with
  | nil =>
    rw [NamedForm.columnTrees]
    rfl
  | cons item rest ih =>
    have others := ih fun other member => plain other (by simp [member])
    have unmarked := (plain item (by simp)).not_as free
    rw [NamedForm.columnTrees_cons,List.map_cons,NamedForm.entry]
    -- No item is an `as` node itself, so that it is never taken for the alias of the next one.
    cases named : item.name with
    | none =>
      rw [Sexpr.aliasMark,List.nil_append,Sexpr.entries_cons _ unmarked,others,Option.none_or]
    | some name =>
      rw [Sexpr.aliasMark,List.singleton_append,Sexpr.entries_aliased,others,Option.some_or]

/-- Written or left out, a name is found again. -/
theorem Expr.entry_name (e : Expr) (name : String) :
    (NamedForm.entry s ⟨e.neededName (some name), e.norm⟩).name = some name := by
  by_cases has : e.HasName name
  · have omitted : e.neededName (some name) = none := if_pos has
    rw [omitted,has]
    simp [NamedForm.entry,Expr.norm,NormalForm.tree,Sexpr.label?,Variable.bareName_ofName]
  · have told : e.neededName (some name) = some name := if_neg has
    rw [told]
    rfl

/-- The entry is the column, under its name if it has one. -/
def Projection.IsEntry (s : Settings) (p : Projection) (entry : Sexpr.Entry) : Prop :=
  match p.expr with
  | some e => e.forest s = [entry.body] ∧ ∀ name ∈ p.name, entry.name = some name
  | none => entry = ⟨none, .node "all" []⟩

/-- The entry is the key, under the name of its variable if it has one. -/
def GroupKey.IsEntry (s : Settings) (key : GroupKey) (entry : Sexpr.Entry) : Prop :=
  key.expr.forest s = [entry.body] ∧ ∀ v ∈ key.binding, entry.name = some v.bareName

/-- The tree is the source, under the name it is bound to. -/
def FromTerm.IsSource (s : Settings) (t : FromTerm) (tree : Sexpr) : Prop :=
  t.forest s = [tree] ∧ tree.sourceName? = some t.binding.bareName

theorem Projection.forall₂_norms {projections : List Projection}
    (each : ∀ p ∈ projections, p.Agrees s) :
    List.Forall₂ (fun p item => p.IsEntry s (item.entry s)) projections
      (Projection.norms projections) := by
  induction projections with
  | nil =>
    rw [Projection.norms]
    exact .nil
  | cons p rest ih =>
    have others := ih fun p member => each p (by simp [member])
    have first := each p (by simp)
    obtain ⟨_ | e, name, star⟩ := p
    · rw [Projection.norms]
      refine .cons ?_ others
      simp [Projection.IsEntry,NamedForm.entry,NormalForm.tree,Sexpr.label?]
    · rw [Projection.norms]
      refine .cons ⟨first.trees_eq, ?_⟩ others
      rintro name rfl
      exact e.entry_name name

theorem GroupKey.forall₂_norms {keys : List GroupKey}
    (each : ∀ key ∈ keys, key.expr.norm.Stands s (key.expr.forest s)) :
    List.Forall₂ (fun key item => key.IsEntry s (item.entry s)) keys (GroupKey.norms keys) := by
  induction keys with
  | nil =>
    rw [GroupKey.norms]
    exact .nil
  | cons key rest ih =>
    have others := ih fun key member => each key (by simp [member])
    have first := each key (by simp)
    obtain ⟨e, binding⟩ := key
    rw [GroupKey.norms]
    refine .cons ⟨first.trees_eq, ?_⟩ others
    rintro v rfl
    exact e.entry_name v.bareName

theorem FromTerm.sourceName?_of_forest {t : FromTerm} {tree : Sexpr}
    (single : t.forest s = [tree]) : tree.sourceName? = some t.binding.bareName := by
  rw [FromTerm.forest_eq,Variable.neededName] at single
  split at single
  next omitted =>
    rw [Sexpr.aliasAround,omitted.2,Expr.sourceForest] at single
    cases single
    simp [Sexpr.sourceName?,Variable.bareName_ofName]
  next =>
    cases single
    simp [Sexpr.sourceName?]

theorem FromTerm.forall₂_forests {terms : List FromTerm} (each : ∀ t ∈ terms, t.Agrees s) :
    List.Forall₂ (FromTerm.IsSource s) terms (FromTerm.forests s terms) := by
  induction terms with
  | nil =>
    rw [FromTerm.forests]
    exact .nil
  | cons t rest ih =>
    obtain ⟨-, single⟩ := each t (by simp)
    rw [FromTerm.forests,single]
    exact .cons ⟨single, FromTerm.sourceName?_of_forest single⟩
      (ih fun t member => each t (by simp [member]))

end

/-- Every column, source and key of a block is found in its tree under the name it has in the query,
and there are no others. -/
structure Block.NamesKept (s : Settings) (b : Block) (t : Sexpr) : Prop where
  columns : ∃ projections select, b.clause.body = .regular projections ∧
    t.child? "select" = some select ∧
    List.Forall₂ (Projection.IsEntry s) projections
      (Sexpr.entries (Sexpr.withoutDistinct select.args))
  sources : ∃ terms sources, b.fromTerms = some terms ∧ t.child? "from" = some sources ∧
    List.Forall₂ (FromTerm.IsSource s) terms sources.args
  keys : ∀ grouping ∈ b.groupBy, ∃ keys, t.child? "groupBy" = some keys ∧
    List.Forall₂ (GroupKey.IsEntry s) grouping.keys (Sexpr.entries keys.args)

section

variable {s : Settings}

theorem SelectClause.forall₂_entries (free : s.HasFreeNames) {projections : List Projection}
    (each : ∀ p ∈ projections, p.Agrees s) (distinct : Bool) :
    List.Forall₂ (Projection.IsEntry s) projections (Sexpr.entries
      (Sexpr.withoutDistinct (SelectClause.forest s ⟨distinct, .regular projections⟩))) := by
  obtain ⟨plain, trees⟩ := Projection.norms_stand each
  have unmarked := NamedForm.not_ledBy_distinct free plain
  rw [SelectClause.forest,trees,Sexpr.withoutDistinct_distinctMark unmarked,
    NamedForm.entries_columnTrees free plain,List.forall₂_map_right_iff]
  exact Projection.forall₂_norms each

theorem GroupKey.forall₂_entries (free : s.HasFreeNames) {keys : List GroupKey}
    (each : ∀ key ∈ keys, key.expr.norm.Stands s (key.expr.forest s)) :
    List.Forall₂ (GroupKey.IsEntry s) keys (Sexpr.entries (GroupKey.forests s keys)) := by
  obtain ⟨plain, trees⟩ := GroupKey.norms_stand each
  rw [trees,NamedForm.entries_columnTrees free plain,List.forall₂_map_right_iff]
  exact GroupKey.forall₂_norms each

theorem Block.namesKept_tree {b : Block} (free : s.HasFreeNames)
    (encodable : (Node.block b).Encodable s) : b.NamesKept s (b.tree s) := by
  obtain ⟨passed, children⟩ := encodable
  obtain ⟨⟨distinct, body⟩, _ | terms, whereTest, groupBy, havingTest⟩ := b
  · cases passed
  · obtain ⟨projections, rfl, columns⟩ :=
      (children (.selectClause ⟨distinct, body⟩) (by simp [Node.children,Block.children])).agrees
    have sources := (children (.fromClause terms) (by simp [Node.children,Block.children])).agrees
    refine ⟨⟨projections, _, rfl, rfl, SelectClause.forall₂_entries free columns distinct⟩,
      ⟨terms, .node "from" (FromTerm.forests s terms), rfl, rfl,
        FromTerm.forall₂_forests sources⟩, ?_⟩
    rintro ⟨keys, groupVariable⟩ rfl
    obtain ⟨-, keysStand⟩ := (children (.groupBy ⟨keys, groupVariable⟩)
      (by simp [Node.children,Block.children])).agrees
    refine ⟨.node "groupBy" (GroupKey.forests s keys), ?_,
      GroupKey.forall₂_entries free keysStand⟩
    -- Of the clauses that may be missing only WHERE stands before the keys.
    cases whereTest <;>
      simp [Block.tree,Block.children,Sexpr.child?,Sexpr.args,Sexpr.tag?,Node.forest,
        Grouping.forest]

end

/-- In the encoding of a query every block has its columns, sources and keys under the names that the
query gives them, whether they are written as aliases or left out. -/
theorem Query.names_kept (s : Settings) (tokens : s.HasTokenNames) (free : s.HasFreeNames)
    (q : Query) (text : String) (encoded : (Node.query q).encoded s = .ok text) :
    ∃ t, Sexpr.read text = .ok t ∧
      List.Forall₂ (Block.NamesKept s) (Node.query q).blocks t.blocks := by
  obtain ⟨t, -, single, read⟩ := Query.read_of_encoded tokens encoded
  have encodable := (Node.encodable_of_encoded encoded).1
  have trees := encodable.blocksOf_forest free
  rw [Node.forest,single,Sexpr.blocksOf_singleton] at trees
  refine ⟨t, read, ?_⟩
  rw [trees,List.forall₂_map_right_iff,List.forall₂_same]
  intro b member
  exact Block.namesKept_tree free (encodable.of_mem_blocks member)

/-- SELECT DISTINCT x, x AS y, * FROM t, (SELECT $ FROM t AS t) AS s GROUP BY x AS x, where the inner
table has no mark and the inner column has two. -/
def Query.Sample.selectNamed : Query :=
  .ofBlock ((Block.of (SelectClause.regular
      [.named (.ofName "$x") "x", .named (.ofName "$x") "y", .all]).asDistinct
    [.table "$t" "$t", .of (.select (Select.ofBlock (Block.of
      (.regular [.named (.ofName "$$") "$"]) [.table "t" "t"]))) (.ofName "$s")]).withGroupBy
    (.of [⟨.ofName "$x", some (.ofName "$x")⟩]))

theorem Query.names_kept_selectNamed :
    ∃ text t, (Node.query Sample.selectNamed).encoded {} = .ok text ∧ Sexpr.read text = .ok t ∧
      (t.blocks.map fun block => (block.child? "select").map fun select =>
        (Sexpr.entries (Sexpr.withoutDistinct select.args)).map Sexpr.Entry.name) =
          [some [some "x", some "y", none], some [some "$"]] ∧
      List.Forall₂ (Block.NamesKept {}) (Node.query Sample.selectNamed).blocks t.blocks := by
  have finished : (((Node.query Sample.selectNamed).action {}).trace
      ({} : Settings).maxDepth 0).stop = none := by decide +kernel
  have encoded := Node.encoded_eq {} (.query Sample.selectNamed)
  rw [finished] at encoded
  obtain ⟨t, read, kept⟩ :=
    Query.names_kept {} (by decide) (by decide) Sample.selectNamed _ encoded
  obtain ⟨u, -, single, same⟩ := Query.read_of_encoded (by decide) encoded
  rw [read] at same
  cases same
  refine ⟨_, t, encoded, read, ?_, kept⟩
  rw [← Sexpr.blocksOf_singleton t,← single]
  decide +kernel

end QueryLowering
