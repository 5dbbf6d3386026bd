import Mathlib
import QueryLowering.Proofs.NormalForm
import QueryLowering.Proofs.ReadBack

/-! An encoding tells apart what has different normal forms. Marks and clauses that may be missing
stand beside arbitrary expressions; they can be told from them by their tags, and so can operators
if their names are no tags already. -/
namespace QueryLowering

/-- No operator has the name of something else. -/
def Settings.HasFreeNames (s : Settings) : Prop :=
  ∀ op name, s.operatorNames.name? op = some name → name ∉ Sexpr.fixedTags

instance (s : Settings) : Decidable s.HasFreeNames :=
  decidable_of_iff
    (∀ op ∈ Operator.all, ∀ name ∈ s.operatorNames.name? op, name ∉ Sexpr.fixedTags)
    ⟨fun each op name named => each op op.mem_all name named,
      fun each op _ name named => each op name named⟩

/-- Every operator can be told by its name from the others and from everything else. -/
structure Settings.Unambiguous (s : Settings) : Prop where
  tokens : s.HasTokenNames
  different : ∀ a b name, s.operatorNames.name? a = some name →
    s.operatorNames.name? b = some name → a = b
  free : s.HasFreeNames

instance (s : Settings) : Decidable s.Unambiguous :=
  decidable_of_iff (s.HasTokenNames ∧
    (∀ a ∈ Operator.all, ∀ b ∈ Operator.all, ∀ name ∈ s.operatorNames.name? a,
      s.operatorNames.name? b = some name → a = b) ∧ s.HasFreeNames)
    ⟨fun ⟨tokens, different, free⟩ =>
      ⟨tokens, fun a b => different a a.mem_all b b.mem_all, free⟩,
    fun names => ⟨names.tokens, fun a _ b _ => names.different a b, names.free⟩⟩

namespace Sexpr

/-- The tags of nodes that stand beside or around an expression and are no part of it. -/
def markTags : List String := ["as", "distinct", "aliasAs"]

/-- A node that may be missing. -/
def optional (tag : String) : Option (List Sexpr) → List Sexpr
  | none => []
  | some args => [.node tag args]

def LedBy (tag : String) (trees : List Sexpr) : Prop := ∃ args rest, trees = .node tag args :: rest

/-- Whether a node is missing shows in front of trees that do not begin with one like it. -/
theorem optional_append_inj {tag : String} {a b : Option (List Sexpr)} {left right : List Sexpr}
    (freeLeft : ¬LedBy tag left) (freeRight : ¬LedBy tag right)
    (same : optional tag a ++ left = optional tag b ++ right) : a = b ∧ left = right := by
  cases a with
  | none =>
    cases b with
    | none => exact ⟨rfl, same⟩
    | some args => exact absurd ⟨args, right, same⟩ freeLeft
  | some args =>
    cases b with
    | none => exact absurd ⟨args, left, same.symm⟩ freeRight
    | some others =>
      simp only [optional,List.cons_append,List.nil_append,List.cons.injEq,Sexpr.node.injEq,
        true_and] at same
      exact ⟨congrArg some same.1, same.2⟩

theorem not_ledBy_nil {tag : String} : ¬LedBy tag [] := by
  rintro ⟨args, rest, same⟩
  cases same

theorem not_ledBy_optional {tag other : String} {a : Option (List Sexpr)} {trees : List Sexpr}
    (different : other ≠ tag) (free : ¬LedBy tag trees) :
    ¬LedBy tag (optional other a ++ trees) := by
  cases a with
  | none => exact free
  | some args =>
    rintro ⟨others, rest, same⟩
    exact different (Sexpr.node.inj (List.cons.inj same).1).1

/-- The clauses behind FROM come in a fixed order, so that each missing one shows. -/
theorem clauses_inj {a b c a' b' c' : Option (List Sexpr)}
    (same : optional "where" a ++ (optional "groupBy" b ++ optional "having" c) =
      optional "where" a' ++ (optional "groupBy" b' ++ optional "having" c')) :
    a = a' ∧ b = b' ∧ c = c' := by
  -- The last clause has nothing behind it that could be taken for it.
  rw [← List.append_nil (optional "having" c),← List.append_nil (optional "having" c')] at same
  have freeHaving (tag : String) (c : Option (List Sexpr)) (different : "having" ≠ tag) :
      ¬LedBy tag (optional "having" c ++ []) :=
    not_ledBy_optional different not_ledBy_nil
  obtain ⟨sameWhere, same⟩ := optional_append_inj
    (not_ledBy_optional (by decide) (freeHaving "where" c (by decide)))
    (not_ledBy_optional (by decide) (freeHaving "where" c' (by decide))) same
  obtain ⟨sameKeys, same⟩ := optional_append_inj (freeHaving "groupBy" c (by decide))
    (freeHaving "groupBy" c' (by decide)) same
  exact ⟨sameWhere, sameKeys, (optional_append_inj not_ledBy_nil not_ledBy_nil same).1⟩

theorem distinctMark_eq (distinct : Bool) :
    distinctMark distinct = optional "distinct" (if distinct then some [] else none) := by
  cases distinct <;> rfl

theorem aliasMark_eq (name : Option String) :
    aliasMark name = optional "as" (name.map fun n => [.string n]) := by
  cases name <;> rfl

theorem distinctMark_append_inj {a b : Bool} {left right : List Sexpr}
    (freeLeft : ¬LedBy "distinct" left) (freeRight : ¬LedBy "distinct" right)
    (same : distinctMark a ++ left = distinctMark b ++ right) : a = b ∧ left = right := by
  rw [distinctMark_eq,distinctMark_eq] at same
  obtain ⟨marks, rest⟩ := optional_append_inj freeLeft freeRight same
  refine ⟨?_, rest⟩
  cases a <;> cases b <;> simp at marks ⊢

theorem aliasMark_append_inj {a b : Option String} {left right : List Sexpr}
    (freeLeft : ¬LedBy "as" left) (freeRight : ¬LedBy "as" right)
    (same : aliasMark a ++ left = aliasMark b ++ right) : a = b ∧ left = right := by
  rw [aliasMark_eq,aliasMark_eq] at same
  obtain ⟨marks, rest⟩ := optional_append_inj freeLeft freeRight same
  refine ⟨Option.map_injective ?_ marks, rest⟩
  intro name other equal
  simpa using equal

theorem bound_inj {t u : Sexpr} {a b : Option String} (freeLeft : ∀ args, t ≠ .node "aliasAs" args)
    (freeRight : ∀ args, u ≠ .node "aliasAs" args) (same : t.bound a = u.bound b) :
    a = b ∧ t = u := by
  cases a with
  | none =>
    cases b with
    | none => exact ⟨rfl, same⟩
    | some name => exact absurd same (freeLeft _)
  | some name =>
    cases b with
    | none => exact absurd same.symm (freeRight _)
    | some other => simpa [bound] using same

end Sexpr

/-- Lists are told apart piece by piece. -/
theorem flatMap_inj {α β : Type} {f : α → List β} (nonempty : ∀ a, f a ≠ []) {as bs : List α}
    (head : ∀ a ∈ as, ∀ b ∈ bs, ∀ left right, f a ++ left = f b ++ right → a = b ∧ left = right)
    (same : as.flatMap f = bs.flatMap f) : as = bs := by
  induction as generalizing bs with
  | nil =>
    cases bs with
    | nil => rfl
    | cons b bs => simp [nonempty b] at same
  | cons a as ih =>
    cases bs with
    | nil => simp [nonempty a] at same
    | cons b bs =>
      rw [List.flatMap_cons,List.flatMap_cons] at same
      obtain ⟨sameHead, sameRest⟩ := head a (by simp) b (by simp) _ _ same
      have rest := ih (fun x inside y other => head x (by simp [inside]) y (by simp [other])) sameRest
      rw [sameHead,rest]

theorem map_inj {α β : Type} {f : α → β} {a b : Option α}
    (each : ∀ x ∈ a, ∀ y ∈ b, f x = f y → x = y) (same : a.map f = b.map f) : a = b := by
  cases a with
  | none => cases b <;> simp at same ⊢
  | some x =>
    cases b with
    | none => simp at same
    | some y => rw [each x rfl y rfl (Option.some.inj same)]

namespace NamedForm

variable {s : Settings}

theorem ext {item other : NamedForm} (name : item.name = other.name)
    (body : item.body = other.body) : item = other := by
  cases item
  cases other
  simp_all

theorem columnTrees_eq (items : List NamedForm) :
    columnTrees s items =
      items.flatMap fun item => Sexpr.aliasMark item.name ++ [item.body.tree s] := by
  induction items with
  | nil => simp [columnTrees]
  | cons item rest ih => simp [columnTrees_cons,ih]

theorem sourceTrees_eq (items : List NamedForm) :
    sourceTrees s items = items.flatMap fun item => [(item.body.tree s).bound item.name] := by
  induction items with
  | nil => simp [sourceTrees]
  | cons item rest ih => simp [sourceTrees_cons,ih]

theorem keyTrees_eq (keys : Option (List NamedForm)) :
    keyTrees s keys = Sexpr.optional "groupBy" (keys.map (columnTrees s)) := by
  cases keys <;> rw [keyTrees] <;> rfl

end NamedForm

namespace NormalForm

variable {s : Settings}

theorem clauseTrees_eq (tag : String) (test : Option NormalForm) :
    clauseTrees s tag test = Sexpr.optional tag (test.map fun a => [a.tree s]) := by
  cases test <;> rw [clauseTrees] <;> rfl

/-- The tags of normal forms other than operators. -/
def ownTags : List String := ["ref", "table", "all", "dot", "query"]

theorem Plain.binary_tree {op : Operator} {left right : NormalForm}
    (plain : (binary op left right).Plain s) : ∃ name, s.operatorNames.name? op = some name ∧
      (binary op left right).tree s = .node name [left.tree s, right.tree s] := by
  obtain ⟨contained, -⟩ := plain_binary.mp plain
  obtain ⟨name, named⟩ := Option.isSome_iff_exists.mp contained
  exact ⟨name, named, by rw [tree,named,Option.getD_some]⟩

theorem Plain.tag_of_tree {a : NormalForm} (plain : a.Plain s) {tag : String} {args : List Sexpr}
    (tree : a.tree s = .node tag args) : tag ∈ ownTags ∨
      ∃ op left right, a = .binary op left right ∧ s.operatorNames.name? op = some tag := by
  cases a with
  | binary op left right =>
    obtain ⟨name, named, written⟩ := plain.binary_tree
    rw [written] at tree
    cases tree
    exact .inr ⟨op, left, right, rfl, named⟩
  | kept n => exact absurd plain not_plain_kept
  | _ => simp_all [NormalForm.tree,ownTags]

/-- No other normal form has the same tree. -/
def Determined (s : Settings) (a : NormalForm) : Prop :=
  ∀ b : NormalForm, b.Plain s → a.tree s = b.tree s → a = b

end NormalForm

section

variable {s : Settings} (free : s.HasFreeNames)

include free

namespace NormalForm

theorem Plain.binary_tree_ne {op : Operator} {left right : NormalForm}
    (plain : (binary op left right).Plain s) {tag : String} (fixed : tag ∈ Sexpr.fixedTags)
    (args : List Sexpr) : (binary op left right).tree s ≠ .node tag args := by
  intro same
  obtain ⟨name, named, written⟩ := plain.binary_tree
  rw [written] at same
  cases same
  exact free op tag named fixed

/-- No expression has the tag of a mark. -/
theorem Plain.tree_ne_mark {a : NormalForm} (plain : a.Plain s) {tag : String}
    (mark : tag ∈ Sexpr.markTags) (args : List Sexpr) : a.tree s ≠ .node tag args := by
  intro tree
  have apart : ∀ mark ∈ Sexpr.markTags, mark ∈ Sexpr.fixedTags ∧ mark ∉ ownTags := by decide
  obtain ⟨fixed, other⟩ := apart tag mark
  rcases plain.tag_of_tree tree with own | ⟨op, left, right, rfl, named⟩
  · exact other own
  · exact free op tag named fixed

theorem Plain.not_ledBy_mark {a : NormalForm} (plain : a.Plain s) {tag : String}
    (mark : tag ∈ Sexpr.markTags) (rest : List Sexpr) :
    ¬Sexpr.LedBy tag (a.tree s :: rest) := by
  rintro ⟨args, others, same⟩
  exact plain.tree_ne_mark free mark args (List.cons.inj same).1

end NormalForm

theorem NamedForm.not_ledBy_distinct {items : List NamedForm}
    (plain : ∀ item ∈ items, item.body.Plain s) :
    ¬Sexpr.LedBy "distinct" (columnTrees s items) := by
  cases items with
  | nil =>
    rw [columnTrees]
    exact Sexpr.not_ledBy_nil
  | cons item rest =>
    rw [columnTrees_cons,Sexpr.aliasMark_eq]
    have first := plain item (by simp)
    exact Sexpr.not_ledBy_optional (by decide) (first.not_ledBy_mark free (by decide) _)

end

section

variable {s : Settings} (names : s.Unambiguous)

include names

namespace NamedForm

theorem columnTrees_inj {items others : List NamedForm}
    (determined : ∀ item ∈ items, item.body.Determined s)
    (plain : ∀ item ∈ items, item.body.Plain s) (otherPlain : ∀ item ∈ others, item.body.Plain s)
    (same : columnTrees s items = columnTrees s others) : items = others := by
  rw [columnTrees_eq,columnTrees_eq] at same
  refine flatMap_inj (by simp) ?_ same
  intro item member other otherMember left right equal
  have otherPlain := otherPlain other otherMember
  rw [List.append_assoc,List.append_assoc] at equal
  obtain ⟨sameName, equal⟩ := Sexpr.aliasMark_append_inj
    ((plain item member).not_ledBy_mark names.free (by decide) _)
    (otherPlain.not_ledBy_mark names.free (by decide) _) equal
  obtain ⟨sameTree, sameRest⟩ := List.cons.inj equal
  exact ⟨ext sameName (determined item member other.body otherPlain sameTree), sameRest⟩

theorem sourceTrees_inj {items others : List NamedForm}
    (determined : ∀ item ∈ items, item.body.Determined s)
    (plain : ∀ item ∈ items, item.body.Plain s) (otherPlain : ∀ item ∈ others, item.body.Plain s)
    (same : sourceTrees s items = sourceTrees s others) : items = others := by
  rw [sourceTrees_eq,sourceTrees_eq] at same
  refine flatMap_inj (by simp) ?_ same
  intro item member other otherMember left right equal
  have otherPlain := otherPlain other otherMember
  obtain ⟨sameSource, sameRest⟩ := List.cons.inj equal
  obtain ⟨sameName, sameTree⟩ := Sexpr.bound_inj
    ((plain item member).tree_ne_mark names.free (by decide))
    (otherPlain.tree_ne_mark names.free (by decide)) sameSource
  exact ⟨ext sameName (determined item member other.body otherPlain sameTree), sameRest⟩

end NamedForm

namespace NormalForm

theorem block_determined {distinct : Bool} {columns sources : List NamedForm}
    {whereTest havingTest : Option NormalForm} {keys : Option (List NamedForm)}
    (plain : (block distinct columns sources whereTest keys havingTest).Plain s)
    (determined : ∀ part ∈ (block distinct columns sources whereTest keys havingTest).parts,
      part.Determined s) :
    (block distinct columns sources whereTest keys havingTest).Determined s := by
  intro b otherPlain same
  cases b with
  | block distinct' columns' sources' whereTest' keys' havingTest' =>
    simp only [parts,List.mem_append,or_imp,forall_and,List.forall_mem_map,
      Option.mem_toList] at determined
    obtain ⟨onColumns, onSources, onWhere, onKeys, onHaving⟩ := determined
    obtain ⟨columnsPlain, sourcesPlain, -, keysPlain, -⟩ := plain_block.mp plain
    obtain ⟨columnsPlain', sourcesPlain', wherePlain', keysPlain', havingPlain'⟩ :=
      plain_block.mp otherPlain
    -- SELECT and FROM are always there; behind them the clauses are told apart by their tags.
    simp only [tree,Sexpr.node.injEq,List.cons.injEq,true_and] at same
    obtain ⟨sameSelect, sameSources, sameClauses⟩ := same
    obtain ⟨rfl, sameColumns⟩ := Sexpr.distinctMark_append_inj
      (NamedForm.not_ledBy_distinct names.free columnsPlain)
      (NamedForm.not_ledBy_distinct names.free columnsPlain') sameSelect
    simp only [clauseTrees_eq,NamedForm.keyTrees_eq] at sameClauses
    obtain ⟨sameWhere, sameKeys, sameHaving⟩ := Sexpr.clauses_inj sameClauses
    have tests {test other : Option NormalForm} (each : ∀ a ∈ test, a.Determined s)
        (otherPlain : ∀ b ∈ other, b.Plain s)
        (same : (test.map fun a => [a.tree s]) = other.map fun a => [a.tree s]) : test = other :=
      map_inj (fun a inside b member equal =>
        each a inside b (otherPlain b member) (List.cons.inj equal).1) same
    have keysEqual : keys = keys' := by
      refine map_inj ?_ sameKeys
      rintro items rfl others rfl equal
      exact NamedForm.columnTrees_inj names onKeys keysPlain keysPlain' equal
    rw [NamedForm.columnTrees_inj names onColumns columnsPlain columnsPlain' sameColumns,
      NamedForm.sourceTrees_inj names onSources sourcesPlain sourcesPlain' sameSources,
      tests onWhere wherePlain' sameWhere,keysEqual,tests onHaving havingPlain' sameHaving]
  | binary => exact absurd same.symm (otherPlain.binary_tree_ne names.free (by decide) _)
  | _ => simp [tree] at same

theorem combined_determined {op : SetOperator} {distinct : Bool} {left right : NormalForm}
    (plain : (combined op distinct left right).Plain s) (onLeft : left.Determined s)
    (onRight : right.Determined s) : (combined op distinct left right).Determined s := by
  intro b otherPlain same
  cases b with
  | combined op' distinct' left' right' =>
    obtain ⟨tagged, leftPlain, -⟩ := plain_combined.mp plain
    obtain ⟨tagged', leftPlain', rightPlain'⟩ := plain_combined.mp otherPlain
    simp only [tree,Sexpr.node.injEq,List.cons.injEq,true_and,and_true] at same
    obtain ⟨sameTag, sameArgs⟩ := same
    obtain ⟨rfl, sameSides⟩ := Sexpr.distinctMark_append_inj
      (leftPlain.not_ledBy_mark names.free (by decide) _)
      (leftPlain'.not_ledBy_mark names.free (by decide) _) sameArgs
    simp only [List.cons.injEq,and_true] at sameSides
    have sameOp : op = op' := by
      cases op <;> cases op' <;> simp [SetOperator.tag?] at tagged tagged' sameTag ⊢
    rw [sameOp,onLeft left' leftPlain' sameSides.1,onRight right' rightPlain' sameSides.2]
  | binary => exact absurd same.symm (otherPlain.binary_tree_ne names.free (by decide) _)
  | _ => simp [tree] at same

theorem binary_determined {op : Operator} {left right : NormalForm}
    (plain : (binary op left right).Plain s) (onLeft : left.Determined s)
    (onRight : right.Determined s) : (binary op left right).Determined s := by
  intro b otherPlain same
  obtain ⟨name, named, written⟩ := plain.binary_tree
  rw [written] at same
  rcases otherPlain.tag_of_tree same.symm with own | ⟨op', left', right', rfl, named'⟩
  · have fixed : ∀ tag ∈ ownTags, tag ∈ Sexpr.fixedTags := by decide
    exact absurd (fixed name own) (names.free op name named)
  · obtain ⟨-, leftPlain', rightPlain'⟩ := plain_binary.mp otherPlain
    simp only [tree,Sexpr.node.injEq,List.cons.injEq,and_true] at same
    rw [names.different op op' name named named',onLeft left' leftPlain' same.2.1,
      onRight right' rightPlain' same.2.2]

omit names in
theorem repr_ne_truth (value : Int) (truth : Bool) :
    value.repr ≠ if truth then "true" else "false" := by
  intro same
  have read := Int.toInt?_repr value
  rw [same] at read
  cases truth
  · have unread : "false".toInt? = none := by cbv
    simp [unread] at read
  · have unread : "true".toInt? = none := by cbv
    simp [unread] at read

/-- Different normal forms have different trees. -/
theorem determined (a : NormalForm) (plain : a.Plain s) : a.Determined s := by
  induction a using NormalForm.induction with
  | step a parts =>
  have inner : ∀ part ∈ a.parts, part.Determined s := fun part member =>
    parts part member ((plain_iff.mp plain).2 part member)
  cases a with
  | block => exact block_determined names plain inner
  | combined op distinct left right =>
    exact combined_determined names plain (inner left (by simp [NormalForm.parts]))
      (inner right (by simp [NormalForm.parts]))
  | binary op left right =>
    exact binary_determined names plain (inner left (by simp [NormalForm.parts]))
      (inner right (by simp [NormalForm.parts]))
  | field base name =>
    intro b otherPlain same
    cases b with
    | field base' name' =>
      simp only [tree,Sexpr.node.injEq,List.cons.injEq,Sexpr.string.injEq,true_and,and_true] at same
      have sameBase := inner base (by simp [NormalForm.parts]) base' (plain_field.mp otherPlain) same.2
      rw [same.1,sameBase]
    | binary => exact absurd same.symm (otherPlain.binary_tree_ne names.free (by decide) _)
    | _ => simp [tree] at same
  | number value =>
    intro b otherPlain same
    cases b with
    | number other =>
      simp only [tree,Sexpr.atom.injEq,Int.toString_eq_repr] at same
      rw [Int.repr_injective same]
    | truth other =>
      simp only [tree,Sexpr.atom.injEq,Int.toString_eq_repr] at same
      exact absurd same (repr_ne_truth value other)
    | _ => simp [tree] at same
  | truth value =>
    intro b otherPlain same
    cases b with
    | truth other => cases value <;> cases other <;> simp [tree] at same ⊢
    | number other =>
      simp only [tree,Sexpr.atom.injEq,Int.toString_eq_repr] at same
      exact absurd same.symm (repr_ne_truth other value)
    | _ => simp [tree] at same
  | kept n => exact absurd plain not_plain_kept
  | text =>
    intro b otherPlain same
    cases b <;> simp_all [tree]
  | ref | table | star =>
    intro b otherPlain same
    cases b with
    | binary => exact absurd same.symm (otherPlain.binary_tree_ne names.free (by decide) _)
    | _ => simp_all [tree]

end NormalForm

end

/-- Two queries are encoded alike exactly if they have the same normal form. -/
theorem Query.encoded_eq_iff_norm_eq (s : Settings) (names : s.Unambiguous) (q r : Query)
    (text other : String) (encoded : (Node.query q).encoded s = .ok text)
    (otherEncoded : (Node.query r).encoded s = .ok other) :
    text = other ↔ q.norm = r.norm := by
  obtain ⟨encodable, rfl⟩ := Node.encodable_of_encoded encoded
  obtain ⟨otherEncodable, rfl⟩ := Node.encodable_of_encoded otherEncoded
  have stands : q.norm.Stands s (q.forest s) := encodable.agrees
  have otherStands : r.norm.Stands s (r.forest s) := otherEncodable.agrees
  have wellFormed := encodable.wellFormed names.tokens
  have otherWellFormed := otherEncodable.wellFormed names.tokens
  rw [Node.forest,stands.trees_eq] at wellFormed ⊢
  rw [Node.forest,otherStands.trees_eq] at otherWellFormed ⊢
  constructor
  · intro same
    -- Reading the one text gives both trees.
    have reads := (Sexpr.readsAs_trimEnd wellFormed).1
    rw [same,(Sexpr.readsAs_trimEnd otherWellFormed).1] at reads
    have sameTree := Except.ok.inj reads.symm
    exact NormalForm.determined names q.norm stands.plain r.norm otherStands.plain sameTree
  · intro same
    rw [same]

/-- `selectWhere` as a subquery, with its number and its variables stored otherwise. -/
def Query.Sample.storedOtherwise : Query :=
  ⟨.select (Select.ofBlock ((Block.of (.regular [.named (.ofName "$x") "x"])
    [.table "t" "$x"]).withWhere
    (.binary (.var ⟨⟨"x", true⟩, true⟩) .gt (.literal (.long 1))))).asSubquery, false⟩

theorem Query.encoded_eq_iff_norm_eq_selectWhere :
    ∃ text other, (Node.query Sample.selectWhere).encoded {} = .ok text ∧
      (Node.query Sample.storedOtherwise).encoded {} = .ok other ∧
      Sample.selectWhere.norm = Sample.storedOtherwise.norm ∧ text = other := by
  have encoded : (Node.query Sample.selectWhere).encoded {} =
      .ok ("(query (select (ref \"x\" ) ) (from (aliasAs \"x\" (table \"t\" ) ) ) " ++
        "(where (greater_than (ref \"x\" ) 1 ) ) )") := by decide +kernel
  have otherEncoded : (Node.query Sample.storedOtherwise).encoded {} =
      .ok ("(query (select (ref \"x\" ) ) (from (aliasAs \"x\" (table \"t\" ) ) ) " ++
        "(where (greater_than (ref \"x\" ) 1 ) ) )") := by decide +kernel
  have same : Sample.selectWhere.norm = Sample.storedOtherwise.norm := rfl
  have names : Settings.Unambiguous {} := by decide +kernel
  exact ⟨_, _, encoded, otherEncoded, same,
    (Query.encoded_eq_iff_norm_eq {} names _ _ _ _ encoded otherEncoded).mpr same⟩

end QueryLowering
