import QueryLowering.Proofs.Forest
import QueryLowering.Proofs.Reading

/-! An encoding reads back as the tree that was meant, if all operators have tokens for names. Where
a node stands for several trees, the reader stops at the second one. -/
namespace QueryLowering

open Sexpr (textOf tokensOf)

/-- What a reader makes of the text of these trees. -/
def Sexpr.ReadsAs (text : String) : List Sexpr → Prop
  | [] => Sexpr.read text = .error .emptyInput
  | [t] => Sexpr.read text = .ok t ∧ t.render = text
  | t :: u :: rest =>
    text = textOf t.tokens ++ Text.trimEnd (textOf (tokensOf (u :: rest))) ∧
      Sexpr.read text = .error (.trailingInput (textOf t.tokens).utf8ByteSize)

theorem Sexpr.readsAs_trimEnd {trees : List Sexpr} (wellFormed : ∀ t ∈ trees, t.WellFormed) :
    Sexpr.ReadsAs (Text.trimEnd (textOf (tokensOf trees))) trees := by
  match trees with
  | [] => exact (by decide : Sexpr.read (Text.trimEnd (textOf (tokensOf []))) = .error .emptyInput)
  | [t] =>
    have text : Text.trimEnd (textOf (tokensOf [t])) = t.render := by simp [Sexpr.render]
    rw [text]
    exact ⟨Sexpr.read_render (wellFormed t (by simp)), rfl⟩
  | t :: u :: rest =>
    refine ⟨?_, Sexpr.read_several wellFormed⟩
    have tokens := Sexpr.tokensOf_wellFormed wellFormed
    rw [Sexpr.tokensOf_cons] at tokens ⊢
    exact Sexpr.trimEnd_textOf_append _ (by simp [u.tokens_ne_nil]) tokens

variable {s : Settings}

theorem Node.encodable_of_encoded {n : Node} {text : String} (encoded : n.encoded s = .ok text) :
    n.Encodable s ∧ text = Text.trimEnd (textOf (tokensOf (n.forest s))) := by
  rw [Node.encoded_eq] at encoded
  split at encoded
  next finished =>
    have encodable : n.Encodable s := .of_stop finished
    rw [encodable.action_tokens finished] at encoded
    exact ⟨encodable, (Except.ok.inj encoded).symm⟩
  next => cases encoded

theorem Node.Encodable.wellFormed {n : Node} (encodable : n.Encodable s)
    (names : s.HasTokenNames) : ∀ t ∈ n.forest s, t.WellFormed :=
  encodable.script_writes.wellFormed names

/-- Nodes that ask for rows. -/
def Node.isQuery : Node → Bool
  | statement _ | query _ | select _ | setOperation _ | block _ => true
  | _ => false

theorem Operand.node_isQuery (o : Operand) : o.node.isQuery = true := by
  cases o <;> rfl

theorem SetOperator.joined_query {op : SetOperator} (supported : op ≠ .except) (distinct : Bool)
    (left right : List Sexpr) : ∃ args, op.joined distinct left right = [.node "query" args] := by
  cases op with
  | except => exact absurd rfl supported
  | union | intersect => exact ⟨_, rfl⟩

theorem RightOperand.forest_query {rights : List RightOperand} {left : List Sexpr}
    (combined : ∀ r ∈ rights, r.op ≠ .except) (start : ∃ args, left = [.node "query" args]) :
    ∃ args, RightOperand.forest s left rights = [.node "query" args] := by
  rw [RightOperand.forest_eq]
  induction rights generalizing left with
  | nil => exact start
  | cons r rest ih =>
    apply ih fun r member => combined r (by simp [member])
    exact SetOperator.joined_query (combined r (by simp)) _ _ _

theorem Query.forest_query {q : Query} (passed : q.fault? = none)
    (children : ∀ n ∈ q.children, n.isQuery = true → ∃ args, n.forest s = [.node "query" args]) :
    ∃ args, q.forest s = [.node "query" args] := by
  obtain ⟨body, topLevel⟩ := q
  cases body with
  | select value => exact children (.select value) (by simp [Query.children]) rfl
  | _ => cases passed

/-- A query that can be encoded is one tree. -/
theorem Node.Encodable.forest_query {n : Node} (encodable : n.Encodable s)
    (query : n.isQuery = true) : ∃ args, n.forest s = [.node "query" args] := by
  induction encodable with
  | @intro n passed below children =>
  cases n with
  | statement value =>
    cases value with
    | query value => exact Query.forest_query passed children
    | _ => cases passed
  | query value => exact Query.forest_query passed children
  | select value =>
    rw [Node.children,Select.eq_of_encodable below] at children
    have body := children (.setOperation value.body) (by simp [Select.children]) rfl
    rw [Select.eq_of_encodable below]
    simpa [Node.forest,Select.forest] using body
  | setOperation value =>
    rw [Node.forest,SetOperation.forest_eq]
    apply RightOperand.forest_query (SetOperation.combined_of_passed passed)
    exact children value.left.node (by simp [Node.children,SetOperation.children])
      value.left.node_isQuery
  | block value =>
    obtain ⟨clause, _ | terms, whereTest, groupBy, havingTest⟩ := value
    · cases passed
    · exact ⟨_, by rw [Node.forest,Block.forest_eq]⟩
  | _ => cases query

theorem Query.read_of_encoded {q : Query} {text : String} (names : s.HasTokenNames)
    (encoded : (Node.query q).encoded s = .ok text) :
    ∃ t, t.WellFormed ∧ q.forest s = [t] ∧ Sexpr.read text = .ok t := by
  obtain ⟨encodable, rfl⟩ := Node.encodable_of_encoded encoded
  obtain ⟨args, single⟩ := encodable.forest_query rfl
  have wellFormed := encodable.wellFormed names
  rw [single] at wellFormed ⊢
  exact ⟨_, wellFormed _ (by simp), single, (Sexpr.readsAs_trimEnd wellFormed).1⟩

/-- An operator of any name is encoded between two numbers. -/
theorem Expr.binary_encoded {op : Operator} {name : String} (deep : 2 ≤ s.maxDepth)
    (named : s.operatorNames.name? op = some name) :
    ∃ text args, (Node.expr (.binary (.int 1) op (.int 1))).encoded s = .ok text ∧
      (Node.expr (.binary (.int 1) op (.int 1))).forest s = [.node name args] := by
  have finished : (((Node.expr (.binary (.int 1) op (.int 1))).action s).trace s.maxDepth 0).stop =
      none := by
    have first : ¬s.maxDepth < 1 := by omega
    have second : ¬s.maxDepth < 2 := by omega
    simp [Node.trace_stop,Node.visits_eq,Visit.fault?,Node.fault?,Node.children,Expr.children,
      Expr.fault?,Operator.fault?,Literal.fault?,Expr.binary,Expr.int,OperatorNames.contains,named,
      first,second]
  rw [Node.encoded_eq,finished]
  exact ⟨_, _, rfl, by rw [Node.forest,Expr.binary,Expr.forest,named]⟩

/-- With tokens for operator names every encoding reads back: one tree as itself, no tree as empty
input, and of several the second is refused where it begins. A query is always one tree. With any
other operator name some expression does not read back. -/
theorem Node.encoded_reads_back (s : Settings) :
    (s.HasTokenNames →
      (∀ (n : Node) (text : String), n.encoded s = .ok text → Sexpr.ReadsAs text (n.forest s)) ∧
      (∀ q text, (Node.query q).encoded s = .ok text →
        ∃ args, Sexpr.read text = .ok (.node "query" args)) ∧
      (∀ q text, (Node.statement q).encoded s = .ok text →
        ∃ args, Sexpr.read text = .ok (.node "query" args))) ∧
    (∀ op name, 2 ≤ s.maxDepth → s.operatorNames.name? op = some name → ¬Sexpr.IsToken name →
      ∃ e text t, (Node.expr e).encoded s = .ok text ∧ (Node.expr e).forest s = [t] ∧
        Sexpr.read text ≠ .ok t) := by
  constructor
  · intro names
    have reads (n : Node) (text : String) (encoded : n.encoded s = .ok text) :
        Sexpr.ReadsAs text (n.forest s) := by
      obtain ⟨encodable, rfl⟩ := Node.encodable_of_encoded encoded
      exact Sexpr.readsAs_trimEnd (encodable.wellFormed names)
    have query (n : Node) (isQuery : n.isQuery = true) (text : String)
        (encoded : n.encoded s = .ok text) :
        ∃ args, Sexpr.read text = .ok (.node "query" args) := by
      obtain ⟨args, single⟩ := (Node.encodable_of_encoded encoded).1.forest_query isQuery
      have whole := reads n text encoded
      rw [single] at whole
      exact ⟨args, whole.1⟩
    exact ⟨reads, fun q => query (.query q) rfl, fun q => query (.statement q) rfl⟩
  · intro op name deep named bad
    obtain ⟨text, args, encoded, forest⟩ := Expr.binary_encoded deep named
    refine ⟨_, text, _, encoded, forest, fun read => bad ?_⟩
    -- A reader returns no tree whose tag is not a token.
    have wellFormed := Sexpr.read_wellFormed read
    exact wellFormed.1

/-- A column with quotes, brackets and blanks in it, behind its alias; and an operator name with a
blank. -/
theorem Node.encoded_reads_back_column :
    (∃ text, (Node.projection
        (.named (.binary (.text "a \"b\" (c)") .gt (.int 1)) "\u3000é")).encoded {} = .ok text ∧
      Sexpr.read text = .error (.trailingInput 14)) ∧
    ∃ e text t,
      (Node.expr e).encoded { operatorNames := .ofList [(.gt, "greater than")] } = .ok text ∧
      (Node.expr e).forest { operatorNames := .ofList [(.gt, "greater than")] } = [t] ∧
      Sexpr.read text ≠ .ok t := by
  have forest : (Node.projection
      (.named (.binary (.text "a \"b\" (c)") .gt (.int 1)) "\u3000é")).forest {} =
      [.node "as" [.string "\u3000é"],
        .node "greater_than" [.string "a \"b\" (c)", .atom "1"]] := by decide +kernel
  have encoded : (Node.projection
      (.named (.binary (.text "a \"b\" (c)") .gt (.int 1)) "\u3000é")).encoded {} =
      .ok "(as \"\u3000é\" ) (greater_than \"a \\\"b\\\" (c)\" 1 )" := by decide +kernel
  have reads := ((Node.encoded_reads_back {}).1 (by decide)).1 _ _ encoded
  rw [forest] at reads
  have size : (textOf (Sexpr.node "as" [.string "\u3000é"]).tokens).utf8ByteSize = 14 := by decide
  refine ⟨⟨_, encoded, ?_⟩, (Node.encoded_reads_back _).2 .gt "greater than" ?_ ?_ ?_⟩
  · rw [← size]
    exact reads.2
  all_goals decide

end QueryLowering
