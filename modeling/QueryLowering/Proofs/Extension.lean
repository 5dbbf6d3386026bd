import QueryLowering.Proofs.Balance
import QueryLowering.Query.Sample

/-! Settings that allow more. Whatever depends on the settings is tested before the first token of a
node is written, so under larger settings an encoding goes on where it gave up under smaller ones,
and one that did not give up stays as it was. -/
namespace QueryLowering

/-- Every operator keeps its name, and no limit is lowered. -/
structure Settings.ExtendedBy (s larger : Settings) : Prop where
  names : ∀ op name, s.operatorNames.name? op = some name →
    larger.operatorNames.name? op = some name
  rights : s.maxRights ≤ larger.maxRights
  depth : s.maxDepth ≤ larger.maxDepth

theorem OperatorNames.name?_insert_of_named {names : OperatorNames} {op : Operator}
    (unnamed : names.name? op = none) (added : String) {other : Operator} {name : String}
    (named : names.name? other = some name) : (names.insert op added).name? other = some name := by
  have different : other ≠ op := by
    rintro rfl
    rw [unnamed] at named
    cases named
  rw [OperatorNames.name?_insert_other _ _ different,named]

/-- The second trace goes on from where the first one gave up, if it gave up. -/
structure Trace.ContinuedBy (a b : Trace) : Prop where
  tokens : a.tokens <+: b.tokens
  finished : a.stop = none → b = a

theorem Trace.tokens_prefix_andThen (a b : Trace) : a.tokens <+: (a.andThen b).tokens := by
  obtain ⟨tokens, _ | reason⟩ := a
  · exact List.prefix_append _ _
  · exact List.prefix_refl _

namespace Trace.ContinuedBy

theorem refl (a : Trace) : a.ContinuedBy a := ⟨List.prefix_refl _, fun _ => rfl⟩

theorem rejected (reason : Rejection) (b : Trace) : Trace.ContinuedBy ⟨[], some reason⟩ b :=
  ⟨List.nil_prefix, nofun⟩

theorem andThen {a a' b b' : Trace} (first : a.ContinuedBy a') (second : b.ContinuedBy b') :
    (a.andThen b).ContinuedBy (a'.andThen b') := by
  cases stop : a.stop with
  | none =>
    rw [first.finished stop,andThen_of_stop_none _ stop,andThen_of_stop_none _ stop]
    refine ⟨(List.prefix_append_right_inj _).mpr second.tokens, fun finished => ?_⟩
    rw [second.finished finished]
  | some reason =>
    rw [andThen_of_stop_ne_none (a := a) _ (by simp [stop])]
    refine ⟨first.tokens.trans (tokens_prefix_andThen a' b'), fun finished => ?_⟩
    rw [stop] at finished
    cases finished

end Trace.ContinuedBy

/-- The second script differs from the first one only where that one gives up. -/
inductive Script.ContinuedBy : Script → Script → Prop
  | nil : ContinuedBy [] []
  | write (token : Sexpr.Token) : ContinuedBy [.write token] [.write token]
  | reject (reason : Rejection) (script : Script) : ContinuedBy [.reject reason] script
  | level {body body' : Script} (inner : ContinuedBy body body') :
      ContinuedBy [.level body] [.level body']
  | append {first first' second second' : Script} (onFirst : ContinuedBy first first')
      (onSecond : ContinuedBy second second') : ContinuedBy (first ++ second) (first' ++ second')

namespace Script.ContinuedBy

theorem cons {a a' : Action} {rest rest' : Script} (head : ContinuedBy [a] [a'])
    (tail : ContinuedBy rest rest') : ContinuedBy (a :: rest) (a' :: rest') :=
  head.append tail

mutual
theorem refl_action : (a : Action) → ContinuedBy [a] [a]
  | .write token => .write token
  | .reject reason => .reject reason _
  | .level body => .level (refl body)
theorem refl : (script : List Action) → ContinuedBy script script
  | [] => .nil
  | a :: rest => .cons (refl_action a) (refl rest)
end

theorem node (tag : String) {body body' : Script} (inner : ContinuedBy body body') :
    ContinuedBy (Script.node tag body) (Script.node tag body') :=
  .cons (.write _) (.append inner (.write _))

theorem actions {s larger : Settings} {nodes : List Node}
    (each : ∀ n ∈ nodes, ContinuedBy (n.script s) (n.script larger)) :
    ContinuedBy (nodes.map (Node.action s)) (nodes.map (Node.action larger)) := by
  induction nodes with
  | nil => exact .nil
  | cons n rest ih =>
    exact .cons (.level (each n (by simp))) (ih fun m member => each m (by simp [member]))

/-- A script that goes on further has a trace that goes on further, also under a higher limit. -/
theorem trace {script script' : Script} (continued : ContinuedBy script script')
    {limit limit' : Nat} (raised : limit ≤ limit') (depth : Nat) :
    (Script.trace limit depth script).ContinuedBy (Script.trace limit' depth script') := by
  induction continued generalizing depth with
  | nil =>
    simp only [trace_nil]
    exact .refl _
  | write token =>
    simp only [trace_singleton,Action.trace]
    exact .refl _
  | reject reason script =>
    simp only [trace_singleton,Action.trace]
    exact .rejected reason _
  | level _ ih =>
    simp only [trace_singleton,Action.trace]
    -- The limit is met before anything is written on the new level.
    by_cases deep : limit ≤ depth
    · rw [if_pos deep]
      exact .rejected _ _
    · rw [if_neg deep,if_neg (by omega)]
      exact ih (depth + 1)
  | append _ _ ihFirst ihSecond =>
    simp only [trace_append]
    exact (ihFirst depth).andThen (ihSecond depth)

end Script.ContinuedBy

section

open Script (ContinuedBy)

variable {s larger : Settings}

theorem Operator.script_continued (extended : s.ExtendedBy larger) {operands : List Expr}
    {operators : List Operator}
    (children : ∀ n ∈ (Expr.operator operands operators).children,
      ContinuedBy (n.script s) (n.script larger)) :
    ContinuedBy ((Expr.operator operands operators).script s)
      ((Expr.operator operands operators).script larger) := by
  by_cases binary : ∃ left right op, operands = [left, right] ∧ operators = [op]
  · obtain ⟨left, right, op, rfl, rfl⟩ := binary
    simp only [Expr.script]
    cases named : s.operatorNames.name? op with
    | none => exact .reject _ _
    | some name =>
      rw [extended.names op name named]
      have onLeft := children (.expr left) (by simp [Expr.children])
      have onRight := children (.expr right) (by simp [Expr.children])
      exact .node _ (.cons (.level onLeft) (.level onRight))
  · have refused (left right : Expr) (op : Operator) (two : operands = [left, right])
        (one : operators = [op]) : False := binary ⟨left, right, op, two, one⟩
    rw [Expr.script,Expr.script]
    · exact .refl _
    all_goals exact refused

theorem Expr.script_continued (extended : s.ExtendedBy larger) {e : Expr}
    (children : ∀ n ∈ e.children, ContinuedBy (n.script s) (n.script larger)) :
    ContinuedBy (e.script s) (e.script larger) := by
  cases e with
  | operator operands operators => exact Operator.script_continued extended children
  | field base name =>
    simp only [Expr.script]
    exact .node _ (.cons (.write _) (.level (children (.expr base) (by simp [Expr.children]))))
  | select query =>
    simp only [Expr.script,Select.script_eq]
    exact .actions children
  | _ =>
    simp only [Expr.script]
    exact .refl _

theorem RightOperand.scripts_continued {rights : List RightOperand}
    (each : ∀ r ∈ rights, ContinuedBy (r.input.script s) (r.input.script larger)) :
    ContinuedBy (RightOperand.scripts s rights) (RightOperand.scripts larger rights) := by
  induction rights with
  | nil =>
    simp only [RightOperand.scripts]
    exact .nil
  | cons r rest ih =>
    obtain ⟨op, distinct, input⟩ := r
    simp only [RightOperand.scripts]
    exact .append (each ⟨op, distinct, input⟩ (by simp))
      (.append (.refl _) (ih fun r member => each r (by simp [member])))

/-- The number of right operands is tested before any node is opened. -/
theorem SetOperation.script_continued (extended : s.ExtendedBy larger) {o : SetOperation}
    (children : ∀ n ∈ o.children, ContinuedBy (n.script s) (n.script larger)) :
    ContinuedBy (o.script s) (o.script larger) := by
  obtain ⟨left, rights⟩ := o
  have input (i : Operand) (child : i.node ∈ (SetOperation.mk left rights).children) :
      ContinuedBy (i.script s) (i.script larger) := by
    simp only [i.script_eq]
    exact .level (children _ child)
  simp only [SetOperation.script]
  by_cases many : s.maxRights < rights.length
  · rw [if_pos many]
    exact .reject _ _
  · have few : ¬larger.maxRights < rights.length := by
      have raised := extended.rights
      omega
    rw [if_neg many,if_neg few]
    split
    · exact .refl _
    · refine .append (.refl _) (.append (input left ?_) (RightOperand.scripts_continued ?_))
      · simp [SetOperation.children]
      · intro r member
        apply input
        simp only [SetOperation.children,List.mem_cons,List.mem_map]
        exact .inr ⟨r, member, rfl⟩

theorem Block.script_continued {b : Block}
    (children : ∀ n ∈ b.children, ContinuedBy (n.script s) (n.script larger)) :
    ContinuedBy (b.script s) (b.script larger) := by
  obtain ⟨clause, _ | terms, whereTest, groupBy, havingTest⟩ := b
  · simp only [Block.script]
    exact .refl _
  · simp only [Block.script_eq]
    have onSelect := children (.selectClause clause) (by simp [Block.children])
    exact .node _ (.append (.node _ (.level onSelect))
      (.actions fun n member => children n (List.mem_of_mem_tail member)))

theorem FromTerm.script_continued {t : FromTerm}
    (children : ∀ n ∈ t.children, ContinuedBy (n.script s) (n.script larger)) :
    ContinuedBy (t.script s) (t.script larger) := by
  obtain ⟨source, binding, _ | position, _ | ⟨c, correlates⟩⟩ := t
  · have inner : ContinuedBy (source.sourceScript s) (source.sourceScript larger) := by
      unfold Expr.sourceScript
      cases named : source.asVariable? with
      | none => exact .level (children (.expr source) (by simp [FromTerm.children,named]))
      | some v => exact .refl _
    simp only [FromTerm.script_eq]
    split
    · exact .node _ (.cons (.write _) inner)
    · exact inner
  all_goals
    simp only [FromTerm.script]
    exact .refl _

theorem GroupKey.scripts_continued {keys : List GroupKey}
    (each : ∀ key ∈ keys, ContinuedBy (key.expr.script s) (key.expr.script larger)) :
    ContinuedBy (GroupKey.scripts s keys) (GroupKey.scripts larger keys) := by
  induction keys with
  | nil =>
    simp only [GroupKey.scripts]
    exact .nil
  | cons key rest ih =>
    obtain ⟨e, binding⟩ := key
    simp only [GroupKey.scripts]
    exact .append (.refl _) (.cons (.level (each ⟨e, binding⟩ (by simp)))
      (ih fun key member => each key (by simp [member])))

theorem Query.script_continued {q : Query}
    (children : ∀ n ∈ q.children, ContinuedBy (n.script s) (n.script larger)) :
    ContinuedBy (q.script s) (q.script larger) := by
  obtain ⟨body, topLevel⟩ := q
  cases body with
  | select query =>
    simp only [Query.script_eq]
    exact .level (children (.select query) (by simp [Query.children]))
  | _ => exact .refl _

/-- The script of a node goes on under larger settings as soon as those of its children do. -/
theorem Node.script_continued (extended : s.ExtendedBy larger) (n : Node) :
    ContinuedBy (n.script s) (n.script larger) := by
  induction n using Node.induction with
  | step n children =>
  cases n with
  | statement value =>
    cases value with
    | query value => exact Query.script_continued children
    | _ => exact .refl _
  | query value => exact Query.script_continued children
  | expr value => exact Expr.script_continued extended children
  | operator operands operators => exact Operator.script_continued extended children
  | select value =>
    simp only [Node.script,Select.script_eq]
    exact .actions children
  | setOperation value => exact SetOperation.script_continued extended children
  | block value => exact Block.script_continued children
  | selectClause value =>
    simp only [Node.script,SelectClause.script_eq]
    exact .append (.refl _) (.level (children _ (by simp [Node.children])))
  | selectRegular projections =>
    simp only [Node.script,Projection.scripts_eq]
    exact .actions children
  | projection value =>
    obtain ⟨_ | e, name, star⟩ := value
    · cases star <;> exact .refl _
    · simp only [Node.script,Projection.script]
      exact .append (.refl _) (.level (children (.expr e) (by simp [Node.children])))
  | fromClause terms =>
    simp only [Node.script,FromTerm.scripts_eq]
    exact .node _ (.actions children)
  | fromTerm value => exact FromTerm.script_continued children
  | whereClause test | havingClause test =>
    exact .node _ (.level (children (.expr test) (by simp [Node.children])))
  | groupBy value =>
    obtain ⟨keys, _ | groupVariable⟩ := value
    · simp only [Node.script,Grouping.script]
      exact .node _ (GroupKey.scripts_continued fun key member =>
        children (.expr key.expr) (List.mem_map.mpr ⟨key, member, rfl⟩))
    · exact .refl _
  | literal | var | selectElement | correlate | orderBy | limit | letClause => exact .refl _

end

theorem Node.trace_continued {s larger : Settings} (extended : s.ExtendedBy larger) (n : Node) :
    ((n.action s).trace s.maxDepth 0).ContinuedBy ((n.action larger).trace larger.maxDepth 0) := by
  have continued := (Script.ContinuedBy.level (n.script_continued extended)).trace extended.depth 0
  rwa [Script.trace_singleton,Script.trace_singleton] at continued

theorem Node.written_eq (s : Settings) (n : Node) :
    n.written s = Sexpr.textOf ((n.action s).trace s.maxDepth 0).tokens := by
  obtain ⟨opened, encoded, -⟩ := n.encode_eq s s.context
  rw [Node.written,encoded]
  simp [Context.after,Settings.context]

/-- Under larger settings everything that was written before is written again, before anything
else, and a node that had an encoding has the same one. -/
theorem Node.encoding_conservative {s larger : Settings} (extended : s.ExtendedBy larger)
    (n : Node) :
    (∃ more, n.written larger = n.written s ++ more) ∧
    ∀ text, n.encoded s = .ok text → n.encoded larger = .ok text := by
  have continued := n.trace_continued extended
  constructor
  · obtain ⟨more, tokens⟩ := continued.tokens
    rw [Node.written_eq,Node.written_eq,← tokens,Sexpr.textOf_append]
    exact ⟨_, rfl⟩
  · intro text encoded
    rw [Node.encoded_eq] at encoded ⊢
    cases stop : ((n.action s).trace s.maxDepth 0).stop with
    | none =>
      rw [continued.finished stop,stop]
      rwa [stop] at encoded
    | some reason =>
      rw [stop] at encoded
      cases encoded

/-- A name for one more operator, and higher limits. -/
def Settings.wider : Settings := ⟨OperatorNames.standard.insert .lt "less_than", 2, 300⟩

/-- SELECT x FROM t AS x WHERE x < 1 -/
def Query.Sample.selectBelow : Query :=
  .ofBlock ((Block.of (.regular [.named (.ofName "$x") "x"]) [.table "$t" "$x"]).withWhere
    (.binary (.ofName "$x") .lt (.int 1)))

/-- What was written in front of an operator without a name, and a query that has an encoding. -/
theorem Node.encoding_conservative_wider :
    ({} : Settings).ExtendedBy .wider ∧
    (Node.query Query.Sample.selectBelow).written {} =
      "(query (select (ref \"x\" ) ) (from (aliasAs \"x\" (table \"t\" ) ) ) (where " ∧
    (∃ more, (Node.query Query.Sample.selectBelow).written .wider =
      "(query (select (ref \"x\" ) ) (from (aliasAs \"x\" (table \"t\" ) ) ) (where " ++ more) ∧
    (Node.query Query.Sample.selectStar).encoded .wider =
      .ok "(query (select (all ) ) (from (table \"t\" ) ) )" := by
  have extended : ({} : Settings).ExtendedBy .wider :=
    ⟨fun _ _ => OperatorNames.name?_insert_of_named rfl _, by decide, by decide⟩
  have written : (Node.query Query.Sample.selectBelow).written {} =
      "(query (select (ref \"x\" ) ) (from (aliasAs \"x\" (table \"t\" ) ) ) (where " := by
    decide +kernel
  have encoded : (Node.query Query.Sample.selectStar).encoded {} =
      .ok "(query (select (all ) ) (from (table \"t\" ) ) )" := by decide +kernel
  refine ⟨extended, written, ?_, (Node.encoding_conservative extended _).2 _ encoded⟩
  rw [← written]
  exact (Node.encoding_conservative extended _).1

end QueryLowering
