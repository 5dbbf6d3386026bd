import QueryLowering.Proofs.Children
import QueryLowering.Proofs.Trace

/-! Every script of a query tree is put together from whole nodes. So it is balanced, and what an
encoding does is its trace. -/
namespace QueryLowering

/-- The tags that do not depend on the settings. -/
def Sexpr.fixedTags : List String :=
  ["query", "select", "from", "where", "groupBy", "having", "union", "intersect", "distinct", "all",
    "as", "aliasAs", "table", "ref", "dot"]

def Settings.IsTag (s : Settings) (tag : String) : Prop :=
  tag ∈ Sexpr.fixedTags ∨ ∃ op, s.operatorNames.name? op = some tag

/-- A script of atoms, strings and whole nodes with tags of the settings, which may give up. -/
inductive Script.Shaped (s : Settings) : Script → Prop
  | nil : Shaped s []
  | atom {text : String} (token : Sexpr.IsToken text) : Shaped s [.write (.atom text)]
  | string (text : String) : Shaped s [.write (.string text)]
  | reject (reason : Rejection) : Shaped s [.reject reason]
  | level {body : Script} (inner : Shaped s body) : Shaped s [.level body]
  | node {tag : String} {body : Script} (allowed : s.IsTag tag) (inner : Shaped s body) :
      Shaped s (Script.node tag body)
  | append {first second : Script} (onFirst : Shaped s first) (onSecond : Shaped s second) :
      Shaped s (first ++ second)

open Script (Shaped)

/-- A right operand around what stands to its left. -/
def RightOperand.around (s : Settings) (left : Script) (r : RightOperand) : Script :=
  match r.op.tag? with
  | some tag =>
    .node "query" (.node tag (Script.distinctMark r.distinct ++ (left ++ r.input.script s)))
  | none => []

theorem SetOperation.openings?_cons (r : RightOperand) (rest : List RightOperand) :
    SetOperation.openings? (r :: rest) =
      r.opening?.bind fun first => (SetOperation.openings? rest).map (· ++ first) := by
  simp only [SetOperation.openings?,List.mapM_cons]
  cases r.opening? <;> cases rest.mapM RightOperand.opening? <;> simp

theorem SetOperation.openings?_eq_none {rights : List RightOperand} :
    SetOperation.openings? rights = none ↔ ∃ r ∈ rights, r.op = .except := by
  induction rights with
  | nil => simp [SetOperation.openings?]
  | cons r rest ih =>
    obtain ⟨op, distinct, input⟩ := r
    cases op <;> simp [SetOperation.openings?_cons,RightOperand.opening?,SetOperator.tag?,ih]

/-- The openings written ahead of the left operand belong to nodes around it, the first right
operand innermost. -/
theorem SetOperation.script_eq (s : Settings) (rights : List RightOperand) {openings : Script}
    (opened : SetOperation.openings? rights = some openings) (left : Script) :
    openings ++ (left ++ RightOperand.scripts s rights) =
      rights.foldl (RightOperand.around s) left := by
  induction rights generalizing left openings with
  | nil =>
    simp only [SetOperation.openings?,List.mapM_nil,Option.pure_def,Option.map_some,
      Option.some.injEq] at opened
    simp [← opened,RightOperand.scripts]
  | cons r rest ih =>
    obtain ⟨op, distinct, input⟩ := r
    rw [SetOperation.openings?_cons] at opened
    simp only [RightOperand.opening?,Option.bind_eq_some_iff,Option.map_eq_some_iff] at opened
    obtain ⟨first, ⟨tag, tagged, rfl⟩, outer, rest, rfl⟩ := opened
    rw [List.foldl_cons,← ih rest]
    simp [RightOperand.around,tagged,RightOperand.scripts,Script.node,Script.write]

namespace Script.Shaped

variable {s : Settings}

theorem cons {a : Action} {rest : Script} (head : Shaped s [a]) (tail : Shaped s rest) :
    Shaped s (a :: rest) :=
  head.append tail

theorem fixed {tag : String} {body : Script} (member : tag ∈ Sexpr.fixedTags)
    (inner : Shaped s body) : Shaped s (Script.node tag body) :=
  .node (.inl member) inner

theorem distinctMark (distinct : Bool) : Shaped s (Script.distinctMark distinct) := by
  cases distinct
  · exact .nil
  · exact .fixed (by decide) .nil

theorem aliasMark (name : Option String) : Shaped s (Script.aliasMark name) := by
  cases name
  · exact .nil
  · exact .fixed (by decide) (.string _)

theorem flatMap {α : Type} {f : α → Script} {xs : List α} (each : ∀ x ∈ xs, Shaped s (f x)) :
    Shaped s (xs.flatMap f) := by
  induction xs with
  | nil => exact .nil
  | cons x rest ih =>
    exact .append (each x (by simp)) (ih fun y member => each y (by simp [member]))

theorem actions {nodes : List Node} (each : ∀ n ∈ nodes, Shaped s (n.script s)) :
    Shaped s (nodes.map (Node.action s)) := by
  rw [List.map_eq_flatMap]
  exact .flatMap fun n member => .level (each n member)

theorem balanced {script : Script} (shaped : Shaped s script) : Balanced script := by
  induction shaped with
  | nil => exact .nil
  | atom token => exact .atom _
  | string text => exact .string text
  | reject reason => exact .reject reason
  | level _ ih => exact .level ih
  | node _ _ ih => exact .node _ ih
  | append _ _ ihFirst ihSecond => exact .append ihFirst ihSecond

end Script.Shaped

theorem Literal.script_shaped {s : Settings} (l : Literal) : Shaped s l.script := by
  cases l with
  | integer value => exact .atom (Sexpr.isToken_toString _)
  | long value => exact .atom (Sexpr.isToken_toString _)
  | string value => exact .string value
  | «true» => exact .atom (by decide)
  | «false» => exact .atom (by decide)
  | double | float | null | missing => exact .reject _

theorem Expr.script_shaped {s : Settings} {e : Expr}
    (children : ∀ n ∈ e.children, Shaped s (n.script s)) : Shaped s (e.script s) := by
  unfold Expr.script
  split
  all_goals try exact .reject _
  · exact Literal.script_shaped _
  · exact .fixed (by decide) (.string _)
  next left right op =>
    split
    next name named =>
      exact .node (.inr ⟨op, named⟩) (.cons
        (.level (children (.expr left) (by simp [Expr.children])))
        (.level (children (.expr right) (by simp [Expr.children]))))
    next => exact .reject _
  next base name =>
    exact .fixed (by decide)
      (.cons (.string _) (.level (children (.expr base) (by simp [Expr.children]))))
  next query =>
    rw [query.script_eq]
    exact .actions children

theorem SetOperator.tag?_fixed {op : SetOperator} {tag : String} (tagged : op.tag? = some tag) :
    tag ∈ Sexpr.fixedTags := by
  cases op <;> cases tagged <;> decide

theorem RightOperand.around_shaped {s : Settings} {left : Script} {r : RightOperand}
    (leftShaped : Shaped s left) (input : Shaped s (r.input.script s)) :
    Shaped s (r.around s left) := by
  unfold RightOperand.around
  split
  next tag tagged =>
    exact .fixed (by decide) (.fixed (SetOperator.tag?_fixed tagged)
      (.append (.distinctMark _) (.append leftShaped input)))
  · exact .nil

theorem SetOperation.script_shaped {s : Settings} {o : SetOperation}
    (children : ∀ n ∈ o.children, Shaped s (n.script s)) : Shaped s (o.script s) := by
  obtain ⟨left, rights⟩ := o
  have input (i : Operand) (child : i.node ∈ (SetOperation.mk left rights).children) :
      Shaped s (i.script s) := by
    rw [i.script_eq]
    exact .level (children _ child)
  unfold SetOperation.script
  split
  · exact .reject _
  split
  · exact .reject _
  next openings opened =>
    rw [SetOperation.script_eq s rights opened]
    -- The nodes around the left operand grow outwards, one right operand at a time.
    refine List.foldlRecOn rights _ (input left (by simp [SetOperation.children])) ?_
    intro acc shaped r member
    apply RightOperand.around_shaped shaped (input r.input ?_)
    simp only [SetOperation.children,List.mem_cons,List.mem_map]
    exact .inr ⟨r, member, rfl⟩

theorem Block.script_shaped {s : Settings} {b : Block}
    (children : ∀ n ∈ b.children, Shaped s (n.script s)) : Shaped s (b.script s) := by
  obtain ⟨clause, _ | terms, whereTest, groupBy, havingTest⟩ := b
  · simp only [Block.script]
    exact .reject _
  · rw [Block.script_eq]
    refine .fixed (by decide)
      (.append (.fixed (by decide) (.level (children _ (by simp [Block.children])))) ?_)
    exact .actions fun n member => children n (List.mem_of_mem_tail member)

theorem Expr.sourceScript_shaped {s : Settings} {source : Expr}
    (shaped : source.asVariable? = none → Shaped s (source.script s)) :
    Shaped s (source.sourceScript s) := by
  unfold Expr.sourceScript
  split
  · exact .fixed (by decide) (.string _)
  next plain => exact .level (shaped plain)

theorem FromTerm.script_shaped {s : Settings} {t : FromTerm}
    (children : ∀ n ∈ t.children, Shaped s (n.script s)) : Shaped s (t.script s) := by
  obtain ⟨source, binding, _ | position, _ | ⟨c, correlates⟩⟩ := t
  · have inner : Shaped s (source.sourceScript s) :=
      Expr.sourceScript_shaped fun plain =>
        children (.expr source) (by simp [FromTerm.children,plain])
    rw [FromTerm.script_eq]
    split
    · exact .fixed (by decide) (.cons (.string _) inner)
    · exact inner
  all_goals
    simp only [FromTerm.script]
    exact .reject _

theorem Query.script_shaped {s : Settings} {q : Query}
    (children : ∀ n ∈ q.children, Shaped s (n.script s)) : Shaped s (q.script s) := by
  unfold Query.script
  split
  next query same => exact .level (children (.select query) (by simp [Query.children,same]))
  next => exact .reject _

/-- A node's script has this shape as soon as those of the nodes it goes on to have it. -/
theorem Node.script_shaped (s : Settings) (n : Node) : Shaped s (n.script s) := by
  induction n using Node.induction with
  | step n children =>
  cases n with
  | statement value =>
    cases value with
    | query value => exact Query.script_shaped children
    | _ => exact .reject _
  | query value => exact Query.script_shaped children
  | expr value => exact Expr.script_shaped children
  | literal value => exact value.script_shaped
  | var value => exact .fixed (by decide) (.string _)
  | operator operands operators => exact Expr.script_shaped children
  | select value =>
    simp only [Node.script,Select.script_eq]
    exact .actions children
  | setOperation value => exact SetOperation.script_shaped children
  | block value => exact Block.script_shaped children
  | selectClause value =>
    simp only [Node.script,SelectClause.script_eq]
    exact .append (.distinctMark _) (.level (children _ (by simp [Node.children])))
  | selectElement value => exact .reject _
  | selectRegular projections =>
    simp only [Node.script,Projection.scripts_eq]
    exact .actions children
  | projection value =>
    obtain ⟨_ | e, name, _ | _⟩ := value
    · exact .reject _
    · exact .fixed (by decide) .nil
    all_goals
      exact .append (.aliasMark _) (.level (children (.expr e) (by simp [Node.children])))
  | fromClause terms =>
    simp only [Node.script,FromTerm.scripts_eq]
    exact .fixed (by decide) (.actions children)
  | fromTerm value => exact FromTerm.script_shaped children
  | correlate value => exact .reject _
  | whereClause test | havingClause test =>
    exact .fixed (by decide) (.level (children (.expr test) (by simp [Node.children])))
  | groupBy value =>
    obtain ⟨keys, _ | groupVariable⟩ := value
    · simp only [Node.script,Grouping.script,GroupKey.scripts_eq]
      refine .fixed (by decide) (.flatMap fun key member => .append (.aliasMark _) (.level ?_))
      exact children (.expr key.expr) (List.mem_map.mpr ⟨key, member, rfl⟩)
    · exact .reject _
  | orderBy items => exact .reject _
  | limit value => exact .reject _
  | letClause binding value => exact .reject _

/-- Encoding a node adds its trace to the context, and leaves no node open if it succeeds. -/
theorem Node.encode_eq (s : Settings) (n : Node) (c : Context) :
    ∃ opened, n.encode s c = c.after ((n.action s).trace c.limit c.depth) opened ∧
      (((n.action s).trace c.limit c.depth).stop = none → opened = 0) := by
  have run := (Shaped.level (n.script_shaped s)).balanced.run c
  rwa [Script.run_singleton,Script.trace_cons,Script.trace_nil,Trace.andThen_empty] at run

/-- By itself a node has the trimmed text of its trace, unless its trace stops. -/
theorem Node.encoded_eq (s : Settings) (n : Node) :
    n.encoded s = match ((n.action s).trace s.maxDepth 0).stop with
      | none => .ok (Text.trimEnd (Sexpr.textOf ((n.action s).trace s.maxDepth 0).tokens))
      | some reason => .error (.rejected reason) := by
  obtain ⟨opened, encoded, -⟩ := n.encode_eq s s.context
  simp only [Node.encoded,encoded,Context.after]
  cases stop : ((n.action s).trace s.context.limit s.context.depth).stop with
  | none => simp_all [Settings.context,Context.finish,Sexpr.Writer.finish]
  | some reason => simp_all [Settings.context]

end QueryLowering
