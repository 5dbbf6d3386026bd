import QueryLowering.Proofs.Walk
import QueryLowering.Query.Build

/-! An encoding in the middle of others. A context contributes only the number of levels it has left:
the same tokens are added to any text, and the nodes open before stay open. Only the numbers in the
error of a limit that was met tell one context from another. -/
namespace QueryLowering

/-- The same reason under another limit. A limit that is met is always exceeded by one. -/
def Rejection.under (limit : Nat) : Rejection → Rejection
  | tooDeep _ _ => tooDeep (limit + 1) limit
  | reason => reason

def Stop.under (limit : Nat) : Stop → Stop
  | rejected reason => rejected (reason.under limit)
  | unmatchedClose => unmatchedClose

theorem Rejection.under_of_kind {reason : Rejection} {kind : NodeKind} (limit : Nat)
    (named : reason.kind? = some kind) : reason.under limit = reason := by
  cases reason with
  | tooDeep => cases named
  | _ => rfl

/-- Two traces that write the same, and give up both or neither. -/
structure Trace.Alike (a b : Trace) : Prop where
  tokens : a.tokens = b.tokens
  finished : a.stop = none ↔ b.stop = none

theorem Trace.Alike.refl (a : Trace) : a.Alike a := ⟨rfl, Iff.rfl⟩

theorem Trace.Alike.andThen {a a' b b' : Trace} (first : a.Alike a') (second : b.Alike b') :
    (a.andThen b).Alike (a'.andThen b') := by
  by_cases finished : a.stop = none
  · rw [andThen_of_stop_none _ finished,andThen_of_stop_none _ (first.finished.mp finished)]
    exact ⟨by rw [first.tokens,second.tokens], second.finished⟩
  · have stopped : a'.stop ≠ none := fun other => finished (first.finished.mpr other)
    rw [andThen_of_stop_ne_none _ finished,andThen_of_stop_ne_none _ stopped]
    exact first

mutual
theorem Action.trace_raised (limit depth raise : Nat) :
    (a : Action) → (a.trace (limit + raise) (depth + raise)).Alike (a.trace limit depth)
  | .write token => by
    simp only [Action.trace]
    exact .refl _
  | .reject reason => by
    simp only [Action.trace]
    exact .refl _
  | .level body => by
    simp only [Action.trace]
    by_cases deep : limit ≤ depth
    · rw [if_pos deep,if_pos (by omega)]
      exact ⟨rfl, by simp⟩
    · rw [if_neg deep,if_neg (by omega),Nat.add_right_comm depth raise 1]
      exact Script.trace_raised limit (depth + 1) raise body
/-- What is written depends on how many levels are left, not on how many are taken. -/
theorem Script.trace_raised (limit depth raise : Nat) : (script : List Action) →
    (Script.trace (limit + raise) (depth + raise) script).Alike (Script.trace limit depth script)
  | [] => by
    simp only [Script.trace_nil]
    exact .refl _
  | a :: rest => by
    simp only [Script.trace_cons]
    exact (Action.trace_raised limit depth raise a).andThen
      (Script.trace_raised limit depth raise rest)
end

section

variable {s : Settings}

theorem Literal.fault?_kind {l : Literal} {reason : Rejection} (failed : l.fault? = some reason) :
    ∃ kind, reason.kind? = some kind := by
  unfold Literal.fault? at failed
  split at failed
  all_goals cases failed
  all_goals exact ⟨_, rfl⟩

theorem Operator.fault?_kind {operands : List Expr} {operators : List Operator}
    {reason : Rejection} (failed : Operator.fault? s operands operators = some reason) :
    ∃ kind, reason.kind? = some kind := by
  unfold Operator.fault? at failed
  split at failed
  · split at failed
    all_goals cases failed
    exact ⟨_, rfl⟩
  · cases failed
    exact ⟨_, rfl⟩

theorem Expr.fault?_kind {e : Expr} {reason : Rejection} (failed : e.fault? s = some reason) :
    ∃ kind, reason.kind? = some kind := by
  cases e with
  | literal value => exact Literal.fault?_kind failed
  | operator operands operators => exact Operator.fault?_kind failed
  | var | field | select => cases failed
  | _ =>
    cases failed
    exact ⟨_, rfl⟩

theorem Query.fault?_kind {q : Query} {reason : Rejection} (failed : q.fault? = some reason) :
    ∃ kind, reason.kind? = some kind := by
  unfold Query.fault? at failed
  split at failed
  all_goals cases failed
  exact ⟨_, rfl⟩

/-- The checks of a node name the kind of what they refuse; the limit on levels is none of them. -/
theorem Node.fault?_kind {n : Node} {reason : Rejection} (failed : n.fault? s = some reason) :
    ∃ kind, reason.kind? = some kind := by
  cases n with
  | statement value =>
    cases value with
    | query value => exact Query.fault?_kind failed
    | _ =>
      cases failed
      exact ⟨_, rfl⟩
  | query value => exact Query.fault?_kind failed
  | expr value => exact Expr.fault?_kind failed
  | literal value => exact Literal.fault?_kind failed
  | operator operands operators => exact Operator.fault?_kind failed
  | setOperation value =>
    simp only [Node.fault?,SetOperation.fault?] at failed
    split at failed
    · cases failed
      exact ⟨_, rfl⟩
    · split at failed
      all_goals cases failed
      exact ⟨_, rfl⟩
  | fromTerm value =>
    simp only [Node.fault?,FromTerm.fault?] at failed
    split at failed
    all_goals cases failed
    all_goals exact ⟨_, rfl⟩
  | projection value =>
    simp only [Node.fault?,Projection.fault?] at failed
    split at failed
    all_goals cases failed
    exact ⟨_, rfl⟩
  | block value | groupBy value =>
    simp only [Node.fault?] at failed
    split at failed
    all_goals cases failed
    exact ⟨_, rfl⟩
  | selectElement | correlate | orderBy | limit | letClause =>
    cases failed
    exact ⟨_, rfl⟩
  | var | select | selectClause | selectRegular | fromClause | whereClause | havingClause =>
    cases failed

theorem Node.fault?_under (n : Node) (limit : Nat) :
    (n.fault? s).map (Rejection.under limit) = n.fault? s := by
  cases failed : n.fault? s with
  | none => rfl
  | some reason =>
    obtain ⟨kind, named⟩ := Node.fault?_kind failed
    rw [Option.map_some,Rejection.under_of_kind limit named]

theorem Node.firstStop_raised {limit depth raise : Nat} {nodes : List Node}
    (each : ∀ n ∈ nodes, ((n.action s).trace (limit + raise) (depth + raise)).stop =
      ((n.action s).trace limit depth).stop.map (Rejection.under (limit + raise))) :
    Node.firstStop s (limit + raise) (depth + raise) nodes =
      (Node.firstStop s limit depth nodes).map (Rejection.under (limit + raise)) := by
  induction nodes with
  | nil => rfl
  | cons n rest ih =>
    rw [Node.firstStop_cons,Node.firstStop_cons,each n (by simp),
      ih fun m member => each m (by simp [member]),Option.map_or]

/-- With as many levels left, an encoding gives up for the same reason. -/
theorem Node.stop_raised (n : Node) {limit depth : Nat} (within : depth ≤ limit) (raise : Nat) :
    ((n.action s).trace (limit + raise) (depth + raise)).stop =
      ((n.action s).trace limit depth).stop.map (Rejection.under (limit + raise)) := by
  induction n using Node.induction generalizing depth with
  | step n children =>
    simp only [Node.action,Action.trace]
    by_cases deep : limit ≤ depth
    · -- A level is refused only at the limit itself, so one level too many is asked for.
      have met : depth = limit := by omega
      rw [if_pos deep,if_pos (by omega),met]
      rfl
    · rw [if_neg deep,if_neg (by omega),Nat.add_right_comm depth raise 1,Node.script_stop,
        Node.script_stop,Option.map_or,Node.fault?_under,Node.firstStop_raised]
      intro child member
      exact children child member (by omega)

end

/-- Encoding into any context adds what encoding into an empty one with as many levels left writes,
and gives up for the same reason, if it does. It never closes a node that it did not open, and leaves
the level where it was.

Levels are natural numbers: `depth + 1` never wraps around, whatever the limit. A counter of machine
words agrees with this as long as `c.limit` is below its largest value, since the level is compared
with the limit before it is raised. -/
theorem Node.encode_framed (s : Settings) (n : Node) (c : Context) (within : c.depth ≤ c.limit) :
    let outcome := n.encode s c
    let fresh := n.encode s { limit := c.limit - c.depth }
    outcome.stop ≠ some .unmatchedClose ∧
    outcome.context.depth = c.depth ∧ outcome.context.limit = c.limit ∧
    outcome.context.writer.text = c.writer.text ++ fresh.context.writer.text ∧
    outcome.stop = fresh.stop.map (Stop.under c.limit) ∧
    (outcome.stop = none → outcome.context.writer.depth = c.writer.depth) ∧
    c.writer.depth ≤ outcome.context.writer.depth := by
  intro outcome fresh
  obtain ⟨opened, run, closed⟩ := n.encode_eq s c
  obtain ⟨freshOpened, freshRun, -⟩ := n.encode_eq s { limit := c.limit - c.depth }
  have left : c.limit - c.depth + c.depth = c.limit := by omega
  have alike := Action.trace_raised (c.limit - c.depth) 0 c.depth (n.action s)
  have stops := n.stop_raised (s := s) (Nat.zero_le (c.limit - c.depth)) c.depth
  rw [left,Nat.zero_add] at alike stops
  simp only [outcome,fresh,run,freshRun,Context.after_stop]
  refine ⟨?_, Context.after_depth, Context.after_limit, ?_, ?_, ?_, Nat.le_add_right _ _⟩
  · intro unmatched
    obtain ⟨reason, -, impossible⟩ := Option.map_eq_some_iff.mp unmatched
    cases impossible
  · simp only [Context.after,alike.tokens,String.empty_append]
  · rw [stops,Option.map_map,Option.map_map]
    rfl
  · intro finished
    rw [closed (Option.map_eq_none_iff.mp finished)]
    rfl

/-- One level is left in the midst of a node, and two are asked for. -/
theorem Node.encode_framed_oneLeft :
    let c : Context := ⟨⟨"(a ", 1⟩, 2, 3⟩
    let n : Node := .expr (.field (.ofName "$x") "f")
    c.depth ≤ c.limit ∧ (n.encode {} { limit := 1 }).stop = some (.rejected (.tooDeep 2 1)) ∧
    (n.encode {} c).context.writer.text = "(a (dot \"f\" " ∧
    (n.encode {} c).stop = some (.rejected (.tooDeep 4 3)) := by
  intro c n
  have within : c.depth ≤ c.limit := by decide
  have fresh : n.encode {} { limit := 1 } =
      ⟨⟨⟨"(dot \"f\" ", 1⟩, 0, 1⟩, some (.rejected (.tooDeep 2 1))⟩ := by decide +kernel
  obtain ⟨-, -, -, text, stop, -⟩ := Node.encode_framed {} n c within
  rw [show c.limit - c.depth = 1 from rfl,fresh] at text stop
  exact ⟨within, by rw [fresh], text, stop⟩

end QueryLowering
