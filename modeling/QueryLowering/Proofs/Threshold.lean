import QueryLowering.Proofs.Framing

/-! How many levels an encoding needs. The calls of an encoder are inside each other, and the greatest
number of them that are active at once is where the limit stops to matter: below it the limit is met,
from there on the outcome is that of a run without a limit. -/
namespace QueryLowering

mutual
/-- The trace of a run that has all the levels it asks for. -/
def Action.freeTrace : Action → Trace
  | .write token => ⟨[token], none⟩
  | .reject reason => ⟨[], some reason⟩
  | .level body => Script.freeTrace body
def Script.freeTrace : List Action → Trace
  | [] => ⟨[], none⟩
  | a :: rest => a.freeTrace.andThen (Script.freeTrace rest)
end

mutual
/-- For every call in a run that has all the levels it asks for, the number of calls that are active
when it has begun. What stands behind an action that gives up is never reached. -/
def Action.calls (active : Nat) : Action → List Nat
  | .write _ | .reject _ => []
  | .level body => (active + 1) :: Script.calls (active + 1) body
def Script.calls (active : Nat) : List Action → List Nat
  | [] => []
  | a :: rest =>
    a.calls active ++ (match a.freeTrace.stop with
      | none => Script.calls active rest
      | some _ => [])
end

/-- The calls in the encoding of a node by itself, the first of them its own. -/
def Node.calls (s : Settings) (n : Node) : List Nat := (n.action s).calls 0

theorem Script.calls_cons_finished {active : Nat} {a : Action} (rest : Script)
    (finished : a.freeTrace.stop = none) :
    Script.calls active (a :: rest) = a.calls active ++ Script.calls active rest := by
  rw [Script.calls,finished]

theorem Script.calls_cons_stopped {active : Nat} {a : Action} (rest : Script)
    (stopped : a.freeTrace.stop ≠ none) :
    Script.calls active (a :: rest) = a.calls active := by
  obtain ⟨reason, stopped⟩ := Option.ne_none_iff_exists'.mp stopped
  rw [Script.calls,stopped,List.append_nil]

mutual
theorem Action.trace_of_calls_le {limit depth : Nat} : (a : Action) →
    (∀ active ∈ a.calls depth, active ≤ limit) → a.trace limit depth = a.freeTrace
  | .write token, _ => by rw [Action.trace,Action.freeTrace]
  | .reject reason, _ => by rw [Action.trace,Action.freeTrace]
  | .level body, enough => by
    rw [Action.calls,List.forall_mem_cons] at enough
    have shallow : ¬limit ≤ depth := by omega
    rw [Action.trace,if_neg shallow,Action.freeTrace]
    exact Script.trace_of_calls_le body enough.2
/-- A limit that no call exceeds does not show. -/
theorem Script.trace_of_calls_le {limit depth : Nat} : (script : List Action) →
    (∀ active ∈ Script.calls depth script, active ≤ limit) →
    Script.trace limit depth script = Script.freeTrace script
  | [], _ => by rw [Script.trace,Script.freeTrace]
  | a :: rest, enough => by
    rw [Script.trace,Script.freeTrace]
    by_cases finished : a.freeTrace.stop = none
    · rw [Script.calls_cons_finished rest finished,List.forall_mem_append] at enough
      rw [Action.trace_of_calls_le a enough.1,Script.trace_of_calls_le rest enough.2]
    · rw [Script.calls_cons_stopped rest finished] at enough
      rw [Action.trace_of_calls_le a enough,Trace.andThen_of_stop_ne_none _ finished,
        Trace.andThen_of_stop_ne_none _ finished]
end

mutual
theorem Action.stop_of_lt_call {limit depth : Nat} (within : depth ≤ limit) : (a : Action) →
    (∃ active ∈ a.calls depth, limit < active) →
    (a.trace limit depth).stop = some (.tooDeep (limit + 1) limit)
  | .write _, exceeded | .reject _, exceeded => by simp [Action.calls] at exceeded
  | .level body, exceeded => by
    rw [Action.calls] at exceeded
    rw [Action.trace]
    by_cases deep : limit ≤ depth
    · have met : depth = limit := by omega
      rw [if_pos deep,met]
    · obtain ⟨active, member, above⟩ := exceeded
      rw [if_neg deep]
      rcases List.mem_cons.mp member with rfl | member
      · omega
      · exact Script.stop_of_lt_call (by omega) body ⟨active, member, above⟩
/-- The first call that is one too many is refused, and none before it was. -/
theorem Script.stop_of_lt_call {limit depth : Nat} (within : depth ≤ limit) :
    (script : List Action) → (∃ active ∈ Script.calls depth script, limit < active) →
    (Script.trace limit depth script).stop = some (.tooDeep (limit + 1) limit)
  | [], exceeded => by simp [Script.calls] at exceeded
  | a :: rest, exceeded => by
    rw [Script.trace,Trace.andThen_stop]
    by_cases early : ∃ active ∈ a.calls depth, limit < active
    · rw [Action.stop_of_lt_call within a early,Option.some_or]
    · have enough : ∀ active ∈ a.calls depth, active ≤ limit := by
        intro active member
        by_contra above
        exact early ⟨active, member, by omega⟩
      rw [Action.trace_of_calls_le a enough]
      obtain ⟨active, member, above⟩ := exceeded
      by_cases finished : a.freeTrace.stop = none
      · rw [Script.calls_cons_finished rest finished] at member
        rcases List.mem_append.mp member with first | later
        · exact absurd ⟨active, first, above⟩ early
        · rw [finished,Option.none_or]
          exact Script.stop_of_lt_call within rest ⟨active, later, above⟩
      · rw [Script.calls_cons_stopped rest finished] at member
        exact absurd ⟨active, member, above⟩ early
end

/-- Nothing in a script depends on the limit on levels, which is the context's to check. -/
theorem Node.script_maxDepth (s : Settings) (n : Node) (limit : Nat) :
    n.script { s with maxDepth := limit } = n.script s := by
  -- No case of these recursions reads the limit, so that the two sides unfold to the same term.
  delta Node.script Statement.script Query.script Expr.script Select.script SetOperation.script
    Block.script SelectClause.script Projection.script Projection.scripts FromTerm.script
    FromTerm.scripts Grouping.script
  rfl

theorem Node.encoded_maxDepth (s : Settings) (n : Node) (limit : Nat) :
    n.encoded { s with maxDepth := limit } = match ((n.action s).trace limit 0).stop with
      | none => .ok (Text.trimEnd (Sexpr.textOf ((n.action s).trace limit 0).tokens))
      | some reason => .error (.rejected reason) := by
  rw [Node.encoded_eq,Node.action,Node.script_maxDepth]
  rfl

/-- A run that has all the levels it asks for names a kind of node when it gives up. -/
theorem Node.freeTrace_stop_kind {s : Settings} {n : Node} {limit : Nat} {reason : Rejection}
    (enough : ∀ active ∈ n.calls s, active ≤ limit)
    (stopped : (n.action s).freeTrace.stop = some reason) : ∃ kind, reason.kind? = some kind := by
  -- Under every limit that is high enough the reason is the same, so it cannot name the limit.
  have named (raised : Nat) (higher : limit ≤ raised) : reason.under raised = reason := by
    have stops := n.stop_raised (s := s) (Nat.zero_le raised) 0
    rw [Nat.add_zero,Nat.add_zero,Action.trace_of_calls_le _ fun active member =>
      Nat.le_trans (enough active member) higher,stopped] at stops
    exact (Option.some.inj stops).symm
  cases reason with
  | unsupported kind detail | malformed kind detail => exact ⟨kind, rfl⟩
  | tooDeep depth bound =>
    have low := named limit (Nat.le_refl _)
    have high := named (limit + 1) (Nat.le_succ _)
    simp only [Rejection.under,Rejection.tooDeep.injEq] at low high
    omega

theorem Node.exists_greatest_call (s : Settings) (n : Node) :
    ∃ most ∈ n.calls s, ∀ active ∈ n.calls s, active ≤ most := by
  have first : 1 ∈ n.calls s := by
    rw [Node.calls,Node.action,Action.calls]
    exact List.mem_cons_self
  obtain ⟨most, greatest⟩ := Option.isSome_iff_exists.mp (List.isSome_max?_of_mem first)
  exact ⟨most, List.max?_eq_some_iff.mp greatest⟩

/-- Let `most` be the greatest number of calls that are active at once when nothing limits them. Under
a lower limit the call that is one too many is refused; under any other the outcome is the same. -/
theorem Node.depth_threshold (s : Settings) (n : Node) :
    ∃ most, 1 ≤ most ∧ (most ∈ n.calls s ∧ ∀ active ∈ n.calls s, active ≤ most) ∧
      (∀ limit < most, n.encoded { s with maxDepth := limit } =
        .error (.rejected (.tooDeep (limit + 1) limit))) ∧
      ((∃ text, ∀ limit ≥ most, n.encoded { s with maxDepth := limit } = .ok text) ∨
        ∃ reason kind, reason.kind? = some kind ∧
          ∀ limit ≥ most, n.encoded { s with maxDepth := limit } = .error (.rejected reason)) := by
  obtain ⟨most, member, greatest⟩ := n.exists_greatest_call s
  have free (limit : Nat) (high : limit ≥ most) :
      (n.action s).trace limit 0 = (n.action s).freeTrace :=
    Action.trace_of_calls_le _ fun active member => Nat.le_trans (greatest active member) high
  refine ⟨most, ?_, ⟨member, greatest⟩, ?_, ?_⟩
  · rw [Node.calls,Node.action,Action.calls] at greatest
    exact greatest 1 List.mem_cons_self
  · intro limit low
    have stop := Action.stop_of_lt_call (Nat.zero_le limit) (n.action s) ⟨most, member, low⟩
    rw [Node.encoded_maxDepth,stop]
  · cases stopped : (n.action s).freeTrace.stop with
    | none =>
      refine .inl ⟨Text.trimEnd (Sexpr.textOf (n.action s).freeTrace.tokens), ?_⟩
      intro limit high
      rw [Node.encoded_maxDepth,free limit high,stopped]
    | some reason =>
      obtain ⟨kind, named⟩ := Node.freeTrace_stop_kind greatest stopped
      refine .inr ⟨reason, kind, named, ?_⟩
      intro limit high
      rw [Node.encoded_maxDepth,free limit high,stopped]

/-- The left operand is refused on the second level, so that the third one, inside the right operand,
is never asked for. -/
theorem Node.depth_threshold_nullFirst :
    let n : Node := .expr (.binary (.literal .null) .gt (.field (.ofName "$x") "f"))
    n.calls {} = [1, 2] ∧ n.encoded { maxDepth := 1 } = .error (.rejected (.tooDeep 2 1)) ∧
    ∀ limit ≥ 2, n.encoded { maxDepth := limit } =
      .error (.rejected (.unsupported .literalExpr "literals of type NULL")) := by
  intro n
  have calls : n.calls {} = [1, 2] := by decide +kernel
  have second : n.encoded { maxDepth := 2 } =
      .error (.rejected (.unsupported .literalExpr "literals of type NULL")) := by decide +kernel
  obtain ⟨most, -, ⟨member, greatest⟩, low, high⟩ := Node.depth_threshold {} n
  rw [calls] at member greatest
  have two : most = 2 := by
    have atLeast := greatest 2 (by simp)
    simp only [List.mem_cons,List.not_mem_nil,or_false] at member
    omega
  subst two
  refine ⟨calls, low 1 (by decide), ?_⟩
  rcases high with ⟨text, same⟩ | ⟨reason, -, -, same⟩
  · have first := same 2 (Nat.le_refl _)
    rw [second] at first
    cases first
  · have first := same 2 (Nat.le_refl _)
    rw [second] at first
    cases first
    exact same

end QueryLowering
