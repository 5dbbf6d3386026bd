import QueryLowering.Rule.Basic

/-! Expansion of chains of rules. The links of a chain are expanded from the last one outwards: a
global step puts its law around what it is given, and a failure passes through all steps around
it. -/
namespace QueryLowering.Rule

variable {t : Template} {templates : List Template} {last : Rule} {rest : Pattern}

@[simp] theorem chain_nil (last : Rule) : chain [] last = last := rfl

@[simp] theorem chain_cons (t : Template) (templates : List Template) (last : Rule) :
    chain (t :: templates) last = step t (chain templates last) := rfl

theorem chain_append (first second : List Template) (last : Rule) :
    chain (first ++ second) last = chain first (chain second last) :=
  List.foldr_append

theorem length_chain (templates : List Template) (last : Rule) :
    (chain templates last).length = templates.length + last.length := by
  induction templates with
  | nil => simp
  | cons t templates ih =>
    simp only [chain_cons,length,List.length_cons]
    omega

theorem expand_step_error {e : RuleError} (failed : last.expand = .error e) :
    (step t last).expand = .error e := by
  rw [expand,failed]
  rfl

theorem expand_step_global (global : t.kind = .global) (expanded : last.expand = .ok rest) :
    (step t last).expand = .ok (globalLaw t.pattern rest) := by
  rw [expand,expanded,global]
  rfl

theorem expand_step_other (other : t.kind ≠ .global) (expanded : last.expand = .ok rest) :
    (step t last).expand = .error (.noLaw t.kind.toRuleKind) := by
  rw [expand,expanded]
  cases kind : t.kind with
  | global => exact absurd kind other
  | when | not => rfl

/-- A failure of the last link is the failure of the chain, whatever the steps are. -/
theorem expand_chain_error {e : RuleError} (failed : last.expand = .error e) :
    (chain templates last).expand = .error e := by
  induction templates with
  | nil => exact failed
  | cons t templates ih => exact expand_step_error ih

theorem expand_chain_global (global : ∀ t ∈ templates, t.kind = .global)
    (expanded : last.expand = .ok rest) :
    (chain templates last).expand =
      .ok ((templates.map Template.pattern).foldr globalLaw rest) := by
  induction templates with
  | nil => exact expanded
  | cons t templates ih =>
    have inner := ih fun u member => global u (by simp [member])
    exact expand_step_global (global t (by simp)) inner

/-- The last step that is not global. -/
def lastOther? (templates : List Template) : Option Template :=
  (templates.filter fun t => t.kind ≠ .global).getLast?

theorem lastOther?_cons (t : Template) (templates : List Template) :
    lastOther? (t :: templates) =
      (lastOther? templates).or (if t.kind = .global then none else some t) := by
  unfold lastOther?
  by_cases global : t.kind = .global
  · simp [global]
  · rw [List.filter_cons_of_pos (by simpa using global),List.getLast?_cons,if_neg global]
    cases (templates.filter fun t => t.kind ≠ .global).getLast? <;> rfl

theorem lastOther?_eq_none {templates : List Template} :
    lastOther? templates = none ↔ ∀ t ∈ templates, t.kind = .global := by
  simp [lastOther?]

/-- Of the steps without a law the innermost is reported: those around it are never looked at. -/
theorem expand_chain_other (other : lastOther? templates = some t)
    (expanded : last.expand = .ok rest) :
    (chain templates last).expand = .error (.noLaw t.kind.toRuleKind) := by
  induction templates with
  | nil => cases other
  | cons u templates ih =>
    rw [lastOther?_cons] at other
    cases deeper : lastOther? templates with
    | some v =>
      rw [deeper,Option.some_or] at other
      exact expand_step_error (ih (deeper.trans other))
    | none =>
      have inner := expand_chain_global (lastOther?_eq_none.mp deeper) expanded
      rw [deeper,Option.none_or] at other
      split at other
      · cases other
      next unlawful =>
        cases other
        exact expand_step_other unlawful inner

/-- A chain of global steps expands to the right fold of their law over their patterns. A chain
whose last link fails, fails like it, and any other chain fails at the last step that is not global.
Chains are put together link by link. -/
theorem chain_expansion (templates more : List Template) (last : Rule) :
    (∀ rest, last.expand = .ok rest → (∀ t ∈ templates, t.kind = .global) →
      (chain templates last).expand =
        .ok ((templates.map Template.pattern).foldr (fun p rest => .unary .flatten
          (.unary .bag (.letEnv (.letIt (.constant "WORLD") p) rest))) rest)) ∧
    (∀ e, last.expand = .error e → (chain templates last).expand = .error e) ∧
    (∀ rest, last.expand = .ok rest → (¬∀ t ∈ templates, t.kind = .global) →
      ∃ t, lastOther? templates = some t ∧
        (chain templates last).expand = .error (.noLaw t.kind.toRuleKind)) ∧
    chain (templates ++ more) last = chain templates (chain more last) ∧
    (chain templates last).length = templates.length + last.length := by
  refine ⟨fun rest expanded global => ?_, fun e failed => ?_, fun rest expanded other => ?_, ?_, ?_⟩
  · exact expand_chain_global global expanded
  · exact expand_chain_error failed
  · rw [← lastOther?_eq_none] at other
    obtain ⟨t, unlawful⟩ := Option.ne_none_iff_exists'.mp other
    exact ⟨t, unlawful, expand_chain_other unlawful expanded⟩
  · exact chain_append templates more last
  · exact length_chain templates last

/-- Two global steps; steps of which two have no law, the inner one reported; and a failure of the
last link, which hides that of the step around it. -/
theorem chain_expansion_mixed :
    (chain [⟨.global, .bind "a"⟩, ⟨.global, .bind "b"⟩] (.returning (.lookup "a"))).expand =
      .ok (.unary .flatten (.unary .bag (.letEnv (.letIt (.constant "WORLD") (.bind "a"))
        (.unary .flatten (.unary .bag (.letEnv (.letIt (.constant "WORLD") (.bind "b"))
          (.unary .bag (.lookup "a")))))))) ∧
    (chain [⟨.when, .bind "a"⟩, ⟨.not, .bind "b"⟩, ⟨.global, .bind "c"⟩]
      (.returning .env)).expand = .error (.noLaw .not) ∧
    (chain [⟨.not, .bind "a"⟩] (.step ⟨.when, .it⟩ (.returning .env))).expand =
      .error (.noLaw .when) := by
  refine ⟨?_, ?_, ?_⟩
  · exact (chain_expansion _ [] _).1 _ rfl (by decide)
  · obtain ⟨t, unlawful, failed⟩ :=
      (chain_expansion [⟨.when, .bind "a"⟩, ⟨.not, .bind "b"⟩, ⟨.global, .bind "c"⟩] []
        (.returning .env)).2.2.1 _ rfl (by decide)
    cases unlawful
    exact failed
  · exact (chain_expansion _ [] _).2.1 _ rfl

end QueryLowering.Rule
