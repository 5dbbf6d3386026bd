import QueryLowering.Proofs.Chain
import QueryLowering.Proofs.PatternText

/-! A rule is known from its expansion, and from its text. In an expansion the outermost operator
tells a global step from the last link, whatever the patterns of the rule look like. In a text the
pattern of a link ends where its own brackets close, so that nothing in its strings is taken for
another link. -/
namespace QueryLowering

namespace Sexpr

/-- Where two nodes begin the same text they are the same node. -/
theorem render_append_inj {tag tag' : String} {args args' : List Sexpr} {after after' : String}
    (left : (node tag args).WellFormed) (right : (node tag' args').WellFormed)
    (same : (node tag args).render ++ after = (node tag' args').render ++ after') :
    node tag args = node tag' args' := by
  have chars := congrArg String.toList same
  rw [String.toList_append,String.toList_append] at chars
  -- One of the two texts is at least as long, and so begins with the other.
  rcases List.append_eq_append_iff.mp chars with ⟨more, longer, -⟩ | ⟨more, longer, -⟩
  · have text : (node tag' args').render = (node tag args).render ++ String.ofList more := by
      apply String.toList_inj.mp
      rw [String.toList_append,String.toList_ofList,longer]
    exact (eq_of_render_append left right text).symm
  · have text : (node tag args).render = (node tag' args').render ++ String.ofList more := by
      apply String.toList_inj.mp
      rw [String.toList_append,String.toList_ofList,longer]
    exact eq_of_render_append right left text

end Sexpr

theorem Pattern.render_append_inj {p q : Pattern} {after after' : String}
    (same : p.render ++ after = q.render ++ after') : p = q ∧ after = after' := by
  obtain ⟨args, node⟩ := p.toSexpr_node
  obtain ⟨args', node'⟩ := q.toSexpr_node
  have left := p.toSexpr_wellFormed
  have right := q.toSexpr_wellFormed
  have texts : p.toSexpr.render ++ after = q.toSexpr.render ++ after' := by
    rw [← p.render_eq,← q.render_eq,same]
  rw [node] at left texts
  rw [node'] at right texts
  have trees := Sexpr.render_append_inj left right texts
  rw [← node,← node'] at trees
  obtain rfl := toSexpr_injective trees
  exact ⟨rfl, (String.append_right_inj _).mp same⟩

namespace RuleKind

theorem tag_injective : Function.Injective tag := by
  intro kind other same
  cases kind <;> cases other <;> simp [tag] at same ⊢

/-- The tag of a link goes up to the first space. -/
theorem takeWhile_tag (kind : RuleKind) (rest : List Char) :
    (kind.tag.toList ++ ' ' :: rest).takeWhile (· ≠ ' ') = kind.tag.toList := by
  cases kind <;> rfl

end RuleKind

namespace StepKind

theorem toRuleKind_injective : Function.Injective toRuleKind := by
  intro kind other same
  cases kind <;> cases other <;> simp [toRuleKind] at same ⊢

theorem toRuleKind_ne_returning (kind : StepKind) : kind.toRuleKind ≠ .returning := by
  cases kind <;> simp [toRuleKind]

end StepKind

namespace Rule

variable {t : Template} {operand r r' : Rule} {p : Pattern}

/-- A step expands only if it is global and what it is applied to expands. -/
theorem expand_step_eq_ok_iff :
    (step t operand).expand = .ok p ↔
      t.kind = .global ∧ ∃ rest, operand.expand = .ok rest ∧ p = globalLaw t.pattern rest := by
  constructor
  · intro expanded
    cases inner : operand.expand with
    | error e =>
      rw [expand_step_error inner] at expanded
      cases expanded
    | ok rest =>
      by_cases global : t.kind = .global
      · rw [expand_step_global global inner] at expanded
        exact ⟨global, rest, rfl, (Except.ok.inj expanded).symm⟩
      · rw [expand_step_other global inner] at expanded
        cases expanded
  · rintro ⟨global, rest, inner, rfl⟩
    exact expand_step_global global inner

/-- The rule that a pattern is the expansion of, if there is one. -/
def contract? : Pattern → Option Rule
  | .unary .bag p => some (.returning p)
  | .unary .flatten (.unary .bag (.letEnv (.letIt (.constant "WORLD") p) rest)) =>
    (contract? rest).map (step ⟨.global, p⟩)
  | _ => none

theorem contract?_globalLaw (p rest : Pattern) :
    contract? (globalLaw p rest) = (contract? rest).map (step ⟨.global, p⟩) := rfl

theorem contract?_of_expand (expanded : r.expand = .ok p) : contract? p = some r := by
  induction r generalizing p with
  | returning result =>
    cases expanded
    rfl
  | step t operand ih =>
    obtain ⟨kind, pattern⟩ := t
    obtain ⟨rfl, rest, inner, rfl⟩ := expand_step_eq_ok_iff.mp expanded
    rw [contract?_globalLaw,ih inner]
    rfl

theorem expand_of_contract? (contracted : contract? p = some r) : r.expand = .ok p := by
  fun_induction contract? p generalizing r with
  | case1 p =>
    cases contracted
    rfl
  | case2 p rest ih =>
    obtain ⟨operand, inner, rfl⟩ := Option.map_eq_some_iff.mp contracted
    exact expand_step_eq_ok_iff.mpr ⟨rfl, rest, ih inner, rfl⟩
  | case3 => cases contracted

/-- Expansion loses nothing: a pattern is the expansion of at most one rule, which can be found from
the pattern alone. -/
theorem expansion_loses_nothing (r r' : Rule) (p p' : Pattern) (expanded : r.expand = .ok p)
    (other : r'.expand = .ok p') :
    (p = p' ↔ r = r') ∧ ∀ u q, u.expand = .ok q ↔ contract? q = some u := by
  have found := contract?_of_expand expanded
  have found' := contract?_of_expand other
  refine ⟨⟨?_, ?_⟩, fun u q => ⟨contract?_of_expand, expand_of_contract?⟩⟩
  · rintro rfl
    exact Option.some.inj (found.symm.trans found')
  · rintro rfl
    exact Except.ok.inj (expanded.symm.trans other)

/-- A global step, and a rule that returns the expansion of that step. -/
theorem expansion_loses_nothing_imitated :
    ∃ p p', (step ⟨.global, .it⟩ (.returning .env)).expand = .ok p ∧
      (returning (globalLaw .it (.singleton .env))).expand = .ok p' ∧ p ≠ p' ∧
      contract? p = some (step ⟨.global, .it⟩ (.returning .env)) := by
  obtain ⟨same, found⟩ := expansion_loses_nothing (step ⟨.global, .it⟩ (.returning .env))
    (returning (globalLaw .it (.singleton .env))) _ _ rfl rfl
  refine ⟨_, _, rfl, rfl, fun equal => ?_, (found _ _).mp rfl⟩
  cases same.mp equal

/-- The text of one link. -/
def linkText (kind : RuleKind) (p : Pattern) : String := kind.tag ++ " (" ++ p.render ++ ")"

theorem display_step (t : Template) (operand : Rule) :
    (step t operand).display =
      linkText t.kind.toRuleKind t.pattern ++ (" ;; " ++ operand.display) :=
  String.append_assoc

theorem display_returning (p : Pattern) : (returning p).display = linkText .returning p := rfl

/-- A text begins with one link at most. -/
theorem linkText_append_inj {kind kind' : RuleKind} {p q : Pattern} {after after' : String}
    (same : linkText kind p ++ after = linkText kind' q ++ after') :
    kind = kind' ∧ p = q ∧ after = after' := by
  simp only [linkText,String.append_assoc] at same
  have tags := congrArg (fun text => text.toList.takeWhile (· ≠ ' ')) same
  simp only [String.toList_append,show " (".toList = ' ' :: ['('] from rfl,List.cons_append,
    RuleKind.takeWhile_tag,String.toList_inj] at tags
  obtain rfl := RuleKind.tag_injective tags
  rw [String.append_right_inj,String.append_right_inj] at same
  obtain ⟨rfl, rest⟩ := Pattern.render_append_inj same
  exact ⟨rfl, rfl, (String.append_right_inj _).mp rest⟩

/-- A text begins with one rule at most, whatever follows it. -/
theorem eq_of_display_append {after after' : String}
    (same : r.display ++ after = r'.display ++ after') : r = r' := by
  induction r generalizing r' with
  | returning p =>
    cases r' with
    | returning q =>
      rw [display_returning,display_returning] at same
      obtain ⟨-, rfl, -⟩ := linkText_append_inj same
      rfl
    | step t' operand' =>
      rw [display_returning,display_step,String.append_assoc] at same
      obtain ⟨kinds, -⟩ := linkText_append_inj same
      exact absurd kinds.symm t'.kind.toRuleKind_ne_returning
  | step t operand ih =>
    cases r' with
    | returning q =>
      rw [display_returning,display_step,String.append_assoc] at same
      obtain ⟨kinds, -⟩ := linkText_append_inj same
      exact absurd kinds t.kind.toRuleKind_ne_returning
    | step t' operand' =>
      obtain ⟨kind, pattern⟩ := t
      obtain ⟨kind', pattern'⟩ := t'
      simp only [display_step,String.append_assoc] at same
      obtain ⟨kinds, rfl, rest⟩ := linkText_append_inj same
      obtain rfl := StepKind.toRuleKind_injective kinds
      rw [ih ((String.append_right_inj _).mp rest)]

/-- The text of a rule stands for that rule only, and begins the text of no other rule. -/
theorem display_unambiguous (r r' : Rule) :
    (r.display = r'.display ↔ r = r') ∧ ((∃ rest, r'.display = r.display ++ rest) ↔ r = r') := by
  refine ⟨⟨fun same => ?_, fun same => by rw [same]⟩, ?_, ?_⟩
  · exact eq_of_display_append (congrArg (· ++ "") same)
  · rintro ⟨rest, longer⟩
    have padded : r.display ++ rest = r'.display ++ "" := by rw [longer,String.append_empty]
    exact eq_of_display_append padded
  · rintro rfl
    exact ⟨"", String.append_empty.symm⟩

example : (step ⟨.not, .constant ") ;; rule_return ("⟩ (.returning .it)).display =
    "rule_not ((pgetConstant \") ;; rule_return (\" )) ;; rule_return ((pit ))" := by
  decide +kernel

end Rule

end QueryLowering
