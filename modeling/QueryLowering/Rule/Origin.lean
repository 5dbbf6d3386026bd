import QueryLowering.Rule.Basic

/-! Rules together with the templates that their steps were made from. Equality of rules does not
see the origins; two equal templates are still two origins. -/
namespace QueryLowering

/-- A rule, and for each of its steps, outermost first, the number of its template. -/
structure TracedRule where
  rule : Rule
  origins : List Nat

namespace TracedRule

def returning (pattern : Pattern) : TracedRule := ⟨.returning pattern, []⟩

def apply (number : Nat) (template : Template) (operand : TracedRule) : TracedRule :=
  ⟨.step template operand.rule, number :: operand.origins⟩

def chain (templates : List (Nat × Template)) (last : TracedRule) : TracedRule :=
  templates.foldr (fun (number, template) operand => apply number template operand) last

def operand? (r : TracedRule) : Option TracedRule :=
  r.rule.operand?.map fun operand => ⟨operand, r.origins.tail⟩

/-- The rule that returns the expansion of `r`. -/
def lift (r : TracedRule) : Except RuleError TracedRule := r.rule.expand.map returning

/-- Whether the outermost step was made from this template; `none` without a step. -/
def madeFrom? (r : TracedRule) (number : Nat) : Option Bool :=
  r.rule.operand?.map fun _ => r.origins.head? == some number

theorem rule_chain (templates : List (Nat × Template)) (last : TracedRule) :
    (chain templates last).rule = Rule.chain (templates.map Prod.snd) last.rule := by
  induction templates with
  | nil => rfl
  | cons t ts ih => simp_all [chain, Rule.chain, apply]

end TracedRule

/-- Templates and rules in the order in which they were added. -/
structure RuleBook where
  templates : Array Template := #[]
  rules : Array TracedRule := #[]

namespace RuleBook

def addTemplate (b : RuleBook) (t : Template) : RuleBook :=
  { b with templates := b.templates.push t }

def addRule (b : RuleBook) (r : TracedRule) : RuleBook := { b with rules := b.rules.push r }

def template? (b : RuleBook) (number : Nat) : Option (Nat × Template) :=
  b.templates[number]?.map fun t => (number, t)

end RuleBook

end QueryLowering
