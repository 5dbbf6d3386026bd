import QueryLowering.Pattern.Basic

/-! Rules are chains: each step restricts what the rest of the chain is matched against, and the
last link returns a pattern. A rule is expanded into one pattern. Each kind of step has a law that
combines its pattern with the expansion of the rest; so far only global steps have one. -/
namespace QueryLowering

inductive RuleKind where
  | when
  | global
  | not
  | returning
  deriving DecidableEq, Repr

namespace RuleKind

def name : RuleKind → String
  | when => "When"
  | global => "Global"
  | not => "Not"
  | returning => "Return"

def tag : RuleKind → String
  | when => "rule_when"
  | global => "rule_global"
  | not => "rule_not"
  | returning => "rule_return"

def all : List RuleKind := [when, global, not, returning]

def toJson (kind : RuleKind) : Json := .string kind.name

def ofJson? (j : Json) : Option RuleKind := j.choice? all name

end RuleKind

/-- The kinds of the links that take the rest of a chain. -/
inductive StepKind where
  | when
  | global
  | not
  deriving DecidableEq, Repr

def StepKind.toRuleKind : StepKind → RuleKind
  | when => .when
  | global => .global
  | not => .not

/-- A step that is not applied to anything yet. -/
structure Template where
  kind : StepKind
  pattern : Pattern
  deriving DecidableEq

def Template.display (t : Template) : String :=
  t.kind.toRuleKind.tag ++ " (" ++ t.pattern.render ++ ")"

inductive Rule where
  | step (template : Template) (operand : Rule)
  | returning (pattern : Pattern)
  deriving DecidableEq

namespace Rule

/-- The first template becomes the outermost step. -/
def chain (templates : List Template) (last : Rule) : Rule := templates.foldr step last

def kind : Rule → RuleKind
  | step template _ => template.kind.toRuleKind
  | returning _ => .returning

def pattern : Rule → Pattern
  | step template _ => template.pattern
  | returning pattern => pattern

def operand? : Rule → Option Rule
  | step _ operand => some operand
  | returning _ => none

/-- The number of links, the last one included. -/
def length : Rule → Nat
  | step _ operand => operand.length + 1
  | returning _ => 1

def display : Rule → String
  | step template operand => template.display ++ " ;; " ++ operand.display
  | returning pattern => RuleKind.returning.tag ++ " (" ++ pattern.render ++ ")"

end Rule

inductive RuleError where
  | noLaw (kind : RuleKind)
  deriving DecidableEq, Repr

def RuleError.message : RuleError → String
  | noLaw kind => "Unsupported construct: no expansion law for rule kind '" ++ kind.name ++ "'"

def RuleError.name : RuleError → String
  | noLaw _ => "UnsupportedRuleKind"

def RuleError.toJson (e : RuleError) : Json :=
  match e with
  | noLaw kind => .tagged e.name (.object [("kind", kind.toJson)])

/-- A global step matches its pattern against the whole world, and extends the environment of what
follows by each match. -/
def globalLaw (pattern operand : Pattern) : Pattern :=
  (Pattern.letEnv pattern.iterateGlobally operand).singleton.flatten

def RuleKind.law? : RuleKind → Option (Pattern → Pattern → Pattern)
  | global => some globalLaw
  | when | not | returning => none

/-- The operand is expanded first, so of several steps without a law the innermost is reported. -/
def Rule.expand : Rule → Except RuleError Pattern
  | step template operand => do
    let rest ← operand.expand
    match template.kind.toRuleKind.law? with
    | some law => .ok (law template.pattern rest)
    | none => .error (.noLaw template.kind.toRuleKind)
  | returning pattern => .ok pattern.singleton

end QueryLowering
