import QueryLowering.Query.Kind

/-! Why a query tree has no encoding. -/
namespace QueryLowering

inductive Rejection where
  | unsupported (kind : NodeKind) (detail : String)
  | malformed (kind : NodeKind) (detail : String)
  /-- A node would have been at `depth`, below the deepest level allowed. -/
  | tooDeep (depth limit : Nat)
  deriving DecidableEq, Repr

inductive Rejection.Category where
  | unsupportedConstruct
  | malformedStructure
  deriving DecidableEq, Repr

def Rejection.Category.name : Category → String
  | unsupportedConstruct => "UnsupportedConstruct"
  | malformedStructure => "MalformedStructure"

namespace Rejection

def message : Rejection → String
  | unsupported kind detail => "Unsupported " ++ kind.name ++ ": " ++ detail
  | malformed kind detail => "Malformed " ++ kind.name ++ ": " ++ detail
  | tooDeep depth limit => s!"Recursion limit exceeded (depth: {depth}, limit: {limit})"

def kind? : Rejection → Option NodeKind
  | unsupported kind _ | malformed kind _ => some kind
  | tooDeep _ _ => none

def category : Rejection → Category
  | unsupported _ _ => .unsupportedConstruct
  | malformed _ _ | tooDeep _ _ => .malformedStructure

def name : Rejection → String
  | unsupported _ _ => "Unsupported"
  | malformed _ _ => "Malformed"
  | tooDeep _ _ => "RecursionLimitExceeded"

def toJson (r : Rejection) : Json :=
  match r with
  | unsupported kind detail | malformed kind detail =>
    .tagged r.name (.object [("kind", kind.toJson), ("detail", .string detail)])
  | tooDeep depth limit =>
    .tagged r.name (.object [("depth", .nat depth), ("limit", .nat limit)])

end Rejection

end QueryLowering
