import QueryLowering.Query.Expr

/-! Construction of query trees piece by piece. -/
namespace QueryLowering

namespace Expr

def ofName (name : String) : Expr := var (.ofName name)

def int (value : Int32) : Expr := literal (.integer value)

def text (value : String) : Expr := literal (.string value)

def binary (left : Expr) (op : Operator) (right : Expr) : Expr := operator [left, right] [op]

def isBinary (operands : List Expr) (operators : List Operator) : Bool :=
  operands.length == 2 && operators.length == 1

/-- The same field of a field, `n` times over. -/
def fields (base : Expr) (name : String) (n : Nat) : Expr := n.fold (fun _ _ e => e.field name) base

def asVariable? : Expr → Option Variable
  | var v => some v
  | _ => none

end Expr

namespace Projection

def named (e : Expr) (name : String) : Projection := ⟨some e, some name, false⟩

def unnamed (e : Expr) : Projection := ⟨some e, none, false⟩

def all : Projection := ⟨none, none, true⟩

end Projection

namespace SelectClause

def regular (projections : List Projection) : SelectClause := ⟨false, .regular projections⟩

def element (value : Expr) : SelectClause := ⟨false, .element value⟩

def asDistinct (c : SelectClause) : SelectClause := { c with distinct := true }

end SelectClause

namespace FromTerm

def of (source : Expr) (binding : Variable) : FromTerm := ⟨source, binding, none, []⟩

def table (name binding : String) : FromTerm := of (.ofName name) (.ofName binding)

def withPosition (t : FromTerm) (v : Variable) : FromTerm := { t with position := some v }

def withCorrelate (t : FromTerm) (c : Correlate) : FromTerm :=
  { t with correlates := t.correlates ++ [c] }

def isCorrelated (t : FromTerm) : Bool := !t.correlates.isEmpty

end FromTerm

def Grouping.of (keys : List GroupKey) : Grouping := ⟨keys, none⟩

namespace Block

def of (clause : SelectClause) (terms : List FromTerm) : Block :=
  ⟨clause, some terms, none, none, none⟩

def withWhere (b : Block) (test : Expr) : Block := { b with whereTest := some test }

def withGroupBy (b : Block) (g : Grouping) : Block := { b with groupBy := some g }

def withHaving (b : Block) (test : Expr) : Block := { b with havingTest := some test }

end Block

namespace SetOperation

def single (left : Operand) : SetOperation := ⟨left, []⟩

def withRight (s : SetOperation) (r : RightOperand) : SetOperation :=
  { s with rights := s.rights ++ [r] }

def hasRights (s : SetOperation) : Bool := !s.rights.isEmpty

end SetOperation

namespace Select

def of (body : SetOperation) : Select := ⟨[], body, none, none, false⟩

def ofBlock (b : Block) : Select := of (.single (.block b))

def withOrderBy (s : Select) (items : List (Expr × Direction)) : Select :=
  { s with orderBy := some items }

def withLimit (s : Select) (l : Limit) : Select := { s with limit := some l }

def withLet (s : Select) (v : Variable) (e : Expr) : Select := { s with lets := s.lets ++ [(v, e)] }

def asSubquery (s : Select) : Select := { s with isSubquery := true }

end Select

namespace Query

def of (body : Expr) : Query := ⟨body, true⟩

def ofSelect (s : Select) : Query := of (.select s)

def ofBlock (b : Block) : Query := ofSelect (.ofBlock b)

end Query

end QueryLowering
