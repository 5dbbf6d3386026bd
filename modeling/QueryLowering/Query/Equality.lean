import QueryLowering.Query.Expr

/-! Equality of query trees. Literals are compared as numbers, so it is not quite identity. -/
namespace QueryLowering

mutual
def Expr.beq : Expr → Expr → Bool
  | .literal a, .literal b => a == b
  | .var a, .var b => a == b
  | .operator as ops, .operator bs ops' => Expr.beqList as bs && ops == ops'
  | .field a m, .field b n => a.beq b && m == n
  | .index a i, .index b j => a.beq b && Expr.beqOption i j
  | .call f as, .call g bs => f == g && Expr.beqList as bs
  | .caseOf a ws ts e, .caseOf b ws' ts' e' =>
    a.beq b && Expr.beqList ws ws' && Expr.beqList ts ts' && Expr.beqOption e e'
  | .cond a b c, .cond a' b' c' => a.beq a' && b.beq b' && c.beq c'
  | .list o as, .list o' bs => o == o' && Expr.beqList as bs
  | .record as, .record bs => Expr.beqPairs as bs
  | .quantified q vs a, .quantified q' vs' b => q == q' && Expr.beqBindings vs vs' && a.beq b
  | .unary op a, .unary op' b => op == op' && a.beq b
  | .select a, .select b => a.beq b
  | .subquery a, .subquery b => a.beq b
  | _, _ => false
termination_by structural a => a
def Expr.beqList : List Expr → List Expr → Bool
  | [], [] => true
  | a :: as, b :: bs => a.beq b && Expr.beqList as bs
  | _, _ => false
termination_by structural a => a
def Expr.beqOption : Option Expr → Option Expr → Bool
  | none, none => true
  | some a, some b => a.beq b
  | _, _ => false
termination_by structural a => a
def Expr.beqPairs : List (Expr × Expr) → List (Expr × Expr) → Bool
  | [], [] => true
  | (a, b) :: as, (a', b') :: bs => a.beq a' && b.beq b' && Expr.beqPairs as bs
  | _, _ => false
termination_by structural a => a
def Expr.beqBindings : List (Variable × Expr) → List (Variable × Expr) → Bool
  | [], [] => true
  | (v, a) :: as, (w, b) :: bs => v == w && a.beq b && Expr.beqBindings as bs
  | _, _ => false
termination_by structural a => a
def Expr.beqOrder : List (Expr × Direction) → List (Expr × Direction) → Bool
  | [], [] => true
  | (a, d) :: as, (b, d') :: bs => a.beq b && d == d' && Expr.beqOrder as bs
  | _, _ => false
termination_by structural a => a
def Select.beq : Select → Select → Bool
  | ⟨ls, b, o, l, s⟩, ⟨ls', b', o', l', s'⟩ =>
    Expr.beqBindings ls ls' && b.beq b' && s == s' &&
      (match o, o' with
        | none, none => true
        | some o, some o' => Expr.beqOrder o o'
        | _, _ => false) &&
      (match l, l' with
        | none, none => true
        | some l, some l' => l.beq l'
        | _, _ => false)
termination_by structural a => a
def Limit.beq : Limit → Limit → Bool
  | ⟨c, o⟩, ⟨c', o'⟩ => c.beq c' && Expr.beqOption o o'
termination_by structural a => a
def SetOperation.beq : SetOperation → SetOperation → Bool
  | ⟨l, rs⟩, ⟨l', rs'⟩ => l.beq l' && RightOperand.beqList rs rs'
termination_by structural a => a
def Operand.beq : Operand → Operand → Bool
  | .block a, .block b => a.beq b
  | .subquery a, .subquery b => a.beq b
  | _, _ => false
termination_by structural a => a
def RightOperand.beqList : List RightOperand → List RightOperand → Bool
  | [], [] => true
  | ⟨op, d, i⟩ :: as, ⟨op', d', i'⟩ :: bs =>
    op == op' && d == d' && i.beq i' && RightOperand.beqList as bs
  | _, _ => false
termination_by structural a => a
def Block.beq : Block → Block → Bool
  | ⟨c, f, w, g, h⟩, ⟨c', f', w', g', h'⟩ =>
    c.beq c' && Expr.beqOption w w' && Expr.beqOption h h' &&
      (match f, f' with
        | none, none => true
        | some f, some f' => FromTerm.beqList f f'
        | _, _ => false) &&
      (match g, g' with
        | none, none => true
        | some g, some g' => g.beq g'
        | _, _ => false)
termination_by structural a => a
def SelectClause.beq : SelectClause → SelectClause → Bool
  | ⟨d, b⟩, ⟨d', b'⟩ => d == d' && b.beq b'
termination_by structural a => a
def SelectBody.beq : SelectBody → SelectBody → Bool
  | .element a, .element b => a.beq b
  | .regular as, .regular bs => Projection.beqList as bs
  | _, _ => false
termination_by structural a => a
def Projection.beqList : List Projection → List Projection → Bool
  | [], [] => true
  | ⟨e, n, s⟩ :: as, ⟨e', n', s'⟩ :: bs =>
    Expr.beqOption e e' && n == n' && s == s' && Projection.beqList as bs
  | _, _ => false
termination_by structural a => a
def FromTerm.beqList : List FromTerm → List FromTerm → Bool
  | [], [] => true
  | ⟨e, v, p, cs⟩ :: as, ⟨e', v', p', cs'⟩ :: bs =>
    e.beq e' && v == v' && p == p' && Correlate.beqList cs cs' && FromTerm.beqList as bs
  | _, _ => false
termination_by structural a => a
def Correlate.beqList : List Correlate → List Correlate → Bool
  | [], [] => true
  | a :: as, b :: bs => a.beq b && Correlate.beqList as bs
  | _, _ => false
termination_by structural a => a
def Correlate.beq : Correlate → Correlate → Bool
  | .join k e v c, .join k' e' v' c' => k == k' && e.beq e' && v == v' && c.beq c'
  | .nest k e v c, .nest k' e' v' c' => k == k' && e.beq e' && v == v' && c.beq c'
  | .unnest k e v, .unnest k' e' v' => k == k' && e.beq e' && v == v'
  | _, _ => false
termination_by structural a => a
def Grouping.beq : Grouping → Grouping → Bool
  | ⟨ks, v⟩, ⟨ks', v'⟩ => GroupKey.beqList ks ks' && v == v'
termination_by structural a => a
def GroupKey.beqList : List GroupKey → List GroupKey → Bool
  | [], [] => true
  | ⟨e, v⟩ :: as, ⟨e', v'⟩ :: bs => e.beq e' && v == v' && GroupKey.beqList as bs
  | _, _ => false
termination_by structural a => a
end

instance : BEq Expr := ⟨Expr.beq⟩

def Query.beq (a b : Query) : Bool := a.body == b.body && a.topLevel == b.topLevel

instance : BEq Query := ⟨Query.beq⟩

def Statement.beq : Statement → Statement → Bool
  | .query a, .query b => a == b
  | .insert d a, .insert d' b => d == d' && a == b
  | .delete d v c, .delete d' v' c' => d == d' && v == v' && c == c'
  | .update t as c, .update t' bs c' => t == t' && as == bs && c == c'
  | .load d a, .load d' a' => d == d' && a == a'
  | .assign n v, .assign n' v' => n == n' && v == v'
  | .declareDataverse n, .declareDataverse n' => n == n'
  | .declareDataset n t, .declareDataset n' t' => n == n' && t == t'
  | .declareType n, .declareType n' => n == n'
  | .declareFunction n ps b, .declareFunction n' ps' b' => n == n' && ps == ps' && b == b'
  | _, _ => false

instance : BEq Statement := ⟨Statement.beq⟩

end QueryLowering
