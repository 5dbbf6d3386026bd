import QueryLowering.Proofs.Levels

/-! How deep the nodes of a text are inside each other. A level of an encoding opens two nodes at
most, or two for every right operand of a set operation, so the limit on levels bounds the nesting of
the text as well. -/
namespace QueryLowering

namespace Sexpr

/-- Where one is between two characters: in how many open nodes, and whether in a string or behind a
backslash in a string. -/
inductive Place where
  | outside (depth : Nat)
  | quoted (depth : Nat)
  | escaped (depth : Nat)

namespace Place

def depth : Place → Nat
  | outside depth | quoted depth | escaped depth => depth

def step (c : Char) : Place → Place
  | outside depth =>
    if c = '(' then outside (depth + 1)
    else if c = ')' then outside (depth - 1)
    else if c = '"' then quoted depth
    else outside depth
  | quoted depth =>
    if c = '"' then outside depth else if c = '\\' then escaped depth else quoted depth
  | escaped depth => quoted depth

def after (p : Place) : List Char → Place
  | [] => p
  | c :: cs => (p.step c).after cs

/-- The greatest depth from here on. -/
def peak (p : Place) : List Char → Nat
  | [] => p.depth
  | c :: cs => max p.depth ((p.step c).peak cs)

end Place

/-- The greatest number of nodes of a text that are open at once. Parentheses in strings open none. -/
def nesting (text : String) : Nat := (Place.outside 0).peak text.toList

mutual
/-- The greatest number of nodes inside each other. -/
def height : Sexpr → Nat
  | node _ args => 1 + heights args
  | atom _ | string _ => 0
def heights : List Sexpr → Nat
  | [] => 0
  | t :: ts => max t.height (heights ts)
end

@[simp] theorem height_node (tag : String) (args : List Sexpr) :
    (node tag args).height = 1 + heights args := by
  rw [height]

@[simp] theorem height_atom (text : String) : (atom text).height = 0 := by
  rw [height]

@[simp] theorem height_string (text : String) : (string text).height = 0 := by
  rw [height]

@[simp] theorem heights_nil : heights [] = 0 := by
  rw [heights]

@[simp] theorem heights_cons (t : Sexpr) (ts : List Sexpr) :
    heights (t :: ts) = max t.height (heights ts) := by
  rw [heights]

@[simp] theorem heights_append (first second : List Sexpr) :
    heights (first ++ second) = max (heights first) (heights second) := by
  induction first with
  | nil => simp
  | cons t ts ih => simp [ih,Nat.max_assoc]

theorem heights_flatMap_le {α : Type} {f : α → List Sexpr} {xs : List α} {bound : Nat}
    (each : ∀ x ∈ xs, heights (f x) ≤ bound) : heights (xs.flatMap f) ≤ bound := by
  induction xs with
  | nil => simp
  | cons x rest ih =>
    rw [List.flatMap_cons,heights_append]
    exact Nat.max_le.mpr ⟨each x (by simp), ih fun y member => each y (by simp [member])⟩

namespace Place

theorem after_append (p : Place) (first second : List Char) :
    p.after (first ++ second) = (p.after first).after second := by
  induction first generalizing p with
  | nil => rfl
  | cons c rest ih => exact ih (p.step c)

theorem depth_after_le_peak (p : Place) (chars : List Char) : (p.after chars).depth ≤ p.peak chars := by
  induction chars generalizing p with
  | nil => exact Nat.le_refl _
  | cons c rest ih => exact Nat.le_trans (ih (p.step c)) (Nat.le_max_right _ _)

theorem depth_le_peak (p : Place) (chars : List Char) : p.depth ≤ p.peak chars := by
  cases chars with
  | nil => exact Nat.le_refl _
  | cons c rest => exact Nat.le_max_left _ _

theorem peak_append (p : Place) (first second : List Char) :
    p.peak (first ++ second) = max (p.peak first) ((p.after first).peak second) := by
  induction first generalizing p with
  | nil => exact (Nat.max_eq_right (p.depth_le_peak second)).symm
  | cons c rest ih => simp only [List.cons_append,peak,after,ih,Nat.max_assoc]

/-- The characters lead from one place to another, with this greatest depth on the way. -/
structure Passes (p : Place) (chars : List Char) (q : Place) (peak : Nat) : Prop where
  after_eq : p.after chars = q
  peak_eq : p.peak chars = peak

namespace Passes

theorem nil (p : Place) : Passes p [] p p.depth := ⟨rfl, rfl⟩

theorem single (p : Place) (c : Char) :
    Passes p [c] (p.step c) (max p.depth (p.step c).depth) := ⟨rfl, rfl⟩

theorem append {p q r : Place} {first second : List Char} {m k : Nat}
    (onFirst : Passes p first q m) (onSecond : Passes q second r k) :
    Passes p (first ++ second) r (max m k) := by
  obtain ⟨rfl, rfl⟩ := onFirst
  obtain ⟨rfl, rfl⟩ := onSecond
  exact ⟨after_append p first second, peak_append p first second⟩

theorem cons {p r : Place} {c : Char} {rest : List Char} {k : Nat}
    (onRest : Passes (p.step c) rest r k) : Passes p (c :: rest) r (max p.depth k) := by
  obtain ⟨rfl, rfl⟩ := onRest
  exact ⟨rfl, rfl⟩

/-- Characters none of which leads away. -/
theorem stay {p : Place} {chars : List Char} (each : ∀ c ∈ chars, p.step c = p) :
    Passes p chars p p.depth := by
  induction chars with
  | nil => exact .nil p
  | cons c rest ih =>
    have onRest := ih fun d member => each d (by simp [member])
    rw [← each c (by simp)] at onRest
    have passes := onRest.cons
    rwa [each c (by simp),Nat.max_self] at passes

variable {depth : Nat}

theorem token {text : String} (token : IsToken text) :
    Passes (.outside depth) (text.toList ++ [' ']) (.outside depth) depth := by
  apply stay
  intro c member
  have plain : c ≠ '(' ∧ c ≠ ')' ∧ c ≠ '"' := by
    rcases List.mem_append.mp member with inside | last
    · have allowed := token.2 c inside
      simp only [isTokenChar,Bool.and_eq_true,bne_iff_ne] at allowed
      exact ⟨allowed.1.1.2, allowed.1.2, allowed.2⟩
    · rw [List.mem_singleton.mp last]
      decide
  rw [step,if_neg plain.1,if_neg plain.2.1,if_neg plain.2.2]

/-- An escape hides the quote or backslash behind it. -/
theorem escape (chars : List Char) :
    Passes (.quoted depth) (chars.flatMap escapeChar) (.quoted depth) depth := by
  induction chars with
  | nil => exact .nil _
  | cons c rest ih =>
    have first : Passes (.quoted depth) (escapeChar c) (.quoted depth) depth := by
      unfold escapeChar
      split
      next special => exact ⟨rfl, by simp [peak,step,Place.depth]⟩
      next plain =>
        have stays : (Place.quoted depth).step c = .quoted depth := by
          rw [step,if_neg (plain ∘ .inl),if_neg (plain ∘ .inr)]
        have passes := single (.quoted depth) c
        rwa [stays,Nat.max_self] at passes
    have both := first.append ih
    rwa [Nat.max_self] at both

theorem opening {tag : String} (tagToken : IsToken tag) :
    Passes (.outside depth) (Token.opening tag).text.toList (.outside (depth + 1)) (depth + 1) := by
  have inner : Passes ((Place.outside depth).step '(') (tag.toList ++ [' ']) (.outside (depth + 1))
    (depth + 1) := token tagToken
  have text : (Token.opening tag).text.toList = '(' :: (tag.toList ++ [' ']) := by
    simp [Token.text]
  rw [text]
  exact ⟨inner.cons.after_eq, inner.cons.peak_eq.trans (Nat.max_eq_right (Nat.le_succ depth))⟩

theorem closing :
    Passes (.outside (depth + 1)) Token.closing.text.toList (.outside depth) (depth + 1) := by
  have text : Token.closing.text.toList = [')', ' '] := by simp [Token.text]
  rw [text]
  exact ⟨rfl, by simp [peak,step,Place.depth]⟩

theorem string (text : String) :
    Passes (.outside depth) (Token.string text).text.toList (.outside depth) depth := by
  have inner : Passes ((Place.outside depth).step '"') (text.toList.flatMap escapeChar)
    (.quoted depth) depth := escape text.toList
  have last : Passes (.quoted depth) ['"', ' '] (.outside depth) depth :=
    ⟨rfl, by simp [peak,step,Place.depth]⟩
  have written : (Token.string text).text.toList =
      '"' :: (text.toList.flatMap escapeChar ++ ['"', ' ']) := by
    simp [Token.text,Sexpr.escape]
  have whole := (inner.append last).cons
  rw [Nat.max_self] at whole
  rw [written]
  exact ⟨whole.after_eq, whole.peak_eq.trans (Nat.max_self depth)⟩

theorem forest {ts : List Sexpr} (each : ∀ t ∈ ts,
      Passes (.outside depth) (textOf t.tokens).toList (.outside depth) (depth + t.height)) :
    Passes (.outside depth) (textOf (tokensOf ts)).toList (.outside depth) (depth + heights ts) := by
  induction ts with
  | nil => exact ⟨by simp [after], by simp [peak,Place.depth]⟩
  | cons t ts ih =>
    have both := (each t (by simp)).append (ih fun u member => each u (by simp [member]))
    rw [← String.toList_append,← textOf_append,← tokensOf_cons,Nat.add_max_add_left] at both
    rwa [heights_cons]

/-- On the way through a tree one is as deep in nodes as the tree is high. -/
theorem tree {t : Sexpr} (wellFormed : t.WellFormed) (depth : Nat) :
    Passes (.outside depth) (textOf t.tokens).toList (.outside depth) (depth + t.height) := by
  induction t using Sexpr.induction generalizing depth with
  | node tag args ih =>
    obtain ⟨tagToken, argsWellFormed⟩ := wellFormed
    rw [allWellFormed_iff] at argsWellFormed
    have inner : Passes (.outside (depth + 1)) (textOf (tokensOf args)).toList
        (.outside (depth + 1)) (depth + 1 + heights args) :=
      forest fun t member => ih t member (argsWellFormed t member) (depth + 1)
    have whole := (opening tagToken).append (inner.append closing)
    have text : (textOf (node tag args).tokens).toList = (Token.opening tag).text.toList ++
        ((textOf (tokensOf args)).toList ++ Token.closing.text.toList) := by
      simp [Sexpr.tokens]
    rw [text,height_node]
    refine ⟨whole.after_eq, whole.peak_eq.trans ?_⟩
    omega
  | atom text =>
    have passes : Passes (.outside depth) (text.toList ++ [' ']) (.outside depth) depth :=
      token wellFormed
    simpa [Sexpr.tokens,Token.text] using passes
  | string text =>
    have passes : Passes (.outside depth) (Token.string text).text.toList (.outside depth) depth :=
      string text
    simpa [Sexpr.tokens] using passes

end Passes

/-- A blank in the end opens no node. -/
theorem peak_append_space (p : Place) (chars : List Char) :
    p.peak (chars ++ [' ']) = p.peak chars := by
  have flat (q : Place) : q.peak [' '] = q.depth := by
    cases q <;> simp [peak,step,depth]
  rw [peak_append,flat]
  exact Nat.max_eq_left (p.depth_after_le_peak chars)

end Place

/-- The nodes of a text are as deep inside each other as those of the trees it was written for. -/
theorem nesting_trimEnd {ts : List Sexpr} (wellFormed : ∀ t ∈ ts, t.WellFormed) :
    nesting (Text.trimEnd (textOf (tokensOf ts))) = heights ts := by
  cases ts with
  | nil => decide
  | cons t rest =>
    have passes : Place.Passes (.outside 0) (textOf (tokensOf (t :: rest))).toList (.outside 0)
        (0 + heights (t :: rest)) :=
      .forest fun u member => .tree (wellFormed u member) 0
    have trimmed := trimEnd_textOf (by simp [t.tokens_ne_nil]) (tokensOf_wellFormed wellFormed)
    have peak := passes.peak_eq
    rw [← trimmed,String.toList_append,show " ".toList = [' '] from rfl,Place.peak_append_space,
      Nat.zero_add] at peak
    exact peak

theorem heights_distinctMark_le (distinct : Bool) : heights (distinctMark distinct) ≤ 1 := by
  cases distinct <;> simp [distinctMark]

theorem heights_aliasMark_le (name : Option String) : heights (aliasMark name) ≤ 1 := by
  cases name <;> simp [aliasMark]

end Sexpr

open Sexpr (heights height_node height_string heights_nil heights_cons heights_append
  heights_distinctMark_le heights_aliasMark_le)

/-- The greatest number of nodes inside each other that one level of an encoding opens. -/
def Settings.width (s : Settings) : Nat := max 2 (2 * s.maxRights)

section

variable {s : Settings} {bound : Nat}

theorem Settings.two_le_width (s : Settings) : 2 ≤ s.width := Nat.le_max_left _ _

theorem Operator.heights_le {operands : List Expr} {operators : List Operator}
    (passed : Operator.fault? s operands operators = none)
    (children : ∀ n ∈ (Expr.operator operands operators).children, heights (n.forest s) ≤ bound) :
    heights ((Expr.operator operands operators).forest s) ≤ bound + 1 := by
  obtain ⟨left, right, op, name, rfl, rfl, named⟩ := Operator.of_passed passed
  have onLeft : heights (left.forest s) ≤ bound := children (.expr left) (by simp [Expr.children])
  have onRight : heights (right.forest s) ≤ bound :=
    children (.expr right) (by simp [Expr.children])
  simp only [Expr.forest,named,heights_cons,height_node,heights_append,heights_nil]
  omega

theorem Select.heights_le {q : Select} (encodable : ∀ n ∈ q.children, n.Encodable s)
    (children : ∀ n ∈ q.children, heights (n.forest s) ≤ bound) :
    heights (q.forest s) ≤ bound := by
  rw [Select.eq_of_encodable encodable] at children ⊢
  rw [Select.forest]
  exact children (.setOperation q.body) (by simp [Select.children])

theorem Expr.heights_le {e : Expr} (passed : e.fault? s = none)
    (encodable : ∀ n ∈ e.children, n.Encodable s)
    (children : ∀ n ∈ e.children, heights (n.forest s) ≤ bound) :
    heights (e.forest s) ≤ bound + 1 := by
  cases e with
  | literal value =>
    rw [Expr.forest]
    cases value <;> simp [Literal.forest]
  | var value => simp [Expr.forest,Variable.forest]
  | operator operands operators => exact Operator.heights_le passed children
  | field base name =>
    have inner : heights (base.forest s) ≤ bound := children (.expr base) (by simp [Expr.children])
    simp only [Expr.forest,heights_cons,height_node,height_string,heights_nil]
    omega
  | select query =>
    rw [Expr.forest]
    exact Nat.le_succ_of_le (Select.heights_le encodable children)
  | _ => cases passed

/-- Each right operand is two nodes around all that is to its left. A mark is no deeper than what
stands beside it. -/
theorem RightOperand.heights_le {rights : List RightOperand} {left : List Sexpr}
    (positive : 1 ≤ bound) (onLeft : heights left ≤ bound)
    (onRights : ∀ r ∈ rights, heights (r.input.node.forest s) ≤ bound) :
    heights (RightOperand.forest s left rights) ≤ bound + 2 * rights.length := by
  rw [RightOperand.forest_eq]
  induction rights generalizing left bound with
  | nil => exact onLeft
  | cons r rest ih =>
    have onRight := onRights r (by simp)
    have joined : heights (r.op.joined r.distinct left (r.input.node.forest s)) ≤ bound + 2 := by
      have mark := heights_distinctMark_le r.distinct
      unfold SetOperator.joined
      split
      · simp only [heights_cons,height_node,heights_append,heights_nil]
        omega
      · exact Nat.zero_le _
    have onRest := ih (Nat.le_add_right_of_le positive) joined fun r member =>
      Nat.le_add_right_of_le (onRights r (by simp [member]))
    rw [List.foldl_cons,List.length_cons]
    omega

theorem SetOperation.heights_le {o : SetOperation} (passed : o.fault? s = none)
    (encodable : o.left.node.Encodable s)
    (children : ∀ n ∈ o.children, heights (n.forest s) ≤ bound) :
    heights (o.forest s) ≤ bound + s.width := by
  obtain ⟨args, single⟩ := encodable.forest_query o.left.node_isQuery
  have onLeft := children o.left.node (by simp [SetOperation.children])
  have positive : 1 ≤ bound := by
    simp only [single,heights_cons,height_node] at onLeft
    omega
  have few : 2 * o.rights.length ≤ s.width :=
    Nat.le_trans (Nat.mul_le_mul_left 2 (SetOperation.fault?_eq_none_iff.mp passed).1)
      (Nat.le_max_right _ _)
  have whole : heights (RightOperand.forest s (o.left.node.forest s) o.rights) ≤
      bound + 2 * o.rights.length := by
    apply RightOperand.heights_le positive onLeft
    intro r member
    apply children
    simp only [SetOperation.children,List.mem_cons,List.mem_map]
    exact .inr ⟨r, member, rfl⟩
  rw [SetOperation.forest_eq]
  omega

theorem Block.heights_le {b : Block} (passed : (Node.block b).fault? s = none)
    (children : ∀ n ∈ b.children, heights (n.forest s) ≤ bound) :
    heights (b.forest s) ≤ bound + 2 := by
  obtain ⟨clause, _ | terms, whereTest, groupBy, havingTest⟩ := b
  · cases passed
  · have columns : heights (clause.forest s) ≤ bound :=
      children (.selectClause clause) (by simp [Block.children])
    have clauses := Sexpr.heights_flatMap_le fun n member =>
      children n (List.mem_of_mem_tail member)
    rw [Block.forest_eq]
    simp only [heights_cons,height_node,heights_nil]
    omega

theorem FromTerm.heights_le {t : FromTerm}
    (children : ∀ n ∈ t.children, heights (n.forest s) ≤ bound) :
    heights (t.forest s) ≤ bound + 2 := by
  have source : heights (t.source.sourceForest s) ≤ bound + 1 := by
    unfold Expr.sourceForest
    cases named : t.source.asVariable? with
    | none =>
      exact Nat.le_succ_of_le (children (.expr t.source) (by simp [FromTerm.children,named]))
    | some v => simp
  rw [FromTerm.forest_eq]
  cases t.binding.neededName t.source with
  | none => exact Nat.le_succ_of_le source
  | some name =>
    simp only [Sexpr.aliasAround,heights_cons,height_node,height_string,heights_nil]
    omega

theorem GroupKey.heights_le {keys : List GroupKey}
    (each : ∀ key ∈ keys, heights (key.expr.forest s) ≤ bound) :
    heights (GroupKey.forests s keys) ≤ bound + 1 := by
  induction keys with
  | nil =>
    rw [GroupKey.forests]
    exact Nat.zero_le _
  | cons key rest ih =>
    obtain ⟨e, binding⟩ := key
    have mark := heights_aliasMark_le (e.neededName (binding.map Variable.bareName))
    have first : heights (e.forest s) ≤ bound := each ⟨e, binding⟩ (by simp)
    have others := ih fun key member => each key (by simp [member])
    simp only [GroupKey.forests,heights_append]
    omega

theorem Query.heights_le {q : Query} (passed : q.fault? = none)
    (children : ∀ n ∈ q.children, heights (n.forest s) ≤ bound) :
    heights (q.forest s) ≤ bound := by
  obtain ⟨body, topLevel⟩ := q
  cases body with
  | select query => exact children (.select query) (by simp [Query.children])
  | _ => cases passed

/-- A node is higher than the highest of the nodes below it by what one level opens, at most. -/
theorem Node.heights_le {n : Node} (passed : n.fault? s = none)
    (encodable : ∀ child ∈ n.children, child.Encodable s)
    (children : ∀ child ∈ n.children, heights (child.forest s) ≤ bound) :
    heights (n.forest s) ≤ bound + s.width := by
  have wide := s.two_le_width
  cases n with
  | statement value =>
    cases value with
    | query value => exact Nat.le_add_right_of_le (Query.heights_le passed children)
    | _ => cases passed
  | query value => exact Nat.le_add_right_of_le (Query.heights_le passed children)
  | expr value =>
    have own : heights (value.forest s) ≤ bound + 1 :=
      Expr.heights_le passed encodable children
    rw [Node.forest]
    omega
  | literal value =>
    rw [Node.forest]
    cases value <;> simp [Literal.forest]
  | var value =>
    simp only [Node.forest,Variable.forest,heights_cons,height_node,height_string,heights_nil]
    omega
  | operator operands operators =>
    have own := Operator.heights_le passed children
    rw [Node.forest]
    omega
  | select value => exact Nat.le_add_right_of_le (Select.heights_le encodable children)
  | setOperation value =>
    apply SetOperation.heights_le passed _ children
    exact encodable _ (by simp [Node.children,SetOperation.children])
  | block value =>
    have own : heights (value.forest s) ≤ bound + 2 := Block.heights_le passed children
    rw [Node.forest]
    omega
  | selectClause value =>
    obtain ⟨distinct, value | projections⟩ := value
    · cases (encodable (.selectElement value) (by simp [Node.children,SelectBody.node])).passed
    · have mark := heights_distinctMark_le distinct
      have columns : heights (Projection.forests s projections) ≤ bound :=
        children (.selectRegular projections) (by simp [Node.children,SelectBody.node])
      simp only [Node.forest,SelectClause.forest,heights_append]
      omega
  | selectRegular projections =>
    rw [Node.forest,Projection.forests_eq]
    exact Nat.le_add_right_of_le (Sexpr.heights_flatMap_le children)
  | projection value =>
    obtain ⟨_ | e, name, star⟩ := value
    · cases star with
      | false => cases passed
      | true =>
        simp only [Node.forest,Projection.forest,heights_cons,height_node,heights_nil]
        omega
    · have mark := heights_aliasMark_le (e.neededName name)
      have inner : heights (e.forest s) ≤ bound := children (.expr e) (by simp [Node.children])
      simp only [Node.forest,Projection.forest,heights_append]
      omega
  | fromClause terms =>
    have inner := Sexpr.heights_flatMap_le children
    simp only [Node.children] at inner
    simp only [Node.forest,FromTerm.forests_eq,heights_cons,height_node,heights_nil]
    omega
  | fromTerm value =>
    have own : heights (value.forest s) ≤ bound + 2 := FromTerm.heights_le children
    rw [Node.forest]
    omega
  | whereClause test | havingClause test =>
    have inner : heights (test.forest s) ≤ bound := children (.expr test) (by simp [Node.children])
    simp only [Node.forest,heights_cons,height_node,heights_nil]
    omega
  | groupBy value =>
    obtain ⟨keys, groupVariable⟩ := value
    have inner : heights (GroupKey.forests s keys) ≤ bound + 1 := GroupKey.heights_le
      fun key member => children (.expr key.expr) (List.mem_map.mpr ⟨key, member, rfl⟩)
    simp only [Node.forest,Grouping.forest,heights_cons,height_node,heights_nil]
    omega
  | selectElement | correlate | orderBy | limit | letClause => cases passed

/-- From the top to the lowest of its levels, a node opens so many nodes on each. -/
theorem Node.Fits.heights_le {n : Node} {levels : Nat} (fits : n.Fits s levels) :
    heights (n.forest s) ≤ levels * s.width := by
  induction fits with
  | intro passed below children =>
    rw [Nat.succ_mul]
    exact Node.heights_le passed (fun child member => (below child member).encodable) children

end

/-- A text that denotes a tree was written for this tree and no other. -/
theorem Sexpr.ReadsAs.eq_singleton {text : String} {trees : List Sexpr} {t : Sexpr}
    (reads : Sexpr.ReadsAs text trees) (denoted : Sexpr.read text = .ok t) : trees = [t] := by
  match trees, reads with
  | [], empty =>
    rw [show Sexpr.read text = .error .emptyInput from empty] at denoted
    cases denoted
  | [u], single =>
    rw [single.1] at denoted
    cases denoted
    rfl
  | u :: v :: rest, several =>
    rw [several.2] at denoted
    cases denoted

/-- Nodes of an encoding are never deeper inside each other than the limit on levels times what one
level opens; neither in the text nor, where it denotes one, in the tree. -/
theorem Node.nesting_bounded (s : Settings) (names : s.HasTokenNames) (n : Node) (text : String)
    (encoded : n.encoded s = .ok text) :
    Sexpr.nesting text ≤ s.maxDepth * max 2 (2 * s.maxRights) ∧
    ∀ t, Sexpr.read text = .ok t → t.height ≤ s.maxDepth * max 2 (2 * s.maxRights) := by
  obtain ⟨fits, rfl⟩ := (Node.encoded_eq_ok_iff n s.maxDepth text).mp encoded
  have wellFormed := fits.encodable.wellFormed names
  have bounded : heights (n.forest s) ≤ s.maxDepth * max 2 (2 * s.maxRights) := fits.heights_le
  constructor
  · rw [Sexpr.nesting_trimEnd wellFormed]
    exact bounded
  · intro t read
    have single := (Sexpr.readsAs_trimEnd wellFormed).eq_singleton read
    rwa [single,heights_cons,heights_nil,Nat.max_zero] at bounded

/-- One level that opens as many nodes as it may, with parentheses in the names. -/
theorem Node.nesting_bounded_named :
    let n : Node := .fromTerm (.table "$t)" "$x((")
    let s : Settings := { maxDepth := 1 }
    let tree : Sexpr := .node "aliasAs" [.string "x((", .node "table" [.string "t)"]]
    s.HasTokenNames ∧ n.encoded s = .ok "(aliasAs \"x((\" (table \"t)\" ) )" ∧
    Sexpr.nesting "(aliasAs \"x((\" (table \"t)\" ) )" = s.maxDepth * max 2 (2 * s.maxRights) ∧
    Sexpr.nesting "(aliasAs \"x((\" (table \"t)\" ) )" ≤ s.maxDepth * max 2 (2 * s.maxRights) ∧
    Sexpr.read "(aliasAs \"x((\" (table \"t)\" ) )" = .ok tree ∧
    tree.height ≤ s.maxDepth * max 2 (2 * s.maxRights) := by
  intro n s tree
  have names : s.HasTokenNames := by decide
  have encoded : n.encoded s = .ok "(aliasAs \"x((\" (table \"t)\" ) )" := by decide +kernel
  have read : Sexpr.read "(aliasAs \"x((\" (table \"t)\" ) )" = .ok tree := by decide +kernel
  obtain ⟨bounded, height⟩ := Node.nesting_bounded s names n _ encoded
  exact ⟨names, encoded, by decide +kernel, bounded, read, height tree read⟩

end QueryLowering
