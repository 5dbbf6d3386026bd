import QueryLowering.Proofs.ReadBack
import QueryLowering.Proofs.Threshold

/-! Which nodes have an encoding under a limit on levels, and what it is: those with nothing to
refuse in them that go down no further than the limit, and the text of their trees. A left operand
that is a query of its own may be written out flat, since its trees are the same; nested it needs two
levels more. -/
namespace QueryLowering

open Sexpr (textOf tokensOf)

/-- No node from this one down is refused for its kind, and they are on `levels` levels at most. -/
inductive Node.Fits (s : Settings) : Nat → Node → Prop
  | intro {levels : Nat} {n : Node} (passed : n.fault? s = none)
      (children : ∀ child ∈ n.children, Fits s levels child) : Fits s (levels + 1) n

section

variable {s : Settings}

theorem Node.fits_succ_iff {levels : Nat} {n : Node} : n.Fits s (levels + 1) ↔
    n.fault? s = none ∧ ∀ child ∈ n.children, child.Fits s levels := by
  constructor
  · rintro ⟨passed, children⟩
    exact ⟨passed, children⟩
  · rintro ⟨passed, children⟩
    exact .intro passed children

theorem Node.not_fits_zero {n : Node} : ¬n.Fits s 0 := by
  intro fits
  cases fits

theorem Node.Fits.encodable {levels : Nat} {n : Node} (fits : n.Fits s levels) :
    n.Encodable s := by
  induction fits with
  | intro passed _ children => exact .intro passed children

theorem Node.Fits.mono {levels more : Nat} {n : Node} (fits : n.Fits s levels)
    (raised : levels ≤ more) : n.Fits s more := by
  induction fits generalizing more with
  | intro passed _ children =>
    obtain ⟨more, rfl⟩ := Nat.exists_eq_add_of_le' (Nat.le_of_add_left_le raised)
    exact .intro passed fun child member => children child member (by omega)

/-- An encoding comes to its end if the levels that are left are enough. -/
theorem Node.trace_finished_iff (n : Node) (limit depth : Nat) :
    ((n.action s).trace limit depth).stop = none ↔ n.Fits s (limit - depth) := by
  induction n using Node.induction generalizing depth with
  | step n children =>
    rw [Node.action,Action.trace]
    by_cases deep : limit ≤ depth
    · rw [if_pos deep,Nat.sub_eq_zero_of_le deep]
      exact iff_of_false (by simp) Node.not_fits_zero
    · have left : limit - depth = limit - (depth + 1) + 1 := by omega
      rw [if_neg deep,left,Node.fits_succ_iff,Node.script_stop,Option.or_eq_none_iff,Node.firstStop,
        List.findSome?_eq_none_iff]
      refine and_congr_right fun _ => forall_congr' fun child => ?_
      exact imp_congr_right fun member => children child member (depth + 1)

theorem Node.encoded_eq_ok_iff (n : Node) (limit : Nat) (text : String) :
    n.encoded { s with maxDepth := limit } = .ok text ↔
      n.Fits s limit ∧ text = Text.trimEnd (textOf (tokensOf (n.forest s))) := by
  have finished := n.trace_finished_iff (s := s) limit 0
  rw [Nat.sub_zero] at finished
  rw [Node.encoded_maxDepth,← finished]
  cases stop : ((n.action s).trace limit 0).stop with
  | none =>
    have fits := finished.mp stop
    rw [fits.encodable.action_tokens stop]
    simp [eq_comm]
  | some reason => simp

theorem SetOperation.fault?_eq_none_iff {o : SetOperation} : o.fault? s = none ↔
    o.rights.length ≤ s.maxRights ∧ ∀ r ∈ o.rights, r.op ≠ .except := by
  unfold SetOperation.fault?
  rw [← Nat.not_lt]
  split
  next many => simp [many]
  next few =>
    split
    next excepted => simpa [few] using excepted
    next combined => simpa [few] using combined

theorem SetOperation.fits_iff {levels : Nat} {left : Operand} {rights : List RightOperand} :
    (Node.setOperation ⟨left, rights⟩).Fits s (levels + 1) ↔
      (rights.length ≤ s.maxRights ∧ ∀ r ∈ rights, r.op ≠ .except) ∧
      left.node.Fits s levels ∧ ∀ r ∈ rights, r.input.node.Fits s levels := by
  rw [Node.fits_succ_iff,Node.fault?,SetOperation.fault?_eq_none_iff,Node.children,
    SetOperation.children,List.forall_mem_cons,List.forall_mem_map]

/-- A query with no clause of its own takes two levels around the operands of its body. -/
theorem Select.fits_iff {levels : Nat} {left : Operand} {rights : List RightOperand}
    {isSubquery : Bool} :
    (Node.select ⟨[], ⟨left, rights⟩, none, none, isSubquery⟩).Fits s (levels + 1) ↔
      (Node.setOperation ⟨left, rights⟩).Fits s levels := by
  rw [Node.fits_succ_iff,Node.children,Select.children]
  simp [Node.fault?]

end

/-- A set operation whose left operand is a set operation again, as a query of its own. -/
def SetOperation.leftNested (left : Operand) (inner outer : List RightOperand)
    (isSubquery : Bool) : SetOperation :=
  ⟨.subquery ⟨[], ⟨left, inner⟩, none, none, isSubquery⟩, outer⟩

section

variable {s : Settings} {left : Operand} {inner outer : List RightOperand} {isSubquery : Bool}

/-- The right operands of the left operand are taken in before the others, nested or not. -/
theorem SetOperation.leftNested_forest :
    (SetOperation.leftNested left inner outer isSubquery).forest s =
      (SetOperation.mk left (inner ++ outer)).forest s := by
  simp only [SetOperation.leftNested,SetOperation.forest,Operand.forest,Select.forest,
    RightOperand.forest_eq,List.foldl_append]

theorem SetOperation.fits_flat {levels : Nat} (few : inner.length + outer.length ≤ s.maxRights)
    (fits : (Node.setOperation (.leftNested left inner outer isSubquery)).Fits s levels) :
    (Node.setOperation ⟨left, inner ++ outer⟩).Fits s levels := by
  -- The nested form is on three levels before it comes to the first of its operands.
  rcases levels with _ | _ | _ | levels
  · exact absurd fits Node.not_fits_zero
  · exact absurd (SetOperation.fits_iff.mp fits).2.1 Node.not_fits_zero
  · exact absurd (Select.fits_iff.mp (SetOperation.fits_iff.mp fits).2.1) Node.not_fits_zero
  · obtain ⟨⟨-, outerCombined⟩, nested, outerFit⟩ := SetOperation.fits_iff.mp fits
    obtain ⟨⟨-, innerCombined⟩, leftFits, innerFit⟩ :=
      SetOperation.fits_iff.mp (Select.fits_iff.mp nested)
    rw [← List.length_append] at few
    apply SetOperation.fits_iff.mpr
    refine ⟨⟨few, List.forall_mem_append.mpr ⟨innerCombined, outerCombined⟩⟩,
      leftFits.mono (by omega), List.forall_mem_append.mpr ⟨?_, outerFit⟩⟩
    intro r member
    exact (innerFit r member).mono (by omega)

theorem SetOperation.fits_leftNested {levels : Nat}
    (fits : (Node.setOperation ⟨left, inner ++ outer⟩).Fits s levels) :
    (Node.setOperation (.leftNested left inner outer isSubquery)).Fits s (levels + 2) := by
  rcases levels with _ | levels
  · exact absurd fits Node.not_fits_zero
  · rw [SetOperation.fits_iff,List.length_append,List.forall_mem_append,
      List.forall_mem_append] at fits
    obtain ⟨⟨few, innerCombined, outerCombined⟩, leftFits, innerFit, outerFit⟩ := fits
    have nested : (Node.select ⟨[], ⟨left, inner⟩, none, none, isSubquery⟩).Fits s (levels + 2) :=
      Select.fits_iff.mpr (SetOperation.fits_iff.mpr
        ⟨⟨by omega, innerCombined⟩, leftFits, innerFit⟩)
    apply SetOperation.fits_iff.mpr
    refine ⟨⟨by omega, outerCombined⟩, nested, ?_⟩
    intro r member
    exact (outerFit r member).mono (by omega)

end

/-- A set operation on the left of another one has the same encoding nested and written out flat,
whichever of the two has one; the nested form may need two levels more. -/
theorem SetOperation.left_association (s : Settings) (left : Operand)
    (inner outer : List RightOperand) (isSubquery : Bool)
    (few : inner.length + outer.length ≤ s.maxRights) :
    (∀ text, (Node.setOperation (.leftNested left inner outer isSubquery)).encoded s = .ok text →
      (Node.setOperation ⟨left, inner ++ outer⟩).encoded s = .ok text) ∧
    ∀ limit text,
      (Node.setOperation ⟨left, inner ++ outer⟩).encoded { s with maxDepth := limit } = .ok text →
      (Node.setOperation (.leftNested left inner outer isSubquery)).encoded
        { s with maxDepth := limit + 2 } = .ok text := by
  have sameTrees : (Node.setOperation (.leftNested left inner outer isSubquery)).forest s =
      (Node.setOperation ⟨left, inner ++ outer⟩).forest s := SetOperation.leftNested_forest
  constructor
  · intro text encoded
    obtain ⟨fits, written⟩ := (Node.encoded_eq_ok_iff _ s.maxDepth _).mp encoded
    rw [sameTrees] at written
    exact (Node.encoded_eq_ok_iff _ s.maxDepth _).mpr ⟨SetOperation.fits_flat few fits, written⟩
  · intro limit text encoded
    obtain ⟨fits, written⟩ := (Node.encoded_eq_ok_iff _ limit _).mp encoded
    rw [← sameTrees] at written
    exact (Node.encoded_eq_ok_iff _ _ _).mpr ⟨SetOperation.fits_leftNested fits, written⟩

/-- Three right operands with different operators and marks, the first two of them nested. Five
levels are enough for the flat form, and six are not enough for the nested one. -/
theorem SetOperation.left_association_threeRights :
    let block (table : String) : Operand := .block (Query.Sample.starBlock table)
    let inner : List RightOperand := [⟨.union, true, block "$b"⟩, ⟨.intersect, false, block "$c"⟩]
    let outer : List RightOperand := [⟨.union, false, block "$d"⟩]
    let flat : Node := .setOperation ⟨block "$a", inner ++ outer⟩
    let nested : Node := .setOperation (.leftNested (block "$a") inner outer true)
    let star (table : String) : Sexpr := .node "query"
      [.node "select" [.node "all" []], .node "from" [.node "table" [.string table]]]
    let tree : Sexpr := .node "query" [.node "union"
      [.node "query" [.node "intersect"
        [.node "query" [.node "union" [.node "distinct" [], star "a", star "b"]], star "c"]],
      star "d"]]
    inner.length + outer.length ≤ 3 ∧
    flat.encoded { maxRights := 3, maxDepth := 5 } = .ok tree.render ∧
    nested.encoded { maxRights := 3, maxDepth := 6 } = .error (.rejected (.tooDeep 7 6)) ∧
    nested.encoded { maxRights := 3, maxDepth := 7 } = .ok tree.render ∧
    flat.encoded { maxRights := 3, maxDepth := 7 } = .ok tree.render := by
  intro block inner outer flat nested star tree
  have few : inner.length + outer.length ≤ 3 := by decide
  have fits : flat.Fits { maxRights := 3 } 5 :=
    (Node.trace_finished_iff flat 5 0).mp (by decide +kernel)
  have forest : flat.forest { maxRights := 3 } = [tree] := by decide +kernel
  have flatEncoded : flat.encoded { maxRights := 3, maxDepth := 5 } = .ok tree.render :=
    (Node.encoded_eq_ok_iff (s := { maxRights := 3 }) flat 5 _).mpr
      ⟨fits, by simp [forest,Sexpr.render]⟩
  have nestedEncoded : nested.encoded { maxRights := 3, maxDepth := 7 } = .ok tree.render :=
    (SetOperation.left_association { maxRights := 3 } (block "$a") inner outer true few).2
      5 _ flatEncoded
  have refused : nested.encoded { maxRights := 3, maxDepth := 6 } =
      .error (.rejected (.tooDeep 7 6)) := by decide +kernel
  have wider : flat.encoded { maxRights := 3, maxDepth := 7 } = .ok tree.render :=
    (SetOperation.left_association { maxRights := 3, maxDepth := 7 } (block "$a") inner outer
      true few).1 _ nestedEncoded
  exact ⟨few, flatEncoded, refused, nestedEncoded, wider⟩

end QueryLowering
