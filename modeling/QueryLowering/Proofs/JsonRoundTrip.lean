import QueryLowering.Proofs.NodeReading

/-! Query trees, patterns and data are read back from their JSON form, and query trees from every
loosened form of it. -/
namespace QueryLowering

open Json (Reads)

/-- The induction is on the parts. What reads an expression or a SELECT expression of so many levels
reads its parts with one level less, and all other nodes with the same readers as their parts. -/
theorem Node.readsBack_within {n : Node} (free : n.FloatFree) (fuel : Nat) :
    n.ReadsBack (.within fuel) fuel := by
  induction n using Node.partsInduction generalizing fuel with
  | step n ih =>
  have parts (fuel : Nat) (part : Node) (member : part ∈ n.parts) :
      part.ReadsBack (.within fuel) fuel := ih part member (free.part member) fuel
  refine Node.readsBack_of_parts free (parts fuel) ?_ ?_
  · rintro e rfl
    have step (fuel : Nat) :
        Reads (Expr.ofJsonWithin? (fuel + 1)) (.node .expr) e.toJson e (fuel + 1) :=
      Expr.reads (r := .within fuel) (parts fuel)
    exact .of_succ step fuel
  · rintro q rfl
    have step (fuel : Nat) :
        Reads (Select.ofJsonWithin? (fuel + 1)) (.node .select) q.toJson q (fuel + 1) :=
      Select.reads (r := .within fuel) (parts fuel)
    exact .of_succ step fuel

theorem Node.readsBack_full {n : Node} (free : n.FloatFree) (bound : Nat) :
    n.ReadsBack .full bound := by
  induction n using Node.partsInduction with
  | step n ih =>
  refine Node.readsBack_of_parts free (fun part member => ih part member (free.part member)) ?_ ?_
  · rintro e rfl
    have within (fuel : Nat) : (Node.expr e).ReadsBack (.within fuel) fuel :=
      Node.readsBack_within free fuel
    exact .closed within
  · rintro q rfl
    have within (fuel : Nat) : (Node.select q).ReadsBack (.within fuel) fuel :=
      Node.readsBack_within free fuel
    exact .closed within

def Node.type : Node → NodeType
  | statement _ => .statement
  | query _ => .query
  | expr _ => .expr
  | literal _ => .literal
  | var _ => .var
  | operator _ _ => .operator
  | select _ => .select
  | setOperation _ => .setOperation
  | block _ => .block
  | selectClause _ => .selectClause
  | selectElement _ => .selectElement
  | selectRegular _ => .selectRegular
  | projection _ => .projection
  | fromClause _ => .fromClause
  | fromTerm _ => .fromTerm
  | correlate _ => .correlate
  | whereClause _ => .whereClause
  | groupBy _ => .groupBy
  | havingClause _ => .havingClause
  | orderBy _ => .orderBy
  | limit _ => .limit
  | letClause _ _ => .letClause

theorem Node.ReadsBack.reads {r : Readers} {bound : Nat} {n : Node} (back : n.ReadsBack r bound) :
    Reads (Node.ofJsonWith? r.expr r.select n.type) (.node n.type) n.toJson n bound := by
  cases n with
  | operator => exact Reads.map back fun chain => Node.operator chain.1 chain.2
  | letClause => exact Reads.map back fun bound => Node.letClause bound.1 bound.2
  | _ => exact Reads.map back _

/-- Every node without floating-point literals is read from its JSON form, and from that form with
optional members that are `null` left out of its records and members of unknown names added to them.
Patterns and data, in whose form there are no records, are read from theirs. -/
theorem Json.round_trip :
    (∀ n : Node, n.FloatFree → Node.ofJson? n.type n.toJson = some n ∧
      ∀ j, Json.Loosened (.node n.type) n.toJson j → Node.ofJson? n.type j = some n) ∧
    (∀ p : Pattern, Pattern.ofJson? p.toJson = some p) ∧
    ∀ d : Datum, Datum.ofJson? d.toJson = some d := by
  refine ⟨fun n free => ?_, Pattern.ofJson?_toJson, Datum.ofJson?_toJson⟩
  have loosened (j : Json) (loose : Json.Loosened (.node n.type) n.toJson j) :
      Node.ofJson? n.type j = some n := by
    have back := Node.readsBack_full free (j.height + 1)
    exact back.reads.back j loose (Nat.lt_succ_self _)
  exact ⟨loosened _ (.refl _ _), loosened⟩

/-- A limit without its offset, whose count is an index expression without its index; each has a
member of an unknown name. -/
theorem Json.round_trip_limit :
    (Node.limit ⟨.index (.literal (.integer 1)) none, none⟩).FloatFree ∧
    Node.ofJson? .limit (.object [("comment", .null),
      ("limit", .tagged "IndexAccessor" (.object [
        ("expr", .tagged "Literal" (.tagged "Integer" (.int 1))), ("hint", .bool true)]))]) =
      some (.limit ⟨.index (.literal (.integer 1)) none, none⟩) := by
  have free : (Node.limit ⟨.index (.literal (.integer 1)) none, none⟩).FloatFree := by
    refine .of_parts (by simp) fun part member => ?_
    simp only [Node.parts,Option.toList_none,List.map_nil,List.mem_singleton] at member
    subst member
    refine .of_parts (by simp) fun part member => ?_
    simp only [Node.parts,Expr.parts,Option.toList_none,List.map_nil,List.mem_singleton] at member
    subst member
    refine .of_parts (by simp) fun part member => ?_
    simp only [Node.parts,Expr.parts,List.mem_singleton] at member
    subst member
    exact .literal rfl
  have count : Json.Loosened .expr (Expr.index (.literal (.integer 1)) none).toJson
      (.tagged "IndexAccessor" (.object [
        ("expr", .tagged "Literal" (.tagged "Integer" (.int 1))), ("hint", .bool true)])) :=
    .node (.tagged rfl (.of_edited (.keep _ _ (.drop rfl (.add _ rfl .nil)))))
  refine ⟨free, (Json.round_trip.1 _ free).2 _ (.node ?_)⟩
  refine .record ?_ ?_ (.add _ rfl (.keep _ _ (@Json.Edited.drop _ "offset" _ rfl _ _ .nil)))
  · rfl
  intro p member schema known
  simp only [List.zip_cons_cons,List.zip_nil_right,List.mem_cons,List.not_mem_nil,or_false] at member
  rcases member with rfl | rfl
  · cases known
    exact count
  · exact .refl _ _

end QueryLowering
