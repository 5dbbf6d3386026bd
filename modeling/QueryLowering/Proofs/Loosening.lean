import QueryLowering.Query.OfJson

/-! What may be changed in a JSON value without changing what it stands for. In an object that is a
record an optional member that is `null` may be left out, and members with unknown names may be added.
Which objects are records, and which members are optional, is told by the type of the value. -/
namespace QueryLowering

/-- The JSON form of a type. -/
inductive Schema where
  /-- There is no record inside. -/
  | plain
  | node (type : NodeType)
  | option (content : Schema)
  | list (items : Schema)
  | pair (first second : Schema)
  | choice (alternatives : List (String × Schema))
  | record (fields : List (String × Schema))

namespace Schema

def identifier : Schema := record [("value", plain), ("named_value_access", plain)]

def var : Schema := record [("var", identifier), ("is_new_var", plain)]

def expr : Schema := node .expr

/-- A record around one expression. -/
def wrapped : Schema := record [("expr", expr)]

def operand : Schema := choice [("Select", node .block), ("Subquery", node .select)]

def rightOperand : Schema :=
  record [("op_type", plain), ("set_semantics", plain), ("input", operand)]

def join : Schema :=
  record [("join_type", plain), ("right_expr", expr), ("right_var", var), ("condition", expr)]

def groupKey : Schema := record [("expr", expr), ("var", option var)]

/-- The JSON form of a type of nodes. -/
def ofType : NodeType → Schema
  | .statement => choice [
      ("Query", node .query),
      ("Insert", record [("dataset", plain), ("query", node .query)]),
      ("Delete", record [("dataset", plain), ("var", option var), ("condition", option expr)]),
      ("Update", record [("target", expr), ("assignments", list (pair expr expr)),
        ("condition", option expr)]),
      ("Load", record [("dataset", plain), ("adapter", plain)]),
      ("Set", record [("name", plain), ("value", plain)]),
      ("DataverseDecl", record [("name", plain)]),
      ("DatasetDecl", record [("name", plain), ("item_type", plain)]),
      ("TypeDecl", record [("name", plain)]),
      ("FunctionDecl", record [("name", plain), ("params", list var), ("body", expr)])]
  | .query => record [("body", expr), ("top_level", plain)]
  | .expr => choice [
      ("Literal", node .literal),
      ("Variable", node .var),
      ("Operator", node .operator),
      ("FieldAccessor", record [("expr", expr), ("field", plain)]),
      ("IndexAccessor", record [("expr", expr), ("index", option expr)]),
      ("Call", record [("function", plain), ("args", list expr)]),
      ("Case", record [("condition", expr), ("when_exprs", list expr), ("then_exprs", list expr),
        ("else_expr", option expr)]),
      ("If", record [("condition", expr), ("then_expr", expr), ("else_expr", expr)]),
      ("ListConstructor", record [("ordered", plain), ("items", list expr)]),
      ("RecordConstructor", list (pair expr expr)),
      ("Quantified", record [("quantifier", plain), ("bindings", list (pair var expr)),
        ("satisfies", expr)]),
      ("Unary", record [("op", plain), ("expr", expr)]),
      ("Select", node .select),
      ("IndependentSubquery", expr)]
  | .literal => plain
  | .var => var
  | .operator => record [("exprs", list expr), ("ops", plain)]
  | .select => record [("let_list", list (node .letClause)),
      ("select_set_operation", node .setOperation), ("order_by", option (node .orderBy)),
      ("limit", option (node .limit)), ("subquery", plain)]
  | .setOperation => record [("left", operand), ("rights", list rightOperand)]
  | .block => record [("select_clause", node .selectClause), ("from", option (node .fromClause)),
      ("where_clause", option (node .whereClause)), ("group_by", option (node .groupBy)),
      ("having", option (node .havingClause))]
  | .selectClause => record [("distinct", plain),
      ("body", choice [("Element", node .selectElement), ("Regular", node .selectRegular)])]
  | .selectElement => wrapped
  | .selectRegular => record [("projections", list (node .projection))]
  | .projection => record [("expr", option expr), ("name", option plain), ("star", plain)]
  | .fromClause => record [("terms", list (node .fromTerm))]
  | .fromTerm => record [("left_expr", expr), ("left_var", var), ("positional_var", option var),
      ("correlate_clauses", list (node .correlate))]
  | .correlate => choice [("Join", join), ("Nest", join),
      ("Unnest", record [("join_type", plain), ("right_expr", expr), ("right_var", var)])]
  | .whereClause => wrapped
  | .groupBy => record [("keys", list groupKey), ("group_var", option var)]
  | .havingClause => wrapped
  | .orderBy => record [("items", list (pair expr plain))]
  | .limit => record [("limit", expr), ("offset", option expr)]
  | .letClause => record [("var", var), ("expr", expr)]

end Schema

namespace Json

/-- Members of a record with these fields, some of the optional ones that are `null` left out and
some of unknown names added. -/
inductive Edited (fields : List (String × Schema)) :
    List (String × Json) → List (String × Json) → Prop
  | nil : Edited fields [] []
  | keep (name : String) (j : Json) {members edited : List (String × Json)}
      (rest : Edited fields members edited) :
      Edited fields ((name, j) :: members) ((name, j) :: edited)
  | drop {name : String} {content : Schema} (optional : fields.lookup name = some (.option content))
      {members edited : List (String × Json)} (rest : Edited fields members edited) :
      Edited fields ((name, .null) :: members) edited
  | add {name : String} (j : Json) (unknown : fields.lookup name = none)
      {members edited : List (String × Json)} (rest : Edited fields members edited) :
      Edited fields members ((name, j) :: edited)

/-- The second value is the first one with some of its records edited. -/
inductive Loosened : Schema → Json → Json → Prop
  | refl (schema : Schema) (j : Json) : Loosened schema j j
  | node {type : NodeType} {j k : Json} (inner : Loosened (.ofType type) j k) :
      Loosened (.node type) j k
  | option {content : Schema} {j k : Json} (inner : Loosened content j k) :
      Loosened (.option content) j k
  | list {items : Schema} {js ks : List Json} (same : js.length = ks.length)
      (each : ∀ p ∈ js.zip ks, Loosened items p.1 p.2) :
      Loosened (.list items) (.array js) (.array ks)
  | pair {first second : Schema} {a b c d : Json} (left : Loosened first a c)
      (right : Loosened second b d) : Loosened (.pair first second) (.array [a, b]) (.array [c, d])
  | tagged {alternatives : List (String × Schema)} {tag : String} {content : Schema} {j k : Json}
      (listed : alternatives.lookup tag = some content) (inner : Loosened content j k) :
      Loosened (.choice alternatives) (.object [(tag, j)]) (.object [(tag, k)])
  | record {fields : List (String × Schema)} {members loosened edited : List (String × Json)}
      (same : members.map Prod.fst = loosened.map Prod.fst)
      (each : ∀ p ∈ members.zip loosened, ∀ schema, fields.lookup p.1.1 = some schema →
        Loosened schema p.1.2 p.2.2)
      (edit : Edited fields loosened edited) :
      Loosened (.record fields) (.object members) (.object edited)

theorem Loosened.null_iff {schema : Schema} {j k : Json} (loose : Loosened schema j k) :
    j = .null ↔ k = .null := by
  induction loose with
  | refl => exact Iff.rfl
  | node _ ih | option _ ih => exact ih
  | list | pair | tagged | record => exact ⟨nofun, nofun⟩

theorem Loosened.of_edited {fields : List (String × Schema)} {members edited : List (String × Json)}
    (edit : Edited fields members edited) :
    Loosened (.record fields) (.object members) (.object edited) := by
  refine .record rfl (fun p member schema _ => ?_) edit
  obtain ⟨i, bound, rfl⟩ := List.mem_iff_getElem.mp member
  rw [List.getElem_zip]
  exact .refl _ _

theorem Loosened.of_option {content : Schema} {j k : Json} (loose : Loosened (.option content) j k) :
    Loosened content j k := by
  cases loose with
  | refl => exact .refl _ _
  | option inner => exact inner

theorem Loosened.of_list {items : Schema} {js : List Json} {k : Json}
    (loose : Loosened (.list items) (.array js) k) : ∃ ks, k = .array ks ∧
      js.length = ks.length ∧ ∀ p ∈ js.zip ks, Loosened items p.1 p.2 := by
  cases loose with
  | refl =>
    refine ⟨js, rfl, rfl, fun p member => ?_⟩
    obtain ⟨i, bound, rfl⟩ := List.mem_iff_getElem.mp member
    rw [List.getElem_zip]
    exact .refl _ _
  | @list _ _ ks same each => exact ⟨ks, rfl, same, each⟩

theorem Loosened.of_pair {first second : Schema} {a b k : Json}
    (loose : Loosened (.pair first second) (.pair a b) k) : ∃ c d, k = .pair c d ∧
      Loosened first a c ∧ Loosened second b d := by
  cases loose with
  | refl => exact ⟨a, b, rfl, .refl _ _, .refl _ _⟩
  | pair left right => exact ⟨_, _, rfl, left, right⟩

theorem Loosened.of_tagged {alternatives : List (String × Schema)} {tag : String} {schema : Schema}
    {j k : Json} (listed : alternatives.lookup tag = some schema)
    (loose : Loosened (.choice alternatives) (.tagged tag j) k) :
    ∃ content, k = .tagged tag content ∧ Loosened schema j content := by
  cases loose with
  | refl => exact ⟨j, rfl, .refl _ _⟩
  | tagged other inner =>
    rw [listed,Option.some.injEq] at other
    exact ⟨_, rfl, other ▸ inner⟩

section

variable {fields : List (String × Schema)} {members edited : List (String × Json)} {name : String}

theorem ne_of_unknown {other : String} {schema : Schema} (known : fields.lookup name = some schema)
    (unknown : fields.lookup other = none) : name ≠ other := by
  rintro rfl
  rw [known] at unknown
  cases unknown

theorem Edited.lookup_none (edit : Edited fields members edited) {schema : Schema}
    (known : fields.lookup name = some schema) (absent : members.lookup name = none) :
    edited.lookup name = none := by
  induction edit with
  | nil => rfl
  | keep other j _ ih =>
    rw [List.lookup_cons] at absent ⊢
    cases same : name == other with
    | true => simp [same] at absent
    | false =>
      rw [same] at absent
      exact ih absent
  | @drop other _ _ _ _ _ ih =>
    rw [List.lookup_cons] at absent
    cases same : name == other with
    | true => simp [same] at absent
    | false =>
      rw [same] at absent
      exact ih absent
  | @add other j unknown _ _ _ ih =>
    rw [List.lookup_cons,beq_eq_false_iff_ne.mpr (ne_of_unknown known unknown)]
    exact ih absent

/-- A known member is edited only by leaving it out, and only if it is `null`. -/
theorem Edited.lookup_some (edit : Edited fields members edited)
    (distinct : (members.map Prod.fst).Nodup) {schema : Schema}
    (known : fields.lookup name = some schema) {j : Json} (present : members.lookup name = some j) :
    edited.lookup name = some j ∨ j = .null ∧ edited.lookup name = none := by
  induction edit with
  | nil => cases present
  | keep other k _ ih =>
    rw [List.map_cons,List.nodup_cons] at distinct
    rw [List.lookup_cons] at present ⊢
    cases same : name == other with
    | true =>
      rw [same] at present
      exact .inl present
    | false =>
      rw [same] at present
      exact ih distinct.2 present
  | @drop other _ _ members edited rest ih =>
    rw [List.map_cons,List.nodup_cons] at distinct
    rw [List.lookup_cons] at present
    cases same : name == other with
    | true =>
      rw [same,Option.some.injEq] at present
      rw [beq_iff_eq] at same
      subst same
      have absent : members.lookup name = none := by
        refine List.lookup_eq_none_iff.mpr fun p inside => ?_
        rw [bne_iff_ne]
        intro equal
        exact distinct.1 (List.mem_map.mpr ⟨p, inside, equal.symm⟩)
      exact .inr ⟨present.symm, rest.lookup_none known absent⟩
    | false =>
      rw [same] at present
      exact ih distinct.2 present
  | @add other k unknown _ _ _ ih =>
    rw [List.lookup_cons,beq_eq_false_iff_ne.mpr (ne_of_unknown known unknown)]
    exact ih distinct present

end

theorem lookup_zip {members others : List (String × Json)}
    (same : members.map Prod.fst = others.map Prod.fst) {name : String} {j : Json}
    (present : members.lookup name = some j) :
    ∃ k, others.lookup name = some k ∧ ((name, j), (name, k)) ∈ members.zip others := by
  induction members generalizing others with
  | nil => cases present
  | cons m rest ih =>
    obtain ⟨first, value⟩ := m
    cases others with
    | nil => cases same
    | cons o others =>
      obtain ⟨second, other⟩ := o
      simp only [List.map_cons,List.cons.injEq] at same
      obtain ⟨rfl, same⟩ := same
      rw [List.lookup_cons] at present ⊢
      cases here : name == first with
      | true =>
        rw [here,Option.some.injEq] at present
        rw [beq_iff_eq] at here
        subst here present
        exact ⟨other, rfl, by simp⟩
      | false =>
        rw [here] at present
        obtain ⟨k, found, inside⟩ := ih same present
        exact ⟨k, found, by simp [inside]⟩

theorem Loosened.of_record {fields : List (String × Schema)} {members : List (String × Json)} {k : Json}
    (loose : Loosened (.record fields) (.object members) k)
    (distinct : (members.map Prod.fst).Nodup) : ∃ edited, k = .object edited ∧
      ∀ name schema j, fields.lookup name = some schema → members.lookup name = some j →
        (∃ value, edited.lookup name = some value ∧ Loosened schema j value) ∨
          j = .null ∧ edited.lookup name = none := by
  cases loose with
  | refl => exact ⟨members, rfl, fun name schema j _ present => .inl ⟨j, present, .refl _ _⟩⟩
  | @record _ _ loosened edited same each edit =>
    refine ⟨edited, rfl, fun name schema j known present => ?_⟩
    obtain ⟨value, found, paired⟩ := lookup_zip same present
    have loose := each _ paired schema known
    rcases edit.lookup_some (same ▸ distinct) known found with kept | ⟨null, dropped⟩
    · exact .inl ⟨value, kept, loose⟩
    · exact .inr ⟨loose.null_iff.mpr null, dropped⟩

theorem height_lt_of_mem {j : Json} {items : List Json} (member : j ∈ items) :
    j.height < (array items).height := by
  have below : j.height ≤ heights items := by
    induction items with
    | nil => cases member
    | cons k rest ih =>
      rw [heights]
      rcases List.mem_cons.mp member with rfl | member
      · omega
      · have := ih member
        omega
  rw [height]
  omega

theorem height_lt_of_lookup {j : Json} {members : List (String × Json)} {name : String}
    (present : members.lookup name = some j) : j.height < (object members).height := by
  have below : j.height ≤ memberHeights members := by
    induction members with
    | nil => cases present
    | cons m rest ih =>
      obtain ⟨other, value⟩ := m
      rw [memberHeights]
      rw [List.lookup_cons] at present
      cases same : name == other with
      | true =>
        rw [same,Option.some.injEq] at present
        subst present
        omega
      | false =>
        rw [same] at present
        have := ih present
        omega
  rw [height]
  omega

theorem height_lt_tagged (tag : String) (j : Json) : j.height < (tagged tag j).height :=
  height_lt_of_lookup (show [(tag, j)].lookup tag = some j by simp)

/-- Every loosened form of a value that has fewer levels than `bound` reads as the value. -/
structure Reads {α : Type} (read : Json → Option α) (schema : Schema) (form : Json) (value : α)
    (bound : Nat) : Prop where
  present : form ≠ .null
  back : ∀ j, Loosened schema form j → j.height < bound → read j = some value

/-- What is left of a member of a record: a loosened form of it, or nothing if it was `null`. -/
def Kept (schema : Schema) (members : List (String × Json)) (name : String) (form : Json)
    (bound : Nat) : Prop :=
  (∃ j, members.lookup name = some j ∧ Loosened schema form j ∧ j.height < bound) ∨
    form = .null ∧ members.lookup name = none

section

variable {α β : Type} {read : Json → Option α} {schema : Schema} {form : Json} {value : α}
  {bound : Nat}

theorem Reads.mono (reads : Reads read schema form value bound) {lower : Nat} (le : lower ≤ bound) :
    Reads read schema form value lower :=
  ⟨reads.present, fun j loose low => reads.back j loose (by omega)⟩

theorem Reads.map (reads : Reads read schema form value bound) (f : α → β) :
    Reads (fun j => (read j).map f) schema form (f value) bound := by
  refine ⟨reads.present, fun j loose low => ?_⟩
  rw [reads.back j loose low,Option.map_some]

/-- Nothing has fewer than no levels, so a reader that allows for none reads as it should. -/
theorem Reads.of_succ {read : Nat → Json → Option α}
    (step : ∀ fuel, Reads (read (fuel + 1)) schema form value (fuel + 1)) (fuel : Nat) :
    Reads (read fuel) schema form value fuel := by
  cases fuel with
  | zero => exact ⟨(step 0).present, nofun⟩
  | succ fuel => exact step fuel

/-- A reader that allows for all levels of a value reads what every reader of enough levels does. -/
theorem Reads.closed {read : Nat → Json → Option α}
    (reads : ∀ fuel, Reads (read fuel) schema form value fuel) :
    Reads (fun j => read (j.height + 1) j) schema form value bound :=
  ⟨(reads 0).present, fun j loose _ => (reads (j.height + 1)).back j loose (Nat.lt_succ_self _)⟩

theorem Reads.plain (present : form ≠ .null) (back : read form = some value) :
    Reads read .plain form value bound := by
  refine ⟨present, fun j loose _ => ?_⟩
  cases loose
  exact back

/-- A value that is written as its name. -/
theorem Reads.name {name : String} (back : read (.string name) = some value) :
    Reads read .plain (.string name) value bound := .plain nofun back

theorem Reads.bool (value : Bool) : Reads bool? .plain (.bool value) value bound := .plain nofun rfl

theorem Reads.string (value : String) : Reads string? .plain (.string value) value bound :=
  .name rfl

theorem Reads.node {type : NodeType} (reads : Reads read (.ofType type) form value bound) :
    Reads read (.node type) form value bound := by
  refine ⟨reads.present, fun j loose low => reads.back j ?_ low⟩
  cases loose with
  | refl => exact .refl _ _
  | node inner => exact inner

theorem Reads.list {items : List α} {form : α → Json}
    (each : ∀ a ∈ items, Reads read schema (form a) a bound) :
    Reads (list? read) (.list schema) (.array (items.map form)) items bound := by
  have all (js : List Json) (same : (items.map form).length = js.length)
      (loose : ∀ p ∈ (items.map form).zip js, Loosened schema p.1 p.2)
      (low : ∀ j ∈ js, j.height < bound) : js.mapM read = some items := by
    induction items generalizing js with
    | nil =>
      cases js with
      | nil => rfl
      | cons => cases same
    | cons a rest ih =>
      cases js with
      | nil => cases same
      | cons j js =>
        have first := (each a (by simp)).back j (loose (form a, j) (by simp)) (low j (by simp))
        have others := ih (fun b member => each b (by simp [member])) js (by simpa using same)
          (fun p member => loose p (by simp [member])) fun k member => low k (by simp [member])
        simp [List.mapM_cons,first,others]
  refine ⟨nofun, fun j loose low => ?_⟩
  obtain ⟨js, rfl, same, loose⟩ := loose.of_list
  refine all js same loose fun k member => ?_
  have := height_lt_of_mem member
  omega

theorem Reads.pair {other : Json → Option β} {second : Schema} {otherForm : Json} {otherValue : β}
    (left : Reads read schema form value bound)
    (right : Reads other second otherForm otherValue bound) :
    Reads (pair? read other) (.pair schema second) (Json.pair form otherForm) (value, otherValue)
      bound := by
  refine ⟨nofun, fun j loose low => ?_⟩
  obtain ⟨a, b, rfl, looseLeft, looseRight⟩ := loose.of_pair
  rw [Json.pair] at low ⊢
  have lowLeft : a.height < (array [a, b]).height := height_lt_of_mem (by simp)
  have lowRight : b.height < (array [a, b]).height := height_lt_of_mem (by simp)
  have first := left.back a looseLeft (by omega)
  have last := right.back b looseRight (by omega)
  simp [pair?,first,last]

/-- A tagged value is read by what its tag asks for. -/
theorem Reads.tagged {alternatives : List (String × Schema)} {tag : String}
    (listed : alternatives.lookup tag = some schema)
    (inner : Reads (fun j => read (.tagged tag j)) schema form value bound) :
    Reads read (.choice alternatives) (.tagged tag form) value (bound + 1) := by
  refine ⟨nofun, fun j loose low => ?_⟩
  obtain ⟨k, rfl, content⟩ := loose.of_tagged listed
  have below := height_lt_tagged tag k
  exact inner.back k content (by omega)

/-- A record is read from what is left of its members. -/
theorem Reads.record {fields : List (String × Schema)} {members : List (String × Json)}
    (distinct : (members.map Prod.fst).Nodup)
    (back : ∀ edited : List (String × Json),
      (∀ name schema form, fields.lookup name = some schema → members.lookup name = some form →
        Kept schema edited name form bound) → read (.object edited) = some value) :
    Reads read (.record fields) (.object members) value (bound + 1) := by
  refine ⟨nofun, fun j loose low => ?_⟩
  obtain ⟨edited, rfl, kept⟩ := loose.of_record distinct
  refine back edited fun name schema form known present => ?_
  rcases kept name schema form known present with ⟨k, found, loose⟩ | dropped
  · have below := height_lt_of_lookup found
    exact .inl ⟨k, found, loose, by omega⟩
  · exact .inr dropped

/-- A tagged record. -/
theorem Reads.variant {alternatives fields : List (String × Schema)} {tag : String}
    {members : List (String × Json)} (listed : alternatives.lookup tag = some (.record fields))
    (distinct : (members.map Prod.fst).Nodup)
    (back : ∀ edited : List (String × Json),
      (∀ name schema form, fields.lookup name = some schema → members.lookup name = some form →
        Kept schema edited name form bound) → read (.tagged tag (.object edited)) = some value) :
    Reads read (.choice alternatives) (.tagged tag (.object members)) value (bound + 1) := by
  have content : Reads (fun j => read (.tagged tag j)) (.record fields) (.object members) value
      (bound + 1) := .record distinct back
  exact .tagged listed (content.mono (by omega))

theorem Kept.required {members : List (String × Json)} {name : String}
    (kept : Kept schema members name form bound) (reads : Reads read schema form value bound) :
    Json.required members name read = some value := by
  rcases kept with ⟨j, found, loose, low⟩ | ⟨absent, -⟩
  · rw [Json.required,get?,found]
    exact reads.back j loose low
  · exact absurd absent reads.present

theorem Kept.optional {members : List (String × Json)} {name : String} {form : α → Json}
    {value : Option α} (kept : Kept (.option schema) members name (ofOption form value) bound)
    (reads : ∀ a ∈ value, Reads read schema (form a) a bound) :
    Json.optional members name read = some value := by
  rw [Json.optional,get?]
  rcases kept with ⟨j, found, loose, low⟩ | ⟨absent, missing⟩
  · rw [found]
    cases value with
    | none =>
      rw [loose.null_iff.mp rfl]
    | some a =>
      have some := reads a rfl
      have back := some.back j loose.of_option low
      have present : j ≠ .null := fun null => some.present (loose.null_iff.mpr null)
      cases j with
      | null => exact absurd rfl present
      | _ => simp [back]
  · rw [missing]
    cases value with
    | none => rfl
    | some a => exact absurd absent (reads a rfl).present

end

end Json

end QueryLowering
