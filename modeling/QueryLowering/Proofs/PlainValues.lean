import QueryLowering.Pattern.Basic
import QueryLowering.Proofs.Loosening
import QueryLowering.Proofs.Parts

/-! Values with no record in their JSON form are read back from it: numbers, the names of operators,
literals that are not floating-point numbers, data and patterns. -/
namespace QueryLowering

namespace Json

@[simp] theorem object?_object (members : List (String × Json)) :
    object? (.object members) = some members := rfl

@[simp] theorem record?_object (fields : List String) (members : List (String × Json)) :
    record? fields (.object members) = some members := rfl

@[simp] theorem tagged?_tagged (tag : String) (content : Json) :
    tagged? (.tagged tag content) = some (tag, content) := rfl

theorem int32?_int (value : Int32) : int32? (.int value.toInt) = some value := by
  have range : Int32.minValue.toInt ≤ value.toInt ∧ value.toInt ≤ Int32.maxValue.toInt :=
    ⟨value.minValue_le_toInt, value.toInt_le⟩
  calc int32? (.int value.toInt) = some (Int32.ofInt value.toInt) := if_pos range
    _ = some value := by rw [Int32.ofInt_toInt]

theorem int64?_int (value : Int64) : int64? (.int value.toInt) = some value := by
  have range : Int64.minValue.toInt ≤ value.toInt ∧ value.toInt ≤ Int64.maxValue.toInt :=
    ⟨value.minValue_le_toInt, value.toInt_le⟩
  calc int64? (.int value.toInt) = some (Int64.ofInt value.toInt) := if_pos range
    _ = some value := by rw [Int64.ofInt_toInt]

theorem list?_map {α : Type} {read : Json → Option α} {form : α → Json} {items : List α}
    (each : ∀ a ∈ items, read (form a) = some a) :
    list? read (.array (items.map form)) = some items := by
  rw [list?]
  induction items with
  | nil => rfl
  | cons a rest ih =>
    rw [List.map_cons,List.mapM_cons,each a (by simp),ih fun b member => each b (by simp [member])]
    rfl

end Json

theorem Operator.ofJson?_toJson (op : Operator) : ofJson? op.toJson = some op := op.ofKey?_key

theorem PrefixOperator.ofJson?_toJson (op : PrefixOperator) : ofJson? op.toJson = some op := by
  cases op <;> rfl

theorem Quantifier.ofJson?_toJson (q : Quantifier) : ofJson? q.toJson = Option.some q := by
  cases q <;> rfl

theorem SetOperator.ofJson?_toJson (op : SetOperator) : ofJson? op.toJson = some op := by
  cases op <;> rfl

theorem JoinKind.ofJson?_toJson (kind : JoinKind) : ofJson? kind.toJson = some kind := by
  cases kind <;> rfl

theorem Direction.ofJson?_toJson (d : Direction) : ofJson? d.toJson = some d := by
  cases d <;> rfl

theorem Literal.ofJson?_toJson {l : Literal} (whole : l.isFloating = Bool.false) :
    ofJson? l.toJson = some l := by
  cases l with
  | integer value => exact congrArg (Option.map integer) (Json.int32?_int value)
  | long value => exact congrArg (Option.map long) (Json.int64?_int value)
  | double value | float value => cases whole
  | string | true | false | null | missing => rfl

/-- A function on lists that goes item by item. -/
theorem eq_map_of_cons {α β : Type} {f : List α → List β} {g : α → β} (nil : f [] = [])
    (cons : ∀ a rest, f (a :: rest) = g a :: f rest) (items : List α) : f items = items.map g := by
  induction items with
  | nil => exact nil
  | cons a rest ih => rw [cons,ih,List.map_cons]

theorem Datum.toJsons_eq : ∀ items, Datum.toJsons items = items.map Datum.toJson :=
  eq_map_of_cons rfl fun _ _ => rfl

theorem Datum.fieldJsons_eq :
    ∀ fields, Datum.fieldJsons fields = fields.map fun f => .pair (.string f.1) f.2.toJson :=
  eq_map_of_cons rfl fun _ _ => rfl

theorem Datum.ofJsonWithin?_toJson {d : Datum} {fuel : Nat} (low : d.toJson.height < fuel) :
    ofJsonWithin? fuel d.toJson = some d := by
  induction fuel generalizing d with
  | zero => omega
  | succ fuel ih =>
    cases d with
    | unit | bool | string => rfl
    | int value => exact congrArg (Option.map int) (Json.int64?_int value)
    | bag items =>
      rw [toJson,toJsons_eq] at low ⊢
      have content := Json.height_lt_tagged "Coll" (.array (items.map toJson))
      have each (d : Datum) (member : d ∈ items) : ofJsonWithin? fuel d.toJson = some d := by
        have below := Json.height_lt_of_mem (List.mem_map_of_mem (f := toJson) member)
        exact ih (by omega)
      exact congrArg (Option.map bag) (Json.list?_map each)
    | record fields =>
      rw [toJson,fieldJsons_eq] at low ⊢
      have content := Json.height_lt_tagged "Rec"
        (.array (fields.map fun f => .pair (.string f.1) f.2.toJson))
      have each (f : String × Datum) (member : f ∈ fields) :
          Json.pair? Json.string? (ofJsonWithin? fuel) (.pair (.string f.1) f.2.toJson) = some f := by
        have inside : Json.pair (.string f.1) f.2.toJson ∈
            fields.map fun f => Json.pair (.string f.1) f.2.toJson := List.mem_map.mpr ⟨f, member, rfl⟩
        have below := Json.height_lt_of_mem inside
        have last : f.2.toJson.height < (Json.pair (.string f.1) f.2.toJson).height :=
          Json.height_lt_of_mem (by simp)
        have value : ofJsonWithin? fuel f.2.toJson = some f.2 := ih (by omega)
        simp [Json.pair,Json.pair?,Json.string?,value]
      exact congrArg (Option.map record) (Json.list?_map each)

theorem Datum.ofJson?_toJson (d : Datum) : ofJson? d.toJson = some d :=
  ofJsonWithin?_toJson (Nat.lt_succ_self _)

theorem UnaryOperator.ofJson?_toJson (op : UnaryOperator) : ofJson? op.toJson = some op := by
  cases op with
  | project names => exact congrArg (Option.map project) (Json.list?_map fun _ _ => rfl)
  | _ => rfl

theorem BinaryOperator.ofJson?_toJson (op : BinaryOperator) : ofJson? op.toJson = some op := by
  cases op <;> rfl

theorem Pattern.ofJsonWithin?_toJson {p : Pattern} {fuel : Nat} (low : p.toJson.height < fuel) :
    ofJsonWithin? fuel p.toJson = some p := by
  induction fuel generalizing p with
  | zero => omega
  | succ fuel ih =>
    cases p with
    | const value => exact congrArg (Option.map const) value.ofJson?_toJson
    | unary op p =>
      simp only [toJson,Json.tagged,Json.height,Json.memberHeights,Json.heights] at low
      have arg : ofJsonWithin? fuel p.toJson = some p := ih (by omega)
      simp [toJson,ofJsonWithin?,Json.pair?,op.ofJson?_toJson,arg]
    | binary op p q =>
      simp only [toJson,Json.tagged,Json.height,Json.memberHeights,Json.heights] at low
      have first : ofJsonWithin? fuel p.toJson = some p := ih (by omega)
      have second : ofJsonWithin? fuel q.toJson = some q := ih (by omega)
      simp [toJson,ofJsonWithin?,Json.triple?,op.ofJson?_toJson,first,second]
    | map p | assert p =>
      simp only [toJson,Json.tagged,Json.height,Json.memberHeights] at low
      have body : ofJsonWithin? fuel p.toJson = some p := ih (by omega)
      simp [toJson,ofJsonWithin?,body]
    | orElse p q | letIt p q | letEnv p q =>
      simp only [toJson,Json.tagged,Json.height,Json.memberHeights,Json.heights] at low
      have first : ofJsonWithin? fuel p.toJson = some p := ih (by omega)
      have second : ofJsonWithin? fuel q.toJson = some q := ih (by omega)
      simp [toJson,ofJsonWithin?,Json.pair?,first,second]
    | constant | it | env | left | right => rfl

theorem Pattern.ofJson?_toJson (p : Pattern) : ofJson? p.toJson = some p :=
  ofJsonWithin?_toJson (Nat.lt_succ_self _)

end QueryLowering
