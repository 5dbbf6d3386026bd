import Mathlib
import QueryLowering.Proofs.JsonText
import QueryLowering.Settings.Text

/-! Settings are loaded field by field. A text that holds some of their fields, in any order and among
members of other names, gives these fields and the defaults of the rest; the text of all fields gives
the settings back. -/
namespace QueryLowering

open Json (Integral)

namespace OperatorNames

/-- The entries of some operators name these operators as the table does, and leave the others. -/
theorem name?_foldl_insert (names : OperatorNames) (ops : List Operator) (acc : OperatorNames)
    (op : Operator) :
    ((ops.filterMap fun op => (names.name? op).map fun name => (op, name)).foldl
      (fun acc (op, name) => acc.insert op name) acc).name? op =
        if op ∈ ops then (names.name? op).or (acc.name? op) else acc.name? op := by
  induction ops generalizing acc with
  | nil => rfl
  | cons first ops ih =>
    cases named : names.name? first with
    | none =>
      rw [List.filterMap_cons_none (by rw [named]; rfl),ih]
      by_cases same : op = first
      · subst same
        simp [named]
      · simp [same]
    | some name =>
      rw [List.filterMap_cons_some (by rw [named]; rfl),List.foldl_cons,ih]
      by_cases same : op = first
      · subst same
        simp [named,insert]
      · simp [same,insert]

theorem ofList_toList (names : OperatorNames) : ofList names.toList = names := by
  refine ext_all fun op member => ?_
  rw [ofList,toList,name?_foldl_insert,if_pos member]
  exact Option.or_none

theorem ofEntries?_map (entries : List (Operator × String)) :
    ofEntries? Json.string? (entries.map fun (op, name) => (op.key, .string name)) =
      some (ofList entries) := by
  unfold ofEntries? ofList
  generalize empty = acc
  induction entries generalizing acc with
  | nil => rfl
  | cons entry entries ih =>
    rw [List.map_cons,List.foldlM_cons,List.foldl_cons,← ih]
    simp [Operator.ofKey?_key,Json.string?]

theorem ofJson?_toJson (names : OperatorNames) : ofJson? names.toJson = some names :=
  (ofEntries?_map names.toList).trans (congrArg some names.ofList_toList)

theorem toJson_integral (names : OperatorNames) : names.toJson.Integral := by
  refine .object fun m member => ?_
  obtain ⟨entry, _, rfl⟩ := List.mem_map.mp member
  exact .string entry.2

end OperatorNames

namespace Json.Source

/-- The same key, and a source of the value if the key is wanted. -/
def Gives (wanted : List String) (named : String × Source) (member : String × Json) : Prop :=
  named.1 = member.1 ∧ (wanted.contains member.1 → named.2.value? = some member.2)

theorem named_of_memberValues? (wanted : List String) {sources : List (List Nat × Source)}
    {members : List (String × Json)} (values : memberValues? sources = some members) :
    ∃ named, sources.mapM (fun (key, s) => do return (← text? key, s)) = some named ∧
      List.Forall₂ (Gives wanted) named members := by
  induction sources generalizing members with
  | nil =>
    cases values
    exact ⟨[], rfl, .nil⟩
  | cons source sources ih =>
    obtain ⟨key, s⟩ := source
    simp only [memberValues?,Option.pure_def,Option.bind_eq_bind,Option.bind_eq_some_iff,
      Option.some.injEq] at values
    obtain ⟨name, text, value, valued, rest, others, rfl⟩ := values
    obtain ⟨named, read, gives⟩ := ih others
    refine ⟨(name, s) :: named, ?_, .cons ⟨rfl, fun _ => valued⟩ gives⟩
    rw [List.mapM_cons,read]
    simp [text]

theorem named_of_memberSources (members : List (String × Json)) :
    (memberSources members).mapM (fun (key, s) => do return (← text? key, s)) =
      some (members.map fun m => (m.1, m.2.source)) := by
  induction members with
  | nil => rfl
  | cons m ms ih =>
    rw [memberSources,List.mapM_cons,ih]
    simp [text?_units]

theorem values_of_named {wanted : List String} {named : List (String × Source)}
    {members : List (String × Json)} (gives : List.Forall₂ (Gives wanted) named members) :
    (named.filter fun m => wanted.contains m.1).mapM (fun (key, s) => do return (key, ← value? s)) =
      some (members.filter fun m => wanted.contains m.1) := by
  induction gives with
  | nil => rfl
  | @cons source member named members first _ ih =>
    obtain ⟨key, s⟩ := source
    obtain ⟨rfl, value⟩ := first
    by_cases kept : wanted.contains member.1
    · rw [List.filter_cons,if_pos kept,List.filter_cons,if_pos kept,List.mapM_cons,ih]
      simp only [value kept]
      rfl
    · rw [List.filter_cons,if_neg kept,List.filter_cons,if_neg kept,ih]

/-- A reader that wants only some members of an object finds them as they are. -/
theorem valueOf?_of_value? {s : Source} {members : List (String × Json)} (wanted : List String)
    (value : s.value? = some (.object members)) :
    s.valueOf? wanted = some (.object (members.filter fun m => wanted.contains m.1)) := by
  cases s with
  | object sources =>
    obtain ⟨_, values, same⟩ := Option.map_eq_some_iff.mp value
    cases same
    obtain ⟨named, read, gives⟩ := named_of_memberValues? wanted values
    rw [valueOf?,read,Option.bind_eq_bind,Option.bind_some,values_of_named gives]
    rfl
  | number n =>
    rw [value?] at value
    split_ifs at value
    cases value
  | null | bool => cases value
  | string | array =>
    obtain ⟨_, _, other⟩ := Option.map_eq_some_iff.mp value
    cases other

/-- In a printed object too, where the members that are not wanted may be decimals of any size. -/
theorem valueOf?_source {members : List (String × Json)} (wanted : List String)
    (values : ∀ m ∈ members, wanted.contains m.1 → m.2.source.value? = some m.2) :
    (Json.object members).source.valueOf? wanted =
      some (.object (members.filter fun m => wanted.contains m.1)) := by
  have gives : List.Forall₂ (Gives wanted) (members.map fun m => (m.1, m.2.source)) members := by
    rw [List.forall₂_map_left_iff,List.forall₂_same]
    exact fun m member => ⟨rfl, values m member⟩
  rw [source,valueOf?,named_of_memberSources,Option.bind_eq_bind,Option.bind_some,
    values_of_named gives]
  rfl

end Json.Source

theorem Json.size?_int {value : Int} (bounds : 0 ≤ value ∧ value < UInt64.size) :
    Json.size? (.int value) = some value.toNat := by
  unfold size?
  exact if_pos bounds

theorem Json.size?_nat {n : Nat} (small : n < UInt64.size) : Json.size? (.nat n) = some n :=
  size?_int ⟨Int.natCast_nonneg n, Int.ofNat_lt.mpr small⟩

namespace Settings

section Fields

variable {α β : Type} {fields other : List (String × α)}

/-- A field that occurs more than once is refused, so it does not matter which occurrence is first. -/
theorem field?_perm (order : fields.Perm other) (name : String) (default : β)
    (read : α → Option β) : field? fields name default read = field? other name default read := by
  have found := order.filter fun f => f.1 == name
  unfold field?
  revert found
  generalize fields.filter (fun f => f.1 == name) = left, other.filter (fun f => f.1 == name) = right
  intro found
  match left, right with
  | [], _ => rw [found.nil_eq]
  | [f], _ => rw [List.singleton_perm.mp found]
  | _, [] => rw [found.eq_nil]
  | _, [f] => rw [List.perm_singleton.mp found]
  | _ :: _ :: _, _ :: _ :: _ => rfl

theorem ofFields?_perm (names : α → Option OperatorNames) (size : α → Option Nat)
    (order : fields.Perm other) : ofFields? names size fields = ofFields? names size other := by
  simp only [ofFields?,field?_perm order]

end Fields

/-- The settings with the defaults in the fields that are not kept. -/
def keeping (c : Settings) (keep : String → Bool) : Settings :=
  let default : Settings := {}
  { operatorNames := if keep "operator_names" then c.operatorNames else default.operatorNames
    maxRights := if keep "max_set_operation_rights" then c.maxRights else default.maxRights
    maxDepth := if keep "max_depth" then c.maxDepth else default.maxDepth }

theorem ofFields?_fields {c : Settings} (rights : c.maxRights < UInt64.size)
    (depth : c.maxDepth < UInt64.size) (keep : String → Bool) :
    ofFields? OperatorNames.ofJson? Json.size? (c.fields.filter fun f => keep f.1) =
      some (c.keeping keep) := by
  have names := c.operatorNames.ofJson?_toJson
  have rights := Json.size?_nat rights
  have depth := Json.size?_nat depth
  cases first : keep "operator_names" <;> cases second : keep "max_set_operation_rights" <;>
    cases third : keep "max_depth" <;>
    simp [ofFields?,field?,fields,keeping,first,second,third,names,rights,depth]

theorem fields_integral {c : Settings} (rights : c.maxRights < UInt64.size)
    (depth : c.maxDepth < UInt64.size) : ∀ f ∈ c.fields, f.2.Integral := by
  intro f member
  simp only [fields,List.mem_cons,List.not_mem_nil,or_false] at member
  rcases member with rfl | rfl | rfl
  · exact c.operatorNames.toJson_integral
  · exact .whole (Nat.lt_trans rights (by decide))
  · exact .whole (Nat.lt_trans depth (by decide))

/-- What is left of the members for a reader of the fields is the kept fields, in some order. -/
theorem known_perm {c : Settings} {keep : String → Bool} {unknown members : List (String × Json)}
    (others : ∀ m ∈ unknown, m.1 ∉ fieldNames)
    (order : members.Perm ((c.fields.filter fun f => keep f.1) ++ unknown)) :
    (members.filter fun m => fieldNames.contains m.1).Perm (c.fields.filter fun f => keep f.1) := by
  have known (f) (member : f ∈ c.fields) : fieldNames.contains f.1 = true := by
    simp only [fields,List.mem_cons,List.not_mem_nil,or_false] at member
    rcases member with rfl | rfl | rfl <;> simp [fieldNames]
  have none : (unknown.filter fun m => fieldNames.contains m.1) = [] := by
    rw [List.filter_eq_nil_iff]
    intro m member
    simpa using others m member
  have all : ((c.fields.filter fun f => keep f.1).filter fun m => fieldNames.contains m.1) =
      c.fields.filter fun f => keep f.1 := by
    rw [List.filter_eq_self]
    exact fun f member => known f (List.mem_of_mem_filter member)
  have filtered := order.filter fun m => fieldNames.contains m.1
  rwa [List.filter_append,none,all,List.append_nil] at filtered

theorem ofJsonText_kept {c : Settings} (rights : c.maxRights < UInt64.size)
    (depth : c.maxDepth < UInt64.size) (keep : String → Bool)
    {unknown members : List (String × Json)} {text : String} {s : Json.Source}
    (others : ∀ m ∈ unknown, m.1 ∉ fieldNames)
    (order : members.Perm ((c.fields.filter fun f => keep f.1) ++ unknown))
    (parsed : Json.Source.read? text = some s)
    (value : s.valueOf? fieldNames =
      some (.object (members.filter fun m => fieldNames.contains m.1))) :
    ofJsonText text = .ok (c.keeping keep) := by
  have known := ofFields?_fields rights depth keep
  rw [← ofFields?_perm _ _ (known_perm others order)] at known
  rw [ofJsonText,parsed]
  simp only [value,Option.bind_some,ofJson?,known]

/-- Only the fields have to be printed without decimals, and they are. -/
theorem ofJsonText_render {c : Settings} (rights : c.maxRights < UInt64.size)
    (depth : c.maxDepth < UInt64.size) (keep : String → Bool)
    {unknown members : List (String × Json)} (others : ∀ m ∈ unknown, m.1 ∉ fieldNames)
    (order : members.Perm ((c.fields.filter fun f => keep f.1) ++ unknown)) :
    ofJsonText (Json.object members).render = .ok (c.keeping keep) := by
  refine ofJsonText_kept rights depth keep others order (Json.Source.read?_render _)
    (Json.Source.valueOf?_source fieldNames fun m member known => ?_)
  rcases List.mem_append.mp (order.mem_iff.mp member) with field | other
  · exact (fields_integral rights depth m (List.mem_of_mem_filter field)).value?_source
  · exact absurd (by simpa using known) (others m other)

theorem keeping_all (c : Settings) : c.keeping (fun _ => true) = c := rfl

/-- Settings whose limits are of 64 bits are loaded from any text of an object that has just some of
their fields, in any order and among members of other names: these fields have their values and the
others the defaults. Every such object is such a text when it is printed, whatever the values of the
other members; and the text of the settings gives all of them back. -/
theorem loading_fieldwise {c : Settings} (rights : c.maxRights < UInt64.size)
    (depth : c.maxDepth < UInt64.size) :
    (∀ (keep : String → Bool) (unknown members : List (String × Json)),
      (∀ m ∈ unknown, m.1 ∉ fieldNames) →
      members.Perm ((c.fields.filter fun f => keep f.1) ++ unknown) →
        (∀ text, Json.read? text = some (.object members) →
          ofJsonText text = .ok (c.keeping keep)) ∧
        ofJsonText (Json.object members).render = .ok (c.keeping keep)) ∧
    ofJsonText c.toJsonText = .ok c := by
  refine ⟨fun keep unknown members others order => ⟨fun text read => ?_, ?_⟩, ?_⟩
  · obtain ⟨s, parsed, value⟩ := Option.bind_eq_some_iff.mp read
    exact ofJsonText_kept rights depth keep others order parsed
      (Json.Source.valueOf?_of_value? fieldNames value)
  · exact ofJsonText_render rights depth keep others order
  · have order : c.fields.Perm ((c.fields.filter fun _ => true) ++ []) := by
      rw [List.filter_true,List.append_nil]
    rw [← c.keeping_all]
    exact ofJsonText_render rights depth _ (by simp) order

/-- A table and the greatest limit of 64 bits, without a depth. The fields are in the other order and
come after members of an unknown name. -/
theorem loading_fieldwise_withoutDepth :
    ofJsonText ("\x7b\"n\": [1.5, \x7b\x7d], \"n\": null, \"max_set_operation_rights\": " ++
      "18446744073709551615, \"operator_names\": \x7b\"lt\": \"\\ud83d\\ude00\"\x7d\x7d") =
        .ok ⟨.ofList [(.lt, "😀")], 18446744073709551615, 256⟩ := by
  refine ((@loading_fieldwise ⟨.ofList [(.lt, "😀")], 18446744073709551615, 7⟩ (by decide)
    (by decide)).1 (· != "max_depth")
    [("n", .array [.number (.decimal false 15 (-1)), .object []]), ("n", .null)]
    [("n", .array [.number (.decimal false 15 (-1)), .object []]), ("n", .null),
      ("max_set_operation_rights", .nat 18446744073709551615),
      ("operator_names", .object [("lt", .string "😀")])] (by decide) ?_).1 _ (by cbv)
  exact (@List.perm_append_comm _ [_, _]).trans (.append_right _ (.swap ..))

end Settings

end QueryLowering
