import QueryLowering.Proofs.Counting
import QueryLowering.Proofs.Recovery

/-! The size of patterns. Patterns, operators and data have tags of their own, so the size of a
pattern can be counted in its text; and each step of a chain of rules adds five patterns to its own
one. -/
namespace QueryLowering

/-- Counts of several tags are added up in one pass over the tags of a tree. -/
theorem Sexpr.sum_countTag (names : Finset String) (t : Sexpr) :
    ∑ tag ∈ names, t.countTag tag = t.tags.countP (· ∈ names) := by
  simp only [countTag_eq_count]
  induction t.tags with
  | nil => simp
  | cons own rest ih =>
    simp only [List.count_cons,Finset.sum_add_distrib,ih,List.countP_cons]
    simp

namespace Pattern

/-- The tags that patterns have. -/
def tagNames : Finset String :=
  {"pconst", "punop", "pbinop", "pmap", "passert", "porElse", "pit", "pletIt", "pgetConstant",
    "penv", "pletEnv", "pleft", "pright"}

theorem mem_tagNames_iff {tag : String} : tag ∈ tagNames ↔ ∃ p : Pattern, p.tag = tag := by
  constructor
  · intro member
    simp only [tagNames,Finset.mem_insert,Finset.mem_singleton] at member
    rcases member with rfl | rfl | rfl | rfl | rfl | rfl | rfl | rfl | rfl | rfl | rfl | rfl | rfl
    · exact ⟨const .unit, rfl⟩
    · exact ⟨unary .bag it, rfl⟩
    · exact ⟨binary .equal it it, rfl⟩
    · exact ⟨map it, rfl⟩
    · exact ⟨assert it, rfl⟩
    · exact ⟨orElse it it, rfl⟩
    · exact ⟨it, rfl⟩
    · exact ⟨letIt it it, rfl⟩
    · exact ⟨constant "", rfl⟩
    · exact ⟨env, rfl⟩
    · exact ⟨letEnv it it, rfl⟩
    · exact ⟨left, rfl⟩
    · exact ⟨right, rfl⟩
  · rintro ⟨p, rfl⟩
    cases p <;> simp [tag,tagNames]

/-- How many nodes of a tree have the tag of a pattern. -/
def nodesIn (t : Sexpr) : Nat := t.tags.countP (· ∈ tagNames)

theorem nodesIn_eq_zero {t : Sexpr} (other : ∀ tag ∈ t.tags, tag ∉ tagNames) : nodesIn t = 0 := by
  simpa [nodesIn] using other

end Pattern

open Pattern (nodesIn nodesIn_eq_zero tagNames)

theorem UnaryOperator.nodesIn_toSexpr (op : UnaryOperator) : nodesIn op.toSexpr = 0 := by
  apply nodesIn_eq_zero
  have own : op.toSexpr.tags = [op.tag] := by
    simp [toSexpr,List.flatMap_map]
  rw [own,List.forall_mem_singleton]
  cases op <;> simp [tag,tagNames]

theorem BinaryOperator.nodesIn_toSexpr (op : BinaryOperator) : nodesIn op.toSexpr = 0 := by
  apply nodesIn_eq_zero
  rw [toSexpr,Sexpr.tags_node,List.flatMap_nil,List.forall_mem_singleton]
  cases op <;> simp [tag,tagNames]

theorem Datum.nodesIn_toSexpr (d : Datum) : nodesIn d.toSexpr = 0 := by
  apply nodesIn_eq_zero
  induction d using Datum.induction with
  | unit | bool | int | string => simp [toSexpr,tagNames]
  | bag items ih =>
    rw [toSexpr,toSexprs_eq,Sexpr.tags_node,List.forall_mem_cons,List.flatMap_map]
    refine ⟨by simp [tagNames], fun tag member => ?_⟩
    obtain ⟨d, inside, member⟩ := List.mem_flatMap.mp member
    exact ih d inside tag member
  | record fields ih =>
    rw [toSexpr,fieldSexprs_eq,Sexpr.tags_node,List.forall_mem_cons,List.flatMap_map]
    refine ⟨by simp [tagNames], fun tag member => ?_⟩
    obtain ⟨f, inside, member⟩ := List.mem_flatMap.mp member
    simp only [fieldSexpr,Sexpr.tags_node,Sexpr.tags_string,List.flatMap_cons,List.flatMap_nil,
      List.nil_append,List.append_nil,List.mem_cons] at member
    rcases member with rfl | member
    · simp [tagNames]
    · exact ih f inside tag member

namespace Pattern

theorem nodesIn_node {tag : String} (args : List Sexpr) (own : tag ∈ tagNames) :
    nodesIn (.node tag args) = 1 + (args.map nodesIn).sum := by
  rw [nodesIn,Sexpr.tags_node,List.countP_cons_of_pos (by simpa using own),List.countP_flatMap,
    Nat.add_comm]
  rfl

/-- The tree of a pattern has one node for each pattern in it. What stands for operators and data has
other tags. -/
theorem nodesIn_toSexpr (p : Pattern) : nodesIn p.toSexpr = p.size := by
  induction p with
  | const value =>
    rw [toSexpr,nodesIn_node _ (by simp [tagNames])]
    simp [size,value.nodesIn_toSexpr]
  | unary op p ih =>
    rw [toSexpr,nodesIn_node _ (by simp [tagNames])]
    simp [size,op.nodesIn_toSexpr,ih]
  | binary op p q first second =>
    rw [toSexpr,nodesIn_node _ (by simp [tagNames])]
    simp [size,op.nodesIn_toSexpr,first,second]
  | map p ih | assert p ih =>
    rw [toSexpr,nodesIn_node _ (by simp [tagNames])]
    simp [size,ih]
  | orElse p q first second | letIt p q first second | letEnv p q first second =>
    rw [toSexpr,nodesIn_node _ (by simp [tagNames])]
    simp [size,first,second]
  | constant name =>
    rw [toSexpr,nodesIn_node _ (by simp [tagNames])]
    simp [size,nodesIn]
  | it | env | left | right =>
    rw [toSexpr,nodesIn_node _ (by simp [tagNames])]
    rfl

theorem size_globalLaw (p rest : Pattern) :
    (globalLaw p rest).size = p.size + 5 + rest.size := by
  simp only [globalLaw,flatten,singleton,iterateGlobally,size]
  omega

theorem size_foldr_globalLaw (steps : List Pattern) (rest : Pattern) :
    (steps.foldr globalLaw rest).size = (steps.map size).sum + 5 * steps.length + rest.size := by
  induction steps with
  | nil => simp
  | cons p steps ih =>
    rw [List.foldr_cons,size_globalLaw,ih,List.map_cons,List.sum_cons,List.length_cons]
    omega

/-- The size of a pattern is the number of nodes in its text that have the tag of a pattern. A chain
of global steps expands to a pattern with five patterns more for each step than the steps have
themselves, and one more for the pattern that is returned. -/
theorem size_counted (p : Pattern) (steps : List Pattern) (result : Pattern) :
    (tagNames.card = 13 ∧ ∀ tag, tag ∈ tagNames ↔ ∃ q : Pattern, q.tag = tag) ∧
    (∃ t, Sexpr.read p.render = .ok t ∧ p.size = ∑ tag ∈ tagNames, t.countTag tag) ∧
    ∃ q, (Rule.chain (steps.map (.mk .global)) (.returning result)).expand = .ok q ∧
      q.size = (steps.map size).sum + 5 * steps.length + result.size + 1 := by
  refine ⟨⟨rfl, fun tag => mem_tagNames_iff⟩, ⟨p.toSexpr, p.read_render, ?_⟩, ?_⟩
  · rw [Sexpr.sum_countTag,← nodesIn_toSexpr]
    rfl
  · have global : ∀ t ∈ steps.map (Template.mk .global), t.kind = .global := by simp
    refine ⟨_, Rule.expand_chain_global global rfl, ?_⟩
    rw [List.map_map,Function.comp_def,List.map_id',size_foldr_globalLaw,singleton,size]
    omega

end Pattern

end QueryLowering
