import Mathlib
import QueryLowering.Pattern.Basic
import QueryLowering.Proofs.Canonical

/-! The text of patterns. The steps in which a writer takes a pattern, an operator or a datum have the
tokens of its tree. A node ends at its closing bracket, so its text is never the beginning of another
tree's text; and patterns, operators and data are told apart by their trees. So the text of a pattern
is known to be complete without looking at what follows it. -/
namespace QueryLowering

namespace Sexpr

/-- The text of a node ends in its closing bracket. -/
theorem render_node {tag : String} {args : List Sexpr} (wellFormed : (node tag args).WellFormed) :
    (node tag args).render = (Token.opening tag).text ++ (textOf (tokensOf args) ++ ")") := by
  have trimmed : (node tag args).render ++ " " = textOf (node tag args).tokens :=
    trimEnd_textOf (tokens_ne_nil _) wellFormed.tokens
  have spaced : textOf (node tag args).tokens =
      (Token.opening tag).text ++ (textOf (tokensOf args) ++ ")") ++ " " := by
    apply String.toList_inj.mp
    simp [Sexpr.tokens,Token.text]
  rw [spaced] at trimmed
  apply String.toList_inj.mp
  apply (List.append_left_inj " ".toList).mp
  rw [← String.toList_append,trimmed,String.toList_append]

namespace Reader

variable {pos : Nat} {stack : List Frame}

/-- Blanks are all that may follow a complete expression, and they do not change it. -/
theorem run_done {cs : List Char} {t u : Sexpr} (read : run pos ⟨[], .done t⟩ cs = .ok u) :
    u = t := by
  induction cs generalizing pos with
  | nil =>
    simp only [run,State.finish,Except.ok.injEq] at read
    exact read.symm
  | cons c cs ih =>
    simp only [run,State.step,afterResult] at read
    by_cases blank : Text.isBlank c = true
    · rw [if_pos blank] at read
      exact ih read
    · rw [if_neg blank] at read
      cases read

/-- The text of a node, without the space behind it. -/
theorem steps_node {tag : String} {args : List Sexpr}
    (wellFormed : (Sexpr.node tag args).WellFormed) :
    State.steps pos ⟨stack, .between⟩ (Sexpr.node tag args).render.toList =
      .ok (deliver (.node tag args) stack) := by
  rw [render_node wellFormed,String.toList_append,String.toList_append]
  obtain ⟨token, argsWellFormed⟩ := wellFormed
  rw [allWellFormed_iff] at argsWellFormed
  have inner (place : Nat) :
      State.steps place ⟨⟨tag, []⟩ :: stack, .between⟩ (textOf (tokensOf args)).toList =
        .ok ⟨⟨tag, args.reverse ++ []⟩ :: stack, .between⟩ :=
    steps_args tag [] fun t member => steps_tree (argsWellFormed t member)
  rw [steps_append _ (steps_opening token),steps_append _ (inner _),List.append_nil]
  rw [show ")".toList = [')'] from rfl,steps_cons _ (step_closing tag args.reverse),
    List.reverse_reverse]
  rfl

end Reader

/-- No text of a node is the beginning of another tree's text. -/
theorem eq_of_render_append {tag : String} {args : List Sexpr} {u : Sexpr} {rest : String}
    (wellFormed : (node tag args).WellFormed) (other : u.WellFormed)
    (longer : u.render = (node tag args).render ++ rest) : u = node tag args := by
  have read := read_render other
  rw [Sexpr.read,Reader.State.initial,longer,String.toList_append,
    Reader.run_append _ (Reader.steps_node wellFormed)] at read
  exact Reader.run_done read

namespace Writer

variable {steps : List Step} {t : Sexpr}

theorem session_of_writeAll? {w next : Writer}
    (written : w.writeAll? (steps.flatMap Step.tokens) = some next) : w.session steps = next := by
  induction steps generalizing w with
  | nil => exact Option.some.inj written
  | cons step rest ih =>
    rw [List.flatMap_cons,writeAll?_append] at written
    obtain ⟨mid, first, others⟩ := Option.bind_eq_some_iff.mp written
    have taken : w.take step = mid := by rw [take,step?,first,Option.getD_some]
    rw [session,List.foldl_cons,taken]
    exact ih others

/-- Steps with the tokens of a tree come to one step that writes the tree. -/
theorem session_eq_take (w : Writer) (tokens : steps.flatMap Step.tokens = t.tokens) :
    w.session steps = w.take (.tree t) := by
  apply session_of_writeAll?
  rw [tokens,take,step?,Step.tokens,writeAll?_tokens,Option.getD_some]

theorem textAfter_eq (tokens : steps.flatMap Step.tokens = t.tokens) :
    textAfter steps = t.render := by
  rw [textAfter,session_eq_take {} tokens,take,step?,Step.tokens,writeAll?_tokens,Option.getD_some,
    finish,String.empty_append,render]

end Writer

end Sexpr

open Sexpr.Writer (Step)

namespace UnaryOperator

theorem tokens_steps (op : UnaryOperator) : op.steps.flatMap Step.tokens = op.toSexpr.tokens := by
  have strings (names : List String) :
      (names.map Step.string).flatMap Step.tokens = Sexpr.tokensOf (names.map Sexpr.string) := by
    induction names with
    | nil => simp
    | cons name rest ih => simp [Step.tokens,Sexpr.tokens,ih]
  simp [steps,toSexpr,Sexpr.tokens,Step.tokens,strings]

theorem toSexpr_wellFormed (op : UnaryOperator) : op.toSexpr.WellFormed := by
  have strings (names : List String) : ∀ t ∈ names.map Sexpr.string, t.WellFormed := by
    intro t member
    obtain ⟨name, -, rfl⟩ := List.mem_map.mp member
    trivial
  refine ⟨?_, Sexpr.allWellFormed_iff.mpr (strings op.names)⟩
  cases op <;> simp only [tag] <;> decide

/-- An operator is known by its tag and its names. -/
theorem toSexpr_injective : Function.Injective toSexpr := by
  intro op other same
  simp only [toSexpr,Sexpr.node.injEq] at same
  obtain ⟨sameTag, sameNames⟩ := same
  have names : op.names = other.names :=
    List.map_injective_iff.mpr (fun _ _ => Sexpr.string.inj) sameNames
  cases op <;> cases other <;> simp_all [tag,UnaryOperator.names]

end UnaryOperator

namespace BinaryOperator

theorem tokens_steps (op : BinaryOperator) : op.steps.flatMap Step.tokens = op.toSexpr.tokens := by
  simp [steps,toSexpr,Sexpr.tokens,Step.tokens,Sexpr.emptyNodeTokens]

theorem find?_tag (op : BinaryOperator) : all.find? (fun other => other.tag == op.tag) = some op := by
  cases op <;> rfl

theorem toSexpr_wellFormed (op : BinaryOperator) : op.toSexpr.WellFormed := by
  refine ⟨?_, trivial⟩
  cases op <;> decide

theorem toSexpr_injective : Function.Injective toSexpr := by
  intro op other same
  have found := find?_tag op
  rw [(Sexpr.node.inj same).1,find?_tag] at found
  exact (Option.some.inj found).symm

end BinaryOperator

/-- Lists are told apart item by item. -/
theorem eq_of_map_eq {α β : Type} {f : α → β} {as bs : List α}
    (each : ∀ a ∈ as, ∀ b, f a = f b → a = b) (same : as.map f = bs.map f) : as = bs := by
  induction as generalizing bs with
  | nil =>
    rw [List.map_nil,eq_comm,List.map_eq_nil_iff] at same
    exact same.symm
  | cons a as ih =>
    cases bs with
    | nil => cases same
    | cons b bs =>
      rw [List.map_cons,List.map_cons,List.cons.injEq] at same
      rw [each a (by simp) b same.1,ih (fun x member => each x (by simp [member])) same.2]

namespace Datum

/-- Induction over data, with the hypothesis for every item of a bag and every field of a record. -/
@[elab_as_elim]
theorem induction {motive : Datum → Prop} (unit : motive .unit)
    (bool : ∀ value, motive (.bool value)) (int : ∀ value, motive (.int value))
    (string : ∀ value, motive (.string value))
    (bag : ∀ items, (∀ d ∈ items, motive d) → motive (.bag items))
    (record : ∀ fields, (∀ f ∈ fields, motive f.2) → motive (.record fields)) (d : Datum) :
    motive d := by
  refine @Datum.rec motive (fun items => ∀ d ∈ items, motive d)
    (fun fields => ∀ f ∈ fields, motive f.2) (fun f => motive f.2) unit bool int string bag record
    ?_ ?_ ?_ ?_ (fun _ _ value => value) d
  · exact fun d member => absurd member List.not_mem_nil
  · exact fun head tail first rest => List.forall_mem_cons.mpr ⟨first, rest⟩
  · exact fun f member => absurd member List.not_mem_nil
  · exact fun head tail first rest => List.forall_mem_cons.mpr ⟨first, rest⟩

theorem toSexprs_eq (items : List Datum) : toSexprs items = items.map toSexpr := by
  induction items with
  | nil => simp [toSexprs]
  | cons d rest ih => simp [toSexprs,ih]

/-- A field of a record. -/
def fieldSexpr (f : String × Datum) : Sexpr := .node "field" [.string f.1, f.2.toSexpr]

theorem fieldSexprs_eq (fields : List (String × Datum)) :
    fieldSexprs fields = fields.map fieldSexpr := by
  induction fields with
  | nil => simp [fieldSexprs]
  | cons f rest ih => simp [fieldSexprs,fieldSexpr,ih]

theorem tokens_steps (d : Datum) : d.steps.flatMap Step.tokens = d.toSexpr.tokens := by
  induction d using Datum.induction with
  | unit => simp [steps,toSexpr,Step.tokens,Sexpr.tokens,Sexpr.emptyNodeTokens]
  | bool value | int value => simp [steps,toSexpr,Step.tokens,Sexpr.tokens]
  | string value => simp [steps,toSexpr,Step.tokens,Sexpr.tokens,Sexpr.stringNodeTokens]
  | bag items ih =>
    have inner : (itemSteps items).flatMap Step.tokens = Sexpr.tokensOf (toSexprs items) := by
      induction items with
      | nil => simp [itemSteps,toSexprs]
      | cons d rest later =>
        rw [itemSteps,toSexprs,List.flatMap_append,Sexpr.tokensOf_cons,ih d (by simp),
          later fun d member => ih d (by simp [member])]
    simp [steps,toSexpr,Step.tokens,Sexpr.tokens,inner]
  | record fields ih =>
    have inner : (fieldSteps fields).flatMap Step.tokens = Sexpr.tokensOf (fieldSexprs fields) := by
      induction fields with
      | nil => simp [fieldSteps,fieldSexprs]
      | cons f rest later =>
        obtain ⟨name, d⟩ := f
        have value : d.steps.flatMap Step.tokens = d.toSexpr.tokens := ih (name, d) (by simp)
        have others := later fun f member => ih f (by simp [member])
        simp [fieldSteps,fieldSexprs,Step.tokens,Sexpr.tokens,value,others]
    simp [steps,toSexpr,Step.tokens,Sexpr.tokens,inner]

theorem toSexpr_wellFormed (d : Datum) : d.toSexpr.WellFormed := by
  induction d using Datum.induction with
  | unit => exact ⟨by decide, trivial⟩
  | bool value => cases value <;> exact ⟨by decide, (by decide : Sexpr.IsToken _), trivial⟩
  | int value => exact ⟨by decide, Sexpr.isToken_toString _, trivial⟩
  | string value => exact ⟨by decide, trivial, trivial⟩
  | bag items ih =>
    rw [toSexpr,toSexprs_eq]
    refine ⟨by decide, Sexpr.allWellFormed_iff.mpr fun t member => ?_⟩
    obtain ⟨d, inside, rfl⟩ := List.mem_map.mp member
    exact ih d inside
  | record fields ih =>
    rw [toSexpr,fieldSexprs_eq]
    refine ⟨by decide, Sexpr.allWellFormed_iff.mpr fun t member => ?_⟩
    obtain ⟨f, inside, rfl⟩ := List.mem_map.mp member
    exact ⟨by decide, trivial, ih f inside, trivial⟩

/-- The order of fields shows in the tree, and so does a name that is repeated. -/
theorem toSexpr_injective : Function.Injective toSexpr := by
  intro d
  induction d using Datum.induction with
  | int value =>
    intro other same
    cases other with
    | int value' =>
      simp only [toSexpr,Sexpr.node.injEq,List.cons.injEq,Sexpr.atom.injEq,
        Int.toString_eq_repr,true_and,and_true] at same
      rw [Int64.toInt_inj.mp (Int.repr_injective same)]
    | _ => simp [toSexpr] at same
  | bag items ih =>
    intro other same
    cases other with
    | bag items' =>
      simp only [toSexpr,toSexprs_eq,Sexpr.node.injEq,true_and] at same
      rw [eq_of_map_eq (fun d member other equal => ih d member equal) same]
    | _ => simp [toSexpr] at same
  | record fields ih =>
    intro other same
    cases other with
    | record fields' =>
      simp only [toSexpr,fieldSexprs_eq,Sexpr.node.injEq,true_and] at same
      refine congrArg record (eq_of_map_eq (fun f member g equal => ?_) same)
      simp only [fieldSexpr,Sexpr.node.injEq,List.cons.injEq,Sexpr.string.injEq,true_and,
        and_true] at equal
      exact Prod.ext equal.1 (ih f member equal.2)
    | _ => simp [toSexpr] at same
  | bool value =>
    intro other same
    cases other with
    | bool value' => cases value <;> cases value' <;> simp [toSexpr] at same ⊢
    | _ => simp [toSexpr] at same
  | unit | string =>
    intro other same
    cases other <;> simp_all [toSexpr]

end Datum

namespace Pattern

theorem tokens_steps (p : Pattern) : p.steps.flatMap Step.tokens = p.toSexpr.tokens := by
  induction p with
  | const value => simp [steps,toSexpr,tag,Step.tokens,Sexpr.tokens,value.tokens_steps]
  | unary op p ih => simp [steps,toSexpr,tag,Step.tokens,Sexpr.tokens,op.tokens_steps,ih]
  | binary op p q first second =>
    simp [steps,toSexpr,tag,Step.tokens,Sexpr.tokens,op.tokens_steps,first,second]
  | map p ih | assert p ih => simp [steps,toSexpr,tag,Step.tokens,Sexpr.tokens,ih]
  | orElse p q first second | letIt p q first second | letEnv p q first second =>
    simp [steps,toSexpr,tag,Step.tokens,Sexpr.tokens,first,second]
  | constant name | it | env | left | right =>
    simp [steps,toSexpr,tag,Step.tokens,Sexpr.tokens]

/-- A pattern that is written step by step has the text of its tree. -/
theorem render_eq (p : Pattern) : p.render = p.toSexpr.render :=
  Sexpr.Writer.textAfter_eq p.tokens_steps

theorem toSexpr_node (p : Pattern) : ∃ args, p.toSexpr = .node p.tag args := by
  cases p <;> exact ⟨_, rfl⟩

theorem toSexpr_wellFormed (p : Pattern) : p.toSexpr.WellFormed := by
  induction p with
  | const value => exact ⟨by decide, value.toSexpr_wellFormed, trivial⟩
  | unary op p ih => exact ⟨by decide, op.toSexpr_wellFormed, ih, trivial⟩
  | binary op p q first second => exact ⟨by decide, op.toSexpr_wellFormed, first, second, trivial⟩
  | map p ih | assert p ih => exact ⟨by decide, ih, trivial⟩
  | orElse p q first second | letIt p q first second | letEnv p q first second =>
    exact ⟨by decide, first, second, trivial⟩
  | constant name => exact ⟨by decide, trivial, trivial⟩
  | it | env | left | right => exact ⟨by decide, trivial⟩

/-- Every constructor has a tag of its own, so that only its arguments are left to compare. -/
theorem toSexpr_injective : Function.Injective toSexpr := by
  intro p
  induction p with
  | const value =>
    intro other same
    cases other <;> simp [toSexpr] at same
    rw [Datum.toSexpr_injective same]
  | unary op p ih =>
    intro other same
    cases other <;> simp [toSexpr] at same
    rw [UnaryOperator.toSexpr_injective same.1,ih same.2]
  | binary op p q first second =>
    intro other same
    cases other <;> simp [toSexpr] at same
    rw [BinaryOperator.toSexpr_injective same.1,first same.2.1,second same.2.2]
  | map p ih | assert p ih =>
    intro other same
    cases other <;> simp [toSexpr] at same
    rw [ih same]
  | orElse p q first second | letIt p q first second | letEnv p q first second =>
    intro other same
    cases other <;> simp [toSexpr] at same
    rw [first same.1,second same.2]
  | constant name =>
    intro other same
    cases other <;> simp [toSexpr] at same
    rw [same]
  | it | env | left | right =>
    intro other same
    cases other <;> simp [toSexpr] at same ⊢

theorem read_render (p : Pattern) : Sexpr.read p.render = .ok p.toSexpr := by
  rw [render_eq]
  exact Sexpr.read_render p.toSexpr_wellFormed

/-- The text of a pattern reads back as a tree with the same text, and it begins the text of no other
pattern. -/
theorem render_self_delimiting (p : Pattern) :
    (∃ t, Sexpr.read p.render = .ok t ∧ t.render = p.render) ∧
    ∀ q : Pattern, (∃ rest, q.render = p.render ++ rest) ↔ p = q := by
  refine ⟨⟨p.toSexpr, p.read_render, p.render_eq.symm⟩, fun q => ⟨?_, ?_⟩⟩
  · rintro ⟨rest, longer⟩
    obtain ⟨args, node⟩ := p.toSexpr_node
    have wellFormed := p.toSexpr_wellFormed
    rw [render_eq,render_eq,node] at longer
    rw [node] at wellFormed
    have same := Sexpr.eq_of_render_append wellFormed q.toSexpr_wellFormed longer
    exact toSexpr_injective (node.trans same.symm)
  · rintro rfl
    exact ⟨"", by simp⟩

end Pattern

end QueryLowering
