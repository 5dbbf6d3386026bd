import Mathlib.Data.String.Basic
import QueryLowering.Proofs.Rendering

/-! Reading written trees. The text of a well-formed tree takes the reader from any place where an
expression may begin to the place behind that tree; and whatever the reader returns is well
formed. -/
namespace QueryLowering.Sexpr

namespace Reader

/-- The state after some characters, if none of them is refused. -/
def State.steps (pos : Nat) (s : State) : List Char → Except ReadError State
  | [] => .ok s
  | c :: cs =>
    match s.step pos c with
    | .ok next => next.steps (pos + c.utf8Size) cs
    | .error e => .error e

variable {pos : Nat} {s next : State} {stack : List Frame}

theorem push_append_ofList (text : String) (c : Char) (cs : List Char) :
    text.push c ++ String.ofList cs = text ++ String.ofList (c :: cs) :=
  String.toList_inj.mp (by simp)

theorem steps_cons {c : Char} (cs : List Char) (step : s.step pos c = .ok next) :
    s.steps pos (c :: cs) = next.steps (pos + c.utf8Size) cs := by
  rw [State.steps,step]

theorem steps_append {first : List Char} (second : List Char)
    (steps : s.steps pos first = .ok next) :
    s.steps pos (first ++ second) = next.steps (pos + String.utf8Len first) second := by
  induction first generalizing pos s with
  | nil =>
    cases steps
    simp
  | cons c cs ih =>
    simp only [List.cons_append,State.steps] at steps ⊢
    split at steps
    next step =>
      simpa [Nat.add_comm,Nat.add_left_comm,Nat.add_assoc] using ih steps
    next => cases steps

theorem run_append {first : List Char} (second : List Char)
    (steps : s.steps pos first = .ok next) :
    run pos s (first ++ second) = run (pos + String.utf8Len first) next second := by
  induction first generalizing pos s with
  | nil =>
    cases steps
    simp
  | cons c cs ih =>
    rw [State.steps] at steps
    rw [List.cons_append,run]
    cases step : s.step pos c with
    | error e =>
      rw [step] at steps
      cases steps
    | ok after =>
      rw [step] at steps
      simpa [Nat.add_comm,Nat.add_left_comm,Nat.add_assoc] using ih steps

theorem run_eq_finish {cs : List Char} (steps : s.steps pos cs = .ok next) :
    run pos s cs = next.finish (pos + String.utf8Len cs) := by
  have whole := run_append [] steps
  rw [List.append_nil] at whole
  exact whole

theorem start_space : start pos ' ' stack = .ok ⟨stack, .between⟩ := by
  simp [start,isBlank_space]

theorem deliver_space (t : Sexpr) : (deliver t stack).step pos ' ' = .ok (deliver t stack) := by
  cases stack <;> simp [deliver,State.step,start_space,afterResult,isBlank_space]

theorem endAtom_space (text : String) :
    endAtom pos ' ' text stack = .ok (deliver (.atom text) stack) := by
  cases stack <;> simp [endAtom,deliver,start_space,afterResult,isBlank_space]

/-- Characters of a token are added one by one to a tag, or to an atom, that has begun. -/
theorem steps_tokenChars (mode : String → Mode)
    (added : ∀ pos text c, isTokenChar c = true →
      State.step pos c ⟨stack, mode text⟩ = .ok ⟨stack, mode (text.push c)⟩)
    {cs : List Char} (allowed : ∀ c ∈ cs, isTokenChar c = true) (text : String) :
    State.steps pos ⟨stack, mode text⟩ cs = .ok ⟨stack, mode (text ++ String.ofList cs)⟩ := by
  induction cs generalizing pos text with
  | nil => simp [State.steps]
  | cons c cs ih =>
    rw [steps_cons _ (added pos text c (allowed c (by simp))),
      ih fun d member => allowed d (by simp [member])]
    rw [push_append_ofList]

/-- What stands behind a backslash belongs to the string, whatever it is. -/
theorem steps_escape (begun : Nat) (cs : List Char) (text : String) :
    State.steps pos ⟨stack, .string begun text false⟩ (cs.flatMap escapeChar) =
      .ok ⟨stack, .string begun (text ++ String.ofList cs) false⟩ := by
  induction cs generalizing pos text with
  | nil => simp [State.steps]
  | cons c cs ih =>
    rw [List.flatMap_cons,← push_append_ofList]
    by_cases special : c = '"' ∨ c = '\\'
    · have behind : State.step pos '\\' ⟨stack, .string begun text false⟩ =
          .ok ⟨stack, .string begun text true⟩ := by
        simp [State.step,stringChar]
      rw [escapeChar,if_pos special,List.cons_append,steps_cons _ behind,List.cons_append,
        steps_cons _ rfl]
      exact ih _
    · have plain : State.step pos c ⟨stack, .string begun text false⟩ =
          .ok ⟨stack, .string begun (text.push c) false⟩ := by
        simp [State.step,stringChar,not_or.mp special]
      rw [escapeChar,if_neg special,List.singleton_append,steps_cons _ plain]
      exact ih _

/-- A string is read back from its quoted form. -/
theorem steps_string (text : String) :
    State.steps pos ⟨stack, .between⟩ (Token.string text).text.toList =
      .ok (deliver (.string text) stack) := by
  have opening : State.step pos '"' ⟨stack, .between⟩ = .ok ⟨stack, .string pos "" false⟩ := by
    simp [State.step,start,show Text.isBlank '"' = false by decide]
  have chars : (Token.string text).text.toList =
      '"' :: (text.toList.flatMap escapeChar ++ ['"', ' ']) := by
    simp [Token.text,escape]
  have closing (place : Nat) (read : String) :
      State.step place '"' ⟨stack, .string pos read false⟩ = .ok (deliver (.string read) stack) := by
    simp [State.step,stringChar]
  rw [chars,steps_cons _ opening,steps_append _ (steps_escape pos text.toList ""),
    steps_cons _ (closing _ _),steps_cons _ (deliver_space _)]
  simp [State.steps]

theorem start_tokenChar {c : Char} (allowed : isTokenChar c = true) :
    start pos c stack = .ok ⟨stack, .atom (String.singleton c)⟩ := by
  simp only [isTokenChar,Bool.and_eq_true,Bool.not_eq_true',bne_iff_ne] at allowed
  obtain ⟨⟨⟨blank, opening⟩, closing⟩, quote⟩ := allowed
  simp [start,blank,opening,closing,quote]

theorem isTokenChar_space : isTokenChar ' ' = false := by decide

theorem steps_atom {text : String} (token : IsToken text) :
    State.steps pos ⟨stack, .between⟩ (Token.atom text).text.toList =
      .ok (deliver (.atom text) stack) := by
  obtain ⟨nonempty, allowed⟩ := token
  obtain ⟨c, cs, chars⟩ := List.exists_cons_of_ne_nil (mt String.toList_eq_nil_iff.mp nonempty)
  rw [chars] at allowed
  have begun : State.step pos c ⟨stack, .between⟩ = .ok ⟨stack, .atom (String.singleton c)⟩ :=
    start_tokenChar (allowed c (by simp))
  have whole : String.singleton c ++ String.ofList cs = text := by
    apply String.toList_inj.mp
    simp [chars]
  have added : State.steps (pos + c.utf8Size) ⟨stack, .atom (String.singleton c)⟩ cs =
      .ok ⟨stack, .atom text⟩ := by
    rw [← whole]
    exact steps_tokenChars .atom (fun _ _ _ allowed => by simp [State.step,allowed])
      (fun d member => allowed d (by simp [member])) _
  have ended (place : Nat) : State.step place ' ' ⟨stack, .atom text⟩ =
      .ok (deliver (.atom text) stack) := by
    simp [State.step,isTokenChar_space,endAtom_space]
  rw [Token.text,String.toList_append,chars,List.cons_append,steps_cons _ begun,
    steps_append _ added]
  exact steps_cons [] (ended _)

theorem steps_opening {tag : String} (token : IsToken tag) :
    State.steps pos ⟨stack, .between⟩ (Token.opening tag).text.toList =
      .ok ⟨⟨tag, []⟩ :: stack, .between⟩ := by
  have begun : State.step pos '(' ⟨stack, .between⟩ = .ok ⟨stack, .tag ""⟩ := by
    simp [State.step,start,show Text.isBlank '(' = false by decide]
  have added : State.steps (pos + '('.utf8Size) ⟨stack, .tag ""⟩ tag.toList =
      .ok ⟨stack, .tag tag⟩ := by
    simpa using steps_tokenChars .tag (fun _ _ _ allowed => by simp [State.step,allowed])
      token.2 ""
  have ended (place : Nat) : State.step place ' ' ⟨stack, .tag tag⟩ =
      .ok ⟨⟨tag, []⟩ :: stack, .between⟩ := by
    simp [State.step,isTokenChar_space,token.1,start_space]
  have chars : (Token.opening tag).text.toList = '(' :: (tag.toList ++ [' ']) := by
    simp [Token.text]
  rw [chars,steps_cons _ begun,steps_append _ added]
  exact steps_cons [] (ended _)

theorem step_closing (tag : String) (args : List Sexpr) :
    State.step pos ')' ⟨⟨tag, args⟩ :: stack, .between⟩ =
      .ok (deliver (.node tag args.reverse) stack) := by
  simp [State.step,start,closeNode,show Text.isBlank ')' = false by decide]

theorem steps_closing (tag : String) (args : List Sexpr) :
    State.steps pos ⟨⟨tag, args⟩ :: stack, .between⟩ Token.closing.text.toList =
      .ok (deliver (.node tag args.reverse) stack) := by
  rw [show Token.closing.text.toList = [')', ' '] by simp [Token.text],
    steps_cons _ (step_closing tag args)]
  exact steps_cons [] (deliver_space _)

theorem steps_args {args : List Sexpr} (tag : String) (read : List Sexpr)
    (each : ∀ t ∈ args, ∀ (pos : Nat) (stack : List Frame),
      State.steps pos ⟨stack, .between⟩ (textOf t.tokens).toList = .ok (deliver t stack)) :
    State.steps pos ⟨⟨tag, read⟩ :: stack, .between⟩ (textOf (tokensOf args)).toList =
      .ok ⟨⟨tag, args.reverse ++ read⟩ :: stack, .between⟩ := by
  induction args generalizing pos read with
  | nil => simp [State.steps]
  | cons t args ih =>
    rw [tokensOf_cons,textOf_append,String.toList_append,steps_append _ (each t (by simp) _ _),
      deliver,ih _ fun u member => each u (by simp [member])]
    simp

/-- The text of a well-formed tree is read as that tree, wherever an expression may stand. -/
theorem steps_tree {t : Sexpr} (wellFormed : t.WellFormed) (pos : Nat) (stack : List Frame) :
    State.steps pos ⟨stack, .between⟩ (textOf t.tokens).toList = .ok (deliver t stack) := by
  induction t using Sexpr.induction generalizing pos stack with
  | node tag args ih =>
    obtain ⟨token, argsWellFormed⟩ := wellFormed
    rw [allWellFormed_iff] at argsWellFormed
    have inner := fun t member => ih t member (argsWellFormed t member)
    simp only [Sexpr.tokens,textOf_cons,textOf_append,String.toList_append]
    rw [steps_append _ (steps_opening token),steps_append _ (steps_args tag [] inner)]
    simpa using steps_closing tag args.reverse
  | atom text => simpa [Sexpr.tokens] using steps_atom wellFormed
  | string text => simpa [Sexpr.tokens] using steps_string text

/-- A space at the end is never needed. -/
theorem run_of_run_space {cs : List Char} {t : Sexpr} (read : run pos s (cs ++ [' ']) = .ok t) :
    run pos s cs = .ok t := by
  induction cs generalizing pos s with
  | nil =>
    -- Of the states that the space leaves finished, each is finished already.
    obtain ⟨stack, mode⟩ := s
    cases mode with
    | between => cases stack <;> simp [run,State.step,start_space,State.finish] at read
    | tag text =>
      by_cases empty : text = "" <;>
        simp [run,State.step,isTokenChar_space,empty,start_space,State.finish] at read
    | atom text =>
      cases stack with
      | nil =>
        simpa [run,State.step,isTokenChar_space,endAtom_space,deliver,State.finish] using read
      | cons f rest =>
        simp [run,State.step,isTokenChar_space,endAtom_space,deliver,State.finish] at read
    | string begun text escaped =>
      cases escaped <;> simp [run,State.step,stringChar,State.finish] at read
    | done result =>
      simpa [run,State.step,afterResult,isBlank_space,State.finish] using read
  | cons c cs ih =>
    simp only [List.cons_append,run] at read ⊢
    split at read
    next => exact ih read
    next => cases read

structure Frame.WellFormed (f : Frame) : Prop where
  tag : IsToken f.tag
  args : ∀ t ∈ f.args, t.WellFormed

def Mode.WellFormed : Mode → Prop
  | between => True
  | tag text => ∀ c ∈ text.toList, isTokenChar c = true
  | atom text => IsToken text
  | string _ _ _ => True
  | done result => result.WellFormed

/-- Tags and atoms that are read so far are tokens, or may still become tokens. -/
structure State.WellFormed (s : State) : Prop where
  stack : ∀ f ∈ s.stack, f.WellFormed
  mode : s.mode.WellFormed

theorem deliver_wellFormed {t : Sexpr} (tree : t.WellFormed)
    (frames : ∀ f ∈ stack, f.WellFormed) : (deliver t stack).WellFormed := by
  cases stack with
  | nil => exact ⟨by simp [deliver], tree⟩
  | cons f rest =>
    have first := frames f (by simp)
    refine ⟨?_, trivial⟩
    intro g member
    rcases List.mem_cons.mp member with rfl | member
    · exact ⟨first.tag, by simpa using ⟨tree, first.args⟩⟩
    · exact frames g (by simp [member])

theorem afterResult_wellFormed {c : Char} {t : Sexpr} (tree : t.WellFormed)
    (ended : afterResult pos c t = .ok next) : next.WellFormed := by
  unfold afterResult at ended
  split at ended
  · cases ended
    exact ⟨by simp, tree⟩
  · cases ended

theorem start_wellFormed {c : Char} (frames : ∀ f ∈ stack, f.WellFormed)
    (started : start pos c stack = .ok next) : next.WellFormed := by
  unfold start at started
  split at started
  · cases started
    exact ⟨frames, trivial⟩
  next blank =>
  split at started
  · cases started
    exact ⟨frames, by simp [Mode.WellFormed]⟩
  next opening =>
  split at started
  · cases started
    exact ⟨frames, trivial⟩
  next quote =>
  split at started
  next closing =>
    cases stack with
    | nil => cases started
    | cons f rest =>
      cases started
      have first := frames f (by simp)
      refine deliver_wellFormed ⟨first.tag, ?_⟩ fun g member => frames g (by simp [member])
      simpa using first.args
  next closing =>
    cases started
    refine ⟨frames, ?_⟩
    simp [Mode.WellFormed,IsToken,isTokenChar,blank,opening,quote,closing]

theorem step_wellFormed {c : Char} (wellFormed : s.WellFormed) (step : s.step pos c = .ok next) :
    next.WellFormed := by
  obtain ⟨stack, mode⟩ := s
  obtain ⟨frames, current⟩ := wellFormed
  cases mode with
  | between => exact start_wellFormed frames step
  | tag text =>
    simp only [State.step] at step
    split at step
    next allowed =>
      cases step
      exact ⟨frames, by simpa [Mode.WellFormed,or_imp,forall_and,allowed] using current⟩
    next =>
    split at step
    · cases step
    next nonempty =>
      refine start_wellFormed (fun f member => ?_) step
      rcases List.mem_cons.mp member with rfl | member
      · exact ⟨⟨nonempty, current⟩, by simp⟩
      · exact frames f member
  | atom text =>
    simp only [State.step] at step
    split at step
    next allowed =>
      cases step
      refine ⟨frames, by simp, ?_⟩
      simpa [or_imp,forall_and,allowed] using current.2
    next =>
      cases stack with
      | nil => exact afterResult_wellFormed (t := .atom text) current step
      | cons f rest =>
        refine start_wellFormed (fun g member => ?_) step
        exact (deliver_wellFormed (t := .atom text) current frames).stack g member
  | string begun text escaped =>
    cases escaped with
    | true =>
      cases step
      exact ⟨frames, trivial⟩
    | false =>
      simp only [State.step,stringChar] at step
      split at step
      · cases step
        exact deliver_wellFormed trivial frames
      · split at step <;> cases step <;> exact ⟨frames, trivial⟩
  | done result => exact afterResult_wellFormed current step

theorem finish_wellFormed {t : Sexpr} (wellFormed : s.WellFormed)
    (finished : s.finish pos = .ok t) : t.WellFormed := by
  unfold State.finish at finished
  split at finished
  all_goals cases finished
  · exact wellFormed.mode
  · exact wellFormed.mode

theorem run_wellFormed {cs : List Char} {t : Sexpr} (wellFormed : s.WellFormed)
    (read : run pos s cs = .ok t) : t.WellFormed := by
  induction cs generalizing pos s with
  | nil => exact finish_wellFormed wellFormed read
  | cons c cs ih =>
    rw [run] at read
    split at read
    next step => exact ih (step_wellFormed wellFormed step) read
    next => cases read

end Reader

/-- Whatever the reader returns has tokens for tags and atoms. -/
theorem read_wellFormed {text : String} {t : Sexpr} (read : Sexpr.read text = .ok t) :
    t.WellFormed :=
  Reader.run_wellFormed (s := .initial) ⟨by simp [Reader.State.initial], trivial⟩ read

theorem utf8Len_toList (text : String) : String.utf8Len text.toList = text.utf8ByteSize := by
  rw [← String.utf8ByteSize_ofList,String.ofList_toList]

theorem tokens_ne_nil (t : Sexpr) : t.tokens ≠ [] := by
  cases t <;> simp [Sexpr.tokens]

theorem read_render {t : Sexpr} (wellFormed : t.WellFormed) : read t.render = .ok t := by
  have trimmed : t.render ++ " " = textOf t.tokens :=
    trimEnd_textOf t.tokens_ne_nil wellFormed.tokens
  apply Reader.run_of_run_space
  have text : t.render.toList ++ [' '] = (textOf t.tokens).toList := by simp [← trimmed]
  rw [text]
  exact Reader.run_eq_finish (Reader.steps_tree wellFormed 0 [])

theorem tokensOf_wellFormed {ts : List Sexpr} (wellFormed : ∀ t ∈ ts, t.WellFormed) :
    ∀ token ∈ tokensOf ts, token.WellFormed := by
  intro token member
  obtain ⟨t, inside, member⟩ := mem_tokensOf.mp member
  exact (wellFormed t inside).tokens token member

/-- Of several trees the first is read, and the second is refused at the place where it begins. -/
theorem read_several {t u : Sexpr} {rest : List Sexpr}
    (wellFormed : ∀ v ∈ t :: u :: rest, v.WellFormed) :
    read (Text.trimEnd (textOf (tokensOf (t :: u :: rest)))) =
      .error (.trailingInput (textOf t.tokens).utf8ByteSize) := by
  have tokens := tokensOf_wellFormed wellFormed
  rw [tokensOf_cons] at tokens ⊢
  have nonempty : tokensOf (u :: rest) ≠ [] := by simp [u.tokens_ne_nil]
  obtain ⟨c, cs, chars, solid⟩ := trimEnd_textOf_start nonempty
    fun token member => tokens token (List.mem_append_right _ member)
  rw [trimEnd_textOf_append _ nonempty tokens,read,String.toList_append,chars]
  have first := Reader.run_append (c :: cs) (Reader.steps_tree (wellFormed t (by simp)) 0 [])
  rw [Reader.State.initial,first,Nat.zero_add,utf8Len_toList]
  simp [Reader.run,Reader.deliver,Reader.State.step,Reader.afterResult,solid]

end QueryLowering.Sexpr
