import QueryLowering.Proofs.Reading

/-! Why the reader fails. It stops at the first character that it refuses, or else at the end of the
text. In the first case it stops there in every continuation of the text too. In the second some
continuation is read, since every state can be completed. -/
namespace QueryLowering.Sexpr

namespace Reader

variable {pos : Nat} {s next : State} {stack : List Frame} {c : Char} {cs : List Char}
  {e : ReadError}

theorem run_cons (step : s.step pos c = .ok next) :
    run pos s (c :: cs) = run (pos + c.utf8Size) next cs := by
  rw [run,step]

/-- The reader fails at the first character that it refuses, or else at the end. -/
theorem run_eq_error_iff :
    run pos s cs = .error e ↔
      (∃ before c after mid, cs = before ++ c :: after ∧ s.steps pos before = .ok mid ∧
        mid.step (pos + String.utf8Len before) c = .error e) ∨
      ∃ last, s.steps pos cs = .ok last ∧ last.finish (pos + String.utf8Len cs) = .error e := by
  constructor
  · intro failed
    induction cs generalizing pos s with
    | nil => exact .inr ⟨s, rfl, failed⟩
    | cons c cs ih =>
      cases step : s.step pos c with
      | error e' =>
        rw [run,step] at failed
        cases failed
        exact .inl ⟨[], c, cs, s, rfl, rfl, step⟩
      | ok next =>
        rw [run_cons step] at failed
        rcases ih failed with ⟨before, d, after, mid, rfl, steps, refused⟩ | ⟨last, steps, ended⟩
        · refine .inl ⟨c :: before, d, after, mid, rfl, (steps_cons before step).trans steps, ?_⟩
          rwa [String.utf8Len_cons,Nat.add_comm _ c.utf8Size,← Nat.add_assoc]
        · refine .inr ⟨last, (steps_cons cs step).trans steps, ?_⟩
          rwa [String.utf8Len_cons,Nat.add_comm _ c.utf8Size,← Nat.add_assoc]
  · rintro (⟨before, c, after, mid, rfl, steps, refused⟩ | ⟨last, steps, ended⟩)
    · rw [run_append _ steps,run,refused]
    · rw [run_eq_finish steps,ended]

theorem start_eq_error (refused : start pos c stack = .error e) :
    stack = [] ∧ c = ')' ∧ e = .unexpectedChar pos c := by
  unfold start at refused
  split at refused
  · cases refused
  split at refused
  · cases refused
  split at refused
  · cases refused
  split at refused
  next closing =>
    cases stack with
    | nil =>
      cases refused
      exact ⟨rfl, closing, by rw [closing]⟩
    | cons f outer => cases refused
  · cases refused

theorem afterResult_eq_error {t : Sexpr} (refused : afterResult pos c t = .error e) :
    Text.isBlank c = false ∧ e = .trailingInput pos := by
  unfold afterResult at refused
  split at refused
  · cases refused
  next solid =>
    cases refused
    exact ⟨by simpa using solid, rfl⟩

/-- A character is refused as a bracket that closes nothing, at the place of a tag, or behind a
complete expression. -/
theorem step_eq_error (refused : s.step pos c = .error e) :
    (s = ⟨[], .between⟩ ∧ c = ')' ∧ e = .unexpectedChar pos c) ∨
    (∃ stack, s = ⟨stack, .tag ""⟩ ∧ isTokenChar c = false ∧ e = .missingTag pos) ∨
    ∃ t, (∀ place, s.finish place = .ok t) ∧ Text.isBlank c = false ∧ e = .trailingInput pos := by
  obtain ⟨stack, mode⟩ := s
  cases mode with
  | between =>
    obtain ⟨rfl, closing, reported⟩ := start_eq_error refused
    exact .inl ⟨rfl, closing, reported⟩
  | tag text =>
    simp only [State.step] at refused
    split at refused
    · cases refused
    next other =>
    split at refused
    next empty =>
      cases refused
      exact .inr (.inl ⟨stack, by rw [empty], by simpa using other, rfl⟩)
    next nonempty => cases (start_eq_error refused).1
  | atom text =>
    simp only [State.step] at refused
    split at refused
    · cases refused
    next other =>
    cases stack with
    | nil => exact .inr (.inr ⟨.atom text, fun _ => rfl, afterResult_eq_error refused⟩)
    | cons f outer => cases (start_eq_error refused).1
  | string begun text escaped => cases escaped <;> cases refused
  | done t => exact .inr (.inr ⟨t, fun _ => by cases stack <;> rfl, afterResult_eq_error refused⟩)

theorem finish_eq_error (ended : s.finish pos = .error e) :
    (s = ⟨[], .between⟩ ∧ e = .emptyInput) ∨
    (∃ stack, s = ⟨stack, .tag ""⟩ ∧ e = .missingTag pos) ∨
    (∃ stack begun text escaped, s = ⟨stack, .string begun text escaped⟩ ∧
      e = .unterminatedString begun) ∨
    e = .unexpectedEnd pos := by
  obtain ⟨stack, mode⟩ := s
  cases mode with
  | between =>
    cases stack with
    | nil =>
      cases ended
      exact .inl ⟨rfl, rfl⟩
    | cons f outer =>
      cases ended
      exact .inr (.inr (.inr rfl))
  | tag text =>
    simp only [State.finish,Except.error.injEq] at ended
    split at ended
    next empty => exact .inr (.inl ⟨stack, by rw [empty], ended.symm⟩)
    next => exact .inr (.inr (.inr ended.symm))
  | atom text =>
    cases stack with
    | nil => cases ended
    | cons f outer =>
      cases ended
      exact .inr (.inr (.inr rfl))
  | string begun text escaped =>
    simp only [State.finish,Except.error.injEq] at ended
    exact .inr (.inr (.inl ⟨stack, begun, text, escaped, rfl, ended.symm⟩))
  | done t => cases stack <;> cases ended

/-- The characters that complete what a state has begun: the lexeme at hand, and then every open
node. -/
def State.completion : State → List Char
  | ⟨stack, .between⟩ =>
    (if stack.isEmpty then ['0'] else []) ++ List.replicate stack.length ')'
  | ⟨stack, .tag text⟩ =>
    (if text = "" then ['0'] else []) ++ List.replicate (stack.length + 1) ')'
  | ⟨stack, .string _ _ escaped⟩ =>
    (if escaped then ['"', '"'] else ['"']) ++ List.replicate stack.length ')'
  | ⟨stack, .atom _⟩ => List.replicate stack.length ')'
  | ⟨_, .done _⟩ => []

theorem run_closings (t : Sexpr) (stack : List Frame) :
    ∃ u, run pos (deliver t stack) (List.replicate stack.length ')') = .ok u := by
  induction stack generalizing pos t with
  | nil => exact ⟨t, rfl⟩
  | cons f outer ih =>
    obtain ⟨u, read⟩ := ih (.node f.tag (t :: f.args).reverse)
    exact ⟨u, (run_cons (step_closing f.tag (t :: f.args))).trans read⟩

/-- Where a bracket closes the innermost node, more of them close all nodes around it. -/
theorem run_closings_of_step {t : Sexpr} (closed : s.step pos ')' = .ok (deliver t stack)) :
    ∃ u, run pos s (List.replicate (stack.length + 1) ')') = .ok u := by
  obtain ⟨u, read⟩ := run_closings t stack
  exact ⟨u, (run_cons closed).trans read⟩

theorem start_closing (f : Frame) (outer : List Frame) :
    start pos ')' (f :: outer) = .ok (deliver (.node f.tag f.args.reverse) outer) :=
  step_closing f.tag f.args

theorem isTokenChar_closing : isTokenChar ')' = false := by decide

theorem run_tag (stack : List Frame) {text : String} (nonempty : text ≠ "") :
    ∃ u, run pos ⟨stack, .tag text⟩ (List.replicate (stack.length + 1) ')') = .ok u := by
  refine run_closings_of_step (t := .node text []) ?_
  simp [State.step,isTokenChar_closing,nonempty,start_closing]

theorem run_string (begun : Nat) (text : String) :
    ∃ u, run pos ⟨stack, .string begun text false⟩ ('"' :: List.replicate stack.length ')') =
      .ok u := by
  obtain ⟨u, read⟩ := run_closings (.string text) stack
  have closed : State.step pos '"' ⟨stack, .string begun text false⟩ =
      .ok (deliver (.string text) stack) := by
    simp [State.step,stringChar]
  exact ⟨u, (run_cons closed).trans read⟩

theorem run_completion (s : State) : ∃ t, run pos s s.completion = .ok t := by
  obtain ⟨stack, mode⟩ := s
  cases mode with
  | between =>
    cases stack with
    | nil => exact ⟨.atom "0", rfl⟩
    | cons f outer => exact run_closings_of_step (start_closing f outer)
  | tag text =>
    by_cases empty : text = ""
    · have begun : State.step pos '0' ⟨stack, .tag ""⟩ = .ok ⟨stack, .tag "0"⟩ := rfl
      obtain ⟨u, read⟩ := run_tag stack (show "0" ≠ "" by decide)
      subst empty
      exact ⟨u, (run_cons begun).trans read⟩
    · simpa [State.completion,empty] using run_tag stack empty
  | atom text =>
    cases stack with
    | nil => exact ⟨.atom text, rfl⟩
    | cons f outer =>
      refine run_closings_of_step (t := .node f.tag (.atom text :: f.args).reverse) ?_
      simp [State.step,isTokenChar_closing,endAtom,start_closing]
  | string begun text escaped =>
    cases escaped with
    | false => exact run_string begun text
    | true =>
      -- The first quote is the escaped character, and only the second one ends the string.
      obtain ⟨u, read⟩ := run_string begun (text.push '"')
      exact ⟨u, (run_cons rfl).trans read⟩
  | done t => exact ⟨t, by cases stack <;> rfl⟩

end Reader

namespace ReadError

/-- Errors of texts that may still go on. -/
def IsTruncation (text : String) : ReadError → Prop
  | emptyInput | unexpectedEnd _ | unterminatedString _ => True
  | missingTag pos => pos = text.utf8ByteSize
  | unexpectedChar _ _ | trailingInput _ => False

/-- Errors that no continuation of the text removes. -/
def IsMistake (text : String) : ReadError → Prop
  | unexpectedChar _ _ | trailingInput _ => True
  | missingTag pos => pos < text.utf8ByteSize
  | emptyInput | unexpectedEnd _ | unterminatedString _ => False

theorem not_isTruncation {text : String} {e : ReadError} (mistake : e.IsMistake text) :
    ¬e.IsTruncation text := by
  cases e with
  | missingTag pos => exact Nat.ne_of_lt mistake
  | unexpectedChar | trailingInput => exact id
  | emptyInput | unexpectedEnd | unterminatedString => exact mistake.elim

end ReadError

variable {text : String} {e : ReadError}

/-- A text fails at a character that it has, and so does whatever begins with it; or at its end. -/
theorem read_eq_error_cases (failed : read text = .error e) :
    (e.IsMistake text ∧ ∀ more, read (text ++ more) = .error e) ∨
      e.IsTruncation text ∧ ∃ more t, read (text ++ more) = .ok t := by
  rcases Reader.run_eq_error_iff.mp failed with
    ⟨before, c, after, mid, chars, steps, refused⟩ | ⟨last, steps, ended⟩
  · refine .inl ⟨?_, fun more => ?_⟩
    · have inside : 0 + String.utf8Len before < text.utf8ByteSize := by
        rw [← utf8Len_toList,chars,String.utf8Len_append,String.utf8Len_cons]
        have := c.utf8Size_pos
        omega
      rcases Reader.step_eq_error refused with ⟨-, -, rfl⟩ | ⟨-, -, -, rfl⟩ | ⟨-, -, -, rfl⟩
      · trivial
      · exact inside
      · trivial
    · have longer : (text ++ more).toList = before ++ c :: (after ++ more.toList) := by
        rw [String.toList_append,chars,List.append_assoc,List.cons_append]
      exact Reader.run_eq_error_iff.mpr (.inl ⟨before, c, _, mid, longer, steps, refused⟩)
  · refine .inr ⟨?_, ?_⟩
    · rcases Reader.finish_eq_error ended with ⟨-, rfl⟩ | ⟨-, -, rfl⟩ | ⟨-, -, -, -, -, rfl⟩ | rfl
      · trivial
      · show 0 + String.utf8Len text.toList = text.utf8ByteSize
        rw [Nat.zero_add,utf8Len_toList]
      · trivial
      · trivial
    · obtain ⟨t, completed⟩ := Reader.run_completion last
      refine ⟨String.ofList last.completion, t, ?_⟩
      rw [read,String.toList_append,String.toList_ofList,Reader.run_append _ steps]
      exact completed

/-- The error tells a text that is wrong, whatever follows, from one that is only cut off. -/
theorem read_error_viability (text : String) (e : ReadError) (failed : read text = .error e) :
    (e.IsMistake text ↔ ∀ more, read (text ++ more) = .error e) ∧
    (e.IsTruncation text ↔ ∃ more t, read (text ++ more) = .ok t) ∧
    (e.IsMistake text ↔ ¬e.IsTruncation text) := by
  rcases read_eq_error_cases failed with ⟨mistake, lasting⟩ | ⟨truncation, more, t, completed⟩
  · have whole := ReadError.not_isTruncation mistake
    refine ⟨iff_of_true mistake lasting, iff_of_false whole ?_, iff_of_true mistake whole⟩
    rintro ⟨more, t, completed⟩
    rw [lasting more] at completed
    cases completed
  · have unfinished : ¬e.IsMistake text := by
      intro mistake
      exact ReadError.not_isTruncation mistake truncation
    refine ⟨iff_of_false unfinished fun lasting => ?_, iff_of_true truncation ⟨more, t, completed⟩,
      iff_of_false unfinished (not_not_intro truncation)⟩
    rw [lasting more] at completed
    cases completed

/-- A node whose tag is missing, at the end of the text and in front of a blank. The place is the
same, but only the first may still get a tag. -/
theorem read_error_viability_tag :
    read "(é (" = .error (.missingTag 5) ∧ (∃ more t, read ("(é (" ++ more) = .ok t) ∧
    read "(é ( " = .error (.missingTag 5) ∧
    ∀ more, read ("(é ( " ++ more) = .error (.missingTag 5) := by
  have cutOff : read "(é (" = .error (.missingTag 5) := by decide +kernel
  have wrong : read "(é ( " = .error (.missingTag 5) := by decide +kernel
  refine ⟨cutOff, (read_error_viability _ _ cutOff).2.1.mp ?_, wrong,
    (read_error_viability _ _ wrong).1.mp ?_⟩
  · exact (by decide : 5 = "(é (".utf8ByteSize)
  · exact (by decide : 5 < "(é ( ".utf8ByteSize)

end QueryLowering.Sexpr
