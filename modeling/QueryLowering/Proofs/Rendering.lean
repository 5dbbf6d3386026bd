import Mathlib.Data.List.Basic
import QueryLowering.Sexpr.Reader
import QueryLowering.Sexpr.Writer

/-! The text of trees. A tree is well formed if its tags and atoms are tokens; then the text of its
tokens ends in exactly one blank, which is all that trimming takes away. -/
namespace QueryLowering.Sexpr

/-- Tags and atoms that the reader takes in one piece. -/
def IsToken (text : String) : Prop := text ≠ "" ∧ ∀ c ∈ text.toList, isTokenChar c = true

instance (text : String) : Decidable (IsToken text) :=
  decidable_of_iff (text ≠ "" ∧ text.toList.all isTokenChar = true) (by simp [IsToken])

mutual
def WellFormed : Sexpr → Prop
  | node tag args => IsToken tag ∧ AllWellFormed args
  | atom text => IsToken text
  | string _ => True
def AllWellFormed : List Sexpr → Prop
  | [] => True
  | t :: ts => t.WellFormed ∧ AllWellFormed ts
end

def Token.WellFormed : Token → Prop
  | opening tag => IsToken tag
  | closing => True
  | atom text => IsToken text
  | string _ => True

/-- Induction over trees, with the hypothesis for every argument of a node. -/
@[elab_as_elim]
theorem induction {motive : Sexpr → Prop}
    (node : ∀ tag args, (∀ t ∈ args, motive t) → motive (.node tag args))
    (atom : ∀ text, motive (.atom text)) (string : ∀ text, motive (.string text))
    (t : Sexpr) : motive t := by
  refine @Sexpr.rec motive (fun ts => ∀ t ∈ ts, motive t) node atom string ?_ ?_ t
  · intro t member
    cases member
  · intro head tail first rest t member
    cases member with
    | head => exact first
    | tail _ member => exact rest t member

@[simp] theorem allWellFormed_iff {ts : List Sexpr} :
    AllWellFormed ts ↔ ∀ t ∈ ts, t.WellFormed := by
  induction ts with
  | nil => simp [AllWellFormed]
  | cons t ts ih => simp [AllWellFormed,ih]

@[simp] theorem textOf_nil : textOf [] = "" := by simp [textOf]

@[simp] theorem textOf_cons (token : Token) (rest : List Token) :
    textOf (token :: rest) = token.text ++ textOf rest := by
  simp [textOf]

@[simp] theorem textOf_append (first second : List Token) :
    textOf (first ++ second) = textOf first ++ textOf second := by
  simp [textOf]

@[simp] theorem tokensOf_nil : tokensOf [] = [] := by simp [tokensOf]

@[simp] theorem tokensOf_cons (t : Sexpr) (ts : List Sexpr) :
    tokensOf (t :: ts) = t.tokens ++ tokensOf ts := by
  simp [tokensOf]

@[simp] theorem tokensOf_append (first second : List Sexpr) :
    tokensOf (first ++ second) = tokensOf first ++ tokensOf second := by
  induction first with
  | nil => simp
  | cons t ts ih => simp [ih]

theorem mem_tokensOf {token : Token} {ts : List Sexpr} :
    token ∈ tokensOf ts ↔ ∃ t ∈ ts, token ∈ t.tokens := by
  induction ts with
  | nil => simp
  | cons t ts ih => simp [ih]

theorem WellFormed.tokens {t : Sexpr} (wellFormed : t.WellFormed) :
    ∀ token ∈ t.tokens, token.WellFormed := by
  induction t using Sexpr.induction with
  | node tag args ih =>
    obtain ⟨tagToken, argsWellFormed⟩ := wellFormed
    rw [allWellFormed_iff] at argsWellFormed
    intro token member
    simp only [Sexpr.tokens,List.mem_cons,List.mem_append,mem_tokensOf,List.not_mem_nil,
      or_false] at member
    rcases member with rfl | ⟨t, argument, member⟩ | rfl
    · exact tagToken
    · exact ih t argument (argsWellFormed t argument) token member
    · trivial
  | atom text => simpa [Sexpr.tokens,Sexpr.WellFormed,Token.WellFormed] using wellFormed
  | string text => simp [Sexpr.tokens,Token.WellFormed]

theorem Writer.writeAll?_append (w : Writer) (first second : List Token) :
    w.writeAll? (first ++ second) = (w.writeAll? first).bind (·.writeAll? second) := by
  induction first generalizing w with
  | nil => rfl
  | cons token rest ih => cases step : w.write? token <;> simp [Writer.writeAll?,step,ih]

theorem Writer.writeAll?_forest {ts : List Sexpr}
    (each : ∀ t ∈ ts, ∀ w : Writer,
      w.writeAll? t.tokens = some { w with text := w.text ++ textOf t.tokens }) (w : Writer) :
    w.writeAll? (tokensOf ts) = some { w with text := w.text ++ textOf (tokensOf ts) } := by
  induction ts generalizing w with
  | nil => simp [Writer.writeAll?]
  | cons t ts ih =>
    rw [tokensOf_cons,Writer.writeAll?_append,each t (by simp),Option.bind_some,
      ih fun u member => each u (by simp [member])]
    simp [String.append_assoc]

theorem Writer.writeAll?_tokens (w : Writer) (t : Sexpr) :
    w.writeAll? t.tokens = some { w with text := w.text ++ textOf t.tokens } := by
  induction t using Sexpr.induction generalizing w with
  | node tag args ih =>
    have inner := Writer.writeAll?_forest ih ⟨w.text ++ (Token.opening tag).text, w.depth + 1⟩
    simp [Sexpr.tokens,Writer.writeAll?,Writer.write?,Writer.writeAll?_append,inner,
      String.append_assoc]
  | atom text => simp [Sexpr.tokens,Writer.writeAll?,Writer.write?]
  | string text => simp [Sexpr.tokens,Writer.writeAll?,Writer.write?]

/-- Writing whole trees is never refused and leaves open what was open. -/
theorem Writer.writeAll?_tokensOf (w : Writer) (ts : List Sexpr) :
    w.writeAll? (tokensOf ts) = some { w with text := w.text ++ textOf (tokensOf ts) } :=
  Writer.writeAll?_forest (fun t _ w => w.writeAll?_tokens t) w

theorem isBlank_space : Text.isBlank ' ' = true := by decide

theorem IsToken.isBlank {text : String} (token : IsToken text) {c : Char}
    (member : c ∈ text.toList) : Text.isBlank c = false := by
  have allowed := token.2 c member
  simp only [isTokenChar,Bool.and_eq_true,Bool.not_eq_true'] at allowed
  exact allowed.1.1.1

theorem isTokenChar_of_isDigit {c : Char} (digit : c.isDigit = true) : isTokenChar c = true := by
  simp only [Char.isDigit,Bool.and_eq_true,decide_eq_true_eq] at digit
  have low : 48 ≤ c.toNat := digit.1
  have high : c.toNat ≤ 57 := digit.2
  have other (d : Char) (outside : d.toNat < 48 ∨ 57 < d.toNat) : c ≠ d := by
    rintro rfl
    omega
  have solid : Text.isBlank c = false := by
    simp [Text.isBlank,Text.blankRanges]
    omega
  simp [isTokenChar,solid,other '(' (by decide),other ')' (by decide),other '"' (by decide)]

theorem isToken_natRepr (n : Nat) : IsToken n.repr := by
  rw [Nat.repr_eq_ofList_toDigits]
  refine ⟨by simp, fun c member => ?_⟩
  rw [String.toList_ofList] at member
  exact isTokenChar_of_isDigit (Nat.isDigit_of_mem_toDigits (by decide) (by decide) member)

/-- A whole number is written without blanks. -/
theorem isToken_toString (i : Int) : IsToken (toString i) := by
  rw [Int.toString_eq_repr,Int.repr_eq_if]
  split
  · exact isToken_natRepr _
  · refine ⟨by simp, fun c member => ?_⟩
    rw [String.toList_append,List.mem_append] at member
    rcases member with minus | digit
    · rw [show c = '-' by simpa using minus]
      decide
    · exact (isToken_natRepr _).2 c digit

/-- The last character of a token of text is its space, and the one before it is no blank. -/
theorem Token.WellFormed.text_end {token : Token} (wellFormed : token.WellFormed) :
    ∃ body last, token.text.toList = body ++ [last, ' '] ∧ Text.isBlank last = false := by
  have run (before text : List Char) (nonempty : text ≠ [])
      (solid : ∀ c ∈ text, Text.isBlank c = false) :
      ∃ body last, before ++ (text ++ [' ']) = body ++ [last, ' '] ∧ Text.isBlank last = false := by
    obtain ⟨init, last, rfl⟩ := List.eq_nil_or_concat text |>.resolve_left nonempty
    exact ⟨before ++ init, last, by simp, solid last (by simp)⟩
  cases token with
  | opening tag =>
    obtain ⟨body, last, same, solid⟩ := run ['('] tag.toList (by simpa using wellFormed.1)
      fun c => wellFormed.isBlank
    exact ⟨body, last, by simpa [Token.text] using same, solid⟩
  | closing => exact ⟨[], ')', by simp [Token.text], by decide⟩
  | atom text =>
    obtain ⟨body, last, same, solid⟩ := run [] text.toList (by simpa using wellFormed.1)
      fun c => wellFormed.isBlank
    exact ⟨body, last, by simpa [Token.text] using same, solid⟩
  | string text => exact ⟨'"' :: (escape text).toList, '"', by simp [Token.text], by decide⟩

/-- Trimming the text of tokens takes away the last space and nothing else. -/
theorem trimEnd_textOf {tokens : List Token} (nonempty : tokens ≠ [])
    (wellFormed : ∀ token ∈ tokens, token.WellFormed) :
    Text.trimEnd (textOf tokens) ++ " " = textOf tokens := by
  obtain ⟨init, token, rfl⟩ := List.eq_nil_or_concat tokens |>.resolve_left nonempty
  obtain ⟨body, last, text, solid⟩ := (wellFormed token (by simp)).text_end
  apply String.toList_inj.mp
  simp [Text.trimEnd,Text.dropBlankEnd,text,solid,isBlank_space]

theorem trimEnd_textOf_append (first : List Token) {second : List Token} (nonempty : second ≠ [])
    (wellFormed : ∀ token ∈ first ++ second, token.WellFormed) :
    Text.trimEnd (textOf (first ++ second)) = textOf first ++ Text.trimEnd (textOf second) := by
  have whole := trimEnd_textOf (by simp [nonempty]) wellFormed
  have part := trimEnd_textOf nonempty fun token member => wellFormed token (by simp [member])
  rw [textOf_append first second] at whole ⊢
  generalize Text.trimEnd (textOf first ++ textOf second) = trimmed at whole ⊢
  have chars := congrArg String.toList whole
  rw [← part] at chars
  simp only [String.toList_append,← List.append_assoc] at chars
  apply String.toList_inj.mp
  rw [String.toList_append]
  exact List.append_cancel_right chars

theorem Token.WellFormed.text_start {token : Token} (wellFormed : token.WellFormed) :
    ∃ c cs, token.text.toList = c :: cs ∧ Text.isBlank c = false := by
  cases token with
  | opening tag => exact ⟨'(', tag.toList ++ [' '], by simp [Token.text], by decide⟩
  | closing => exact ⟨')', [' '], by simp [Token.text], by decide⟩
  | atom text =>
    obtain ⟨c, cs, chars⟩ :=
      List.exists_cons_of_ne_nil (mt String.toList_eq_nil_iff.mp wellFormed.1)
    exact ⟨c, cs ++ [' '], by simp [Token.text,chars], wellFormed.isBlank (by simp [chars])⟩
  | string text =>
    exact ⟨'"', (escape text).toList ++ ['"', ' '], by simp [Token.text], by decide⟩

theorem trimEnd_textOf_start {tokens : List Token} (nonempty : tokens ≠ [])
    (wellFormed : ∀ token ∈ tokens, token.WellFormed) :
    ∃ c cs, (Text.trimEnd (textOf tokens)).toList = c :: cs ∧ Text.isBlank c = false := by
  have trimmed := congrArg String.toList (trimEnd_textOf nonempty wellFormed)
  obtain ⟨token, rest, rfl⟩ := List.exists_cons_of_ne_nil nonempty
  obtain ⟨c, cs, text, solid⟩ := (wellFormed token (by simp)).text_start
  generalize Text.trimEnd (textOf (token :: rest)) = whole at trimmed ⊢
  simp only [textOf_cons,String.toList_append,text,List.cons_append] at trimmed
  cases chars : whole.toList with
  | nil =>
    -- Then the text would be the space alone, which no token begins with.
    rw [chars,List.nil_append,show " ".toList = [' '] from rfl,List.cons.injEq] at trimmed
    rw [← trimmed.1,isBlank_space] at solid
    cases solid
  | cons d ds =>
    rw [chars,List.cons_append,List.cons.injEq] at trimmed
    exact ⟨d, ds, rfl, trimmed.1 ▸ solid⟩

end QueryLowering.Sexpr
