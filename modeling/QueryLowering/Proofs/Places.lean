import Mathlib.Data.List.DropRight
import QueryLowering.Proofs.Grammar
import QueryLowering.Proofs.Refusal

/-! What stands at the place that an error of the reader reports. A state of the reader recalls some
of the characters before it: those of a tag, where a string began and that no quote has ended it
since, or that there were only blanks. So the state in which the reader stops says what it found. -/
namespace QueryLowering.Sexpr

/-- Whether a character behind `chars` is escaped: an odd number of backslashes stands immediately
in front of it. -/
def escapes (chars : List Char) : Bool := (chars.rtakeWhile (· == '\\')).length % 2 == 1

/-- Every quote is escaped, so that none ends the string. -/
def QuotesEscaped (chars : List Char) : Prop :=
  ∀ inner rest, chars = inner ++ '"' :: rest → escapes inner = true

theorem escapes_concat (chars : List Char) (c : Char) :
    escapes (chars ++ [c]) = (c == '\\' && !escapes chars) := by
  unfold escapes
  by_cases backslash : c = '\\'
  · rw [List.rtakeWhile_concat_pos _ _ _ (by simpa using backslash),List.length_append,
      List.length_singleton]
    rcases Nat.mod_two_eq_zero_or_one (chars.rtakeWhile (· == '\\')).length with even | odd
    · simp [backslash,Nat.add_mod,even]
    · simp [backslash,Nat.add_mod,odd]
  · rw [List.rtakeWhile_concat_neg _ _ _ (by simpa using backslash)]
    simp [backslash]

theorem quotesEscaped_nil : QuotesEscaped [] := by
  intro inner rest same
  simp at same

theorem QuotesEscaped.concat {chars : List Char} {c : Char} (escaped : QuotesEscaped chars)
    (last : c = '"' → escapes chars = true) : QuotesEscaped (chars ++ [c]) := by
  intro inner rest same
  -- The quote is the last character, or stands before it.
  rcases List.eq_nil_or_concat rest with rfl | ⟨rest, d, rfl⟩
  · obtain ⟨rfl, quote⟩ := List.append_inj' same rfl
    exact last (List.cons.inj quote).1
  · rw [List.concat_eq_append,← List.cons_append,← List.append_assoc] at same
    exact escaped inner rest (List.append_inj' same rfl).1

namespace Reader

variable {pos : Nat} {s next : State} {stack : List Frame} {c : Char} {before cs : List Char}

/-- What a lexeme at hand, and the nodes around it, tell of the characters before. -/
def Mode.Recalls (before : List Char) (stack : List Frame) : Mode → Prop
  | between => stack = [] → Blanks before
  | tag text => ∃ outer, before = outer ++ '(' :: text.toList
  | string begun _ escaped => ∃ outer body, before = outer ++ '"' :: body ∧
      String.utf8Len outer = begun ∧ escapes body = escaped ∧ QuotesEscaped body
  | atom _ | done _ => True

def State.Recalls (before : List Char) (s : State) : Prop := s.mode.Recalls before s.stack

theorem deliver_recalls (t : Sexpr) : (deliver t stack).Recalls before := by
  cases stack with
  | nil => trivial
  | cons f outer =>
    intro empty
    cases empty

theorem start_recalls (blank : stack = [] → Blanks before)
    (started : start (String.utf8Len before) c stack = .ok next) :
    next.Recalls (before ++ [c]) := by
  unfold start at started
  split at started
  next isBlank =>
    cases started
    intro empty d member
    rcases List.mem_append.mp member with earlier | last
    · exact blank empty d earlier
    · rwa [List.mem_singleton.mp last]
  split at started
  next opening =>
    cases started
    exact ⟨before, by simp [opening]⟩
  split at started
  next quote =>
    cases started
    exact ⟨before, [], by rw [quote], rfl, rfl, quotesEscaped_nil⟩
  split at started
  · cases stack with
    | nil => cases started
    | cons f outer =>
      cases started
      exact deliver_recalls _
  · cases started
    trivial

theorem afterResult_recalls {t : Sexpr} (ended : afterResult pos c t = .ok next) :
    next.Recalls before := by
  unfold afterResult at ended
  split at ended
  · cases ended
    trivial
  · cases ended

theorem stringChar_recalls {outer body : List Char} (text : String) (escaped : escapes body = false)
    (quotes : QuotesEscaped body) :
    (stringChar (String.utf8Len outer) text c stack).Recalls (outer ++ '"' :: (body ++ [c])) := by
  unfold stringChar
  split
  · exact deliver_recalls _
  next quote =>
  have still : QuotesEscaped (body ++ [c]) := quotes.concat fun isQuote => absurd isQuote quote
  split
  next backslash =>
    have behind : escapes (body ++ [c]) = true := by simp [escapes_concat,backslash,escaped]
    exact ⟨outer, body ++ [c], rfl, rfl, behind, still⟩
  next other =>
    have behind : escapes (body ++ [c]) = false := by simp [escapes_concat,other]
    exact ⟨outer, body ++ [c], rfl, rfl, behind, still⟩

theorem step_recalls (recalls : s.Recalls before)
    (step : s.step (String.utf8Len before) c = .ok next) : next.Recalls (before ++ [c]) := by
  obtain ⟨stack, mode⟩ := s
  cases mode with
  | between => exact start_recalls recalls step
  | tag text =>
    simp only [State.step] at step
    split at step
    · cases step
      obtain ⟨outer, rfl⟩ := recalls
      exact ⟨outer, by simp⟩
    split at step
    · cases step
    · exact start_recalls (by simp) step
  | atom text =>
    simp only [State.step] at step
    split at step
    · cases step
      trivial
    cases stack with
    | nil => exact afterResult_recalls step
    | cons f outer =>
      rw [endAtom] at step
      exact start_recalls (by simp) step
  | string begun text escaped =>
    obtain ⟨outer, body, rfl, rfl, flag, quotes⟩ := recalls
    rw [List.append_assoc,List.cons_append]
    cases escaped with
    | false =>
      cases step
      exact stringChar_recalls text flag quotes
    | true =>
      cases step
      have behind : escapes (body ++ [c]) = false := by simp [escapes_concat,flag]
      exact ⟨outer, body ++ [c], rfl, rfl, behind, quotes.concat fun _ => flag⟩
  | done t => exact afterResult_recalls step

theorem steps_recalls (recalls : s.Recalls before)
    (steps : s.steps (String.utf8Len before) cs = .ok next) : next.Recalls (before ++ cs) := by
  induction cs generalizing before s with
  | nil =>
    cases steps
    rwa [List.append_nil]
  | cons c cs ih =>
    cases step : s.step (String.utf8Len before) c with
    | error e =>
      rw [State.steps,step] at steps
      cases steps
    | ok mid =>
      have later := step_recalls recalls step
      rw [steps_cons _ step] at steps
      rw [← List.singleton_append,← List.append_assoc]
      refine ih later ?_
      simpa using steps

theorem initial_recalls (steps : State.steps 0 .initial cs = .ok next) : next.Recalls cs :=
  steps_recalls (s := .initial) (fun _ => blanks_nil) steps

theorem steps_blanks (blanks : Blanks cs) :
    State.steps pos ⟨stack, .between⟩ cs = .ok ⟨stack, .between⟩ := by
  induction cs generalizing pos with
  | nil => rfl
  | cons c cs ih =>
    obtain ⟨blank, rest⟩ := blanks_cons.mp blanks
    have step : State.step pos c ⟨stack, .between⟩ = .ok ⟨stack, .between⟩ := by
      simp [State.step,start,blank]
    rw [steps_cons _ step,ih rest]

end Reader

/-- The text is `before` and `after`, and `after` begins at the byte `pos`. -/
structure SplitsAt (text : String) (pos : Nat) (before after : List Char) : Prop where
  chars : text.toList = before ++ after
  size : String.utf8Len before = pos

namespace ReadError

/-- The place that an error reports, as an offset in bytes. -/
def pos? : ReadError → Option Nat
  | emptyInput => none
  | unexpectedEnd pos | unexpectedChar pos _ | missingTag pos | unterminatedString pos
  | trailingInput pos => some pos

/-- What the text has at the place of an error, and around it. -/
def Located (text : String) : ReadError → Prop
  | emptyInput => Blanks text.toList
  | unexpectedEnd pos => pos = text.utf8ByteSize
  | unexpectedChar pos c => c = ')' ∧ ∃ before after, SplitsAt text pos before (c :: after) ∧
      Blanks before
  | missingTag pos => ∃ before after, SplitsAt text pos (before ++ ['(']) after ∧
      ∀ c, after.head? = some c → Text.isBlank c = true ∨ c = '(' ∨ c = ')' ∨ c = '"'
  | unterminatedString pos => ∃ before after, SplitsAt text pos before ('"' :: after) ∧
      QuotesEscaped after
  | trailingInput pos => ∃ before c after, SplitsAt text pos before (c :: after) ∧
      Text.isBlank c = false ∧ ∃ t, read (String.ofList before) = .ok t

end ReadError

variable {text : String} {pos : Nat} {before after : List Char} {e : ReadError}

theorem SplitsAt.isValid (split : SplitsAt text pos before after) :
    String.Pos.Raw.IsValid text ⟨pos⟩ := by
  obtain ⟨chars, rfl⟩ := split
  apply String.Pos.Raw.isValid_iff_exists_append.mpr
  refine ⟨String.ofList before, String.ofList after, ?_, ?_⟩
  · apply String.toList_inj.mp
    simp [chars]
  · rw [String.rawEndPos,String.utf8ByteSize_ofList]

theorem ReadError.Located.splits (located : e.Located text) (reported : e.pos? = some pos) :
    ∃ before after, SplitsAt text pos before after := by
  cases e with
  | emptyInput => cases reported
  | unexpectedEnd place =>
    cases reported
    obtain rfl := located
    exact ⟨text.toList, [], (List.append_nil _).symm, utf8Len_toList text⟩
  | unexpectedChar place c =>
    cases reported
    obtain ⟨-, before, after, split, -⟩ := located
    exact ⟨before, c :: after, split⟩
  | missingTag place =>
    cases reported
    obtain ⟨before, after, split, -⟩ := located
    exact ⟨before ++ ['('], after, split⟩
  | unterminatedString place =>
    cases reported
    obtain ⟨before, after, split, -⟩ := located
    exact ⟨before, '"' :: after, split⟩
  | trailingInput place =>
    cases reported
    obtain ⟨before, c, after, split, -⟩ := located
    exact ⟨before, c :: after, split⟩

theorem located_of_refused {c : Char} {mid : Reader.State}
    (chars : text.toList = before ++ c :: after)
    (steps : Reader.State.steps 0 .initial before = .ok mid)
    (refused : mid.step (0 + String.utf8Len before) c = .error e) : e.Located text := by
  have recalls := Reader.initial_recalls steps
  have split : SplitsAt text (0 + String.utf8Len before) before (c :: after) :=
    ⟨chars, (Nat.zero_add _).symm⟩
  rcases Reader.step_eq_error refused with
    ⟨rfl, closing, rfl⟩ | ⟨stack, rfl, other, rfl⟩ | ⟨t, finished, solid, rfl⟩
  · exact ⟨closing, before, after, split, recalls rfl⟩
  · obtain ⟨outer, rfl⟩ := recalls
    refine ⟨outer, c :: after, split, fun d first => ?_⟩
    obtain rfl := Option.some.inj first
    -- Any other character would have been taken for the first one of the tag.
    by_contra outside
    simp only [not_or,Bool.not_eq_true] at outside
    rw [isTokenChar_iff.mpr outside] at other
    cases other
  · refine ⟨before, c, after, split, solid, t, ?_⟩
    rw [read,String.toList_ofList,Reader.run_eq_finish steps]
    exact finished _

theorem located_of_ended {last : Reader.State}
    (steps : Reader.State.steps 0 .initial text.toList = .ok last)
    (ended : last.finish (0 + String.utf8Len text.toList) = .error e) : e.Located text := by
  have recalls := Reader.initial_recalls steps
  have size : 0 + String.utf8Len text.toList = text.utf8ByteSize := by
    rw [Nat.zero_add,utf8Len_toList]
  rcases Reader.finish_eq_error ended with
    ⟨rfl, rfl⟩ | ⟨stack, rfl, rfl⟩ | ⟨stack, begun, quoted, escaped, rfl, rfl⟩ | rfl
  · exact recalls rfl
  · obtain ⟨outer, chars⟩ := recalls
    refine ⟨outer, [], ⟨by simpa using chars, ?_⟩, by simp⟩
    rw [chars,Nat.zero_add]
    rfl
  · obtain ⟨outer, body, chars, begins, -, quotes⟩ := recalls
    exact ⟨outer, body, ⟨chars, begins⟩, quotes⟩
  · exact size

theorem read_blanks (blanks : Blanks text.toList) : read text = .error .emptyInput := by
  rw [read,Reader.State.initial,Reader.run_eq_finish (Reader.steps_blanks blanks)]
  rfl

theorem read_closing (split : SplitsAt text pos before (')' :: after)) (blanks : Blanks before) :
    read text = .error (.unexpectedChar pos ')') := by
  obtain ⟨chars, rfl⟩ := split
  rw [read,Reader.State.initial,chars,Reader.run_append _ (Reader.steps_blanks blanks),Reader.run]
  simp [Reader.State.step,Reader.start,Reader.closeNode,show Text.isBlank ')' = false by decide]

/-- An error reports where in the text a character begins, or its end, and what was found there. -/
theorem read_error_located (text : String) :
    (∀ e, read text = .error e → e.Located text ∧ ∀ pos, e.pos? = some pos →
      String.Pos.Raw.IsValid text ⟨pos⟩ ∧ pos ≤ text.utf8ByteSize) ∧
    (read text = .error .emptyInput ↔ Blanks text.toList) ∧
    ∀ pos c, read text = .error (.unexpectedChar pos c) ↔
      c = ')' ∧ ∃ before after, SplitsAt text pos before (c :: after) ∧ Blanks before := by
  have located (e : ReadError) (failed : read text = .error e) : e.Located text := by
    rcases Reader.run_eq_error_iff.mp failed with
      ⟨before, c, after, mid, chars, steps, refused⟩ | ⟨last, steps, ended⟩
    · exact located_of_refused chars steps refused
    · exact located_of_ended steps ended
  refine ⟨fun e failed => ⟨located e failed, fun pos reported => ?_⟩,
    ⟨located _, read_blanks⟩, fun pos c => ⟨located _, ?_⟩⟩
  · obtain ⟨before, after, split⟩ := (located e failed).splits reported
    exact ⟨split.isValid, split.isValid.le_utf8ByteSize⟩
  · rintro ⟨rfl, before, after, split, blanks⟩
    exact read_closing split blanks

/-- A string that is not ended, behind characters of several bytes and with an escaped quote in it;
and a bracket behind a wide blank. -/
theorem read_error_located_wide :
    read "\u3000(é \"ö\\\" )" = .error (.unterminatedString 7) ∧
    (ReadError.unterminatedString 7).Located "\u3000(é \"ö\\\" )" ∧
    read "\u3000)(" = .error (.unexpectedChar 3 ')') := by
  have unended : read "\u3000(é \"ö\\\" )" = .error (.unterminatedString 7) := by decide +kernel
  refine ⟨unended, ((read_error_located _).1 _ unended).1, ((read_error_located _).2.2 _ _).mpr ?_⟩
  exact ⟨rfl, ['\u3000'], ['('], ⟨rfl, rfl⟩, blanks_cons.mpr ⟨by decide, blanks_nil⟩⟩

end QueryLowering.Sexpr
