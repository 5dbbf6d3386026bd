import QueryLowering.Proofs.Reading

/-! The grammar of S-expressions, and that the reader accepts exactly what it derives.

| | |
|---|---|
| document | blanks, an expression, blanks |
| expression | a token, a string, or `(`, a token, arguments and `)` |
| arguments | expressions, each behind blanks, and blanks at the end |

Blanks may be left out, but not between a token and a token that follows it. What may still follow
a state of the reader is a language, and a step of the reader takes one character off it. -/
namespace QueryLowering.Sexpr

def isAtom : Sexpr → Bool
  | atom _ => true
  | node _ _ | string _ => false

/-- A run of blanks, which may be empty. -/
def Blanks (chars : List Char) : Prop := ∀ c ∈ chars, Text.isBlank c = true

/-- What stands between the quotes of a string, and the characters that it denotes. -/
inductive Quoted : List Char → List Char → Prop
  | nil : Quoted [] []
  | plain {c : Char} {written chars : List Char} (quote : c ≠ '"') (backslash : c ≠ '\\')
      (rest : Quoted written chars) : Quoted (c :: written) (c :: chars)
  | escaped (c : Char) {written chars : List Char} (rest : Quoted written chars) :
      Quoted ('\\' :: c :: written) (c :: chars)

mutual
/-- An expression and the tree that it denotes. -/
inductive Derives : List Char → Sexpr → Prop
  | token {text : String} (token : IsToken text) : Derives text.toList (.atom text)
  | string {written chars : List Char} (quoted : Quoted written chars) :
      Derives ('"' :: (written ++ ['"'])) (.string (String.ofList chars))
  | node {tag : String} {body : List Char} {args : List Sexpr} (token : IsToken tag)
      (arguments : DerivesArgs true body args) :
      Derives ('(' :: (tag.toList ++ (body ++ [')']))) (.node tag args)
/-- Arguments; `touching` says that a token stands immediately in front of them. -/
inductive DerivesArgs : Bool → List Char → List Sexpr → Prop
  | done {touching : Bool} {blanks : List Char} (blank : Blanks blanks) :
      DerivesArgs touching blanks []
  | next {touching : Bool} (blanks : List Char) {written rest : List Char} {t : Sexpr}
      {ts : List Sexpr} (blank : Blanks blanks) (first : Derives written t)
      (apart : touching = true → t.isAtom = true → blanks ≠ [])
      (others : DerivesArgs t.isAtom rest ts) :
      DerivesArgs touching (blanks ++ (written ++ rest)) (t :: ts)
end

/-- A whole text and the tree that it denotes. -/
def IsDocument (text : String) (t : Sexpr) : Prop :=
  ∃ before written after, text.toList = before ++ (written ++ after) ∧
    Blanks before ∧ Derives written t ∧ Blanks after

theorem blanks_nil : Blanks [] := by simp [Blanks]

@[simp] theorem blanks_cons {c : Char} {cs : List Char} :
    Blanks (c :: cs) ↔ Text.isBlank c = true ∧ Blanks cs := by
  simp [Blanks]

theorem isTokenChar_iff {c : Char} :
    isTokenChar c = true ↔ Text.isBlank c = false ∧ c ≠ '(' ∧ c ≠ ')' ∧ c ≠ '"' := by
  simp [isTokenChar,and_assoc]

theorem Derives.head {written : List Char} {t : Sexpr} (derived : Derives written t) :
    ∃ c cs, written = c :: cs ∧ Text.isBlank c = false ∧ c ≠ ')' ∧ isTokenChar c = t.isAtom := by
  cases derived with
  | @token text token =>
    obtain ⟨c, cs, chars⟩ := List.exists_cons_of_ne_nil (mt String.toList_eq_nil_iff.mp token.1)
    have allowed : isTokenChar c = true := token.2 c (by simp [chars])
    obtain ⟨solid, -, closing, -⟩ := isTokenChar_iff.mp allowed
    exact ⟨c, cs, chars, solid, closing, allowed⟩
  | string quoted => exact ⟨'"', _, rfl, by decide, by decide, rfl⟩
  | node token arguments => exact ⟨'(', _, rfl, by decide, by decide, rfl⟩

/-- The first character of an expression says what kind of expression it is. -/
theorem Derives.first_char {c : Char} {cs written rest : List Char} {t : Sexpr}
    (derived : Derives written t) (same : c :: cs = written ++ rest) :
    Text.isBlank c = false ∧ c ≠ ')' ∧ isTokenChar c = t.isAtom := by
  obtain ⟨d, ds, rfl, facts⟩ := derived.head
  obtain ⟨rfl, -⟩ := List.cons.inj same
  exact facts

theorem derivesArgs_nil {touching : Bool} {args : List Sexpr} :
    DerivesArgs touching [] args ↔ args = [] := by
  constructor
  · intro derived
    generalize chars : [] = cs at derived
    cases derived with
    | done blank => rfl
    | next blanks allBlank first apart others =>
      obtain ⟨c, cs, rfl, -⟩ := first.head
      simp at chars
  · rintro rfl
    exact .done blanks_nil

/-- A blank in front of arguments separates them from what stands before it. -/
theorem derivesArgs_blank {touching : Bool} {c : Char} {cs : List Char} {args : List Sexpr}
    (blank : Text.isBlank c = true) :
    DerivesArgs touching (c :: cs) args ↔ DerivesArgs false cs args := by
  constructor
  · intro derived
    generalize chars : c :: cs = whole at derived
    cases derived with
    | done blanks =>
      rw [← chars,blanks_cons] at blanks
      exact .done blanks.2
    | @next _ blanks written rest t ts allBlank first apart others =>
      cases blanks with
      | nil =>
        have solid := (first.first_char chars).1
        rw [blank] at solid
        cases solid
      | cons d blanks =>
        obtain ⟨rfl, rfl⟩ := List.cons.inj chars
        exact .next blanks (blanks_cons.mp allBlank).2 first nofun others
  · intro derived
    cases derived with
    | done blanks => exact .done (blanks_cons.mpr ⟨blank, blanks⟩)
    | @next _ blanks written rest t ts allBlank first apart others =>
      exact .next (c :: blanks) (blanks_cons.mpr ⟨blank, allBlank⟩) first (by simp) others

/-- Arguments that begin with no blank begin with the first argument. -/
theorem derivesArgs_solid {touching : Bool} {c : Char} {cs : List Char} {args : List Sexpr}
    (solid : Text.isBlank c = false) :
    DerivesArgs touching (c :: cs) args ↔ ∃ written rest t ts, c :: cs = written ++ rest ∧
      args = t :: ts ∧ Derives written t ∧ (touching = true → t.isAtom = false) ∧
      DerivesArgs t.isAtom rest ts := by
  constructor
  · intro derived
    generalize chars : c :: cs = whole at derived
    cases derived with
    | done blanks =>
      rw [← chars,blanks_cons,solid] at blanks
      cases blanks.1
    | @next _ blanks written rest t ts allBlank first apart others =>
      cases blanks with
      | nil => exact ⟨written, rest, t, ts, rfl, rfl, first, by simpa using apart, others⟩
      | cons d blanks =>
        obtain ⟨rfl, -⟩ := List.cons.inj chars
        rw [blanks_cons,solid] at allBlank
        cases allBlank.1
  · rintro ⟨written, rest, t, ts, same, rfl, first, apart, others⟩
    rw [same]
    exact .next [] blanks_nil first (by simp_all) others

namespace Reader

variable {pos : Nat} {stack : List Frame} {t : Sexpr} {c : Char} {cs : List Char}

/-- The rest of an open node, and what `allows` says of the node and what is behind it. -/
def NodeThen (allows : Sexpr → List Char → Prop) (touching : Bool) (f : Frame) (cs : List Char) :
    Prop :=
  ∃ body args after, cs = body ++ ')' :: after ∧ DerivesArgs touching body args ∧
    allows (.node f.tag (f.args.reverse ++ args)) after

/-- What may follow a finished expression `u` for the whole to denote `t`: the rest of the innermost
open node, and then what may follow that node. -/
def Follows (t : Sexpr) : List Frame → Sexpr → List Char → Prop
  | [], u, cs => u = t ∧ Blanks cs
  | f :: outer, u, cs => NodeThen (Follows t outer) u.isAtom { f with args := u :: f.args } cs

/-- An expression, and what may follow it. -/
def Begins (t : Sexpr) (stack : List Frame) (cs : List Char) : Prop :=
  ∃ written u after, cs = written ++ after ∧ Derives written u ∧ Follows t stack u after

/-- What may stand between expressions, where blanks or the end of the innermost node may stand. -/
def Awaits (t : Sexpr) (touching : Bool) : List Frame → List Char → Prop
  | [], cs => ∃ before rest, cs = before ++ rest ∧ Blanks before ∧ Begins t [] rest
  | f :: outer, cs => NodeThen (Follows t outer) touching f cs

/-- The rest of a token that began with `text`, and what `allows` says of the token and what is
behind it. -/
def TokenThen (allows : String → List Char → Prop) (text : String) (cs : List Char) : Prop :=
  ∃ more after, cs = more ++ after ∧ (∀ c ∈ more, isTokenChar c = true) ∧
    allows (text ++ String.ofList more) after

/-- The rest of a string that began with `text`, and what may follow it. -/
def StringThen (t : Sexpr) (stack : List Frame) (text : String) (cs : List Char) : Prop :=
  ∃ written chars after, cs = written ++ '"' :: after ∧ Quoted written chars ∧
    Follows t stack (.string (text ++ String.ofList chars)) after

def TagThen (t : Sexpr) (stack : List Frame) : String → List Char → Prop :=
  TokenThen fun tag after => tag ≠ "" ∧ Awaits t true (⟨tag, []⟩ :: stack) after

def AtomThen (t : Sexpr) (stack : List Frame) : String → List Char → Prop :=
  TokenThen fun text after => Follows t stack (.atom text) after

/-- What may follow a state of the reader for the whole to denote `t`. -/
def State.Accepts (t : Sexpr) : State → List Char → Prop
  | ⟨stack, .between⟩, cs => Awaits t false stack cs
  | ⟨stack, .tag text⟩, cs => TagThen t stack text cs
  | ⟨stack, .atom text⟩, cs => AtomThen t stack text cs
  | ⟨stack, .string _ text false⟩, cs => StringThen t stack text cs
  | ⟨stack, .string _ text true⟩, cs =>
    ∃ c rest, cs = c :: rest ∧ StringThen t stack (text.push c) rest
  | ⟨_, .done u⟩, cs => u = t ∧ Blanks cs

section

variable {allows : String → List Char → Prop} {text : String}

theorem tokenThen_nil : TokenThen allows text [] ↔ allows text [] := by
  constructor
  · rintro ⟨more, after, same, -, allowed⟩
    obtain ⟨rfl, rfl⟩ := List.append_eq_nil_iff.mp same.symm
    simpa using allowed
  · intro allowed
    exact ⟨[], [], rfl, by simp, by simpa using allowed⟩

theorem tokenThen_other (other : isTokenChar c = false) :
    TokenThen allows text (c :: cs) ↔ allows text (c :: cs) := by
  constructor
  · rintro ⟨_ | ⟨d, more⟩, after, same, token, allowed⟩
    · simpa [same] using allowed
    · obtain ⟨rfl, -⟩ := List.cons.inj same
      have inside := token c (by simp)
      rw [other] at inside
      cases inside
  · intro allowed
    exact ⟨[], c :: cs, rfl, by simp, by simpa using allowed⟩

/-- A token does not end in front of a character that may belong to it, if nothing allows that. -/
theorem tokenThen_tokenChar (inside : isTokenChar c = true) (greedy : ¬allows text (c :: cs)) :
    TokenThen allows text (c :: cs) ↔ TokenThen allows (text.push c) cs := by
  constructor
  · rintro ⟨_ | ⟨d, more⟩, after, same, token, allowed⟩
    · rw [List.nil_append] at same
      exact absurd (by simpa [same] using allowed) greedy
    · obtain ⟨rfl, rfl⟩ := List.cons.inj same
      rw [← push_append_ofList] at allowed
      exact ⟨more, after, rfl, fun d member => token d (by simp [member]), allowed⟩
  · rintro ⟨more, after, rfl, token, allowed⟩
    rw [push_append_ofList] at allowed
    exact ⟨c :: more, after, rfl, by simpa [inside] using token, allowed⟩

theorem not_stringThen_nil : ¬StringThen t stack text [] := by
  rintro ⟨written, chars, after, same, -⟩
  simp at same

theorem stringThen_quote :
    StringThen t stack text ('"' :: cs) ↔ Follows t stack (.string text) cs := by
  constructor
  · rintro ⟨written, chars, after, same, quoted, follows⟩
    cases quoted with
    | nil =>
      obtain ⟨-, rfl⟩ := List.cons.inj same
      simpa using follows
    | plain quote => exact absurd (List.cons.inj same).1.symm quote
    | escaped => cases (List.cons.inj same).1
  · intro follows
    exact ⟨[], [], cs, rfl, .nil, by simpa using follows⟩

theorem stringThen_backslash :
    StringThen t stack text ('\\' :: cs) ↔
      ∃ c rest, cs = c :: rest ∧ StringThen t stack (text.push c) rest := by
  constructor
  · rintro ⟨written, chars, after, same, quoted, follows⟩
    cases quoted with
    | nil => cases (List.cons.inj same).1
    | plain _ backslash => exact absurd (List.cons.inj same).1.symm backslash
    | escaped c rest =>
      obtain ⟨-, rfl⟩ := List.cons.inj same
      rw [← push_append_ofList] at follows
      exact ⟨c, _, rfl, _, _, after, rfl, rest, follows⟩
  · rintro ⟨c, rest, rfl, written, chars, after, rfl, quoted, follows⟩
    rw [push_append_ofList] at follows
    exact ⟨_, _, after, rfl, .escaped c quoted, follows⟩

theorem stringThen_plain (quote : c ≠ '"') (backslash : c ≠ '\\') :
    StringThen t stack text (c :: cs) ↔ StringThen t stack (text.push c) cs := by
  constructor
  · rintro ⟨written, chars, after, same, quoted, follows⟩
    cases quoted with
    | nil => exact absurd (List.cons.inj same).1 quote
    | plain _ _ rest =>
      obtain ⟨rfl, rfl⟩ := List.cons.inj same
      rw [← push_append_ofList] at follows
      exact ⟨_, _, after, rfl, rest, follows⟩
    | escaped => exact absurd (List.cons.inj same).1 backslash
  · rintro ⟨written, chars, after, rfl, quoted, follows⟩
    rw [push_append_ofList] at follows
    exact ⟨_, _, after, rfl, .plain quote backslash quoted, follows⟩

end

theorem follows_cons {f : Frame} {u : Sexpr} :
    Follows t (f :: stack) u cs ↔ Awaits t u.isAtom ({ f with args := u :: f.args } :: stack) cs :=
  .rfl

theorem awaits_blank {touching : Bool} (blank : Text.isBlank c = true) :
    Awaits t touching stack (c :: cs) ↔ Awaits t false stack cs := by
  cases stack with
  | nil =>
    constructor
    · rintro ⟨_ | ⟨d, before⟩, rest, same, blanks, begins⟩
      · obtain ⟨written, u, after, rfl, derived, follows⟩ := begins
        have solid := (derived.first_char same).1
        rw [blank] at solid
        cases solid
      · obtain ⟨rfl, rfl⟩ := List.cons.inj same
        exact ⟨before, rest, rfl, (blanks_cons.mp blanks).2, begins⟩
    · rintro ⟨before, rest, rfl, blanks, begins⟩
      exact ⟨c :: before, rest, rfl, blanks_cons.mpr ⟨blank, blanks⟩, begins⟩
  | cons f outer =>
    constructor
    · rintro ⟨_ | ⟨d, body⟩, args, after, same, derived, follows⟩
      · obtain ⟨rfl, -⟩ := List.cons.inj same
        cases blank
      · obtain ⟨rfl, rfl⟩ := List.cons.inj same
        exact ⟨body, args, after, rfl, (derivesArgs_blank blank).mp derived, follows⟩
    · rintro ⟨body, args, after, rfl, derived, follows⟩
      exact ⟨c :: body, args, after, rfl, (derivesArgs_blank blank).mpr derived, follows⟩

theorem not_awaits_closing {touching : Bool} : ¬Awaits t touching [] (')' :: cs) := by
  rintro ⟨_ | ⟨c, before⟩, rest, same, blanks, written, u, after, rfl, derived, -⟩
  · exact (derived.first_char same).2.1 rfl
  · obtain ⟨rfl, -⟩ := List.cons.inj same
    cases (blanks_cons.mp blanks).1

theorem awaits_closing {touching : Bool} {f : Frame} :
    Awaits t touching (f :: stack) (')' :: cs) ↔
      Follows t stack (.node f.tag f.args.reverse) cs := by
  constructor
  · rintro ⟨_ | ⟨d, body⟩, args, after, same, derived, follows⟩
    · obtain ⟨-, rfl⟩ := List.cons.inj same
      rw [derivesArgs_nil] at derived
      simpa [derived] using follows
    · obtain ⟨rfl, -⟩ := List.cons.inj same
      obtain ⟨written, rest, u, us, split, -, first, -⟩ :=
        (derivesArgs_solid (by decide)).mp derived
      exact absurd rfl (first.first_char split).2.1
  · intro follows
    exact ⟨[], [], cs, rfl, derivesArgs_nil.mpr rfl, by simpa using follows⟩

/-- Inside a node a character that is neither blank nor a closing bracket begins the next argument,
and may not belong to a token that it touches. -/
theorem awaits_argument {touching : Bool} {f : Frame} (solid : Text.isBlank c = false)
    (closing : c ≠ ')') :
    Awaits t touching (f :: stack) (c :: cs) ↔
      Begins t (f :: stack) (c :: cs) ∧ (touching = true → isTokenChar c = false) := by
  constructor
  · rintro ⟨_ | ⟨d, body⟩, args, after, same, derived, follows⟩
    · exact absurd (List.cons.inj same).1 closing
    · obtain rfl := (List.cons.inj same).1
      obtain ⟨written, rest, u, us, split, rfl, first, apart, others⟩ :=
        (derivesArgs_solid solid).mp derived
      refine ⟨⟨written, u, rest ++ ')' :: after, ?_, first, rest, us, after, rfl, others, ?_⟩, ?_⟩
      · rw [same,split,List.append_assoc]
      · simpa using follows
      · rwa [(first.first_char split).2.2]
  · -- The argument joins the front of the arguments that follow it inside the same node.
    rintro ⟨⟨written, u, rest, same, first, body, args, after, rfl, others, follows⟩, apart⟩
    refine ⟨written ++ body, u :: args, after, by simp [same], ?_, by simpa using follows⟩
    apply DerivesArgs.next [] blanks_nil first _ others
    intro touches atom
    rw [(first.first_char same).2.2,atom] at apart
    cases apart touches

theorem awaits_solid {touching : Bool} (solid : Text.isBlank c = false) (closing : c ≠ ')')
    (apart : touching = true → isTokenChar c = false) :
    Awaits t touching stack (c :: cs) ↔ Begins t stack (c :: cs) := by
  cases stack with
  | nil =>
    constructor
    · rintro ⟨_ | ⟨d, before⟩, rest, same, blanks, begins⟩
      · rwa [same]
      · obtain ⟨rfl, -⟩ := List.cons.inj same
        rw [blanks_cons,solid] at blanks
        cases blanks.1
    · intro begins
      exact ⟨[], c :: cs, rfl, blanks_nil, begins⟩
  | cons f outer =>
    rw [awaits_argument solid closing]
    exact and_iff_left apart

theorem not_awaits_tokenChar {f : Frame} (inside : isTokenChar c = true) :
    ¬Awaits t true (f :: stack) (c :: cs) := by
  obtain ⟨solid, -, closing, -⟩ := isTokenChar_iff.mp inside
  simp [awaits_argument solid closing,inside]

theorem not_follows_tokenChar {text : String} (inside : isTokenChar c = true) :
    ¬Follows t stack (.atom text) (c :: cs) := by
  cases stack with
  | nil =>
    rintro ⟨-, blanks⟩
    rw [blanks_cons,(isTokenChar_iff.mp inside).1] at blanks
    cases blanks.1
  | cons f outer =>
    rw [follows_cons]
    exact not_awaits_tokenChar inside

theorem begins_opening : Begins t stack ('(' :: cs) ↔ TagThen t stack "" cs := by
  constructor
  · rintro ⟨written, u, after, same, derived, follows⟩
    have kind := (derived.first_char same).2.2
    cases derived with
    | token => cases kind
    | string => cases same
    | @node tag body args token arguments =>
      obtain ⟨-, rfl⟩ := List.cons.inj same
      refine ⟨tag.toList, body ++ ')' :: after, by simp, token.2, ?_⟩
      rw [String.ofList_toList,String.empty_append]
      exact ⟨token.1, body, args, after, rfl, arguments, follows⟩
  · rintro ⟨tag, rest, rfl, token, nonempty, body, args, after, rfl, arguments, follows⟩
    rw [String.empty_append] at nonempty follows
    refine ⟨_, _, after, ?_, .node ⟨nonempty, by simpa using token⟩ arguments, follows⟩
    simp

theorem begins_quote : Begins t stack ('"' :: cs) ↔ StringThen t stack "" cs := by
  constructor
  · rintro ⟨written, u, after, same, derived, follows⟩
    have kind := (derived.first_char same).2.2
    cases derived with
    | token => cases kind
    | @string written chars quoted =>
      obtain ⟨-, rfl⟩ := List.cons.inj same
      exact ⟨written, chars, after, by simp, quoted, by simpa using follows⟩
    | node => cases same
  · rintro ⟨written, chars, after, rfl, quoted, follows⟩
    rw [String.empty_append] at follows
    exact ⟨_, _, after, by simp, .string quoted, follows⟩

theorem begins_tokenChar (inside : isTokenChar c = true) :
    Begins t stack (c :: cs) ↔ AtomThen t stack (String.singleton c) cs := by
  constructor
  · rintro ⟨written, u, after, same, derived, follows⟩
    obtain ⟨d, rest, shape, -, -, kind⟩ := derived.head
    rw [shape] at same
    obtain ⟨rfl, rfl⟩ := List.cons.inj same
    rw [inside] at kind
    cases derived with
    | @token text token =>
      have whole : String.singleton c ++ String.ofList rest = text := by
        apply String.toList_inj.mp
        simp [shape]
      refine ⟨rest, after, rfl, fun d member => token.2 d (by simp [shape,member]), ?_⟩
      rwa [whole]
    | string | node => cases kind
  · rintro ⟨more, after, rfl, token, follows⟩
    have chars : (String.singleton c ++ String.ofList more).toList = c :: more := by simp
    refine ⟨_, _, after, ?_, .token ⟨?_, ?_⟩, follows⟩
    · rw [chars,List.cons_append]
    · simp
    · simpa [chars,inside] using token

/-- A finished expression that is no atom is delivered at once, whatever comes next. -/
theorem deliver_accepts {u : Sexpr} (noAtom : u.isAtom = false) :
    (deliver u stack).Accepts t cs ↔ Follows t stack u cs := by
  cases stack with
  | nil => exact .rfl
  | cons f outer =>
    rw [follows_cons,noAtom]
    exact .rfl

theorem start_accepts {touching : Bool} (apart : touching = true → isTokenChar c = false) :
    Awaits t touching stack (c :: cs) ↔
      ∃ next, start pos c stack = .ok next ∧ next.Accepts t cs := by
  unfold start
  split
  next blank => simpa [State.Accepts] using awaits_blank blank
  next solid =>
  rw [Bool.not_eq_true] at solid
  split
  next opening =>
    subst opening
    rw [awaits_solid solid (by decide) apart,begins_opening]
    simp [State.Accepts]
  next opening =>
  split
  next quote =>
    subst quote
    rw [awaits_solid solid (by decide) apart,begins_quote]
    simp [State.Accepts]
  next quote =>
  split
  next closing =>
    subst closing
    cases stack with
    | nil => simp [not_awaits_closing,closeNode]
    | cons f outer =>
      rw [awaits_closing]
      simpa [closeNode] using (deliver_accepts rfl).symm
  next closing =>
    have inside : isTokenChar c = true := isTokenChar_iff.mpr ⟨solid, opening, closing, quote⟩
    rw [awaits_solid solid closing apart,begins_tokenChar inside]
    simp [State.Accepts]

theorem afterResult_accepts {u : Sexpr} :
    Follows t [] u (c :: cs) ↔
      ∃ next, afterResult pos c u = .ok next ∧ next.Accepts t cs := by
  rw [Follows,blanks_cons,afterResult]
  split
  next blank => simp [State.Accepts,blank]
  next solid => simp [solid]

theorem endAtom_accepts {text : String} (other : isTokenChar c = false) :
    Follows t stack (.atom text) (c :: cs) ↔
      ∃ next, endAtom pos c text stack = .ok next ∧ next.Accepts t cs := by
  cases stack with
  | nil => exact afterResult_accepts
  | cons f outer =>
    rw [follows_cons]
    exact start_accepts fun _ => other

theorem stringChar_accepts {begun : Nat} {text : String} :
    StringThen t stack text (c :: cs) ↔ (stringChar begun text c stack).Accepts t cs := by
  unfold stringChar
  split
  next quote =>
    rw [quote,stringThen_quote]
    exact (deliver_accepts rfl).symm
  next quote =>
  split
  next backslash =>
    rw [backslash]
    exact stringThen_backslash
  next backslash => exact stringThen_plain quote backslash

/-- What may follow a state and begins with `c` is what may follow the state behind `c`. -/
theorem step_accepts (s : State) :
    s.Accepts t (c :: cs) ↔ ∃ next, s.step pos c = .ok next ∧ next.Accepts t cs := by
  obtain ⟨stack, mode⟩ := s
  cases mode with
  | between => exact start_accepts nofun
  | tag text =>
    simp only [State.Accepts,TagThen,State.step]
    split
    next inside =>
      -- No argument begins so near to the tag with this character, so the tag goes on.
      rw [tokenThen_tokenChar inside fun allowed => not_awaits_tokenChar inside allowed.2]
      simp only [Except.ok.injEq,exists_eq_left']
    next other =>
    rw [Bool.not_eq_true] at other
    rw [tokenThen_other other]
    split
    next empty => simp [empty]
    next nonempty =>
      rw [start_accepts fun _ => other]
      exact and_iff_right nonempty
  | atom text =>
    simp only [State.Accepts,AtomThen,State.step]
    split
    next inside =>
      rw [tokenThen_tokenChar inside (not_follows_tokenChar inside)]
      simp only [Except.ok.injEq,exists_eq_left']
    next other =>
      rw [Bool.not_eq_true] at other
      rw [tokenThen_other other]
      exact endAtom_accepts other
  | string begun text escaped =>
    cases escaped with
    | false => simpa [State.Accepts,State.step] using stringChar_accepts
    | true => simp [State.Accepts,State.step]
  | done u => exact afterResult_accepts

theorem not_awaits_nil {touching : Bool} : ¬Awaits t touching stack [] := by
  cases stack with
  | nil =>
    rintro ⟨before, rest, same, -, written, u, after, rfl, derived, -⟩
    obtain ⟨c, cs, rfl, -⟩ := derived.head
    simp at same
  | cons f outer =>
    rintro ⟨body, args, after, same, -⟩
    simp at same

/-- Nothing has to follow a state exactly when the reader is finished there. -/
theorem finish_accepts (s : State) : s.Accepts t [] ↔ s.finish pos = .ok t := by
  obtain ⟨stack, mode⟩ := s
  cases mode with
  | between => cases stack <;> simp [State.Accepts,not_awaits_nil,State.finish]
  | tag text => simp [State.Accepts,TagThen,tokenThen_nil,not_awaits_nil,State.finish]
  | atom text =>
    simp only [State.Accepts,AtomThen,tokenThen_nil]
    cases stack with
    | nil => simp [Follows,blanks_nil,State.finish]
    | cons f outer => simp [follows_cons,not_awaits_nil,State.finish]
  | string begun text escaped =>
    cases escaped <;> simp [State.Accepts,not_stringThen_nil,State.finish]
  | done u => simp [State.Accepts,blanks_nil,State.finish]

/-- The reader returns a tree exactly for what may follow the state that it is in. -/
theorem run_eq_ok_iff (s : State) : run pos s cs = .ok t ↔ s.Accepts t cs := by
  -- The state varies with the text, and its language with it: one step is one character less.
  induction cs generalizing pos s with
  | nil => exact (finish_accepts s).symm
  | cons c cs ih =>
    rw [step_accepts,run]
    cases s.step pos c with
    | ok next => simp [ih]
    | error e => simp

end Reader

/-- The reader accepts exactly the documents of the grammar, each with the tree that it denotes. -/
theorem read_eq_ok_iff_document (text : String) (t : Sexpr) :
    read text = .ok t ↔ IsDocument text t := by
  rw [read,Reader.run_eq_ok_iff]
  constructor
  · rintro ⟨before, rest, same, blanks, written, u, after, rfl, derived, rfl, trailing⟩
    exact ⟨before, written, after, same, blanks, derived, trailing⟩
  · rintro ⟨before, written, after, same, blanks, derived, trailing⟩
    exact ⟨before, written ++ after, same, blanks, written, t, after, rfl, derived, rfl, trailing⟩

example : read " (a\"x\"b(c)1 2)" =
    .ok (.node "a" [.string "x", .atom "b", .node "c" [], .atom "1", .atom "2"]) := by
  decide +kernel

end QueryLowering.Sexpr
