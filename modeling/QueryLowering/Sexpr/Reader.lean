import QueryLowering.Sexpr.Tree

/-! Reading one S-expression. The reader takes one character at a time; what it has read so far is a
stack of open nodes and the lexeme at hand. Positions are offsets in UTF-8 bytes. -/
namespace QueryLowering.Sexpr

inductive ReadError where
  | emptyInput
  | unexpectedEnd (pos : Nat)
  | unexpectedChar (pos : Nat) (char : Char)
  | missingTag (pos : Nat)
  | unterminatedString (pos : Nat)
  | trailingInput (pos : Nat)
  deriving DecidableEq, Repr

def ReadError.message : ReadError → String
  | emptyInput => "Empty input"
  | unexpectedEnd pos => s!"Unexpected end of input at byte {pos}"
  | unexpectedChar pos char => s!"Unexpected character '{char}' at byte {pos}"
  | missingTag pos => s!"Node without a tag at byte {pos}"
  | unterminatedString pos => s!"Unterminated string starting at byte {pos}"
  | trailingInput pos => s!"Trailing input at byte {pos}"

/-- Tags and atoms are runs of these characters. -/
def isTokenChar (c : Char) : Bool := !Text.isBlank c && c != '(' && c != ')' && c != '"'

namespace Reader

/-- A node that is still open, with its finished arguments, the latest first. -/
structure Frame where
  tag : String
  args : List Sexpr

/-- The lexeme at hand. -/
inductive Mode where
  /-- None: the next expression, or the end of the innermost node, is awaited. -/
  | between
  | tag (text : String)
  | atom (text : String)
  /-- A string that began at `start`; `escaped` says that a backslash was just read. -/
  | string (start : Nat) (text : String) (escaped : Bool)
  /-- The outermost expression is complete. -/
  | done (result : Sexpr)

structure State where
  stack : List Frame
  mode : Mode

def State.initial : State := ⟨[], .between⟩

/-- A finished expression is an argument of the innermost open node, or else the result. -/
def deliver (t : Sexpr) : List Frame → State
  | [] => ⟨[], .done t⟩
  | f :: rest => ⟨{ f with args := t :: f.args } :: rest, .between⟩

def closeNode (pos : Nat) : List Frame → Except ReadError State
  | [] => .error (.unexpectedChar pos ')')
  | f :: rest => .ok (deliver (.node f.tag f.args.reverse) rest)

/-- The character `c` at `pos` begins a lexeme or separates two. -/
def start (pos : Nat) (c : Char) (stack : List Frame) : Except ReadError State :=
  if Text.isBlank c then .ok ⟨stack, .between⟩
  else if c = '(' then .ok ⟨stack, .tag ""⟩
  else if c = '"' then .ok ⟨stack, .string pos "" false⟩
  else if c = ')' then closeNode pos stack
  else .ok ⟨stack, .atom (String.singleton c)⟩

/-- Only blanks may follow the outermost expression. -/
def afterResult (pos : Nat) (c : Char) (t : Sexpr) : Except ReadError State :=
  if Text.isBlank c then .ok ⟨[], .done t⟩ else .error (.trailingInput pos)

/-- An atom ends at the character `c`, which is not part of it. -/
def endAtom (pos : Nat) (c : Char) (text : String) : List Frame → Except ReadError State
  | [] => afterResult pos c (.atom text)
  | f :: rest => start pos c ({ f with args := .atom text :: f.args } :: rest)

def stringChar (begun : Nat) (text : String) (c : Char) (stack : List Frame) : State :=
  if c = '"' then deliver (.string text) stack
  else if c = '\\' then ⟨stack, .string begun text true⟩
  else ⟨stack, .string begun (text.push c) false⟩

def State.step (pos : Nat) (c : Char) : State → Except ReadError State
  | ⟨stack, .between⟩ => start pos c stack
  | ⟨stack, .tag text⟩ =>
    if isTokenChar c then .ok ⟨stack, .tag (text.push c)⟩
    else if text = "" then .error (.missingTag pos)
    else start pos c (⟨text, []⟩ :: stack)
  | ⟨stack, .atom text⟩ =>
    if isTokenChar c then .ok ⟨stack, .atom (text.push c)⟩ else endAtom pos c text stack
  | ⟨stack, .string begun text false⟩ => .ok (stringChar begun text c stack)
  | ⟨stack, .string begun text true⟩ => .ok ⟨stack, .string begun (text.push c) false⟩
  | ⟨_, .done t⟩ => afterResult pos c t

/-- The input ends at `pos`. -/
def State.finish (pos : Nat) : State → Except ReadError Sexpr
  | ⟨[], .between⟩ => .error .emptyInput
  | ⟨_, .tag text⟩ => .error (if text = "" then .missingTag pos else .unexpectedEnd pos)
  | ⟨_, .string begun _ _⟩ => .error (.unterminatedString begun)
  | ⟨[], .atom text⟩ => .ok (.atom text)
  | ⟨_, .done t⟩ => .ok t
  | ⟨_ :: _, .between⟩ | ⟨_ :: _, .atom _⟩ => .error (.unexpectedEnd pos)

def run (pos : Nat) (s : State) : List Char → Except ReadError Sexpr
  | [] => s.finish pos
  | c :: cs =>
    match s.step pos c with
    | .ok s => run (pos + c.utf8Size) s cs
    | .error e => .error e

end Reader

/-- The tree that the whole text denotes. -/
def read (text : String) : Except ReadError Sexpr := Reader.run 0 .initial text.toList

end QueryLowering.Sexpr
