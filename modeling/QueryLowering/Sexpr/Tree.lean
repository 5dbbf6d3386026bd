import QueryLowering.Text.Character

/-! S-expression trees: tagged nodes over atoms and quoted strings, and their written form. A tree is
a sequence of tokens, and every token is followed by exactly one space; only the space behind the last
one is dropped. -/
namespace QueryLowering

inductive Sexpr where
  | node (tag : String) (args : List Sexpr)
  | atom (text : String)
  | string (text : String)

namespace Sexpr

mutual
def decideEq : (a b : Sexpr) → Decidable (a = b)
  | .node s xs, .node t ys =>
    match decEq s t, decideEqList xs ys with
    | isTrue hs, isTrue hx => isTrue (by rw [hs, hx])
    | isFalse hs, _ => isFalse fun h => hs (Sexpr.node.inj h).1
    | _, isFalse hx => isFalse fun h => hx (Sexpr.node.inj h).2
  | .atom s, .atom t => decidable_of_iff (s = t) (by simp)
  | .string s, .string t => decidable_of_iff (s = t) (by simp)
  | .node _ _, .atom _ | .node _ _, .string _ | .atom _, .node _ _
  | .atom _, .string _ | .string _, .node _ _ | .string _, .atom _ => isFalse nofun
def decideEqList : (xs ys : List Sexpr) → Decidable (xs = ys)
  | [], [] => isTrue rfl
  | x :: xs, y :: ys =>
    match decideEq x y, decideEqList xs ys with
    | isTrue hx, isTrue hs => isTrue (by rw [hx, hs])
    | isFalse hx, _ => isFalse fun h => hx (List.cons.inj h).1
    | _, isFalse hs => isFalse fun h => hs (List.cons.inj h).2
  | [], _ :: _ | _ :: _, [] => isFalse nofun
end

instance : DecidableEq Sexpr := decideEq

def tag? : Sexpr → Option String
  | node tag _ => some tag
  | _ => none

/-- An atom and a string have no arguments. -/
def args : Sexpr → List Sexpr
  | node _ args => args
  | _ => []

/-- The first argument that is a node with this tag. -/
def child? (t : Sexpr) (tag : String) : Option Sexpr :=
  t.args.find? fun arg => arg.tag? == some tag

inductive Token where
  | opening (tag : String)
  | closing
  | atom (text : String)
  | string (text : String)
  deriving DecidableEq, Repr

/-- A quote and a backslash inside a string stand behind a backslash; nothing else is escaped. -/
def escapeChar (c : Char) : List Char :=
  if c = '"' ∨ c = '\\' then ['\\', c] else [c]

def escape (text : String) : String := String.ofList (text.toList.flatMap escapeChar)

/-- The characters of a token, its space included. A tag and an atom are written as they are. -/
def Token.text : Token → String
  | opening tag => "(" ++ tag ++ " "
  | closing => ") "
  | atom text => text ++ " "
  | string text => "\"" ++ escape text ++ "\" "

def textOf (tokens : List Token) : String := String.join (tokens.map Token.text)

mutual
def tokens : Sexpr → List Token
  | node tag args => .opening tag :: (tokensOf args ++ [.closing])
  | atom text => [.atom text]
  | string text => [.string text]
def tokensOf : List Sexpr → List Token
  | [] => []
  | t :: ts => tokens t ++ tokensOf ts
end

/-- The canonical text of a tree. -/
def render (t : Sexpr) : String := Text.trimEnd (textOf t.tokens)

/-- A node without arguments. -/
def emptyNodeTokens (tag : String) : List Token := [.opening tag, .closing]

/-- A node with one string. -/
def stringNodeTokens (tag text : String) : List Token := [.opening tag, .string text, .closing]

end Sexpr

end QueryLowering
