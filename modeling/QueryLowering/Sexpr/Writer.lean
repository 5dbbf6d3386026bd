import QueryLowering.Sexpr.Tree

/-! A writer collects the text of tokens and counts the nodes that are still open. -/
namespace QueryLowering.Sexpr

structure Writer where
  text : String := ""
  depth : Nat := 0
  deriving DecidableEq, Repr

namespace Writer

/-- Why a token was refused, when nothing is open and a node is closed. -/
def unmatchedClose : String := "close without a matching open"

/-- Refuses to close a node when none is open. -/
def write? (w : Writer) : Token → Option Writer
  | .opening tag => some ⟨w.text ++ (Token.opening tag).text, w.depth + 1⟩
  | .closing => if w.depth = 0 then none else some ⟨w.text ++ Token.closing.text, w.depth - 1⟩
  | .atom text => some { w with text := w.text ++ (Token.atom text).text }
  | .string text => some { w with text := w.text ++ (Token.string text).text }

def writeAll? (w : Writer) : List Token → Option Writer
  | [] => some w
  | t :: ts => (w.write? t).bind fun w => w.writeAll? ts

def finish (w : Writer) : String := Text.trimEnd w.text

/-- The length of the text in UTF-8 bytes. -/
def byteSize (w : Writer) : Nat := w.text.utf8ByteSize

/-- What a session may ask of a writer. -/
inductive Step where
  | openNode (tag : String)
  | closeNode
  | atom (text : String)
  | string (text : String)
  | emptyNode (tag : String)
  | stringNode (tag text : String)
  | openWithString (tag text : String)
  | tree (t : Sexpr)

def Step.tokens : Step → List Token
  | openNode tag => [.opening tag]
  | closeNode => [.closing]
  | atom text => [.atom text]
  | string text => [.string text]
  | emptyNode tag => emptyNodeTokens tag
  | stringNode tag text => stringNodeTokens tag text
  | openWithString tag text => [.opening tag, .string text]
  | tree t => t.tokens

/-- A step is taken whole or not at all. -/
def step? (w : Writer) (s : Step) : Option Writer := w.writeAll? s.tokens

/-- A step that is refused changes nothing. -/
def take (w : Writer) (step : Step) : Writer := (w.step? step).getD w

def session (w : Writer) (steps : List Step) : Writer := steps.foldl take w

/-- What a new writer has written after these steps. -/
def textAfter (steps : List Step) : String := (session {} steps).finish

end Writer

end QueryLowering.Sexpr
