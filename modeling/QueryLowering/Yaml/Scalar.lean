import QueryLowering.Text.Character
import QueryLowering.Yaml.Cursor

/-! YAML scalars: plain, in single quotes and in double quotes. Between two words of a scalar a line
feed becomes a space, and further breaks behind it stay; a separator stays itself. -/
namespace QueryLowering.Yaml

/-- What stands between two words of a scalar, the latest character first. -/
inductive Gap where
  | blanks (chars : List Char)
  /-- Blanks around breaks are dropped. There is no first break if it was escaped. -/
  | breaks (first : Option Char) (more : List Char)

namespace Gap

def isBroken : Gap → Bool
  | blanks _ => false
  | breaks _ _ => true

def isEmpty : Gap → Bool
  | blanks chars => chars.isEmpty
  | breaks _ _ => false

def blank (c : Char) : Gap → Gap
  | blanks chars => blanks (c :: chars)
  | broken => broken

def lineBreak (c : Char) : Gap → Gap
  | blanks _ => breaks (some c) []
  | breaks first more => breaks first (c :: more)

/-- The gap as it reads, the latest character first. -/
def folded : Gap → List Char
  | blanks chars => chars
  | breaks (some '\n') [] => [' ']
  | breaks (some '\n') more => more
  | breaks first more => more ++ first.toList

end Gap

/-- What has been read of a scalar: its text, the latest character first, and the gap behind it. -/
structure Partial where
  text : List Char := []
  gap : Gap := .blanks []

namespace Partial

def blank (p : Partial) (c : Char) : Partial := { p with gap := p.gap.blank c }

def lineBreak (p : Partial) (c : Char) : Partial := { p with gap := p.gap.lineBreak c }

def closeGap (p : Partial) : Partial := { text := p.gap.folded ++ p.text }

def push (p : Partial) (c : Char) : Partial := { text := c :: p.closeGap.text }

/-- A break behind a backslash leaves nothing, and blanks in front of it stay. -/
def escapedBreak (p : Partial) : Partial := { p.closeGap with gap := .breaks none [] }

def result (p : Partial) : String := String.ofList p.text.reverse

end Partial

/-- A scalar that was read, where the text goes on, and whether this is in a new line. -/
structure Scanned where
  text : String
  after : Cursor
  newLine : Bool := false

/-- Characters that announce something other than a plain scalar. -/
def isIndicator (c : Char) : Bool :=
  ['#', '&', '*', '!', '|', '>', '\'', '"', '%', '@', '\x60'].contains c

/-- Whether a plain scalar may begin here. -/
def startsPlain (flow : Bool) : List Char → Bool
  | [] => false
  | '-' :: rest => !endsWord rest
  | '?' :: rest | ':' :: rest => !flow && !endsWord rest
  | c :: _ =>
    !isInlineBlank c && !isBreak c && !isFlowIndicator c && !isIndicator c

/-- Whether a plain scalar ends in front of this word. -/
def endsAtWord (flow : Bool) (floor : Nat) (place : Place) (chars : List Char) : Bool :=
  chars.head? = some '#' || (!flow && place.column < floor) ||
    (place.column = 0 && isDocumentMark chars)

/-- Whether a plain scalar ends in front of this character, wherever in a word. -/
def endsPlain (flow : Bool) : List Char → Bool
  | [] => true
  | c :: rest => (c = ':' && endsWord rest) || (flow && isFlowIndicator c)

/-- In flow structure no colon may stand in front of an indicator. -/
def isStrayColon : List Char → Bool
  | ':' :: c :: _ => c = '?' || isFlowIndicator c
  | _ => false

/-- A plain scalar, with the blanks and breaks behind it; `floor` is the least column at which it may
go on in a new line of block structure. A tab may not stand below it. -/
def plain? (flow : Bool) (floor : Nat) (p : Partial) (place : Place) : List Char → Option Scanned
  | [] => some ⟨p.result, ⟨[], place⟩, p.gap.isBroken⟩
  | c :: rest =>
    if isBreak c then plain? flow floor (p.lineBreak c) (place.advance c) rest
    else if isInlineBlank c then
      if c = '\t' && p.gap.isBroken && place.column < floor then none
      else plain? flow floor (p.blank c) (place.advance c) rest
    else if (!p.gap.isEmpty && endsAtWord flow floor place (c :: rest)) ||
        endsPlain flow (c :: rest) then
      some ⟨p.result, ⟨c :: rest, place⟩, p.gap.isBroken⟩
    else if flow && isStrayColon (c :: rest) then none
    else plain? flow floor (p.push c) (place.advance c) rest

/-- A scalar behind its single quote; two quotes stand for one. -/
def singleQuoted? (p : Partial) (place : Place) : List Char → Option Scanned
  | [] => none
  | '\'' :: '\'' :: rest => singleQuoted? (p.push '\'') (place.forward 2) rest
  | '\'' :: rest => some { text := p.closeGap.result, after := ⟨rest, place.forward 1⟩ }
  | c :: rest =>
    if place.column = 0 && isDocumentMark (c :: rest) then none
    else if isBreak c then singleQuoted? (p.lineBreak c) (place.advance c) rest
    else if isInlineBlank c then singleQuoted? (p.blank c) (place.advance c) rest
    else singleQuoted? (p.push c) (place.advance c) rest

/-- The character that a letter behind a backslash stands for. -/
def unescape? : Char → Option Char
  | '0' => some '\x00'
  | 'a' => some '\x07'
  | 'b' => some '\x08'
  | 't' | '\t' => some '\t'
  | 'n' => some '\n'
  | 'v' => some '\x0b'
  | 'f' => some '\x0c'
  | 'r' => some '\r'
  | 'e' => some '\x1b'
  | ' ' => some ' '
  | '"' => some '"'
  | '/' => some '/'
  | '\\' => some '\\'
  | 'N' => some (Char.ofNat 0x85)
  | '_' => some (Char.ofNat 0xA0)
  | 'L' => some (Char.ofNat 0x2028)
  | 'P' => some (Char.ofNat 0x2029)
  | _ => none

/-- The character with this code in hexadecimal. -/
def codeChar? (digits : List Char) : Option Char := do
  let code ← Text.numeral? 16 digits
  if code < 0xD800 ∨ (0xDFFF < code ∧ code < 0x110000) then some (Char.ofNat code) else none

/-- A scalar behind its double quote. -/
def doubleQuoted? (p : Partial) (place : Place) : List Char → Option Scanned
  | [] => none
  | '"' :: rest => some { text := p.closeGap.result, after := ⟨rest, place.forward 1⟩ }
  | '\\' :: 'x' :: a :: b :: rest => do
    doubleQuoted? (p.push (← codeChar? [a, b])) (place.forward 4) rest
  | '\\' :: 'u' :: a :: b :: c :: d :: rest => do
    doubleQuoted? (p.push (← codeChar? [a, b, c, d])) (place.forward 6) rest
  | '\\' :: 'U' :: a :: b :: c :: d :: e :: f :: g :: h :: rest => do
    doubleQuoted? (p.push (← codeChar? [a, b, c, d, e, f, g, h])) (place.forward 10) rest
  | '\\' :: c :: rest =>
    if isBreak c then doubleQuoted? p.escapedBreak ((place.forward 1).advance c) rest
    else do doubleQuoted? (p.push (← unescape? c)) (place.forward 2) rest
  | c :: rest =>
    if place.column = 0 && isDocumentMark (c :: rest) then none
    else if isBreak c then doubleQuoted? (p.lineBreak c) (place.advance c) rest
    else if isInlineBlank c then doubleQuoted? (p.blank c) (place.advance c) rest
    else doubleQuoted? (p.push c) (place.advance c) rest

end QueryLowering.Yaml
