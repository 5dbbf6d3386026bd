/-! Places in YAML text, and the characters that divide it. Every line break is one character: a line
feed, a line separator or a paragraph separator. -/
namespace QueryLowering.Yaml

def isBreak (c : Char) : Bool := c = '\n' || c.toNat = 0x2028 || c.toNat = 0x2029

def isInlineBlank (c : Char) : Bool := c = ' ' || c = '\t'

def isByteOrderMark (c : Char) : Bool := c.toNat = 0xFEFF

def isFlowIndicator (c : Char) : Bool := c = ',' || c = '[' || c = ']' || c = '\x7b' || c = '\x7d'

/-- Behind an indicator: the end of the text, a blank or a line break. -/
def endsWord : List Char → Bool
  | [] => true
  | c :: _ => isInlineBlank c || isBreak c

/-- A mark that begins or ends a document, when it stands at the beginning of a line. -/
def isDocumentMark : List Char → Bool
  | '-' :: '-' :: '-' :: rest | '.' :: '.' :: '.' :: rest => endsWord rest
  | _ => false

/-- `index` is an offset in UTF-8 bytes, `column` counts the characters in front in the same line. -/
structure Place where
  index : Nat := 0
  line : Nat := 0
  column : Nat := 0

namespace Place

/-- The place behind `n` ASCII characters of the same line. -/
def forward (p : Place) (n : Nat) : Place := { p with index := p.index + n, column := p.column + n }

def advance (p : Place) (c : Char) : Place :=
  if isBreak c then ⟨p.index + c.utf8Size, p.line + 1, 0⟩
  else { p with index := p.index + c.utf8Size, column := p.column + 1 }

end Place

/-- The rest of the text, and the place where it begins. -/
structure Cursor where
  rest : List Char
  place : Place := {}

def Cursor.forward (c : Cursor) (n : Nat) : Cursor := ⟨c.rest.drop n, c.place.forward n⟩

/-- Skips blanks, comments and line breaks, and gives back whether a key may begin behind them. In
block structure a new line allows it, and where it is allowed a tab is no blank. A byte order mark
may begin a line. -/
def skipBlanks (flow keyAllowed comment : Bool) (place : Place) : List Char → Cursor × Bool
  | [] => (⟨[], place⟩, keyAllowed)
  | c :: rest =>
    if isBreak c then skipBlanks flow (keyAllowed || !flow) false (place.advance c) rest
    else if comment || c = '#' then skipBlanks flow keyAllowed true (place.advance c) rest
    else if c = ' ' || (c = '\t' && (flow || !keyAllowed)) ||
        (isByteOrderMark c && place.column = 0) then
      skipBlanks flow keyAllowed false (place.advance c) rest
    else (⟨c :: rest, place⟩, keyAllowed)

end QueryLowering.Yaml
