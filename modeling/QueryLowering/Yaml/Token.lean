import QueryLowering.Yaml.Scalar

/-! Tokens of YAML text. Block structure shows in the text by indentation only, and a key by the colon
behind it; so the tokens that open a block mapping or announce a key are put in front of what has
been read already. Anchors, tags, block scalars and directives are refused. -/
namespace QueryLowering.Yaml

inductive Token where
  | documentStart
  | documentEnd
  | blockSequenceStart
  | blockMappingStart
  | blockEnd
  | blockEntry
  | flowSequenceStart
  | flowSequenceEnd
  | flowMappingStart
  | flowMappingEnd
  | flowEntry
  | key
  | value
  | scalar (plain : Bool) (text : String)
  deriving DecidableEq, Repr

/-- Where a key would begin if a colon followed. -/
structure PossibleKey where
  /-- The number of tokens in front of it. -/
  position : Nat
  /-- There is a block mapping at its column, in which only a key can stand there. -/
  required : Bool
  place : Place

/-- The colon has to follow in the same line, and within 1024 bytes. -/
def PossibleKey.isStale (k : PossibleKey) (now : Place) : Bool :=
  k.place.line < now.line || k.place.index + 1024 < now.index

/-- What is known in the middle of the text. -/
structure Scanner where
  cursor : Cursor
  /-- The latest token first. -/
  tokens : List Token := []
  /-- The columns of the open block structures, the innermost first. -/
  indents : List Nat := []
  key : Option PossibleKey := none
  /-- The possible keys outside of each open flow structure, the innermost first. -/
  outerKeys : List (Option PossibleKey) := []
  keyAllowed : Bool := true

namespace Scanner

def inFlow (s : Scanner) : Bool := !s.outerKeys.isEmpty

def column (s : Scanner) : Nat := s.cursor.place.column

/-- Adds a token that is `width` characters long. -/
def emit (s : Scanner) (t : Token) (width : Nat) : Scanner :=
  { s with tokens := t :: s.tokens, cursor := s.cursor.forward width }

/-- Puts a token behind the first `position` tokens. -/
def insert (s : Scanner) (position : Nat) (t : Token) : Scanner :=
  let later := s.tokens.length - position
  { s with tokens := s.tokens.take later ++ t :: s.tokens.drop later }

def skip (s : Scanner) : Scanner :=
  let (cursor, keyAllowed) :=
    skipBlanks s.inFlow s.keyAllowed false s.cursor.place s.cursor.rest
  { s with cursor, keyAllowed }

/-- A possible key that became stale is none; a required one may not become stale. -/
def dropStale? (s : Scanner) : Option Scanner := do
  return { s with key := ← check s.key, outerKeys := ← s.outerKeys.mapM check }
where
  check : Option PossibleKey → Option (Option PossibleKey)
    | none => some none
    | some k =>
      if !k.isStale s.cursor.place then some (some k)
      else if k.required then none
      else some none

/-- Ends the block structures at the columns that satisfy `closes`, from the innermost on. -/
def closeBlocks (s : Scanner) (closes : Nat → Bool) : Scanner :=
  if s.inFlow then s
  else
    let closed := s.indents.takeWhile closes
    { s with
      indents := s.indents.drop closed.length
      tokens := List.replicate closed.length .blockEnd ++ s.tokens }

def closeAll (s : Scanner) : Scanner := s.closeBlocks fun _ => true

/-- Begins a block structure at a column, unless there is one already. -/
def openBlock (s : Scanner) (column position : Nat) (t : Token) : Scanner :=
  if s.inFlow || !s.indents.head?.all (· < column) then s
  else { s.insert position t with indents := column :: s.indents }

def forgetKey? (s : Scanner) : Option Scanner :=
  if s.key.any (·.required) then none else some { s with key := none }

/-- A key may begin here. -/
def rememberKey? (s : Scanner) : Option Scanner :=
  if s.keyAllowed then
    let required := !s.inFlow && s.indents.head? = some s.column
    s.forgetKey?.map fun t => { t with key := some ⟨s.tokens.length, required, s.cursor.place⟩ }
  else some s

def documentMark? (s : Scanner) (t : Token) : Option Scanner :=
  s.closeAll.forgetKey?.map fun s => { s.emit t 3 with keyAllowed := false }

def flowStart? (s : Scanner) (t : Token) : Option Scanner :=
  s.rememberKey?.map fun s =>
    { s.emit t 1 with key := none, outerKeys := s.key :: s.outerKeys, keyAllowed := true }

def flowEnd? (s : Scanner) (t : Token) : Option Scanner :=
  s.forgetKey?.map fun s =>
    { s.emit t 1 with
      key := s.outerKeys.head?.join, outerKeys := s.outerKeys.tail, keyAllowed := false }

def flowEntry? (s : Scanner) : Option Scanner :=
  s.forgetKey?.map fun s => { s.emit .flowEntry 1 with keyAllowed := true }

/-- Block structure may begin only where a key may. -/
def startBlock? (s : Scanner) (t : Token) : Option Scanner :=
  if !s.inFlow && !s.keyAllowed then none else some (s.openBlock s.column s.tokens.length t)

def blockEntry? (s : Scanner) : Option Scanner := do
  let s ← (← s.startBlock? .blockSequenceStart).forgetKey?
  return { s.emit .blockEntry 1 with keyAllowed := true }

def explicitKey? (s : Scanner) : Option Scanner := do
  let s ← (← s.startBlock? .blockMappingStart).forgetKey?
  return { s.emit .key 1 with keyAllowed := !s.inFlow }

def value? (s : Scanner) : Option Scanner :=
  match s.key with
  | some k =>
    let s := (s.insert k.position .key).openBlock k.place.column k.position .blockMappingStart
    some { s.emit .value 1 with key := none, keyAllowed := false }
  | none =>
    (s.startBlock? .blockMappingStart).map fun s =>
      { s.emit .value 1 with keyAllowed := !s.inFlow }

/-- The least column for a plain scalar that goes on in a new line. -/
def floor (s : Scanner) : Nat :=
  match s.indents with
  | [] => 0
  | column :: _ => column + 1

def scalar? (s : Scanner) : Option Scanner := do
  let s ← s.rememberKey?
  let place := s.cursor.place
  let (plain, scanned) ←
    match s.cursor.rest with
    | '\'' :: rest => (singleQuoted? {} (place.forward 1) rest).map (false, ·)
    | '"' :: rest => (doubleQuoted? {} (place.forward 1) rest).map (false, ·)
    | rest =>
      if startsPlain s.inFlow rest then (plain? s.inFlow s.floor {} place rest).map (true, ·)
      else none
  return { s with
    tokens := .scalar plain scanned.text :: s.tokens
    cursor := scanned.after
    keyAllowed := scanned.newLine }

/-- Takes the token at the cursor. -/
def next? (s : Scanner) : Option Scanner :=
  match s.cursor.rest with
  | [] => none
  | c :: rest =>
    if s.column = 0 && isDocumentMark (c :: rest) then
      s.documentMark? (if c = '-' then .documentStart else .documentEnd)
    else if c = '[' then s.flowStart? .flowSequenceStart
    else if c = '\x7b' then s.flowStart? .flowMappingStart
    else if c = ']' then s.flowEnd? .flowSequenceEnd
    else if c = '\x7d' then s.flowEnd? .flowMappingEnd
    else if c = ',' then s.flowEntry?
    else if c = '-' && endsWord rest then s.blockEntry?
    else if c = '?' && (s.inFlow || endsWord rest) then s.explicitKey?
    else if c = ':' && (s.inFlow || endsWord rest) then s.value?
    else s.scalar?

/-- All tokens up to the end of the text; the fuel bounds their number. -/
def tokens? : Nat → Scanner → Option (List Token)
  | 0, _ => none
  | fuel + 1, s => do
    let s ← s.skip.dropStale?
    let s := s.closeBlocks (s.column < ·)
    if s.cursor.rest.isEmpty then
      let s ← s.closeAll.forgetKey?
      return s.tokens.reverse
    else tokens? fuel (← s.next?)

end Scanner

/-- The tokens of a text. Every token takes a character, so there is fuel enough. -/
def tokens? (chars : List Char) : Option (List Token) :=
  Scanner.tokens? (chars.length + 1) { cursor := ⟨chars, {}⟩ }

end QueryLowering.Yaml
