import QueryLowering.Yaml.Token
import QueryLowering.Yaml.Value

/-! Reading YAML text that holds one document. -/
namespace QueryLowering.Yaml

/-- Where a node stands. -/
inductive Site where
  /-- A document, or an item of a block sequence. -/
  | item
  /-- A key or a value of a block mapping. A sequence there may be as little indented as its key. -/
  | member
  | flow

namespace Token

def endsItem : Token → Bool
  | blockEntry | key | value | blockEnd => true
  | _ => false

def endsMember : Token → Bool
  | key | value | blockEnd => true
  | _ => false

def endsFlow : Token → Bool
  | value | flowEntry | flowSequenceEnd | flowMappingEnd => true
  | _ => false

end Token

/-- A node that is left out if a token that ends it comes first. -/
def orAbsent? (ends : Token → Bool) (node : List Token → Option (Yaml × List Token)) :
    List Token → Option (Yaml × List Token)
  | [] => none
  | t :: ts => if ends t then some (absent, t :: ts) else node (t :: ts)

/-- The value of a key, which may be left out with its colon. -/
def valueOrAbsent? (ends : Token → Bool) (node : List Token → Option (Yaml × List Token)) :
    List Token → Option (Yaml × List Token)
  | .value :: ts => orAbsent? ends node ts
  | ts => some (absent, ts)

/-- In front of every item of flow structure but the first there is a comma. -/
def behindComma? (first : Bool) : List Token → Option (List Token)
  | .flowEntry :: ts => if first then some (.flowEntry :: ts) else some ts
  | ts => if first then some ts else none

mutual
/-- One node from the front of the tokens; the fuel bounds the number of calls in progress. -/
def node? : Nat → Site → List Token → Option (Yaml × List Token)
  | 0, _, _ => none
  | _, _, [] => none
  | fuel + 1, site, t :: ts =>
    match t, site with
    | .scalar plain text, _ => some (.scalar plain text, ts)
    | .flowSequenceStart, _ => do
      let (items, ts) ← flowItems? fuel true ts
      return (.sequence items, ts)
    | .flowMappingStart, _ => do
      let (entries, ts) ← flowEntries? fuel true ts
      return (.mapping entries, ts)
    | .blockEntry, .member => do
      let (items, ts) ← looseItems? fuel (t :: ts)
      return (.sequence items, ts)
    | .blockSequenceStart, .item | .blockSequenceStart, .member => do
      let (items, ts) ← blockItems? fuel ts
      return (.sequence items, ts)
    | .blockMappingStart, .item | .blockMappingStart, .member => do
      let (entries, ts) ← blockEntries? fuel ts
      return (.mapping entries, ts)
    | _, _ => none
def blockItems? : Nat → List Token → Option (List Yaml × List Token)
  | fuel + 1, .blockEntry :: ts => do
    let (item, ts) ← orAbsent? Token.endsItem (node? fuel .item) ts
    let (items, ts) ← blockItems? fuel ts
    return (item :: items, ts)
  | _ + 1, .blockEnd :: ts => some ([], ts)
  | _, _ => none
/-- The items of a sequence without indentation of its own, which ends where no item follows. -/
def looseItems? : Nat → List Token → Option (List Yaml × List Token)
  | 0, _ => none
  | fuel + 1, .blockEntry :: ts => do
    let (item, ts) ← orAbsent? Token.endsItem (node? fuel .item) ts
    let (items, ts) ← looseItems? fuel ts
    return (item :: items, ts)
  | _ + 1, ts => some ([], ts)
def blockEntries? : Nat → List Token → Option (List (Yaml × Yaml) × List Token)
  | fuel + 1, .key :: ts => do
    let (key, ts) ← orAbsent? Token.endsMember (node? fuel .member) ts
    let (value, ts) ← valueOrAbsent? Token.endsMember (node? fuel .member) ts
    let (entries, ts) ← blockEntries? fuel ts
    return ((key, value) :: entries, ts)
  | _ + 1, .blockEnd :: ts => some ([], ts)
  | _, _ => none
/-- The items up to the closing bracket. An item with a key is a mapping of one entry; if its key is
left out, so is the token behind. -/
def flowItems? : Nat → Bool → List Token → Option (List Yaml × List Token)
  | 0, _, _ => none
  | _ + 1, _, .flowSequenceEnd :: ts => some ([], ts)
  | fuel + 1, first, ts => do
    match ← behindComma? first ts with
    | .flowSequenceEnd :: ts => some ([], ts)
    | .key :: .value :: ts | .key :: .flowEntry :: ts | .key :: .flowSequenceEnd :: ts => do
      let (value, ts) ← valueOrAbsent? Token.endsFlow (node? fuel .flow) ts
      let (items, ts) ← flowItems? fuel false ts
      return (.mapping [(absent, value)] :: items, ts)
    | .key :: ts => do
      let (key, ts) ← node? fuel .flow ts
      let (value, ts) ← valueOrAbsent? Token.endsFlow (node? fuel .flow) ts
      let (items, ts) ← flowItems? fuel false ts
      return (.mapping [(key, value)] :: items, ts)
    | ts => do
      let (item, ts) ← node? fuel .flow ts
      let (items, ts) ← flowItems? fuel false ts
      return (item :: items, ts)
/-- The entries up to the closing brace. A node without a colon is a key without a value. -/
def flowEntries? : Nat → Bool → List Token → Option (List (Yaml × Yaml) × List Token)
  | 0, _, _ => none
  | _ + 1, _, .flowMappingEnd :: ts => some ([], ts)
  | fuel + 1, first, ts => do
    match ← behindComma? first ts with
    | .flowMappingEnd :: ts => some ([], ts)
    | .key :: ts => do
      let (key, ts) ← orAbsent? Token.endsFlow (node? fuel .flow) ts
      let (value, ts) ← valueOrAbsent? Token.endsFlow (node? fuel .flow) ts
      let (entries, ts) ← flowEntries? fuel false ts
      return ((key, value) :: entries, ts)
    | ts => do
      let (key, ts) ← node? fuel .flow ts
      let (entries, ts) ← flowEntries? fuel false ts
      return ((key, absent) :: entries, ts)
end

/-- The only document. It may be left out, and behind its opening mark its content may be. -/
def document? (tokens : List Token) : Option Yaml := do
  let content := node? (2 * tokens.length + 2) .item
  let (y, rest) ←
    match tokens with
    | [] | [.documentStart] => some (absent, [])
    | .documentStart :: .documentEnd :: rest => some (absent, rest)
    | .documentStart :: rest => content rest
    | _ => content tokens
  if rest.all (· = .documentEnd) then some y else none

/-- Line breaks of other systems are line feeds. -/
def normalize : List Char → List Char
  | '\r' :: '\n' :: rest => '\n' :: normalize rest
  | c :: rest =>
    (if c = '\r' ∨ c = Char.ofNat 0x85 then '\n' else c) :: normalize rest
  | [] => []

def isAllowed (c : Char) : Bool :=
  c = '\t' || c = '\n' || (0x20 ≤ c.toNat && c.toNat ≤ 0x7E) ||
    (0xA0 ≤ c.toNat && c.toNat ≠ 0xFFFE && c.toNat ≠ 0xFFFF)

/-- The value of the only document in the text. -/
def read? (text : String) : Option Yaml :=
  let chars := normalize text.toList
  if chars.all isAllowed then (tokens? chars).bind document? else none

end QueryLowering.Yaml
