import QueryLowering.Json.Value
import QueryLowering.Text.Character

/-! JSON text without blanks. -/
namespace QueryLowering.Json

/-- The escape of a UTF-16 unit by four hexadecimal digits. -/
def escapeUnit (unit : Nat) : List Char :=
  '\\' :: 'u' :: [unit / 0x1000, unit / 0x100 % 16, unit / 16 % 16, unit % 16].map Nat.digitChar

/-- Quotes, backslashes and control characters are escaped, the common ones by a letter. -/
def escapeChar (c : Char) : List Char :=
  if c = '"' then ['\\', '"']
  else if c = '\\' then ['\\', '\\']
  else if c = '\n' then ['\\', 'n']
  else if c = '\r' then ['\\', 'r']
  else if c = '\t' then ['\\', 't']
  else if c = '\x08' then ['\\', 'b']
  else if c = '\x0c' then ['\\', 'f']
  else if c.toNat < 0x20 then escapeUnit c.toNat
  else [c]

def quote (text : String) : String :=
  "\"" ++ String.ofList (text.toList.flatMap escapeChar) ++ "\""

/-- A decimal is written with a point, so that it does not read as a whole number. -/
def Number.text : Number → String
  | whole value => toString value
  | decimal negative digits exponent =>
    let text := Decimal.Digits.positional ⟨digits, exponent⟩
    (if negative then "-" else "") ++ (if 0 ≤ exponent then text ++ ".0" else text)

mutual
def render : Json → String
  | null => "null"
  | bool true => "true"
  | bool false => "false"
  | number value => value.text
  | string value => quote value
  | array items => "[" ++ ",".intercalate (renderItems items) ++ "]"
  | object members => "\x7b" ++ ",".intercalate (renderMembers members) ++ "\x7d"
def renderItems : List Json → List String
  | [] => []
  | j :: js => render j :: renderItems js
def renderMembers : List (String × Json) → List String
  | [] => []
  | (key, j) :: ms => (quote key ++ ":" ++ render j) :: renderMembers ms
end

/-- A character beyond ASCII becomes the escapes of its UTF-16 units. -/
def asciiChar (c : Char) : List Char :=
  if c.toNat < 0x80 then [c] else (Text.units16 c).flatMap escapeUnit

/-- The same value in ASCII. Other characters occur in strings only, so each can be escaped. -/
def renderAscii (j : Json) : String := String.ofList (j.render.toList.flatMap asciiChar)

example : (string "é\n😀").renderAscii = "\"\\u00e9\\n\\ud83d\\ude00\"" := by decide +kernel

end QueryLowering.Json
