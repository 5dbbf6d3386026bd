import QueryLowering.Json.Source
import QueryLowering.Text.Character

/-! Reading JSON text. Each function takes one construct from the front of the characters and gives
back the rest. -/
namespace QueryLowering.Json

namespace Reader

def isSpace (c : Char) : Bool := c = ' ' || c = '\t' || c = '\n' || c = '\r'

def skipSpace (chars : List Char) : List Char := chars.dropWhile isSpace

def codeUnit? (a b c d : Char) : Option Nat := Text.numeral? 16 [a, b, c, d]

/-- The character that a letter behind a backslash stands for. -/
def unescape? : Char → Option Char
  | '"' => some '"'
  | '\\' => some '\\'
  | '/' => some '/'
  | 'b' => some '\x08'
  | 'f' => some '\x0c'
  | 'n' => some '\n'
  | 'r' => some '\r'
  | 't' => some '\t'
  | _ => none

/-- The units of a string behind its opening quote. -/
def stringBody? : List Char → Option (List Nat × List Char)
  | '"' :: rest => some ([], rest)
  | '\\' :: 'u' :: a :: b :: c :: d :: rest => do
    let unit ← codeUnit? a b c d
    let (units, rest) ← stringBody? rest
    some (unit :: units, rest)
  | '\\' :: c :: rest => do
    let char ← unescape? c
    let (units, rest) ← stringBody? rest
    some (char.toNat :: units, rest)
  | c :: rest =>
    if c.toNat < 0x20 then none
    else do
      let (units, rest) ← stringBody? rest
      some (Text.units16 c ++ units, rest)
  | [] => none

def digitsValue (digits : List Char) : Nat :=
  digits.foldl (fun n c => 10 * n + (c.toNat - '0'.toNat)) 0

/-- A run of at least one digit. -/
def digits? (chars : List Char) : Option (List Char × List Char) :=
  match chars.span Char.isDigit with
  | ([], _) => none
  | (digits, rest) => some (digits, rest)

/-- A sign of an exponent and its digits. -/
def exponent? : List Char → Option (Int × List Char)
  | '-' :: rest => do
    let (digits, rest) ← digits? rest
    some (-digitsValue digits, rest)
  | '+' :: rest => do
    let (digits, rest) ← digits? rest
    some (digitsValue digits, rest)
  | rest => do
    let (digits, rest) ← digits? rest
    some (digitsValue digits, rest)

def fractionPart? : List Char → Option (List Char × List Char)
  | '.' :: rest => digits? rest
  | rest => some ([], rest)

def exponentPart? : List Char → Option (Option Int × List Char)
  | 'e' :: rest | 'E' :: rest => do
    let (exponent, rest) ← exponent? rest
    some (some exponent, rest)
  | rest => some (none, rest)

/-- A number without its sign. A leading zero stands alone. -/
def unsigned? (negative : Bool) (chars : List Char) : Option (Number × List Char) := do
  let (whole, rest) ← digits? chars
  if whole.head? = some '0' ∧ 1 < whole.length then none
  else
    let (fraction, rest) ← fractionPart? rest
    let (exponent, rest) ← exponentPart? rest
    if fraction = [] ∧ exponent = none then
      let value := digitsValue whole
      if negative then
        some (if value = 0 then .decimal true 0 0 else .whole (-value), rest)
      else some (.whole value, rest)
    else
      some (.decimal negative (digitsValue (whole ++ fraction))
        (exponent.getD 0 - fraction.length), rest)

def number? : List Char → Option (Number × List Char)
  | '-' :: rest => unsigned? true rest
  | rest => unsigned? false rest

mutual
/-- A value; the fuel bounds the number of calls in progress. -/
def value? : Nat → List Char → Option (Source × List Char)
  | 0, _ => none
  | fuel + 1, chars =>
    match skipSpace chars with
    | 'n' :: 'u' :: 'l' :: 'l' :: rest => some (.null, rest)
    | 't' :: 'r' :: 'u' :: 'e' :: rest => some (.bool true, rest)
    | 'f' :: 'a' :: 'l' :: 's' :: 'e' :: rest => some (.bool false, rest)
    | '"' :: rest => do
      let (units, rest) ← stringBody? rest
      some (.string units, rest)
    | '[' :: rest =>
      match skipSpace rest with
      | ']' :: rest => some (.array [], rest)
      | _ => do
        let (items, rest) ← items? fuel rest
        some (.array items, rest)
    | '\x7b' :: rest =>
      match skipSpace rest with
      | '\x7d' :: rest => some (.object [], rest)
      | _ => do
        let (members, rest) ← members? fuel rest
        some (.object members, rest)
    | chars => do
      let (n, rest) ← number? chars
      some (.number n, rest)
/-- One or more values up to the closing bracket. -/
def items? : Nat → List Char → Option (List Source × List Char)
  | 0, _ => none
  | fuel + 1, chars => do
    let (item, rest) ← value? fuel chars
    match skipSpace rest with
    | ',' :: rest => do
      let (items, rest) ← items? fuel rest
      some (item :: items, rest)
    | ']' :: rest => some ([item], rest)
    | _ => none
/-- One or more members up to the closing brace. -/
def members? : Nat → List Char → Option (List (List Nat × Source) × List Char)
  | 0, _ => none
  | fuel + 1, chars =>
    match skipSpace chars with
    | '"' :: rest => do
      let (key, rest) ← stringBody? rest
      match skipSpace rest with
      | ':' :: rest => do
        let (item, rest) ← value? fuel rest
        match skipSpace rest with
        | ',' :: rest => do
          let (members, rest) ← members? fuel rest
          some ((key, item) :: members, rest)
        | '\x7d' :: rest => some ([(key, item)], rest)
        | _ => none
      | _ => none
    | _ => none
end

end Reader

open Reader in
/-- What the whole text is. Every call takes a character, so there is fuel enough. -/
def Source.read? (text : String) : Option Source := do
  let (s, rest) ← Reader.value? (text.length + 1) text.toList
  if skipSpace rest = [] then some s else none

/-- The value that the whole text denotes. -/
def read? (text : String) : Option Json := (Source.read? text).bind Source.value?

end QueryLowering.Json
