import QueryLowering.Text.Character

/-! YAML values, as far as settings need them. -/
namespace QueryLowering

/-- A scalar keeps whether it was written without quotes; only then may it be a number. -/
inductive Yaml where
  | scalar (plain : Bool) (text : String)
  | sequence (items : List Yaml)
  | mapping (entries : List (Yaml × Yaml))

namespace Yaml

/-- A value that was left out. -/
def absent : Yaml := .scalar true ""

/-- A natural number: decimal without a leading zero, or hexadecimal, octal or binary, behind at most
one plus sign. -/
def natural? (text : String) : Option Nat :=
  match text.toList with
  | '+' :: rest => unsigned? rest
  | rest => unsigned? rest
where
  unsigned? : List Char → Option Nat
    | '0' :: 'x' :: rest => Text.numeral? 16 rest
    | '0' :: 'o' :: rest => Text.numeral? 8 rest
    | '0' :: 'b' :: rest => Text.numeral? 2 rest
    | ['0'] => some 0
    | '0' :: _ => none
    | rest => Text.numeral? 10 rest

def string? : Yaml → Option String
  | scalar _ text => some text
  | _ => none

/-- A size is a natural number below `2 ^ 64`. -/
def size? : Yaml → Option Nat
  | scalar true text => do
    let n ← natural? text
    if n < UInt64.size then some n else none
  | _ => none

/-- The entries of a mapping; an absent value is an empty one. -/
def entries? : Yaml → Option (List (Yaml × Yaml))
  | mapping entries => some entries
  | scalar true "" => some []
  | _ => none

end Yaml

end QueryLowering
