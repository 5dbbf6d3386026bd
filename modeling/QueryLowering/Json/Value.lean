import QueryLowering.Decimal.Shortest

/-! JSON values. Objects keep their members as they were written, repeated keys included. -/
namespace QueryLowering

/-- A number as it was written: a whole number, or `digits * 10 ^ exponent` when there is a fraction
or an exponent. Zero with a minus sign is of the second kind. -/
inductive Json.Number where
  | whole (value : Int)
  | decimal (negative : Bool) (digits : Nat) (exponent : Int)
  deriving DecidableEq, Repr

inductive Json where
  | null
  | bool (value : Bool)
  | number (value : Json.Number)
  | string (value : String)
  | array (items : List Json)
  | object (members : List (String × Json))

namespace Json

/-- Rounds to the nearest binary64 number. A decimal exponent far outside of the range decides alone. -/
def Number.toFloat : Number → Float
  | whole value => if value < 0 then -magnitude value.natAbs 0 else magnitude value.natAbs 0
  | decimal negative digits exponent =>
    if negative then -magnitude digits exponent else magnitude digits exponent
where
  magnitude (digits : Nat) (exponent : Int) : Float :=
    let size := exponent + (Nat.toDigits 10 digits).length
    if digits = 0 ∨ size < -400 then 0
    else if 400 < size then Float.ofScientific 1 false 400
    else Float.ofScientific digits (exponent < 0) exponent.natAbs

/-- Halfway between the largest binary64 number and the power of two above it. -/
def Number.overflow : Nat := ((1 <<< 54) - 1) <<< 970

/-- Whether the nearest binary64 number is finite. The bound has 309 digits, so most decimals are
decided by their size. -/
def Number.isFinite : Number → Bool
  | whole value => value.natAbs < overflow
  | decimal _ digits exponent =>
    let size := exponent + (Nat.toDigits 10 digits).length
    digits = 0 || size < 309 || (size = 309 &&
      digits * Nat.pow 10 exponent.toNat < overflow * Nat.pow 10 (-exponent).toNat)

/-- A whole number of at most 64 bits is rounded to binary32 at once, any other by way of binary64. -/
def Number.toFloat32 (n : Number) : Float32 :=
  match n with
  | whole value =>
    if Int64.minValue.toInt ≤ value ∧ value < UInt64.size then Float32.ofInt value
    else n.toFloat.toFloat32
  | decimal _ _ _ => n.toFloat.toFloat32

def int (value : Int) : Json := .number (.whole value)

def nat (value : Nat) : Json := int value

def ofOption {α : Type} (f : α → Json) : Option α → Json
  | none => .null
  | some a => f a

/-- The shortest decimal that reads back. JSON has no other numbers, so the rest is `null`. -/
def ofUnpacked : Decimal.Unpacked → Json
  | .nan | .infinity _ => .null
  | .zero negative => .number (.decimal negative 0 0)
  | .finite negative m => .number (.decimal negative m.shortest.value m.shortest.exponent)

def ofFloat (x : Float) : Json := ofUnpacked (Decimal.binary64.unpack x.toBits.toNat)

def ofFloat32 (x : Float32) : Json := ofUnpacked (Decimal.binary32.unpack x.toBits.toNat)

mutual
/-- The number of levels of arrays and objects. -/
def height : Json → Nat
  | array items => 1 + heights items
  | object members => 1 + memberHeights members
  | _ => 0
def heights : List Json → Nat
  | [] => 0
  | j :: js => max (height j) (heights js)
def memberHeights : List (String × Json) → Nat
  | [] => 0
  | (_, j) :: ms => max (height j) (memberHeights ms)
end

end Json

end QueryLowering
