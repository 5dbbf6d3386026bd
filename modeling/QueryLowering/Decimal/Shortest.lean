import QueryLowering.Decimal.Binary

/-! The shortest decimal that reads back as a given binary number. The decimals with a given last
place form a grid, and the answer lies on the coarsest grid that has a point in the interval of
reals that round to the number. All arithmetic is exact. -/
namespace QueryLowering.Decimal

/-- The number `value * 10 ^ exponent`. -/
structure Digits where
  value : Nat
  exponent : Int
  deriving DecidableEq, Repr

namespace Magnitude

/-- Of the two neighbours on the grid of multiples of `10 ^ place`, the nearer one that rounds to
`m`; the larger one if both are equally near. Lengths are in quarters of the unit of the mantissa,
multiplied by a common factor that makes them whole. -/
def onGrid? (m : Magnitude) (place : Int) : Option Nat :=
  let unit := Nat.pow 10 place.toNat <<< (2 - m.exponent).toNat
  let scale := Nat.pow 10 (-place).toNat <<< (m.exponent - 2).toNat
  let exact := 4 * m.mantissa * scale
  let low := (4 * m.mantissa - if m.narrowBelow then 1 else 2) * scale
  let high := (4 * m.mantissa + 2) * scale
  let inside (n : Nat) : Bool :=
    if m.mantissa % 2 = 0 then low ≤ n * unit && n * unit ≤ high
    else low < n * unit && n * unit < high
  let below := exact / unit
  match inside below, inside (below + 1) with
  | false, false => none
  | true, false => some below
  | false, true => some (below + 1)
  | true, true => some (if 2 * exact < (2 * below + 1) * unit then below else below + 1)

/-- Tries `fuel` places from `place` downward, and takes the next one without a test. -/
def shortestFrom (m : Magnitude) : Nat → Int → Digits
  | 0, place => ⟨(m.onGrid? place).getD 0, place⟩
  | fuel + 1, place =>
    match m.onGrid? place with
    | some n => ⟨n, place⟩
    | none => m.shortestFrom fuel (place - 1)

/-- No number of up to 64 bits reaches `10 ^ 309`, and none has neighbours closer than
`10 ^ -324`. -/
def shortest (m : Magnitude) : Digits := m.shortestFrom 632 308

end Magnitude

/-- Decimal places without an exponent, and without a point in a whole number. Zero has one digit,
whatever its exponent. -/
def Digits.positional (d : Digits) : String :=
  let digits := Nat.toDigits 10 d.value
  match d.exponent with
  | .ofNat zeros =>
    String.ofList (digits ++ List.replicate (if d.value = 0 then 0 else zeros) '0')
  | .negSucc n =>
    let places := n + 1
    if places < digits.length then
      String.ofList
        (digits.take (digits.length - places) ++ '.' :: digits.drop (digits.length - places))
    else
      String.ofList ('0' :: '.' :: (List.replicate (places - digits.length) '0' ++ digits))

end QueryLowering.Decimal
