/-! Binary floating-point words taken apart into a sign, a mantissa and a power of two. -/
namespace QueryLowering.Decimal

/-- The widths of the fraction and exponent fields of a word. -/
structure Format where
  fractionBits : Nat
  exponentBits : Nat
  deriving DecidableEq, Repr

def binary64 : Format := ⟨52, 11⟩

def binary32 : Format := ⟨23, 8⟩

/-- The positive number `mantissa * 2 ^ exponent`. `narrowBelow` says that the gap to the next
smaller number of the format is half of the gap to the next larger one. -/
structure Magnitude where
  mantissa : Nat
  exponent : Int
  narrowBelow : Bool
  deriving DecidableEq, Repr

inductive Unpacked where
  | nan
  | infinity (negative : Bool)
  | zero (negative : Bool)
  | finite (negative : Bool) (magnitude : Magnitude)
  deriving DecidableEq, Repr

def Format.unpack (f : Format) (word : Nat) : Unpacked :=
  let fraction := word % (1 <<< f.fractionBits)
  let power := (word >>> f.fractionBits) % (1 <<< f.exponentBits)
  let negative := (word >>> (f.fractionBits + f.exponentBits)) % 2 = 1
  let least : Int := 2 - (1 <<< (f.exponentBits - 1) : Nat) - f.fractionBits
  if power = (1 <<< f.exponentBits) - 1 then
    if fraction = 0 then .infinity negative else .nan
  else if power = 0 then
    if fraction = 0 then .zero negative else .finite negative ⟨fraction, least, false⟩
  else
    .finite negative
      ⟨(1 <<< f.fractionBits) + fraction, least + (power - 1 : Nat), fraction = 0 && 1 < power⟩

end QueryLowering.Decimal
