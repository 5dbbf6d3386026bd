/-! Characters: as digits of a numeral, as blanks, and as UTF-16 units. -/
namespace QueryLowering.Text

/-! ## Numerals: digits in a base, the highest first -/

/-- Letters of either case are the digits from ten on. -/
def digitValue? (c : Char) : Option Nat :=
  if c.isDigit then some (c.toNat - '0'.toNat)
  else if 'a' ≤ c ∧ c ≤ 'z' then some (c.toNat - 'a'.toNat + 10)
  else if 'A' ≤ c ∧ c ≤ 'Z' then some (c.toNat - 'A'.toNat + 10)
  else none

def digitIn? (base : Nat) (c : Char) : Option Nat :=
  (digitValue? c).filter (· < base)

/-- The value of one or more digits. -/
def numeral? (base : Nat) (digits : List Char) : Option Nat :=
  if digits.isEmpty then none
  else digits.foldlM (fun n c => (digitIn? base c).map (base * n + ·)) 0

example : numeral? 16 "fF0".toList = some 0xFF0 := by decide

example : numeral? 8 "18".toList = none := by decide

/-! ## Blanks: the White_Space property of Unicode, and text without its blank end -/

/-- Code points with the White_Space property, as closed ranges in ascending order. -/
def blankRanges : List (Nat × Nat) :=
  [(0x09, 0x0D), (0x20, 0x20), (0x85, 0x85), (0xA0, 0xA0), (0x1680, 0x1680), (0x2000, 0x200A),
    (0x2028, 0x2029), (0x202F, 0x202F), (0x205F, 0x205F), (0x3000, 0x3000)]

def isBlank (c : Char) : Bool :=
  blankRanges.any fun (first, last) => first ≤ c.toNat && c.toNat ≤ last

/-- The longest initial part that does not end in a blank. -/
def dropBlankEnd (chars : List Char) : List Char :=
  (chars.reverse.dropWhile isBlank).reverse

def trimEnd (text : String) : String := String.ofList (dropBlankEnd text.toList)

example : (blankRanges.map fun (first, last) => last + 1 - first).sum = 25 := by decide

/-! ## UTF-16 units

A character beyond the basic plane is a pair of surrogates, and a sequence of units is text only if
its surrogates are paired. -/

def units16 (c : Char) : List Nat :=
  if c.toNat < 0x10000 then [c.toNat]
  else [0xD800 + (c.toNat - 0x10000) / 0x400, 0xDC00 + (c.toNat - 0x10000) % 0x400]

def isHighSurrogate (unit : Nat) : Bool := 0xD800 ≤ unit && unit < 0xDC00

def isLowSurrogate (unit : Nat) : Bool := 0xDC00 ≤ unit && unit < 0xE000

def ofPair (high low : Nat) : Char :=
  Char.ofNat (0x10000 + 0x400 * (high - 0xD800) + (low - 0xDC00))

def ofUnits16? : List Nat → Option (List Char)
  | [] => some []
  | [unit] =>
    if isHighSurrogate unit || isLowSurrogate unit then none else some [Char.ofNat unit]
  | unit :: next :: rest =>
    if isLowSurrogate unit then none
    else if isHighSurrogate unit then
      if isLowSurrogate next then (ofUnits16? rest).map (ofPair unit next :: ·) else none
    else (ofUnits16? (next :: rest)).map (Char.ofNat unit :: ·)

theorem ofUnits16?_units16_append (c : Char) (rest : List Nat) :
    ofUnits16? (units16 c ++ rest) = (ofUnits16? rest).map (c :: ·) := by
  have hc : Char.ofNat c.toNat = c := Char.ofNat_toNat c
  have hv : c.toNat < 0xD800 ∨ (0xDFFF < c.toNat ∧ c.toNat < 0x110000) := c.valid
  by_cases h : c.toNat < 0x10000
  · have hh : isHighSurrogate c.toNat = false := by simp [isHighSurrogate]; omega
    have hl : isLowSurrogate c.toNat = false := by simp [isLowSurrogate]; omega
    cases rest <;> simp [units16, h, ofUnits16?, hh, hl, hc]
  · have hp : ofPair (0xD800 + (c.toNat - 0x10000) / 0x400) (0xDC00 + (c.toNat - 0x10000) % 0x400)
        = c := by
      rw [ofPair, show 0x10000 + 0x400 * (0xD800 + (c.toNat - 0x10000) / 0x400 - 0xD800) +
        (0xDC00 + (c.toNat - 0x10000) % 0x400 - 0xDC00) = c.toNat by omega, hc]
    have hh : isHighSurrogate (0xD800 + (c.toNat - 0x10000) / 0x400) = true := by
      simp [isHighSurrogate]; omega
    have hn : isLowSurrogate (0xD800 + (c.toNat - 0x10000) / 0x400) = false := by
      simp [isLowSurrogate]; omega
    have hl : isLowSurrogate (0xDC00 + (c.toNat - 0x10000) % 0x400) = true := by
      simp [isLowSurrogate]; omega
    simp [units16, h, ofUnits16?, hh, hn, hl, hp]

/-- Every text can be had back from its units. -/
theorem ofUnits16?_flatMap (chars : List Char) :
    ofUnits16? (chars.flatMap units16) = some chars := by
  induction chars with
  | nil => rfl
  | cons c cs ih => rw [List.flatMap_cons, ofUnits16?_units16_append, ih]; rfl

end QueryLowering.Text
