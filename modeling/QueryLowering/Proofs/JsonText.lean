import Mathlib.Data.List.Forall2
import Mathlib.Data.List.TakeDrop
import QueryLowering.Json.Printer
import QueryLowering.Json.Reader

/-! Every printed value is read again, as it is written: a whole number as itself, and a decimal with
the places that were printed. A printed value contains no blanks, and what comes after it can lengthen
it only if it is a number; so it is read in front of any text that does not go on with one. -/
namespace QueryLowering.Json

namespace Reader

theorem skipSpace_cons {c : Char} (solid : isSpace c = false) (rest : List Char) :
    skipSpace (c :: rest) = c :: rest := by
  simp [skipSpace,solid]

/-! ### Strings -/

theorem codeUnit?_escapeUnit {unit : Nat} (small : unit < 0x10000) :
    codeUnit? (unit / 0x1000).digitChar (unit / 0x100 % 16).digitChar (unit / 16 % 16).digitChar
      (unit % 16).digitChar = some unit := by
  have digit : ∀ d < 16, Text.digitIn? 16 (Nat.digitChar d) = some d := by decide
  have value : 16 * (16 * (16 * (unit / 0x1000) + unit / 0x100 % 16) + unit / 16 % 16) +
      unit % 16 = unit := by
    omega
  simp only [codeUnit?,Text.numeral?,List.isEmpty_cons,Bool.false_eq_true,if_false,
    List.foldlM_cons,List.foldlM_nil,digit (unit / 0x1000) (by omega),
    digit (unit / 0x100 % 16) (by omega),digit (unit / 16 % 16) (by omega),
    digit (unit % 16) (by omega),Option.map_some,Option.bind_eq_bind,Option.bind_some,Nat.mul_zero,
    Nat.zero_add,value]
  rfl

theorem stringBody?_letter {letter c : Char} (meaning : unescape? letter = some c)
    (rest : List Char) :
    stringBody? ('\\' :: letter :: rest) =
      (stringBody? rest).map fun (units, rest) => (Text.units16 c ++ units, rest) := by
  unfold unescape? at meaning
  split at meaning <;> cases meaning <;> cases body : stringBody? rest <;>
    simp [stringBody?,unescape?,Text.units16,body]

theorem stringBody?_plain {c : Char} (quote : c ≠ '"') (backslash : c ≠ '\\')
    (visible : ¬c.toNat < 0x20) (rest : List Char) :
    stringBody? (c :: rest) =
      (stringBody? rest).map fun (units, rest) => (Text.units16 c ++ units, rest) := by
  cases body : stringBody? rest <;> simp [stringBody?,backslash,visible,body]

/-- What a character was escaped to is read as its units. -/
theorem stringBody?_escapeChar (c : Char) (rest : List Char) :
    stringBody? (escapeChar c ++ rest) =
      (stringBody? rest).map fun (units, rest) => (Text.units16 c ++ units, rest) := by
  unfold escapeChar
  split_ifs with quote backslash newline carriage tab back feed control
  · subst quote; exact stringBody?_letter rfl rest
  · subst backslash; exact stringBody?_letter rfl rest
  · subst newline; exact stringBody?_letter rfl rest
  · subst carriage; exact stringBody?_letter rfl rest
  · subst tab; exact stringBody?_letter rfl rest
  · subst back; exact stringBody?_letter rfl rest
  · subst feed; exact stringBody?_letter rfl rest
  · have unit := @codeUnit?_escapeUnit c.toNat (by omega)
    have single : Text.units16 c = [c.toNat] := by rw [Text.units16,if_pos (by omega)]
    simp only [escapeUnit,List.map_cons,List.map_nil,List.cons_append,List.nil_append,stringBody?,
      unit,single]
    cases stringBody? rest <;> rfl
  · exact stringBody?_plain quote backslash control rest

theorem stringBody?_quote (text : String) (rest : List Char) :
    stringBody? (text.toList.flatMap escapeChar ++ '"' :: rest) =
      some (text.toList.flatMap Text.units16, rest) := by
  induction text.toList with
  | nil => rfl
  | cons c cs ih =>
    rw [List.flatMap_cons,List.append_assoc,stringBody?_escapeChar,ih]
    simp

/-! ### Numbers -/

/-- The text does not go on with a number in front of it. -/
def EndsNumber (rest : List Char) : Prop :=
  ∀ c ∈ rest.head?, c.isDigit = false ∧ c ≠ '.' ∧ c ≠ 'e' ∧ c ≠ 'E'

theorem endsNumber_mark {c : Char} (mark : c ∈ [',', ']', '\x7d']) (rest : List Char) :
    EndsNumber (c :: rest) := by
  simp only [List.mem_cons,List.not_mem_nil,or_false] at mark
  rcases mark with rfl | rfl | rfl <;> simp [EndsNumber]

theorem exponentPart?_none {rest : List Char} (ends : EndsNumber rest) :
    exponentPart? rest = some (none, rest) := by
  cases rest with
  | nil => rfl
  | cons c cs => simp [exponentPart?,(ends c rfl).2.2.1,(ends c rfl).2.2.2]

/-- One or more digits. -/
structure IsDigits (chars : List Char) : Prop where
  nonempty : chars ≠ []
  digits : ∀ c ∈ chars, c.isDigit = true

theorem IsDigits.toDigits (n : Nat) : IsDigits (Nat.toDigits 10 n) :=
  ⟨Nat.toDigits_ne_nil, fun _ member => Nat.isDigit_of_mem_toDigits (by decide) (by decide) member⟩

theorem IsDigits.zeros {zeros : Nat} {chars : List Char} (isDigits : IsDigits chars) :
    IsDigits (List.replicate zeros '0' ++ chars) ∧ IsDigits (chars ++ List.replicate zeros '0') := by
  obtain ⟨nonempty, digits⟩ := isDigits
  have all : ∀ c ∈ List.replicate zeros '0', c.isDigit = true := by
    intro c member
    rw [List.eq_of_mem_replicate member]
    rfl
  constructor
  · exact ⟨by simp [nonempty], List.forall_mem_append.mpr ⟨all, digits⟩⟩
  · exact ⟨by simp [nonempty], List.forall_mem_append.mpr ⟨digits, all⟩⟩

theorem IsDigits.eq_cons {chars : List Char} (isDigits : IsDigits chars) :
    ∃ c cs, chars = c :: cs ∧ c.isDigit = true := by
  cases chars with
  | nil => exact absurd rfl isDigits.nonempty
  | cons c cs => exact ⟨c, cs, rfl, isDigits.digits c List.mem_cons_self⟩

/-- A run of digits is taken as far as it goes. -/
theorem digits?_append {chars rest : List Char} (isDigits : IsDigits chars)
    (ends : ∀ c ∈ rest.head?, c.isDigit = false) :
    digits? (chars ++ rest) = some (chars, rest) := by
  have stop : rest.takeWhile Char.isDigit = [] ∧ rest.dropWhile Char.isDigit = rest := by
    cases rest with
    | nil => simp
    | cons c cs => simp [ends c rfl]
  have taken : (chars ++ rest).span Char.isDigit = (chars, rest) := by
    rw [List.span_eq_takeWhile_dropWhile,List.takeWhile_append_of_pos isDigits.digits,
      List.dropWhile_append_of_pos isDigits.digits,stop.1,stop.2,List.append_nil]
  obtain ⟨c, cs, rfl, -⟩ := isDigits.eq_cons
  rw [digits?,taken]

theorem digitsValue_append (chars more : List Char) :
    digitsValue (chars ++ more) =
      more.foldl (fun n c => 10 * n + (c.toNat - '0'.toNat)) (digitsValue chars) :=
  List.foldl_append

theorem digitsValue_toDigits (n : Nat) : digitsValue (Nat.toDigits 10 n) = n := by
  have value := Nat.ofDigitChars_ten_toDigits (n := n)
  rwa [Nat.ofDigitChars_eq_foldl] at value

theorem digitsValue_zeros_append (zeros : Nat) (chars : List Char) :
    digitsValue (List.replicate zeros '0' ++ chars) = digitsValue chars := by
  induction zeros with
  | zero => rfl
  | succ zeros ih =>
    rw [← ih]
    rfl

theorem digitsValue_append_zeros (chars : List Char) (zeros : Nat) :
    digitsValue (chars ++ List.replicate zeros '0') = digitsValue chars * Nat.pow 10 zeros := by
  induction zeros with
  | zero => rw [List.replicate_zero,List.append_nil,Nat.pow,Nat.mul_one]
  | succ zeros ih =>
    have power : Nat.pow 10 (zeros + 1) = Nat.pow 10 zeros * 10 := rfl
    rw [List.replicate_succ',← List.append_assoc,digitsValue_append,ih,power,← Nat.mul_assoc]
    exact Nat.mul_comm 10 _

/-- Digits in front of the point: a leading zero stands alone. -/
structure IsNumeral (chars : List Char) : Prop extends IsDigits chars where
  leading : ¬(chars.head? = some '0' ∧ 1 < chars.length)

/-- Only zero is written with a leading zero. -/
theorem eq_zero_of_head_toDigits {n : Nat} (leading : (Nat.toDigits 10 n).head? = some '0') :
    n = 0 := by
  induction n using Nat.strongRecOn with
  | ind n ih =>
    rw [Nat.toDigits_eq_if (by decide)] at leading
    split_ifs at leading with small
    · have all : ∀ d < 10, Nat.digitChar d = '0' → d = 0 := by decide
      exact all n small (by simpa using leading)
    · rw [List.head?_append_of_ne_nil _ Nat.toDigits_ne_nil] at leading
      have := ih (n / 10) (by omega) leading
      omega

theorem IsNumeral.zero : IsNumeral ['0'] := ⟨.toDigits 0, by simp⟩

theorem IsNumeral.toDigits (n : Nat) : IsNumeral (Nat.toDigits 10 n) := by
  refine ⟨.toDigits n, fun ⟨zero, long⟩ => ?_⟩
  rw [eq_zero_of_head_toDigits zero] at long
  exact absurd long (by decide)

/-- What begins like the digits of a number that is not zero has no leading zero. -/
theorem IsNumeral.of_head {n : Nat} {chars : List Char} (positive : n ≠ 0)
    (isDigits : IsDigits chars) (same : chars.head? = (Nat.toDigits 10 n).head?) :
    IsNumeral chars := by
  refine ⟨isDigits, fun leading => positive ?_⟩
  exact eq_zero_of_head_toDigits (same.symm.trans leading.1)

theorem unsigned?_whole (negative : Bool) {whole rest : List Char} (numeral : IsNumeral whole)
    (ends : EndsNumber rest) :
    unsigned? negative (whole ++ rest) =
      if negative then
        some (if digitsValue whole = 0 then .decimal true 0 0 else .whole (-digitsValue whole), rest)
      else some (.whole (digitsValue whole), rest) := by
  have digits := digits?_append numeral.toIsDigits fun c member => (ends c member).1
  have fraction : fractionPart? rest = some ([], rest) := by
    cases rest with
    | nil => rfl
    | cons c cs => simp [fractionPart?,(ends c rfl).2.1]
  simp only [unsigned?,digits,Option.bind_eq_bind,Option.bind_some,if_neg numeral.leading,fraction,
    exponentPart?_none ends,and_self,if_true]

theorem unsigned?_fraction (negative : Bool) {whole fraction rest : List Char}
    (numeral : IsNumeral whole) (places : IsDigits fraction) (ends : EndsNumber rest) :
    unsigned? negative (whole ++ '.' :: (fraction ++ rest)) =
      some (.decimal negative (digitsValue (whole ++ fraction)) (-fraction.length), rest) := by
  have point : ∀ c ∈ ('.' :: (fraction ++ rest)).head?, c.isDigit = false := by
    intro c member
    cases member
    rfl
  have digits := digits?_append numeral.toIsDigits point
  have behind : fractionPart? ('.' :: (fraction ++ rest)) = some (fraction, rest) :=
    digits?_append places fun c member => (ends c member).1
  simp only [unsigned?,digits,Option.bind_eq_bind,Option.bind_some,if_neg numeral.leading,behind,
    exponentPart?_none ends,places.nonempty,false_and,if_false,Option.getD_none,Int.zero_sub]

theorem ne_of_isDigit {c other : Char} (digit : c.isDigit = true) (not : other.isDigit = false) :
    c ≠ other := by
  rintro rfl
  rw [digit] at not
  cases not

/-- The sign in front of a number. -/
def sign (negative : Bool) : List Char := if negative then ['-'] else []

theorem number?_sign (negative : Bool) {whole : List Char} (isDigits : IsDigits whole)
    (rest : List Char) :
    number? (sign negative ++ (whole ++ rest)) = unsigned? negative (whole ++ rest) := by
  cases negative with
  | true => rfl
  | false =>
    obtain ⟨c, cs, rfl, digit⟩ := isDigits.eq_cons
    have unsigned : c ≠ '-' := ne_of_isDigit digit rfl
    simp [sign,number?,unsigned]

end Reader

/-- The number as the printed text has it. A decimal is printed with at least one place. -/
def Number.printed : Number → Number
  | whole value => .whole value
  | decimal negative digits (.ofNat zeros) =>
    .decimal negative (digits * Nat.pow 10 (zeros + 1)) (-1)
  | decimal negative digits (.negSucc n) => .decimal negative digits (.negSucc n)

namespace Reader

theorem text_whole (value : Int) :
    (Number.whole value).text.toList = sign (value < 0) ++ Nat.toDigits 10 value.natAbs := by
  rw [Number.text,Int.toString_eq_repr,Int.repr_eq_if]
  split_ifs with nonnegative
  · have size : value.toNat = value.natAbs := by omega
    simp [sign,nonnegative,Nat.repr_eq_ofList_toDigits,size]
  · have size : (-value).toNat = value.natAbs := by omega
    simp [sign,Int.not_le.mp nonnegative,Nat.repr_eq_ofList_toDigits,size]

/-- Zeros make up for a positive exponent. -/
theorem positional_ofNat (digits zeros : Nat) :
    let chars := (Decimal.Digits.positional ⟨digits, .ofNat zeros⟩).toList
    IsNumeral chars ∧ digitsValue chars = digits * Nat.pow 10 zeros := by
  intro chars
  have value := digitsValue_toDigits digits
  by_cases zero : digits = 0
  · have text : chars = Nat.toDigits 10 digits := by
      simp [chars,Decimal.Digits.positional,zero]
    rw [text,value,zero,Nat.zero_mul]
    exact ⟨.toDigits 0, rfl⟩
  · have text : chars = Nat.toDigits 10 digits ++ List.replicate zeros '0' := by
      simp [chars,Decimal.Digits.positional,zero]
    rw [text,digitsValue_append_zeros,value]
    exact ⟨.of_head zero (IsDigits.toDigits digits).zeros.2
      (List.head?_append_of_ne_nil _ Nat.toDigits_ne_nil), rfl⟩

/-- A negative exponent puts the point so many places before the end. -/
theorem positional_negSucc (digits n : Nat) :
    ∃ whole fraction, IsNumeral whole ∧ IsDigits fraction ∧
      (Decimal.Digits.positional ⟨digits, .negSucc n⟩).toList = whole ++ '.' :: fraction ∧
      digitsValue (whole ++ fraction) = digits ∧ fraction.length = n + 1 := by
  have value := digitsValue_toDigits digits
  have isDigits := IsDigits.toDigits digits
  by_cases short : n + 1 < (Nat.toDigits 10 digits).length
  · let front := (Nat.toDigits 10 digits).length - (n + 1)
    have positive : digits ≠ 0 := by
      rintro rfl
      simp at short
    refine ⟨(Nat.toDigits 10 digits).take front, (Nat.toDigits 10 digits).drop front,
      .of_head positive ⟨?_, fun c member => isDigits.digits c (List.mem_of_mem_take member)⟩ ?_,
      ⟨?_, fun c member => isDigits.digits c (List.mem_of_mem_drop member)⟩, ?_, ?_, ?_⟩
    · rw [ne_eq,List.take_eq_nil_iff,not_or]
      exact ⟨by omega, isDigits.nonempty⟩
    · rw [List.head?_take,if_neg (by omega)]
    · rw [ne_eq,List.drop_eq_nil_iff]
      omega
    · simp [Decimal.Digits.positional,if_pos short,front]
    · rw [List.take_append_drop,value]
    · rw [List.length_drop]
      omega
  · refine ⟨['0'], List.replicate (n + 1 - (Nat.toDigits 10 digits).length) '0' ++
      Nat.toDigits 10 digits, .zero, isDigits.zeros.1, ?_, ?_, ?_⟩
    · simp [Decimal.Digits.positional,if_neg short]
    · rw [← List.append_assoc,List.singleton_append,← List.replicate_succ,
        digitsValue_zeros_append,value]
    · rw [List.length_append,List.length_replicate,Nat.sub_add_cancel (Nat.not_lt.mp short)]

/-- A decimal is printed with digits on both sides of a point. -/
theorem text_decimal (negative : Bool) (digits : Nat) (exponent : Int) :
    ∃ whole fraction, IsNumeral whole ∧ IsDigits fraction ∧
      (Number.decimal negative digits exponent).text.toList =
        sign negative ++ (whole ++ '.' :: fraction) ∧
      (Number.decimal negative digits exponent).printed =
        .decimal negative (digitsValue (whole ++ fraction)) (-fraction.length) := by
  have signed (text : String) :
      ((if negative then "-" else "") ++ text).toList = sign negative ++ text.toList := by
    cases negative <;> simp [sign]
  cases exponent with
  | ofNat zeros =>
    obtain ⟨numeral, value⟩ := positional_ofNat digits zeros
    have nonnegative : (0 : Int) ≤ .ofNat zeros := Int.natCast_nonneg zeros
    refine ⟨_, ['0'], numeral, .toDigits 0, ?_, ?_⟩
    · rw [Number.text,signed,if_pos nonnegative,String.toList_append]
      rfl
    · rw [show ['0'] = List.replicate 1 '0' from rfl,digitsValue_append_zeros,value,Nat.mul_assoc]
      rfl
  | negSucc n =>
    obtain ⟨whole, fraction, numeral, places, text, value, length⟩ := positional_negSucc digits n
    refine ⟨whole, fraction, numeral, places, ?_, ?_⟩
    · rw [Number.text,signed,if_neg (by simp),text]
    · rw [value,length]
      rfl

/-- A printed number is taken whole. -/
theorem number?_text (n : Number) {rest : List Char} (ends : EndsNumber rest) :
    number? (n.text.toList ++ rest) = some (n.printed, rest) := by
  cases n with
  | whole value =>
    rw [text_whole,List.append_assoc,number?_sign _ (.toDigits _),
      unsigned?_whole _ (.toDigits _) ends,digitsValue_toDigits]
    by_cases negative : value < 0
    · have same : -(value.natAbs : Int) = value := by omega
      rw [if_pos (by simpa using negative),if_neg (by omega),same]
      rfl
    · have same : (value.natAbs : Int) = value := by omega
      rw [if_neg (by simpa using negative),same]
      rfl
  | decimal negative digits exponent =>
    obtain ⟨whole, fraction, numeral, places, text, printed⟩ :=
      text_decimal negative digits exponent
    rw [text,printed,List.append_assoc,List.append_assoc,List.cons_append,
      number?_sign _ numeral.toIsDigits,unsigned?_fraction _ numeral places ends]

theorem text_start (n : Number) :
    ∃ c chars, n.text.toList = c :: chars ∧ (c = '-' ∨ c.isDigit = true) := by
  have begins {whole : List Char} (negative : Bool) (isDigits : IsDigits whole) (more : List Char) :
      ∃ c chars, sign negative ++ (whole ++ more) = c :: chars ∧ (c = '-' ∨ c.isDigit = true) := by
    cases negative with
    | true => exact ⟨'-', _, rfl, .inl rfl⟩
    | false =>
      obtain ⟨c, cs, rfl, digit⟩ := isDigits.eq_cons
      exact ⟨c, cs ++ more, rfl, .inr digit⟩
  cases n with
  | whole value =>
    have start := begins (value < 0) (.toDigits value.natAbs) []
    rwa [List.append_nil,← text_whole] at start
  | decimal negative digits exponent =>
    obtain ⟨whole, fraction, numeral, -, text, -⟩ := text_decimal negative digits exponent
    rw [text]
    exact begins negative numeral.toIsDigits _

/-! ### Values -/

/-- What begins like a number can be nothing else. -/
theorem value?_number (fuel : Nat) {c : Char} (start : c = '-' ∨ c.isDigit = true)
    (chars : List Char) :
    value? (fuel + 1) (c :: chars) =
      (number? (c :: chars)).map fun (n, rest) => (.number n, rest) := by
  have other {d : Char} (sign : '-' ≠ d) (not : d.isDigit = false) : c ≠ d := by
    rcases start with rfl | digit
    · exact sign
    · exact ne_of_isDigit digit not
  have solid : isSpace c = false := by
    by_contra space
    simp only [isSpace,Bool.not_eq_false,Bool.or_eq_true,decide_eq_true_eq] at space
    rcases space with ((rfl | rfl) | rfl) | rfl <;> simp at start
  rw [value?,skipSpace_cons solid]
  split
  case h_7 => cases number? (c :: chars) <;> rfl
  all_goals exact absurd (List.cons.inj ‹c :: chars = _›).1 (other (by decide) rfl)

theorem quote_append (text : String) (rest : List Char) :
    (quote text).toList ++ rest = '"' :: (text.toList.flatMap escapeChar ++ '"' :: rest) := by
  simp [quote]

theorem value?_string (fuel : Nat) (text : String) (rest : List Char) :
    value? (fuel + 1) ((quote text).toList ++ rest) =
      some (.string (text.toList.flatMap Text.units16), rest) := by
  rw [quote_append,value?,skipSpace_cons rfl]
  simp [stringBody?_quote]

/-- A closing bracket does not start an item. -/
theorem items?_closing (fuel : Nat) {chars rest : List Char}
    (closing : skipSpace chars = ']' :: rest) : items? fuel chars = none := by
  match fuel with
  | 0 => rw [items?]
  | 1 => simp [items?,value?]
  | fuel + 2 =>
    have refused : value? (fuel + 1) chars = none := by
      rw [value?,closing]
      rfl
    rw [items?,refused]
    rfl

theorem value?_array {fuel : Nat} {chars rest : List Char} {items : List Source}
    (read : items? fuel chars = some (items, rest)) :
    value? (fuel + 1) ('[' :: chars) = some (.array items, rest) := by
  simp only [value?,skipSpace_cons (c := '[') rfl]
  split
  -- An empty array is told by its closing bracket, with which no items begin.
  · rw [items?_closing fuel ‹_›] at read
    cases read
  · simp [read]

theorem items?_last {fuel : Nat} {chars rest : List Char} {item : Source}
    (read : value? fuel chars = some (item, ']' :: rest)) :
    items? (fuel + 1) chars = some ([item], rest) := by
  simp [items?,read,skipSpace_cons (c := ']') rfl]

theorem items?_more {fuel : Nat} {chars more rest : List Char} {item : Source} {items : List Source}
    (read : value? fuel chars = some (item, ',' :: more))
    (others : items? fuel more = some (items, rest)) :
    items? (fuel + 1) chars = some (item :: items, rest) := by
  simp [items?,read,skipSpace_cons (c := ',') rfl,others]

/-- Nor does a closing brace start a member. -/
theorem members?_closing (fuel : Nat) {chars rest : List Char}
    (closing : skipSpace chars = '\x7d' :: rest) : members? fuel chars = none := by
  cases fuel with
  | zero => rw [members?]
  | succ fuel =>
    rw [members?,closing]
    rfl

theorem value?_object {fuel : Nat} {chars rest : List Char} {members : List (List Nat × Source)}
    (read : members? fuel chars = some (members, rest)) :
    value? (fuel + 1) ('\x7b' :: chars) = some (.object members, rest) := by
  simp only [value?,skipSpace_cons (c := '\x7b') rfl]
  split
  · rw [members?_closing fuel ‹_›] at read
    cases read
  · simp [read]

theorem members?_last {fuel : Nat} {key : String} {chars rest : List Char} {item : Source}
    (read : value? fuel chars = some (item, '\x7d' :: rest)) :
    members? (fuel + 1) ((quote key).toList ++ ':' :: chars) =
      some ([(key.toList.flatMap Text.units16, item)], rest) := by
  rw [quote_append,members?,skipSpace_cons rfl]
  simp [stringBody?_quote,read,skipSpace_cons (c := ':') rfl,skipSpace_cons (c := '\x7d') rfl]

theorem members?_more {fuel : Nat} {key : String} {chars more rest : List Char} {item : Source}
    {members : List (List Nat × Source)} (read : value? fuel chars = some (item, ',' :: more))
    (others : members? fuel more = some (members, rest)) :
    members? (fuel + 1) ((quote key).toList ++ ':' :: chars) =
      some ((key.toList.flatMap Text.units16, item) :: members, rest) := by
  rw [quote_append,members?,skipSpace_cons rfl]
  simp [stringBody?_quote,read,others,skipSpace_cons (c := ':') rfl,skipSpace_cons (c := ',') rfl]

end Reader

theorem Source.text?_units (text : String) :
    Source.text? (text.toList.flatMap Text.units16) = some text := by
  simp [Source.text?,Text.ofUnits16?_flatMap]

mutual
/-- What the printed value is as a source. -/
def source : Json → Source
  | null => .null
  | bool value => .bool value
  | number value => .number value.printed
  | string value => .string (value.toList.flatMap Text.units16)
  | array items => .array (sources items)
  | object members => .object (memberSources members)
def sources : List Json → List Source
  | [] => []
  | j :: js => source j :: sources js
def memberSources : List (String × Json) → List (List Nat × Source)
  | [] => []
  | (key, j) :: ms => (key.toList.flatMap Text.units16, source j) :: memberSources ms
end

theorem sources_eq (items : List Json) : sources items = items.map source := by
  induction items with
  | nil => rfl
  | cons j js ih => rw [sources,ih,List.map_cons]

theorem memberSources_eq (members : List (String × Json)) :
    memberSources members =
      members.map fun m => (m.1.toList.flatMap Text.units16, m.2.source) := by
  induction members with
  | nil => rfl
  | cons m ms ih => rw [memberSources,ih,List.map_cons]

theorem renderItems_eq (items : List Json) : renderItems items = items.map render := by
  induction items with
  | nil => rfl
  | cons j js ih => rw [renderItems,ih,List.map_cons]

theorem renderMembers_eq (members : List (String × Json)) :
    renderMembers members = members.map fun m => quote m.1 ++ ":" ++ render m.2 := by
  induction members with
  | nil => rfl
  | cons m ms ih => rw [renderMembers,ih,List.map_cons]

/-- Induction over values, with the hypothesis for every item of an array and every member of an
object. -/
@[elab_as_elim]
theorem induction {motive : Json → Prop} (null : motive .null)
    (bool : ∀ value, motive (.bool value)) (number : ∀ value, motive (.number value))
    (string : ∀ value, motive (.string value))
    (array : ∀ items, (∀ j ∈ items, motive j) → motive (.array items))
    (object : ∀ members, (∀ m ∈ members, motive m.2) → motive (.object members)) (j : Json) :
    motive j := by
  refine @Json.rec motive (fun items => ∀ j ∈ items, motive j)
    (fun members => ∀ m ∈ members, motive m.2) (fun m => motive m.2) null bool number string array
    object ?_ ?_ ?_ ?_ (fun _ _ value => value) j
  · exact fun j member => absurd member List.not_mem_nil
  · exact fun head tail first rest => List.forall_mem_cons.mpr ⟨first, rest⟩
  · exact fun m member => absurd member List.not_mem_nil
  · exact fun head tail first rest => List.forall_mem_cons.mpr ⟨first, rest⟩

open Reader

/-- The characters are taken as this source, whatever comes after them that does not go on with a
number. Each call takes a character, so their number is fuel enough. -/
def Taken (chars : List Char) (s : Source) : Prop :=
  ∀ fuel rest, chars.length ≤ fuel → EndsNumber rest →
    Reader.value? (fuel + 1) (chars ++ rest) = some (s, rest)

/-- The same for a key and its value. -/
def TakenMember (chars : List Char) (member : List Nat × Source) : Prop :=
  ∃ key value, chars = (quote key).toList ++ ':' :: value ∧
    member.1 = key.toList.flatMap Text.units16 ∧ Taken value member.2

theorem Taken.number (n : Number) : Taken n.text.toList (.number n.printed) := by
  intro fuel rest _ ends
  obtain ⟨c, chars, text, start⟩ := text_start n
  have number := number?_text n ends
  rw [text,List.cons_append] at number ⊢
  rw [value?_number fuel start,number]
  rfl

/-- One or more items are read up to the closing bracket. -/
theorem items?_taken {texts : List (List Char)} {items : List Source}
    (taken : List.Forall₂ Taken texts items) (nonempty : texts ≠ []) (fuel : Nat)
    (rest : List Char) (enough : ([','].intercalate texts).length ≤ fuel) :
    items? (fuel + 2) ([','].intercalate texts ++ ']' :: rest) = some (items, rest) := by
  induction taken generalizing fuel with
  | nil => exact absurd rfl nonempty
  | @cons text item texts items first others ih =>
    cases others with
    | nil =>
      rw [List.intercalate_singleton] at enough ⊢
      exact items?_last (first fuel _ enough (endsNumber_mark (by simp) rest))
    | cons =>
      simp only [List.intercalate_cons_cons,List.append_assoc,List.singleton_append,
        List.length_append,List.length_cons] at enough ⊢
      -- The comma is a character too, so one unit of fuel can be spent on the first item.
      obtain ⟨fuel, rfl⟩ : ∃ less, fuel = less + 1 := ⟨fuel - 1, by omega⟩
      refine items?_more (first (fuel + 1) _ (by omega) (endsNumber_mark (by simp) _)) ?_
      exact ih (by simp) fuel (by omega)

/-- One or more members are read up to the closing brace. -/
theorem members?_taken {texts : List (List Char)} {members : List (List Nat × Source)}
    (taken : List.Forall₂ TakenMember texts members) (nonempty : texts ≠ []) (fuel : Nat)
    (rest : List Char) (enough : ([','].intercalate texts).length ≤ fuel) :
    members? (fuel + 2) ([','].intercalate texts ++ '\x7d' :: rest) = some (members, rest) := by
  induction taken generalizing fuel with
  | nil => exact absurd rfl nonempty
  | @cons text member texts members first others ih =>
    obtain ⟨units, s⟩ := member
    obtain ⟨key, chars, rfl, rfl, value⟩ := first
    cases others with
    | nil =>
      simp only [List.intercalate_singleton,List.append_assoc,List.cons_append,List.length_append,
        List.length_cons] at enough ⊢
      exact members?_last (value fuel _ (by omega) (endsNumber_mark (by simp) rest))
    | cons =>
      simp only [List.intercalate_cons_cons,List.append_assoc,List.cons_append,List.nil_append,
        List.length_append,List.length_cons] at enough ⊢
      obtain ⟨fuel, rfl⟩ : ∃ less, fuel = less + 1 := ⟨fuel - 1, by omega⟩
      refine members?_more (value (fuel + 1) _ (by omega) (endsNumber_mark (by simp) _)) ?_
      exact ih (by simp) fuel (by omega)

theorem Taken.array {texts : List (List Char)} {items : List Source}
    (taken : List.Forall₂ Taken texts items) :
    Taken ('[' :: [','].intercalate texts ++ [']']) (.array items) := by
  intro fuel rest enough _
  by_cases nonempty : texts = []
  · subst nonempty
    cases taken
    rfl
  · simp only [List.cons_append,List.append_assoc,List.nil_append,List.length_append,
      List.length_cons] at enough ⊢
    obtain ⟨fuel, rfl⟩ : ∃ less, fuel = less + 2 := ⟨fuel - 2, by omega⟩
    exact value?_array (items?_taken taken nonempty fuel rest (by omega))

theorem Taken.object {texts : List (List Char)} {members : List (List Nat × Source)}
    (taken : List.Forall₂ TakenMember texts members) :
    Taken ('\x7b' :: [','].intercalate texts ++ ['\x7d']) (.object members) := by
  intro fuel rest enough _
  by_cases nonempty : texts = []
  · subst nonempty
    cases taken
    rfl
  · simp only [List.cons_append,List.append_assoc,List.nil_append,List.length_append,
      List.length_cons] at enough ⊢
    obtain ⟨fuel, rfl⟩ : ∃ less, fuel = less + 2 := ⟨fuel - 2, by omega⟩
    exact value?_object (members?_taken taken nonempty fuel rest (by omega))

/-- The induction is on the value; the text of each constructor is taken if those of its parts are. -/
theorem taken_render (j : Json) : Taken j.render.toList j.source := by
  induction j using Json.induction with
  | null => exact fun _ _ _ _ => rfl
  | bool value => cases value <;> exact fun _ _ _ _ => rfl
  | number value => exact .number value
  | string text => exact fun fuel rest _ _ => value?_string fuel text rest
  | array items ih =>
    have texts : List.Forall₂ Taken (items.map fun j => j.render.toList) (items.map source) := by
      rwa [List.forall₂_map_left_iff,List.forall₂_map_right_iff,List.forall₂_same]
    have text : (render (.array items)).toList =
        '[' :: [','].intercalate (items.map fun j => j.render.toList) ++ [']'] := by
      simp [render,renderItems_eq,String.toList_intercalate,Function.comp_def]
    rw [text,source,sources_eq]
    exact .array texts
  | object members ih =>
    have texts : List.Forall₂ TakenMember
        (members.map fun m => (quote m.1 ++ ":" ++ m.2.render).toList)
        (members.map fun m => (m.1.toList.flatMap Text.units16, m.2.source)) := by
      rw [List.forall₂_map_left_iff,List.forall₂_map_right_iff,List.forall₂_same]
      exact fun m member => ⟨m.1, m.2.render.toList, by simp, rfl, ih m member⟩
    have text : (render (.object members)).toList = '\x7b' :: [','].intercalate
        (members.map fun m => (quote m.1 ++ ":" ++ m.2.render).toList) ++ ['\x7d'] := by
      rw [render,renderMembers_eq,String.toList_append,String.toList_append,
        String.toList_intercalate,List.map_map]
      rfl
    rw [text,source,memberSources_eq]
    exact .object texts

/-- Every printed value is read as it was written. -/
theorem Source.read?_render (j : Json) : Source.read? j.render = some j.source := by
  have whole := j.taken_render j.render.length [] (Nat.le_of_eq String.length_toList)
    (by simp [EndsNumber])
  rw [List.append_nil] at whole
  rw [Source.read?,whole]
  rfl

/-- The numbers are whole and in the range of binary64. -/
inductive Integral : Json → Prop
  | null : Integral .null
  | bool (value : Bool) : Integral (.bool value)
  | whole {value : Int} (small : value.natAbs < Number.overflow) : Integral (.number (.whole value))
  | string (text : String) : Integral (.string text)
  | array {items : List Json} (all : ∀ j ∈ items, Integral j) : Integral (.array items)
  | object {members : List (String × Json)} (all : ∀ m ∈ members, Integral m.2) :
      Integral (.object members)

theorem values?_sources {items : List Json} (each : ∀ j ∈ items, j.source.value? = some j) :
    Source.values? (sources items) = some items := by
  induction items with
  | nil => rfl
  | cons j js ih =>
    rw [sources,Source.values?,each j (by simp),ih fun j member => each j (by simp [member])]
    rfl

theorem memberValues?_sources {members : List (String × Json)}
    (each : ∀ m ∈ members, m.2.source.value? = some m.2) :
    Source.memberValues? (memberSources members) = some members := by
  induction members with
  | nil => rfl
  | cons m ms ih =>
    rw [memberSources,Source.memberValues?,Source.text?_units,each m (by simp),
      ih fun m member => each m (by simp [member])]
    rfl

/-- A value without decimals is what its printed text denotes. -/
theorem Integral.value?_source {j : Json} (integral : j.Integral) : j.source.value? = some j := by
  induction integral with
  | null => rfl
  | bool value => rfl
  | whole small => exact if_pos (decide_eq_true small)
  | string text =>
    rw [source,Source.value?,Source.text?_units]
    rfl
  | array _ ih =>
    rw [source,Source.value?,values?_sources ih]
    rfl
  | object _ ih =>
    rw [source,Source.value?,memberValues?_sources ih]
    rfl

end QueryLowering.Json
