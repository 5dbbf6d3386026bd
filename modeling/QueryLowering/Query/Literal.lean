import QueryLowering.Json.Shape

/-! Literals of queries, and their text. -/
namespace QueryLowering

inductive LiteralType where
  | integer
  | long
  | double
  | float
  | string
  | true
  | false
  | null
  | missing
  deriving DecidableEq, Repr

namespace LiteralType

/-- The name in messages. -/
def display : LiteralType → String
  | integer => "INTEGER"
  | long => "LONG"
  | double => "DOUBLE"
  | float => "FLOAT"
  | string => "STRING"
  | .true => "TRUE"
  | .false => "FALSE"
  | null => "NULL"
  | missing => "MISSING"

/-- The name in JSON. -/
def name : LiteralType → String
  | integer => "Integer"
  | long => "Long"
  | double => "Double"
  | float => "Float"
  | string => "String"
  | .true => "True"
  | .false => "False"
  | null => "Null"
  | missing => "Missing"

def toJson (t : LiteralType) : Json := .string t.name

end LiteralType

/-- Equality of literals is that of their numbers: the two zeros are equal, and a NaN is not equal to
itself. -/
inductive Literal where
  | integer (value : Int32)
  | long (value : Int64)
  | double (value : Float)
  | float (value : Float32)
  | string (value : String)
  | true
  | false
  | null
  | missing
  deriving BEq

namespace Literal

def type : Literal → LiteralType
  | integer _ => .integer
  | long _ => .long
  | double _ => .double
  | float _ => .float
  | string _ => .string
  | .true => .true
  | .false => .false
  | null => .null
  | missing => .missing

/-- The shortest decimal that reads back, written without an exponent. -/
def floatText : Decimal.Unpacked → String
  | .nan => "NaN"
  | .infinity negative => if negative then "-inf" else "inf"
  | .zero negative => if negative then "-0" else "0"
  | .finite negative m => (if negative then "-" else "") ++ m.shortest.positional

def text : Literal → String
  | integer value => toString value.toInt
  | long value => toString value.toInt
  | double value => floatText (Decimal.binary64.unpack value.toBits.toNat)
  | float value => floatText (Decimal.binary32.unpack value.toBits.toNat)
  | string value => value
  | .true => "true"
  | .false => "false"
  | null => "null"
  | missing => "missing"

def toJson (l : Literal) : Json :=
  match l with
  | integer value => .tagged l.type.name (.int value.toInt)
  | long value => .tagged l.type.name (.int value.toInt)
  | double value => .tagged l.type.name (.ofFloat value)
  | float value => .tagged l.type.name (.ofFloat32 value)
  | string value => .tagged l.type.name (.string value)
  | .true | .false | null | missing => .string l.type.name

/-- A binary32 number is rounded to binary64 first. -/
def ofJson? (j : Json) : Option Literal := do
  let (tag, content) ← j.tagged?
  match tag with
  | "Integer" => content.int32?.map integer
  | "Long" => content.int64?.map long
  | "Double" => content.float?.map double
  | "Float" => content.float32?.map float
  | "String" => content.string?.map string
  | "True" => content.null?.map fun _ => .true
  | "False" => content.null?.map fun _ => .false
  | "Null" => content.null?.map fun _ => null
  | "Missing" => content.null?.map fun _ => missing
  | _ => none

end Literal

end QueryLowering
