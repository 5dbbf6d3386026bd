import QueryLowering.Json.Shape
import QueryLowering.Sexpr.Reader

/-! The JSON form of trees and of the reasons why a text is none, apart from the reader, which needs
no JSON. -/
namespace QueryLowering.Sexpr

mutual
def toJson : Sexpr → Json
  | node tag args => .tagged "Node" (.object [("tag", .string tag), ("args", .array (toJsons args))])
  | atom text => .tagged "Atom" (.string text)
  | string text => .tagged "Str" (.string text)
def toJsons : List Sexpr → List Json
  | [] => []
  | t :: ts => toJson t :: toJsons ts
end

namespace ReadError

def name : ReadError → String
  | emptyInput => "EmptyInput"
  | unexpectedEnd _ => "UnexpectedEnd"
  | unexpectedChar _ _ => "UnexpectedChar"
  | missingTag _ => "MissingTag"
  | unterminatedString _ => "UnterminatedString"
  | trailingInput _ => "TrailingInput"

def toJson (e : ReadError) : Json :=
  match e with
  | emptyInput => .string e.name
  | unexpectedChar pos char =>
    .tagged e.name (.object [("pos", .nat pos), ("ch", .string (String.singleton char))])
  | unexpectedEnd pos | missingTag pos | unterminatedString pos | trailingInput pos =>
    .tagged e.name (.object [("pos", .nat pos)])

end ReadError

end QueryLowering.Sexpr
