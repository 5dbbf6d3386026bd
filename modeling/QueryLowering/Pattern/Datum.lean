import QueryLowering.Json.Shape
import QueryLowering.Sexpr.Writer

/-! The constants of the pattern calculus. -/
namespace QueryLowering

/-- Records keep the order of their fields, and may repeat a name. -/
inductive Datum where
  | unit
  | bool (value : Bool)
  | int (value : Int64)
  | string (value : String)
  | bag (items : List Datum)
  | record (fields : List (String × Datum))

namespace Datum

mutual
def decideEq : (a b : Datum) → Decidable (a = b)
  | .unit, .unit => isTrue rfl
  | .bool a, .bool b => decidable_of_iff (a = b) (by simp)
  | .int a, .int b => decidable_of_iff (a = b) (by simp)
  | .string a, .string b => decidable_of_iff (a = b) (by simp)
  | .bag a, .bag b => @decidable_of_iff _ (a = b) (by simp) (decideEqItems a b)
  | .record a, .record b => @decidable_of_iff _ (a = b) (by simp) (decideEqFields a b)
  | .unit, .bool _ | .unit, .int _ | .unit, .string _ | .unit, .bag _ | .unit, .record _
  | .bool _, .unit | .bool _, .int _ | .bool _, .string _ | .bool _, .bag _ | .bool _, .record _
  | .int _, .unit | .int _, .bool _ | .int _, .string _ | .int _, .bag _ | .int _, .record _
  | .string _, .unit | .string _, .bool _ | .string _, .int _ | .string _, .bag _
  | .string _, .record _
  | .bag _, .unit | .bag _, .bool _ | .bag _, .int _ | .bag _, .string _ | .bag _, .record _
  | .record _, .unit | .record _, .bool _ | .record _, .int _ | .record _, .string _
  | .record _, .bag _ => isFalse nofun
def decideEqItems : (a b : List Datum) → Decidable (a = b)
  | [], [] => isTrue rfl
  | x :: xs, y :: ys =>
    match decideEq x y, decideEqItems xs ys with
    | isTrue hx, isTrue hs => isTrue (by rw [hx, hs])
    | isFalse hx, _ => isFalse fun h => hx (List.cons.inj h).1
    | _, isFalse hs => isFalse fun h => hs (List.cons.inj h).2
  | [], _ :: _ | _ :: _, [] => isFalse nofun
def decideEqFields : (a b : List (String × Datum)) → Decidable (a = b)
  | [], [] => isTrue rfl
  | (m, x) :: xs, (n, y) :: ys =>
    match decEq m n, decideEq x y, decideEqFields xs ys with
    | isTrue hm, isTrue hx, isTrue hs => isTrue (by rw [hm, hx, hs])
    | isFalse hm, _, _ => isFalse fun h => hm (Prod.mk.inj (List.cons.inj h).1).1
    | _, isFalse hx, _ => isFalse fun h => hx (Prod.mk.inj (List.cons.inj h).1).2
    | _, _, isFalse hs => isFalse fun h => hs (List.cons.inj h).2
  | [], _ :: _ | _ :: _, [] => isFalse nofun
end

instance : DecidableEq Datum := decideEq

mutual
def toSexpr : Datum → Sexpr
  | unit => .node "dunit" []
  | bool value => .node "dbool" [.atom (if value then "true" else "false")]
  | int value => .node "dnat" [.atom (toString value.toInt)]
  | string value => .node "dstring" [.string value]
  | bag items => .node "dcoll" (toSexprs items)
  | record fields => .node "drec" (fieldSexprs fields)
def toSexprs : List Datum → List Sexpr
  | [] => []
  | d :: ds => toSexpr d :: toSexprs ds
def fieldSexprs : List (String × Datum) → List Sexpr
  | [] => []
  | (name, d) :: fs => .node "field" [.string name, toSexpr d] :: fieldSexprs fs
end

mutual
/-- The steps in which a writer takes a datum. -/
def steps : Datum → List Sexpr.Writer.Step
  | unit => [.emptyNode "dunit"]
  | bool value => [.openNode "dbool", .atom (if value then "true" else "false"), .closeNode]
  | int value => [.openNode "dnat", .atom (toString value.toInt), .closeNode]
  | string value => [.stringNode "dstring" value]
  | bag items => .openNode "dcoll" :: (itemSteps items ++ [.closeNode])
  | record fields => .openNode "drec" :: (fieldSteps fields ++ [.closeNode])
def itemSteps : List Datum → List Sexpr.Writer.Step
  | [] => []
  | d :: ds => steps d ++ itemSteps ds
def fieldSteps : List (String × Datum) → List Sexpr.Writer.Step
  | [] => []
  | (name, d) :: fs => .openWithString "field" name :: (steps d ++ (.closeNode :: fieldSteps fs))
end

def render (d : Datum) : String := Sexpr.Writer.textAfter d.steps

mutual
def toJson : Datum → Json
  | unit => .string "Unit"
  | bool value => .tagged "Bool" (.bool value)
  | int value => .tagged "Nat" (.int value.toInt)
  | string value => .tagged "String" (.string value)
  | bag items => .tagged "Coll" (.array (toJsons items))
  | record fields => .tagged "Rec" (.array (fieldJsons fields))
def toJsons : List Datum → List Json
  | [] => []
  | d :: ds => toJson d :: toJsons ds
def fieldJsons : List (String × Datum) → List Json
  | [] => []
  | (name, d) :: fs => .pair (.string name) (toJson d) :: fieldJsons fs
end

/-- Reads a datum whose JSON form has fewer than `fuel` levels. -/
def ofJsonWithin? : Nat → Json → Option Datum
  | 0, _ => none
  | fuel + 1, j => do
    let (tag, content) ← j.tagged?
    match tag with
    | "Unit" => content.null?.map fun _ => unit
    | "Bool" => content.bool?.map bool
    | "Nat" => content.int64?.map int
    | "String" => content.string?.map string
    | "Coll" => (content.list? (ofJsonWithin? fuel)).map bag
    | "Rec" => (content.list? (Json.pair? Json.string? (ofJsonWithin? fuel))).map record
    | _ => none

def ofJson? (j : Json) : Option Datum := ofJsonWithin? (j.height + 1) j

end Datum

end QueryLowering
