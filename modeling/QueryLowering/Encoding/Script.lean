import QueryLowering.Encoding.Rejection
import QueryLowering.Sexpr.Writer

/-! Scripts say what an encoding does: it writes tokens, descends a level, or gives up. A script is
run in a context, and what was written before it gave up stays written. -/
namespace QueryLowering

inductive Action where
  | write (token : Sexpr.Token)
  | reject (reason : Rejection)
  /-- The body is one level deeper. -/
  | level (body : List Action)

abbrev Script := List Action

def Script.write (tokens : List Sexpr.Token) : Script := tokens.map .write

structure Context where
  writer : Sexpr.Writer := {}
  depth : Nat := 0
  limit : Nat := 256
  deriving DecidableEq, Repr

/-- Why a run ended early. -/
inductive Stop where
  | rejected (reason : Rejection)
  | unmatchedClose
  deriving DecidableEq, Repr

/-- Where a run ended, and why if it ended early. -/
structure Outcome where
  context : Context
  stop : Option Stop
  deriving DecidableEq, Repr

namespace Context

/-- Refused when the context is at its limit. -/
def enter (c : Context) : Except Rejection Context :=
  if c.limit ≤ c.depth then .error (.tooDeep (c.depth + 1) c.limit)
  else .ok { c with depth := c.depth + 1 }

def leave (c : Context) : Context := { c with depth := c.depth - 1 }

def write (c : Context) (tokens : List Sexpr.Token) : Outcome :=
  match c.writer.writeAll? tokens with
  | some writer => ⟨{ c with writer }, none⟩
  | none => ⟨c, some .unmatchedClose⟩

def finish (c : Context) : String := c.writer.finish

end Context

mutual
def Action.run (c : Context) : Action → Outcome
  | .write token => c.write [token]
  | .reject reason => ⟨c, some (.rejected reason)⟩
  | .level body =>
    match c.enter with
    | .error reason => ⟨c, some (.rejected reason)⟩
    | .ok inner =>
      let outcome := Script.run inner body
      { outcome with context := outcome.context.leave }
def Script.run (c : Context) : List Action → Outcome
  | [] => ⟨c, none⟩
  | a :: rest =>
    match Action.run c a with
    | ⟨c, none⟩ => Script.run c rest
    | stopped => stopped
end

end QueryLowering
