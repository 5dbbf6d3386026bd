import QueryLowering.Encoding.Plan
import QueryLowering.Proofs.Rendering

/-! What a script does whatever context it is run in: the tokens it writes and the reason it gives
up for. A balanced script never closes a node that it did not open, so running it is adding its
trace to the context. -/
namespace QueryLowering

open Sexpr (Token textOf)

/-- The tokens written by a script, and why there are no more of them. -/
structure Trace where
  tokens : List Token
  stop : Option Rejection

/-- The second trace begins where the first one ends, unless that one gave up. -/
def Trace.andThen (first second : Trace) : Trace :=
  match first.stop with
  | none => ⟨first.tokens ++ second.tokens, second.stop⟩
  | some _ => first

mutual
def Action.trace (limit depth : Nat) : Action → Trace
  | .write token => ⟨[token], none⟩
  | .reject reason => ⟨[], some reason⟩
  | .level body =>
    if limit ≤ depth then ⟨[], some (.tooDeep (depth + 1) limit)⟩
    else Script.trace limit (depth + 1) body
def Script.trace (limit depth : Nat) : List Action → Trace
  | [] => ⟨[], none⟩
  | a :: rest => (a.trace limit depth).andThen (Script.trace limit depth rest)
end

theorem Trace.andThen_assoc (a b c : Trace) :
    (a.andThen b).andThen c = a.andThen (b.andThen c) := by
  obtain ⟨ta, ⟨⟩ | ra⟩ := a
  · obtain ⟨tb, ⟨⟩ | rb⟩ := b <;> simp [andThen]
  · rfl

@[simp] theorem Trace.andThen_stop (a b : Trace) : (a.andThen b).stop = a.stop.or b.stop := by
  obtain ⟨ta, ⟨⟩ | ra⟩ := a <;> rfl

theorem Trace.andThen_of_stop_none {a : Trace} (b : Trace) (finished : a.stop = none) :
    a.andThen b = ⟨a.tokens ++ b.tokens, b.stop⟩ := by
  simp [andThen,finished]

theorem Trace.andThen_of_stop_ne_none {a : Trace} (b : Trace) (stopped : a.stop ≠ none) :
    a.andThen b = a := by
  obtain ⟨reason, stopped⟩ := Option.ne_none_iff_exists'.mp stopped
  simp [andThen,stopped]

@[simp] theorem Trace.empty_andThen (a : Trace) : Trace.andThen ⟨[], none⟩ a = a := rfl

@[simp] theorem Trace.andThen_empty (a : Trace) : a.andThen ⟨[], none⟩ = a := by
  obtain ⟨ta, ⟨⟩ | ra⟩ := a <;> simp [andThen]

/-- Where a trace leads from a context when it leaves `opened` nodes open. -/
def Context.after (c : Context) (trace : Trace) (opened : Nat) : Outcome :=
  ⟨{ c with writer := ⟨c.writer.text ++ textOf trace.tokens, c.writer.depth + opened⟩ },
    trace.stop.map .rejected⟩

namespace Context

variable {c : Context} {trace : Trace} {opened : Nat}

@[simp] theorem after_limit : (c.after trace opened).context.limit = c.limit := rfl

@[simp] theorem after_depth : (c.after trace opened).context.depth = c.depth := rfl

@[simp] theorem after_stop : (c.after trace opened).stop = trace.stop.map .rejected := rfl

theorem after_andThen {first : Trace} (finished : first.stop = none) (second : Trace) (m n : Nat) :
    (c.after first m).context.after second n = c.after (first.andThen second) (m + n) := by
  simp [after,Trace.andThen_of_stop_none,finished,String.append_assoc,Nat.add_assoc]

end Context

namespace Script

variable {limit depth : Nat}

@[simp] theorem trace_nil : Script.trace limit depth [] = ⟨[], none⟩ := by simp [Script.trace]

@[simp] theorem trace_cons (a : Action) (rest : Script) :
    Script.trace limit depth (a :: rest) =
      (a.trace limit depth).andThen (Script.trace limit depth rest) := by
  simp [Script.trace]

theorem trace_singleton (a : Action) : Script.trace limit depth [a] = a.trace limit depth := by
  simp

@[simp] theorem trace_append (first second : Script) :
    Script.trace limit depth (first ++ second) =
      (Script.trace limit depth first).andThen (Script.trace limit depth second) := by
  induction first with
  | nil => simp
  | cons a rest ih => simp [ih,Trace.andThen_assoc]

/-- A script gives up for the reason of the first of its actions that gives up. -/
theorem trace_stop (script : Script) :
    (Script.trace limit depth script).stop =
      script.findSome? fun a => (a.trace limit depth).stop := by
  induction script with
  | nil => simp
  | cons a rest ih =>
    rw [trace_cons,Trace.andThen_stop,ih,List.findSome?_cons]
    cases (a.trace limit depth).stop <;> rfl

/-- Every node that is opened is closed again, inside the same script. -/
inductive Balanced : Script → Prop
  | nil : Balanced []
  | atom (text : String) : Balanced [.write (.atom text)]
  | string (text : String) : Balanced [.write (.string text)]
  | reject (reason : Rejection) : Balanced [.reject reason]
  | level : Balanced body → Balanced [.level body]
  | node (tag : String) : Balanced body → Balanced (Script.node tag body)
  | append : Balanced first → Balanced second → Balanced (first ++ second)

@[simp] theorem run_singleton (c : Context) (a : Action) : Script.run c [a] = a.run c := by
  simp only [Script.run]
  split
  next same => rw [same]
  next other => rfl

theorem run_append_finished {c : Context} {first : Script} (second : Script)
    (finished : (Script.run c first).stop = none) :
    Script.run c (first ++ second) = Script.run (Script.run c first).context second := by
  induction first generalizing c with
  | nil => simp [Script.run]
  | cons a rest ih =>
    simp only [List.cons_append,Script.run] at finished ⊢
    split at finished
    next same => simpa only [same] using ih finished
    next other => exact (other (a.run c).context (by rw [← finished])).elim

theorem run_append_stopped {c : Context} {first : Script} (second : Script)
    (stopped : (Script.run c first).stop ≠ none) :
    Script.run c (first ++ second) = Script.run c first := by
  induction first generalizing c with
  | nil => simp [Script.run] at stopped
  | cons a rest ih =>
    simp only [List.cons_append,Script.run] at stopped ⊢
    split at stopped
    next same => simpa only [same] using ih stopped
    next other => rfl

theorem run_opening (c : Context) (tag : String) (rest : Script) :
    Script.run c (.write (.opening tag) :: rest) =
      Script.run (c.after ⟨[.opening tag], none⟩ 1).context rest := by
  simp [Script.run,Action.run,Context.write,Sexpr.Writer.writeAll?,Sexpr.Writer.write?,
    Context.after]

theorem run_closing (c : Context) {trace : Trace} (finished : trace.stop = none) :
    Script.run (c.after trace 1).context [.write .closing] =
      c.after (trace.andThen ⟨[.closing], none⟩) 0 := by
  simp [Action.run,Context.write,Sexpr.Writer.writeAll?,Sexpr.Writer.write?,Context.after,
    Trace.andThen_of_stop_none,finished,String.append_assoc]

/-- Running a balanced script is adding its trace to the context. Nodes may stay open only where
the script gave up. -/
theorem Balanced.run {script : Script} (balanced : Balanced script) (c : Context) :
    ∃ opened, Script.run c script = c.after (Script.trace c.limit c.depth script) opened ∧
      ((Script.trace c.limit c.depth script).stop = none → opened = 0) := by
  induction balanced generalizing c with
  | nil => exact ⟨0, by simp [Script.run,Context.after]⟩
  | atom text =>
    exact ⟨0, by simp [Action.run,Action.trace,Context.write,Sexpr.Writer.writeAll?,
      Sexpr.Writer.write?,Context.after]⟩
  | string text =>
    exact ⟨0, by simp [Action.run,Action.trace,Context.write,Sexpr.Writer.writeAll?,
      Sexpr.Writer.write?,Context.after]⟩
  | reject reason => exact ⟨0, by simp [Action.run,Action.trace,Context.after]⟩
  | @level body _ ih =>
    by_cases deep : c.limit ≤ c.depth
    · exact ⟨0, by simp [Action.run,Action.trace,Context.enter,deep,Context.after]⟩
    · obtain ⟨opened, run, rest⟩ := ih { c with depth := c.depth + 1 }
      refine ⟨opened, ?_, by simpa [Action.trace,deep] using rest⟩
      simp only [run_singleton,Action.run,Context.enter,deep,if_false,run]
      simp [Context.after,Context.leave,Action.trace,deep]
  | @node body tag _ ih =>
    obtain ⟨opened, run, rest⟩ := ih (c.after ⟨[.opening tag], none⟩ 1).context
    rw [← run_opening,Context.after_andThen rfl] at run
    simp only [Context.after_limit,Context.after_depth] at run rest
    simp only [Script.node,← List.cons_append,trace_append,trace_cons,trace_nil,Action.trace,
      Trace.andThen_empty]
    cases stop : (Script.trace c.limit c.depth body).stop with
    | none =>
      -- The body closed all it opened, so the closing token meets the opening one.
      rw [rest stop] at run
      refine ⟨0, ?_, fun _ => rfl⟩
      rw [run_append_finished _ (by simp [run,stop]),run]
      exact run_closing c (by simp [stop])
    | some reason =>
      refine ⟨1 + opened, ?_, by simp [stop]⟩
      rw [run_append_stopped _ (by simp [run,stop]),run,
        Trace.andThen_of_stop_ne_none (a := .andThen _ _) _ (by simp [stop])]
  | @append first second _ _ ihFirst ihSecond =>
    obtain ⟨opened, run, rest⟩ := ihFirst c
    rw [trace_append]
    cases stop : (Script.trace c.limit c.depth first).stop with
    | none =>
      rw [rest stop] at run
      obtain ⟨opened, next, rest⟩ := ihSecond (Script.run c first).context
      rw [← run_append_finished _ (by simp [run,stop]),run,Context.after_andThen stop,
        Nat.zero_add] at next
      rw [run] at rest
      exact ⟨opened, next, fun finished => rest (by simpa [stop] using finished)⟩
    | some reason =>
      refine ⟨opened, ?_, by simp [stop]⟩
      rw [run_append_stopped _ (by simp [run,stop]),run,
        Trace.andThen_of_stop_ne_none _ (by simp [stop])]

end Script

end QueryLowering
