import QueryLowering.Proofs.Forest
import QueryLowering.Proofs.PatternText

/-! Sessions of a writer. At every time the text is that of a draft: a forest with a stack of nodes
that are still open. To close them all makes it a whole forest, and no other forest has that text. An
encoding is a part of such a session, whether it succeeds or not. -/
namespace QueryLowering

namespace Sexpr

open Reader (Frame)

/-- A forest that is being written: its finished trees, the latest first, and the nodes that are
still open, the innermost first. -/
structure Draft where
  finished : List Sexpr := []
  openNodes : List Frame := []

namespace Draft

/-- A tree is an argument of the innermost open node, or else one more finished tree. -/
def add (t : Sexpr) : Draft → Draft
  | ⟨finished, []⟩ => ⟨t :: finished, []⟩
  | ⟨finished, f :: outer⟩ => ⟨finished, { f with args := t :: f.args } :: outer⟩

/-- What is written of open nodes. -/
def openTokens : List Frame → List Token
  | [] => []
  | f :: outer => openTokens outer ++ .opening f.tag :: tokensOf f.args.reverse

def tokens (d : Draft) : List Token := tokensOf d.finished.reverse ++ openTokens d.openNodes

/-- Open nodes that are closed one after the other, when `last` are the last arguments of the
innermost. -/
def closed : List Frame → List Sexpr → List Sexpr
  | [], last => last
  | f :: outer, last => closed outer [.node f.tag (f.args.reverse ++ last)]

/-- The forest when all open nodes are closed. -/
def forest (d : Draft) : List Sexpr := d.finished.reverse ++ closed d.openNodes []

structure WellFormed (d : Draft) : Prop where
  finished : ∀ t ∈ d.finished, t.WellFormed
  openNodes : ∀ f ∈ d.openNodes, f.WellFormed

theorem tokens_add (d : Draft) (t : Sexpr) : (d.add t).tokens = d.tokens ++ t.tokens := by
  obtain ⟨finished, _ | ⟨f, outer⟩⟩ := d
  · simp [add,tokens,openTokens]
  · simp [add,tokens,openTokens]

theorem length_add (d : Draft) (t : Sexpr) :
    (d.add t).openNodes.length = d.openNodes.length := by
  obtain ⟨finished, _ | ⟨f, outer⟩⟩ := d <;> rfl

theorem WellFormed.add {d : Draft} {t : Sexpr} (draft : d.WellFormed) (tree : t.WellFormed) :
    (d.add t).WellFormed := by
  obtain ⟨finished, _ | ⟨f, outer⟩⟩ := d
  · exact ⟨List.forall_mem_cons.mpr ⟨tree, draft.finished⟩, draft.openNodes⟩
  · obtain ⟨frame, rest⟩ := List.forall_mem_cons.mp draft.openNodes
    have added : Frame.WellFormed { f with args := t :: f.args } :=
      ⟨frame.tag, List.forall_mem_cons.mpr ⟨tree, frame.args⟩⟩
    exact ⟨draft.finished, List.forall_mem_cons.mpr ⟨added, rest⟩⟩

theorem tokensOf_closed (frames : List Frame) (last : List Sexpr) :
    tokensOf (closed frames last) =
      openTokens frames ++ (tokensOf last ++ List.replicate frames.length .closing) := by
  induction frames generalizing last with
  | nil => simp [closed,openTokens]
  | cons f outer ih =>
    rw [closed,ih]
    simp [openTokens,Sexpr.tokens,List.replicate_succ]

theorem tokensOf_forest (d : Draft) :
    tokensOf d.forest = d.tokens ++ List.replicate d.openNodes.length .closing := by
  simp [forest,tokens,tokensOf_closed]

theorem closed_wellFormed {frames : List Frame} {last : List Sexpr}
    (frame : ∀ f ∈ frames, f.WellFormed) (tree : ∀ t ∈ last, t.WellFormed) :
    ∀ t ∈ closed frames last, t.WellFormed := by
  induction frames generalizing last with
  | nil => exact tree
  | cons f outer ih =>
    obtain ⟨inner, rest⟩ := List.forall_mem_cons.mp frame
    refine ih rest (List.forall_mem_singleton.mpr ⟨inner.tag, allWellFormed_iff.mpr ?_⟩)
    intro t member
    rcases List.mem_append.mp member with earlier | later
    · exact inner.args t (List.mem_reverse.mp earlier)
    · exact tree t later

theorem WellFormed.forest {d : Draft} (draft : d.WellFormed) : ∀ t ∈ d.forest, t.WellFormed := by
  intro t member
  rcases List.mem_append.mp member with earlier | later
  · exact draft.finished t (List.mem_reverse.mp earlier)
  · exact closed_wellFormed draft.openNodes (by simp) t later

end Draft

/-- Forests are known from their texts. -/
theorem tokensOf_inj {ts us : List Sexpr} (left : ∀ t ∈ ts, t.WellFormed)
    (right : ∀ t ∈ us, t.WellFormed) (same : textOf (tokensOf ts) = textOf (tokensOf us)) :
    ts = us := by
  -- As arguments of one more node both make up a tree, and the texts of the trees are equal.
  have wrap {forest : List Sexpr} (each : ∀ t ∈ forest, t.WellFormed) :
      (node "forest" forest).WellFormed := ⟨by decide, allWellFormed_iff.mpr each⟩
  have texts : (node "forest" ts).render = (node "forest" us).render := by
    simp only [render,Sexpr.tokens,textOf_cons,textOf_append,same]
  exact (node.inj ((render_inj (wrap left) (wrap right)).mp texts)).2

namespace Writer

variable {w next : Writer}

/-- The text of the writer, with all open nodes closed, is that of the forest. Only tokens are asked
for, since an atom with a blank in it would pass for two. -/
structure CompletesTo (w : Writer) (forest : List Sexpr) : Prop where
  wellFormed : ∀ t ∈ forest, t.WellFormed
  text : textOf (tokensOf forest) = w.text ++ String.join (List.replicate w.depth ") ")

/-- What is written is a draft whose tags and atoms are tokens. -/
structure Shows (w : Writer) (d : Draft) : Prop where
  draft : d.WellFormed
  text : w.text = textOf d.tokens
  depth : w.depth = d.openNodes.length

theorem Shows.add {d : Draft} {t : Sexpr} (shows : w.Shows d) (tree : t.WellFormed) :
    Shows ⟨w.text ++ textOf t.tokens, w.depth⟩ (d.add t) := by
  refine ⟨shows.draft.add tree, ?_, ?_⟩
  · rw [Draft.tokens_add,textOf_append,shows.text]
  · rw [Draft.length_add,shows.depth]

theorem Shows.write {d : Draft} {token : Token} (shows : w.Shows d) (allowed : token.WellFormed)
    (written : w.write? token = some next) : ∃ d, next.Shows d := by
  obtain ⟨draft, text, depth⟩ := shows
  cases token with
  | opening tag =>
    cases written
    have opened : Frame.WellFormed ⟨tag, []⟩ := ⟨allowed, by simp⟩
    refine ⟨⟨d.finished, ⟨tag, []⟩ :: d.openNodes⟩,
      ⟨draft.finished, List.forall_mem_cons.mpr ⟨opened, draft.openNodes⟩⟩, ?_, ?_⟩
    · simp [text,Draft.tokens,Draft.openTokens,String.append_assoc]
    · rw [depth,List.length_cons]
  | closing =>
    obtain ⟨finished, _ | ⟨f, outer⟩⟩ := d
    · rw [List.length_nil] at depth
      simp [write?,depth] at written
    · rw [List.length_cons] at depth
      simp only [write?,depth,Nat.add_one_ne_zero,if_false,Option.some.injEq] at written
      obtain ⟨frame, rest⟩ := List.forall_mem_cons.mp draft.openNodes
      have node : (Sexpr.node f.tag f.args.reverse).WellFormed :=
        ⟨frame.tag, allWellFormed_iff.mpr (by simpa using frame.args)⟩
      refine ⟨Draft.add (.node f.tag f.args.reverse) ⟨finished, outer⟩,
        .add ⟨draft.finished, rest⟩ node, ?_, ?_⟩
      · rw [Draft.tokens_add,← written]
        simp [text,Draft.tokens,Draft.openTokens,Sexpr.tokens,String.append_assoc]
      · rw [← written,Draft.length_add]
        rfl
  | atom text =>
    cases written
    have added := Shows.add (t := .atom text) ⟨draft, ‹_›, depth⟩ allowed
    exact ⟨_, by simpa [Sexpr.tokens] using added⟩
  | string text =>
    cases written
    have added := Shows.add (t := .string text) ⟨draft, ‹_›, depth⟩ trivial
    exact ⟨_, by simpa [Sexpr.tokens] using added⟩

theorem Shows.writeAll {d : Draft} {tokens : List Token} (shows : w.Shows d)
    (allowed : ∀ token ∈ tokens, token.WellFormed) (written : w.writeAll? tokens = some next) :
    ∃ d, next.Shows d := by
  induction tokens generalizing w d with
  | nil =>
    cases written
    exact ⟨d, shows⟩
  | cons token rest ih =>
    obtain ⟨mid, first, others⟩ := Option.bind_eq_some_iff.mp written
    obtain ⟨tokenAllowed, restAllowed⟩ := List.forall_mem_cons.mp allowed
    obtain ⟨d, shows⟩ := shows.write tokenAllowed first
    exact ih shows restAllowed others

theorem shows_empty : Shows {} {} := ⟨⟨by simp, by simp⟩, rfl, rfl⟩

/-- Closing what is open makes a draft its forest, and this is the only one with that text. -/
theorem Shows.completes {d : Draft} (shows : w.Shows d) : ∃! forest, w.CompletesTo forest := by
  have closings (n : Nat) :
      textOf (List.replicate n .closing) = String.join (List.replicate n ") ") := by
    rw [textOf,List.map_replicate]
    rfl
  have completes : w.CompletesTo d.forest := by
    refine ⟨shows.draft.forest, ?_⟩
    rw [Draft.tokensOf_forest,textOf_append,closings,shows.text,shows.depth]
  refine ⟨d.forest, completes, fun other completed => ?_⟩
  exact tokensOf_inj completed.wellFormed completes.wellFormed
    (completed.text.trans completes.text.symm)

/-- The tokens of the steps that are not refused. -/
def taken (w : Writer) : List Step → List Token
  | [] => []
  | step :: rest => (if (w.step? step).isSome then step.tokens else []) ++ (w.take step).taken rest

/-- Tags and atoms are tokens. -/
def Step.WellFormed : Step → Prop
  | openNode tag | emptyNode tag | stringNode tag _ | openWithString tag _ => IsToken tag
  | atom text => IsToken text
  | closeNode | string _ => True
  | tree t => t.WellFormed

theorem Step.WellFormed.tokens {step : Step} (wellFormed : step.WellFormed) :
    ∀ token ∈ step.tokens, token.WellFormed := by
  cases step with
  | tree t => exact Sexpr.WellFormed.tokens wellFormed
  | openNode tag | atom text => exact List.forall_mem_singleton.mpr wellFormed
  | emptyNode tag | stringNode tag text | openWithString tag text =>
    exact List.forall_mem_cons.mpr ⟨wellFormed, by simp [Token.WellFormed]⟩
  | closeNode | string text => exact List.forall_mem_singleton.mpr trivial

/-- Only to close a node is ever refused. -/
theorem step?_eq_none_iff {step : Step} :
    w.step? step = none ↔ step = .closeNode ∧ w.depth = 0 := by
  cases step with
  | tree t => simp [step?,Step.tokens,writeAll?_tokens]
  | _ => simp [step?,Step.tokens,emptyNodeTokens,stringNodeTokens,writeAll?,write?]

theorem writeAll?_taken (w : Writer) (steps : List Step) :
    w.writeAll? (w.taken steps) = some (w.session steps) := by
  induction steps generalizing w with
  | nil => rfl
  | cons step rest ih =>
    rw [taken,writeAll?_append,session,List.foldl_cons]
    cases written : w.step? step with
    | none =>
      have same : w.take step = w := by rw [take,written,Option.getD_none]
      rw [same]
      exact ih w
    | some next =>
      have moved : w.take step = next := by rw [take,written,Option.getD_some]
      have first : w.writeAll? step.tokens = some next := written
      rw [moved,Option.isSome_some,if_pos rfl,first]
      exact ih next

theorem taken_wellFormed {steps : List Step} (allowed : ∀ step ∈ steps, step.WellFormed) :
    ∀ token ∈ w.taken steps, token.WellFormed := by
  induction steps generalizing w with
  | nil => simp [taken]
  | cons step rest ih =>
    obtain ⟨first, others⟩ := List.forall_mem_cons.mp allowed
    intro token member
    rcases List.mem_append.mp member with own | later
    · split at own
      · exact first.tokens token own
      · cases own
    · exact ih others token later

theorem writeAll?_text {tokens : List Token} (written : w.writeAll? tokens = some next) :
    next.text = w.text ++ textOf tokens := by
  induction tokens generalizing w with
  | nil =>
    cases written
    simp
  | cons token rest ih =>
    obtain ⟨mid, first, others⟩ := Option.bind_eq_some_iff.mp written
    have own : mid.text = w.text ++ token.text := by
      cases token with
      | closing =>
        simp only [write?] at first
        split at first
        all_goals cases first
        rfl
      | _ =>
        cases first
        rfl
    rw [ih others,own,textOf_cons,String.append_assoc]

theorem take_text (w : Writer) (step : Step) : ∃ more, (w.take step).text = w.text ++ more := by
  cases written : w.step? step with
  | none => exact ⟨"", by simp [take,written]⟩
  | some next =>
    rw [take,written,Option.getD_some]
    exact ⟨_, writeAll?_text written⟩

end Writer

def Token.isOpening : Token → Bool
  | opening _ => true
  | closing | atom _ | string _ => false

/-- The depth is what the openings are more than the closings. -/
theorem Writer.writeAll?_depth {w next : Writer} {tokens : List Token}
    (written : w.writeAll? tokens = some next) :
    tokens.countP Token.isOpening + w.depth = tokens.count .closing + next.depth := by
  induction tokens generalizing w with
  | nil =>
    cases written
    rfl
  | cons token rest ih =>
    obtain ⟨mid, first, others⟩ := Option.bind_eq_some_iff.mp written
    have later := ih others
    cases token with
    | opening tag =>
      cases first
      simp only [List.countP_cons,List.count_cons,Token.isOpening] at later ⊢
      simp at later ⊢
      omega
    | closing =>
      simp only [write?] at first
      split at first
      · cases first
      next some =>
        cases first
        simp [Token.isOpening] at later ⊢
        omega
    | atom text | string text =>
      cases first
      simpa [Token.isOpening] using later

end Sexpr

open Sexpr (Draft Token Writer)
open Script (Shaped)

/-- What was a draft before a run is one after it. -/
def Script.KeepsDrafts (script : Script) : Prop :=
  ∀ (c : Context) (d : Draft), c.writer.Shows d →
    ∃ d, (Script.run c script).context.writer.Shows d

namespace Script.KeepsDrafts

theorem append {first second : Script} (onFirst : KeepsDrafts first)
    (onSecond : KeepsDrafts second) : KeepsDrafts (first ++ second) := by
  intro c d before
  obtain ⟨mid, between⟩ := onFirst c d before
  by_cases finished : (Script.run c first).stop = none
  · rw [run_append_finished second finished]
    exact onSecond _ mid between
  · rw [run_append_stopped second finished]
    exact ⟨mid, between⟩

theorem write {token : Token} (allowed : token.WellFormed) : KeepsDrafts [.write token] := by
  intro c d before
  rw [run_singleton,Action.run,Context.write]
  split
  next writer written => exact before.writeAll (List.forall_mem_singleton.mpr allowed) written
  next => exact ⟨d, before⟩

end Script.KeepsDrafts

theorem Script.Shaped.keepsDrafts {s : Settings} {script : Script} (shaped : Shaped s script)
    (names : s.HasTokenNames) : KeepsDrafts script := by
  induction shaped with
  | nil => exact fun c d before => ⟨d, before⟩
  | atom token => exact .write token
  | string text => exact .write trivial
  | reject reason => exact fun c d before => ⟨d, before⟩
  | level _ ih =>
    intro c d before
    rw [run_singleton,Action.run]
    cases entered : c.enter with
    | error reason => exact ⟨d, before⟩
    | ok inner =>
      have same : inner.writer = c.writer := by
        rw [Context.enter] at entered
        split at entered
        all_goals cases entered
        rfl
      exact ih inner d (same ▸ before)
  | @node tag body allowed _ ih =>
    have opening : (Token.opening tag).WellFormed := names.isToken allowed
    exact .append (.write opening) (.append ih (.write trivial))
  | append _ _ ihFirst ihSecond => exact ihFirst.append ihSecond

theorem Node.encode_shows {s : Settings} (names : s.HasTokenNames) (n : Node) {c : Context}
    {d : Draft} (before : c.writer.Shows d) : ∃ d, (n.encode s c).context.writer.Shows d := by
  have keeps := (Shaped.level (n.script_shaped s)).keepsDrafts names c d before
  rwa [Script.run_singleton] at keeps

namespace Sexpr.Writer

/-- At every time of a session the text has only grown, the depth is the number of nodes that were
opened and not closed, and with its open nodes closed the text is that of exactly one forest. The
steps of a pattern come to one step that writes its tree. An encoding in the midst of a session
leaves it so, wherever it stops. -/
theorem session_completes (steps : List Step) :
    let w := session {} steps
    (∀ step, (w.step? step = none ↔ step = .closeNode ∧ w.depth = 0) ∧
      ∃ more, (session {} (steps ++ [step])).text = w.text ++ more) ∧
    w.depth + (taken {} steps).count .closing = (taken {} steps).countP Token.isOpening ∧
    (∀ p : Pattern, (Step.tree p.toSexpr).WellFormed ∧
      w.session p.steps = w.take (.tree p.toSexpr)) ∧
    ((∀ step ∈ steps, step.WellFormed) →
      (∃! forest, w.CompletesTo forest) ∧
      ∀ (s : Settings) (n : Node) (c : Context), s.HasTokenNames → c.writer = w →
        ∃! forest, (n.encode s c).context.writer.CompletesTo forest) := by
  intro w
  have written := writeAll?_taken {} steps
  refine ⟨fun step => ⟨step?_eq_none_iff, ?_⟩, ?_, fun p => ⟨p.toSexpr_wellFormed, ?_⟩,
    fun allowed => ?_⟩
  · refine (take_text w step).imp fun more grown => ?_
    rw [session,List.foldl_append]
    exact grown
  · have depth := writeAll?_depth written
    rw [Nat.add_comm]
    exact depth.symm
  · exact w.session_eq_take p.tokens_steps
  · obtain ⟨d, before⟩ := shows_empty.writeAll (taken_wellFormed allowed) written
    refine ⟨before.completes, fun s n c names same => ?_⟩
    have here : c.writer.Shows d := by rwa [same]
    obtain ⟨d, after⟩ := n.encode_shows names here
    exact after.completes

/-- A closing that is refused, a string with a bracket and a quote in it, a whole pattern, and an
encoding that gives up inside a node of its own. -/
theorem session_completes_partial :
    let steps : List Step :=
      [.closeNode, .openWithString "a" "(\"", .tree (Pattern.toSexpr (.constant "W"))]
    let outcome := (Node.expr (.field (.literal .null) "f")).encode {} { writer := session {} steps }
    session {} steps = ⟨"(a \"(\\\"\" (pgetConstant \"W\" ) ", 1⟩ ∧
    outcome.context.writer = ⟨"(a \"(\\\"\" (pgetConstant \"W\" ) (dot \"f\" ", 2⟩ ∧
    outcome.stop ≠ none ∧ (∃! forest, (session {} steps).CompletesTo forest) ∧
    ∃! forest, outcome.context.writer.CompletesTo forest := by
  intro steps outcome
  have patterns := (session_completes steps).2.2.1
  have allowed : ∀ step ∈ steps, step.WellFormed := by
    refine List.forall_mem_cons.mpr ⟨trivial, List.forall_mem_cons.mpr ⟨?_, ?_⟩⟩
    · exact (by decide : IsToken "a")
    · exact List.forall_mem_singleton.mpr (patterns (.constant "W")).1
  obtain ⟨completes, encodings⟩ := (session_completes steps).2.2.2 allowed
  refine ⟨by decide +kernel, by decide +kernel, by decide +kernel, completes, ?_⟩
  exact encodings {} (.expr (.field (.literal .null) "f")) { writer := session {} steps } (by decide)
    rfl

end Sexpr.Writer

end QueryLowering
