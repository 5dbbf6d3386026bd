import Mathlib
import QueryLowering.Proofs.Grammar
import QueryLowering.Proofs.Nesting
import QueryLowering.Sexpr.Expectation

/-! The counters of trees. All of them count in the list of tags of a tree; and a tree that was read
has as many nodes as its text has opening brackets outside of strings, and as many as it has closing
ones. The reader keeps both numbers as it goes: the nodes that it has opened, and those that it has
finished. -/
namespace QueryLowering.Sexpr

mutual
/-- The tags of all nodes of a tree, from the root on. -/
def tags : Sexpr → List String
  | node tag args => tag :: tagsOf args
  | atom _ | string _ => []
def tagsOf : List Sexpr → List String
  | [] => []
  | t :: ts => tags t ++ tagsOf ts
end

theorem tagsOf_eq (ts : List Sexpr) : tagsOf ts = ts.flatMap tags := by
  induction ts with
  | nil => rw [tagsOf,List.flatMap_nil]
  | cons t ts ih => rw [tagsOf,List.flatMap_cons,ih]

@[simp] theorem tags_node (tag : String) (args : List Sexpr) :
    (node tag args).tags = tag :: args.flatMap tags := by
  rw [tags,tagsOf_eq]

@[simp] theorem tags_atom (text : String) : (atom text).tags = [] := by
  rw [tags]

@[simp] theorem tags_string (text : String) : (string text).tags = [] := by
  rw [tags]

theorem nodeCounts_eq (ts : List Sexpr) : nodeCounts ts = (ts.map nodeCount).sum := by
  induction ts with
  | nil => rw [nodeCounts,List.map_nil,List.sum_nil]
  | cons t ts ih => rw [nodeCounts,List.map_cons,List.sum_cons,ih]

theorem countTags_eq (tag : String) (ts : List Sexpr) :
    countTags tag ts = (ts.map (countTag tag)).sum := by
  induction ts with
  | nil => rw [countTags,List.map_nil,List.sum_nil]
  | cons t ts ih => rw [countTags,List.map_cons,List.sum_cons,ih]

theorem anyContainsTag_eq (tag : String) (ts : List Sexpr) :
    anyContainsTag tag ts = ts.any (containsTag tag) := by
  induction ts with
  | nil => rw [anyContainsTag,List.any_nil]
  | cons t ts ih => rw [anyContainsTag,List.any_cons,ih]

theorem nodeCount_eq_length (t : Sexpr) : t.nodeCount = t.tags.length := by
  induction t using Sexpr.induction with
  | node tag args ih =>
    rw [nodeCount,nodeCounts_eq,tags_node,List.length_cons,List.length_flatMap,
      List.map_congr_left ih,Nat.add_comm]
  | atom text => simp [nodeCount]
  | string text => simp [nodeCount]

theorem countTag_eq_count (t : Sexpr) (tag : String) : t.countTag tag = t.tags.count tag := by
  induction t using Sexpr.induction with
  | node own args ih =>
    rw [countTag,countTags_eq,tags_node,List.count_cons,List.count_flatMap,
      List.map_congr_left ih,Nat.add_comm]
    simp [Function.comp_def]
  | atom text => simp [countTag]
  | string text => simp [countTag]

theorem containsTag_iff_mem (t : Sexpr) (tag : String) :
    t.containsTag tag = true ↔ tag ∈ t.tags := by
  induction t using Sexpr.induction with
  | node own args ih =>
    rw [containsTag,anyContainsTag_eq,Bool.or_eq_true,List.any_eq_true,tags_node,List.mem_cons,
      List.mem_flatMap,beq_iff_eq,eq_comm]
    refine or_congr_right (exists_congr fun t => and_congr_right fun member => ?_)
    exact ih t member
  | atom text => simp [containsTag]
  | string text => simp [containsTag]

namespace Place

/-- The characters that are met outside of strings. A quote that begins a string is one of them. -/
def outer (p : Place) : List Char → List Char
  | [] => []
  | c :: cs =>
    match p with
    | outside _ => c :: (p.step c).outer cs
    | quoted _ | escaped _ => (p.step c).outer cs

theorem outer_cons (p : Place) (c : Char) (cs : List Char) :
    p.outer (c :: cs) = p.outer [c] ++ (p.step c).outer cs := by
  cases p <;> rfl

end Place

/-- The characters of a text outside of its strings. -/
def unquoted (text : String) : List Char := (Place.outside 0).outer text.toList

namespace Reader

variable {pos : Nat} {s next : State} {stack : List Frame} {c : Char} {cs : List Char} {t : Sexpr}

/-- Where in the text the reader is. -/
def State.place : State → Place
  | ⟨stack, .between⟩ | ⟨stack, .atom _⟩ => .outside stack.length
  | ⟨stack, .tag _⟩ => .outside (stack.length + 1)
  | ⟨stack, .string _ _ false⟩ => .quoted stack.length
  | ⟨stack, .string _ _ true⟩ => .escaped stack.length
  | ⟨_, .done _⟩ => .outside 0

/-- The nodes of the finished arguments. -/
def finishedIn (stack : List Frame) : Nat := (stack.map fun f => nodeCounts f.args).sum

/-- The nodes that are complete. -/
def State.finished : State → Nat
  | ⟨_, .done t⟩ => t.nodeCount
  | ⟨stack, _⟩ => finishedIn stack

/-- A character that is read leads to the next place. A bracket outside of strings opens a node or
finishes one, and no other character does. -/
structure Tallied (s : State) (c : Char) (next : State) : Prop where
  place : next.place = s.place.step c
  finished : next.finished = s.finished + (s.place.outer [c]).count ')'
  opened : next.finished + next.place.depth =
    s.finished + s.place.depth + (s.place.outer [c]).count '('

theorem deliver_place (t : Sexpr) (stack : List Frame) :
    (deliver t stack).place = .outside stack.length := by
  cases stack with
  | nil => rfl
  | cons f outer => rfl

theorem deliver_finished (t : Sexpr) (stack : List Frame) :
    (deliver t stack).finished = finishedIn stack + t.nodeCount := by
  cases stack with
  | nil => exact (Nat.zero_add _).symm
  | cons f outer =>
    simp only [deliver,State.finished,finishedIn,List.map_cons,List.sum_cons,nodeCounts]
    omega

theorem nodeCount_of_frame (f : Frame) :
    (Sexpr.node f.tag f.args.reverse).nodeCount = 1 + nodeCounts f.args := by
  rw [nodeCount,nodeCounts_eq,nodeCounts_eq,List.map_reverse,List.sum_reverse]

/-- Outside of strings a character other than the brackets and the quote changes nothing. -/
theorem tallied_plain {depth : Nat} (place : s.place = .outside depth)
    (nextPlace : next.place = .outside depth) (finished : next.finished = s.finished)
    (plain : c ≠ '(' ∧ c ≠ ')' ∧ c ≠ '"') : Tallied s c next := by
  obtain ⟨opening, closing, quote⟩ := plain
  refine ⟨?_, ?_, ?_⟩
  · rw [place,nextPlace,Place.step,if_neg opening,if_neg closing,if_neg quote]
  · simp [place,Place.outer,finished,closing]
  · simp [place,nextPlace,Place.outer,finished,opening]

theorem plain_of_isBlank (blank : Text.isBlank c = true) : c ≠ '(' ∧ c ≠ ')' ∧ c ≠ '"' := by
  refine ⟨?_, ?_, ?_⟩ <;>
  · rintro rfl
    cases blank

/-- What begins a lexeme, where the reader is outside of strings. -/
theorem start_tallied (started : start pos c stack = .ok next)
    (place : s.place = .outside stack.length) (finished : s.finished = finishedIn stack) :
    Tallied s c next := by
  unfold start at started
  split at started
  next blank =>
    cases started
    exact tallied_plain place rfl finished.symm (plain_of_isBlank blank)
  split at started
  next opening =>
    cases started
    subst opening
    refine ⟨by rw [place]; rfl, ?_, ?_⟩
    · rw [place,finished]
      rfl
    · rw [place,finished]
      rfl
  next opening =>
  split at started
  next quote =>
    cases started
    subst quote
    refine ⟨by rw [place]; rfl, ?_, ?_⟩
    · rw [place,finished]
      rfl
    · rw [place,finished]
      rfl
  next quote =>
  split at started
  next closing =>
    subst closing
    cases stack with
    | nil => cases started
    | cons f outer =>
      cases started
      have node := nodeCount_of_frame f
      have stacked : finishedIn (f :: outer) = nodeCounts f.args + finishedIn outer := by
        simp [finishedIn]
      refine ⟨?_, ?_, ?_⟩
      · rw [deliver_place,place]
        rfl
      · rw [deliver_finished,finished,place,node,stacked]
        simp [Place.outer]
        omega
      · rw [deliver_finished,deliver_place,finished,place,node,stacked]
        simp [Place.outer,Place.depth]
        omega
  next closing =>
    cases started
    exact tallied_plain place rfl finished.symm ⟨opening, closing, quote⟩

theorem afterResult_tallied (ended : afterResult pos c t = .ok next)
    (place : s.place = .outside 0) (finished : s.finished = t.nodeCount) : Tallied s c next := by
  unfold afterResult at ended
  split at ended
  next blank =>
    cases ended
    exact tallied_plain place rfl finished.symm (plain_of_isBlank blank)
  · cases ended

theorem step_tallied (step : s.step pos c = .ok next) : Tallied s c next := by
  obtain ⟨stack, mode⟩ := s
  cases mode with
  | between => exact start_tallied step rfl rfl
  | tag text =>
    simp only [State.step] at step
    split at step
    next allowed =>
      cases step
      exact tallied_plain rfl rfl rfl (isTokenChar_iff.mp allowed).2
    split at step
    · cases step
    next =>
      refine start_tallied step rfl ?_
      simp [State.finished,finishedIn,nodeCounts]
  | atom text =>
    simp only [State.step] at step
    split at step
    next allowed =>
      cases step
      exact tallied_plain rfl rfl rfl (isTokenChar_iff.mp allowed).2
    next =>
      cases stack with
      | nil =>
        refine afterResult_tallied step rfl ?_
        simp [State.finished,finishedIn,nodeCount]
      | cons f outer =>
        rw [endAtom] at step
        refine start_tallied step rfl ?_
        simp [State.finished,finishedIn,nodeCounts,nodeCount]
  | string begun text escaped =>
    cases escaped with
    | false =>
      simp only [State.step,stringChar,Except.ok.injEq] at step
      split at step
      next quote =>
        subst step quote
        refine ⟨by rw [deliver_place]; rfl, ?_, ?_⟩
        · rw [deliver_finished]
          simp [State.finished,State.place,Place.outer,nodeCount]
        · rw [deliver_finished,deliver_place]
          simp [State.finished,State.place,Place.outer,Place.depth,nodeCount]
      next quote =>
      split at step
      next backslash =>
        subst step backslash
        exact ⟨rfl, rfl, rfl⟩
      next backslash =>
        subst step
        refine ⟨?_, rfl, rfl⟩
        simp [State.place,Place.step,quote,backslash]
    | true =>
      cases step
      exact ⟨rfl, rfl, rfl⟩
  | done t => exact afterResult_tallied step rfl rfl

theorem finish_finished (ended : s.finish pos = .ok t) :
    s.finished = t.nodeCount ∧ s.place.depth = 0 := by
  unfold State.finish at ended
  split at ended
  all_goals cases ended
  · exact ⟨by simp [State.finished,finishedIn,nodeCount], rfl⟩
  · exact ⟨rfl, rfl⟩

/-- What is still to come has as many closing brackets as nodes are still to be finished, and as many
opening ones as nodes are still to be opened. -/
theorem run_tallied (read : run pos s cs = .ok t) :
    t.nodeCount = s.finished + (s.place.outer cs).count ')' ∧
    t.nodeCount = s.finished + s.place.depth + (s.place.outer cs).count '(' := by
  induction cs generalizing pos s with
  | nil =>
    obtain ⟨finished, closed⟩ := finish_finished read
    simp [Place.outer,finished,closed]
  | cons c cs ih =>
    rw [run] at read
    split at read
    next next step =>
      obtain ⟨place, finished, opened⟩ := step_tallied step
      have rest := ih read
      rw [Place.outer_cons,List.count_append,List.count_append,← place]
      omega
    next => cases read

end Reader

/-- The counters of a tree agree with each other, and with the text that the tree was read from. -/
theorem counters_agree (text : String) (t : Sexpr) :
    (read text = .ok t → t.nodeCount = (unquoted text).count '(' ∧
      t.nodeCount = (unquoted text).count ')') ∧
    (∀ tag, t.containsTag tag = true ↔ 0 < t.countTag tag) ∧
    (∀ tag, tag ∈ t.tags.toFinset ↔ t.containsTag tag = true) ∧
    ∑ tag ∈ t.tags.toFinset, t.countTag tag = t.nodeCount := by
  refine ⟨fun read => ?_, fun tag => ?_, fun tag => ?_, ?_⟩
  · obtain ⟨closings, openings⟩ := Reader.run_tallied read
    rw [show Reader.State.initial.finished = 0 from rfl,Nat.zero_add] at closings openings
    rw [show Reader.State.initial.place.depth = 0 from rfl,Nat.zero_add] at openings
    exact ⟨openings, closings⟩
  · rw [containsTag_iff_mem,countTag_eq_count,List.count_pos_iff]
  · rw [List.mem_toFinset,containsTag_iff_mem]
  · simp only [countTag_eq_count,nodeCount_eq_length]
    exact List.sum_toFinset_count_eq_length t.tags

/-- Brackets in a string, one of them behind a quote that does not end the string. -/
theorem counters_agree_quoted :
    read "(a\"(\\\")\"(b)(a \"\\\\\"))" =
      .ok (.node "a" [.string "(\")", .node "b" [], .node "a" [.string "\\"]]) ∧
    (unquoted "(a\"(\\\")\"(b)(a \"\\\\\"))").count '(' = 3 ∧
    (unquoted "(a\"(\\\")\"(b)(a \"\\\\\"))").count ')' = 3 := by
  have denoted : read "(a\"(\\\")\"(b)(a \"\\\\\"))" =
      .ok (.node "a" [.string "(\")", .node "b" [], .node "a" [.string "\\"]]) := by
    decide +kernel
  obtain ⟨openings, closings⟩ := (counters_agree _ _).1 denoted
  exact ⟨denoted, openings.symm, closings.symm⟩

end QueryLowering.Sexpr
