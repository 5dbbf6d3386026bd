import QueryLowering.Proofs.Reading

/-! Canonical texts. A tree whose tags and atoms are tokens reads back from its text, and no other
tree does; so writing a text anew gives it a form that depends only on the tree it denotes. -/
namespace QueryLowering.Sexpr

/-- The canonical text of the tree that a text denotes. -/
def reprint (text : String) : Except ReadError String := (read text).map render

theorem reprint_of_read {text : String} {t : Sexpr} (denoted : read text = .ok t) :
    reprint text = .ok t.render := by
  rw [reprint,denoted]
  rfl

theorem render_inj {t u : Sexpr} (left : t.WellFormed) (right : u.WellFormed) :
    t.render = u.render ↔ t = u := by
  refine ⟨fun same => ?_, fun same => by rw [same]⟩
  have first := read_render left
  rw [same,read_render right] at first
  exact (Except.ok.inj first).symm

theorem reprint_bind_reprint (text : String) : (reprint text).bind reprint = reprint text := by
  cases denoted : read text with
  | error e =>
    rw [reprint,denoted]
    rfl
  | ok t =>
    have again := reprint_of_read (read_render (read_wellFormed denoted))
    simp only [reprint_of_read denoted,Except.bind,again]

/-- A tree reads back from its text exactly when its tags and atoms are tokens. Every tree that is
read is of this kind, so its text is a canonical form: texts are written anew in the same way
exactly when they denote the same tree, and to do it twice changes nothing more. -/
theorem render_canonical (t : Sexpr) :
    (read t.render = .ok t ↔ t.WellFormed) ∧
    ∀ text, read text = .ok t → t.WellFormed ∧ read t.render = .ok t ∧
      (∀ other u, read other = .ok u → (reprint other = reprint text ↔ u = t)) ∧
      (reprint text).bind reprint = reprint text := by
  refine ⟨⟨read_wellFormed, read_render⟩, fun text denoted => ?_⟩
  have wellFormed := read_wellFormed denoted
  refine ⟨wellFormed, read_render wellFormed, fun other u otherDenoted => ?_,
    reprint_bind_reprint text⟩
  rw [reprint_of_read denoted,reprint_of_read otherDenoted,Except.ok.injEq]
  exact render_inj (read_wellFormed otherDenoted) wellFormed

/-- A text with blanks only where they are needed, and another one of the same tree. -/
theorem render_canonical_layouts :
    read "(a\"\\\") \"é(b))" = .ok (.node "a" [.string "\") ", .atom "é", .node "b" []]) ∧
    read (Sexpr.node "a" [.string "\") ", .atom "é", .node "b" []]).render =
      .ok (.node "a" [.string "\") ", .atom "é", .node "b" []]) ∧
    reprint "\u3000(a \"\\\"\\) \" é\n(b ))\t" = reprint "(a\"\\\") \"é(b))" := by
  have dense : read "(a\"\\\") \"é(b))" =
      .ok (.node "a" [.string "\") ", .atom "é", .node "b" []]) := by decide +kernel
  have wide : read "\u3000(a \"\\\"\\) \" é\n(b ))\t" =
      .ok (.node "a" [.string "\") ", .atom "é", .node "b" []]) := by decide +kernel
  obtain ⟨-, back, same, -⟩ := (render_canonical _).2 _ dense
  exact ⟨dense, back, (same _ _ wide).mpr rfl⟩

end QueryLowering.Sexpr
