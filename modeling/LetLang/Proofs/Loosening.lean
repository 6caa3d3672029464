import LetLang.Proofs.Grouping

/-!
# `LetLang.Proofs.Loosening` — the same expression in a looser context

A looser context asks less of an operator that is to go on. So an expression is read in it by reading it
in the tighter context first, and then going on with the tree from where that has stopped
(`expression_resume`). All that is to be said about two contexts follows from this one equation: where the
tighter one fails, there is nothing to go on with, and otherwise each operator behind the tree takes for
its left operand what has been read in front of it.

## Contents
- `Parser.resume`, `climb_resume`, `expression_resume`: reading in two steps.
- `Expr.leftSpine`: the nodes that are left operands of each other, with `climb_leftSpine`.
- `expression_loosen`: an expression in two contexts, for every dialect and state.
-/

namespace LetLang

/-- The nodes from the root to the first operand, each the left operand of the one before. -/
def Expr.leftSpine : Expr → List Expr
  | binary token left operator right => binary token left operator right :: left.leftSpine
  | e => [e]

theorem Expr.mem_leftSpine_self (e : Expr) : e ∈ e.leftSpine := by
  cases e <;> exact List.mem_cons_self

theorem Expr.leftSpine_subset {inner e : Expr} (h : inner ∈ e.leftSpine) :
    inner.leftSpine ⊆ e.leftSpine := by
  induction e with
  | binary token left operator right ih =>
      rcases List.mem_cons.mp h with rfl | h
      · exact List.Subset.refl _
      · exact List.subset_cons_of_subset _ (ih h)
  | identifier | integer | boolean | unary =>
      obtain rfl := List.mem_singleton.mp h
      exact List.Subset.refl _

namespace Parser

variable {s t : Parser} {loose tight floor : Power} {left e : Expr}

/-! ## Reading in two steps -/

/-- Goes on with what has been read, in a context of power `floor`, if there is something. -/
def resume (floor : Power) : Option Expr × Parser → Option Expr × Parser
  | (none, t) => (none, t)
  | (some left, t) => t.climb floor left

/-- A round of a climb takes one operator with its right operand. -/
theorem Carries.climb_eq (h : s.Carries floor) (left : Expr) :
    s.climb floor left = resume floor (s.takeOperator.join left) := by
  rw [Parser.climb_eq]
  exact if_pos h

theorem climb_of_not_carries (h : ¬s.Carries floor) (left : Expr) :
    s.climb floor left = (some left, s) := by
  rw [Parser.climb_eq]
  exact if_neg h

/-- What goes on in a context goes on in a looser one. -/
theorem Carries.loosen (h : s.Carries tight) (hle : loose ≤ tight) : s.Carries loose := by
  have hlt := h.floor_lt
  obtain ⟨hcontinues, hjoins⟩ := h
  rw [continues, Bool.and_eq_true] at hcontinues
  refine ⟨?_, hjoins⟩
  rw [continues, Bool.and_eq_true]
  exact ⟨hcontinues.1, decide_eq_true (Nat.lt_of_le_of_lt hle hlt)⟩

/-- **A climb in a looser context goes through the tighter one**, by recursion on what lies ahead. -/
theorem climb_resume (hle : loose ≤ tight) (left : Expr) (s : Parser) :
    s.climb loose left = resume loose (s.climb tight left) := by
  by_cases h : s.Carries tight
  · -- The round is the same in both, and there is less ahead behind it.
    have hahead := s.takeOperator.ahead_join_le left
    have hlt := ahead_takeOperator_lt h.2
    rw [h.climb_eq, (h.loosen hle).climb_eq]
    generalize s.takeOperator.join left = joined at hahead ⊢
    obtain ⟨result, t⟩ := joined
    cases result with
    | none => rfl
    | some joined => exact climb_resume hle joined t
  · rw [climb_of_not_carries h]
    rfl
termination_by s.ahead
decreasing_by exact Nat.lt_of_le_of_lt hahead hlt

/-- **An expression in a looser context is the one in the tighter context, carried on.** -/
theorem expression_resume (hle : loose ≤ tight) (s : Parser) :
    s.expression loose = resume loose (s.expression tight) := by
  rw [expression_eq loose, expression_eq tight]
  cases s.dialect.operand s.current.kind with
  | none => rfl
  | some rule =>
      dsimp only
      generalize s.operand rule = read
      obtain ⟨result, t⟩ := read
      cases result with
      | none => rfl
      | some left => exact climb_resume hle left t

/-! ## What is carried on -/

/-- **A climb keeps its tree on the left spine**: each operator takes for its left operand what has been
    read in front of it. -/
theorem Run.leftSpine {call : Call} {result : Option Expr} (h : Run call s result t)
    (hcall : call = .climb floor left) : ∀ e ∈ result, left ∈ e.leftSpine := by
  induction h generalizing left with
  | stop =>
      obtain ⟨rfl, rfl⟩ := Call.climb.inj hcall
      intro e he
      obtain rfl := Option.some.inj he
      exact Expr.mem_leftSpine_self _
  | climb _ hjoin _ _ ih =>
      obtain ⟨rfl, rfl⟩ := Call.climb.inj hcall
      intro e he
      cases hjoin with
      | join =>
          -- The tree is the left operand of the new root, and that one stays on the spine.
          exact Expr.leftSpine_subset (ih rfl e he)
            (List.mem_cons_of_mem _ (Expr.mem_leftSpine_self _))
  | climbFails => exact nofun
  | _ => exact nomatch hcall

theorem climb_leftSpine (h : s.climb floor left = (some e, t)) : left ∈ e.leftSpine := by
  have hrun := run_climb floor left s
  rw [h] at hrun
  exact hrun.leftSpine rfl e rfl

/-- More tokens are consumed by going on. -/
theorem consumed_isPrefix {u : Parser} {call call' : Call} {result result' : Option Expr}
    (h : Run call s result t) (h' : Run call' t result' u) : s.consumed t <+: s.consumed u := by
  obtain ⟨moved, hst⟩ := h.exists_moved
  obtain ⟨more, htu⟩ := h'.exists_moved
  rw [hst.consumed_eq, (hst.trans htu).consumed_eq, ← List.cons_append]
  exact List.prefix_append _ more

/-! ## Two contexts -/

/-- **A looser context reads on from where a tighter one stops.** If the tighter one gives nothing, the
    looser one gives nothing, and ends in the same state with the same diagnostics. If both give trees,
    the tokens that are consumed in the tighter context are the first ones of those that are consumed in
    the looser one, and the tree of the tighter context is the root of the other one or is reached from
    it through left operands alone. -/
theorem expression_loosen (h : loose ≤ tight) (s : Parser) :
    ((s.expression tight).1 = none → s.expression loose = s.expression tight) ∧
      ∀ e t e' t', s.expression tight = (some e, t) → s.expression loose = (some e', t') →
        s.consumed t <+: s.consumed t' ∧ e ∈ e'.leftSpine := by
  rw [expression_resume h s]
  have hrun := run_expression tight s
  constructor
  · intro hnone
    generalize s.expression tight = read at hnone ⊢
    obtain ⟨result, t⟩ := read
    obtain rfl : result = none := hnone
    rfl
  · intro e t e' t' htight hloose
    rw [htight] at hrun hloose
    have hclimb : t.climb loose e = (some e', t') := hloose
    have hrunClimb := run_climb loose e t
    rw [hclimb] at hrunClimb
    exact ⟨consumed_isPrefix hrun hrunClimb, climb_leftSpine hclimb⟩

/-- A product within a comparison, and a group that is not closed. -/
theorem expression_loosen_comparison :
    let s := start .standard (.ofString "a*b+c==d")
    let failing := start .standard (.ofString "-(a")
    (∃ e t e' t', s.expression .sum = (some e, t) ∧ s.expression .lowest = (some e', t') ∧
      e.render = "(a*b)" ∧ e'.render = "(((a*b)+c)==d)" ∧
      s.consumed t <+: s.consumed t' ∧ e ∈ e'.leftSpine) ∧
    (failing.expression .product).1 = none ∧
      failing.expression .lowest = failing.expression .product := by
  intro s failing
  have hle : Power.lowest ≤ Power.sum := by decide
  have hle' : Power.lowest ≤ Power.product := by decide
  have htight : (s.expression .sum).1.map Expr.render = some "(a*b)" := by decide +kernel
  have hloose : (s.expression .lowest).1.map Expr.render = some "(((a*b)+c)==d)" := by decide +kernel
  obtain ⟨e, he, hshown⟩ := Option.map_eq_some_iff.mp htight
  obtain ⟨e', he', hshown'⟩ := Option.map_eq_some_iff.mp hloose
  have hread : s.expression .sum = (some e, (s.expression .sum).2) := by rw [← he]
  have hread' : s.expression .lowest = (some e', (s.expression .lowest).2) := by rw [← he']
  have hnone : (failing.expression .product).1 = none := by decide +kernel
  exact ⟨⟨e, _, e', _, hread, hread', hshown, hshown', (expression_loosen hle s).2 _ _ _ _ hread hread'⟩,
    hnone, (expression_loosen hle' failing).1 hnone⟩

end Parser

end LetLang
