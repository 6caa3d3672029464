import LetLang.Proofs.Progress
import LetLang.Proofs.Recovery

/-!
# `LetLang.Proofs.Grouping` — how operators group, whatever the dialect

A dialect may give operators any powers, tighter ones than those of the operators in front of an operand
too, and may use a kind both in front of an operand and between two. What an operator takes for its
operands depends on the powers alone.

An expression goes on as long as the next operator binds more tightly than the context asks. So where a
tree has been read, no node on its right spine goes on: each of them has stopped at the token that follows
all of them. If that token is an operator and takes the tree for its left operand, it binds no more tightly
than any of these nodes. This is what grouping to the left means, and `Expr.Ends` carries it through a run.

## Contents
- `Parser.Moved`, `Parser.consumed`: the tokens that the parser moves over.
- `Expr.rootPower?`, `Expr.rightSpine`, `Expr.Grouped`: trees that are grouped as their operators bind.
- `Parser.Carries`, `Expr.Ends`: what goes on at a token, and what has stopped there.
- `Run.gives`: every call reads the tokens that it moves over, and keeps trees grouped.
- `expression_grouped`: expressions, in every dialect and state.
-/

namespace LetLang

/-! ## Grouped trees -/

namespace Expr

variable (d : Dialect)

/-- The power of the operator at the root, if it stands between two operands. -/
def rootPower? : Expr → Option Power
  | binary token _ _ _ => some (d.powerOf token.kind)
  | _ => none

/-- The nodes from the root to the last token, each the right operand of the one before. -/
def rightSpine : Expr → List Expr
  | unary token operator right => unary token operator right :: right.rightSpine
  | binary token left operator right => binary token left operator right :: right.rightSpine
  | leaf => [leaf]

/-- Is there an operator in front of its operand at the root? -/
def isUnary : Expr → Bool
  | unary _ _ _ => true
  | _ => false

/-- The tree can be the left operand of an operator of power `p`. That one binds no more tightly than an
    operator at the root, and if the end of the tree is the operand of an operator in front of it, no more
    tightly than these do. -/
def Yields (p : Power) (e : Expr) : Prop :=
  (∀ q ∈ e.rootPower? d, p ≤ q) ∧ ∀ node ∈ e.rightSpine, node.isUnary = true → p ≤ .unary

/-- Every operator has the operands that its power gives it. -/
def Grouped : Expr → Prop
  | unary _ _ right => right.Grouped ∧ ∀ q ∈ right.rootPower? d, .unary < q
  | binary token left _ right =>
      left.Grouped ∧ right.Grouped ∧ left.Yields d (d.powerOf token.kind) ∧
        ∀ q ∈ right.rootPower? d, d.powerOf token.kind < q
  | _ => True

end Expr

namespace Parser

variable {s t u : Parser} {moved more : List Token}

/-! ## The tokens that are moved over -/

/-- From `s` to `t` the parser moves on to the tokens `moved`, which are those behind its current one. This
    is said of any state, also of one that is in front of no list of tokens. -/
structure Moved (s : Parser) (moved : List Token) (t : Parser) : Prop where
  visited : t.visited = s.visited ++ moved
  tokens : ∀ i (h : i < moved.length), moved[i] = s.tokenAt (i + 1)
  ahead : ∀ i, t.tokenAt i = s.tokenAt (i + moved.length)
  dialect : t.dialect = s.dialect

/-- The tokens from the current one on that the parser has read from `s` to `t`, by its journal. -/
def consumed (s t : Parser) : List Token := s.current :: t.visited.drop s.visited.length

theorem Moved.refl (s : Parser) : s.Moved [] s where
  visited := (List.append_nil _).symm
  tokens _ h := absurd h (Nat.not_lt_zero _)
  ahead _ := rfl
  dialect := rfl

theorem Moved.trans (hst : s.Moved moved t) (htu : t.Moved more u) : s.Moved (moved ++ more) u where
  visited := by rw [htu.visited, hst.visited, List.append_assoc]
  tokens i h := by
    rw [List.getElem_append]
    split
    · next hi => exact hst.tokens i hi
    · next hi =>
        rw [htu.tokens, hst.ahead]
        congr 1
        omega
  ahead i := by
    rw [htu.ahead, hst.ahead, List.length_append]
    congr 1
    omega
  dialect := htu.dialect.trans hst.dialect

theorem moved_report (s : Parser) (d : Diagnostic) : s.Moved [] (s.report d) where
  visited := by simp
  tokens _ h := absurd h (Nat.not_lt_zero _)
  ahead i := tokenAt_report s d i
  dialect := rfl

theorem moved_advance (s : Parser) : s.Moved [s.peek] s.advance where
  visited := visited_advance s
  tokens i h := by
    obtain rfl : i = 0 := Nat.lt_one_iff.mp h
    rfl
  ahead _ := rfl
  dialect := rfl

theorem moved_takeOperator (s : Parser) : s.Moved [s.peek] s.takeOperator where
  visited := by simp [takeOperator]
  tokens := s.moved_advance.tokens
  ahead i := tokenAt_note s.advance _ i
  dialect := rfl

theorem Moved.consumed_eq (h : s.Moved moved t) : s.consumed t = s.current :: moved := by
  rw [consumed, h.visited, List.drop_left]

/-- What has been consumed are the first tokens in front of the parser. -/
theorem Moved.map_tokenAt (h : s.Moved moved t) :
    (List.range (moved.length + 1)).map s.tokenAt = s.current :: moved := by
  rw [List.range_succ_eq_map, List.map_cons, List.map_map]
  congr 1
  apply List.ext_getElem
  · simp
  · intro i _ hi
    simp [h.tokens i hi]

/-! ## What goes on at a token -/

/-- The next token goes on with an expression, in a context of power `floor`. -/
def Carries (s : Parser) (floor : Power) : Prop :=
  s.continues floor = true ∧ s.dialect.joins s.peek.kind = true

variable {floor p : Power} {left right e : Expr} {call : Call} {result : Option Expr}

theorem Carries.floor_lt (h : s.Carries floor) : floor < s.peekPower := by
  have hcontinues := h.1
  rw [continues, Bool.and_eq_true] at hcontinues
  exact of_decide_eq_true hcontinues.2

/-- An operator that goes on in one context and not in another one binds no more tightly than that. -/
theorem Carries.le_of_not (h : s.Carries floor) (hstops : ¬s.Carries p) : s.peekPower ≤ p := by
  have hcontinues := h.1
  rw [continues, Bool.and_eq_true] at hcontinues
  refine Nat.le_of_not_lt fun hlt => hstops ⟨?_, h.2⟩
  rw [continues, Bool.and_eq_true]
  exact ⟨hcontinues.1, decide_eq_true hlt⟩

end Parser

/-- No node on the right spine goes on at the token that is next for `t`. -/
def Expr.Ends (t : Parser) : Expr → Prop
  | unary _ _ right => ¬t.Carries .unary ∧ right.Ends t
  | binary token _ _ right => ¬t.Carries (t.dialect.powerOf token.kind) ∧ right.Ends t
  | _ => True

namespace Parser

variable {s t u : Parser} {moved more : List Token} {floor p : Power} {left right e : Expr}
  {call : Call} {result : Option Expr}

theorem stops_of_isUnary (h : e.Ends t) {node : Expr} (hnode : node ∈ e.rightSpine)
    (hunary : node.isUnary = true) : ¬t.Carries .unary := by
  induction e with
  | unary _ _ right ih => exact h.1
  | binary _ _ _ right _ ih =>
      rcases List.mem_cons.mp hnode with rfl | hnode
      · exact nomatch hunary
      · exact ih h.2 hnode
  | identifier | integer | boolean =>
      rw [List.mem_singleton.mp hnode] at hunary
      exact nomatch hunary

/-- **An operator can take for its left operand the tree that has stopped in front of it.** -/
theorem Carries.yields (h : s.Carries floor) (hends : e.Ends s) : e.Yields s.dialect s.peekPower := by
  constructor
  · intro q hq
    cases e with
    | binary token left operator right =>
        obtain rfl := Option.some.inj hq
        exact h.le_of_not hends.1
    | unary | identifier | integer | boolean => exact nomatch hq
  · intro node hnode hunary
    exact h.le_of_not (stops_of_isUnary hends hnode hunary)

/-! ## What calls give -/

/-- A tree that has been read, up to where the parser stands. -/
structure Settled (t : Parser) (e : Expr) : Prop where
  grouped : e.Grouped t.dialect
  ends : e.Ends t

/-- The tree is one that can stand in a context of power `floor`. -/
structure Within (floor : Power) (t : Parser) (e : Expr) : Prop extends t.Settled e where
  floor_lt : ∀ q ∈ e.rootPower? t.dialect, floor < q

/-- What the rules rely on when they call each other, groups left out. -/
def Given : Call → Parser → Prop
  | .expression _, s => s.dialect.operand s.current.kind ≠ some .group
  | .operand rule, _ => rule ≠ .group
  | .climb floor left, s => s.Within floor left
  | .join left, s => left.Grouped s.dialect ∧ left.Yields s.dialect s.currentPower

/-- The tokens that are part of the tree already when a call begins to move. -/
def taken : Call → Parser → List Token
  | .expression _, s => [s.current]
  | .operand _, s => [s.current]
  | .climb _ left, _ => left.nodes
  | .join left, s => left.nodes ++ [s.current]

/-- What a call makes of its tree. -/
def Makes : Call → Parser → Expr → Parser → Prop
  | .expression floor, _, e, t => t.Within floor e ∧ ¬t.Carries floor
  | .operand _, _, e, t => t.Settled e ∧ e.rootPower? t.dialect = none
  | .climb floor _, _, e, t => t.Within floor e ∧ ¬t.Carries floor
  | .join _, s, e, t => t.Settled e ∧ e.rootPower? t.dialect = some s.currentPower

/-- No token opens a group. -/
def OpensNone (s : Parser) (tokens : List Token) : Prop :=
  ∀ token ∈ tokens, s.dialect.operand token.kind ≠ some .group

theorem OpensNone.of_moved {tokens : List Token} (h : s.OpensNone tokens) (hst : s.Moved moved t) :
    t.OpensNone tokens := by
  unfold OpensNone
  rwa [hst.dialect]

/-- A call moves over tokens, and if no group is among them, they are what it adds to its tree. -/
def Gives (call : Call) (s : Parser) (result : Option Expr) (t : Parser) : Prop :=
  ∃ moved, s.Moved moved t ∧ (s.OpensNone moved → Given call s → ∀ e ∈ result,
    e.nodes = taken call s ++ moved ∧ Makes call s e t)

theorem Moved.gives_none (h : s.Moved moved t) : Gives call s none t :=
  ⟨moved, h, nofun⟩

theorem Gives.fails {rest : Call} (hst : s.Moved moved t) (h : Gives rest t none u) :
    Gives call s none u := by
  obtain ⟨more, htu, _⟩ := h
  exact (hst.trans htu).gives_none

/-- An operand of one token is that token. -/
theorem gives_leaf {rule : OperandRule} {leaf : Expr} (hnodes : leaf.nodes = [s.current])
    (hsettled : s.Settled leaf) (hroot : leaf.rootPower? s.dialect = none) :
    Gives (.operand rule) s (some leaf) s := by
  refine ⟨[], Moved.refl s, ?_⟩
  intro _ _ e he
  obtain rfl := Option.some.inj he
  exact ⟨hnodes, hsettled, hroot⟩

theorem gives_operandThen {rule : OperandRule} (h : s.dialect.operand s.current.kind = some rule)
    (hoperand : Gives (.operand rule) s (some left) t) (hclimb : Gives (.climb floor left) t result u) :
    Gives (.expression floor) s result u := by
  obtain ⟨moved, hst, hleft⟩ := hoperand
  obtain ⟨more, htu, hrest⟩ := hclimb
  refine ⟨moved ++ more, hst.trans htu, ?_⟩
  intro hopen hgiven e he
  obtain ⟨hopen, hopen'⟩ := List.forall_mem_append.mp hopen
  have hrule : rule ≠ .group := by
    rintro rfl
    exact hgiven h
  obtain ⟨hnodes, hsettled, hroot⟩ := hleft hopen hrule left rfl
  have hwithin : t.Within floor left := ⟨hsettled, by simp [hroot]⟩
  obtain ⟨hnodes', hmakes⟩ := hrest (OpensNone.of_moved hopen' hst) hwithin e he
  refine ⟨?_, hmakes⟩
  rw [hnodes', ← List.append_assoc]
  exact congrArg (· ++ more) hnodes

theorem gives_unary (h : Gives (.expression .unary) s.advance (some right) t) :
    Gives (.operand .unary) s (some (.unary s.current s.current.text right)) t := by
  obtain ⟨more, htu, hrest⟩ := h
  refine ⟨s.peek :: more, s.moved_advance.trans htu, ?_⟩
  intro hopen _ e he
  obtain rfl := Option.some.inj he
  obtain ⟨hfirst, hopen⟩ := List.forall_mem_cons.mp hopen
  obtain ⟨hnodes, hwithin, hstops⟩ := hrest hopen hfirst right rfl
  refine ⟨?_, ⟨⟨hwithin.grouped, hwithin.floor_lt⟩, hstops, hwithin.ends⟩, rfl⟩
  rw [Expr.nodes, hnodes]
  rfl

theorem gives_stop (h : ¬s.Carries floor) : Gives (.climb floor left) s (some left) s := by
  refine ⟨[], Moved.refl s, ?_⟩
  intro _ hwithin e he
  obtain rfl := Option.some.inj he
  exact ⟨(List.append_nil _).symm, hwithin, h⟩

/-- The operator that goes on takes for its left operand what has been read in front of it. -/
theorem gives_climb (h : s.Carries floor) {joined : Expr}
    (hjoin : Gives (.join left) s.takeOperator (some joined) t)
    (hclimb : Gives (.climb floor joined) t result u) : Gives (.climb floor left) s result u := by
  obtain ⟨moved, hst, hjoined⟩ := hjoin
  obtain ⟨more, htu, hrest⟩ := hclimb
  have hst' := s.moved_takeOperator.trans hst
  refine ⟨([s.peek] ++ moved) ++ more, hst'.trans htu, ?_⟩
  intro hopen hwithin e he
  obtain ⟨hopen, hopen'⟩ := List.forall_mem_append.mp hopen
  obtain ⟨_, hopen⟩ := List.forall_mem_append.mp hopen
  obtain ⟨hnodes, hsettled, hroot⟩ := hjoined hopen ⟨hwithin.grouped, h.yields hwithin.ends⟩ joined rfl
  have hfloor : ∀ q ∈ joined.rootPower? t.dialect, floor < q := by
    intro q hq
    obtain rfl := Option.some.inj (hroot.symm.trans hq)
    exact h.floor_lt
  obtain ⟨hnodes', hmakes⟩ := hrest (OpensNone.of_moved hopen' hst') ⟨hsettled, hfloor⟩ e he
  refine ⟨?_, hmakes⟩
  calc e.nodes = joined.nodes ++ more := hnodes'
    _ = ((left.nodes ++ [s.peek]) ++ moved) ++ more := congrArg (· ++ more) hnodes
    _ = left.nodes ++ (([s.peek] ++ moved) ++ more) := by simp only [List.append_assoc]

theorem gives_join (h : Gives (.expression s.currentPower) s.advance (some right) t) :
    Gives (.join left) s (some (.binary s.current left s.current.text right)) t := by
  obtain ⟨more, htu, hrest⟩ := h
  have hst := s.moved_advance.trans htu
  refine ⟨s.peek :: more, hst, ?_⟩
  rintro hopen ⟨hgrouped, hyields⟩ e he
  obtain rfl := Option.some.inj he
  obtain ⟨hfirst, hopen⟩ := List.forall_mem_cons.mp hopen
  obtain ⟨hnodes, hwithin, hstops⟩ := hrest hopen hfirst right rfl
  have hpower : t.dialect.powerOf s.current.kind = s.currentPower := by rw [currentPower, hst.dialect]
  rw [← hst.dialect] at hgrouped hyields
  rw [← hpower] at hyields hwithin hstops
  refine ⟨?_, ⟨⟨hgrouped, hwithin.grouped, hyields, hwithin.floor_lt⟩, hstops, hwithin.ends⟩, ?_⟩
  · rw [Expr.nodes, hnodes]
    exact List.append_cons left.nodes s.current (s.peek :: more)
  · exact congrArg some hpower

/-- **Every call reads the tokens that it moves over, and keeps trees grouped.** -/
theorem Run.gives (h : Run call s result t) : Gives call s result t := by
  induction h with
  | noOperand | badInteger => exact (moved_report _ _).gives_none
  | operandFails _ _ ih => exact ih.fails (Moved.refl _)
  | operandThen h _ _ iho ihc => exact gives_operandThen h iho ihc
  | identifier | integer | boolean => exact gives_leaf rfl ⟨trivial, trivial⟩ rfl
  | unaryFails _ ih | groupFails _ ih | joinFails _ ih => exact ih.fails (moved_advance _)
  | unary _ ih => exact gives_unary ih
  | group _ _ ih =>
      obtain ⟨more, htu, _⟩ := ih
      exact ⟨_, ((moved_advance _).trans htu).trans (moved_advance _), fun _ hgiven => absurd rfl hgiven⟩
  | groupOpen _ _ ih =>
      obtain ⟨more, htu, _⟩ := ih
      exact (((moved_advance _).trans htu).trans (moved_report _ _)).gives_none
  | stop h => exact gives_stop h
  | climbFails _ _ ih => exact ih.fails (moved_takeOperator _)
  | climb h _ _ ihj ihc => exact gives_climb h ihj ihc
  | join _ ih => exact gives_join ih

theorem Run.exists_moved (h : Run call s result t) : ∃ moved, s.Moved moved t := by
  obtain ⟨moved, hst, _⟩ := h.gives
  exact ⟨moved, hst⟩

/-- **Whatever the dialect, operators group as they bind.** An expression without groups is made of the
    tokens that have been read for it, in their order, which are the first ones in front of the parser;
    the last one of them is where the parser stands then. An operator at the root binds more tightly than
    the context asks, and every operator within has the operands that its power gives it. -/
theorem expression_grouped {s t : Parser} {floor : Power} {e : Expr}
    (h : s.expression floor = (some e, t)) (hgroup : s.OpensNone (s.consumed t)) :
    e.nodes = s.consumed t ∧
    e.nodes = (List.range e.nodes.length).map s.tokenAt ∧
    (∀ i, t.tokenAt i = s.tokenAt (i + (e.nodes.length - 1))) ∧
    (∀ p ∈ e.rootPower? s.dialect, floor < p) ∧ e.Grouped s.dialect := by
  have hrun := run_expression floor s
  rw [h] at hrun
  obtain ⟨moved, hst, hgives⟩ := hrun.gives
  rw [hst.consumed_eq] at hgroup ⊢
  obtain ⟨hfirst, hmoved⟩ := List.forall_mem_cons.mp hgroup
  obtain ⟨hnodes, hwithin, _⟩ := hgives hmoved hfirst e rfl
  have hnodes : e.nodes = s.current :: moved := hnodes
  refine ⟨hnodes, ?_, ?_, ?_, ?_⟩
  · rw [hnodes, List.length_cons, hst.map_tokenAt]
  · rw [hnodes, List.length_cons, Nat.add_sub_cancel]
    exact hst.ahead
  · rw [← hst.dialect]
    exact hwithin.floor_lt
  · rw [← hst.dialect]
    exact hwithin.grouped

/-- A sign that stands in front of an operand and between two, beside a star that binds more tightly than
    the sign in front: that sign takes the whole product. -/
theorem expression_grouped_tight_star :
    let d := (((Dialect.empty.enter (.operand .ident .identifier) rfl).enter (.operand .dash .unary)
      rfl).enter (.operator .dash .sum) rfl).enter (.operator .star .call) rfl
    let s := start d (.ofString "a*-b*c-d")
    ∃ e t, s.expression .lowest = (some e, t) ∧ e.render = "((a*(-(b*c)))-d)" ∧
      e.nodes = s.consumed t ∧ e.Grouped d := by
  intro d s
  have hrender : (s.expression .lowest).1.map Expr.render = some "((a*(-(b*c)))-d)" := by decide +kernel
  obtain ⟨e, he, hshown⟩ := Option.map_eq_some_iff.mp hrender
  have hread : s.expression .lowest = (some e, (s.expression .lowest).2) := by rw [← he]
  have hgroup : ∀ token ∈ s.consumed (s.expression .lowest).2,
      s.dialect.operand token.kind ≠ some .group := by
    decide +kernel
  obtain ⟨hnodes, _, _, _, hgrouped⟩ := expression_grouped hread hgroup
  exact ⟨e, _, hread, hshown, hnodes, hgrouped⟩

end Parser

end LetLang
