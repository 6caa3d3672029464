import LetLang.Proofs.Frames
import LetLang.Proofs.Grouping
import LetLang.Proofs.Operators

/-!
# `LetLang.Proofs.Stopping` — where an expression stops

There are two tables of operators: one says which kinds join two operands, the other one by which power they
bind. A rule that takes operators asks the second table whether to go on, and the first one what to do then.
It could be told to go on and have nothing to do, and would have to give up in the middle of a climb. But
whoever makes an entry for an operator makes it in both tables, so they always have the same kinds.

So an expression stops for two reasons alone: a semicolon follows, or nothing that binds more tightly than the
context asks. A semicolon is not asked for its power, and so is never taken, even if it is an operator.

## Contents
- `Tables.Matched`, with `Matched.enterAll`: the tables of operators have the same kinds.
- `Operation.entry?`, `Parser.toTables_after`: the tables of a parser in use.
- `Run.stops`: what follows an expression does not carry it on.
- `Expr.joiners`, `Parser.operators`, `Run.joins`: the operators that are taken, by the tree and by the
  journal.
- `Parser.Stops`, `expression_stops`: where expressions stop, behind any calls.
-/

namespace LetLang

/-! ## The tables of operators -/

namespace Tables

/-- The tables with some entries more, one after the other. -/
def enterAll (tables : Tables) (entries : List Entry) : Tables := entries.foldl enter tables

/-- The kinds with a power are those that join operands. -/
def Matched (tables : Tables) : Prop := ∀ kind, tables.joins kind = (tables.power kind).isSome

theorem matched_standard : Dialect.standard.Matched := Dialect.joins_eq_isSome

variable {tables : Tables}

/-- An operator takes the place of an earlier one in both tables. -/
theorem Matched.enter (h : tables.Matched) (entry : Entry) : (tables.enter entry).Matched := by
  cases entry with
  | operator kind power =>
      intro k
      show assign tables.joins kind true k = (assign tables.power kind (some power) k).isSome
      by_cases hk : k = kind
      · subst hk
        rw [assign_self, assign_self]
        rfl
      · rw [assign_of_ne hk, assign_of_ne hk, h k]
  | statement | operand => exact h

/-- **No entries make the tables differ in their kinds**, whatever the kinds are. -/
theorem Matched.enterAll (h : tables.Matched) (entries : List Entry) :
    (tables.enterAll entries).Matched := by
  induction entries generalizing tables with
  | nil => exact h
  | cons entry entries ih => exact ih (h.enter entry)

/-- What binds more tightly than anything at all joins operands. -/
theorem Matched.joins_of_lt (h : tables.Matched) {kind : Kind} {floor : Power}
    (hlt : floor < tables.powerOf kind) : tables.joins kind = true := by
  rw [h kind, Option.isSome_iff_ne_none]
  intro hnone
  rw [powerOf, hnone] at hlt
  exact Nat.not_lt_zero _ hlt

end Tables

/-! ## The tables of a parser in use -/

/-- The entry that is made by a call, if one is. -/
def Operation.entry? : Operation → Option Entry
  | .enter entry _ => some entry
  | _ => none

/-- The power that a call asks operators to exceed, if it takes any itself. -/
def Call.floor? : Call → Option Power
  | .expression floor | .climb floor _ => some floor
  | .operand _ | .join _ => none

namespace Parser

variable {s t : Parser} {call : Call} {result : Option Expr} {floor : Power}

/-- The rules leave the tables as they are. -/
theorem toTables_apply (s : Parser) (operation : Operation) :
    (s.apply operation).dialect.toTables = s.dialect.enterAll operation.entry?.toList := by
  have hrules := (Abreast.refl s).interchangeable
  cases operation with
  | expect kind => exact congrArg Dialect.toTables (hrules.expect kind).dialect
  | expression floor => exact congrArg Dialect.toTables (hrules.expression floor).dialect
  | operand rule => exact congrArg Dialect.toTables (hrules.operand rule).dialect
  | join left => exact congrArg Dialect.toTables (hrules.join left).dialect
  | statement => exact congrArg Dialect.toTables hrules.statement.dialect
  | statementBy rule => exact congrArg Dialect.toTables (hrules.statementBy rule).dialect
  | program => exact congrArg Dialect.toTables hrules.program.dialect
  | advance | report | enter => rfl

/-- **Behind any calls a parser has the tables that their entries make.** -/
theorem toTables_after (s : Parser) (operations : List Operation) :
    (s.after operations).dialect.toTables =
      s.dialect.enterAll (operations.filterMap Operation.entry?) := by
  induction operations generalizing s with
  | nil => rfl
  | cons operation operations ih =>
      show ((s.apply operation).after operations).dialect.toTables = _
      rw [ih, toTables_apply]
      cases hentry : operation.entry? with
      | none => rw [List.filterMap_cons_none hentry]; rfl
      | some entry => rw [List.filterMap_cons_some hentry]; rfl

/-! ## What follows an expression -/

/-- A token that goes on by its power goes on. -/
theorem carries_of_continues (h : s.dialect.Matched) (hcontinues : s.continues floor = true) :
    s.Carries floor := by
  refine ⟨hcontinues, ?_⟩
  rw [continues, Bool.and_eq_true] at hcontinues
  exact h.joins_of_lt (of_decide_eq_true hcontinues.2)

/-- **What follows an expression does not carry it on**, whatever rule has come to its last token. -/
theorem Run.stops (h : Run call s result t) (hfloor : call.floor? = some floor)
    (hresult : result.isSome = true) : ¬t.Carries floor := by
  -- An expression ends where its climb ends, and a climb where there is no more to carry it on, whichever
  -- rule has read its last operand.
  induction h with
  | noOperand | operandFails | climbFails => exact nomatch hresult
  | identifier | integer | badInteger | boolean | unaryFails | unary | groupFails | group | groupOpen
  | joinFails | join => exact nomatch hfloor
  | operandThen _ _ _ _ ihclimb => exact ihclimb hfloor hresult
  | stop h =>
      obtain rfl := Option.some.inj hfloor
      exact h
  | climb _ _ _ _ ihclimb => exact ihclimb hfloor hresult

end Parser

/-! ## The operators that are taken -/

/-- The kinds of the operators between two operands, from left to right. -/
def Expr.joiners : Expr → List Kind
  | binary token left _ right => left.joiners ++ token.kind :: right.joiners
  | unary _ _ right => right.joiners
  | _ => []

/-- The kind of the operator, if the event tells that one is taken. -/
@[simp] def Event.operator? : Event → Option Kind
  | operator kind _ => some kind
  | _ => none

namespace Parser

/-- The kinds of the operators that have been taken, by the journal. -/
def operators (s : Parser) : List Kind := s.journal.toList.filterMap Event.operator?

@[simp] theorem operators_advance (s : Parser) : s.advance.operators = s.operators := by
  simp only [operators, advance, Array.toList_push, Array.toList_append, List.filterMap_append,
    filterMap_scanEvents (f := Event.operator?) fun _ _ => rfl]
  exact (List.append_nil _).trans (List.append_nil _)

@[simp] theorem operators_report (s : Parser) (diagnostic : Diagnostic) :
    (s.report diagnostic).operators = s.operators := by
  simp [operators, report]

theorem operators_takeOperator (s : Parser) :
    s.takeOperator.operators = s.operators ++ [s.peek.kind] := by
  rw [← operators_advance s]
  simp [operators, takeOperator, note]
  rfl

variable {s t u : Parser} {call rest : Call} {result : Option Expr} {floor : Power}
  {taken more : List Kind}

/-- From `s` to `t` the operators `taken` are taken, and no semicolon is among them. -/
structure Takes (s : Parser) (taken : List Kind) (t : Parser) : Prop where
  operators : t.operators = s.operators ++ taken
  semicolon : .semicolon ∉ taken

theorem takes_nil (h : t.operators = s.operators) : s.Takes [] t :=
  ⟨by rw [h, List.append_nil], List.not_mem_nil⟩

theorem Takes.trans (hst : s.Takes taken t) (htu : t.Takes more u) : s.Takes (taken ++ more) u where
  operators := by rw [htu.operators, hst.operators, List.append_assoc]
  semicolon hmem := (List.mem_append.mp hmem).elim hst.semicolon htu.semicolon

theorem Takes.of_advance (h : s.advance.Takes taken t) : s.Takes taken t :=
  ⟨by rw [h.operators, operators_advance], h.semicolon⟩

theorem Carries.ne_semicolon (h : s.Carries floor) : s.peek.kind ≠ .semicolon := by
  have hcontinues := h.1
  rw [continues, Bool.and_eq_true] at hcontinues
  exact of_decide_eq_true hcontinues.1

/-- An operator that is taken has gone on, so it is no semicolon. -/
theorem Carries.takes (h : s.Carries floor) : s.Takes [s.peek.kind] s.takeOperator where
  operators := s.operators_takeOperator
  semicolon hmem := h.ne_semicolon (List.mem_singleton.mp hmem).symm

/-- The operators that are part of the tree already when a call begins. -/
def joined : Call → Parser → List Kind
  | .expression _, _ | .operand _, _ => []
  | .climb _ left, _ => left.joiners
  | .join left, s => left.joiners ++ [s.current.kind]

/-- A call adds to its tree the operators that it takes. -/
def Joins (call : Call) (s : Parser) (result : Option Expr) (t : Parser) : Prop :=
  ∃ taken, s.Takes taken t ∧ ∀ e ∈ result, e.joiners = joined call s ++ taken

theorem Takes.fails (h : s.Takes taken t) : Joins call s none t := ⟨taken, h, nofun⟩

/-- A call that hands on what another one gives behind its first steps. -/
theorem Joins.of_takes (hst : s.Takes taken t) (h : Joins rest t result u)
    (hjoined : joined rest t = joined call s ++ taken) : Joins call s result u := by
  obtain ⟨more, htu, htree⟩ := h
  refine ⟨taken ++ more, hst.trans htu, fun e he => ?_⟩
  rw [htree e he, hjoined, List.append_assoc]

/-- A call that gives another tree than the one behind its first steps, but with the same operators. -/
theorem joins_some {tree : Expr} (h : s.Takes taken t) (htree : tree.joiners = joined call s ++ taken) :
    Joins call s (some tree) t := by
  refine ⟨taken, h, fun e he => ?_⟩
  rw [← Option.some.inj he, htree]

/-- **The operators of a tree are those that have been taken for it**, and no semicolon is among them. -/
theorem Run.joins (h : Run call s result t) : Joins call s result t := by
  -- Every call hands on what it has taken; only a climb takes an operator itself, for the join behind it.
  induction h with
  | noOperand | badInteger => exact (takes_nil (operators_report _ _)).fails
  | operandFails _ _ ih =>
      obtain ⟨taken, htakes, _⟩ := ih
      exact htakes.fails
  | operandThen _ _ _ iho ihc =>
      obtain ⟨taken, htakes, htree⟩ := iho
      exact ihc.of_takes htakes (htree _ rfl)
  | identifier | integer | boolean => exact joins_some (takes_nil rfl) rfl
  | unaryFails _ ih | groupFails _ ih | joinFails _ ih =>
      obtain ⟨taken, htakes, _⟩ := ih
      exact htakes.of_advance.fails
  | @unary s t right _ ih =>
      obtain ⟨taken, htakes, htree⟩ := ih
      exact joins_some htakes.of_advance (htree right rfl)
  | group _ _ ih =>
      obtain ⟨taken, htakes, htree⟩ := ih
      have hclose := htakes.of_advance.trans (takes_nil (operators_advance _))
      rw [List.append_nil] at hclose
      exact joins_some hclose (htree _ rfl)
  | groupOpen _ _ ih =>
      obtain ⟨taken, htakes, _⟩ := ih
      exact (htakes.of_advance.trans (takes_nil (operators_report _ _))).fails
  | stop => exact joins_some (takes_nil rfl) (List.append_nil _).symm
  | climbFails h _ ih =>
      obtain ⟨taken, htakes, _⟩ := ih
      exact ((Carries.takes h).trans htakes).fails
  | climb h _ _ ihj ihc =>
      obtain ⟨taken, htakes, htree⟩ := ihj
      refine ihc.of_takes ((Carries.takes h).trans htakes) ?_
      exact (htree _ rfl).trans (List.append_assoc ..)
  | join _ ih =>
      obtain ⟨taken, htakes, htree⟩ := ih
      refine joins_some htakes.of_advance ?_
      rw [Expr.joiners, htree _ rfl]
      exact List.append_cons ..

/-! ## Where expressions stop -/

/-- At `s`, in a context of power `floor`, an expression stops only where it should. -/
structure Stops (s : Parser) (floor : Power) : Prop where
  /-- Whatever goes on by its power joins operands. -/
  carries : s.continues floor = true → s.dialect.joins s.peek.kind = true
  /-- So a climb goes on by the powers alone, and is never given up. -/
  climbs : ∀ left, s.climb floor left =
    if s.continues floor then
      match s.takeOperator.join left with
      | (none, t) => (none, t)
      | (some joined, t) => t.climb floor joined
    else (some left, s)
  /-- Behind an expression follows a semicolon, or nothing that binds more tightly. -/
  stopped : ∀ e t, s.expression floor = (some e, t) →
    t.peek.kind = .semicolon ∨ t.peekPower ≤ floor
  /-- No semicolon is taken as an operator, whether there is a tree or not. -/
  taken : ∃ kinds, (s.expression floor).2.operators = s.operators ++ kinds ∧ .semicolon ∉ kinds ∧
    ∀ e ∈ (s.expression floor).1, e.joiners = kinds

theorem stops_of_matched (h : s.dialect.Matched) (floor : Power) : s.Stops floor where
  carries hcontinues := (carries_of_continues h hcontinues).2
  climbs left := by
    rw [climb_eq]
    by_cases hcontinues : s.continues floor = true
    · have hcarries := carries_of_continues h hcontinues
      exact Eq.trans (if_pos ⟨hcontinues, hcarries.2⟩) (if_pos hcontinues).symm
    · rw [if_neg fun hcarries => hcontinues hcarries.1, if_neg hcontinues]
  stopped e t heq := by
    have hrun := run_expression floor s
    rw [heq] at hrun
    have hstops : ¬t.Carries floor := hrun.stops rfl rfl
    -- The rules have left the tables as they are, so these are matched where the expression ends.
    rw [← hrun.dialect_eq] at h
    by_cases hsemi : t.peek.kind = .semicolon
    · exact Or.inl hsemi
    · refine Or.inr (Nat.le_of_not_lt fun hlt => hstops (carries_of_continues h ?_))
      rw [continues, Bool.and_eq_true]
      exact ⟨decide_eq_true hsemi, decide_eq_true hlt⟩
  taken := by
    obtain ⟨kinds, htakes, htree⟩ := (run_expression floor s).joins
    exact ⟨kinds, htakes.operators, htakes.semicolon, htree⟩

/-- **An expression stops only where it should.** Whatever entries are made in the tables, for any kinds and
    in any order, those of operators have the same kinds, and what binds more tightly than anything at all
    joins operands. The tables of a parser behind any calls are made by the entries among them. So with these
    tables no expression is given up for want of a rule, at whatever tokens: where one has been read, a
    semicolon follows, or nothing that binds more tightly than the context asks. And a semicolon is never
    taken as an operator, whatever the tables say of it. -/
theorem expression_stops :
    (∀ entries : List Entry,
      let tables := Dialect.standard.enterAll entries
      tables.Matched ∧ ∀ kind floor, floor < tables.powerOf kind → tables.joins kind = true) ∧
    ∀ (c : Cursor) (operations : List Operation),
      let s := (start .standard c).after operations
      s.dialect.toTables = Dialect.standard.enterAll (operations.filterMap Operation.entry?) ∧
        s.dialect.Matched ∧
        ∀ (t : Parser) (floor : Power), t.dialect = s.dialect → t.Stops floor := by
  have hmatched (entries : List Entry) : (Dialect.standard.enterAll entries).Matched :=
    Tables.matched_standard.enterAll entries
  refine ⟨fun entries => ⟨hmatched entries, fun _ _ hlt => (hmatched entries).joins_of_lt hlt⟩, ?_⟩
  intro c operations s
  have htables : s.dialect.toTables =
      Dialect.standard.enterAll (operations.filterMap Operation.entry?) := toTables_after _ operations
  have hs : s.dialect.Matched := by
    rw [htables]
    exact hmatched _
  refine ⟨htables, hs, fun t floor ht => stops_of_matched ?_ floor⟩
  rwa [ht]

/-- A semicolon that binds as tightly as a product, and a minus sign that binds less tightly than before:
    the semicolon still ends the expression in front of it. -/
theorem expression_stops_semicolon :
    let s := (start .standard (.ofString "-1*2;3")).after
      [.enter (.operator .semicolon .product) rfl, .enter (.operator .dash .equals) rfl]
    s.dialect.power .semicolon = some .product ∧ s.Stops .lowest ∧
      (s.expression .lowest).1.map Expr.render = some "((-1)*2)" ∧
      (s.expression .lowest).2.peek.kind = .semicolon ∧
      (s.expression .lowest).2.operators = [.star] := by
  intro s
  have hstops : s.Stops .lowest := (expression_stops.2 _ _).2.2 s .lowest rfl
  exact ⟨rfl, hstops, by decide +kernel, by decide +kernel, by decide +kernel⟩

end Parser

end LetLang
