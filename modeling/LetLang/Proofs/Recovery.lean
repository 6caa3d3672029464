import LetLang.Proofs.Progress
import LetLang.Proofs.Statements

/-!
# `LetLang.Proofs.Recovery` — where the parser picks up after a mistake

Each attempt at a statement uses up some tokens, and the next attempt begins behind them. So the attempts
cut a source into segments, none of them empty, and each segment is either one statement of the program or
the reason for one diagnostic. A statement's segment is made of its own tokens; a segment that is refused
ends at the token that is to blame, or right in front of it.

## Contents
- `Expr.nodes`, `Stmt.nodes`: the tokens that a tree keeps, in the order of the source.
  `DerivesStmt.filter_eq` finds them among the tokens of the statement.
- `Outcome`, `Segment`, `Segment.Covers`: one attempt, and what its tokens have to do with the outcome.
- `Partition`: a list of tokens cut into segments.
- `Loop.partition`, `parse_partitions`: the segments of the loop, and of a source.
-/

namespace LetLang

/-! ## The tokens of a tree -/

/-- The tokens that the nodes of an expression have been read from, from left to right. -/
def Expr.nodes : Expr → List Token
  | identifier id => [id.token]
  | integer token _ => [token]
  | boolean token _ => [token]
  | unary token _ right => token :: right.nodes
  | binary token left _ right => left.nodes ++ token :: right.nodes

/-- The tokens that the nodes of a statement have been read from. An expression that stands alone has no
    token besides those of its tree, since the one it begins with is among them or is a parenthesis. -/
def Stmt.nodes : Stmt → List Token
  | bind token name value => token :: name.token :: value.nodes
  | ret token value => token :: value.nodes
  | expr _ value => value.nodes

/-- Is the token one that no node keeps: a parenthesis, the sign of a binding, or a semicolon? -/
def Token.isFrame (token : Token) : Bool :=
  token.isOneOf [.openParen, .closeParen, .assign, .semicolon]

section

variable {token : Token} {tokens : List Token}

theorem filter_frame (h : token.isFrame = true) :
    (token :: tokens).filter (!·.isFrame) = tokens.filter (!·.isFrame) := by
  simp [h]

theorem filter_node (h : token.isFrame = false) :
    (token :: tokens).filter (!·.isFrame) = token :: tokens.filter (!·.isFrame) := by
  simp [h]

theorem isFrame_of_kind {kind : Kind} (h : token.kind = kind) :
    token.isFrame = [.openParen, .closeParen, .assign, .semicolon].contains kind := by
  rw [Token.isFrame, Token.isOneOf, h]

/-- An operator between operands is a node of the tree. -/
theorem isFrame_of_binary {tier : Tier} (h : token.kind ∈ tier.operators) :
    token.isFrame = false := by
  have hmem := Tier.mem_binaryOperators h
  rw [isFrame_of_kind rfl]
  revert hmem
  generalize token.kind = kind
  cases kind <;> decide

/-- **Apart from parentheses, the tokens of an expression are its nodes.** -/
theorem Derives.filter_eq {tier : Tier} {e : Expr} (h : Derives tier tokens e) :
    tokens.filter (!·.isFrame) = e.nodes := by
  induction h with
  | name h | number h => exact filter_node (isFrame_of_kind h)
  | truth h => rcases h with h | h <;> exact filter_node (isFrame_of_kind h)
  | group hopen _ hclose ih =>
      rw [filter_frame (isFrame_of_kind hopen), List.filter_append, ih,
        filter_frame (isFrame_of_kind hclose), List.filter_nil, List.append_nil]
  | @unary op _ _ hop _ ih =>
      have hnode : op.isFrame = false := by
        rcases hop with h | h <;> exact isFrame_of_kind h
      rw [filter_node hnode, ih, Expr.nodes]
  | binary _ hop _ ihleft ihright =>
      rw [List.filter_append, filter_node (isFrame_of_binary hop), ihleft, ihright, Expr.nodes]
  | tighter _ ih => exact ih

/-- **Apart from parentheses and the sign of a binding, the tokens of a statement are its nodes.** -/
theorem DerivesStmt.filter_eq {stmt : Stmt} (h : DerivesStmt tokens stmt) :
    tokens.filter (!·.isFrame) = stmt.nodes := by
  cases h with
  | bind hword hname hsign h =>
      rw [filter_node (isFrame_of_kind hword), filter_node (isFrame_of_kind hname),
        filter_frame (isFrame_of_kind hsign), h.filter_eq, Stmt.nodes]
  | ret hword h => rw [filter_node (isFrame_of_kind hword), h.filter_eq, Stmt.nodes]
  | expr h => exact h.filter_eq

/-- The first token of a statement is the one that the statement keeps. -/
theorem DerivesStmt.head?_eq {stmt : Stmt} (h : DerivesStmt tokens stmt) :
    tokens.head? = some stmt.token := by
  cases h <;> rfl

end

/-! ## Segments -/

/-- What an attempt at a statement comes to. -/
inductive Outcome where
  | read (stmt : Stmt)
  | refused (diagnostic : Diagnostic)

/-- The tokens of one attempt, with what it has come to. -/
structure Segment where
  tokens : List Token
  outcome : Outcome

namespace Segment

/-- The kind of the first token. -/
def kind (segment : Segment) : Kind := (segment.tokens.headD .eof).kind

/-- The statement, if there is one. -/
def stmt? (segment : Segment) : Option Stmt :=
  match segment.outcome with
  | .read stmt => some stmt
  | .refused _ => none

/-- The diagnostic, if there is one. -/
def diagnostic? (segment : Segment) : Option Diagnostic :=
  match segment.outcome with
  | .read _ => none
  | .refused diagnostic => some diagnostic

/-- The tokens of the segment, which the tokens `rest` follow, are those of its outcome. A statement is
    made of its own tokens and perhaps a semicolon. A token that cannot be read is the last one of its
    segment; one that has come in place of another is the first one behind it. -/
def Covers (segment : Segment) (rest : List Token) : Prop :=
  match segment.outcome with
  | .read stmt =>
    segment.tokens.head? = some stmt.token ∧
    segment.tokens.filter (!·.isFrame) = stmt.nodes ∧
    ∃ taken ending, segment.tokens = taken ++ ending ∧ DerivesStmt taken stmt ∧
      (ending = [] ∨ ∃ semi, ending = [semi] ∧ semi.kind = .semicolon)
  | .refused (.badInteger text) => segment.tokens.getLast? = some ⟨.int, text⟩
  | .refused (.noOperand kind) =>
    if kind = .eof then rest = [] else segment.tokens.getLast?.map Token.kind = some kind
  | .refused (.unexpectedToken _ got) => (rest.headD .eof).kind = got

/-- A segment begins at the token that its attempt begins at. -/
theorem kind_eq {segment : Segment} {first : Token} {tokens rest : List Token}
    (hne : segment.tokens ≠ []) (h : first :: tokens = segment.tokens ++ rest) :
    segment.kind = first.kind := by
  obtain ⟨first', more, hcons⟩ := List.exists_cons_of_ne_nil hne
  rw [hcons] at h
  rw [Segment.kind, hcons, (List.cons.inj h).1, List.headD_cons]

end Segment

/-- `Partition tokens segments`: the tokens are those of the segments, one after the other, and each
    segment has at least one. -/
inductive Partition : List Token → List Segment → Prop where
  | nil : Partition [] []
  | cons {segment : Segment} {rest : List Token} {segments : List Segment}
      (hne : segment.tokens ≠ []) (hcovers : segment.Covers rest) (h : Partition rest segments) :
      Partition (segment.tokens ++ rest) (segment :: segments)

theorem Partition.flatMap_eq {tokens : List Token} {segments : List Segment}
    (h : Partition tokens segments) : segments.flatMap Segment.tokens = tokens := by
  induction h with
  | nil => rfl
  | cons _ _ _ ih => rw [List.flatMap_cons, ih]

namespace Parser

variable {s t u : Parser} {tokens taken rest : List Token} {stmts : List Stmt}

/-! ## One attempt -/

/-- A statement that has been read covers its tokens. -/
theorem covers_read {stmt : Stmt} {ending : List Token} (h : DerivesStmt taken stmt)
    (hends : Ends ending rest) : Segment.Covers ⟨taken ++ ending, .read stmt⟩ rest := by
  have hending : ending = [] ∨ ∃ semi, ending = [semi] ∧ semi.kind = .semicolon := by
    cases hends with
    | semicolon h => exact .inr ⟨_, rfl, h⟩
    | nothing => exact .inl rfl
  refine ⟨?_, ?_, taken, ending, rfl, h, hending⟩
  · rw [List.head?_append, h.head?_eq, Option.some_or]
  · have hframe : ending.filter (!·.isFrame) = [] := by
      rcases hending with rfl | ⟨semi, rfl, hsemi⟩
      · rfl
      · exact filter_frame (isFrame_of_kind hsemi)
    rw [List.filter_append, h.filter_eq, hframe, List.append_nil]

/-- Where a parser halts at the end, what it has gone through is refused up to the end. -/
theorem Halts.covers_end {d : Diagnostic} (h : t.Halts d) (ht : t.Reads []) :
    Segment.Covers ⟨taken, .refused d⟩ [] := by
  obtain rfl := h.eq_noOperand (ht.current_kind_eq_eof_iff.mpr rfl)
  exact rfl

/-- An integer that cannot be read is the token that the parser stands at. -/
theorem current_of_badInteger {text : String} (h : (Diagnostic.badInteger text).Fits t)
    (hdialect : t.dialect = .standard) : t.current = ⟨.int, text⟩ := by
  obtain ⟨rfl, _, hrule⟩ := h
  have hkind : t.current.kind = .int := by
    simpa [Dialect.operandKinds] using kind_mem_operandKinds hdialect hrule
  rw [← hkind]

/-- Where it halts at a token, what it has gone through is refused with that token. -/
theorem Halts.covers {d : Diagnostic} (h : t.Halts d) (hdialect : t.dialect = .standard)
    {last : Token} (ht : t.Reads (last :: rest)) :
    Segment.Covers ⟨taken ++ [last], .refused d⟩ rest := by
  obtain ⟨_, hfits⟩ := h
  have hlast : (taken ++ [last]).getLast? = some t.current := by
    rw [ht.current_eq, List.getLast?_concat]
  cases d with
  | noOperand kind =>
      obtain ⟨rfl, _⟩ := hfits
      have hne := mt ht.current_kind_eq_eof_iff.mp (List.cons_ne_nil last rest)
      simp only [Segment.Covers, if_neg hne, hlast, Option.map_some]
  | badInteger text =>
      rw [current_of_badInteger hfits hdialect] at hlast
      exact hlast
  | unexpectedToken expected got =>
      obtain ⟨rfl, _⟩ := hfits
      show (rest.headD .eof).kind = t.peek.kind
      rw [ht.before.peek_eq]

/-- **An attempt goes through one segment**, and the parser moves on to what follows it. -/
theorem Attempt.segment {result : Option Stmt}
    (h : Attempt s.rule (s.note (.statement s.current.kind)) result t)
    (hdialect : s.dialect = .standard) (hs : s.Reads tokens) (hne : s.current.kind ≠ .eof) :
    ∃ (segment : Segment) (rest : List Token), tokens = segment.tokens ++ rest ∧
      segment.tokens ≠ [] ∧ segment.Covers rest ∧ t.advance.Reads rest ∧
      result = segment.stmt? ∧
      t.diagnostics.toList = s.diagnostics.toList ++ segment.diagnostic?.toList := by
  have haccounts := h.accounts
  cases result with
  | some stmt =>
      obtain ⟨taken, ending, rest, rfl, hstmt, hends, ht⟩ := h.sound_note hdialect hs hne
      obtain ⟨first, more, hcons, _⟩ := hstmt.exists_cons
      have hsame : t.diagnostics = s.diagnostics := haccounts
      refine ⟨⟨taken ++ ending, .read stmt⟩, rest, (List.append_assoc ..).symm, ?_,
        covers_read hstmt hends, ht.advance, rfl, by simp [hsame, Segment.diagnostic?]⟩
      simp [hcons]
  | none =>
      obtain ⟨hpaced, d, hhalts⟩ := h.lands hne
      obtain ⟨taken, rest, rfl, ht, _⟩ := hpaced (hs.note _)
      have hpush : t.diagnostics = s.diagnostics.push d := hhalts.diagnostics_eq haccounts
      have hlist : t.diagnostics.toList = s.diagnostics.toList ++ [d] := by simp [hpush]
      cases rest with
      | nil =>
          have hnil := mt hs.current_kind_eq_eof_iff.mpr hne
          exact ⟨⟨taken, .refused d⟩, [], rfl, by simpa using hnil, hhalts.covers_end ht,
            ht.advance, rfl, hlist⟩
      | cons last rest =>
          have hcovers : Segment.Covers ⟨taken ++ [last], .refused d⟩ rest :=
            hhalts.covers (h.dialect_eq.trans hdialect) ht
          exact ⟨⟨taken ++ [last], .refused d⟩, rest, by simp, by simp, hcovers, ht.advance, rfl,
            hlist⟩

/-! ## All attempts -/

/-- **The loop cuts its tokens into segments.** Their outcomes, in order, are the statements that it gives
    and the diagnostics that it records, and their beginnings are where it attempts statements. -/
theorem Loop.partition (h : Loop s stmts u) (hdialect : s.dialect = .standard)
    (hs : s.Reads tokens) :
    ∃ segments, Partition tokens segments ∧ stmts = segments.filterMap Segment.stmt? ∧
      u.diagnostics.toList = s.diagnostics.toList ++ segments.filterMap Segment.diagnostic? ∧
      u.attempted = s.attempted ++ segments.map Segment.kind := by
  induction h generalizing tokens with
  | done heof =>
      obtain rfl := hs.current_kind_eq_eof_iff.mp heof
      exact ⟨[], .nil, by simp⟩
  | @step s t u result stmts hne hattempt hloop ih =>
      obtain ⟨segment, rest, rfl, hsegment, hcovers, ht, rfl, hdiagnostics⟩ :=
        hattempt.segment hdialect hs hne
      obtain ⟨segments, hpartition, rfl, hmore, hattempted⟩ :=
        ih (hattempt.dialect_eq.trans hdialect) ht
      obtain ⟨_, hcons⟩ := hs.exists_cons hne
      have hkind := Segment.kind_eq hsegment hcons.symm
      refine ⟨segment :: segments, .cons hsegment hcovers hpartition, ?_, ?_, ?_⟩
      · cases hstmt : segment.stmt? <;> simp [hstmt]
      · rw [hmore, show t.advance.diagnostics = t.diagnostics from rfl, hdiagnostics]
        cases hd : segment.diagnostic? <;> simp [hd]
      · rw [hattempted, attempted_advance, hattempt.attempted_eq]
        simp [hkind]

end Parser

/-- **The attempts at statements partition a source.** Its tokens are cut into segments, one for each
    attempt, with nothing between them and nothing in two of them. What the segments come to, in order,
    are the statements of the program and the diagnostics. -/
theorem parse_partitions (source : String) :
    ∃ segments, Partition (Cursor.ofString source).tokens segments ∧
      segments.flatMap Segment.tokens = (Cursor.ofString source).tokens ∧
      (parse source).1.statements = segments.filterMap Segment.stmt? ∧
      (parse source).2.diagnostics.toList = segments.filterMap Segment.diagnostic? ∧
      (parse source).2.attempted = segments.map Segment.kind := by
  have hs := Parser.reads_start .standard (.ofString source)
  obtain ⟨segments, hpartition, hstmts, hdiagnostics, hattempted⟩ :=
    (Parser.start .standard (.ofString source)).loop_statements.partition rfl hs
  refine ⟨segments, hpartition, hpartition.flatMap_eq, hstmts, hdiagnostics, ?_⟩
  simpa [parse, Parser.program] using hattempted

end LetLang
