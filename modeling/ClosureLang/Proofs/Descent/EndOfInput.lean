import ClosureLang.Proofs.Descent.Recovery

namespace ClosureLang

/-- The line of the first end token; the end of the list counts as one on line 0. -/
def endLine (ts : List Token) : Nat :=
  (ts.find? (·.kind = .eof)).elim 0 Token.line

namespace Builder

variable {b : Builder} {t : Token}

theorem afterStatement_endOfInput (h : t.kind = .eof) (s : Stmt) (opened : List Open) :
    b.afterStatement t s opened = b.afterStatement (.endOfInput t.line) s opened := by
  obtain ⟨kind, lexeme, literal, line⟩ := t
  cases h
  induction opened generalizing s with
  | nil => rfl
  | cons construct rest ih =>
    cases construct with
    | thenBranch condition => exact ih _
    | elseBranch condition yes => exact ih _
    | loopBody condition => exact ih _
    | forBody initial condition increment => exact ih _
    | _ => rfl

/-- Of an end token a builder sees the line only. -/
theorem feed_endOfInput (h : t.kind = .eof) : b.feed t = b.feed (.endOfInput t.line) := by
  obtain ⟨p, opened, ss, es⟩ := b
  cases p with
  | completed s => exact afterStatement_endOfInput h s opened
  | operator use pending e =>
    obtain ⟨kind, lexeme, literal, line⟩ := t
    cases h
    change atEnd _ use pending e _ = atEnd _ use pending e _
    unfold atEnd
    split
    next => cases use <;> rfl
    all_goals rfl
  | _ =>
    obtain ⟨kind, lexeme, literal, line⟩ := t
    cases h
    rfl

theorem finish_endOfInput (h : t.kind = .eof) : b.finish t = b.finish (.endOfInput t.line) := by
  rw [finish_eq_conclude, finish_eq_conclude, feed_endOfInput h]
  unfold conclude Token.describe
  rw [if_pos h]
  rfl

/-- Nothing behind the first end token is read, and nothing of it but its line. -/
theorem run_eq_run_takeWhile {ts : List Token} (h : t.kind = .eof) (hl : t.line = endLine ts) :
    b.run ts = b.run (ts.takeWhile (·.kind ≠ .eof) ++ [t]) := by
  induction ts generalizing b with
  | nil =>
    have hline : t.line = 0 := hl
    rw [List.takeWhile_nil, List.nil_append, run, run, if_pos h, finish_endOfInput h, hline]
  | cons u ts ih =>
    by_cases hu : u.kind = .eof
    · have hline : t.line = u.line := by simpa [endLine, hu] using hl
      simp only [hu, List.takeWhile_cons, ne_eq, not_true, decide_false, Bool.false_eq_true,
        if_false, List.nil_append]
      rw [run, run, if_pos hu, if_pos h, finish_endOfInput h, finish_endOfInput hu, hline]
    · have hline : t.line = endLine ts := by simpa [endLine, hu] using hl
      simp only [hu, List.takeWhile_cons, ne_eq, not_false_eq_true, decide_true, if_true,
        List.cons_append]
      rw [run, run, if_neg hu, if_neg hu, ih hline]

end Builder

namespace Descent

variable {α ι : Type} {ts : List Token}

/-- Wherever it starts before the first end token, the procedure ends, in a result or a mistake,
with the cursor neither moved back nor past that token. -/
def Ends (ts : List Token) (p : Descent α) : Prop :=
  ∀ c : Cursor, c.InText ts →
    ∃ r c', p c = some (r, c') ∧ c.current ≤ c'.current ∧ c'.InText ts

/-- A procedure that tracks builders ends. -/
theorem Tracks.ends {p : Descent α} {c : Cursor} {start : ι → Parsed} {base : ι → Builder}
    {done : ι → α → Cursor → Parsed} {post : α → Cursor → Prop}
    (h : Tracks ts p c start base done post) :
    ∃ r c', p c = some (r, c') ∧ c.current ≤ c'.current ∧ c'.InText ts := by
  obtain ⟨r, c', hrun, hle, hc', _⟩ := h
  exact ⟨r, c', hrun, hle, hc'⟩

/-- Every procedure that can move the cursor ends. -/
structure ProceduresEnd (ts : List Token) : Prop where
  advance : Ends ts (advance ts)
  consume : ∀ kind message, Ends ts (consume ts kind message)
  skip : Ends ts (skip ts)
  synchronize : Ends ts (synchronize ts)
  expression : Ends ts (expression ts)
  level : ∀ n, 1 ≤ n → n ≤ 7 → Ends ts (level ts n)
  joined : ∀ n left, 1 ≤ n → n ≤ 6 → Ends ts (joined ts n left)
  unary : Ends ts (unary ts)
  calls : ∀ callee, Ends ts (calls ts callee)
  arguments : Ends ts (arguments ts)
  argumentsAfter : ∀ done, Ends ts (argumentsAfter ts done)
  primary : Ends ts (primary ts)
  optional : ∀ kind, Ends ts (optional ts kind)
  expressionStatement : Ends ts (expressionStatement ts)
  outputStatement : Ends ts (outputStatement ts)
  returnStatement : ∀ inside line, Ends ts (returnStatement ts inside line)
  varDeclaration : Ends ts (varDeclaration ts)
  parameters : Ends ts (parameters ts)
  parametersAfter : ∀ done, Ends ts (parametersAfter ts done)
  forInitial : Ends ts (forInitial ts)
  condition : ∀ opening closing, Ends ts (condition ts opening closing)
  statement : ∀ inside, Ends ts (statement ts inside)
  forStatement : ∀ inside, Ends ts (forStatement ts inside)
  ifStatement : ∀ inside, Ends ts (ifStatement ts inside)
  whileStatement : ∀ inside, Ends ts (whileStatement ts inside)
  functionDeclaration : Ends ts (functionDeclaration ts)
  declaration : ∀ inside, Ends ts (declaration ts inside)
  declarationOrRecover : ∀ inside, Ends ts (declarationOrRecover ts inside)
  block : ∀ inside done, Ends ts (block ts inside done)
  program : ∀ done, Ends ts (program ts done)

theorem consume_ends (kind : TokenKind) (message : String) : Ends ts (consume ts kind message) := by
  intro c hc
  by_cases h : (c.peek ts).kind = kind
  · exact ⟨_, c.next ts, consume_of_eq h, c.le_next, hc.next⟩
  · exact ⟨_, c, consume_of_ne h, Nat.le_refl _, hc⟩

theorem primary_ends : Ends ts (primary ts) := by
  intro c hc
  by_cases hk : (c.peek ts).kind = .bang ∨ (c.peek ts).kind = .minus
  · have hrun : primary ts c =
        some (.error (.expectedExpression (c.peek ts).describe (c.peek ts).line), c) := by
      rw [primary.eq_1, bind_ok (p := look ts) rfl]
      obtain hk | hk := hk <;> simp only [hk] <;> rfl
    exact ⟨_, c, hrun, Nat.le_refl _, hc⟩
  · rw [not_or] at hk
    exact (primary_tracks hc (fun _ hc' _ => expressionsTrack hc') hk.1 hk.2).ends

theorem returnStatement_ends (inside : Bool) (line : Nat) :
    Ends ts (returnStatement ts inside line) := by
  intro c hc
  cases inside with
  | true => exact (returnStatement_tracks (fun i : Empty => i.elim) line hc).ends
  | false => exact ⟨_, c, rfl, Nat.le_refl _, hc⟩

theorem proceduresEnd (ts : List Token) : ProceduresEnd ts := by
  -- What a procedure does for no builder at all is to end.
  let b : Empty → Builder := Empty.elim
  exact
    { advance := fun c hc => ⟨_, c.next ts, rfl, c.le_next, hc.next⟩
      consume := consume_ends
      skip := fun c hc =>
        have ⟨c', hrun, hle, hc', _⟩ := skip_tracks hc
        ⟨_, c', hrun, hle, hc'⟩
      synchronize := fun c hc =>
        have ⟨c', hrun, hle, hc', _⟩ := synchronize_tracks hc
        ⟨_, c', hrun, hle, hc'⟩
      expression := fun c hc => (expressionsTrack hc).expression.ends
      level := fun n h₁ h₇ c hc => ((expressionsTrack hc).level n h₁ h₇).ends
      joined := fun n left h₁ h₆ c hc => ((expressionsTrack hc).joined n left h₁ h₆).ends
      unary := fun c hc => (expressionsTrack hc).unary.ends
      calls := fun callee c hc => ((expressionsTrack hc).calls callee).ends
      arguments := fun c hc => ((expressionsTrack hc).arguments (.literal .nil)).ends
      argumentsAfter := fun done c hc =>
        ((expressionsTrack hc).argumentsAfter (.literal .nil) done).ends
      primary := primary_ends
      optional := fun kind c hc =>
        (@optional_tracks Empty ts c kind "" b nofun nofun hc nofun).ends
      expressionStatement := fun c hc => (expressionStatement_tracks b hc).ends
      outputStatement := fun c hc => (outputStatement_tracks b hc).ends
      returnStatement := returnStatement_ends
      varDeclaration := fun c hc => (varDeclaration_tracks b hc).ends
      parameters := fun c hc => (@parameters_tracks Empty ts c "" 0 b hc).ends
      parametersAfter := fun done c hc => (@parametersAfter_tracks Empty ts c "" 0 b hc done).ends
      forInitial := fun c hc => (forInitial_tracks b hc).ends
      condition := fun opening closing c hc =>
        (@condition_tracks Empty ts c opening closing .ifOpen .ifCondition .thenBranch b hc
          nofun nofun).ends
      statement := fun inside c hc => ((statementsTrack hc).statement inside b nofun).ends
      forStatement := fun inside c hc =>
        (forStatement_tracks inside b hc (laterStatements ts c) nofun).ends
      ifStatement := fun inside c hc =>
        (ifStatement_tracks inside b hc (laterStatements ts c) nofun).ends
      whileStatement := fun inside c hc =>
        (whileStatement_tracks inside b hc (laterStatements ts c) nofun).ends
      functionDeclaration := fun c hc =>
        (functionDeclaration_tracks b hc (laterStatements ts c)).ends
      declaration := fun inside c hc =>
        (declaration_tracks inside b hc (laterStatements ts c) nofun nofun nofun).ends
      declarationOrRecover := fun inside c hc =>
        have ⟨_, c', hrun, hle, hc', _⟩ :=
          declarationOrRecover_tracks inside hc (laterStatements ts c)
        ⟨_, c', hrun, hle, hc'⟩
      block := fun inside done c hc =>
        ((statementsTrack hc).block inside done (fun i : Empty => i.elim) nofun).ends
      program := fun done c hc =>
        have ⟨_, c', hrun, hle, hend, _⟩ := program_tracks hc done
        ⟨_, c', hrun, hle, hend.le⟩ }

end Descent

/-- Reading by procedures ends on every list of tokens, at the first end token, and gives what the
builder gives. No procedure moves the cursor back or past the first end token, and a declaration
that does not start at the end moves it on, also where it is given up. What is read is a matter of
the tokens before the first end token and of its line. -/
theorem parse_ends_at_first_end (ts : List Token) :
    (∃ ss c, Descent.program ts [] ⟨0, []⟩ = some (.ok ss, c) ∧ c.current = endIndex ts ∧
      parse ts = ⟨ss, c.errors.reverse⟩) ∧
    Descent.ProceduresEnd ts ∧
    (∀ inside (c : Cursor), c.InText ts → (c.peek ts).kind ≠ .eof →
      ∃ r c', Descent.declarationOrRecover ts inside c = some (.ok r, c') ∧
        c.current < c'.current ∧ c'.InText ts) ∧
    ∀ t : Token, t.kind = .eof → t.line = endLine ts →
      parse ts = parse (ts.takeWhile (·.kind ≠ .eof) ++ [t]) := by
  refine ⟨?_, Descent.proceduresEnd ts, fun inside c hc hne => ?_, fun t ht hl =>
    Builder.run_eq_run_takeWhile ht hl⟩
  · have hstart : Cursor.InText ts ⟨0, []⟩ := Nat.zero_le _
    obtain ⟨ss, c, hrun, _, hend, hreads⟩ := Descent.program_tracks hstart []
    exact ⟨ss, c, hrun, hend, hreads⟩
  · obtain ⟨r, c', hrun, _, hc', hlt, _⟩ :=
      Descent.declarationOrRecover_tracks inside hc (Descent.laterStatements ts c)
    exact ⟨r, c', hrun, hlt hne, hc'⟩

/-- A block whose first statement has a mistake, an end token, and more behind it. -/
def brokenBlock : List Token :=
  [.make .leftBrace "\x7b" 1, .make .output "output" 1, .make .semicolon ";" 1,
   .make .output "output" 2, .make .identifier "a" 2, .make .semicolon ";" 2,
   .make .rightBrace "\x7d" 2, .make .eof "eof" 3, .make .rightParen ")" 4]

/-- The mistake in the block is given up with the cursor moved on, and what is behind the end token
is not looked at. -/
theorem parse_ends_at_first_end_brokenBlock :
    (∃ r c', Descent.declarationOrRecover brokenBlock false ⟨1, []⟩ = some (.ok r, c') ∧
      1 < c'.current ∧ c'.InText brokenBlock) ∧
    parse brokenBlock = parse (brokenBlock.take 7 ++ [.endOfInput 3]) := by
  obtain ⟨_, _, hmoves, hsame⟩ := parse_ends_at_first_end brokenBlock
  exact ⟨hmoves false ⟨1, []⟩ (by unfold Cursor.InText; decide) (by decide),
    hsame (.endOfInput 3) rfl (by decide)⟩

end ClosureLang
