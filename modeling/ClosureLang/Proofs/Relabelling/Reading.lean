import ClosureLang.Proofs.Relabelling.Trees

namespace ClosureLang

variable (f : Nat → Nat)

def Pending.relabel : Pending → Pending
  | .group => .group
  | .unary op line => .unary op (f line)
  | .joined left op line => .joined (left.relabel f) op (f line)
  | .assign target line => .assign (target.relabel f) (f line)
  | .arguments callee done => .arguments (callee.relabel f) (done.map (Expr.relabel f))

def Pending.Completed.relabel : Pending.Completed → Pending.Completed
  | .whole e => .whole (e.relabel f)
  | .grouped e rest => .grouped (e.relabel f) (rest.map (Pending.relabel f))
  | .argument callee done e rest =>
    .argument (callee.relabel f) (done.map (Expr.relabel f)) (e.relabel f)
      (rest.map (Pending.relabel f))
  | .badTarget line => .badTarget (f line)

def Use.relabel : Use → Use
  | .expression => .expression
  | .output => .output
  | .initial name line => .initial name (f line)
  | .ifCondition => .ifCondition
  | .loopCondition => .loopCondition
  | .result line => .result (f line)
  | .forCondition first => .forCondition (first.map (Stmt.relabel f))
  | .forIncrement first condition =>
    .forIncrement (first.map (Stmt.relabel f)) (condition.map (Expr.relabel f))

def FunctionHead.relabel (head : FunctionHead) : FunctionHead :=
  { head with line := f head.line }

def Open.relabel : Open → Open
  | .block done => .block (done.map (Stmt.relabel f))
  | .body head done => .body (head.relabel f) (done.map (Stmt.relabel f))
  | .thenBranch condition => .thenBranch (condition.relabel f)
  | .elseBranch condition yes => .elseBranch (condition.relabel f) (yes.relabel f)
  | .loopBody condition => .loopBody (condition.relabel f)
  | .forInitial => .forInitial
  | .forBody initial condition increment =>
    .forBody (initial.map (Stmt.relabel f)) (condition.map (Expr.relabel f))
      (increment.map (Expr.relabel f))

def Position.relabel : Position → Position
  | .declaration => .declaration
  | .statement => .statement
  | .operand use pending => .operand (use.relabel f) (pending.map (Pending.relabel f))
  | .operator use pending e =>
    .operator (use.relabel f) (pending.map (Pending.relabel f)) (e.relabel f)
  | .firstArgument use pending callee =>
    .firstArgument (use.relabel f) (pending.map (Pending.relabel f)) (callee.relabel f)
  | .completed s => .completed (s.relabel f)
  | .createName => .createName
  | .createRest name line => .createRest name (f line)
  | .functionName => .functionName
  | .functionOpen name line => .functionOpen name (f line)
  | .firstParameter name line => .firstParameter name (f line)
  | .parameter name line done => .parameter name (f line) done
  | .parameterRest name line done => .parameterRest name (f line) done
  | .functionBrace head => .functionBrace (head.relabel f)
  | .ifOpen => .ifOpen
  | .loopOpen => .loopOpen
  | .forOpen => .forOpen
  | .forStart => .forStart
  | .forCondition initial => .forCondition (initial.map (Stmt.relabel f))
  | .forIncrement initial condition =>
    .forIncrement (initial.map (Stmt.relabel f)) (condition.map (Expr.relabel f))
  | .resultStart line => .resultStart (f line)
  | .discard => .discard
  | .skip => .skip

/-- The builder with other lines in everything that it holds. -/
def Builder.relabel (b : Builder) : Builder where
  position := b.position.relabel f
  opened := b.opened.map (Open.relabel f)
  statements := b.statements.map (Stmt.relabel f)
  errors := b.errors.map (SyntaxError.relabel f)

theorem Connective.relabel_join (op : Connective) (left right : Expr) (line : Nat) :
    (op.join left right line).relabel f = op.join (left.relabel f) (right.relabel f) (f line) := by
  cases op <;> rfl

namespace Pending

theorem settle_relabel (level : Nat) (e : Expr) (pending : List Pending) :
    settle level (e.relabel f) (pending.map (relabel f)) =
      ((settle level e pending).1.relabel f, (settle level e pending).2.map (relabel f)) := by
  induction pending generalizing e with
  | nil => rfl
  | cons p rest ih =>
    cases p with
    | unary op line => exact ih (.unary op e line)
    | joined left op line =>
      simp only [List.map_cons, relabel, settle]
      split
      next => rw [← op.relabel_join, ih]
      next => rfl
    | group | assign | arguments => rfl

theorem complete_relabel (e : Expr) (pending : List Pending) :
    complete (e.relabel f) (pending.map (relabel f)) = (complete e pending).relabel f := by
  induction pending generalizing e with
  | nil => rfl
  | cons p rest ih =>
    cases p with
    | unary op line => exact ih (.unary op e line)
    | joined left op line =>
      simp only [List.map_cons, relabel, complete]
      rw [← op.relabel_join, ih]
    | assign target line =>
      cases target with
      | lookup name line => exact ih (.assign name e line)
      | literal | grouping | unary | binary | logical | assign | call => rfl
    | group | arguments => rfl

end Pending

@[simp]
theorem Open.isBlock_relabel (o : Open) : (o.relabel f).isBlock = o.isBlock := by
  cases o <;> rfl

@[simp]
theorem Open.isBody_relabel (o : Open) : (o.relabel f).isBody = o.isBody := by
  cases o <;> rfl

namespace Builder

variable (b : Builder) (t : Token)

@[simp]
theorem moveTo_relabel (position : Position) :
    (b.moveTo position).relabel f = (b.relabel f).moveTo (position.relabel f) := rfl

@[simp]
theorem enter_relabel (construct : Open) (position : Position) :
    (b.enter construct position).relabel f =
      (b.relabel f).enter (construct.relabel f) (position.relabel f) := rfl

@[simp]
theorem report_relabel (e : SyntaxError) :
    (b.report e).relabel f = (b.relabel f).report (e.relabel f) := rfl

@[simp]
theorem abandon_relabel (e : SyntaxError) (position : Position) :
    (b.abandon e position).relabel f =
      (b.relabel f).abandon (e.relabel f) (position.relabel f) := by
  simp [abandon, relabel, List.dropWhile_map, Function.comp_def]

theorem afterDropping_relabel :
    (afterDropping t).relabel f = afterDropping (t.relabel f) := by
  by_cases h : t.kind = .semicolon <;> simp [afterDropping, h, Position.relabel]

@[simp]
theorem fail_relabel (e : SyntaxError) :
    (b.fail e t).relabel f = (b.relabel f).fail (e.relabel f) (t.relabel f) := by
  rw [fail, abandon_relabel, afterDropping_relabel, fail]

@[simp]
theorem expected_relabel (message : String) :
    (b.expected message t).relabel f = (b.relabel f).expected message (t.relabel f) :=
  b.fail_relabel f t (.expectedToken message t.describe t.line)

@[simp]
theorem need_relabel (kind : TokenKind) (message : String) (next : Builder) :
    (b.need kind message t next).relabel f =
      (b.relabel f).need kind message (t.relabel f) (next.relabel f) := by
  by_cases h : t.kind = kind <;> simp [need, h]

theorem checkArguments_relabel (pending : List Pending) :
    (b.checkArguments pending t).relabel f =
      (b.relabel f).checkArguments (pending.map (Pending.relabel f)) (t.relabel f) := by
  cases pending with
  | nil => rfl
  | cons p rest =>
    cases p with
    | arguments callee done =>
      by_cases h : done.length = maxItems
      · simp [checkArguments, Pending.relabel, h]
        rfl
      · simp [checkArguments, Pending.relabel, h]
    | group | unary | joined | assign => rfl

theorem atOperand_relabel (use : Use) (pending : List Pending) :
    (b.atOperand use pending t).relabel f =
      (b.relabel f).atOperand (use.relabel f) (pending.map (Pending.relabel f)) (t.relabel f) := by
  unfold atOperand
  rw [← checkArguments_relabel]
  generalize b.checkArguments pending t = c
  rw [Token.relabel_kind]
  cases t.kind with
  | leftParen | bang | minus | identifier | number | string | true | false | nil => rfl
  | _ => exact c.fail_relabel f t (.expectedExpression t.describe t.line)

theorem afterExpression_relabel (use : Use) (e : Expr) :
    (b.afterExpression use e t).relabel f =
      (b.relabel f).afterExpression (use.relabel f) (e.relabel f) (t.relabel f) := by
  cases use <;> exact b.need_relabel f t _ _ _

theorem atEnd_relabel (use : Use) (pending : List Pending) (e : Expr) :
    (b.atEnd use pending e t).relabel f =
      (b.relabel f).atEnd (use.relabel f) (pending.map (Pending.relabel f)) (e.relabel f)
        (t.relabel f) := by
  unfold atEnd
  rw [Pending.complete_relabel]
  cases Pending.complete e pending with
  | whole e => exact b.afterExpression_relabel f t use e
  | grouped e rest => exact b.need_relabel f t _ _ _
  | argument callee done e rest =>
    by_cases h : t.kind = .comma
    · simp [Pending.Completed.relabel, h, Position.relabel, Pending.relabel]
    · simp [Pending.Completed.relabel, h, Position.relabel, Expr.relabel]
  | badTarget line => exact b.fail_relabel f t _

theorem atOperator_relabel (use : Use) (pending : List Pending) (e : Expr) :
    (b.atOperator use pending e t).relabel f =
      (b.relabel f).atOperator (use.relabel f) (pending.map (Pending.relabel f)) (e.relabel f)
        (t.relabel f) := by
  unfold atOperator
  simp only [Token.relabel_kind, Pending.settle_relabel]
  cases t.kind with
  | leftParen | equal | or | and | plus | minus | star | slash | less | greater | lessEqual
  | greaterEqual | equalEqual | bangEqual => rfl
  | _ => exact b.atEnd_relabel f t use pending e

theorem atStatement_relabel :
    (b.atStatement t).relabel f = (b.relabel f).atStatement (t.relabel f) := by
  have hbody : (b.relabel f).opened.any Open.isBody = b.opened.any Open.isBody := by
    simp [relabel, Function.comp_def]
  unfold atStatement
  simp only [Token.relabel_kind, hbody]
  cases t.kind with
  | «for» | «if» | «while» | output | leftBrace => rfl
  | «return» =>
    cases b.opened.any Open.isBody with
    | true => rfl
    | false => exact b.abandon_relabel f (.returnOutsideFunction t.line) .discard
  | _ => exact b.atOperand_relabel f t .expression []

theorem atDeclaration_relabel :
    (b.atDeclaration t).relabel f = (b.relabel f).atDeclaration (t.relabel f) := by
  have hs := b.atStatement_relabel f t
  obtain ⟨position, opened, statements, errors⟩ := b
  simp only [atDeclaration, Token.relabel_kind, relabel] at hs ⊢
  cases t.kind with
  | eof | create | func => rfl
  | rightBrace =>
    cases opened with
    | nil => exact hs
    | cons o rest =>
      cases o with
      | block done => simp [Open.relabel, Position.relabel, Stmt.relabel]
      | body head done =>
        simp [Open.relabel, Position.relabel, Stmt.relabel, FunctionHead.relabel]
      | thenBranch | elseBranch | loopBody | forInitial | forBody => exact hs
  | _ => exact hs

theorem atForCondition_relabel (initial : Option Stmt) :
    (b.atForCondition initial t).relabel f =
      (b.relabel f).atForCondition (initial.map (Stmt.relabel f)) (t.relabel f) := by
  by_cases h : t.kind = .semicolon
  · simp [atForCondition, h, Position.relabel]
  · simp [atForCondition, h, atOperand_relabel, Use.relabel]

theorem afterStatement_relabel (s : Stmt) (opened : List Open) :
    (b.afterStatement t s opened).relabel f =
      (b.relabel f).afterStatement (t.relabel f) (s.relabel f) (opened.map (Open.relabel f)) := by
  induction opened generalizing s with
  | nil => exact atDeclaration_relabel f _ t
  | cons o rest ih =>
    cases o with
    | block | body => exact atDeclaration_relabel f _ t
    | forInitial => exact atForCondition_relabel f _ t (some s)
    | thenBranch condition =>
      by_cases h : t.kind = .else
      · simp [afterStatement, Open.relabel, h, relabel, Position.relabel]
      · simp [afterStatement, Open.relabel, h, ih, Stmt.relabel]
    | elseBranch condition yes => exact ih (.ifElse condition yes s)
    | loopBody condition => exact ih (.loop condition s)
    | forBody initial condition increment =>
      simp only [afterStatement, List.map_cons, Open.relabel, ih, Stmt.relabel_forLoop]

theorem atParameter_relabel (name : String) (line : Nat) (done : List String) :
    (b.atParameter name line done t).relabel f =
      (b.relabel f).atParameter name (f line) done (t.relabel f) := by
  by_cases h : done.length = maxItems
  · simp [atParameter, h, Position.relabel]
    rfl
  · simp [atParameter, h, Position.relabel]

/-- A token is read alike whatever the lines are. -/
theorem feed_relabel : (b.feed t).relabel f = (b.relabel f).feed (t.relabel f) := by
  have hp : (b.relabel f).position = b.position.relabel f := rfl
  unfold feed
  rw [hp]
  cases b.position with
  | declaration => exact b.atDeclaration_relabel f t
  | statement => exact b.atStatement_relabel f t
  | operand use pending => exact b.atOperand_relabel f t use pending
  | operator use pending e => exact b.atOperator_relabel f t use pending e
  | firstArgument use pending callee =>
    by_cases h : t.kind = .rightParen
    · simp [Position.relabel, h, Expr.relabel]
    · simp [Position.relabel, h, atOperand_relabel, Pending.relabel]
  | completed s => exact b.afterStatement_relabel f t s b.opened
  | createRest name line =>
    by_cases h : t.kind = .equal
    · simp [Position.relabel, h, Use.relabel]
    · simp [Position.relabel, h, Stmt.relabel]
  | firstParameter name line =>
    by_cases h : t.kind = .rightParen
    · simp [Position.relabel, h, FunctionHead.relabel]
    · simp [Position.relabel, h, atParameter_relabel]
  | parameter name line done => exact b.atParameter_relabel f t name line done
  | parameterRest name line done =>
    by_cases h : t.kind = .comma
    · simp [Position.relabel, h]
    · simp [Position.relabel, h, FunctionHead.relabel]
  | createName | functionName | functionOpen | functionBrace | ifOpen | loopOpen | forOpen =>
    exact b.need_relabel f t _ _ _
  | forStart =>
    simp only [Position.relabel, Token.relabel_kind]
    cases t.kind with
    | semicolon | create => rfl
    | _ => exact atOperand_relabel f _ t .expression []
  | forCondition initial => exact b.atForCondition_relabel f t initial
  | forIncrement initial condition =>
    by_cases h : t.kind = .rightParen
    · simp [Position.relabel, h, Open.relabel]
    · simp [Position.relabel, h, atOperand_relabel, Use.relabel]
  | resultStart line =>
    by_cases h : t.kind = .semicolon
    · simp [Position.relabel, h, Stmt.relabel]
    · simp [Position.relabel, h, atOperand_relabel, Use.relabel]
  | discard => rw [moveTo_relabel, afterDropping_relabel]; rfl
  | skip =>
    have hd := b.atDeclaration_relabel f t
    have hm : (b.moveTo (afterDropping t)).relabel f =
        (b.relabel f).moveTo (afterDropping (t.relabel f)) := by
      rw [moveTo_relabel, afterDropping_relabel]
    simp only [Position.relabel, Token.relabel_kind]
    cases t.kind with
    | func | create | «for» | «if» | «while» | output | «return» => exact hd
    | _ => exact hm

theorem finish_relabel : (b.finish t).relabel f = (b.relabel f).finish (t.relabel f) := by
  have hcount : ((b.relabel f).feed (t.relabel f)).opened.countP Open.isBlock =
      (b.feed t).opened.countP Open.isBlock := by
    rw [← feed_relabel]
    simp [relabel, Function.comp_def]
  have hs : ((b.relabel f).feed (t.relabel f)).statements =
      (b.feed t).statements.map (Stmt.relabel f) := by
    rw [← feed_relabel]
    rfl
  have he : ((b.relabel f).feed (t.relabel f)).errors =
      (b.feed t).errors.map (SyntaxError.relabel f) := by
    rw [← feed_relabel]
    rfl
  have hline (message found : String) (line : Nat) :
      SyntaxError.relabel f (.expectedToken message found line) =
        .expectedToken message found (f line) := rfl
  simp [finish, Parsed.relabel, hcount, hs, he, hline]

/-- Tokens with other lines are read as the same trees and complaints, with the lines changed. -/
theorem run_relabel {tokens : List Token} (h : ∃ t ∈ tokens, t.kind = .eof) :
    (b.run tokens).relabel f = (b.relabel f).run (tokens.map (Token.relabel f)) := by
  induction tokens generalizing b with
  | nil => simp at h
  | cons t rest ih =>
    simp only [run, List.map_cons, Token.relabel_kind]
    by_cases ht : t.kind = .eof
    · simp only [ht, if_true, finish_relabel]
    · have hrest : ∃ t ∈ rest, t.kind = .eof := by simpa [ht] using h
      simp only [ht, if_false, ih _ hrest, feed_relabel]

end Builder

/-- A program with other lines is read as the same trees and complaints with other lines. -/
theorem parse_relabelled {tokens : List Token} (h : ∃ t ∈ tokens, t.kind = .eof) :
    parse (tokens.map (Token.relabel f)) = (parse tokens).relabel f :=
  (Builder.start.run_relabel f h).symm

end ClosureLang
